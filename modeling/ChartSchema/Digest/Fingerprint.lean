import ChartSchema.DataSource
import ChartSchema.Digest.Sha256

/-!
# Fingerprints of requests

A request is known by the SHA-256 digest of its method, address, parameters, body and the number
of times that the shape of its source has changed. The parts are put one after another with zero
bytes between them, and parameters in the order of their names.
-/

namespace ChartSchema

/-- The parts of a request that its fingerprint depends on. -/
structure FingerprintInput where
  method : String
  url : String
  params : Fields Json
  body : Option Json
  cacheBust : Nat

namespace FingerprintInput

/-- The bytes of a text in UTF-8. -/
def utf8 (text : String) : List UInt8 :=
  text.toList.flatMap String.utf8EncodeChar

/-- A counter as eight bytes, the least significant first. -/
def counterBytes (counter : Nat) : List UInt8 :=
  (List.range 8).map fun i => UInt8.ofNat (counter >>> (8 * i))

/-- A parameter with its mark and its end. -/
def paramBytes (name : String) (value : Json) : List UInt8 :=
  utf8 name ++ utf8 "=" ++ utf8 value.toText ++ utf8 "&"

/-- The bytes that are hashed. -/
def bytes (input : FingerprintInput) : List UInt8 :=
  utf8 (String.ofList (input.method.toList.map Char.toUpper)) ++ [0] ++ utf8 input.url ++ [0] ++
    (input.params.flatMap fun (name, value) => paramBytes name value) ++ [0] ++
    ((input.body.map fun body => utf8 body.toText).getD []) ++ [0] ++
    counterBytes input.cacheBust

end FingerprintInput

/-- The digits of a byte, two of them. -/
def hexByte (byte : UInt8) : List Char :=
  [Json.hexDigit (byte.toNat / 16), Json.hexDigit (byte.toNat % 16)]

/-- The fingerprint of a request in hexadecimal digits. -/
def fingerprint (input : FingerprintInput) : String :=
  String.ofList ((Sha256.digest input.bytes).flatMap hexByte)

end ChartSchema
