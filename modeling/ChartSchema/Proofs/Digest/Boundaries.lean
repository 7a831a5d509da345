import Mathlib.Algebra.Group.Nat.Defs
import ChartSchema.Digest.Fingerprint
import ChartSchema.Proofs.Json.Quotation

/-!
# Boundaries in hashed requests

The parts of a request are hashed one after another, and nothing escapes the marks between them. An
input is **determined** when every input with the same bytes is the same request.

The body and the counter can always be told from the bytes: the counter has eight bytes at the end,
and the text of a body holds no zero byte, so that it stands between the last two of them
(`parts_of_bytes_eq`). The rest can be told exactly when it is `Unambiguous`. A zero byte in the
method, in an address or in a name shifts a boundary, two parameters have the bytes of one with a
longer name, and a single name can hold the bytes of earlier parameters. Nothing else goes wrong,
but this does: two everyday requests share a fingerprint (`params_imitated`).

The two directions are proved apart. That an unambiguous request is determined follows from cutting
its text at the marks, one part after the other (`determined_of_unambiguous`). In the other
direction each way of being ambiguous gives another request with the same bytes, which is written
down (`Determined.nul_notMem_verb` and those behind it).

Statements about bytes are turned into statements about characters first, since encoding a text is
injective and keeps pieces apart (`encode_injective`, `encode_append`). From the fingerprint, which
is the digest in digits, one only comes back to the digest; that no two of the inputs at hand have
the same digest has to be assumed.
-/

namespace ChartSchema

namespace FingerprintInput

/-- The parameters are a map and the counter has 64 bits. -/
structure WellFormed (input : FingerprintInput) : Prop where
  ordered : Fields.Ordered input.params
  counter : input.cacheBust < 2 ^ 64

/-- The method in capitals. -/
def verb (input : FingerprintInput) : List Char :=
  input.method.toList.map Char.toUpper

/-- Two inputs are the same request: methods are compared in capitals and values by their texts. -/
structure SameRequest (a b : FingerprintInput) : Prop where
  verb : a.verb = b.verb
  url : a.url = b.url
  params : Fields.mapValues Json.toText a.params = Fields.mapValues Json.toText b.params
  body : a.body.map Json.toText = b.body.map Json.toText
  cacheBust : a.cacheBust = b.cacheBust

/-- Every input with the same bytes is the same request. -/
def Determined (input : FingerprintInput) : Prop :=
  ∀ other : FingerprintInput, other.WellFormed → other.bytes = input.bytes → other.SameRequest input

/-- A name that holds the text of earlier parameters, smaller than what is left of it. -/
def NameImitates (name : String) : Prop :=
  ∃ (first last : String) (value : Json),
    name = first ++ "=" ++ value.toText ++ "&" ++ last ∧ first < last

/-- No boundary of the request can be imitated by its parts. -/
def Unambiguous (input : FingerprintInput) : Prop :=
  '\x00' ∉ input.verb ∧
    match input.params with
    | [] => ∀ front back, input.url.toList = front ++ '\x00' :: back →
        front.map Char.toUpper ≠ front
    | [(name, _)] => '\x00' ∉ input.url.toList ∧ '\x00' ∉ name.toList ∧ ¬NameImitates name
    | _ => False

/-! ### From bytes to characters -/

/-- The bytes of a list of characters in UTF-8. -/
def encode (text : List Char) : List UInt8 :=
  text.flatMap String.utf8EncodeChar

theorem encode_append (text more : List Char) :
    encode (text ++ more) = encode text ++ encode more :=
  List.flatMap_append

/-- Different texts have different bytes. -/
theorem encode_injective {text other : List Char} (h : encode text = encode other) :
    text = other := by
  have hbytes : text.utf8Encode = other.utf8Encode := congrArg List.toByteArray h
  rw [← String.toByteArray_ofList, ← String.toByteArray_ofList, String.toByteArray_inj] at hbytes
  exact String.ofList_injective hbytes

theorem length_counterBytes (counter : Nat) : (counterBytes counter).length = 8 := by
  simp [counterBytes]

/-- Numbers with the same bytes are equal, if they have no further bytes. -/
theorem eq_of_bytes {count n m : Nat} (hn : n < 256 ^ count) (hm : m < 256 ^ count)
    (h : ∀ i < count, n / 256 ^ i % 256 = m / 256 ^ i % 256) : n = m := by
  induction count generalizing n m with
  | zero => omega
  | succ count ih =>
    have hmod : n % 256 = m % 256 := by simpa using h 0 (Nat.succ_pos count)
    have hdiv : n / 256 = m / 256 := by
      rw [Nat.pow_succ] at hn hm
      refine ih (by omega) (by omega) fun i hi => ?_
      have hshift (k : Nat) : k / 256 / 256 ^ i = k / 256 ^ (i + 1) := by
        rw [Nat.div_div_eq_div_mul, Nat.pow_succ']
      rw [hshift, hshift]
      exact h (i + 1) (by omega)
    omega

/-- Counters of 64 bits have different bytes. -/
theorem counterBytes_injective {counter other : Nat} (h : counterBytes counter = counterBytes other)
    (hcounter : counter < 2 ^ 64) (hother : other < 2 ^ 64) : counter = other := by
  refine @eq_of_bytes 8 counter other hcounter hother fun i hi => ?_
  have hbyte := List.map_inj_left.1 h i (List.mem_range.2 hi)
  have hnat := congrArg UInt8.toNat hbyte
  have hpow : 256 ^ i = 2 ^ (8 * i) := (Nat.pow_mul 2 8 i).symm
  rw [hpow]
  simpa [Nat.shiftRight_eq_div_pow] using hnat

/-- A parameter as it is hashed. -/
def paramText (name : List Char) (value : Json) : List Char :=
  name ++ '=' :: (value.toText.toList ++ ['&'])

/-- The parameters as they are hashed. -/
def paramsText (params : Fields Json) : List Char :=
  params.flatMap fun (name, value) => paramText name.toList value

/-- What is hashed in front of the body. -/
def front (input : FingerprintInput) : List Char :=
  input.verb ++ '\x00' :: (input.url.toList ++ '\x00' :: paramsText input.params)

/-- The body as it is hashed. -/
def bodyText (input : FingerprintInput) : List Char :=
  (input.body.map fun body => body.toText.toList).getD []

theorem encode_paramsText (params : Fields Json) :
    encode (paramsText params) = params.flatMap fun (name, value) => paramBytes name value := by
  induction params with
  | nil => rfl
  | cons param rest ih =>
    obtain ⟨name, value⟩ := param
    have hparam : encode (paramText name.toList value) = paramBytes name value := by
      rw [paramText, encode_append, ← List.singleton_append, encode_append, encode_append,
        paramBytes]
      simp only [utf8, encode, List.append_assoc]
      rfl
    rw [paramsText, List.flatMap_cons, encode_append, List.flatMap_cons, ← ih, hparam]
    rfl

/-- The bytes of a request are those of its text and of its counter. -/
theorem bytes_eq (input : FingerprintInput) :
    input.bytes = encode (input.front ++ '\x00' :: (input.bodyText ++ ['\x00'])) ++
      counterBytes input.cacheBust := by
  have hnul (text : List Char) : encode ('\x00' :: text) = [0] ++ encode text := rfl
  have hverb : utf8 (String.ofList (input.method.toList.map Char.toUpper)) = encode input.verb := by
    rw [utf8, String.toList_ofList, verb, encode]
  have hbody : (input.body.map fun body => utf8 body.toText).getD [] = encode input.bodyText := by
    rw [bodyText]
    cases input.body <;> rfl
  rw [bytes, hverb, hbody, ← encode_paramsText, front]
  simp only [encode_append, hnul, List.append_assoc]
  rfl

/-! ### The body and the counter -/

/-- No body has a zero byte in its text, since JSON escapes it. -/
theorem nul_notMem_bodyText (input : FingerprintInput) : '\x00' ∉ input.bodyText := by
  rw [bodyText]
  cases input.body with
  | none => exact List.not_mem_nil
  | some body => exact (Json.closed_toText body).nul_notMem

/-- A body that is not there has another text than any body. -/
theorem body_of_bodyText {input other : FingerprintInput} (h : other.bodyText = input.bodyText) :
    other.body.map Json.toText = input.body.map Json.toText := by
  rw [bodyText, bodyText] at h
  cases hother : other.body with
  | none =>
    cases hinput : input.body with
    | none => rfl
    | some body =>
      rw [hother, hinput] at h
      exact absurd h.symm (Json.toText_ne_nil body)
  | some body =>
    cases hinput : input.body with
    | none =>
      rw [hother, hinput] at h
      exact absurd h (Json.toText_ne_nil body)
    | some body' =>
      rw [hother, hinput] at h
      exact congrArg some (String.toList_inj.1 h)

/-- **The body and the counter can be told from the bytes.** -/
theorem parts_of_bytes_eq {input other : FingerprintInput} (h : input.WellFormed)
    (hother : other.WellFormed) (hbytes : other.bytes = input.bytes) :
    other.front = input.front ∧ other.body.map Json.toText = input.body.map Json.toText ∧
      other.cacheBust = input.cacheBust := by
  rw [bytes_eq, bytes_eq] at hbytes
  obtain ⟨htext, hcounter⟩ :=
    List.append_inj' hbytes (by rw [length_counterBytes, length_counterBytes])
  have hchars : (other.front ++ '\x00' :: other.bodyText) ++ ['\x00'] =
      (input.front ++ '\x00' :: input.bodyText) ++ ['\x00'] := by
    simpa using encode_injective htext
  obtain ⟨hfront, hbody⟩ := cut_last other.nul_notMem_bodyText input.nul_notMem_bodyText
    (List.append_cancel_right hchars)
  exact ⟨hfront, body_of_bodyText hbody, counterBytes_injective hcounter hother.counter h.counter⟩

/-! ### Parameters -/

theorem paramsText_append (params more : Fields Json) :
    paramsText (params ++ more) = paramsText params ++ paramsText more :=
  List.flatMap_append

theorem paramsText_singleton (name : String) (value : Json) :
    paramsText [(name, value)] = paramText name.toList value := by
  simp [paramsText]

/-- The mark behind the last parameter. -/
theorem paramsText_eq_nil_or_concat (params : Fields Json) :
    params = [] ∨ ∃ text, paramsText params = text ++ ['&'] := by
  rcases List.eq_nil_or_concat' params with rfl | ⟨init, ⟨name, value⟩, rfl⟩
  · exact .inl rfl
  · refine .inr ⟨paramsText init ++ (name.toList ++ '=' :: value.toText.toList), ?_⟩
    rw [paramsText_append, paramsText_singleton, paramText]
    simp

theorem lt_append_of_lt {text other : List Char} (h : text < other) (more : List Char) :
    text < other ++ more := by
  induction h with
  | nil => exact .nil
  | rel hlt => exact .rel hlt
  | cons _ ih => exact .cons ih

/-- A name below all others is below their text. -/
theorem lt_paramsText {key name : String} (params : Fields Json)
    (hparams : ∀ param ∈ params, key < param.1) (hname : key < name) :
    key.toList < paramsText params ++ name.toList := by
  cases params with
  | nil => exact hname
  | cons param rest =>
    have hlt : key.toList < param.1.toList := hparams param List.mem_cons_self
    change key.toList < (paramText param.1.toList param.2 ++ paramsText rest) ++ name.toList
    rw [paramText, List.append_assoc, List.append_assoc]
    exact lt_append_of_lt hlt _

/-- Parameters that read like one are that one, unless its name imitates. -/
theorem params_of_text {params : Fields Json} (hordered : Fields.Ordered params) {name : String}
    {value : Json} (hname : ¬NameImitates name)
    (h : paramsText params = paramText name.toList value) :
    Fields.mapValues Json.toText params = [(name, value.toText)] := by
  rcases List.eq_nil_or_concat' params with rfl | ⟨init, ⟨last, value'⟩, rfl⟩
  · rw [paramText] at h
    exact absurd h.symm (List.append_ne_nil_of_right_ne_nil _ (List.cons_ne_nil _ _))
  · rw [paramsText_append, paramsText_singleton, paramText, paramText] at h
    have hcut : (paramsText init ++ last.toList) ++ '=' :: value'.toText.toList =
        name.toList ++ '=' :: value.toText.toList := by
      have hmark := h
      simp only [← List.cons_append, ← List.append_assoc] at hmark
      exact List.append_cancel_right hmark
    obtain ⟨hfront, hvalue⟩ := Json.cut_unique hcut
    cases init with
    | nil =>
      have hlast : last = name := String.toList_inj.1 hfront
      simp [Fields.mapValues, hlast, hvalue]
    | cons param between =>
      obtain ⟨first, inner⟩ := param
      refine absurd ?_ hname
      have hfirst := (List.pairwise_cons.1 hordered).1
      refine ⟨first, String.ofList (paramsText between ++ last.toList), inner, ?_, ?_⟩
      · rw [← String.toList_inj, ← hfront]
        simp [paramsText, paramText]
      · rw [String.lt_iff, String.toList_ofList]
        exact lt_paramsText between
          (fun param hparam => hfirst param (List.mem_append_left _ hparam))
          (hfirst (last, value') (List.mem_append_right _ List.mem_cons_self))

/-! ### Unambiguous requests -/

/-- A parameter has a zero byte only in its name. -/
theorem closed_paramText {name : List Char} (h : '\x00' ∉ name) (value : Json) :
    '\x00' ∉ paramText name value := by
  rw [paramText]
  have hvalue := (Json.closed_toText value).nul_notMem
  simp [h, hvalue]

/-- Capitals stay as they are. -/
theorem toUpper_toUpper (c : Char) : c.toUpper.toUpper = c.toUpper := by
  by_cases hlower : 'a'.val ≤ c.val ∧ c.val ≤ 'z'.val
  · have hval : c.toUpper.val = c.val + ('A'.val - 'a'.val) := by
      unfold Char.toUpper
      rw [dif_pos hlower]
    have hnot : ¬('a'.val ≤ c.toUpper.val ∧ c.toUpper.val ≤ 'z'.val) := by
      rw [hval]
      simp only [UInt32.le_iff_toNat_le, UInt32.toNat_add, UInt32.toNat_sub] at hlower ⊢
      simp at hlower ⊢
      omega
    exact dif_neg hnot
  · have hsame : c.toUpper = c := dif_neg hlower
    rw [hsame, hsame]

theorem map_toUpper_verb (input : FingerprintInput) :
    input.verb.map Char.toUpper = input.verb := by
  rw [verb, List.map_map]
  exact List.map_congr_left fun c _ => toUpper_toUpper c

/-- Without parameters the front is the method and the address with the marks behind them. -/
theorem front_of_params_nil {input : FingerprintInput} (h : input.params = []) :
    input.front = (input.verb ++ '\x00' :: input.url.toList) ++ ['\x00'] := by
  rw [front, h]
  simp [paramsText]

/-- Without parameters, the address is what follows the first zero byte. -/
theorem determined_front_nil {input other : FingerprintInput} (hparams : input.params = [])
    (hverb : '\x00' ∉ input.verb)
    (hurl : ∀ front back, input.url.toList = front ++ '\x00' :: back →
      front.map Char.toUpper ≠ front) (h : other.front = input.front) :
    other.verb = input.verb ∧ other.url = input.url ∧ other.params = [] := by
  have hin := front_of_params_nil hparams
  have hnil : other.params = [] := by
    rcases paramsText_eq_nil_or_concat other.params with hnil | ⟨text, htext⟩
    · exact hnil
    · have hout : other.front =
          (other.verb ++ '\x00' :: (other.url.toList ++ '\x00' :: text)) ++ ['&'] := by
        rw [front, htext]
        simp
      have hlast := congrArg List.getLast? h
      rw [hin, hout, List.getLast?_concat, List.getLast?_concat] at hlast
      exact absurd hlast (by decide)
  rw [hin, front_of_params_nil hnil] at h
  have hcut := List.append_cancel_right h
  rcases cut_cases hcut with ⟨hmethod, haddress⟩ | ⟨between, hin, -⟩ | ⟨between, hout, haddress⟩
  · exact ⟨hmethod, String.toList_inj.1 haddress, hnil⟩
  · rw [hin] at hverb
    exact absurd (List.mem_append_right _ List.mem_cons_self) hverb
  -- the method of the other request reaches into the address of this one
  · refine absurd ?_ (hurl between other.url.toList haddress)
    have hupper := other.map_toUpper_verb
    rw [hout, List.map_append, map_toUpper_verb] at hupper
    exact (List.cons.inj (List.append_cancel_left hupper)).2

/-- With one parameter and no further zero byte, the two zero bytes are the boundaries. -/
theorem determined_front_singleton {input other : FingerprintInput} {name : String} {value : Json}
    (hparams : input.params = [(name, value)]) (hverb : '\x00' ∉ input.verb)
    (hurl : '\x00' ∉ input.url.toList) (hname : '\x00' ∉ name.toList)
    (h : other.front = input.front) :
    other.verb = input.verb ∧ other.url = input.url ∧
      paramsText other.params = paramText name.toList value := by
  rw [front, front, hparams, paramsText_singleton] at h
  have hparam := closed_paramText hname value
  have hcount := congrArg (List.count '\x00') h
  simp only [List.count_append, List.count_cons_self, List.count_eq_zero.2 hverb,
    List.count_eq_zero.2 hurl, List.count_eq_zero.2 hparam] at hcount
  have hverb' : '\x00' ∉ other.verb := List.count_eq_zero.1 (by omega)
  have hurl' : '\x00' ∉ other.url.toList := List.count_eq_zero.1 (by omega)
  obtain ⟨hmethod, hrest⟩ := cut_first hverb' hverb h
  obtain ⟨haddress, htext⟩ := cut_first hurl' hurl hrest
  exact ⟨hmethod, String.toList_inj.1 haddress, htext⟩

/-- **An unambiguous request is determined**: the marks can be told from what is between them. -/
theorem determined_of_unambiguous {input : FingerprintInput} (h : input.WellFormed)
    (hclear : input.Unambiguous) : input.Determined := by
  intro other hother hbytes
  obtain ⟨hfront, hbody, hcounter⟩ := parts_of_bytes_eq h hother hbytes
  obtain ⟨hverb, hrest⟩ := hclear
  match hparams : input.params with
  | [] =>
    rw [hparams] at hrest
    obtain ⟨hmethod, hurl, hnone⟩ := determined_front_nil hparams hverb hrest hfront
    exact ⟨hmethod, hurl, by rw [hnone, hparams], hbody, hcounter⟩
  | [(name, value)] =>
    rw [hparams] at hrest
    obtain ⟨hurl, hname, hplain⟩ := hrest
    obtain ⟨hmethod, haddress, htext⟩ :=
      determined_front_singleton hparams hverb hurl hname hfront
    have hmap := params_of_text hother.ordered hplain htext
    exact ⟨hmethod, haddress, by rw [hmap, hparams]; rfl, hbody, hcounter⟩
  | first :: next :: rest =>
    rw [hparams] at hrest
    exact hrest.elim

/-! ### Imitations -/

/-- Requests with the same front, body and counter have the same bytes. -/
theorem bytes_eq_of_front_eq {input other : FingerprintInput} (hfront : other.front = input.front)
    (hbody : other.body = input.body) (hcounter : other.cacheBust = input.cacheBust) :
    other.bytes = input.bytes := by
  rw [bytes_eq, bytes_eq, hfront, bodyText, bodyText, hbody, hcounter]

/-- What reads like a determined request has its parts. -/
theorem Determined.parts {input : FingerprintInput} (hdet : input.Determined)
    (h : input.WellFormed) (method url : List Char) (params : Fields Json)
    (hupper : method.map Char.toUpper = method) (hordered : Fields.Ordered params)
    (hfront : method ++ '\x00' :: (url ++ '\x00' :: paramsText params) = input.front) :
    method = input.verb ∧ url = input.url.toList ∧ params.length = input.params.length := by
  let other : FingerprintInput :=
    ⟨String.ofList method, String.ofList url, params, input.body, input.cacheBust⟩
  have hverb : other.verb = method := by
    rw [verb, String.toList_ofList, hupper]
  have hsame : other.SameRequest input := by
    refine hdet other ⟨hordered, h.counter⟩ (bytes_eq_of_front_eq ?_ rfl rfl)
    rw [front, hverb, String.toList_ofList]
    exact hfront
  refine ⟨hverb.symm.trans hsame.verb, ?_, ?_⟩
  · rw [← hsame.url, String.toList_ofList]
  · simpa [Fields.mapValues] using congrArg List.length hsame.params

section Imitations

variable {input : FingerprintInput} (h : input.WellFormed) (hdet : input.Determined)

include h hdet

/-- A zero byte in the method could as well be the mark behind it. -/
theorem Determined.nul_notMem_verb : '\x00' ∉ input.verb := by
  intro hmem
  obtain ⟨method, more, hverb⟩ := List.append_of_mem hmem
  have hupper : method.map Char.toUpper = method := by
    have hall := input.map_toUpper_verb
    rw [hverb, List.map_append] at hall
    exact (List.append_inj hall (by simp)).1
  have hparts := hdet.parts h method (more ++ '\x00' :: input.url.toList) input.params hupper
    h.ordered (by rw [front, hverb]; simp)
  have heq := hparts.1
  rw [hverb] at heq
  simp at heq

theorem Determined.front_not_upper {method url : List Char}
    (hurl : input.url.toList = method ++ '\x00' :: url) : method.map Char.toUpper ≠ method := by
  intro hmethod
  have hupper : (input.verb ++ '\x00' :: method).map Char.toUpper =
      input.verb ++ '\x00' :: method := by
    rw [List.map_append, map_toUpper_verb, List.map_cons, hmethod]
    rfl
  have hparts := hdet.parts h (input.verb ++ '\x00' :: method) url input.params hupper h.ordered
    (by rw [front, hurl]; simp)
  have heq := hparts.1
  simp at heq

variable {name : String} {value : Json} (hparams : input.params = [(name, value)])

include hparams

/-- A zero byte in the address could as well be the mark behind it. -/
theorem Determined.nul_notMem_url : '\x00' ∉ input.url.toList := by
  intro hmem
  obtain ⟨url, more, hurl⟩ := List.append_of_mem hmem
  have hparts := hdet.parts h input.verb url
    [(String.ofList (more ++ '\x00' :: name.toList), value)] input.map_toUpper_verb
    (List.pairwise_singleton _ _)
    (by rw [front, hurl, hparams, paramsText_singleton, paramsText_singleton]; simp [paramText])
  have heq := hparts.2.1
  rw [hurl] at heq
  simp at heq

theorem Determined.nul_notMem_name : '\x00' ∉ name.toList := by
  intro hmem
  obtain ⟨more, last, hname⟩ := List.append_of_mem hmem
  have hparts := hdet.parts h input.verb (input.url.toList ++ '\x00' :: more)
    [(String.ofList last, value)] input.map_toUpper_verb
    (List.pairwise_singleton _ _)
    (by rw [front, hparams, paramsText_singleton, paramsText_singleton, hname]; simp [paramText])
  have heq := hparts.2.1
  simp at heq

/-- A name that holds an earlier parameter could be two parameters. -/
theorem Determined.not_nameImitates : ¬NameImitates name := by
  rintro ⟨first, last, inner, hname, hlt⟩
  have hordered : Fields.Ordered [(first, inner), (last, value)] := List.pairwise_pair.2 hlt
  have hparts := hdet.parts h input.verb input.url.toList
    [(first, inner), (last, value)] input.map_toUpper_verb hordered
    (by rw [front, hparams, paramsText_singleton, hname]; simp [paramText, paramsText])
  have heq := hparts.2.2
  rw [hparams] at heq
  simp at heq

omit hparams

/-- Two parameters read like one whose name holds the first. -/
theorem Determined.length_params_lt_two : input.params.length < 2 := by
  rcases List.eq_nil_or_concat' input.params with hnil | ⟨init, ⟨last, value'⟩, hconcat⟩
  · rw [hnil]
    decide
  · have hparts := hdet.parts h input.verb input.url.toList
      [(String.ofList (paramsText init ++ last.toList), value')]
      input.map_toUpper_verb (List.pairwise_singleton _ _)
      (by rw [front, hconcat, paramsText_append, paramsText_singleton, paramsText_singleton]
          simp [paramText])
    rw [← hparts.2.2]
    exact Nat.lt_succ_self 1

/-- **A determined request is unambiguous**, by the other readings of one that is not. -/
theorem Determined.unambiguous : input.Unambiguous := by
  refine ⟨hdet.nul_notMem_verb h, ?_⟩
  have hlength := hdet.length_params_lt_two h
  match hparams : input.params with
  | [] => exact fun method url hurl => hdet.front_not_upper h hurl
  | [(name, value)] =>
    exact ⟨hdet.nul_notMem_url h hparams, hdet.nul_notMem_name h hparams,
      hdet.not_nameImitates h hparams⟩
  | first :: next :: rest =>
    rw [hparams] at hlength
    exact absurd hlength (by simp)

end Imitations

/-! ### Digests in digits -/

theorem hexDigit_injective {n m : Nat} (hn : n < 16) (hm : m < 16)
    (h : Json.hexDigit n = Json.hexDigit m) : n = m := by
  have hall : ∀ i j : Fin 16, Json.hexDigit i = Json.hexDigit j → i = j := by decide +kernel
  exact congrArg Fin.val (hall ⟨n, hn⟩ ⟨m, hm⟩ h)

theorem hexBytes_injective {bytes other : List UInt8}
    (h : bytes.flatMap hexByte = other.flatMap hexByte) : bytes = other := by
  induction bytes generalizing other with
  | nil =>
    cases other with
    | nil => rfl
    | cons b rest => exact nomatch h
  | cons a rest ih =>
    cases other with
    | nil => exact nomatch h
    | cons b rest' =>
      obtain ⟨hhigh, htail⟩ := List.cons.inj h
      obtain ⟨hlow, hrest⟩ := List.cons.inj htail
      have ha := a.toNat_lt
      have hb := b.toNat_lt
      have hdiv := hexDigit_injective (by omega) (by omega) hhigh
      have hmod := hexDigit_injective (by omega) (by omega) hlow
      have hbyte : a = b := UInt8.toNat_inj.1 (by omega)
      rw [hbyte, ih hrest]

theorem digest_eq_of_fingerprint_eq {input other : FingerprintInput}
    (h : fingerprint other = fingerprint input) :
    Sha256.digest other.bytes = Sha256.digest input.bytes :=
  hexBytes_injective (String.ofList_injective h)

/-! ### What the bytes determine -/

/-- **What the hashed bytes determine.** They always determine the body and the counter, and they
determine the request exactly when it is unambiguous. An unambiguous request shares its fingerprint
only with requests for which the digest has a collision. -/
theorem determined_iff {input : FingerprintInput} (h : input.WellFormed) :
    (∀ other : FingerprintInput, other.WellFormed → other.bytes = input.bytes →
      other.body.map Json.toText = input.body.map Json.toText ∧
        other.cacheBust = input.cacheBust) ∧
    (input.Determined ↔ input.Unambiguous) ∧
    (input.Unambiguous → ∀ other : FingerprintInput, other.WellFormed →
      (Sha256.digest other.bytes = Sha256.digest input.bytes → other.bytes = input.bytes) →
      fingerprint other = fingerprint input → other.SameRequest input) := by
  refine ⟨fun other hother hbytes => (parts_of_bytes_eq h hother hbytes).2,
    ⟨fun hdet => hdet.unambiguous h, determined_of_unambiguous h⟩, ?_⟩
  intro hclear other hother hfree hprint
  exact determined_of_unambiguous h hclear other hother (hfree (digest_eq_of_fingerprint_eq hprint))

/-- A year as the only parameter is told from everything else. -/
theorem determined_iff_year :
    let year : Json := .number (.integer 2024 (by decide))
    let input : FingerprintInput := ⟨"GET", "https://a", [("year", year)], none, 0⟩
    input.WellFormed ∧ input.Determined := by
  intro year input
  have hformed : input.WellFormed := ⟨List.pairwise_singleton _ _, by decide⟩
  have hname : ¬NameImitates "year" := by
    rintro ⟨first, last, value, hname, -⟩
    have hmark : '&' ∈ "year".toList := by
      rw [hname]
      simp
    exact absurd hmark (by decide)
  exact ⟨hformed, (determined_iff hformed).2.1.2 ⟨by decide, by decide, by decide, hname⟩⟩

/-- **Two requests with one fingerprint**: the name of a single parameter holds the first of two. -/
theorem params_imitated :
    let one : Json := .number (.integer 1 (by decide))
    let two : Json := .number (.integer 2 (by decide))
    let pair : FingerprintInput := ⟨"GET", "https://a", [("a", one), ("b", two)], none, 0⟩
    let single : FingerprintInput := ⟨"GET", "https://a", [("a=1&b", two)], none, 0⟩
    pair.WellFormed ∧ single.WellFormed ∧ pair.bytes = single.bytes ∧
      fingerprint pair = fingerprint single ∧ ¬pair.SameRequest single := by
  intro one two pair single
  have hbytes : pair.bytes = single.bytes := by
    refine bytes_eq_of_front_eq ?_ rfl rfl
    decide +kernel
  refine ⟨⟨List.pairwise_pair.2 (by decide), by decide⟩, ⟨List.pairwise_singleton _ _, by decide⟩,
    hbytes, ?_, ?_⟩
  · rw [fingerprint, fingerprint, hbytes]
  · intro hsame
    have hlength := congrArg List.length hsame.params
    simp [Fields.mapValues, pair, single] at hlength

end FingerprintInput

end ChartSchema
