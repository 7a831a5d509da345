import ChartSchema.Settings.Basic
import ChartSchema.Settings.Toml

/-!
# Reading settings

Settings are read from a TOML document. Every setting may be left out and then has its standard
value. A setting that is not known, or not of its type, makes the document unusable.
-/

namespace ChartSchema

/-- Why there are no settings. -/
inductive SettingsError where
  /-- There is no document to read. -/
  | unreadable
  /-- The document is no TOML, or not one of settings. -/
  | malformed
  | invalid (fault : SettingsFault)

namespace Settings

/-- Reads an integer between zero and a bound. -/
def naturalBelow? (bound : Nat) : Toml → Option Nat
  | .integer value => if 0 ≤ value ∧ value < bound then some value.toNat else none
  | _ => none

def number? : Toml → Option Binary64
  | .float value => some value
  | .integer value => some (.ofInt value)
  | _ => none

def boolean? : Toml → Option Bool
  | .boolean value => some value
  | _ => none

/-- The parts of a section: the entries of a table, all of them known, or the items of an array in
the order of the settings. -/
def parts? (names : List String) : Toml → Option (String → Option Toml)
  | .table _ fields =>
    if fields.all fun (name, _) => name ∈ names then some fun name => Fields.get? name fields
    else none
  | .array items => some fun name => (names.zip items).lookup name
  | _ => none

/-- A setting, or its standard value if it is left out. -/
def settingOr? {α : Type} (standard : α) (read : Toml → Option α) : Option Toml → Option α
  | some value => read value
  | none => some standard

def readRetry? (toml : Toml) : Option RetrySettings := do
  let part ← parts? ["max_retries", "initial_backoff_ms", "max_backoff_ms", "multiplier"] toml
  let standard := RetrySettings.standard
  let maxRetries ← settingOr? standard.maxRetries (naturalBelow? UInt32.size) (part "max_retries")
  let initialBackoff ←
    settingOr? standard.initialBackoff (naturalBelow? UInt64.size) (part "initial_backoff_ms")
  let maxBackoff ← settingOr? standard.maxBackoff (naturalBelow? UInt64.size)
    (part "max_backoff_ms")
  let multiplier ← settingOr? standard.multiplier number? (part "multiplier")
  some ⟨maxRetries, initialBackoff, maxBackoff, multiplier⟩

def readCache? (toml : Toml) : Option CacheSettings := do
  let part ← parts? ["enabled", "capacity", "ttl_ms"] toml
  let standard := CacheSettings.standard
  let enabled ← settingOr? standard.enabled boolean? (part "enabled")
  let capacity ← settingOr? standard.capacity (naturalBelow? UInt64.size) (part "capacity")
  let ttl ← settingOr? standard.ttl (naturalBelow? UInt64.size) (part "ttl_ms")
  some ⟨enabled, capacity, ttl⟩

def readStream? (toml : Toml) : Option StreamSettings := do
  let part ← parts? ["refresh_interval_ms", "jitter_pct"] toml
  let standard := StreamSettings.standard
  let interval ←
    settingOr? standard.refreshInterval (naturalBelow? UInt64.size) (part "refresh_interval_ms")
  let jitter ← settingOr? standard.jitter number? (part "jitter_pct")
  some ⟨interval, jitter⟩

/-- The settings of a document's fields, not yet checked. -/
def ofFields? (fields : Fields Toml) : Option Settings := do
  let part ←
    parts? ["request_timeout_ms", "token_limit", "retry", "cache", "stream"]
      (.table .header fields)
  let standard := Settings.standard
  let timeout ←
    settingOr? standard.requestTimeout (naturalBelow? UInt64.size) (part "request_timeout_ms")
  let tokenLimit ← settingOr? standard.tokenLimit (naturalBelow? UInt64.size) (part "token_limit")
  let retry ← settingOr? standard.retry readRetry? (part "retry")
  let cache ← settingOr? standard.cache readCache? (part "cache")
  let stream ← settingOr? standard.stream readStream? (part "stream")
  some ⟨timeout, tokenLimit, retry, cache, stream⟩

/-- Reads and checks the settings of a document. -/
def ofText (source : String) : Except SettingsError Settings :=
  match (Toml.ofText? source).bind ofFields? with
  | none => .error .malformed
  | some settings =>
    match settings.fault? with
    | some fault => .error (.invalid fault)
    | none => .ok settings

end Settings

end ChartSchema
