import ChartSchema.Cache.Lru

/-!
# Caches whose entries expire

Every entry has a time to live. An entry that is older is as good as absent: it is removed when it
is read next, or when the cache is purged. Times are milliseconds since a fixed moment and may go
backwards; an entry is never younger than nothing.
-/

namespace ChartSchema

/-- A value with the time of its insertion and its time to live, in milliseconds. -/
structure TimedEntry (ν : Type) where
  value : ν
  insertedAt : Int
  ttl : Nat

/-- How old an entry is, zero if it was inserted later than now. -/
def TimedEntry.age {ν : Type} (entry : TimedEntry ν) (now : Int) : Nat :=
  (now - entry.insertedAt).toNat

/-- Whether an entry is older than its time to live. -/
def TimedEntry.isExpired {ν : Type} (entry : TimedEntry ν) (now : Int) : Bool :=
  decide (entry.ttl < entry.age now)

/-- A bounded cache of entries that expire, with the time to live of entries that bring none of
their own. -/
structure TtlCache (κ ν : Type) where
  entries : LruCache κ (TimedEntry ν)
  defaultTtl : Nat
  expirations : Nat

namespace TtlCache

variable {κ ν : Type} [DecidableEq κ]

def empty (capacity defaultTtl : Nat) : TtlCache κ ν :=
  ⟨.empty capacity, defaultTtl, 0⟩

/-- The number of entries, expired or not. -/
def length (cache : TtlCache κ ν) : Nat :=
  cache.entries.length

/-- Writes an entry with a time to live. -/
def insert (cache : TtlCache κ ν) (key : κ) (value : ν) (ttl : Nat) (now : Int) :
    TtlCache κ ν :=
  { cache with entries := (cache.entries.insert key ⟨value, now, ttl⟩).2 }

/-- Reads an entry. One that has expired is removed and counts as missing. -/
def get (cache : TtlCache κ ν) (key : κ) (now : Int) : Option ν × TtlCache κ ν :=
  if (cache.entries.peek key).any fun entry => entry.isExpired now then
    (none,
      { cache with
        entries := (cache.entries.remove key).2.recordMiss
        expirations := cache.expirations + 1 })
  else
    let (entry, entries) := cache.entries.get key
    (entry.map TimedEntry.value, { cache with entries := entries })

/-- Removes an entry and says whether there was one. -/
def invalidate (cache : TtlCache κ ν) (key : κ) : Bool × TtlCache κ ν :=
  let (value, entries) := cache.entries.remove key
  (value.isSome, { cache with entries := entries })

/-- Removes every entry. The counters stay. -/
def clear (cache : TtlCache κ ν) : TtlCache κ ν :=
  { cache with entries := cache.entries.clear }

/-- Removes the entries that have expired and gives their number. -/
def purge (cache : TtlCache κ ν) (now : Int) : Nat × TtlCache κ ν :=
  let (removed, entries) := cache.entries.retain fun _ entry => !entry.isExpired now
  (removed, { cache with entries := entries, expirations := cache.expirations + removed })

def stats (cache : TtlCache κ ν) : CacheStats :=
  { cache.entries.stats with expirations := cache.expirations }

end TtlCache

end ChartSchema
