import ChartSchema.Number.Binary64

/-!
# Caches with a bounded number of entries

A cache keeps its entries in the order of their last use, the most recent first. Reading an entry
and writing it count as a use, looking at it does not. When a new entry finds the cache full, the
entry that was not used for longest makes room.
-/

namespace ChartSchema

/-- What happened to a cache so far. -/
structure CacheStats where
  hits : Nat
  misses : Nat
  evictions : Nat
  expirations : Nat
  entryCount : Nat
  deriving DecidableEq

/-- The counters of a cache that was never used. -/
def CacheStats.zero : CacheStats := ⟨0, 0, 0, 0, 0⟩

/-- The part of the reads that found something, zero if there were none. -/
def CacheStats.hitRate (stats : CacheStats) : Binary64 :=
  let total := stats.hits + stats.misses
  if total = 0 then .zero false else (Binary64.ofNat stats.hits).div (.ofNat total)

/-- Entries in the order of their last use, the most recent first, and the counters. -/
structure LruCache (κ ν : Type) where
  capacity : Nat
  entries : List (κ × ν)
  hits : Nat
  misses : Nat
  evictions : Nat

namespace LruCache

variable {κ ν : Type} [DecidableEq κ]

/-- An empty cache. A capacity of zero counts as one. -/
def empty (capacity : Nat) : LruCache κ ν :=
  ⟨max 1 capacity, [], 0, 0, 0⟩

/-- The value under a key among entries. -/
def find? (key : κ) (entries : List (κ × ν)) : Option ν :=
  (entries.find? fun entry => entry.1 = key).map Prod.snd

/-- The entries without a key. -/
def dropKey (key : κ) (entries : List (κ × ν)) : List (κ × ν) :=
  entries.filter fun entry => entry.1 ≠ key

/-- The keys from the least to the most recently used. -/
def keys (cache : LruCache κ ν) : List κ :=
  (cache.entries.map Prod.fst).reverse

def length (cache : LruCache κ ν) : Nat :=
  cache.entries.length

/-- The value under a key. This is no use of the entry and is not counted. -/
def peek (cache : LruCache κ ν) (key : κ) : Option ν :=
  find? key cache.entries

def contains (cache : LruCache κ ν) (key : κ) : Bool :=
  (cache.peek key).isSome

/-- Counts a read that found nothing. -/
def recordMiss (cache : LruCache κ ν) : LruCache κ ν :=
  { cache with misses := cache.misses + 1 }

/-- Reads an entry, which is then the most recently used one. -/
def get (cache : LruCache κ ν) (key : κ) : Option ν × LruCache κ ν :=
  match cache.peek key with
  | some value =>
    (some value,
      { cache with
        entries := (key, value) :: dropKey key cache.entries
        hits := cache.hits + 1 })
  | none => (none, cache.recordMiss)

/-- Writes an entry, which is then the most recently used one. If the key is new and the cache is
full, the least recently used entry is removed and given back. -/
def insert (cache : LruCache κ ν) (key : κ) (value : ν) : Option (κ × ν) × LruCache κ ν :=
  if cache.contains key then
    (none, { cache with entries := (key, value) :: dropKey key cache.entries })
  else if cache.length < cache.capacity then
    (none, { cache with entries := (key, value) :: cache.entries })
  else
    (cache.entries.getLast?,
      { cache with
        entries := (key, value) :: cache.entries.dropLast
        evictions := cache.evictions + 1 })

/-- Removes an entry and gives its value back. -/
def remove (cache : LruCache κ ν) (key : κ) : Option ν × LruCache κ ν :=
  (cache.peek key, { cache with entries := dropKey key cache.entries })

/-- Removes every entry. The counters stay. -/
def clear (cache : LruCache κ ν) : LruCache κ ν :=
  { cache with entries := [] }

/-- Removes the entries that do not pass a test and gives their number. -/
def retain (cache : LruCache κ ν) (keep : κ → ν → Bool) : Nat × LruCache κ ν :=
  let kept := cache.entries.filter fun entry => keep entry.1 entry.2
  (cache.length - kept.length, { cache with entries := kept })

def stats (cache : LruCache κ ν) : CacheStats :=
  ⟨cache.hits, cache.misses, cache.evictions, 0, cache.length⟩

end LruCache

end ChartSchema
