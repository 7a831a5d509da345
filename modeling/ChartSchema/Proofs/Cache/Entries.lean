import Mathlib.Data.List.Basic
import ChartSchema.Cache.Ttl

/-!
# What caches hold

A cache is a list of entries in the order of their use, the latest first, and every operation on it
is said by what it does to this list: a key is dropped from where it stands, and put in front. The
lemmas of this module describe the list behind one read or one write, under no assumption about the
cache, and are what the statements about whole runs rest on.

Reading and writing an entry moves it to the front; apart from that a cache only loses entries. So
what a cache holds behind a write is the new entry, and otherwise what it held
(`mem_entries_insert`), and under the written key it is the new entry (`peek_insert_self`). A write
under a key that is not held puts the entry in front of all others, and of these the last is dropped
if there is no room (`LruCache.insert_of_peek_eq_none`).

With a time to live, a read gives the value under a key exactly if there is one that has not expired
(`TtlCache.get_eq_some_iff`). If it gives none, the entries stay as they are, in their order, but
for one under the key that has expired and is dropped (`TtlCache.entries_of_get_eq_none`). Expiry is
seen by reads only: until then an entry that is too old keeps its place.
-/

namespace ChartSchema

variable {κ ν : Type} [DecidableEq κ]

namespace LruCache

theorem mem_of_find? {key : κ} {value : ν} {entries : List (κ × ν)}
    (h : find? key entries = some value) : (key, value) ∈ entries := by
  obtain ⟨⟨key', value'⟩, hfind, rfl⟩ := Option.map_eq_some_iff.1 h
  have hkey : key' = key := by simpa using List.find?_some hfind
  subst hkey
  exact List.mem_of_find?_eq_some hfind

/-- Nothing is found under a key that no entry has. -/
theorem find?_eq_none_iff {key : κ} {entries : List (κ × ν)} :
    find? key entries = none ↔ ∀ entry ∈ entries, entry.1 ≠ key := by
  simp [find?]

/-- Dropping a key leaves the entries under other keys. -/
theorem mem_dropKey {key : κ} {entry : κ × ν} {entries : List (κ × ν)} :
    entry ∈ dropKey key entries ↔ entry ∈ entries ∧ entry.1 ≠ key := by
  simp [dropKey]

/-- Nothing is dropped if there is nothing under the key. -/
theorem dropKey_of_find? {key : κ} {entries : List (κ × ν)} (h : find? key entries = none) :
    dropKey key entries = entries :=
  List.filter_eq_self.2 fun entry hmem => decide_eq_true (find?_eq_none_iff.1 h entry hmem)

/-- Nothing is left under a key that was dropped. -/
theorem find?_dropKey_self (key : κ) (entries : List (κ × ν)) :
    find? key (dropKey key entries) = none :=
  find?_eq_none_iff.2 fun _ hmem => (mem_dropKey.1 hmem).2

variable {cache : LruCache κ ν} {key : κ}

/-- An entry under a new key comes to the front, and the last entry makes room for it if the cache
is full. -/
theorem insert_of_peek_eq_none {value : ν} (h : cache.peek key = none) :
    cache.insert key value =
      if cache.length < cache.capacity then
        (none, { cache with entries := (key, value) :: cache.entries })
      else
        (cache.entries.getLast?,
          { cache with
            entries := (key, value) :: cache.entries.dropLast
            evictions := cache.evictions + 1 }) := by
  rw [insert, contains, h, if_neg (by simp)]

/-- A read finds no new entries. -/
theorem mem_entries_get {entry : κ × ν} (h : entry ∈ (cache.get key).2.entries) :
    entry ∈ cache.entries := by
  unfold get at h
  split at h
  · next value hpeek =>
    rcases List.mem_cons.1 h with rfl | h
    · exact mem_of_find? hpeek
    · exact (mem_dropKey.1 h).1
  · exact h

/-- Under the key that was written stands what was written, and under other keys only what stood
there. -/
theorem mem_entries_insert {value : ν} {entry : κ × ν}
    (h : entry ∈ (cache.insert key value).2.entries) :
    entry = (key, value) ∨ entry ∈ cache.entries ∧ entry.1 ≠ key := by
  unfold insert at h
  split at h
  · exact (List.mem_cons.1 h).imp_right mem_dropKey.1
  · next hcontains =>
    have hpeek : find? key cache.entries = none := by
      simpa [contains, peek] using hcontains
    have hother {entry : κ × ν} (hmem : entry ∈ cache.entries) :
        entry ∈ cache.entries ∧ entry.1 ≠ key := ⟨hmem, find?_eq_none_iff.1 hpeek entry hmem⟩
    split at h
    · exact (List.mem_cons.1 h).imp_right hother
    · exact (List.mem_cons.1 h).imp_right fun hmem => hother (List.dropLast_subset _ hmem)

/-- What was written is there. -/
theorem peek_insert_self {value : ν} : (cache.insert key value).2.peek key = some value := by
  unfold insert peek find?
  split
  · simp
  · split <;> simp

end LruCache

namespace TtlCache

variable {cache : TtlCache κ ν} {key : κ} {now : Int}

/-- An entry lasts as long as its age is at most its time to live. -/
theorem isExpired_eq_false_iff {entry : TimedEntry ν} :
    entry.isExpired now = false ↔ entry.age now ≤ entry.ttl := by
  rw [TimedEntry.isExpired, decide_eq_false_iff_not, Nat.not_lt]

/-- A read gives what is held under the key and has not expired. -/
theorem get_eq_some_iff {value : ν} :
    (cache.get key now).1 = some value ↔
      ∃ entry, cache.entries.peek key = some entry ∧ entry.age now ≤ entry.ttl ∧
        entry.value = value := by
  unfold get LruCache.get
  match hpeek : cache.entries.peek key with
  | none => simp
  | some entry =>
    by_cases hexpired : entry.isExpired now = true
    · have hage : ¬ entry.age now ≤ entry.ttl := by
        rw [← isExpired_eq_false_iff, hexpired]
        exact Bool.noConfusion
      simp [hexpired, hage]
    · have hage : entry.age now ≤ entry.ttl :=
        isExpired_eq_false_iff.1 (Bool.eq_false_iff.2 hexpired)
      simp [hexpired, hage]

/-- A read that finds nothing is counted and leaves the entries as they are, but for those under
the key, which have expired. -/
theorem entries_of_get_eq_none (h : (cache.get key now).1 = none) :
    (∀ entry, cache.entries.peek key = some entry → entry.isExpired now = true) ∧
      (cache.get key now).2.entries =
        { cache.entries with
          entries := LruCache.dropKey key cache.entries.entries
          misses := cache.entries.misses + 1 } := by
  unfold get LruCache.get at h ⊢
  match hpeek : cache.entries.peek key with
  | none =>
    refine ⟨fun _ hnone => (by cases hnone), ?_⟩
    have hdrop := LruCache.dropKey_of_find? hpeek
    simp [LruCache.recordMiss, hdrop]
  | some entry =>
    by_cases hexpired : entry.isExpired now = true
    · refine ⟨fun other hother => ?_, ?_⟩
      · cases hother
        exact hexpired
      · simp [hexpired, LruCache.recordMiss, LruCache.remove]
    · simp [hpeek, hexpired] at h

theorem mem_entries_get {entry : κ × TimedEntry ν}
    (h : entry ∈ (cache.get key now).2.entries.entries) : entry ∈ cache.entries.entries := by
  unfold get at h
  split at h
  · exact (LruCache.mem_dropKey.1 h).1
  · exact LruCache.mem_entries_get h

theorem defaultTtl_get : (cache.get key now).2.defaultTtl = cache.defaultTtl := by
  unfold get
  split <;> rfl

end TtlCache

end ChartSchema
