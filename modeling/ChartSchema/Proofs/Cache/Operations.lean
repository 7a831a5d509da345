import Mathlib.Data.List.Nodup
import ChartSchema.Proofs.Cache.Entries

/-!
# Operations on a cache

Everything that can be done with a cache is a list of operations, carried out one after the other
(`run`); each of them gives an answer and leaves a cache. What holds of every reachable cache is
proved once for one operation and carried over by `run_preserves`, and what relates two stores that
go through the same operations by `run_related`.

A cache is **sound** if it has room for an entry, no more entries than it has room for, and no key
twice. Every cache that comes from an empty one is sound (`LruCache.sound_run`). The operations move
entries, drop them and put one in front, so that soundness is a matter of the lengths and of the
keys: a touched key leaves as many entries (`Sound.touch`), and an insertion either replaces an
entry, or finds room, or drops the last entry first (`Sound.insert_cases`).

What a sound cache holds under a key after an operation is known from what it held before:

* a read changes nothing of it (`peek_get`);
* an insertion sets the key and leaves the others, but for one that is evicted
  (`Sound.peek_insert_of_ne`);
* a removal takes the key (`peek_remove`), and a selection what fails the test
  (`Sound.peek_retain`).

The counters are described in the same way: hits and misses count the reads, and evictions the
answers that name one.
-/

namespace ChartSchema

/-! ### Runs -/

section Runs

variable {σ τ Operation Answer Other : Type}

/-- Carries out operations one after the other: the answers, and the state in the end. -/
def run (perform : σ → Operation → Answer × σ) (state : σ) : List Operation → List Answer × σ
  | [] => ([], state)
  | operation :: rest =>
    let step := perform state operation
    let later := run perform step.2 rest
    (step.1 :: later.1, later.2)

variable {perform : σ → Operation → Answer × σ} {other : τ → Operation → Other × τ}

/-- One operation more gives one answer more. -/
theorem run_concat (state : σ) (operations : List Operation) (operation : Operation) :
    run perform state (operations ++ [operation]) =
      ((run perform state operations).1 ++
          [(perform (run perform state operations).2 operation).1],
        (perform (run perform state operations).2 operation).2) := by
  induction operations generalizing state with
  | nil => rfl
  | cons first rest ih =>
    rw [List.cons_append, run, ih]
    rfl

/-- What every operation preserves is preserved by every run. -/
theorem run_preserves {motive : σ → Prop}
    (hstep : ∀ state operation, motive state → motive (perform state operation).2) {state : σ}
    (h : motive state) (operations : List Operation) :
    motive (run perform state operations).2 := by
  induction operations generalizing state with
  | nil => exact h
  | cons operation rest ih => exact ih (hstep state operation h)

/-- Two systems that every operation leaves related, and whose answers are then related, stay
related in every run, and give related answers all along. -/
theorem run_related (related : σ → τ → Prop) (answers : Answer → Other → Prop)
    (hstep : ∀ state partner operation, related state partner →
      answers (perform state operation).1 (other partner operation).1 ∧
        related (perform state operation).2 (other partner operation).2)
    {state : σ} {partner : τ} (h : related state partner) (operations : List Operation) :
    List.Forall₂ answers (run perform state operations).1 (run other partner operations).1 ∧
      related (run perform state operations).2 (run other partner operations).2 := by
  induction operations generalizing state partner with
  | nil => exact ⟨.nil, h⟩
  | cons operation rest ih =>
    obtain ⟨hanswer, hnext⟩ := hstep state partner operation h
    obtain ⟨hanswers, hlast⟩ := ih hnext
    exact ⟨.cons hanswer hanswers, hlast⟩

end Runs

variable {κ ν : Type}

/-- What can be done with a cache. -/
inductive CacheOperation (κ ν : Type) where
  | get (key : κ)
  | peek (key : κ)
  | contains (key : κ)
  | insert (key : κ) (value : ν)
  | remove (key : κ)
  | clear
  | retain (keep : κ → ν → Bool)

/-- Whether an operation is a read. -/
def CacheOperation.isGet : CacheOperation κ ν → Bool
  | .get _ => true
  | _ => false

/-- What an operation answers. -/
inductive CacheAnswer (κ ν : Type) where
  /-- What was found under a key: the answer to a read, a look or a removal. -/
  | found (value : Option ν)
  | present (answer : Bool)
  /-- The entry that made room for a new one. -/
  | evicted (entry : Option (κ × ν))
  | dropped (count : Nat)
  | done

/-- Whether an insertion gave an entry back. -/
def CacheAnswer.isEviction : CacheAnswer κ ν → Bool
  | .evicted (some _) => true
  | _ => false

namespace LruCache

/-! ### Sound caches -/

/-- A cache with room for an entry, no more entries than it has room for, and no key twice. -/
structure Sound (cache : LruCache κ ν) : Prop where
  capacity_pos : 0 < cache.capacity
  length_le : cache.length ≤ cache.capacity
  nodup : (cache.entries.map Prod.fst).Nodup

/-- A new cache is sound; one for no entries has room for one. -/
theorem sound_empty (capacity : Nat) : (empty capacity : LruCache κ ν).Sound where
  capacity_pos := Nat.lt_of_lt_of_le Nat.zero_lt_one (Nat.le_max_left 1 capacity)
  length_le := Nat.zero_le _
  nodup := List.nodup_nil

variable {cache : LruCache κ ν} {key other : κ} {value : ν}

/-- Fewer entries are sound. -/
theorem Sound.of_sublist (h : cache.Sound) {next : LruCache κ ν}
    (hcapacity : next.capacity = cache.capacity) (hentries : next.entries.Sublist cache.entries) :
    next.Sound where
  capacity_pos := hcapacity ▸ h.capacity_pos
  length_le := hcapacity ▸ Nat.le_trans hentries.length_le h.length_le
  nodup := h.nodup.sublist (hentries.map Prod.fst)

/-- An entry in front of others with other keys is sound if there is room for it. -/
theorem Sound.cons (h : cache.Sound) {next : LruCache κ ν} {others : List (κ × ν)}
    (hcapacity : next.capacity = cache.capacity) (hentries : next.entries = (key, value) :: others)
    (hothers : others.Sublist cache.entries) (hkey : ∀ entry ∈ others, entry.1 ≠ key)
    (hroom : others.length < cache.capacity) : next.Sound where
  capacity_pos := hcapacity ▸ h.capacity_pos
  length_le := by
    rw [length, hentries, hcapacity]
    exact hroom
  nodup := by
    rw [hentries]
    refine List.nodup_cons.2 ⟨fun hmem => ?_, h.nodup.sublist (hothers.map Prod.fst)⟩
    obtain ⟨entry, hentry, hsame⟩ := List.mem_map.1 hmem
    exact hkey entry hentry hsame

theorem Sound.clear (h : cache.Sound) : cache.clear.Sound :=
  h.of_sublist rfl (List.nil_sublist _)

theorem Sound.retain (h : cache.Sound) (keep : κ → ν → Bool) : (cache.retain keep).2.Sound :=
  h.of_sublist rfl List.filter_sublist

variable [DecidableEq κ]

/-! ### Entries under a key -/

section Lookup

variable {entries : List (κ × ν)}

/-- The entry in front is found first. -/
theorem find?_cons : find? other ((key, value) :: entries) =
    if key = other then some value else find? other entries := by
  by_cases hkey : key = other
  · simp [find?, hkey]
  · simp [find?, hkey]

/-- A key that is dropped is not found, and the others are. -/
theorem find?_dropKey : find? other (dropKey key entries) =
    if other = key then none else find? other entries := by
  rw [find?, dropKey, List.find?_filter, find?]
  by_cases hother : other = key
  · subst hother
    simp
  · rw [if_neg hother]
    congr 2
    funext entry
    by_cases hentry : entry.1 = other
    · simp [hentry, hother]
    · simp [hentry]

theorem length_dropKey_lt (h : find? key entries = some value) :
    (dropKey key entries).length < entries.length :=
  List.length_filter_lt_length_iff_exists.2 ⟨(key, value), mem_of_find? h, by simp⟩

/-- Where no key stands twice, an entry is the one under its key. -/
theorem find?_eq_some_iff (hnodup : (entries.map Prod.fst).Nodup) :
    find? key entries = some value ↔ (key, value) ∈ entries := by
  induction entries with
  | nil => simp [find?]
  | cons entry entries ih =>
    obtain ⟨name, held⟩ := entry
    obtain ⟨hname, hnodup⟩ := List.nodup_cons.1 hnodup
    rw [find?_cons, List.mem_cons, Prod.mk.injEq]
    by_cases hkey : name = key
    · subst hkey
      have hnot : (name, value) ∉ entries := fun hmem => hname (List.mem_map.2 ⟨_, hmem, rfl⟩)
      simp [hnot, eq_comm]
    · simp [hkey, ih hnodup, Ne.symm hkey]

/-- Among entries with different keys, what is found after a selection was found before and passes
the test. -/
theorem find?_filter (hnodup : (entries.map Prod.fst).Nodup) (keep : κ → ν → Bool) :
    find? key (entries.filter fun entry => keep entry.1 entry.2) =
      (find? key entries).filter (keep key) := by
  have hkept := (List.filter_sublist (p := fun entry : κ × ν => keep entry.1 entry.2)
    (l := entries)).map Prod.fst
  ext value
  rw [find?_eq_some_iff (hnodup.sublist hkept), List.mem_filter, Option.filter_eq_some_iff,
    find?_eq_some_iff hnodup]

end Lookup

/-! ### One operation -/

/-- Carries out one operation. -/
def perform (cache : LruCache κ ν) : CacheOperation κ ν → CacheAnswer κ ν × LruCache κ ν
  | .get key => (.found (cache.get key).1, (cache.get key).2)
  | .peek key => (.found (cache.peek key), cache)
  | .contains key => (.present (cache.contains key), cache)
  | .insert key value => (.evicted (cache.insert key value).1, (cache.insert key value).2)
  | .remove key => (.found (cache.remove key).1, (cache.remove key).2)
  | .clear => (.done, cache.clear)
  | .retain keep => (.dropped (cache.retain keep).1, (cache.retain keep).2)

/-- A read that finds a value moves its entry to the front and counts a hit. -/
theorem get_of_peek_eq_some (h : cache.peek key = some value) :
    cache.get key = (some value, { cache with
      entries := (key, value) :: dropKey key cache.entries
      hits := cache.hits + 1 }) := by
  rw [get, h]

/-- A read that finds none counts a miss. -/
theorem get_of_peek_eq_none (h : cache.peek key = none) :
    cache.get key = (none, cache.recordMiss) := by
  rw [get, h]

/-- What is read is what is held. -/
theorem fst_get : (cache.get key).1 = cache.peek key := by
  cases hpeek : cache.peek key with
  | some value => rw [get_of_peek_eq_some hpeek]
  | none => rw [get_of_peek_eq_none hpeek]

theorem contains_eq_true_iff : cache.contains key = true ↔ ∃ value, cache.peek key = some value :=
  Option.isSome_iff_exists

theorem contains_eq_false_iff : cache.contains key = false ↔ cache.peek key = none :=
  Option.isSome_eq_false_iff.trans Option.isNone_iff_eq_none

/-- A key that is there takes the new value and comes to the front. -/
theorem insert_of_peek_eq_some {old : ν} (h : cache.peek key = some old) :
    cache.insert key value =
      (none, { cache with entries := (key, value) :: dropKey key cache.entries }) := by
  rw [insert, contains, h, if_pos (by rfl)]

/-- A new key comes to the front where there is room. -/
theorem insert_of_room (h : cache.peek key = none) (hroom : cache.length < cache.capacity) :
    cache.insert key value = (none, { cache with entries := (key, value) :: cache.entries }) := by
  rw [insert_of_peek_eq_none h, if_pos hroom]

/-- A new key takes the room of the entry at the end where there is no room. -/
theorem Sound.insert_of_full (h : cache.Sound) (hnone : cache.peek key = none)
    (hfull : cache.length = cache.capacity) :
    ∃ front last, cache.entries = front ++ [last] ∧ cache.insert key value =
      (some last, { cache with
        entries := (key, value) :: front
        evictions := cache.evictions + 1 }) := by
  have hne : cache.entries ≠ [] := by
    rw [← List.length_pos_iff]
    exact Nat.lt_of_lt_of_eq h.capacity_pos hfull.symm
  obtain ⟨front, last, hentries⟩ := (List.eq_nil_or_concat' cache.entries).resolve_left hne
  refine ⟨front, last, hentries, ?_⟩
  rw [insert_of_peek_eq_none hnone, if_neg (hfull ▸ Nat.lt_irrefl _), hentries,
    List.getLast?_concat, List.dropLast_concat]

/-- What an insertion does: the key is there already, or there is room for it, or the entry at the
end makes room. -/
theorem Sound.insert_cases (h : cache.Sound) (key : κ) (value : ν) :
    (∃ old, cache.peek key = some old ∧ cache.insert key value =
      (none, { cache with entries := (key, value) :: dropKey key cache.entries })) ∨
    (cache.peek key = none ∧ cache.length < cache.capacity ∧ cache.insert key value =
      (none, { cache with entries := (key, value) :: cache.entries })) ∨
    (cache.peek key = none ∧ cache.length = cache.capacity ∧ ∃ front last,
      cache.entries = front ++ [last] ∧ cache.insert key value =
        (some last, { cache with
          entries := (key, value) :: front
          evictions := cache.evictions + 1 })) := by
  cases hpeek : cache.peek key with
  | some old => exact .inl ⟨old, rfl, insert_of_peek_eq_some hpeek⟩
  | none =>
    rcases Nat.lt_or_eq_of_le h.length_le with hroom | hfull
    · exact .inr (.inl ⟨rfl, hroom, insert_of_room hpeek hroom⟩)
    · exact .inr (.inr ⟨rfl, hfull, h.insert_of_full hpeek hfull⟩)

/-! ### Operations keep caches sound -/

/-- An entry that is moved to the front, perhaps with another value. -/
theorem Sound.touch (h : cache.Sound) {next : LruCache κ ν} {old : ν}
    (hold : cache.peek key = some old) (hcapacity : next.capacity = cache.capacity)
    (hentries : next.entries = (key, value) :: dropKey key cache.entries) : next.Sound :=
  h.cons hcapacity hentries List.filter_sublist (fun _ hentry => (mem_dropKey.1 hentry).2)
    (Nat.lt_of_lt_of_le (length_dropKey_lt hold) h.length_le)

theorem Sound.get (h : cache.Sound) (key : κ) : (cache.get key).2.Sound := by
  cases hpeek : cache.peek key with
  | some value =>
    rw [get_of_peek_eq_some hpeek]
    exact h.touch hpeek rfl rfl
  | none =>
    rw [get_of_peek_eq_none hpeek]
    exact h.of_sublist rfl (List.Sublist.refl _)

/-- An insertion leaves a sound cache sound, whatever has to make room. -/
theorem Sound.insert (h : cache.Sound) (key : κ) (value : ν) :
    (cache.insert key value).2.Sound := by
  rcases h.insert_cases key value with ⟨old, hold, heq⟩ | ⟨hnone, hroom, heq⟩ |
    ⟨hnone, hfull, front, last, hentries, heq⟩
  · rw [heq]
    exact h.touch hold rfl rfl
  · rw [heq]
    exact h.cons rfl rfl (List.Sublist.refl _) (find?_eq_none_iff.1 hnone) hroom
  · rw [heq]
    have hfront : front.Sublist cache.entries := hentries ▸ List.sublist_append_left front [last]
    refine h.cons rfl rfl hfront
      (fun entry hentry => find?_eq_none_iff.1 hnone entry (hfront.subset hentry)) ?_
    rw [← hfull, length, hentries, List.length_append]
    exact Nat.lt_succ_self front.length

theorem Sound.remove (h : cache.Sound) (key : κ) : (cache.remove key).2.Sound :=
  h.of_sublist rfl List.filter_sublist

/-- **Every operation leaves a sound cache sound.** -/
theorem Sound.perform (h : cache.Sound) (operation : CacheOperation κ ν) :
    (cache.perform operation).2.Sound := by
  cases operation with
  | get key => exact h.get key
  | peek key => exact h
  | contains key => exact h
  | insert key value => exact h.insert key value
  | remove key => exact h.remove key
  | clear => exact h.clear
  | retain keep => exact h.retain keep

/-- Every cache that comes from an empty one is sound. -/
theorem sound_run (capacity : Nat) (operations : List (CacheOperation κ ν)) :
    (run perform (empty capacity) operations).2.Sound :=
  run_preserves (motive := Sound) (fun _ operation h => h.perform operation)
    (sound_empty capacity) operations

theorem capacity_perform (cache : LruCache κ ν) (operation : CacheOperation κ ν) :
    (cache.perform operation).2.capacity = cache.capacity := by
  cases operation with
  | get key =>
    rw [LruCache.perform, LruCache.get]
    split <;> rfl
  | insert key value =>
    rw [LruCache.perform, LruCache.insert]
    split
    · rfl
    · split <;> rfl
  | peek | contains | remove | clear | retain => rfl

/-! ### What an operation counts -/

/-- One read is one hit or one miss, and nothing else is either. -/
theorem hits_misses_perform (cache : LruCache κ ν) (operation : CacheOperation κ ν) :
    (cache.perform operation).2.hits + (cache.perform operation).2.misses =
      cache.hits + cache.misses + if operation.isGet then 1 else 0 := by
  cases operation with
  | get key =>
    cases hpeek : cache.peek key with
    | none =>
      rw [perform, get_of_peek_eq_none hpeek]
      rfl
    | some value =>
      rw [perform, get_of_peek_eq_some hpeek]
      exact Nat.add_right_comm _ _ _
  | insert key value =>
    rw [perform, LruCache.insert]
    split
    · rfl
    · split <;> rfl
  | peek | contains | remove | clear | retain => rfl

/-- One eviction is one entry that an insertion gives back. -/
theorem Sound.evictions_perform (h : cache.Sound) (operation : CacheOperation κ ν) :
    (cache.perform operation).2.evictions =
      cache.evictions + if (cache.perform operation).1.isEviction then 1 else 0 := by
  cases operation with
  | get key =>
    cases hpeek : cache.peek key with
    | none =>
      rw [LruCache.perform, get_of_peek_eq_none hpeek]
      rfl
    | some value =>
      rw [LruCache.perform, get_of_peek_eq_some hpeek]
      rfl
  | insert key value =>
    rw [LruCache.perform]
    rcases h.insert_cases key value with ⟨old, -, heq⟩ | ⟨-, -, heq⟩ |
      ⟨-, -, front, last, -, heq⟩
    all_goals
      rw [heq]
      rfl
  | peek | contains | remove | clear | retain => rfl

/-! ### What is held after an operation -/

/-- Reading moves entries and changes none. -/
theorem peek_get : (cache.get key).2.peek other = cache.peek other := by
  cases hpeek : cache.peek key with
  | none =>
    rw [get_of_peek_eq_none hpeek]
    rfl
  | some value =>
    rw [get_of_peek_eq_some hpeek, peek, find?_cons, find?_dropKey]
    by_cases hkey : key = other
    · subst hkey
      rw [if_pos rfl, hpeek]
    · rw [if_neg hkey, if_neg (Ne.symm hkey), peek]

/-- Under another key stands what stood there, unless that made room. -/
theorem Sound.peek_insert_of_ne (h : cache.Sound) (hne : other ≠ key) :
    (cache.insert key value).2.peek other =
      if (cache.insert key value).1.map Prod.fst = some other then none else cache.peek other := by
  rcases h.insert_cases key value with ⟨old, hold, heq⟩ | ⟨hnone, hroom, heq⟩ |
    ⟨hnone, hfull, front, last, hentries, heq⟩
  · rw [heq, peek, find?_cons, find?_dropKey, if_neg (Ne.symm hne), if_neg hne]
    rfl
  · rw [heq, peek, find?_cons, if_neg (Ne.symm hne)]
    rfl
  · have hnodup := h.nodup
    rw [hentries, List.map_append] at hnodup
    have hlast := (List.nodup_append.1 hnodup).2.2
    rw [heq, peek, find?_cons, if_neg (Ne.symm hne), peek, hentries]
    simp only [Option.map_some, Option.some.injEq]
    by_cases hother : last.1 = other
    · rw [if_pos hother, find?_eq_none_iff]
      intro entry hentry hsame
      exact hlast entry.1 (List.mem_map_of_mem hentry) last.1 List.mem_cons_self
        (hsame.trans hother.symm)
    · rw [if_neg hother, find?, find?, List.find?_append,
        List.find?_cons_of_neg (by simpa using hother), List.find?_nil, Option.or_none]

theorem peek_remove : (cache.remove key).2.peek other =
    if other = key then none else cache.peek other :=
  find?_dropKey

theorem Sound.peek_retain (h : cache.Sound) (keep : κ → ν → Bool) :
    (cache.retain keep).2.peek key = (cache.peek key).filter (keep key) :=
  find?_filter h.nodup keep

end LruCache

end ChartSchema
