import ChartSchema.Proofs.Cache.Operations

/-!
# Larger caches hold more

Two caches of different capacities that go through the same operations differ in more than a tail: a
key that only the larger one holds comes to its front when it is read, while the smaller one just
misses. Still the entries of the smaller cache are a sublist of those of the larger one, so that
what the smaller one finds is found by the larger one, with the same value and in the same order of
recency.

What keeps this up is a bound on the difference of the lengths, which is at most that of the
capacities (`Includes.gap`): when the larger cache has no room left, the smaller one has none
either, and both give up their last entry. Without the bound the larger cache could be full while
the smaller one is not, and would drop an entry that the smaller one keeps.

`Includes` has both conditions, with the invariants of the two caches and the comparison of their
hits. Each operation keeps it. For an insertion there are three cases, by what the larger cache
does: it holds the key already (`Includes.insert_of_peek`), it has room for it
(`Includes.insert_of_room`), or it has none (`Includes.insert_of_full`). A read that hits only in
the larger cache moves an entry that the smaller one does not hold, which no sublist notices.

The main statement is `run_includes`, over all operations from two empty caches.
-/

namespace ChartSchema

variable {κ ν : Type}

/-- The test drops at least as many elements of a list as of a sublist. -/
theorem length_filter_add_le {α : Type} {few many : List α} (h : few.Sublist many)
    (keep : α → Bool) :
    (many.filter keep).length + few.length ≤ (few.filter keep).length + many.length := by
  induction h with
  | slnil => exact Nat.le_refl _
  | cons a _ ih =>
    rw [List.filter_cons, List.length_cons]
    split
    · rw [List.length_cons]
      omega
    · omega
  | cons_cons a _ ih =>
    rw [List.filter_cons, List.filter_cons, List.length_cons, List.length_cons]
    split
    · rw [List.length_cons, List.length_cons]
      omega
    · omega

/-- A sublist without its last element lies in the list without its last element. -/
theorem sublist_of_concat {α : Type} {few many : List α} {last other : α}
    (h : (few ++ [last]).Sublist (many ++ [other])) : few.Sublist many := by
  have hreverse := List.reverse_sublist.2 h
  rw [List.reverse_append, List.reverse_append] at hreverse
  exact List.reverse_sublist.1 hreverse.tail

/-- An answer finds what another one finds. -/
def CacheAnswer.Finds (answer other : CacheAnswer κ ν) : Prop :=
  ∀ value, other = .found (some value) → answer = .found (some value)

namespace LruCache

/-- A larger cache holds the entries of a smaller one in the same order, and it has not more entries
beyond these than places beyond those of the smaller one. -/
structure Includes (large small : LruCache κ ν) : Prop where
  sound_large : large.Sound
  sound_small : small.Sound
  sublist : small.entries.Sublist large.entries
  gap : large.length + small.capacity ≤ small.length + large.capacity
  hits : small.hits ≤ large.hits

namespace Includes

variable {large small : LruCache κ ν}

theorem of_empty {capacity larger : Nat} (h : capacity ≤ larger) :
    (empty larger : LruCache κ ν).Includes (empty capacity) where
  sound_large := sound_empty larger
  sound_small := sound_empty capacity
  sublist := .refl _
  gap := by
    have hmax : max 1 capacity ≤ max 1 larger := by omega
    exact Nat.add_le_add_left hmax 0
  hits := Nat.le_refl 0

variable {largeNext smallNext : LruCache κ ν} {key : κ} {value : ν}

/-- Both keep the entries that pass a test. -/
theorem filter (h : large.Includes small) (keep : κ × ν → Bool)
    (hlarge : largeNext = { large with entries := large.entries.filter keep })
    (hsmall : smallNext = { small with entries := small.entries.filter keep }) :
    largeNext.Includes smallNext := by
  subst hlarge hsmall
  refine ⟨h.sound_large.of_sublist rfl List.filter_sublist,
    h.sound_small.of_sublist rfl List.filter_sublist, h.sublist.filter keep, ?_, h.hits⟩
  have hkept := length_filter_add_le h.sublist keep
  have hgap := h.gap
  simp only [length] at hgap ⊢
  omega

/-- Both have an entry in front of what they keep. -/
theorem of_front {others fewer : List (κ × ν)} (hlarge : largeNext.Sound) (hsmall : smallNext.Sound)
    (hothers : largeNext.entries = (key, value) :: others)
    (hfewer : smallNext.entries = (key, value) :: fewer) (hsublist : fewer.Sublist others)
    (hgap : others.length + smallNext.capacity ≤ fewer.length + largeNext.capacity)
    (hhits : smallNext.hits ≤ largeNext.hits) : largeNext.Includes smallNext := by
  refine ⟨hlarge, hsmall, hothers ▸ hfewer ▸ hsublist.cons_cons (key, value), ?_, hhits⟩
  rw [length, length, hothers, hfewer, List.length_cons, List.length_cons]
  omega

variable [DecidableEq κ]

/-- What the smaller cache holds is held by the larger one. -/
theorem peek (h : large.Includes small) (hsmall : small.peek key = some value) :
    large.peek key = some value :=
  (find?_eq_some_iff h.sound_large.nodup).2 (h.sublist.subset (mem_of_find? hsmall))

theorem peek_eq_none (h : large.Includes small) (hlarge : large.peek key = none) :
    small.peek key = none := by
  cases hsmall : small.peek key with
  | none => rfl
  | some value =>
    rw [h.peek hsmall] at hlarge
    cases hlarge

/-- What is left of a key that both hold. -/
theorem gap_dropKey (h : large.Includes small) (key : κ) :
    (dropKey key large.entries).length + small.capacity ≤
      (dropKey key small.entries).length + large.capacity := by
  have hkept := length_filter_add_le h.sublist fun entry => entry.1 ≠ key
  have hgap := h.gap
  simp only [length, dropKey] at hgap ⊢
  omega

/-- Where only the larger cache holds a key, the smaller one loses nothing of it. -/
theorem sublist_dropKey (h : large.Includes small) (hnone : small.peek key = none) :
    small.entries.Sublist (dropKey key large.entries) := by
  rw [← dropKey_of_find? hnone]
  exact h.sublist.filter _

/-- A read that hits in the smaller cache hits in the larger one. One that hits only in the larger
cache moves an entry there that the smaller one does not hold. -/
theorem get (h : large.Includes small) (key : κ) :
    (large.get key).2.Includes (small.get key).2 := by
  have hlarge := h.sound_large.get key
  have hsmall := h.sound_small.get key
  cases hheld : small.peek key with
  | some value =>
    rw [get_of_peek_eq_some hheld] at hsmall ⊢
    rw [get_of_peek_eq_some (h.peek hheld)] at hlarge ⊢
    exact of_front hlarge hsmall rfl rfl (h.sublist.filter _) (h.gap_dropKey key)
      (Nat.succ_le_succ h.hits)
  | none =>
    rw [get_of_peek_eq_none hheld] at hsmall ⊢
    cases hother : large.peek key with
    | none =>
      rw [get_of_peek_eq_none hother] at hlarge ⊢
      exact ⟨hlarge, hsmall, h.sublist, h.gap, h.hits⟩
    | some value =>
      rw [get_of_peek_eq_some hother] at hlarge ⊢
      refine ⟨hlarge, hsmall, (h.sublist_dropKey hheld).cons _, ?_, Nat.le_succ_of_le h.hits⟩
      have hdropped := length_dropKey_lt hother
      have hgap := h.gap
      simp only [recordMiss, length, List.length_cons] at hgap ⊢
      omega

/-- The larger cache holds the key that is inserted; the smaller one may hold it or not. -/
theorem insert_of_peek (h : large.Includes small) {old : ν} (hold : large.peek key = some old) :
    (large.insert key value).2.Includes (small.insert key value).2 := by
  have hlarge := h.sound_large.insert key value
  have hsmall := h.sound_small.insert key value
  have hgap := h.gap
  have hbound := h.sound_large.length_le
  have hdropped := length_dropKey_lt hold
  rw [insert_of_peek_eq_some hold] at hlarge ⊢
  rcases h.sound_small.insert_cases key value with ⟨held, hheld, heq⟩ | ⟨hheld, -, heq⟩ |
    ⟨hheld, hfull, front, last, hentries, heq⟩
  · rw [heq] at hsmall ⊢
    exact of_front hlarge hsmall rfl rfl (h.sublist.filter _) (h.gap_dropKey key) h.hits
  · rw [heq] at hsmall ⊢
    refine of_front hlarge hsmall rfl rfl (h.sublist_dropKey hheld) ?_ h.hits
    simp only [length] at hgap ⊢
    omega
  -- the smaller one evicts an entry, which the larger one goes on to hold
  · rw [heq] at hsmall ⊢
    have hsublist := h.sublist_dropKey hheld
    rw [hentries] at hsublist
    refine of_front hlarge hsmall rfl rfl ((List.sublist_append_left _ _).trans hsublist) ?_ h.hits
    simp only [length, hentries, List.length_append, List.length_singleton] at hbound hfull ⊢
    omega

/-- The key is new, and the larger cache has room for it. -/
theorem insert_of_room (h : large.Includes small) (hnone : large.peek key = none)
    (hroom : large.length < large.capacity) :
    (large.insert key value).2.Includes (small.insert key value).2 := by
  have hlarge := h.sound_large.insert key value
  have hsmall := h.sound_small.insert key value
  have hheld := h.peek_eq_none hnone
  rw [LruCache.insert_of_room hnone hroom] at hlarge ⊢
  rcases Nat.lt_or_eq_of_le h.sound_small.length_le with hspare | hfull
  · rw [LruCache.insert_of_room hheld hspare] at hsmall ⊢
    exact of_front hlarge hsmall rfl rfl h.sublist h.gap h.hits
  · obtain ⟨front, last, hentries, heq⟩ := h.sound_small.insert_of_full hheld hfull
    rw [heq] at hsmall ⊢
    have hsublist := h.sublist
    rw [hentries] at hsublist
    refine of_front hlarge hsmall rfl rfl ((List.sublist_append_left _ _).trans hsublist) ?_ h.hits
    simp only [length, hentries, List.length_append, List.length_singleton] at hroom hfull ⊢
    omega

/-- The key is new, and the larger cache has no room for it. Then the smaller one has none either,
and both give up their last entry. -/
theorem insert_of_full (h : large.Includes small) (hnone : large.peek key = none)
    (hfull : large.length = large.capacity) :
    (large.insert key value).2.Includes (small.insert key value).2 := by
  have hlarge := h.sound_large.insert key value
  have hsmall := h.sound_small.insert key value
  have hgap := h.gap
  -- the larger one has no place to spare, and the smaller one has not more of them
  have hspent : small.length = small.capacity := by
    have hbound := h.sound_small.length_le
    omega
  obtain ⟨others, last, hothers, heq⟩ := h.sound_large.insert_of_full hnone hfull
  rw [heq] at hlarge ⊢
  obtain ⟨fewer, other, hfewer, heq⟩ := h.sound_small.insert_of_full (h.peek_eq_none hnone) hspent
  rw [heq] at hsmall ⊢
  have hsublist := h.sublist
  rw [hothers, hfewer] at hsublist
  refine of_front hlarge hsmall rfl rfl (sublist_of_concat hsublist) ?_ h.hits
  simp only [length, hothers, hfewer, List.length_append, List.length_singleton] at hgap ⊢
  omega

theorem insert (h : large.Includes small) (key : κ) (value : ν) :
    (large.insert key value).2.Includes (small.insert key value).2 := by
  cases hpeek : large.peek key with
  | some old => exact h.insert_of_peek hpeek
  | none =>
    rcases Nat.lt_or_eq_of_le h.sound_large.length_le with hroom | hfull
    · exact h.insert_of_room hpeek hroom
    · exact h.insert_of_full hpeek hfull

/-- Whatever is done with both, what the smaller cache finds is found by the larger one, and the
larger one goes on to include the smaller one. -/
theorem perform (h : large.Includes small) (operation : CacheOperation κ ν) :
    ((large.perform operation).1.Finds (small.perform operation).1) ∧
      (large.perform operation).2.Includes (small.perform operation).2 := by
  cases operation with
  | get key =>
    refine ⟨fun value hfound => ?_, h.get key⟩
    rw [LruCache.perform, fst_get, CacheAnswer.found.injEq] at hfound ⊢
    exact h.peek hfound
  | peek key =>
    refine ⟨fun value hfound => ?_, h⟩
    rw [LruCache.perform, CacheAnswer.found.injEq] at hfound ⊢
    exact h.peek hfound
  | contains key =>
    refine ⟨?_, h⟩
    rintro value ⟨⟩
  | insert key value =>
    refine ⟨?_, h.insert key value⟩
    rintro other ⟨⟩
  | remove key =>
    refine ⟨fun value hfound => ?_, h.filter (fun entry => entry.1 ≠ key) rfl rfl⟩
    rw [LruCache.perform, LruCache.remove, CacheAnswer.found.injEq] at hfound ⊢
    exact h.peek hfound
  | clear =>
    refine ⟨?_, h.filter (fun _ => false) ?_ ?_⟩
    · rintro value ⟨⟩
    · rw [List.filter_false]
      rfl
    · rw [List.filter_false]
      rfl
  | retain keep =>
    refine ⟨?_, h.filter (fun entry => keep entry.1 entry.2) rfl rfl⟩
    rintro value ⟨⟩

end Includes

variable [DecidableEq κ]

/-- **A larger cache never forgets what a smaller one remembers.** After any operations on both,
what the smaller cache holds is held by the larger one, with the same values and in the same order
of recency; all along, what the smaller cache found was found by the larger one, and a read that
hits in the smaller cache hits in the larger one. So the smaller cache never has more hits. -/
theorem run_includes {capacity larger : Nat} (h : capacity ≤ larger)
    (operations : List (CacheOperation κ ν)) :
    let small := run perform (empty capacity) operations
    let large := run perform (empty larger) operations
    (∀ key value, small.2.peek key = some value → large.2.peek key = some value) ∧
      small.2.entries.Sublist large.2.entries ∧ small.2.keys.Sublist large.2.keys ∧
      List.Forall₂ CacheAnswer.Finds large.1 small.1 ∧
      (∀ key value, (small.2.get key).1 = some value → (large.2.get key).1 = some value) ∧
      small.2.hits ≤ large.2.hits := by
  intro small large
  obtain ⟨hanswers, hincludes⟩ := run_related Includes CacheAnswer.Finds
    (fun _ _ operation h => h.perform operation) (Includes.of_empty h) operations
  refine ⟨fun key value => hincludes.peek, hincludes.sublist,
    (hincludes.sublist.map Prod.fst).reverse, hanswers, fun key value hhit => ?_, hincludes.hits⟩
  rw [fst_get] at hhit ⊢
  exact hincludes.peek hhit

/-- Two reads and two insertions into a cache for one entry and into one for two. -/
theorem run_includes_two :
    let operations : List (CacheOperation Nat String) :=
      [.insert 1 "a", .insert 2 "b", .get 1, .insert 3 "c", .get 3]
    let small := run perform (empty 1) operations
    let large := run perform (empty 2) operations
    1 ≤ 2 ∧ small.2.keys = [3] ∧ large.2.keys = [1, 3] ∧ small.2.keys.Sublist large.2.keys ∧
      small.2.hits = 1 ∧ large.2.hits = 2 ∧ small.2.hits ≤ large.2.hits := by
  intro operations small large
  have hall := run_includes (by decide : 1 ≤ 2) operations
  exact ⟨by decide, by decide, by decide, hall.2.2.1, by decide, by decide, hall.2.2.2.2.2⟩

end LruCache

end ChartSchema
