import Mathlib.Data.List.MinMax
import Mathlib.Data.List.Perm.Basic
import ChartSchema.Proofs.Cache.Operations

/-!
# Recency by stamps

A cache says by the order of its entries which of them was not used for longest. A **stamped store**
says the same in another way: it marks every key that it holds with the time of its last touch, that
is the operation that inserted it or read it last, and its slots stand in no order that means
anything. When it has to make room, it looks for the smallest stamp. Nothing is moved in it, so that
it states what the order of recency means without keeping one.

Every run of a cache gives the answers that the stamped store gives, and the entries of the cache,
the least recent first, are the slots in the order of their stamps (`run_follows_stamps`).

The relation between the two is `LruCache.Mirrors`: the entries, the last first, are the slots in
some order in which the stamps increase, and all stamps are behind the clock. A touch gives the
largest stamp so far, which belongs in front (`Mirrors.touch`), and the last entry is the slot with
the smallest stamp (`Mirrors.last_eq`), so that both drop the same key. Each operation keeps the
relation and gives one answer on both sides (`Mirrors.perform`); over runs this is `run_mirrors`.

Read as statements about the cache alone, the stamps say that its keys stand in the order of their
last touch, and that under each key is what was inserted last and not lost since (`peek_run`).
-/

namespace ChartSchema

variable {κ ν : Type}

namespace CacheOperation

/-- The value that is inserted under a key. -/
def inserted? [DecidableEq κ] (key : κ) : CacheOperation κ ν → Option ν
  | .insert other value => if other = key then some value else none
  | _ => none

end CacheOperation

/-! ### The stamped store -/

/-- What a store keeps under a key, and when the key was touched last. -/
structure Slot (κ ν : Type) where
  key : κ
  value : ν
  stamp : Nat

/-- The entry of a cache that a slot stands for. -/
def Slot.entry (slot : Slot κ ν) : κ × ν :=
  (slot.key, slot.value)

theorem Slot.map_fst_entry (slots : List (Slot κ ν)) :
    (slots.map Slot.entry).map Prod.fst = slots.map Slot.key :=
  List.map_map

/-- A store that stamps each key that it holds with the time of its last touch. Time counts
operations. The slots stand in the order in which their keys came; nothing is read off it. -/
structure StampedStore (κ ν : Type) where
  capacity : Nat
  time : Nat
  slots : List (Slot κ ν)

namespace StampedStore

def empty (capacity : Nat) : StampedStore κ ν :=
  ⟨max 1 capacity, 0, []⟩

/-- The slot with the smallest stamp. -/
def oldest? (store : StampedStore κ ν) : Option (Slot κ ν) :=
  store.slots.argmin Slot.stamp

/-- The slots in increasing order of their stamps. -/
def inOrder (store : StampedStore κ ν) : List (Slot κ ν) :=
  store.slots.mergeSort fun slot other => decide (slot.stamp ≤ other.stamp)

/-- There is one order by stamps if they are different. -/
theorem inOrder_eq {store : StampedStore κ ν} {ordered : List (Slot κ ν)}
    (hperm : ordered.Perm store.slots)
    (hordered : ordered.Pairwise fun slot later => slot.stamp < later.stamp) :
    store.inOrder = ordered := by
  have hsorted : store.inOrder.Pairwise fun slot later => slot.stamp ≤ later.stamp := by
    refine (List.pairwise_mergeSort ?_ ?_ store.slots).imp of_decide_eq_true
    · intro a b c hab hbc
      simp only [decide_eq_true_eq] at hab hbc ⊢
      exact Nat.le_trans hab hbc
    · intro a b
      simp only [Bool.or_eq_true, decide_eq_true_eq]
      exact Nat.le_total _ _
  have hsame : store.inOrder.Perm ordered := (List.mergeSort_perm _ _).trans hperm.symm
  have hstamps : (ordered.map Slot.stamp).Nodup := List.pairwise_map.2 (hordered.imp Nat.ne_of_lt)
  -- slots that may stand either way round have the same stamp, and so they are one slot
  refine List.Perm.eq_of_pairwise ?_ hsorted (hordered.imp Nat.le_of_lt) hsame
  intro slot other hslot hother hle hge
  exact List.inj_on_of_nodup_map hstamps (hsame.mem_iff.1 hslot) hother (Nat.le_antisymm hle hge)

/-- The slot that was touched before all others is the oldest. -/
theorem oldest?_eq {store : StampedStore κ ν} {oldest : Slot κ ν} (hmem : oldest ∈ store.slots)
    (hbefore : ∀ slot ∈ store.slots, slot = oldest ∨ oldest.stamp < slot.stamp) :
    store.oldest? = some oldest := by
  cases hfound : store.oldest? with
  | none =>
    rw [List.argmin_eq_none.1 hfound] at hmem
    exact absurd hmem List.not_mem_nil
  | some found =>
    rcases hbefore found (List.argmin_mem hfound) with rfl | hlt
    · rfl
    · exact absurd (List.le_of_mem_argmin hmem hfound) (Nat.not_le_of_lt hlt)

variable [DecidableEq κ]

/-- The value under a key, wherever its slot is. -/
def value? (store : StampedStore κ ν) (key : κ) : Option ν :=
  (store.slots.find? fun slot => slot.key = key).map Slot.value

/-- The slots after a touch of a key: its slot, wherever it stands, has the present time and the
given value. -/
def touched (store : StampedStore κ ν) (key : κ) (value : ν) : List (Slot κ ν) :=
  store.slots.map fun slot => if slot.key = key then ⟨key, value, store.time⟩ else slot

/-- The slots of all other keys. -/
def without (store : StampedStore κ ν) (key : κ) : List (Slot κ ν) :=
  store.slots.filter fun slot => slot.key ≠ key

/-- The answer to an operation, and the slots after it. -/
def serve (store : StampedStore κ ν) :
    CacheOperation κ ν → CacheAnswer κ ν × List (Slot κ ν)
  | .get key =>
    (.found (store.value? key), (store.value? key).elim store.slots (store.touched key))
  | .peek key => (.found (store.value? key), store.slots)
  | .contains key => (.present (store.value? key).isSome, store.slots)
  | .insert key value =>
    let newcomer : Slot κ ν := ⟨key, value, store.time⟩
    if (store.value? key).isSome then (.evicted none, store.touched key value)
    else if store.slots.length < store.capacity then (.evicted none, store.slots ++ [newcomer])
    else
      match store.oldest? with
      | some oldest => (.evicted (some oldest.entry), store.without oldest.key ++ [newcomer])
      | none => (.evicted none, store.slots ++ [newcomer])
  | .remove key => (.found (store.value? key), store.without key)
  | .clear => (.done, [])
  | .retain keep =>
    (.dropped (store.slots.countP fun slot => !keep slot.key slot.value),
      store.slots.filter fun slot => keep slot.key slot.value)

/-- Carries out one operation, which takes one unit of time. -/
def perform (store : StampedStore κ ν) (operation : CacheOperation κ ν) :
    CacheAnswer κ ν × StampedStore κ ν :=
  ((store.serve operation).1,
    { store with time := store.time + 1, slots := (store.serve operation).2 })

/-- A touch leaves the slot of the key in its place. Up to the places that is the same as a new
slot beside the others. -/
theorem touched_perm {store : StampedStore κ ν} {key : κ} {value : ν}
    (hnodup : (store.slots.map Slot.key).Nodup) (hkey : key ∈ store.slots.map Slot.key) :
    (store.touched key value).Perm (⟨key, value, store.time⟩ :: store.without key) := by
  rw [touched, without]
  generalize store.slots = slots at hnodup hkey
  induction slots with
  | nil => exact absurd hkey List.not_mem_nil
  | cons slot slots ih =>
    obtain ⟨hslot, hnodup⟩ := List.nodup_cons.1 hnodup
    rw [List.map_cons, List.filter_cons]
    by_cases hsame : slot.key = key
    -- no slot behind this one has the key, so that nothing else is touched or left out
    · have hothers : ∀ other ∈ slots, other.key ≠ key := fun other hother heq =>
        hslot (List.mem_map.2 ⟨other, hother, heq.trans hsame.symm⟩)
      rw [if_pos hsame, if_neg (by simpa using hsame),
        List.filter_eq_self.2 fun other hother => decide_eq_true (hothers other hother),
        List.map_congr_left fun other hother => if_neg (hothers other hother), List.map_id']
    · have hbehind := ih hnodup ((List.mem_cons.1 hkey).resolve_left fun heq => hsame heq.symm)
      rw [if_neg hsame, if_pos (by simpa using hsame)]
      exact (hbehind.cons slot).trans (List.Perm.swap _ _ _)

end StampedStore

/-! ### A cache and a stamped store -/

/-- A cache holds what a store holds: the entries, the most recent first, are the slots in
decreasing order of their stamps, and all stamps are of the past. -/
structure LruCache.Mirrors (cache : LruCache κ ν) (store : StampedStore κ ν) : Prop where
  sound : cache.Sound
  capacity : cache.capacity = store.capacity
  recency : ∃ recent : List (Slot κ ν), recent.Perm store.slots ∧
    recent.Pairwise (fun slot earlier => earlier.stamp < slot.stamp) ∧
      cache.entries = recent.map Slot.entry
  past : ∀ slot ∈ store.slots, slot.stamp < store.time

namespace LruCache.Mirrors

/-- Two stores without anything in them. -/
theorem of_empty (capacity : Nat) :
    (LruCache.empty capacity : LruCache κ ν).Mirrors (.empty capacity) where
  sound := sound_empty capacity
  capacity := rfl
  recency := ⟨[], .refl _, .nil, rfl⟩
  past := fun _ h => absurd h List.not_mem_nil

variable {cache next : LruCache κ ν} {store : StampedStore κ ν} {key : κ} {value : ν}
  {slots : List (Slot κ ν)}

/-- The entries are those of the slots in some order. -/
theorem perm (h : cache.Mirrors store) : cache.entries.Perm (store.slots.map Slot.entry) := by
  obtain ⟨recent, hperm, -, hentries⟩ := h.recency
  exact hentries ▸ hperm.map Slot.entry

/-- No key has two slots. -/
theorem nodup (h : cache.Mirrors store) : (store.slots.map Slot.key).Nodup :=
  Slot.map_fst_entry store.slots ▸ (h.perm.map Prod.fst).nodup_iff.1 h.sound.nodup

theorem length_eq (h : cache.Mirrors store) : store.slots.length = cache.length := by
  rw [length, h.perm.length_eq, List.length_map]

/-- What is kept of the entries is kept of the slots. -/
theorem kept (h : cache.Mirrors store) (keep : κ × ν → Bool) (hsound : next.Sound)
    (hcapacity : next.capacity = cache.capacity)
    (hentries : next.entries = cache.entries.filter keep)
    (hslots : slots = store.slots.filter fun slot => keep slot.entry) :
    next.Mirrors { store with time := store.time + 1, slots := slots } := by
  obtain ⟨recent, hperm, hordered, hrecent⟩ := h.recency
  subst hslots
  refine ⟨hsound, hcapacity.trans h.capacity, ⟨recent.filter fun slot => keep slot.entry,
    hperm.filter _, hordered.filter _, ?_⟩, fun slot hslot => ?_⟩
  · rw [hentries, hrecent, List.filter_map]
    rfl
  · exact Nat.lt_succ_of_lt (h.past slot (List.mem_filter.1 hslot).1)

/-- A touched entry comes to the front, and a touched slot has the latest stamp. -/
theorem touch (h : cache.Mirrors store) (key : κ) (value : ν) (keep : κ × ν → Bool)
    (hsound : next.Sound)
    (hcapacity : next.capacity = cache.capacity)
    (hentries : next.entries = (key, value) :: cache.entries.filter keep)
    (hslots : slots.Perm
      (⟨key, value, store.time⟩ :: store.slots.filter fun slot => keep slot.entry)) :
    next.Mirrors { store with time := store.time + 1, slots := slots } := by
  obtain ⟨recent, hperm, hordered, hrecent⟩ := h.recency
  have hkept : (recent.filter fun slot => keep slot.entry).Perm
      (store.slots.filter fun slot => keep slot.entry) := hperm.filter _
  have hpast : ∀ slot ∈ store.slots.filter fun slot => keep slot.entry, slot.stamp < store.time :=
    fun slot hslot => h.past slot (List.mem_filter.1 hslot).1
  refine ⟨hsound, hcapacity.trans h.capacity,
    ⟨⟨key, value, store.time⟩ :: recent.filter fun slot => keep slot.entry,
      (hkept.cons _).trans hslots.symm, List.pairwise_cons.2 ⟨fun slot hslot => ?_,
        hordered.filter _⟩, ?_⟩, fun slot hslot => ?_⟩
  · exact hpast slot (hkept.mem_iff.1 hslot)
  · rw [hentries, hrecent, List.filter_map, List.map_cons]
    rfl
  · rcases List.mem_cons.1 (hslots.mem_iff.1 hslot) with rfl | hslot
    · exact Nat.lt_succ_self store.time
    · exact Nat.lt_succ_of_lt (hpast slot hslot)

/-- Nothing happens but that time goes by. -/
theorem tick (h : cache.Mirrors store) (hsound : next.Sound)
    (hcapacity : next.capacity = cache.capacity) (hentries : next.entries = cache.entries) :
    next.Mirrors { store with time := store.time + 1, slots := store.slots } :=
  h.kept (fun _ => true) hsound hcapacity (hentries.trans (List.filter_true _).symm)
    (List.filter_true _).symm

/-- The entry at the end is the oldest slot, and the entries in front of it are all others. -/
theorem last_eq (h : cache.Mirrors store) {front : List (κ × ν)} {last : κ × ν}
    (hentries : cache.entries = front ++ [last]) :
    ∃ oldest, store.oldest? = some oldest ∧ oldest.entry = last ∧
      ∃ others, store.inOrder = oldest :: others ∧ others.map Slot.entry = front.reverse := by
  obtain ⟨recent, hperm, hordered, hrecent⟩ := h.recency
  obtain ⟨others, single, rfl, hothers, hsingle⟩ :=
    List.map_eq_append_iff.1 (hrecent.symm.trans hentries)
  obtain ⟨oldest, rfl, hlast⟩ := List.map_eq_singleton_iff.1 hsingle
  have hreverse : (others ++ [oldest]).reverse = oldest :: others.reverse := by simp
  -- all other slots stand in front of the last one, with later stamps
  refine ⟨oldest, ?_, hlast, others.reverse, ?_, ?_⟩
  · refine StampedStore.oldest?_eq (hperm.mem_iff.1 (by simp)) fun slot hslot => ?_
    rcases List.mem_append.1 (hperm.mem_iff.2 hslot) with hslot | hslot
    · exact .inr ((List.pairwise_append.1 hordered).2.2 slot hslot oldest (by simp))
    · exact .inl (List.mem_singleton.1 hslot)
  · rw [← hreverse]
    exact StampedStore.inOrder_eq ((List.reverse_perm _).trans hperm)
      (List.pairwise_reverse.2 hordered)
  · rw [List.map_reverse, hothers]

variable [DecidableEq κ]

/-- Both hold the same under every key. -/
theorem value?_eq (h : cache.Mirrors store) (key : κ) : store.value? key = cache.peek key := by
  have hslots : store.value? key = find? key (store.slots.map Slot.entry) := by
    rw [StampedStore.value?, find?, List.find?_map, Option.map_map]
    rfl
  have hnodup : ((store.slots.map Slot.entry).map Prod.fst).Nodup := by
    rw [Slot.map_fst_entry]
    exact h.nodup
  ext value
  rw [hslots, peek, find?_eq_some_iff h.sound.nodup, find?_eq_some_iff hnodup, h.perm.mem_iff]

/-- A touch of a key that is there. -/
theorem touched (h : cache.Mirrors store) {old : ν} (hold : cache.peek key = some old)
    (hcapacity : next.capacity = cache.capacity)
    (hentries : next.entries = (key, value) :: dropKey key cache.entries) :
    next.Mirrors { store with time := store.time + 1, slots := store.touched key value } := by
  refine h.touch key value (fun entry => entry.1 ≠ key)
    (h.sound.touch hold hcapacity hentries) hcapacity hentries ?_
  refine StampedStore.touched_perm h.nodup (Slot.map_fst_entry store.slots ▸ ?_)
  exact List.mem_map.2 ⟨(key, old), h.perm.mem_iff.1 (mem_of_find? hold), rfl⟩

/-! ### One operation on both -/

/-- A read moves the entry and renews the stamp. -/
theorem get (h : cache.Mirrors store) (key : κ) :
    (cache.get key).2.Mirrors (store.perform (.get key)).2 := by
  have hsound := h.sound.get key
  rw [StampedStore.perform, StampedStore.serve, h.value?_eq]
  cases hpeek : cache.peek key with
  | none =>
    rw [get_of_peek_eq_none hpeek] at hsound ⊢
    exact h.tick hsound rfl rfl
  | some value =>
    rw [get_of_peek_eq_some hpeek]
    exact h.touched hpeek rfl rfl

/-- An insertion evicts the same entry from both. -/
theorem insert (h : cache.Mirrors store) (key : κ) (value : ν) :
    (store.perform (.insert key value)).1 = .evicted (cache.insert key value).1 ∧
      (cache.insert key value).2.Mirrors (store.perform (.insert key value)).2 := by
  have hsound := h.sound.insert key value
  have hroom_iff : store.slots.length < store.capacity ↔ cache.length < cache.capacity := by
    rw [h.length_eq, h.capacity]
  rw [StampedStore.perform, StampedStore.serve, h.value?_eq]
  rcases h.sound.insert_cases key value with ⟨old, hold, heq⟩ | ⟨hnone, hroom, heq⟩ |
    ⟨hnone, hfull, front, last, hentries, heq⟩
  · rw [heq, hold, if_pos (by rfl)]
    exact ⟨rfl, h.touched hold rfl rfl⟩
  · rw [heq] at hsound ⊢
    rw [hnone, if_neg (by simp), if_pos (hroom_iff.2 hroom)]
    refine ⟨rfl, h.touch key value (fun _ => true) hsound rfl ?_ ?_⟩
    · rw [List.filter_true]
    · rw [List.filter_true]
      exact List.perm_append_singleton _ _
  -- both are full, and what the cache has at its end is the oldest slot
  · rw [heq] at hsound ⊢
    obtain ⟨oldest, holdest, rfl, -⟩ := h.last_eq hentries
    have hnot : ¬cache.length < cache.capacity := hfull ▸ Nat.lt_irrefl _
    rw [hnone, if_neg (by simp), if_neg (mt hroom_iff.1 hnot), holdest]
    refine ⟨rfl, h.touch key value (fun entry => entry.1 ≠ oldest.key) hsound rfl ?_ ?_⟩
    · have hnodup := h.sound.nodup
      rw [hentries, List.map_append] at hnodup
      have hfront : ∀ entry ∈ front, entry.1 ≠ oldest.key := fun entry hentry =>
        (List.nodup_append.1 hnodup).2.2 entry.1 (List.mem_map_of_mem hentry) oldest.key
          List.mem_cons_self
      rw [hentries, List.filter_append,
        List.filter_eq_self.2 fun entry hentry => decide_eq_true (hfront entry hentry)]
      simp [Slot.entry]
    · exact List.perm_append_singleton _ _

/-- Both give the same answer to an operation, and hold the same after it. -/
theorem perform (h : cache.Mirrors store) (operation : CacheOperation κ ν) :
    (cache.perform operation).1 = (store.perform operation).1 ∧
      (cache.perform operation).2.Mirrors (store.perform operation).2 := by
  have hsound := h.sound.perform operation
  cases operation with
  | get key =>
    refine ⟨?_, h.get key⟩
    rw [LruCache.perform, StampedStore.perform, StampedStore.serve, h.value?_eq, fst_get]
  | peek key =>
    exact ⟨congrArg CacheAnswer.found (h.value?_eq key).symm, h.tick hsound rfl rfl⟩
  | contains key =>
    exact ⟨congrArg (CacheAnswer.present ∘ Option.isSome) (h.value?_eq key).symm,
      h.tick hsound rfl rfl⟩
  | insert key value => exact ⟨(h.insert key value).1.symm, (h.insert key value).2⟩
  | remove key =>
    exact ⟨congrArg CacheAnswer.found (h.value?_eq key).symm,
      h.kept (fun entry => entry.1 ≠ key) hsound rfl rfl rfl⟩
  | clear =>
    refine ⟨rfl, h.kept (fun _ => false) hsound rfl ?_ ?_⟩
    · exact (List.filter_false _).symm
    · exact (List.filter_false _).symm
  | retain keep =>
    refine ⟨congrArg CacheAnswer.dropped ?_,
      h.kept (fun entry => keep entry.1 entry.2) hsound rfl rfl rfl⟩
    have hcount := List.length_eq_countP_add_countP (fun entry : κ × ν => keep entry.1 entry.2)
      (l := cache.entries)
    rw [LruCache.retain, length, ← List.countP_eq_length_filter, hcount, Nat.add_sub_cancel_left,
      h.perm.countP_eq, List.countP_map]
    refine List.countP_congr fun slot _ => ?_
    simp [Slot.entry]

end LruCache.Mirrors

namespace LruCache

variable {cache : LruCache κ ν} {store : StampedStore κ ν} {key : κ} {value : ν}

/-- A key that comes to the front of the entries is the last one. -/
theorem keys_touch {next : LruCache κ ν} {others : List (κ × ν)}
    (h : next.entries = (key, value) :: others) :
    next.keys = (others.map Prod.fst).reverse ++ [key] := by
  rw [keys, h, List.map_cons, List.reverse_cons]

variable [DecidableEq κ]

theorem keys_dropKey : ((dropKey key cache.entries).map Prod.fst).reverse =
    cache.keys.filter (· ≠ key) := by
  rw [keys, List.filter_reverse, List.filter_map]
  rfl

/-! ### What the stamps say about a cache -/

/-- The keys of a cache, the least recent first, are those of the store in increasing order of
their stamps, and this is what every operation does to them. -/
structure FollowsStamps (cache : LruCache κ ν) (store : StampedStore κ ν) : Prop where
  increasing : store.inOrder.Pairwise fun slot later => slot.stamp < later.stamp
  entries : cache.entries.reverse = store.inOrder.map Slot.entry
  keys : cache.keys = store.inOrder.map Slot.key
  nodup : cache.keys.Nodup
  mem_keys : ∀ key, key ∈ cache.keys ↔ cache.contains key = true
  /-- A look touches nothing. -/
  looks : ∀ key, (cache.perform (.peek key)).2 = cache ∧ (cache.perform (.contains key)).2 = cache
  get : ∀ key, (cache.get key).1 = cache.peek key
  misses : ∀ key, cache.contains key = false → (cache.get key).2.entries = cache.entries
  hits : ∀ key, cache.contains key = true →
    (cache.get key).2.keys = cache.keys.filter (· ≠ key) ++ [key]
  /-- A key that is there takes a new value and evicts nothing. -/
  replaces : ∀ key value, cache.contains key = true →
    (cache.insert key value).1 = none ∧
      (cache.insert key value).2.keys = cache.keys.filter (· ≠ key) ++ [key]
  /-- A new key evicts nothing where there is room. -/
  joins : ∀ key value, cache.contains key = false → cache.length < cache.capacity →
    (cache.insert key value).1 = none ∧ (cache.insert key value).2.keys = cache.keys ++ [key]
  /-- A new key evicts the key with the smallest stamp where there is no room. -/
  evicts : ∀ key value, cache.contains key = false → cache.length = cache.capacity →
    ∃ oldest others, store.inOrder = oldest :: others ∧
      (cache.insert key value).1 = some oldest.entry ∧
        (cache.insert key value).2.keys = others.map Slot.key ++ [key]

/-- The keys of a cache are those that it contains. -/
theorem mem_keys_iff : key ∈ cache.keys ↔ cache.contains key = true := by
  have hnone : cache.peek key = none ↔ key ∉ cache.keys := by
    rw [peek, find?_eq_none_iff, keys, List.mem_reverse, List.mem_map]
    constructor
    · rintro h ⟨entry, hentry, hkey⟩
      exact h entry hentry hkey
    · exact fun h entry hentry hkey => h ⟨entry, hentry, hkey⟩
  rw [← not_iff_not, ← hnone, Bool.not_eq_true, contains_eq_false_iff]

/-- Reading an entry takes its key to the end. -/
theorem keys_get (h : cache.contains key = true) :
    (cache.get key).2.keys = cache.keys.filter (· ≠ key) ++ [key] := by
  obtain ⟨value, hpeek⟩ := contains_eq_true_iff.1 h
  rw [get_of_peek_eq_some hpeek, keys_touch rfl, keys_dropKey]

/-- The oldest slot makes room for a new key. -/
theorem Mirrors.keys_insert_of_full (h : cache.Mirrors store) (habsent : cache.contains key = false)
    (hfull : cache.length = cache.capacity) :
    ∃ oldest others, store.inOrder = oldest :: others ∧
      (cache.insert key value).1 = some oldest.entry ∧
        (cache.insert key value).2.keys = others.map Slot.key ++ [key] := by
  obtain ⟨front, last, hlast, heq⟩ :=
    h.sound.insert_of_full (contains_eq_false_iff.1 habsent) hfull
  obtain ⟨oldest, -, rfl, others, horder, hothers⟩ := h.last_eq hlast
  refine ⟨oldest, others, horder, by rw [heq], ?_⟩
  rw [heq, keys_touch rfl, ← List.map_reverse, ← hothers, Slot.map_fst_entry]

/-- What mirrors a store follows its stamps. -/
theorem Mirrors.followsStamps (h : cache.Mirrors store) : cache.FollowsStamps store := by
  obtain ⟨recent, hperm, hordered, hrecent⟩ := h.recency
  have hreverse := List.pairwise_reverse.2 hordered
  have horder := StampedStore.inOrder_eq ((List.reverse_perm _).trans hperm) hreverse
  have hentries : cache.entries.reverse = store.inOrder.map Slot.entry := by
    rw [horder, hrecent, List.map_reverse]
  refine
    { increasing := horder ▸ hreverse
      entries := hentries
      keys := ?_
      nodup := List.nodup_reverse.2 h.sound.nodup
      mem_keys := fun key => mem_keys_iff
      looks := fun key => ⟨rfl, rfl⟩
      get := fun key => fst_get
      misses := fun key habsent => ?_
      hits := fun key => keys_get
      replaces := fun key value hpresent => ?_
      joins := fun key value habsent hroom => ?_
      evicts := fun key value => h.keys_insert_of_full }
  · rw [keys, ← List.map_reverse, hentries, Slot.map_fst_entry]
  · rw [get_of_peek_eq_none (contains_eq_false_iff.1 habsent), recordMiss]
  · obtain ⟨old, hpeek⟩ := contains_eq_true_iff.1 hpresent
    rw [insert_of_peek_eq_some hpeek]
    exact ⟨rfl, (keys_touch rfl).trans (congrArg (· ++ [key]) keys_dropKey)⟩
  · rw [insert_of_room (contains_eq_false_iff.1 habsent) hroom]
    exact ⟨rfl, keys_touch rfl⟩

/-! ### What was inserted last -/

/-- The value that was inserted last under a key. -/
def lastInserted (key : κ) (operations : List (CacheOperation κ ν)) : Option ν :=
  (operations.filterMap (CacheOperation.inserted? key)).getLast?

theorem lastInserted_concat (key : κ) (operations : List (CacheOperation κ ν))
    (operation : CacheOperation κ ν) :
    lastInserted key (operations ++ [operation]) =
      (operation.inserted? key).or (lastInserted key operations) := by
  rw [lastInserted, List.filterMap_append, List.getLast?_append]
  cases hinserted : operation.inserted? key with
  | none => simp [hinserted, lastInserted]
  | some value => simp [hinserted]

/-- What is found after an operation was inserted by it, or was there before. -/
theorem Sound.peek_perform (h : cache.Sound) {operation : CacheOperation κ ν}
    (hpeek : (cache.perform operation).2.peek key = some value) :
    (operation.inserted? key).or (cache.peek key) = some value := by
  cases operation with
  | get other => exact peek_get.symm.trans hpeek
  | peek | contains => exact hpeek
  | insert other new =>
    rw [CacheOperation.inserted?]
    by_cases hkey : other = key
    · subst hkey
      rw [if_pos rfl]
      exact peek_insert_self.symm.trans hpeek
    · rw [if_neg hkey, Option.none_or]
      rw [LruCache.perform, h.peek_insert_of_ne (Ne.symm hkey)] at hpeek
      split at hpeek
      · cases hpeek
      · exact hpeek
  | remove other =>
    rw [LruCache.perform, peek_remove] at hpeek
    split at hpeek
    · cases hpeek
    · exact hpeek
  | clear => cases hpeek
  | retain keep =>
    rw [LruCache.perform, h.peek_retain] at hpeek
    exact (Option.filter_eq_some_iff.1 hpeek).1

/-! ### Runs of a cache -/

section Runs

variable (capacity : Nat) (operations : List (CacheOperation κ ν))

/-- A cache and a stamped store give the same answers in every run, and mirror each other. -/
theorem run_mirrors :
    (run perform (empty capacity) operations).1 =
        (run StampedStore.perform (.empty capacity) operations).1 ∧
      (run perform (empty capacity) operations).2.Mirrors
        (run StampedStore.perform (.empty capacity) operations).2 := by
  obtain ⟨hanswers, hmirrors⟩ := run_related Mirrors Eq
    (fun _ _ operation h => h.perform operation) (Mirrors.of_empty capacity) operations
  exact ⟨List.forall₂_eq_eq_eq ▸ hanswers, hmirrors⟩

/-- What is found under a key is what was inserted last under it. -/
theorem peek_run (h : (run perform (empty capacity) operations).2.peek key = some value) :
    lastInserted key operations = some value := by
  induction operations using List.reverseRecOn generalizing value with
  | nil => cases h
  | append_singleton operations operation ih =>
    rw [run_concat] at h
    have hfound := (sound_run capacity operations).peek_perform h
    rw [lastInserted_concat]
    cases hinserted : operation.inserted? key with
    | none =>
      rw [hinserted, Option.none_or] at hfound
      rw [Option.none_or, ih hfound]
    | some inserted =>
      rw [hinserted, Option.some_or] at hfound
      rw [Option.some_or, hfound]

theorem capacity_run : (run perform (empty capacity) operations).2.capacity = max 1 capacity :=
  run_preserves (motive := fun cache : LruCache κ ν => cache.capacity = max 1 capacity)
    (fun cache operation h => (cache.capacity_perform operation).trans h) rfl operations

/-- Every read is a hit or a miss. -/
theorem hits_misses_run :
    (run perform (empty capacity) operations).2.hits +
        (run perform (empty capacity) operations).2.misses =
      operations.countP CacheOperation.isGet := by
  induction operations using List.reverseRecOn with
  | nil => rfl
  | append_singleton operations operation ih =>
    rw [run_concat, hits_misses_perform, ih, List.countP_append, List.countP_singleton]

/-- The evictions are the answers that name one. -/
theorem evictions_run :
    (run perform (empty capacity) operations).2.evictions =
      (run perform (empty capacity) operations).1.countP CacheAnswer.isEviction := by
  induction operations using List.reverseRecOn with
  | nil => rfl
  | append_singleton operations operation ih =>
    rw [run_concat, (sound_run capacity operations).evictions_perform, ih, List.countP_append,
      List.countP_singleton]

end Runs

/-- **A cache is a stamped store**: whatever is done with it, it gives the answers of the store, and
its keys are those of the store in increasing order of the stamps. It never holds more entries than
its capacity, of which zero counts as one; what it gives is what was inserted last; and it counts
the reads and the evictions. -/
theorem run_follows_stamps (capacity : Nat) (operations : List (CacheOperation κ ν)) :
    let actual := run perform (empty capacity) operations
    let model := run StampedStore.perform (.empty capacity) operations
    actual.1 = model.1 ∧ actual.2.FollowsStamps model.2 ∧
      actual.2.capacity = max 1 capacity ∧ actual.2.length ≤ max 1 capacity ∧
      (∀ key value, actual.2.peek key = some value → lastInserted key operations = some value) ∧
      actual.2.hits + actual.2.misses = operations.countP CacheOperation.isGet ∧
      actual.2.evictions = actual.1.countP CacheAnswer.isEviction := by
  intro actual model
  obtain ⟨hanswers, hmirrors⟩ := run_mirrors capacity operations
  have hcapacity := capacity_run capacity operations
  exact ⟨hanswers, hmirrors.followsStamps, hcapacity, hcapacity ▸ hmirrors.sound.length_le,
    fun key value => peek_run capacity operations, hits_misses_run capacity operations,
    evictions_run capacity operations⟩

end LruCache

end ChartSchema
