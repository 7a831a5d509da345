import Mathlib.Algebra.GroupWithZero.Nat
import Mathlib.Data.List.Induction
import ChartSchema.Proofs.Cache.Operations

/-!
# What a cache with expiry holds, and where its entries went

Whatever is done with a cache whose entries expire, and whatever the clock says meanwhile, a read
finds a value exactly if the last entry written under the key was neither removed nor is expired
now. Every new entry is accounted for once: it is still there, or it was evicted, or it expired, or
somebody removed it. Both are said about the events of a run (`TtlEvent`), in `run_accounted`.

The events are what an observer sees who keeps no cache. An entry is **stored** according to a
history if some event wrote it and all later events spared it (`StoredUnder`); this is defined by
the events alone, so that it says what a cache should hold without saying how. One operation writes
an entry or spares those that it leaves (`peek_perform_eq_some_iff`), and what the cache holds after
a run is what is stored (`peek_run_eq_some_iff`).

The books are kept in the same way: one operation changes the number of entries, of evictions and of
expirations so that each new entry is one more of them or one that was removed (`ledger_perform`),
and each read is one more hit or miss (`reads_perform`). Summed up over a run these are `ledger_run`
and `reads_run`. That the counters agree needs the invariant of the entries, in particular that no
key is there twice, which every operation keeps (`sound_perform`).

The clock is any integer at each operation: it may stand still and go back, and an age is never
negative.
-/

namespace ChartSchema

variable {κ ν : Type}

/-- What can be done with a cache whose entries expire. -/
inductive TtlOperation (κ ν : Type) where
  | insert (key : κ) (value : ν) (ttl : Nat) (now : Int)
  | get (key : κ) (now : Int)
  | invalidate (key : κ)
  | clear
  | purge (now : Int)

/-- Whether an operation reads. -/
def TtlOperation.isRead : TtlOperation κ ν → Bool
  | .get _ _ => true
  | _ => false

/-- What happens to a cache when something is done with it. -/
inductive TtlEvent (κ ν : Type) where
  /-- An entry was written, under a new key or not, and perhaps the entry under another key made
  room for it. -/
  | inserted (key : κ) (entry : TimedEntry ν) (isNew : Bool) (evicted : Option κ)
  | read (key : κ) (now : Int)
  | invalidated (key : κ) (removed : Bool)
  | cleared (count : Nat)
  | purged (now : Int)

namespace TtlEvent

/-- The event writes this entry under the key. -/
def Writes (key : κ) (entry : TimedEntry ν) : TtlEvent κ ν → Prop
  | .inserted other written _ _ => other = key ∧ written = entry
  | _ => False

/-- The event leaves an entry under the key where it is: it neither replaces nor evicts nor removes
it, and it does not find it expired. -/
def Spares (key : κ) (entry : TimedEntry ν) : TtlEvent κ ν → Prop
  | .inserted other _ _ evicted => other ≠ key ∧ evicted ≠ some key
  | .read other now => other = key → entry.isExpired now = false
  | .invalidated other _ => other ≠ key
  | .cleared _ => False
  | .purged now => entry.isExpired now = false

/-- An entry was written under a key that was absent. -/
def isNew : TtlEvent κ ν → Bool
  | .inserted _ _ isNew _ => isNew
  | _ => false

/-- How many entries were removed on request, expired or not. -/
def removed : TtlEvent κ ν → Nat
  | .invalidated _ removed => removed.toNat
  | .cleared count => count
  | _ => 0

end TtlEvent

/-- An entry is **stored** if it was written under the key and spared by everything that happened
since. -/
def StoredUnder (key : κ) (entry : TimedEntry ν) (history : List (TtlEvent κ ν)) : Prop :=
  ∃ earlier event later, history = earlier ++ event :: later ∧ event.Writes key entry ∧
    ∀ event ∈ later, event.Spares key entry

theorem not_storedUnder_nil (key : κ) (entry : TimedEntry ν) : ¬ StoredUnder key entry [] := by
  rintro ⟨earlier, event, later, hsplit, -⟩
  simp at hsplit

/-- The last event wrote the entry, or it spared it. -/
theorem storedUnder_concat {key : κ} {entry : TimedEntry ν} {history : List (TtlEvent κ ν)}
    {last : TtlEvent κ ν} : StoredUnder key entry (history ++ [last]) ↔
      last.Writes key entry ∨ last.Spares key entry ∧ StoredUnder key entry history := by
  constructor
  · rintro ⟨earlier, event, later, hsplit, hwrites, hspares⟩
    rcases List.eq_nil_or_concat' later with rfl | ⟨later, final, rfl⟩
    · obtain ⟨-, hlast⟩ := List.append_inj' hsplit rfl
      obtain rfl := List.singleton_inj.1 hlast
      exact .inl hwrites
    · rw [← List.cons_append, ← List.append_assoc] at hsplit
      obtain ⟨rfl, hlast⟩ := List.append_inj' hsplit rfl
      obtain rfl := List.singleton_inj.1 hlast
      refine .inr ⟨hspares last (by simp), earlier, event, later, rfl, hwrites, ?_⟩
      exact fun event hmem => hspares event (List.mem_append_left _ hmem)
  · rintro (hwrites | ⟨hlast, earlier, event, later, rfl, hwrites, hspares⟩)
    · exact ⟨history, last, [], rfl, hwrites, nofun⟩
    · refine ⟨earlier, event, later ++ [last], by simp, hwrites, fun event hmem => ?_⟩
      rcases List.mem_append.1 hmem with hmem | hmem
      · exact hspares event hmem
      · rw [List.mem_singleton.1 hmem]
        exact hlast

theorem TimedEntry.isExpired_eq_true_iff {entry : TimedEntry ν} {now : Int} :
    entry.isExpired now = true ↔ (entry.ttl : Int) < max 0 (now - entry.insertedAt) := by
  rw [isExpired, decide_eq_true_iff, age]
  omega

/-- An age is not negative, so that an entry from the future has none. -/
theorem TimedEntry.age_le_iff {entry : TimedEntry ν} {now : Int} :
    entry.age now ≤ entry.ttl ↔ max 0 (now - entry.insertedAt) ≤ entry.ttl := by
  rw [age]
  omega

variable [DecidableEq κ]

/-! ### The number of entries -/

namespace LruCache

/-- Dropping a key takes one entry if the key is there. -/
theorem length_dropKey {entries : List (κ × ν)} (hnodup : (entries.map Prod.fst).Nodup) (key : κ) :
    (dropKey key entries).length + (find? key entries).isSome.toNat = entries.length := by
  induction entries with
  | nil => rfl
  | cons entry entries ih =>
    obtain ⟨name, value⟩ := entry
    obtain ⟨hname, hnodup⟩ := List.nodup_cons.1 hnodup
    rw [find?_cons]
    by_cases hkey : name = key
    · subst hkey
      have hnone : find? name entries = none :=
        find?_eq_none_iff.2 fun entry hmem hsame => hname (List.mem_map.2 ⟨entry, hmem, hsame⟩)
      have hdrop : dropKey name ((name, value) :: entries) = entries := by
        rw [← dropKey_of_find? hnone]
        simp [dropKey]
      rw [hdrop, if_pos rfl]
      rfl
    · have hdrop : dropKey key ((name, value) :: entries) = (name, value) :: dropKey key entries :=
        List.filter_cons_of_pos (by simpa using hkey)
      rw [hdrop, if_neg hkey, List.length_cons, List.length_cons, ← ih hnodup]
      omega

variable {cache : LruCache κ ν} {key : κ}

theorem Sound.length_remove (h : cache.Sound) (key : κ) :
    (cache.remove key).2.length + (cache.contains key).toNat = cache.length :=
  length_dropKey h.nodup key

theorem Sound.length_get (h : cache.Sound) (key : κ) :
    (cache.get key).2.length = cache.length := by
  cases hpeek : cache.peek key with
  | none =>
    rw [get_of_peek_eq_none hpeek]
    rfl
  | some value =>
    have hdrop := length_dropKey h.nodup key
    rw [← peek, hpeek] at hdrop
    rw [get_of_peek_eq_some hpeek]
    exact hdrop

/-- An insertion adds an entry for a new key, and each entry that it loses is an eviction. -/
theorem Sound.length_insert (h : cache.Sound) (key : κ) (value : ν) :
    (cache.insert key value).2.length + (cache.insert key value).2.evictions =
      cache.length + cache.evictions + (!cache.contains key).toNat := by
  rcases h.insert_cases key value with ⟨old, hold, heq⟩ | ⟨hnone, -, heq⟩ |
    ⟨hnone, -, front, last, hentries, heq⟩
  · have hdrop := length_dropKey h.nodup key
    rw [← peek, hold] at hdrop
    rw [heq, contains, hold]
    exact congrArg (· + cache.evictions) hdrop
  · rw [heq, contains, hnone]
    simp only [length, List.length_cons, Option.isSome_none, Bool.not_false, Bool.toNat_true]
    omega
  · rw [heq, contains, hnone]
    simp only [length, hentries, List.length_cons, List.length_append, List.length_nil,
      Option.isSome_none, Bool.not_false, Bool.toNat_true]
    omega

omit [DecidableEq κ] in
theorem length_retain (cache : LruCache κ ν) (keep : κ → ν → Bool) :
    (cache.retain keep).2.length + (cache.retain keep).1 = cache.length :=
  Nat.add_sub_of_le (List.length_filter_le _ _)

end LruCache

namespace TtlCache

/-! ### One operation -/

/-- Carries out one operation and says what happened. -/
def perform (cache : TtlCache κ ν) : TtlOperation κ ν → TtlEvent κ ν × TtlCache κ ν
  | .insert key value ttl now =>
    (.inserted key ⟨value, now, ttl⟩ (!cache.entries.contains key)
        ((cache.entries.insert key ⟨value, now, ttl⟩).1.map Prod.fst),
      cache.insert key value ttl now)
  | .get key now => (.read key now, (cache.get key now).2)
  | .invalidate key => (.invalidated key (cache.invalidate key).1, (cache.invalidate key).2)
  | .clear => (.cleared cache.length, cache.clear)
  | .purge now => (.purged now, (cache.purge now).2)

variable {cache : TtlCache κ ν} {key other : κ} {now : Int}

/-- A read that finds an expired entry removes it. -/
theorem get_of_expired {entry : TimedEntry ν} (hentry : cache.entries.peek key = some entry)
    (hexpired : entry.isExpired now = true) :
    cache.get key now =
      (none, { cache with
        entries := (cache.entries.remove key).2.recordMiss
        expirations := cache.expirations + 1 }) := by
  rw [get, hentry, Option.any_some, if_pos hexpired]

/-- Otherwise it is a read of the entries. -/
theorem get_of_not_expired
    (h : ∀ entry, cache.entries.peek key = some entry → entry.isExpired now = false) :
    cache.get key now =
      ((cache.entries.peek key).map TimedEntry.value,
        { cache with entries := (cache.entries.get key).2 }) := by
  rw [get, if_neg, ← LruCache.fst_get]
  cases hpeek : cache.entries.peek key with
  | none => simp
  | some entry => simp [h entry hpeek]

/-- Under a key there is an expired entry, or none that is expired. -/
theorem expired_or_not (cache : TtlCache κ ν) (key : κ) (now : Int) :
    (∃ entry, cache.entries.peek key = some entry ∧ entry.isExpired now = true) ∨
      ∀ entry, cache.entries.peek key = some entry → entry.isExpired now = false := by
  by_cases h : ∃ entry, cache.entries.peek key = some entry ∧ entry.isExpired now = true
  · exact .inl h
  · refine .inr fun entry hentry => Bool.eq_false_iff.2 fun hexpired => ?_
    exact h ⟨entry, hentry, hexpired⟩

/-- A read leaves what it does not find expired. -/
theorem peek_get_eq_some_iff {entry : TimedEntry ν} :
    (cache.get key now).2.entries.peek other = some entry ↔
      (key = other → entry.isExpired now = false) ∧ cache.entries.peek other = some entry := by
  rcases cache.expired_or_not key now with ⟨held, hheld, hexpired⟩ | hlive
  · rw [get_of_expired hheld hexpired]
    change (cache.entries.remove key).2.peek other = some entry ↔ _
    rw [LruCache.peek_remove]
    by_cases hother : other = key
    -- the key that is read: only the expired entry was held under it
    · subst hother
      rw [if_pos rfl, hheld]
      refine ⟨nofun, ?_⟩
      rintro ⟨hfresh, hsame⟩
      rw [← Option.some.inj hsame, hexpired] at hfresh
      exact absurd (hfresh rfl) Bool.noConfusion
    · simp [hother, Ne.symm hother]
  · rw [get_of_not_expired hlive]
    change (cache.entries.get key).2.peek other = some entry ↔ _
    rw [LruCache.peek_get]
    refine ⟨fun hentry => ⟨?_, hentry⟩, And.right⟩
    rintro rfl
    exact hlive entry hentry

theorem sound_perform (h : cache.entries.Sound) (operation : TtlOperation κ ν) :
    (cache.perform operation).2.entries.Sound := by
  cases operation with
  | insert key value ttl now => exact h.insert key _
  | get key now =>
    rcases cache.expired_or_not key now with ⟨entry, hentry, hexpired⟩ | hlive
    · rw [perform, get_of_expired hentry hexpired]
      exact (h.remove key).of_sublist rfl (List.Sublist.refl _)
    · rw [perform, get_of_not_expired hlive]
      exact h.get key
  | invalidate key => exact h.remove key
  | clear => exact h.clear
  | purge now => exact h.retain fun _ entry => !entry.isExpired now

/-- What is held under a key was written just now, or it was held before and spared. -/
theorem peek_perform_eq_some_iff (h : cache.entries.Sound) (operation : TtlOperation κ ν)
    {entry : TimedEntry ν} : (cache.perform operation).2.entries.peek key = some entry ↔
      (cache.perform operation).1.Writes key entry ∨
        (cache.perform operation).1.Spares key entry ∧ cache.entries.peek key = some entry := by
  cases operation with
  | insert other value ttl now =>
    change (cache.entries.insert other ⟨value, now, ttl⟩).2.peek key = some entry ↔ _
    simp only [perform, TtlEvent.Writes, TtlEvent.Spares]
    by_cases hkey : other = key
    · subst hkey
      simp [LruCache.peek_insert_self]
    · simp [h.peek_insert_of_ne (Ne.symm hkey), hkey]
  | get other now => simp [perform, TtlEvent.Writes, TtlEvent.Spares, peek_get_eq_some_iff]
  | invalidate other =>
    change (cache.entries.remove other).2.peek key = some entry ↔ _
    simp only [perform, TtlEvent.Writes, TtlEvent.Spares, LruCache.peek_remove]
    by_cases hkey : other = key
    · simp [hkey]
    · simp [hkey, Ne.symm hkey]
  | clear =>
    change LruCache.find? key [] = some entry ↔ _
    simp [perform, TtlEvent.Writes, TtlEvent.Spares, LruCache.find?]
  | purge now =>
    change (cache.entries.retain fun _ entry => !entry.isExpired now).2.peek key = some entry ↔ _
    simp [perform, TtlEvent.Writes, TtlEvent.Spares, h.peek_retain, Option.filter_eq_some_iff,
      and_comm]

/-- One operation keeps the books: each new entry is one more in the cache, or one more that was
evicted, expired or removed. -/
theorem ledger_perform (h : cache.entries.Sound) (operation : TtlOperation κ ν) :
    (cache.perform operation).2.length + (cache.perform operation).2.entries.evictions +
        (cache.perform operation).2.expirations + (cache.perform operation).1.removed =
      cache.length + cache.entries.evictions + cache.expirations +
        (cache.perform operation).1.isNew.toNat := by
  cases operation with
  | insert key value ttl now =>
    have hinsert := h.length_insert key ⟨value, now, ttl⟩
    simp only [perform, TtlCache.insert, length, TtlEvent.removed, TtlEvent.isNew]
    omega
  | get key now =>
    simp only [perform, TtlEvent.removed, TtlEvent.isNew]
    rcases cache.expired_or_not key now with ⟨entry, hentry, hexpired⟩ | hlive
    -- the expired entry is one less in the cache and one more that has expired
    · have hremove := h.length_remove key
      rw [LruCache.contains, hentry] at hremove
      rw [get_of_expired hentry hexpired]
      change (cache.entries.remove key).2.length + cache.entries.evictions +
        (cache.expirations + 1) + 0 = cache.entries.length + _ + _ + 0
      simp only [Option.isSome_some, Bool.toNat_true] at hremove
      omega
    · rw [get_of_not_expired hlive]
      change (cache.entries.get key).2.length + (cache.entries.get key).2.evictions + _ + 0 =
        cache.entries.length + _ + _ + 0
      have hevictions : (cache.entries.get key).2.evictions = cache.entries.evictions :=
        h.evictions_perform (.get key)
      rw [h.length_get key, hevictions]
  | invalidate key =>
    have hremove := h.length_remove key
    change (cache.entries.remove key).2.length + cache.entries.evictions + cache.expirations +
      (cache.entries.contains key).toNat = cache.entries.length + _ + _ + 0
    omega
  | clear =>
    change 0 + cache.entries.evictions + cache.expirations + cache.length = _ + 0
    omega
  | purge now =>
    have hretain := cache.entries.length_retain fun _ entry => !entry.isExpired now
    simp only [perform, purge, length, TtlEvent.removed, TtlEvent.isNew]
    change (cache.entries.retain fun _ entry => !entry.isExpired now).2.length +
      cache.entries.evictions + _ + 0 = _ + _ + _ + 0
    omega

/-- A read that finds an expired entry counts a miss and an expiration, and no hit. -/
theorem stats_get_of_expired (h : cache.entries.Sound) {entry : TimedEntry ν}
    (hentry : cache.entries.peek key = some entry) (hexpired : entry.isExpired now = true) :
    (cache.get key now).2.stats = { cache.stats with
      misses := cache.stats.misses + 1
      expirations := cache.stats.expirations + 1
      entryCount := cache.stats.entryCount - 1 } := by
  have hcount : (cache.entries.remove key).2.length = cache.entries.length - 1 := by
    rw [← h.length_remove key, LruCache.contains, hentry]
    rfl
  rw [get_of_expired hentry hexpired]
  exact congrArg (CacheStats.mk cache.entries.hits (cache.entries.misses + 1)
    cache.entries.evictions (cache.expirations + 1)) hcount

/-- A read is a hit or a miss, and nothing else is counted. -/
theorem reads_perform (cache : TtlCache κ ν) (operation : TtlOperation κ ν) :
    (cache.perform operation).2.entries.hits + (cache.perform operation).2.entries.misses =
      cache.entries.hits + cache.entries.misses + if operation.isRead then 1 else 0 := by
  cases operation with
  | insert key value ttl now =>
    exact cache.entries.hits_misses_perform (.insert key ⟨value, now, ttl⟩)
  | get key now =>
    rcases cache.expired_or_not key now with ⟨entry, hentry, hexpired⟩ | hlive
    · rw [perform, get_of_expired hentry hexpired]
      rfl
    · rw [perform, get_of_not_expired hlive]
      exact cache.entries.hits_misses_perform (.get key)
  | invalidate | clear | purge => rfl

/-! ### Runs -/

section Runs

variable (capacity defaultTtl : Nat) (operations : List (TtlOperation κ ν))

theorem sound_run : (run perform (empty capacity defaultTtl) operations).2.entries.Sound :=
  run_preserves (motive := fun cache : TtlCache κ ν => cache.entries.Sound)
    (fun _ operation h => sound_perform h operation) (LruCache.sound_empty capacity) operations

/-- What a cache holds is what is stored according to its history. -/
theorem peek_run_eq_some_iff (key : κ) (entry : TimedEntry ν) :
    (run perform (empty capacity defaultTtl) operations).2.entries.peek key = some entry ↔
      StoredUnder key entry (run perform (empty capacity defaultTtl) operations).1 := by
  induction operations using List.reverseRecOn with
  | nil => exact ⟨nofun, fun h => absurd h (not_storedUnder_nil key entry)⟩
  | append_singleton operations operation ih =>
    rw [run_concat, storedUnder_concat, ← ih]
    exact peek_perform_eq_some_iff (sound_run capacity defaultTtl operations) operation

theorem ledger_run :
    (run perform (empty capacity defaultTtl) operations).1.countP TtlEvent.isNew =
      (run perform (empty capacity defaultTtl) operations).2.length +
        (run perform (empty capacity defaultTtl) operations).2.entries.evictions +
        (run perform (empty capacity defaultTtl) operations).2.expirations +
        ((run perform (empty capacity defaultTtl) operations).1.map TtlEvent.removed).sum := by
  induction operations using List.reverseRecOn with
  | nil => rfl
  | append_singleton operations operation ih =>
    have hstep := ledger_perform (sound_run capacity defaultTtl operations) operation
    have hnew (isNew : Bool) : isNew.toNat = if isNew then 1 else 0 := by
      cases isNew
      · rfl
      · rfl
    rw [hnew] at hstep
    simp only [run_concat, List.countP_append, List.countP_singleton, List.map_append,
      List.map_singleton, List.sum_append, List.sum_singleton]
    omega

theorem reads_run :
    (run perform (empty capacity defaultTtl) operations).2.entries.hits +
        (run perform (empty capacity defaultTtl) operations).2.entries.misses =
      operations.countP TtlOperation.isRead := by
  induction operations using List.reverseRecOn with
  | nil => rfl
  | append_singleton operations operation ih =>
    rw [run_concat, reads_perform, ih, List.countP_append, List.countP_singleton]

end Runs

/-- **Every entry is accounted for.** Whatever was done with a cache, at whatever times, a read
finds a value exactly if an entry with this value is stored and is not older than its time to live.
A read that finds an expired entry removes it and counts a miss and an expiration. Every entry that
was written under an absent key is held or was evicted, expired or removed, and every read is a hit
or a miss. -/
theorem run_accounted (capacity defaultTtl : Nat) (operations : List (TtlOperation κ ν)) :
    let history := (run perform (empty capacity defaultTtl) operations).1
    let cache := (run perform (empty capacity defaultTtl) operations).2
    (∀ key now value, (cache.get key now).1 = some value ↔ ∃ entry,
      StoredUnder key entry history ∧ max 0 (now - entry.insertedAt) ≤ entry.ttl ∧
        entry.value = value) ∧
    (∀ key now entry, StoredUnder key entry history →
      ↑entry.ttl < max 0 (now - entry.insertedAt) → (cache.get key now).1 = none ∧
      (∀ other, (cache.get key now).2.entries.peek other =
        if other = key then none else cache.entries.peek other) ∧
      (cache.get key now).2.stats = { cache.stats with
        misses := cache.stats.misses + 1
        expirations := cache.stats.expirations + 1
        entryCount := cache.stats.entryCount - 1 }) ∧
    (∀ key value ttl now, (cache.perform (.insert key value ttl now)).1.isNew = true ↔
      ∀ entry, ¬ StoredUnder key entry history) ∧
    history.countP TtlEvent.isNew = cache.stats.entryCount + cache.stats.evictions +
      cache.stats.expirations + (history.map TtlEvent.removed).sum ∧
    cache.stats.hits + cache.stats.misses = operations.countP TtlOperation.isRead := by
  intro history cache
  have hsound : cache.entries.Sound := sound_run capacity defaultTtl operations
  have hstored (key : κ) (entry : TimedEntry ν) :
      StoredUnder key entry history ↔ cache.entries.peek key = some entry :=
    (peek_run_eq_some_iff capacity defaultTtl operations key entry).symm
  refine ⟨fun key now value => ?_, fun key now entry hentry hage => ?_,
    fun key value ttl now => ?_, ledger_run capacity defaultTtl operations,
    reads_run capacity defaultTtl operations⟩
  · simp only [get_eq_some_iff, hstored, TimedEntry.age_le_iff]
  · have hpeek := (hstored key entry).1 hentry
    have hexpired := TimedEntry.isExpired_eq_true_iff.2 hage
    refine ⟨?_, fun other => ?_, stats_get_of_expired hsound hpeek hexpired⟩
    · rw [get_of_expired hpeek hexpired]
    · rw [get_of_expired hpeek hexpired]
      exact LruCache.peek_remove
  · simp only [hstored, ← Option.eq_none_iff_forall_ne_some, perform, TtlEvent.isNew,
      Bool.not_eq_true', LruCache.contains_eq_false_iff]

end TtlCache

end ChartSchema
