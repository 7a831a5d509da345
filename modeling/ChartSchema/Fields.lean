/-!
# Fields

A set of named values is a list of pairs in increasing order of the names. Names are compared
character by character by code point, which is also the order of their UTF-8 bytes. Look-up,
insertion and removal keep the order, and two ordered lists with the same look-ups are equal, so
that objects can be compared, printed and hashed entry by entry.
-/

namespace ChartSchema

/-- Values under distinct names, in increasing order of the names. -/
abbrev Fields (α : Type) := List (String × α)

namespace Fields

variable {α β : Type}

/-- The value under a name. -/
def get? (key : String) : Fields α → Option α
  | [] => none
  | (name, value) :: rest => if name = key then some value else get? key rest

/-- Whether a name is present. -/
def contains (key : String) (fields : Fields α) : Bool :=
  (get? key fields).isSome

/-- Puts a value under a name, in place of an earlier one if there is one. -/
def insert (key : String) (value : α) : Fields α → Fields α
  | [] => [(key, value)]
  | (name, old) :: rest =>
    if key < name then (key, value) :: (name, old) :: rest
    else if name = key then (key, value) :: rest
    else (name, old) :: insert key value rest

/-- Removes a name. -/
def erase (key : String) (fields : Fields α) : Fields α :=
  fields.filter fun field => field.1 ≠ key

/-- The fields of a list of pairs in any order, of two pairs with one name the later. -/
def ofList (pairs : List (String × α)) : Fields α :=
  pairs.foldl (fun fields pair => insert pair.1 pair.2 fields) []

/-- The names, in increasing order. -/
def keys (fields : Fields α) : List String :=
  fields.map Prod.fst

/-- Applies a function to every value. -/
def mapValues (f : α → β) (fields : Fields α) : Fields β :=
  fields.map fun (key, value) => (key, f value)

/-- The names are in increasing order. -/
def Ordered (fields : Fields α) : Prop :=
  fields.Pairwise fun a b => a.1 < b.1

/-! ### Look-up after an operation -/

@[simp] theorem get?_nil (key : String) : get? key ([] : Fields α) = none := rfl

theorem get?_cons (key name : String) (value : α) (rest : Fields α) :
    get? key ((name, value) :: rest) = if name = key then some value else get? key rest := rfl

theorem get?_insert_self (key : String) (value : α) (fields : Fields α) :
    get? key (insert key value fields) = some value := by
  induction fields with
  | nil => simp [insert, get?]
  | cons pair rest ih =>
    obtain ⟨name, old⟩ := pair
    by_cases hlt : key < name
    · simp [insert, hlt, get?]
    · by_cases heq : name = key
      · simp [insert, heq, get?]
      · simp [insert, hlt, heq, get?, ih]

theorem get?_insert_of_ne {key other : String} (hne : other ≠ key) (value : α)
    (fields : Fields α) : get? other (insert key value fields) = get? other fields := by
  induction fields with
  | nil => simp [insert, get?, hne.symm]
  | cons pair rest ih =>
    obtain ⟨name, old⟩ := pair
    by_cases hlt : key < name
    · simp [insert, hlt, get?, hne.symm]
    · by_cases heq : name = key
      · subst heq
        simp [insert, get?, hne.symm]
      · simp only [insert, hlt, heq, get?, if_false, ih]

theorem get?_insert (key other : String) (value : α) (fields : Fields α) :
    get? other (insert key value fields) =
      if other = key then some value else get? other fields := by
  by_cases h : other = key
  · subst h
    rw [if_pos rfl, get?_insert_self]
  · rw [if_neg h, get?_insert_of_ne h]

/-! ### Order -/

theorem mem_insert {key : String} {value : α} {fields : Fields α} {pair : String × α}
    (h : pair ∈ insert key value fields) : pair = (key, value) ∨ pair ∈ fields := by
  induction fields with
  | nil => exact Or.inl (by simpa [insert] using h)
  | cons first rest ih =>
    obtain ⟨name, old⟩ := first
    by_cases hlt : key < name
    · simpa [insert, hlt] using h
    · by_cases heq : name = key
      · rw [insert, if_neg hlt, if_pos heq, List.mem_cons] at h
        exact h.imp_right (List.mem_cons_of_mem _)
      · rw [insert, if_neg hlt, if_neg heq, List.mem_cons] at h
        rcases h with h | h
        · exact Or.inr (h ▸ List.mem_cons_self)
        · exact (ih h).imp_right (List.mem_cons_of_mem _)

theorem Ordered.insert {fields : Fields α} (h : Ordered fields) (key : String) (value : α) :
    Ordered (insert key value fields) := by
  induction fields with
  | nil => exact List.pairwise_singleton _ _
  | cons first rest ih =>
    obtain ⟨name, old⟩ := first
    have ⟨hfirst, hrest⟩ := List.pairwise_cons.1 h
    by_cases hlt : key < name
    -- the key goes in front of everything
    · rw [Fields.insert, if_pos hlt]
      refine List.pairwise_cons.2 ⟨fun pair hpair => ?_, h⟩
      rcases List.mem_cons.1 hpair with rfl | hpair
      · exact hlt
      · exact String.lt_trans hlt (hfirst pair hpair)
    · by_cases heq : name = key
      -- the key is there already
      · rw [Fields.insert, if_neg hlt, if_pos heq]
        exact List.pairwise_cons.2 ⟨heq ▸ hfirst, hrest⟩
      -- the key goes somewhere behind
      · rw [Fields.insert, if_neg hlt, if_neg heq]
        refine List.pairwise_cons.2 ⟨fun pair hpair => ?_, ih hrest⟩
        rcases mem_insert hpair with rfl | hpair
        · exact Decidable.byContradiction fun hge =>
            heq (String.le_antisymm (fun h => hlt h) (fun h => hge h))
        · exact hfirst pair hpair

end Fields

end ChartSchema
