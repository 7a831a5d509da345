import Mathlib.Data.List.Basic
import ChartSchema.Proofs.DataPath.Syntax

/-!
# Writing at a data path

A write goes down a path step by step, and each step changes one part of a container (`changeStep`):
it makes the container if there is none of its kind, and pads it if it is too short. The laws of a
write are those of a single step, carried down the path by induction: what was changed is found
(`step?_changeStep`), a second change at the same place is a change of the first
(`changeStep_changeStep`), and changes at places that part commute (`changeStep_comm`).

What a path says about another is told by the first step at which they differ. If both have a key
there, or both an index, the paths **part**: a write at one leaves what is found at the other
(`get?_set_of_partsFrom`), and writes at both can be made in either order (`set_comm`). Where they
do not part, one is below the other, or a write at one may replace the container of the other.

Writing in place is done by another function, which refuses a path without a step and an index above
the largest. It changes a container while it goes down, so that a write that is refused must not
have begun; but the test comes first and covers all that can go wrong below (`writeInPlace_eq`).
Hence it gives what a write gives, exactly at the paths that pass the test (`setPath?_eq_some_iff`).

The main statement is `putPath_writes`.
-/

namespace ChartSchema

/-! ### Two insertions -/

namespace Fields

variable {α : Type} {key other : String}

theorem insert_insert (key : String) (first second : α) (fields : Fields α) :
    insert key second (insert key first fields) = insert key second fields := by
  induction fields with
  | nil => simp [insert]
  | cons field rest ih =>
    obtain ⟨name, old⟩ := field
    by_cases hlt : key < name
    · simp [insert, hlt]
    · by_cases heq : name = key
      · simp [insert, heq]
      · simp [insert, hlt, heq, ih]

/-- A name below another goes in front of what is inserted under that one. -/
theorem insert_comm_of_lt (h : key < other) (value value' : α) (fields : Fields α) :
    insert key value (insert other value' fields) =
      insert other value' (insert key value fields) := by
  have hnot : ¬ other < key := String.lt_asymm h
  have hne : key ≠ other := String.ne_of_lt h
  induction fields with
  | nil => simp [insert, h, hnot, hne]
  | cons field rest ih =>
    obtain ⟨name, old⟩ := field
    by_cases hlt : key < name
    -- both names come in front of the first
    · by_cases hother : other < name
      · simp [insert, h, hlt, hother, hnot, hne]
      · by_cases hsame : name = other
        · simp [insert, h, hsame, hnot, hne]
        · simp [insert, hlt, hother, hsame, hnot, hne]
    · by_cases heq : name = key
      · simp [insert, heq, hnot, hne]
      -- both names come behind the first
      · have hname : name < key := by
          refine Decidable.byContradiction fun hge => heq ?_
          exact String.le_antisymm (fun h => hlt h) (fun h => hge h)
        have hbelow : name < other := String.lt_trans hname h
        simp [insert, hlt, heq, String.lt_asymm hbelow, String.ne_of_lt hbelow, ih]

theorem insert_comm (h : key ≠ other) (value value' : α) (fields : Fields α) :
    insert key value (insert other value' fields) =
      insert other value' (insert key value fields) := by
  by_cases hlt : key < other
  · exact insert_comm_of_lt hlt value value' fields
  · have hgt : other < key := by
      refine Decidable.byContradiction fun hge => h ?_
      exact String.le_antisymm (fun h => hge h) (fun h => hlt h)
    exact (insert_comm_of_lt hgt value' value fields).symm

end Fields

namespace DataPath

/-! ### Changed items -/

section Items

variable (f g : Json → Json) (items : List Json)

/-- A changed list has the change at its place, `null` up to there where it was too short, and its
items elsewhere. -/
theorem getElem?_changeItem (position other : Nat) :
    (changeItem f position items)[other]? =
      if other = position then some (f (items[position]?.getD .null))
      else if other < position then some (items[other]?.getD .null) else items[other]? := by
  fun_induction changeItem f position items generalizing other with
  | case1 => cases other <;> simp
  | case2 item rest => cases other <;> simp
  | case3 position ih => cases other <;> simp [ih]
  | case4 position item rest ih => cases other <;> simp [ih]

theorem changeItem_changeItem (position : Nat) :
    changeItem f position (changeItem g position items) =
      changeItem (fun item => f (g item)) position items := by
  refine List.ext_getElem? fun other => ?_
  simp only [getElem?_changeItem]
  grind

/-- Changes at different places of a list can be made in either order, although each may pad it. -/
theorem changeItem_comm {position other : Nat} (h : position ≠ other) :
    changeItem f position (changeItem g other items) =
      changeItem g other (changeItem f position items) := by
  refine List.ext_getElem? fun index => ?_
  simp only [getElem?_changeItem]
  grind

end Items

end DataPath

/-! ### Steps that part -/

/-- Two steps of one kind to different places. -/
inductive PathStep.PartsFrom : PathStep → PathStep → Prop
  | key {name other : String} (h : name ≠ other) : PartsFrom (.key name) (.key other)
  | index {position other : Nat} (h : position ≠ other) :
    PartsFrom (.index position) (.index other)

namespace DataPath

/-- The payload with the part changed that is one step into it. -/
def changeStep (f : Json → Json) (payload : Json) : PathStep → Json
  | .key name =>
    let fields := payload.fields?.getD []
    .object (Fields.insert name (f ((Fields.get? name fields).getD .null)) fields)
  | .index position => .array (changeItem f position (payload.items?.getD []))

section Steps

variable (f g : Json → Json) (payload : Json)

/-- A key is looked up in the fields, of which only an object has any. -/
theorem step?_key (name : String) :
    step? payload (.key name) = Fields.get? name (payload.fields?.getD []) := by
  cases payload <;> rfl

/-- An index is looked up in the items, of which only an array has any. -/
theorem step?_index (position : Nat) :
    step? payload (.index position) = (payload.items?.getD [])[position]? := by
  cases payload <;> rfl

/-- **What was changed is found**, one step down. -/
theorem step?_changeStep (step : PathStep) :
    step? (changeStep f payload step) step = some (f ((step? payload step).getD .null)) := by
  cases step with
  | key name =>
    rw [step?_key, step?_key]
    exact Fields.get?_insert_self _ _ _
  | index position =>
    rw [step?_index, step?_index]
    exact (getElem?_changeItem _ _ _ _).trans (if_pos rfl)

/-- A change of a changed part is one change. -/
theorem changeStep_changeStep (step : PathStep) :
    changeStep f (changeStep g payload step) step =
      changeStep (fun part => f (g part)) payload step := by
  cases step with
  | key name =>
    refine congrArg Json.object ?_
    change Fields.insert name (f ((Fields.get? name (Fields.insert name _ _)).getD .null))
      (Fields.insert name _ _) = _
    rw [Fields.get?_insert_self, Fields.insert_insert]
    rfl
  | index position => exact congrArg Json.array (changeItem_changeItem f g _ position)

variable {step other : PathStep}

/-- A change leaves what is found one step down elsewhere. -/
theorem step?_changeStep_of_partsFrom (h : step.PartsFrom other) {found : Json}
    (hfound : step? payload other = some found) :
    step? (changeStep f payload step) other = some found := by
  cases h with
  | key h =>
    rw [step?_key] at hfound ⊢
    exact (Fields.get?_insert_of_ne h.symm _ _).trans hfound
  | index h =>
    rw [step?_index] at hfound ⊢
    refine (getElem?_changeItem _ _ _ _).trans ?_
    rw [if_neg h.symm, hfound, Option.getD_some, ite_self]

/-- Changes one step down at two places can be made in either order. -/
theorem changeStep_comm (h : step.PartsFrom other) :
    changeStep f (changeStep g payload other) step =
      changeStep g (changeStep f payload step) other := by
  cases h with
  | @key name other h =>
    refine congrArg Json.object ?_
    change Fields.insert name (f ((Fields.get? name (Fields.insert other _ _)).getD .null))
      (Fields.insert other _ _) = Fields.insert other
        (g ((Fields.get? other (Fields.insert name _ _)).getD .null)) (Fields.insert name _ _)
    rw [Fields.get?_insert_of_ne h, Fields.get?_insert_of_ne h.symm, Fields.insert_comm h]
  | index h => exact congrArg Json.array (changeItem_comm f g _ h)

/-- One step into a changed payload is the changed part, or a part that was there, or what a list
was padded with. -/
theorem step?_changeStep_cases {found : Json}
    (h : step? (changeStep f payload step) other = some found) :
    other = step ∨ step? payload other = some found ∨ found = .null := by
  cases step with
  | key name =>
    cases other with
    | key other =>
      by_cases hname : other = name
      · exact .inl (congrArg _ hname)
      · rw [step?_key] at h ⊢
        exact .inr (.inl ((Fields.get?_insert_of_ne hname _ _).symm.trans h))
    | index position => cases h
  | index position =>
    cases other with
    | key name => cases h
    | index other =>
      rw [step?_index] at h ⊢
      replace h := (getElem?_changeItem _ _ _ _).symm.trans h
      grind

end Steps

/-! ### Paths that part -/

/-- Two paths that are the same up to steps that part. -/
inductive PartsFrom : DataPath → DataPath → Prop
  | here {step other : PathStep} (h : step.PartsFrom other) (rest rest' : DataPath) :
    PartsFrom (step :: rest) (other :: rest')
  | later (step : PathStep) {path other : DataPath} (h : PartsFrom path other) :
    PartsFrom (step :: path) (step :: other)

section Paths

variable (value value' : Json) (payload : Json)

theorem set_cons (step : PathStep) (rest : DataPath) :
    set value (step :: rest) payload = changeStep (set value rest) payload step := by
  cases step <;> rfl

theorem get?_cons (step : PathStep) (rest : DataPath) :
    get? payload (step :: rest) = (step? payload step).bind (get? · rest) :=
  rfl

/-- **What is written is found.** -/
theorem get?_set (path : DataPath) : get? (set value path payload) path = some value := by
  induction path generalizing payload with
  | nil => rfl
  | cons step rest ih => rw [set_cons, get?_cons, step?_changeStep, Option.bind_some, ih]

variable {path other : DataPath}

/-- **A write leaves what is found at a path that parts from its own.** -/
theorem get?_set_of_partsFrom (h : PartsFrom path other) {found : Json}
    (hfound : get? payload other = some found) :
    get? (set value path payload) other = some found := by
  induction h generalizing payload with
  | here h rest rest' =>
    rw [get?_cons, Option.bind_eq_some_iff] at hfound
    obtain ⟨part, hpart, hfound⟩ := hfound
    rw [set_cons, get?_cons, step?_changeStep_of_partsFrom _ _ h hpart]
    exact hfound
  | later step h ih =>
    rw [get?_cons, Option.bind_eq_some_iff] at hfound
    obtain ⟨part, hpart, hfound⟩ := hfound
    rw [set_cons, get?_cons, step?_changeStep, hpart]
    exact ih part hfound

/-- **Writes at paths that part can be made in either order.** -/
theorem set_comm (h : PartsFrom path other) :
    set value path (set value' other payload) = set value' other (set value path payload) := by
  induction h generalizing payload with
  | here h rest rest' => simp only [set_cons, changeStep_comm _ _ _ h]
  | later step h ih => simp only [set_cons, changeStep_changeStep, ih]

end Paths

/-! ### Writing in place -/

/-- A list with at least so many items that it has one at a position. -/
def padTo (position : Nat) (items : List Json) : List Json :=
  items ++ List.replicate (position + 1 - items.length) .null

/-- Writes into a payload from the root down, and says whether that was done. A container of the
wrong kind is replaced before it is entered, so the payload is changed on the way already: a write
that gave up inside would leave it changed. -/
def writeInPlace (value : Json) : DataPath → Json → Bool × Json
  | [], _ => (true, value)
  | .key name :: rest, current =>
    match if current.isObject then current else .object [] with
    | .object fields =>
      let fields := if Fields.contains name fields then fields else Fields.insert name .null fields
      let (done, part) := writeInPlace value rest ((Fields.get? name fields).getD .null)
      (done, .object (Fields.insert name part fields))
    | other => (false, other)
  | .index position :: rest, current =>
    match if current.items?.isSome then current else .array [] with
    | .array items =>
      let items := padTo position items
      let (done, part) := writeInPlace value rest (items.getD position .null)
      (done, .array (items.set position part))
    | other => (false, other)

theorem changeItem_eq (f : Json → Json) (position : Nat) (items : List Json) :
    changeItem f position items =
      (padTo position items).set position (f ((padTo position items).getD position .null)) := by
  refine List.ext_getElem? fun other => ?_
  rw [getElem?_changeItem]
  grind [padTo]

/-- A field that is made in order to be written. -/
theorem insert_made (name : String) (fields : Fields Json) :
    let made := if Fields.contains name fields then fields else Fields.insert name .null fields
    (Fields.get? name made).getD .null = (Fields.get? name fields).getD .null ∧
      ∀ part, Fields.insert name part made = Fields.insert name part fields := by
  intro made
  by_cases h : Fields.contains name fields = true
  · rw [show made = fields from if_pos h]
    exact ⟨rfl, fun _ => rfl⟩
  · have hnone : Fields.get? name fields = none := by
      rwa [Fields.contains, Bool.not_eq_true, Option.isSome_eq_false_iff, Option.isNone_iff_eq_none]
        at h
    rw [show made = Fields.insert name .null fields from if_neg h, Fields.get?_insert_self, hnone]
    exact ⟨rfl, fun part => Fields.insert_insert name .null part fields⟩

/-- **A write in place is never given up on the way**, and gives what a write gives. -/
theorem writeInPlace_eq (value : Json) (path : DataPath) (payload : Json) :
    writeInPlace value path payload = (true, set value path payload) := by
  induction path generalizing payload with
  | nil => rfl
  | cons step rest ih =>
    rw [set_cons]
    cases step with
    | key name =>
      have hcontainer : (if payload.isObject then payload else .object []) =
          .object (payload.fields?.getD []) := by cases payload <;> rfl
      obtain ⟨hpart, hinsert⟩ := insert_made name (payload.fields?.getD [])
      simp only [writeInPlace, hcontainer, ih, hpart, hinsert]
      rfl
    | index position =>
      have hcontainer : (if payload.items?.isSome then payload else .array []) =
          .array (payload.items?.getD []) := by cases payload <;> rfl
      simp only [writeInPlace, hcontainer, ih, changeStep, changeItem_eq]

end DataPath

/-- Whether a step is to an index above the largest that is padded up to. -/
def PathStep.isTooFar : PathStep → Bool
  | .key _ => false
  | .index position => decide (DataPath.maxSetIndex < position)

/-- Writes a value in place at the path in a text, and says whether that was done: not if the text
is no path, has no step or has an index above the largest. -/
def Json.putPath (payload : Json) (text : String) (value : Json) : Bool × Json :=
  match DataPath.ofText? text with
  | none => (false, payload)
  | some path =>
    if path.isEmpty then (false, payload)
    else if path.any PathStep.isTooFar then (false, payload)
    else DataPath.writeInPlace value path payload

namespace DataPath

/-- A path that can be written: it has a step, and no index above the largest. -/
structure Settable (path : DataPath) : Prop where
  ne_nil : path ≠ []
  index_le : ∀ position, .index position ∈ path → position ≤ maxSetIndex

/-- The test for a write in place. -/
theorem isWritable_eq_true_iff {path : DataPath} : isWritable path = true ↔ path.Settable := by
  rw [isWritable, Bool.and_eq_true, Bool.not_eq_true', List.isEmpty_eq_false_iff, List.all_eq_true]
  constructor
  · rintro ⟨hne, hall⟩
    exact ⟨hne, fun position hmem => of_decide_eq_true (hall _ hmem)⟩
  · rintro ⟨hne, hindex⟩
    refine ⟨hne, fun step hmem => ?_⟩
    cases step with
    | key name => rfl
    | index position => exact decide_eq_true (hindex position hmem)

/-- **Where a write is made**: at the texts of paths with a step and no index above the largest. -/
theorem setPath?_eq_some_iff {payload value after : Json} {text : String} :
    payload.setPath? text value = some after ↔
      ∃ path, PathText text path ∧ path.Settable ∧ after = set value path payload := by
  simp only [← ofText?_eq_some_iff, ← isWritable_eq_true_iff]
  rw [Json.setPath?]
  cases ofText? text with
  | none => simp
  | some path =>
    simp only [Option.some.injEq, exists_eq_left', Option.ite_none_right_eq_some]
    exact and_congr_right fun _ => eq_comm

theorem isWritable_eq (path : DataPath) :
    isWritable path = (!path.isEmpty && !path.any PathStep.isTooFar) := by
  rw [isWritable, List.not_any_eq_all_not]
  congr 2
  funext step
  cases step with
  | key name => rfl
  | index position =>
    rw [PathStep.isTooFar, ← decide_not]
    exact decide_eq_decide.2 Nat.not_lt.symm

/-- Writing in place is writing, and keeping the payload where nothing is written. -/
theorem putPath_eq (payload : Json) (text : String) (value : Json) :
    payload.putPath text value =
      ((payload.setPath? text value).isSome, (payload.setPath? text value).getD payload) := by
  rw [Json.putPath, Json.setPath?]
  cases ofText? text with
  | none => rfl
  | some path =>
    simp only [isWritable_eq, writeInPlace_eq]
    cases path.isEmpty with
    | true => rfl
    | false => cases path.any PathStep.isTooFar <;> rfl

theorem getPath?_of_pathText {text : String} {path : DataPath} (h : PathText text path)
    (payload : Json) : payload.getPath? text = get? payload path := by
  rw [Json.getPath?, ofText?_eq_some_iff.2 h, Option.bind_some]

/-- **Writing in place.** It is done exactly at the texts of paths with at least one step and no
index above the largest; if it is not done, the payload is unchanged. What was written is then found
at that text, and what was found at another path that parts from it is found there still. -/
theorem putPath_writes (payload : Json) (text : String) (value : Json) :
    let written := payload.putPath text value
    (written.1 = true ↔ ∃ path, PathText text path ∧ path ≠ [] ∧
        ∀ position, .index position ∈ path → position ≤ maxSetIndex) ∧
      (written.1 = false → written.2 = payload) ∧
      (written.1 = true → written.2.getPath? text = some value ∧
        ∀ path other otherPath found, PathText text path → PathText other otherPath →
          path.PartsFrom otherPath → payload.getPath? other = some found →
            written.2.getPath? other = some found) ∧
      payload.setPath? text value = if written.1 then some written.2 else none := by
  intro written
  have hwritten : written = _ := putPath_eq payload text value
  cases hset : payload.setPath? text value with
  | none =>
    have hnot (path : DataPath) (htext : PathText text path) : ¬ path.Settable := fun hpath =>
      Option.some_ne_none _ ((setPath?_eq_some_iff.2 ⟨path, htext, hpath, rfl⟩).symm.trans hset)
    rw [hwritten, hset]
    refine ⟨⟨fun hdone => absurd hdone Bool.false_ne_true, ?_⟩, fun _ => rfl,
      fun hdone => absurd hdone Bool.false_ne_true, rfl⟩
    rintro ⟨path, htext, hne, hindex⟩
    exact absurd ⟨hne, hindex⟩ (hnot path htext)
  | some after =>
    obtain ⟨path, htext, hpath, rfl⟩ := setPath?_eq_some_iff.1 hset
    rw [hwritten, hset]
    refine ⟨iff_of_true rfl ⟨path, htext, hpath.ne_nil, hpath.index_le⟩,
      fun hdone => absurd hdone.symm Bool.false_ne_true, fun _ => ⟨?_, ?_⟩, rfl⟩
    · rw [getPath?_of_pathText htext]
      exact get?_set value payload path
    · intro same other otherPath found hsame hother hparts hfound
      obtain rfl := PathText.unique hsame htext
      rw [getPath?_of_pathText hother] at hfound ⊢
      exact get?_set_of_partsFrom value payload hparts hfound

end DataPath

end ChartSchema
