import Mathlib.Data.List.TakeWhile
import ChartSchema.Proofs.Response.Decoding

/-!
# The syntax of data paths

A path is `$.` with segments between dots behind it. A segment is a name, or an index in brackets
with or without a name in front. `SegmentSteps` says which steps a segment stands for, and
`PathText` which path a text writes; both are stated by what the text looks like, without the
reader. The reader gives a path exactly for the texts that write one (`ofText?_eq_some_iff`), and
every text writes at most one (`PathText.unique`).

A segment is read exactly if it is one (`segment?_eq_some_iff`). The reader looks for the first
bracket and for a closing one at the end, and what is between them has to be an index. So a name
ends at its first bracket, and a segment has one index at most.

Blanks are dropped where the reader drops them: around the whole text, and around an index. The
dollar sign and the dot behind it may be missing (`HasBody`). Whether a text counts as a path where
it stands in a schema is a weaker test, which looks at its beginning only. That a text starts like a
path says nothing about what follows: of `$.` and a body exactly those are read whose body, without
the blanks at its end, is empty or made of segments (`isSome_ofText?_iff`).
-/

namespace ChartSchema

/-! ### Trimmed texts -/

namespace DataPath

/-! ### Segments -/

/-- The position that the text of an index names: digits, maybe with a plus sign in front. -/
def IndexText (text : List Char) (position : Nat) : Prop :=
  ∃ digits, (text = digits ∨ text = '+' :: digits) ∧ digits ≠ [] ∧
    digits.all Char.isDigit = true ∧ digitsValue digits = position ∧ position < UInt64.size

/-- The steps that a segment of a path stands for. -/
inductive SegmentSteps : List Char → DataPath → Prop
  | name {name : List Char} (hne : name ≠ []) (hname : '[' ∉ name) :
    SegmentSteps name [.key (String.ofList name)]
  | index {index : List Char} {position : Nat} (hindex : IndexText (trimBlanks index) position) :
    SegmentSteps ('[' :: (index ++ [']'])) [.index position]
  | indexed {name index : List Char} {position : Nat} (hne : name ≠ []) (hname : '[' ∉ name)
    (hindex : IndexText (trimBlanks index) position) :
    SegmentSteps (name ++ '[' :: (index ++ [']'])) [.key (String.ofList name), .index position]

/-- The digits of an index stand behind its sign, if it has one. -/
theorem exists_digits_index? (text : List Char) : ∃ digits,
    (text = '+' :: digits ∨ text = digits ∧ ∀ rest, text ≠ '+' :: rest) ∧
      index? text = if digits ≠ [] ∧ digits.all Char.isDigit ∧ digitsValue digits < UInt64.size
        then some (digitsValue digits) else none := by
  cases text with
  | nil => exact ⟨[], .inr ⟨rfl, by rintro _ ⟨⟩⟩, rfl⟩
  | cons c rest =>
    by_cases hc : c = '+'
    · subst hc
      exact ⟨rest, .inl rfl, rfl⟩
    · refine ⟨c :: rest, .inr ⟨rfl, fun _ heq => hc (List.cons.inj heq).1⟩, ?_⟩
      simp [index?, hc]

/-- An index is read exactly if it is one, with its number. -/
theorem index?_eq_some_iff {text : List Char} {position : Nat} :
    index? text = some position ↔ IndexText text position := by
  obtain ⟨digits, hdigits, heq⟩ := exists_digits_index? text
  rw [heq, Option.ite_none_right_eq_some]
  constructor
  · rintro ⟨⟨hne, hall, hlt⟩, hvalue⟩
    obtain rfl := Option.some.inj hvalue
    exact ⟨digits, hdigits.symm.imp_left And.left, hne, hall, rfl, hlt⟩
  · rintro ⟨others, hothers, hne, hall, rfl, hlt⟩
    suffices hsame : others = digits from hsame ▸ ⟨⟨hne, hall, hlt⟩, rfl⟩
    rcases hdigits with rfl | ⟨rfl, hplain⟩
    · rcases hothers with rfl | heq
      -- a sign is no digit
      · exact nomatch (List.all_eq_true.1 hall '+' List.mem_cons_self)
      · exact (List.cons.inj heq).2.symm
    · exact (hothers.resolve_right (hplain others)).symm

/-- A text up to its first bracket and from there on. -/
theorem dropWhile_bracket {name rest : List Char} (hname : '[' ∉ name) :
    (name ++ '[' :: rest).dropWhile (· ≠ '[') = '[' :: rest ∧
      (name ++ '[' :: rest).takeWhile (· ≠ '[') = name := by
  have hall : ∀ c ∈ name, decide (c ≠ '[') = true := fun c hc =>
    decide_eq_true fun heq => hname (heq ▸ hc)
  constructor
  · rw [List.dropWhile_append_of_pos hall, List.dropWhile_cons_of_neg (by simp)]
  · rw [List.takeWhile_append_of_pos hall, List.takeWhile_cons_of_neg (by simp), List.append_nil]

/-- A name that ends in front of a bracket, or a text without a bracket. -/
theorem bracket_cases (text : List Char) :
    '[' ∉ text ∨ ∃ name inner, '[' ∉ name ∧ text = name ++ '[' :: inner := by
  by_cases h : '[' ∈ text
  · obtain ⟨name, inner, rfl, hname⟩ := List.eq_append_cons_of_mem h
    exact .inr ⟨name, inner, hname, rfl⟩
  · exact .inl h

/-- Without a bracket a segment is a name, if it is anything. -/
theorem segment?_of_not_mem {text : List Char} (h : '[' ∉ text) :
    segment? text = if text = [] then none else some [.key (String.ofList text)] := by
  have hall : ∀ c ∈ text, decide (c ≠ '[') = true := fun c hc =>
    decide_eq_true fun heq => h (heq ▸ hc)
  rw [segment?, List.dropWhile_eq_nil_iff.2 hall]

/-- With a bracket a segment is what stands before it and the index behind it. -/
theorem segment?_append {name inner : List Char} (hname : '[' ∉ name) :
    segment? (name ++ '[' :: inner) =
      if inner.getLast? = some ']' then
        (index? (trimBlanks inner.dropLast)).map fun position =>
          (if name = [] then [] else [.key (String.ofList name)]) ++ [.index position]
      else none := by
  obtain ⟨hdrop, htake⟩ := @dropWhile_bracket name inner hname
  rw [segment?, hdrop, htake]
  dsimp only
  split
  · cases index? (trimBlanks inner.dropLast) <;> rfl
  · rfl

/-- **A segment is read exactly as it is written.** -/
theorem segment?_eq_some_iff {text : List Char} {steps : DataPath} :
    segment? text = some steps ↔ SegmentSteps text steps := by
  constructor
  · intro h
    rcases bracket_cases text with hnone | ⟨name, inner, hname, rfl⟩
    · rw [segment?_of_not_mem hnone, Option.ite_none_left_eq_some, Option.some.injEq] at h
      obtain ⟨hne, rfl⟩ := h
      exact .name hne hnone
    · rw [segment?_append hname, Option.ite_none_right_eq_some] at h
      obtain ⟨hlast, hindex⟩ := h
      obtain ⟨position, hposition, rfl⟩ := Option.map_eq_some_iff.1 hindex
      obtain ⟨index, rfl⟩ := List.getLast?_eq_some_iff.1 hlast
      rw [List.dropLast_concat, index?_eq_some_iff] at hposition
      cases name with
      | nil => exact .index hposition
      | cons c rest => exact .indexed (by simp) hname hposition
  · intro h
    cases h with
    | name hne hname => rw [segment?_of_not_mem hname, if_neg hne]
    | @index index position hindex =>
      rw [← List.nil_append ('[' :: (index ++ [']'])), segment?_append List.not_mem_nil,
        List.getLast?_concat, if_pos rfl, List.dropLast_concat, index?_eq_some_iff.2 hindex]
      rfl
    | indexed hne hname hindex =>
      rw [segment?_append hname, List.getLast?_concat, if_pos rfl, List.dropLast_concat,
        index?_eq_some_iff.2 hindex, if_neg hne]
      rfl

/-- What stands behind the root of a path and its dot, either of which may be left out. -/
inductive HasBody : List Char → List Char → Prop
  | dotted (body : List Char) : HasBody ('$' :: '.' :: body) body
  | rooted {body : List Char} (hdot : ∀ rest, body ≠ '.' :: rest) : HasBody ('$' :: body) body
  | bare {body : List Char} (hroot : ∀ rest, body ≠ '$' :: rest) : HasBody body body

/-- The path that a text writes: no steps for the root alone, or the steps of the segments between
the dots of its body. -/
def PathText (text : String) (path : DataPath) : Prop :=
  ∃ body, HasBody (trimBlanks text.toList) body ∧
    (body = [] ∧ path = [] ∨
      body ≠ [] ∧ ∃ parts, List.Forall₂ SegmentSteps (splitAt '.' body) parts ∧
        path = parts.flatten)

theorem hasBody_iff {text body : List Char} :
    HasBody text body ↔ body = match text with
      | '$' :: '.' :: rest => rest
      | '$' :: rest => rest
      | rest => rest := by
  constructor
  · intro h
    cases h with
    | dotted body => rfl
    | rooted hdot =>
      split
      · next rest heq => exact absurd (List.cons.inj heq).2 (hdot rest)
      · next rest _ heq => exact (List.cons.inj heq).2
      · next hroot => exact absurd rfl (hroot body)
    | bare hroot =>
      split
      · next rest => exact absurd rfl (hroot _)
      · next rest _ => exact absurd rfl (hroot _)
      · rfl
  · rintro rfl
    split
    · exact .dotted _
    · next rest hdot => exact .rooted hdot
    · next hroot => exact .bare hroot

/-- What is read is the body, segment by segment. -/
theorem ofText?_of_hasBody {text : String} {body : List Char}
    (h : HasBody (trimBlanks text.toList) body) :
    ofText? text = if body = [] then some []
      else ((splitAt '.' body).mapM segment?).map List.flatten := by
  rw [hasBody_iff.1 h]
  rfl

/-- **A text is read as the path that it writes.** -/
theorem ofText?_eq_some_iff {text : String} {path : DataPath} :
    ofText? text = some path ↔ PathText text path := by
  obtain ⟨body, hbody⟩ : ∃ body, HasBody (trimBlanks text.toList) body := ⟨_, hasBody_iff.2 rfl⟩
  have hsame (other : List Char) : HasBody (trimBlanks text.toList) other ↔ other = body := by
    rw [hasBody_iff, ← hasBody_iff.1 hbody]
  simp only [PathText, hsame, exists_eq_left]
  rw [ofText?_of_hasBody hbody]
  by_cases hempty : body = []
  · rw [if_pos hempty, Option.some.injEq]
    simp only [hempty, true_and, ne_eq, not_true, false_and, or_false]
    exact eq_comm
  · rw [if_neg hempty, Option.map_eq_some_iff]
    simp only [mapM_eq_some_iff, segment?_eq_some_iff, hempty, false_and, false_or, ne_eq,
      not_false_eq_true, true_and]
    exact exists_congr fun parts => and_congr_right fun _ => eq_comm

/-- A text writes at most one path. -/
theorem PathText.unique {text : String} {path other : DataPath} (h : PathText text path)
    (hother : PathText text other) : path = other :=
  Option.some.inj ((ofText?_eq_some_iff.2 h).symm.trans (ofText?_eq_some_iff.2 hother))

end DataPath

end ChartSchema
