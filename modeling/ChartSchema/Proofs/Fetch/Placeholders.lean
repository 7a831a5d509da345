import ChartSchema.Fetch.Request

/-!
# Addresses with placeholders

An address can be written as pieces: literals, and placeholders with a dollar or without. Filling it
goes from the left, and works on each placeholder by itself (`fillPlaceholders_placeholder`), with
the text behind it still to come and the prop that is put in never looked at. So an address is
filled piece by piece (`fillUrl_pieces`), whatever the props hold.

The pieces have to be **apart**, which is a condition on the literals and the names only
(`UrlPiece.Apart`): no literal has an opening brace, no name is empty or has a closing one, and a
literal in front of a placeholder without a dollar does not end in one. Without it a text could be
written as pieces in several ways. Nothing is asked of the props: what is put in may have braces and
dollars, and is not filled again.

A placeholder whose name is no prop is left as it is written, braces and dollar included. An address
that has no placeholder with a prop therefore stays as it is, and every address does if the props
are no object. The characters are arbitrary, and the values of the props are put in as they are
written in an address: texts as they are, and everything else as JSON.
-/

namespace ChartSchema

/-- A piece of an address. -/
inductive UrlPiece where
  | literal (text : List Char)
  /-- A name in braces, with a dollar in front or without. -/
  | placeholder (dollar : Bool) (name : List Char)

namespace UrlPiece

/-- A piece as it stands in the address. -/
def written : UrlPiece → List Char
  | .literal text => text
  | .placeholder dollar name =>
    (if dollar then ['$'] else []) ++ '\x7b' :: (name ++ ['\x7d'])

/-- The prop that a placeholder names, blanks around the name aside. -/
def prop? (props : Fields Json) (name : List Char) : Option Json :=
  Fields.get? (String.ofList (trimBlanks name)) props

/-- A piece with its prop put in. Without such a prop it stays as it is written. -/
def filled (props : Fields Json) (piece : UrlPiece) : List Char :=
  match piece with
  | .literal text => text
  | .placeholder _ name =>
    match prop? props name with
    | some value => value.display.toList
    | none => piece.written

/-- Pieces that can be told apart in the address, with `before` for the literal text behind the last
placeholder: literals have no opening brace, names are not empty and have no closing one, and a
placeholder without a dollar does not stand behind one. -/
def Apart (before : List Char) : List UrlPiece → Prop
  | [] => True
  | .literal text :: rest => '\x7b' ∉ text ∧ Apart (before ++ text) rest
  | .placeholder dollar name :: rest =>
    name ≠ [] ∧ '\x7d' ∉ name ∧ (dollar = false → before.getLast? ≠ some '$') ∧ Apart [] rest

/-- The address that pieces make. -/
def address (pieces : List UrlPiece) : String :=
  String.ofList (pieces.flatMap written)

end UrlPiece

/-! ### One placeholder -/

section Steps

variable {props : Fields Json} {before name rest : List Char}

theorem ne_of_notMem {c : Char} {text : List Char} (h : c ∉ text) :
    ∀ d ∈ text, decide (d ≠ c) = true :=
  fun _ hd => decide_eq_true fun heq => h (heq ▸ hd)

/-- Without an opening brace nothing is filled. -/
theorem fillPlaceholders_of_notMem (h : '\x7b' ∉ before) :
    fillPlaceholders props before = before := by
  have hdrop := @dropWhile_run _ before [] (ne_of_notMem h) (by simp)
  rw [List.append_nil] at hdrop
  rw [fillPlaceholders]
  split
  · rfl
  · next hcons => exact absurd (hcons.symm.trans hdrop) (List.cons_ne_nil _ _)

/-- **The first placeholder** is filled by itself, and then the text behind it. -/
theorem fillPlaceholders_placeholder (hbefore : '\x7b' ∉ before) (hempty : name ≠ [])
    (hname : '\x7d' ∉ name) :
    fillPlaceholders props (before ++ '\x7b' :: (name ++ '\x7d' :: rest)) =
      match UrlPiece.prop? props name with
      | some value => withoutDollar before ++ value.display.toList ++ fillPlaceholders props rest
      | none => before ++ '\x7b' :: (name ++ '\x7d' :: fillPlaceholders props rest) := by
  have hstop (c : Char) (behind : List Char) : ∀ d ∈ (c :: behind).head?, decide (d ≠ c) = false :=
    forall_head?.2 (by simp)
  have houter := dropWhile_run (ne_of_notMem hbefore) (hstop '\x7b' (name ++ '\x7d' :: rest))
  have htext := takeWhile_run (ne_of_notMem hbefore) (hstop '\x7b' (name ++ '\x7d' :: rest))
  have hinner := dropWhile_run (ne_of_notMem hname) (hstop '\x7d' rest)
  have hread := takeWhile_run (ne_of_notMem hname) (hstop '\x7d' rest)
  rw [fillPlaceholders]
  split
  · next hnil => exact absurd (houter.symm.trans hnil) (List.cons_ne_nil _ _)
  · next inner hcons =>
    obtain ⟨-, rfl⟩ := List.cons.inj (houter.symm.trans hcons)
    split
    · next hnil => exact absurd (hinner.symm.trans hnil) (List.cons_ne_nil _ _)
    · next behind hcons =>
      obtain ⟨-, rfl⟩ := List.cons.inj (hinner.symm.trans hcons)
      rw [htext, hread]
      dsimp only
      rw [if_neg hempty]
      rfl

theorem withoutDollar_append_dollar (before : List Char) :
    withoutDollar (before ++ ['$']) = before := by
  rw [withoutDollar, if_pos List.getLast?_concat, List.dropLast_concat]

end Steps

/-! ### All pieces -/

namespace UrlPiece

variable {pieces : List UrlPiece}

/-- A placeholder is filled as it is written, and then the text behind it. -/
theorem fillPlaceholders_written (props : Fields Json) {before name : List Char} {dollar : Bool}
    (hbefore : '\x7b' ∉ before) (hempty : name ≠ []) (hname : '\x7d' ∉ name)
    (hdollar : dollar = false → before.getLast? ≠ some '$') (behind : List Char) :
    fillPlaceholders props (before ++ (written (.placeholder dollar name) ++ behind)) =
      before ++ (filled props (.placeholder dollar name) ++ fillPlaceholders props behind) := by
  let front := before ++ if dollar then ['$'] else []
  have hshape (behind : List Char) : before ++ (written (.placeholder dollar name) ++ behind) =
      front ++ '\x7b' :: (name ++ '\x7d' :: behind) := by
    simp [written, front]
  have hfront : '\x7b' ∉ front := by
    cases dollar <;> simp [front, hbefore]
  have hwithout : withoutDollar front = before := by
    cases dollar with
    | true => exact withoutDollar_append_dollar before
    | false => exact (congrArg withoutDollar (List.append_nil before)).trans (if_neg (hdollar rfl))
  rw [hshape, fillPlaceholders_placeholder hfront hempty hname, filled]
  cases prop? props name with
  | some value =>
    dsimp only
    rw [hwithout, List.append_assoc]
  | none => exact (hshape _).symm

/-- **The pieces of an address** are filled one after another. -/
theorem fillPlaceholders_pieces (props : Fields Json) {before : List Char}
    (hbefore : '\x7b' ∉ before) (h : Apart before pieces) :
    fillPlaceholders props (before ++ pieces.flatMap written) =
      before ++ pieces.flatMap (filled props) := by
  induction pieces generalizing before with
  | nil =>
    rw [List.flatMap_nil, List.flatMap_nil, List.append_nil]
    exact fillPlaceholders_of_notMem hbefore
  | cons piece rest ih =>
    rw [List.flatMap_cons, List.flatMap_cons]
    cases piece with
    | literal text =>
      -- the literal joins the text that is still to be looked at
      obtain ⟨htext, hrest⟩ := h
      have hjoined : '\x7b' ∉ before ++ text := by simp [hbefore, htext]
      rw [written, filled, ← List.append_assoc, ← List.append_assoc]
      exact ih hjoined hrest
    | placeholder dollar name =>
      obtain ⟨hempty, hname, hdollar, hrest⟩ := h
      have hbehind : fillPlaceholders props (rest.flatMap written) = rest.flatMap (filled props) :=
        ih List.not_mem_nil hrest
      rw [fillPlaceholders_written props hbefore hempty hname hdollar, hbehind]

/-- An address in which no placeholder names a prop is filled with nothing. -/
theorem flatMap_filled_of_none {props : Fields Json}
    (h : ∀ dollar name, placeholder dollar name ∈ pieces → prop? props name = none) :
    pieces.flatMap (filled props) = pieces.flatMap written := by
  rw [List.flatMap_def, List.flatMap_def]
  refine congrArg List.flatten (List.map_congr_left fun piece hpiece => ?_)
  cases piece with
  | literal text => rfl
  | placeholder dollar name => rw [filled, h dollar name hpiece]

end UrlPiece

/-- Without an object for props nothing is filled. -/
theorem fillUrl_of_not_object {props : Option Json} (h : ∀ fields, props ≠ some (.object fields))
    (url : String) : fillUrl props url = url := by
  cases props with
  | none => rfl
  | some value =>
    cases value with
    | object fields => exact absurd rfl (h fields)
    | null | bool | number | string | array => rfl

/-- **An address is filled piece by piece.** It stays as it is if no placeholder names a prop, and
if the props are no object. -/
theorem fillUrl_pieces {pieces : List UrlPiece} (h : UrlPiece.Apart [] pieces) :
    (∀ fields, fillUrl (some (.object fields)) (UrlPiece.address pieces) =
      String.ofList (pieces.flatMap (UrlPiece.filled fields))) ∧
    (∀ fields,
      (∀ dollar name, .placeholder dollar name ∈ pieces → UrlPiece.prop? fields name = none) →
      fillUrl (some (.object fields)) (UrlPiece.address pieces) = UrlPiece.address pieces) ∧
    ∀ props : Option Json, (∀ fields, props ≠ some (.object fields)) →
      ∀ url, fillUrl props url = url := by
  have hfill (fields : Fields Json) : fillUrl (some (.object fields)) (UrlPiece.address pieces) =
      String.ofList (pieces.flatMap (UrlPiece.filled fields)) := by
    rw [fillUrl, UrlPiece.address, String.toList_ofList]
    exact congrArg String.ofList (UrlPiece.fillPlaceholders_pieces fields List.not_mem_nil h)
  refine ⟨hfill, fun fields hnone => ?_, fun props hprops => fillUrl_of_not_object hprops⟩
  rw [hfill, UrlPiece.flatMap_filled_of_none hnone, UrlPiece.address]

/-- A value that looks like a placeholder is put in as it is, and an unknown name keeps its
dollar. -/
theorem fillUrl_pieces_braces :
    let pieces : List UrlPiece := [.literal "https://a/".toList, .placeholder true " a ".toList,
      .placeholder false "b".toList, .literal "?é=".toList, .placeholder true "c".toList]
    let fields : Fields Json := [("a", .string "$\x7bb\x7d"), ("b", .ofNat 7)]
    UrlPiece.Apart [] pieces ∧
      fillUrl (some (.object fields)) (UrlPiece.address pieces) =
        "https://a/$\x7bb\x7d7?é=$\x7bc\x7d" := by
  intro pieces fields
  have hpieces : UrlPiece.Apart [] pieces := by
    simp [pieces, UrlPiece.Apart]
  refine ⟨hpieces, ((fillUrl_pieces hpieces).1 fields).trans ?_⟩
  decide +kernel

end ChartSchema
