/-!
# Pieces of a text

Cutting a text at a separator and putting the pieces back together, and the run of characters of one
kind at the front of a text.
-/

namespace ChartSchema

/-- The pieces of a text between the separators, of which there is always one more than there are
separators. -/
def splitAt (separator : Char) : List Char → List (List Char)
  | [] => [[]]
  | c :: rest =>
    if c = separator then [] :: splitAt separator rest
    else match splitAt separator rest with
      | [] => [[c]]
      | piece :: pieces => (c :: piece) :: pieces

/-- The text with the separator between the pieces. -/
def joinWith (separator : Char) : List (List Char) → List Char
  | [] => []
  | [piece] => piece
  | piece :: pieces => piece ++ separator :: joinWith separator pieces

/-- The pieces of a string between dots. -/
def dotted (text : String) : List String :=
  (splitAt '.' text.toList).map String.ofList

/-- A number of bytes: the length of a text in UTF-8. -/
def byteLength : List Char → Nat
  | [] => 0
  | c :: rest => c.utf8Size + byteLength rest

@[simp] theorem byteLength_append (text more : List Char) :
    byteLength (text ++ more) = byteLength text + byteLength more := by
  induction text with
  | nil => simp [byteLength]
  | cons c rest ih => simp [byteLength, ih, Nat.add_assoc]

theorem splitAt_ne_nil (separator : Char) (text : List Char) : splitAt separator text ≠ [] := by
  induction text with
  | nil => simp [splitAt]
  | cons c rest ih =>
    rw [splitAt]
    split
    · simp
    · split <;> simp

/-- Joining the pieces of a text gives the text back. -/
theorem joinWith_splitAt (separator : Char) (text : List Char) :
    joinWith separator (splitAt separator text) = text := by
  induction text with
  | nil => rfl
  | cons c rest ih =>
    rw [splitAt]
    have hne := splitAt_ne_nil separator rest
    split
    -- a separator starts with an empty piece
    · next h =>
      match hs : splitAt separator rest with
      | [] => exact absurd hs hne
      | piece :: pieces =>
        rw [hs] at ih
        simp [joinWith, ih, h]
    -- any other character joins the first piece
    · match hs : splitAt separator rest with
      | [] => exact absurd hs hne
      | [piece] =>
        rw [hs] at ih
        simpa [joinWith] using ih
      | piece :: second :: pieces =>
        rw [hs] at ih
        simpa [joinWith] using ih

/-- A text without the separator is one piece. -/
theorem splitAt_of_notMem {separator : Char} {piece : List Char} (h : separator ∉ piece) :
    splitAt separator piece = [piece] := by
  induction piece with
  | nil => rfl
  | cons c rest ih =>
    rw [List.mem_cons, not_or] at h
    rw [splitAt, if_neg (Ne.symm h.1), ih h.2]

theorem splitAt_append {separator : Char} {piece : List Char} (h : separator ∉ piece)
    (rest : List Char) :
    splitAt separator (piece ++ separator :: rest) = piece :: splitAt separator rest := by
  induction piece with
  | nil => rw [List.nil_append, splitAt, if_pos rfl]
  | cons c piece ih =>
    rw [List.mem_cons, not_or] at h
    rw [List.cons_append, splitAt, if_neg (Ne.symm h.1), ih h.2]

/-- Pieces without the separator come back from the text that joins them. -/
theorem splitAt_joinWith {separator : Char} {pieces : List (List Char)} (hne : pieces ≠ [])
    (h : ∀ piece ∈ pieces, separator ∉ piece) :
    splitAt separator (joinWith separator pieces) = pieces := by
  induction pieces with
  | nil => exact absurd rfl hne
  | cons piece rest ih =>
    obtain ⟨hpiece, hrest⟩ := List.forall_mem_cons.1 h
    cases rest with
    | nil => exact splitAt_of_notMem hpiece
    | cons second more =>
      rw [joinWith, splitAt_append hpiece, ih (List.cons_ne_nil second more) hrest]
      exact List.cons_ne_nil second more

theorem joinWith_append_cons (separator : Char) (front piece : List Char)
    (rest : List (List Char)) :
    joinWith separator ((front ++ piece) :: rest) =
      front ++ joinWith separator (piece :: rest) := by
  cases rest with
  | nil => rfl
  | cons second more => simp [joinWith]

/-! ### Runs of characters -/

/-- What stands in front of a text with a first character is that character. -/
theorem forall_head? {p : Char → Prop} {c : Char} {rest : List Char} :
    (∀ d ∈ (c :: rest).head?, p d) ↔ p c := by
  constructor
  · exact fun h => h c rfl
  · rintro h d hd
    obtain rfl := Option.some.inj hd
    exact h

theorem takeWhile_run {p : Char → Bool} {run rest : List Char} (hrun : ∀ c ∈ run, p c = true)
    (hrest : ∀ c ∈ rest.head?, p c = false) : (run ++ rest).takeWhile p = run := by
  rw [List.takeWhile_append_of_pos hrun]
  cases rest with
  | nil => exact List.append_nil run
  | cons c rest => rw [List.takeWhile_cons, hrest c rfl, if_neg Bool.false_ne_true, List.append_nil]

theorem dropWhile_run {p : Char → Bool} {run rest : List Char} (hrun : ∀ c ∈ run, p c = true)
    (hrest : ∀ c ∈ rest.head?, p c = false) : (run ++ rest).dropWhile p = rest := by
  rw [List.dropWhile_append_of_pos hrun]
  cases rest with
  | nil => rfl
  | cons c rest => rw [List.dropWhile_cons, hrest c rfl, if_neg Bool.false_ne_true]

/-- A class of characters without any digit. -/
theorem isDigit_eq_false {p : Char → Bool} {c : Char}
    (hp : ∀ d : Fin 10, p (Char.ofNat (48 + d)) = false) (hc : p c = true) :
    c.isDigit = false := by
  rw [Bool.eq_false_iff]
  intro hdigit
  rw [Char.isDigit, Bool.and_eq_true, decide_eq_true_iff, decide_eq_true_iff] at hdigit
  have hlow : 48 ≤ c.toNat := hdigit.1
  have hhigh : c.toNat ≤ 57 := hdigit.2
  have hchar := hp ⟨c.toNat - 48, by omega⟩
  have hsame : 48 + (c.toNat - 48) = c.toNat := by omega
  rw [hsame, Char.ofNat_toNat, hc] at hchar
  exact nomatch hchar

end ChartSchema
