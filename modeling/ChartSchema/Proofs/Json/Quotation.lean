import Mathlib.Data.List.Basic
import ChartSchema.Json.Text

/-!
# Strings inside JSON text

Reading JSON text from left to right, one knows after every character whether one stands inside a
string. `QuoteState` is what has to be remembered for that, and it refuses what JSON text never
holds: a zero byte anywhere, and a backslash or an equals sign outside a string. The text of every
value leads from outside a string to outside a string (`Json.closed_toText`).

A text that does so is **closed**, and closed texts can be put together (`Closed.append`). So the
proof follows the text of a value: its numbers are plain, with no mark at all (`closed_of_plain`);
its strings open with a quote and close with one, and what is escaped in between never leaves the
string (`closed_quote`); lists and objects add punctuation. In particular no value has a zero byte
in its text (`Closed.nul_notMem`).

Two readers of which one starts inside a string and the other outside never both end outside
(`QuoteState.opposite`): at a quote they change places, at a backslash, an equals sign or a zero
byte the one outside is refused, and at any other character both stay where they are. Hence a text
that ends in an equals sign and the text of a value is cut in one place only, `Json.cut_unique`,
whatever stands in front. The equals sign of one cut cannot stand inside the value of the other,
since outside a string there is none, and inside one the rest would not be closed.
-/

namespace ChartSchema

/-! ### Cuts -/

/-- A text that is cut at two marks is cut in one place, or one of them stands before the other. -/
theorem cut_cases {mark : Char} {front front' back back' : List Char}
    (h : front ++ mark :: back = front' ++ mark :: back') :
    (front = front' ∧ back = back') ∨
      (∃ between, front' = front ++ mark :: between ∧ back = between ++ mark :: back') ∨
        ∃ between, front = front' ++ mark :: between ∧ back' = between ++ mark :: back := by
  rcases List.append_eq_append_iff.1 h with ⟨more, hfront, hback⟩ | ⟨more, hfront, hback⟩
  · cases more with
    | nil => exact .inl ⟨by simpa using hfront.symm, (List.cons.inj hback).2⟩
    | cons c between =>
      obtain ⟨rfl, hrest⟩ := List.cons.inj hback
      exact .inr (.inl ⟨between, hfront, hrest⟩)
  · cases more with
    | nil => exact .inl ⟨by simpa using hfront, (List.cons.inj hback).2.symm⟩
    | cons c between =>
      obtain ⟨rfl, hrest⟩ := List.cons.inj hback
      exact .inr (.inr ⟨between, hfront, hrest⟩)

/-- A text is cut in one place at the last of its marks. -/
theorem cut_last {mark : Char} {front front' back back' : List Char} (hback : mark ∉ back)
    (hback' : mark ∉ back') (h : front ++ mark :: back = front' ++ mark :: back') :
    front = front' ∧ back = back' := by
  rcases cut_cases h with hsame | ⟨between, -, rfl⟩ | ⟨between, -, rfl⟩
  · exact hsame
  · exact absurd (List.mem_append_right _ List.mem_cons_self) hback
  · exact absurd (List.mem_append_right _ List.mem_cons_self) hback'

/-- A text is cut in one place at the first of its marks. -/
theorem cut_first {mark : Char} {front front' back back' : List Char} (hfront : mark ∉ front)
    (hfront' : mark ∉ front') (h : front ++ mark :: back = front' ++ mark :: back') :
    front = front' ∧ back = back' := by
  rcases cut_cases h with hsame | ⟨between, rfl, -⟩ | ⟨between, rfl, -⟩
  · exact hsame
  · exact absurd (List.mem_append_right _ List.mem_cons_self) hfront'
  · exact absurd (List.mem_append_right _ List.mem_cons_self) hfront

/-! ### Inside and outside -/

/-- Where a reader of JSON text stands. -/
inductive QuoteState where
  | outside
  | inside
  /-- Inside a string and right behind a backslash. -/
  | escaped
  /-- Behind something that JSON text never holds. -/
  | refused
  deriving DecidableEq

namespace QuoteState

/-- One more character. -/
def step : QuoteState → Char → QuoteState
  | outside, c =>
    if c = '"' then inside else if c = '\\' ∨ c = '=' ∨ c = '\x00' then refused else outside
  | inside, c =>
    if c = '"' then outside else if c = '\\' then escaped
    else if c = '\x00' then refused else inside
  | escaped, c => if c = '\x00' then refused else inside
  | refused, _ => refused

/-- Where the reader stands after a text. -/
def after (state : QuoteState) (text : List Char) : QuoteState :=
  text.foldl step state

@[simp] theorem after_nil (state : QuoteState) : state.after [] = state := rfl

@[simp] theorem after_cons (state : QuoteState) (c : Char) (text : List Char) :
    state.after (c :: text) = (state.step c).after text := rfl

/-- Reading two texts is reading one and then the other. -/
theorem after_append (state : QuoteState) (text more : List Char) :
    state.after (text ++ more) = (state.after text).after more :=
  List.foldl_append

@[simp] theorem after_refused (text : List Char) : refused.after text = refused := by
  induction text with
  | nil => rfl
  | cons c rest ih => exact ih

/-- A zero byte is refused in every state. -/
theorem step_nul (state : QuoteState) : state.step '\x00' = refused := by
  cases state <;> rfl

/-- A text that is not refused has no zero byte. -/
theorem nul_notMem {state : QuoteState} {text : List Char} (h : state.after text ≠ refused) :
    '\x00' ∉ text := by
  intro hmem
  obtain ⟨front, back, rfl⟩ := List.append_of_mem hmem
  rw [after_append, after_cons, step_nul, after_refused] at h
  exact h rfl

/-- An equals sign stands inside a string, or is refused. -/
theorem step_equals {state : QuoteState} (h : state.step '=' ≠ refused) :
    state.step '=' = inside := by
  cases state with
  | outside => exact absurd rfl h
  | inside => rfl
  | escaped => rfl
  | refused => exact absurd rfl h

/-- **Inside and outside stay opposite**: what leads from inside a string to outside does not lead
from outside to outside. -/
theorem opposite {text : List Char} (h : inside.after text = outside) :
    outside.after text ≠ outside := by
  suffices hboth : ¬(inside.after text = outside ∧ outside.after text = outside) from
    fun hout => hboth ⟨h, hout⟩
  clear h
  induction text with
  | nil => exact fun hboth => nomatch hboth.1
  | cons c rest ih =>
    rintro ⟨hin, hout⟩
    rw [after_cons] at hin hout
    by_cases hquote : c = '"'
    -- the two readers change places
    · subst hquote
      exact ih ⟨hout, hin⟩
    · by_cases hstop : c = '\\' ∨ c = '=' ∨ c = '\x00'
      · rw [step, if_neg hquote, if_pos hstop, after_refused] at hout
        exact nomatch hout
      · have hplain : c ≠ '\\' ∧ c ≠ '\x00' :=
          ⟨fun hc => hstop (.inl hc), fun hc => hstop (.inr (.inr hc))⟩
        rw [step, if_neg hquote, if_neg hstop] at hout
        rw [step, if_neg hquote, if_neg hplain.1, if_neg hplain.2] at hin
        exact ih ⟨hin, hout⟩

end QuoteState

/-! ### Closed texts -/

/-- A text that leads from outside a string to outside a string. -/
def Closed (text : List Char) : Prop :=
  QuoteState.outside.after text = .outside

theorem closed_nil : Closed [] := rfl

/-- Closed texts one after the other are closed. -/
theorem Closed.append {text more : List Char} (h : Closed text) (hmore : Closed more) :
    Closed (text ++ more) := by
  rw [Closed, QuoteState.after_append, h, hmore]

theorem Closed.nul_notMem {text : List Char} (h : Closed text) : '\x00' ∉ text := by
  refine @QuoteState.nul_notMem .outside text ?_
  rw [h]
  exact nofun

/-- A character that neither opens a string nor is refused. -/
def Plain (c : Char) : Prop :=
  c ≠ '"' ∧ c ≠ '\\' ∧ c ≠ '=' ∧ c ≠ '\x00'

instance (c : Char) : Decidable (Plain c) :=
  inferInstanceAs (Decidable (_ ∧ _))

/-- A text without marks is closed. -/
theorem closed_of_plain {text : List Char} (h : ∀ c ∈ text, Plain c) : Closed text := by
  induction text with
  | nil => rfl
  | cons c rest ih =>
    obtain ⟨hquote, hslash, hequals, hnul⟩ := h c List.mem_cons_self
    have hstep : QuoteState.outside.step c = .outside := by
      rw [QuoteState.step, if_neg hquote, if_neg (by simp [hslash, hequals, hnul])]
    rw [Closed, QuoteState.after_cons, hstep]
    exact ih fun d hd => h d (List.mem_cons_of_mem _ hd)

/-- A closed text has no closed end behind an equals sign. -/
theorem Closed.not_cut {text last : List Char} (h : Closed text) (hlast : Closed last)
    (front : List Char) : text ≠ front ++ '=' :: last := by
  rintro rfl
  rw [Closed, QuoteState.after_append, QuoteState.after_cons] at h
  have hlive : (QuoteState.outside.after front).step '=' ≠ .refused := by
    intro hrefused
    rw [hrefused, QuoteState.after_refused] at h
    exact nomatch h
  rw [QuoteState.step_equals hlive] at h
  exact QuoteState.opposite h hlast

theorem closed_of_all {text : List Char} (h : (text.all fun c => decide (Plain c)) = true) :
    Closed text :=
  closed_of_plain fun c hc => of_decide_eq_true (List.all_eq_true.1 h c hc)

/-! ### Numbers -/

theorem plain_of_isDigit {c : Char} (h : c.isDigit = true) : Plain c := by
  refine ⟨?_, ?_, ?_, ?_⟩ <;> rintro rfl <;> exact absurd h (by decide)

theorem plain_toDigits {n : Nat} {c : Char} (h : c ∈ Nat.toDigits 10 n) : Plain c :=
  plain_of_isDigit (Nat.isDigit_of_mem_toDigits (by decide) (by decide) h)

namespace NumberLayout

/-- A number without an exponent is plain, whatever its layout. -/
theorem plain_fixed (layout : NumberLayout) {digits : List Char} (hdigits : ∀ c ∈ digits, Plain c)
    (e : Int) : ∀ c ∈ layout.fixed digits e, Plain c := by
  have hzeros {k : Nat} {c : Char} (hc : c ∈ List.replicate k '0') : Plain c := by
    rw [(List.mem_replicate.1 hc).2]
    decide
  intro c hc
  rw [fixed] at hc
  by_cases hneg : e < 0
  · rw [if_pos hneg] at hc
    simp only [List.mem_cons, List.mem_append] at hc
    rcases hc with rfl | rfl | hc | hc
    · decide
    · decide
    · exact hzeros hc
    · exact hdigits c hc
  · rw [if_neg hneg] at hc
    by_cases hshort : digits.length ≤ e.toNat + 1
    · rw [if_pos hshort] at hc
      rcases List.mem_append.1 hc with hc | hc
      · rcases List.mem_append.1 hc with hc | hc
        · exact hdigits c hc
        · exact hzeros hc
      · split at hc
        · rcases List.mem_cons.1 hc with rfl | hc
          · decide
          · exact List.mem_singleton.1 hc ▸ by decide
        · exact absurd hc List.not_mem_nil
    · rw [if_neg hshort] at hc
      simp only [List.mem_append, List.mem_cons] at hc
      rcases hc with hc | rfl | hc
      · exact hdigits c (List.mem_of_mem_take hc)
      · decide
      · exact hdigits c (List.mem_of_mem_drop hc)

/-- A number with an exponent is plain. -/
theorem plain_scientific {digits : List Char} (hdigits : ∀ c ∈ digits, Plain c) (e : Int) :
    ∀ c ∈ scientific digits e, Plain c := by
  intro c hc
  simp only [scientific, List.mem_append, List.mem_cons] at hc
  rcases hc with (hc | hc) | rfl | rfl | hc
  · exact hdigits c (List.mem_of_mem_take hc)
  · split at hc
    · exact absurd hc List.not_mem_nil
    · rcases List.mem_cons.1 hc with rfl | hc
      · decide
      · exact hdigits c (List.mem_of_mem_drop hc)
  · decide
  · split <;> decide
  · exact plain_toDigits hc

theorem plain_decimal (layout : NumberLayout) (d : Decimal) : ∀ c ∈ layout.decimal d, Plain c := by
  rw [decimal]
  split
  · exact layout.plain_fixed (fun _ => plain_toDigits) _
  · exact plain_scientific (fun _ => plain_toDigits) _

theorem decimal_ne_nil (layout : NumberLayout) (d : Decimal) : layout.decimal d ≠ [] := by
  have hdigits : Nat.toDigits 10 d.coefficient ≠ [] := Nat.toDigits_ne_nil
  rw [decimal]
  split
  · rw [fixed]
    by_cases hneg : d.exponent + (Nat.toDigits 10 d.coefficient).length - 1 < 0
    · rw [if_pos hneg]
      exact List.cons_ne_nil _ _
    rw [if_neg hneg, ne_eq, ite_eq_iff]
    rintro (⟨-, hnil⟩ | ⟨-, hnil⟩)
    · exact List.append_ne_nil_of_left_ne_nil (List.append_ne_nil_of_left_ne_nil hdigits _) _ hnil
    · exact absurd hnil (List.append_ne_nil_of_right_ne_nil _ (List.cons_ne_nil _ _))
  · exact List.append_ne_nil_of_right_ne_nil _ (List.cons_ne_nil _ _)

/-- **Numbers are written in plain characters.** -/
theorem plain_write (layout : NumberLayout) {value : Binary64} (h : value.isFinite = true) :
    ∀ c ∈ layout.write value, Plain c := by
  cases value with
  | nan => exact nomatch h
  | infinite negative => exact nomatch h
  | finite negative units representable =>
    intro c hc
    rw [write] at hc
    rcases List.mem_append.1 hc with hc | hc
    · cases negative with
      | true => exact List.mem_singleton.1 hc ▸ by decide
      | false => exact absurd hc List.not_mem_nil
    · exact layout.plain_decimal _ c hc

end NumberLayout

namespace Json

/-- The text of a JSON number is closed. -/
theorem closed_numberText (value : JsonNumber) : Closed (numberText value).toList := by
  refine closed_of_plain fun c hc => ?_
  cases value with
  | integer value inRange =>
    rw [numberText, String.toList_ofList] at hc
    rcases List.mem_append.1 hc with hc | hc
    · split at hc
      · exact List.mem_singleton.1 hc ▸ by decide
      · exact absurd hc List.not_mem_nil
    · exact plain_toDigits hc
  | real value isFinite =>
    rw [numberText, String.toList_ofList] at hc
    exact numberLayout.plain_write isFinite c hc

theorem numberText_ne_nil (value : JsonNumber) : (numberText value).toList ≠ [] := by
  cases value with
  | integer value inRange =>
    rw [numberText, String.toList_ofList]
    simp [Nat.toDigits_ne_nil]
  | real value isFinite =>
    rw [numberText, String.toList_ofList]
    cases value with
    | nan => exact nomatch isFinite
    | infinite negative => exact nomatch isFinite
    | finite negative units representable =>
      rw [NumberLayout.write]
      simp [NumberLayout.decimal_ne_nil]

/-! ### Strings -/

theorem step_hexDigit {n : Nat} (h : n < 16) : QuoteState.inside.step (hexDigit n) = .inside := by
  have hall : ∀ k : Fin 16, QuoteState.inside.step (hexDigit k) = .inside := by decide
  exact hall ⟨n, h⟩

/-- An escaped character does not leave the string. -/
theorem after_escape (c : Char) : QuoteState.inside.after (escape c) = .inside := by
  fun_cases escape c with
  | case1 | case2 | case3 | case4 | case5 | case6 | case7 => rfl
  | case8 c hquote hslash _ _ _ _ _ hcontrol =>
    have hmarks : QuoteState.inside.after ['\\', 'u', '0', '0'] = .inside := rfl
    have hhigh : c.toNat / 16 < 16 := by omega
    have hlow : c.toNat % 16 < 16 := by omega
    change (QuoteState.inside.after ['\\', 'u', '0', '0']).after [_, _] = .inside
    rw [hmarks, QuoteState.after_cons, step_hexDigit hhigh, QuoteState.after_cons,
      step_hexDigit hlow, QuoteState.after_nil]
  | case9 c hquote hslash _ _ _ _ _ hcontrol =>
    have hnul : c ≠ '\x00' := by
      rintro rfl
      exact hcontrol (by decide)
    rw [QuoteState.after_cons, QuoteState.step, if_neg hquote, if_neg hslash, if_neg hnul,
      QuoteState.after_nil]

/-- **A quoted text is closed**, whatever it says. -/
theorem closed_quote (text : String) : Closed (quote text).toList := by
  have hbody (body : List Char) : QuoteState.inside.after (body.flatMap escape) = .inside := by
    induction body with
    | nil => rfl
    | cons c rest ih => rw [List.flatMap_cons, QuoteState.after_append, after_escape, ih]
  rw [quote, String.toList_ofList, Closed, QuoteState.after_cons, QuoteState.after_append]
  change (QuoteState.inside.after (text.toList.flatMap escape)).after ['"'] = .outside
  rw [hbody]
  rfl

/-! ### Values -/

mutual

/-- **The text of a value is closed.** -/
theorem closed_toText (value : Json) : Closed value.toText.toList := by
  cases value with
  | null => exact closed_of_all (by rw [toText]; decide)
  | bool value => cases value <;> exact closed_of_all (by rw [toText]; decide)
  | number value =>
    rw [toText]
    exact closed_numberText value
  | string text =>
    rw [toText]
    exact closed_quote text
  | array items =>
    rw [toText, String.toList_append, String.toList_append]
    exact ((closed_of_all (by decide)).append (closed_itemsText items)).append
      (closed_of_all (by decide))
  | object fields =>
    rw [toText, String.toList_append, String.toList_append]
    exact ((closed_of_all (by decide)).append (closed_fieldsText fields)).append
      (closed_of_all (by decide))

theorem closed_itemsText (items : List Json) : Closed (itemsText items).toList := by
  have hcomma : Closed ",".toList := closed_of_all (by decide)
  match items with
  | [] =>
    rw [itemsText]
    exact closed_nil
  | [item] =>
    rw [itemsText]
    exact closed_toText item
  | item :: next :: rest =>
    rw [itemsText, String.toList_append, String.toList_append]
    · exact ((closed_toText item).append hcomma).append (closed_itemsText (next :: rest))
    · exact nofun

theorem closed_fieldsText (fields : List (String × Json)) : Closed (fieldsText fields).toList := by
  have hcolon : Closed ":".toList := closed_of_all (by decide)
  have hcomma : Closed ",".toList := closed_of_all (by decide)
  match fields with
  | [] =>
    rw [fieldsText]
    exact closed_nil
  | [(key, value)] =>
    rw [fieldsText, String.toList_append, String.toList_append]
    exact ((closed_quote key).append hcolon).append (closed_toText value)
  | (key, value) :: next :: rest =>
    rw [fieldsText, String.toList_append, String.toList_append, String.toList_append,
      String.toList_append]
    · exact ((((closed_quote key).append hcolon).append (closed_toText value)).append hcomma).append
        (closed_fieldsText (next :: rest))
    · exact nofun

end

/-- No value has an empty text. -/
theorem toText_ne_nil (value : Json) : value.toText.toList ≠ [] := by
  cases value with
  | null => exact of_decide_eq_true (by rw [toText]; decide)
  | bool value => cases value <;> exact of_decide_eq_true (by rw [toText]; decide)
  | number value =>
    rw [toText]
    exact numberText_ne_nil value
  | string text =>
    rw [toText, quote, String.toList_ofList]
    exact List.cons_ne_nil _ _
  | array items =>
    rw [toText, String.toList_append, String.toList_append]
    exact List.append_ne_nil_of_right_ne_nil _ (by decide)
  | object fields =>
    rw [toText, String.toList_append, String.toList_append]
    exact List.append_ne_nil_of_right_ne_nil _ (by decide)

/-- **A text is cut in one place only** into a front, an equals sign and the text of a value. -/
theorem cut_unique {front front' : List Char} {value value' : Json}
    (h : front ++ '=' :: value.toText.toList = front' ++ '=' :: value'.toText.toList) :
    front = front' ∧ value.toText = value'.toText := by
  rcases cut_cases h with ⟨hfront, htext⟩ | ⟨between, -, htext⟩ | ⟨between, -, htext⟩
  · exact ⟨hfront, String.toList_inj.1 htext⟩
  · exact absurd htext ((closed_toText value).not_cut (closed_toText value') between)
  · exact absurd htext ((closed_toText value').not_cut (closed_toText value) between)

end Json

end ChartSchema
