import DrawnModels.Text.Decimal
import DrawnModels.Text.Pieces
import Mathlib.Data.List.TakeDrop
import Mathlib.Data.List.TakeWhile

/-!
# Pieces and numerals

What cutting and reading do, said without saying how: the pieces of a text with separators in
between are the text, and no separator stands within a piece; a count is a numeral, with a `+` in
front or not.
-/

namespace DrawnModels

namespace Text

variable {separator : Char → Bool} {s : String}

/-! ### Pieces -/

/-- A text consists of pieces without separators and one separator between each piece and the
next. -/
inductive Cut (separator : Char → Bool) : List Char → List (List Char) → Prop
  | last {piece : List Char} (h : ∀ c ∈ piece, separator c = false) :
      Cut separator piece [piece]
  | next {piece rest : List Char} {c : Char} {pieces : List (List Char)}
      (h : ∀ c ∈ piece, separator c = false) (hc : separator c = true)
      (hrest : Cut separator rest pieces) : Cut separator (piece ++ c :: rest) (piece :: pieces)

/-- A text can be cut in one way only. -/
theorem Cut.eq_splitOnP {text : List Char} {pieces : List (List Char)}
    (h : Cut separator text pieces) : pieces = text.splitOnP separator := by
  induction h with
  | last h => rw [List.splitOnP_eq_singleton h]
  | next h hc _ ih => rw [List.splitOnP_append_cons_of_forall_mem h _ hc, ih]

theorem Cut.cons {text : List Char} {pieces : List (List Char)} {c : Char}
    (h : Cut separator text pieces) (hc : separator c = false) :
    Cut separator (c :: text) (pieces.modifyHead (c :: ·)) := by
  cases h with
  | last h => exact .last (List.forall_mem_cons.mpr ⟨hc, h⟩)
  | next h hsep hrest => exact .next (List.forall_mem_cons.mpr ⟨hc, h⟩) hsep hrest

theorem cut_splitOnP (separator : Char → Bool) (text : List Char) :
    Cut separator text (text.splitOnP separator) := by
  induction text with
  | nil => exact .last (by simp)
  | cons c text ih =>
    rw [List.splitOnP_cons_eq_if_modifyHead]
    cases hc : separator c with
    | true => exact .next (List.forall_mem_nil _) hc ih
    | false => exact ih.cons hc

theorem cut_iff {text : List Char} {pieces : List (List Char)} :
    Cut separator text pieces ↔ pieces = text.splitOnP separator := by
  constructor
  · exact Cut.eq_splitOnP
  · intro h
    rw [h]
    exact cut_splitOnP separator text

theorem cut?_eq_some_iff {before after : String} :
    cut? separator s = some (before, after) ↔
      ∃ c, s.toList = before.toList ++ c :: after.toList ∧ separator c = true ∧
        ∀ d ∈ before.toList, separator d = false := by
  rw [cut?, List.span_eq_takeWhile_dropWhile]
  constructor
  · intro h
    split at h
    · cases h
    · rename_i first c rest hspan
      obtain ⟨hfirst, hrest⟩ := Prod.mk.inj hspan
      obtain ⟨rfl, rfl⟩ := Prod.mk.inj (Option.some.inj h)
      have hne : s.toList.dropWhile (!separator ·) ≠ [] := hrest ▸ List.cons_ne_nil c rest
      have hc : separator c = true := by
        simpa [hrest] using List.head_dropWhile_not (!separator ·) hne
      refine ⟨c, ?_, hc, ?_⟩
      · rw [String.toList_ofList, String.toList_ofList, ← hfirst, ← hrest,
          List.takeWhile_append_dropWhile]
      · intro d hd
        rw [String.toList_ofList, ← hfirst] at hd
        simpa using List.mem_takeWhile_imp hd
  · rintro ⟨c, hs, hc, hbefore⟩
    have hall : ∀ d ∈ before.toList, (!separator d) = true := by simpa using hbefore
    rw [hs, List.takeWhile_append_of_pos hall, List.dropWhile_append_of_pos hall,
      List.takeWhile_cons_of_neg (by simp [hc]), List.dropWhile_cons_of_neg (by simp [hc])]
    simp

/-! ### Numerals -/

/-- Decimal digits, at least one, with their value. -/
structure IsNumeral (digits : List Char) (n : Nat) : Prop where
  ne_nil : digits ≠ []
  isDigit : ∀ c ∈ digits, c.isDigit = true
  value : Nat.ofDigitChars 10 digits 0 = n

/-- A numeral with or without a `+` in front. -/
def IsCount (s : String) (n : Nat) : Prop :=
  ∃ digits, (s.toList = digits ∨ s.toList = '+' :: digits) ∧ IsNumeral digits n

theorem digitValue?_eq_some_iff {c : Char} {d : Nat} :
    digitValue? c = some d ↔ c.isDigit = true ∧ c.toNat - '0'.toNat = d := by
  have hdigit : ('0' ≤ c ∧ c ≤ '9') ↔ c.isDigit = true := by
    simp [Char.isDigit, Char.le_def]
  unfold digitValue?
  split
  · rename_i h
    simp [hdigit.mp h]
  · rename_i h
    simp [mt hdigit.mpr h]

theorem readDigits_eq_some_iff {digits : List Char} {value n : Nat} :
    readDigits value digits = some n ↔
      (∀ c ∈ digits, c.isDigit = true) ∧ Nat.ofDigitChars 10 digits value = n := by
  induction digits generalizing value with
  | nil => simp [readDigits]
  | cons c digits ih =>
    rw [readDigits, List.forall_mem_cons, Nat.ofDigitChars_cons]
    cases hc : digitValue? c with
    | none =>
      have hnot : ¬ c.isDigit = true := fun h => by
        rw [digitValue?_eq_some_iff.mpr ⟨h, rfl⟩] at hc
        cases hc
      simp [hnot]
    | some d =>
      obtain ⟨hdigit, rfl⟩ := digitValue?_eq_some_iff.mp hc
      rw [ih, and_iff_right hdigit]

theorem readNumeral?_eq_some_iff {digits : List Char} {n : Nat} :
    readNumeral? digits = some n ↔ IsNumeral digits n := by
  cases digits with
  | nil =>
    constructor
    · intro h
      cases h
    · intro h
      exact absurd rfl h.ne_nil
  | cons c digits =>
    rw [readNumeral?, readDigits_eq_some_iff]
    constructor
    · intro h
      exact ⟨List.cons_ne_nil c digits, h.1, h.2⟩
    · intro h
      exact ⟨h.isDigit, h.value⟩

theorem readCount?_eq_some_iff {n : Nat} : readCount? s = some n ↔ IsCount s n := by
  have hsign : ∀ digits, ¬ IsNumeral ('+' :: digits) n := by
    intro digits h
    exact absurd (h.isDigit '+' List.mem_cons_self) (by decide)
  unfold readCount? IsCount
  split
  · rename_i rest hs
    rw [readNumeral?_eq_some_iff, hs]
    constructor
    · intro h
      exact ⟨rest, Or.inr rfl, h⟩
    · rintro ⟨digits, rfl | hdigits, h⟩
      · exact absurd h (hsign rest)
      · cases hdigits
        exact h
  · rename_i hplain
    rw [readNumeral?_eq_some_iff]
    constructor
    · intro h
      exact ⟨s.toList, Or.inl rfl, h⟩
    · rintro ⟨digits, rfl | hdigits, h⟩
      · exact h
      · exact absurd hdigits (hplain digits)

/-- A number is the value of its decimal digits. -/
theorem isNumeral_toDigits (n : Nat) : IsNumeral (Nat.toDigits 10 n) n where
  ne_nil := Nat.toDigits_ne_nil
  isDigit _ hc := Nat.isDigit_of_mem_toDigits (by decide) (by decide) hc
  value := Nat.ofDigitChars_toDigits (by decide) (by decide)

theorem toList_toString (n : Nat) : (toString n).toList = Nat.toDigits 10 n :=
  Nat.toList_repr

theorem isCount_toString (n : Nat) : IsCount (toString n) n :=
  ⟨Nat.toDigits 10 n, Or.inl (toList_toString n), isNumeral_toDigits n⟩

theorem isBlank_of_isDigit {c : Char} (h : c.isDigit = true) : isBlank c = false := by
  have hrange : 48 ≤ c.toNat ∧ c.toNat ≤ 57 := by
    simpa [Char.isDigit, UInt32.le_iff_toNat_le] using h
  simp only [isBlank, Ranges.contains, Ranges.includes, blankRanges, List.any_cons, List.any_nil,
    Bool.or_false, Bool.or_eq_false_iff, Bool.and_eq_false_iff, decide_eq_false_iff_not]
  omega

end Text

end DrawnModels
