import DrawnModels.Dot.Digraph
import Mathlib.Algebra.Group.Nat.Even
import Mathlib.Data.List.Induction

/-!
# Strings of the DOT language

A string goes on until the first quote that is not part of a pair. A backslash forms a pair with a
backslash or a quote that follows it.

In an identifier every backslash and every quote has a backslash put in front of it, so the string
ends where it was meant to end. In a label this is done to quotes only. There it depends on how
many backslashes stand before each quote and at the end.
-/

namespace DrawnModels

namespace Dot

/-- How many characters a string has up to the quote that closes it, if there is one. -/
def closing? : List Char → Option Nat
  | [] => none
  | '"' :: _ => some 0
  | '\\' :: '\\' :: rest => (closing? rest).map (· + 2)
  | '\\' :: '"' :: rest => (closing? rest).map (· + 2)
  | _ :: rest => (closing? rest).map (· + 1)

/-- The string that has the given characters between its quotes, before the given ones, is closed by
the quote that was written to close it. -/
def ClosesBefore (inside rest : List Char) : Prop :=
  closing? (inside ++ '"' :: rest) = some inside.length

def insideIdentifier (s : List Char) : List Char :=
  s.flatMap fun c => if c = '\\' ∨ c = '"' then ['\\', c] else [c]

def insideLabel (s : List Char) : List Char :=
  s.flatMap fun c => if c = '"' then ['\\', c] else [c]

theorem toList_identifier (s : String) :
    (identifier s).toList = '"' :: insideIdentifier s.toList ++ ['"'] :=
  String.toList_ofList

theorem toList_escapeQuotes (s : String) : (escapeQuotes s).toList = insideLabel s.toList :=
  String.toList_ofList

/-! ### Scanning -/

variable {c : Char} {s rest : List Char}

theorem closing?_quote (rest : List Char) : closing? ('"' :: rest) = some 0 := rfl

theorem closing?_pair (h : c = '\\' ∨ c = '"') (rest : List Char) :
    closing? ('\\' :: c :: rest) = (closing? rest).map (· + 2) := by
  rcases h with rfl | rfl <;> rfl

theorem closing?_other (hb : c ≠ '\\') (hq : c ≠ '"') (rest : List Char) :
    closing? (c :: rest) = (closing? rest).map (· + 1) := by
  rw [closing?]
  · exact hq
  · intro _ h _
    exact hb h
  · intro _ h _
    exact hb h

theorem closing?_lone (hb : c ≠ '\\') (hq : c ≠ '"') (rest : List Char) :
    closing? ('\\' :: c :: rest) = (closing? (c :: rest)).map (· + 1) := by
  rw [closing?]
  · decide
  · intro _ _ h
    exact hb (List.cons.inj h).1
  · intro _ _ h
    exact hq (List.cons.inj h).1

theorem map_add_eq_some_iff {o : Option Nat} {k n : Nat} :
    o.map (· + k) = some (n + k) ↔ o = some n := by
  simp

theorem insideIdentifier_cons_special (h : c = '\\' ∨ c = '"') (s : List Char) :
    insideIdentifier (c :: s) = '\\' :: c :: insideIdentifier s := by
  rw [insideIdentifier, List.flatMap_cons, if_pos h]
  rfl

theorem insideIdentifier_cons_other (h : ¬ (c = '\\' ∨ c = '"')) (s : List Char) :
    insideIdentifier (c :: s) = c :: insideIdentifier s := by
  rw [insideIdentifier, List.flatMap_cons, if_neg h]
  rfl

/-- An identifier is closed by its own quote, whatever comes next. -/
theorem closesBefore_insideIdentifier (s rest : List Char) :
    ClosesBefore (insideIdentifier s) rest := by
  unfold ClosesBefore
  induction s with
  | nil => exact closing?_quote rest
  | cons c s ih =>
    by_cases hc : c = '\\' ∨ c = '"'
    · rw [insideIdentifier_cons_special hc, List.cons_append, List.cons_append, closing?_pair hc, ih]
      rfl
    · rw [insideIdentifier_cons_other hc, List.cons_append,
        closing?_other (fun h => hc (Or.inl h)) (fun h => hc (Or.inr h)), ih]
      rfl

/-! ### Labels -/

def backslashesAtEnd (s : List Char) : Nat :=
  (s.reverse.takeWhile (· = '\\')).length

/-- Every quote in a text stands behind an even number of backslashes. -/
def EvenBeforeQuotes (s : List Char) : Prop :=
  ∀ before after, s = before ++ '"' :: after → Even (backslashesAtEnd before)

/-- Whether a backslash is left without a partner after one more character of a label. The backslash
that is put in front of a quote must not become the partner of another one. -/
def pass? (alone : Bool) (c : Char) : Option Bool :=
  if c = '\\' then some !alone else if c = '"' ∧ alone = true then none else some false

/-- Whether a backslash is left without a partner after a label, if no quote in it is lost. -/
def passAll? (alone : Bool) (s : List Char) : Option Bool :=
  s.foldlM pass? alone

theorem passAll?_cons (alone : Bool) (c : Char) (s : List Char) :
    passAll? alone (c :: s) = (pass? alone c).bind (passAll? · s) :=
  List.foldlM_cons

theorem passAll?_singleton (alone : Bool) (c : Char) : passAll? alone [c] = pass? alone c := by
  rw [passAll?_cons]
  exact Option.bind_fun_some _

theorem passAll?_append (alone : Bool) (s s' : List Char) :
    passAll? alone (s ++ s') = (passAll? alone s).bind (passAll? · s') :=
  List.foldlM_append

theorem pass?_lost : pass? true '"' = none := rfl

theorem insideLabel_cons_quote (s : List Char) :
    insideLabel ('"' :: s) = '\\' :: '"' :: insideLabel s := rfl

theorem insideLabel_cons_other (h : c ≠ '"') (s : List Char) :
    insideLabel (c :: s) = c :: insideLabel s := by
  rw [insideLabel, List.flatMap_cons, if_neg h]
  rfl

theorem pass?_of_ne (hb : c ≠ '\\') (hq : c ≠ '"') (alone : Bool) : pass? alone c = some false := by
  rw [pass?, if_neg hb, if_neg fun h => hq h.1]

/-- A label is closed by its own quote if no quote in it is lost and no backslash is left at the end.
The second part is about a label behind one more backslash. -/
theorem closing?_insideLabel_iff (s rest : List Char) :
    (ClosesBefore (insideLabel s) rest ↔ passAll? false s = some false) ∧
      (closing? ('\\' :: (insideLabel s ++ '"' :: rest)) =
          some ((insideLabel s).length + 1) ↔ passAll? true s = some false) := by
  unfold ClosesBefore
  induction s with
  | nil =>
    refine ⟨iff_of_true (closing?_quote rest) rfl, iff_of_false ?_ (by decide)⟩
    -- The closing quote is taken for a part of the label.
    intro h
    rw [insideLabel, List.flatMap_nil, List.nil_append, closing?_pair (Or.inr rfl)] at h
    obtain ⟨n, -, hn⟩ := Option.map_eq_some_iff.mp h
    simp at hn
  | cons c s ih =>
    obtain ⟨hfalse, htrue⟩ := ih
    rw [passAll?_cons, passAll?_cons]
    by_cases hb : c = '\\'
    · subst hb
      rw [insideLabel_cons_other (by decide), List.cons_append, List.length_cons]
      refine ⟨htrue, ?_⟩
      rw [closing?_pair (Or.inl rfl), Nat.add_assoc, map_add_eq_some_iff]
      exact hfalse
    · by_cases hq : c = '"'
      · subst hq
        rw [insideLabel_cons_quote, List.cons_append, List.cons_append, List.length_cons,
          List.length_cons, Nat.add_assoc]
        constructor
        · rw [closing?_pair (Or.inr rfl), map_add_eq_some_iff]
          exact hfalse
        · -- The quote is not escaped any more, so the string ends there.
          rw [closing?_pair (Or.inl rfl), closing?_quote, pass?_lost, Option.bind_none]
          exact iff_of_false (by simp) nofun
      · rw [insideLabel_cons_other hq, List.cons_append, List.length_cons, pass?_of_ne hb hq,
          pass?_of_ne hb hq, Option.bind_some]
        constructor
        · rw [closing?_other hb hq, map_add_eq_some_iff]
          exact hfalse
        · rw [closing?_lone hb hq, map_add_eq_some_iff, closing?_other hb hq, map_add_eq_some_iff]
          exact hfalse

theorem backslashesAtEnd_concat (s : List Char) (c : Char) :
    backslashesAtEnd (s ++ [c]) = if c = '\\' then backslashesAtEnd s + 1 else 0 := by
  rw [backslashesAtEnd, List.reverse_append, List.reverse_singleton, List.singleton_append,
    List.takeWhile_cons]
  by_cases hc : c = '\\' <;> simp [hc, backslashesAtEnd]

theorem eq_true_iff_of_passAll? {alone : Bool} (h : passAll? false s = some alone) :
    alone = true ↔ ¬ Even (backslashesAtEnd s) := by
  induction s using List.reverseRec generalizing alone with
  | nil =>
    cases h
    decide
  | append_singleton s c ih =>
    rw [passAll?_append] at h
    obtain ⟨before, hbefore, hc⟩ := Option.bind_eq_some_iff.mp h
    rw [passAll?_singleton] at hc
    rw [backslashesAtEnd_concat]
    by_cases hb : c = '\\'
    · rw [pass?, if_pos hb, Option.some.injEq] at hc
      rw [if_pos hb, ← hc, Bool.not_eq_true', ← Bool.not_eq_true, ih hbefore, Nat.even_add_one]
    · have hfalse : alone = false := by
        rw [pass?, if_neg hb] at hc
        split at hc
        · cases hc
        · exact (Option.some.inj hc).symm
      simp [hb, hfalse]

/-- No quote is lost if each stands behind an even number of backslashes. -/
theorem isSome_passAll?_iff : (passAll? false s).isSome = true ↔ EvenBeforeQuotes s := by
  constructor
  · rintro h before after rfl
    obtain ⟨alone, halone⟩ := Option.isSome_iff_exists.mp h
    rw [passAll?_append] at halone
    obtain ⟨waiting, hbefore, hafter⟩ := Option.bind_eq_some_iff.mp halone
    by_contra hodd
    rw [(eq_true_iff_of_passAll? hbefore).mpr hodd, passAll?_cons, pass?_lost] at hafter
    cases hafter
  · intro h
    induction s using List.reverseRec with
    | nil => rfl
    | append_singleton s c ih =>
      have hs : EvenBeforeQuotes s := by
        rintro before after rfl
        exact h before (after ++ [c]) (by simp)
      obtain ⟨alone, halone⟩ := Option.isSome_iff_exists.mp (ih hs)
      rw [passAll?_append, halone, Option.bind_some, passAll?_singleton]
      have hlost : ¬ (c = '"' ∧ alone = true) := by
        rintro ⟨rfl, htrue⟩
        exact (eq_true_iff_of_passAll? halone).mp htrue (h s [] rfl)
      rw [pass?, if_neg hlost]
      split <;> rfl

theorem passAll?_eq_some_false_iff :
    passAll? false s = some false ↔ EvenBeforeQuotes s ∧ Even (backslashesAtEnd s) := by
  rw [← isSome_passAll?_iff]
  constructor
  · intro h
    have heven := mt (eq_true_iff_of_passAll? h).mpr Bool.false_ne_true
    exact ⟨h ▸ rfl, not_not.mp heven⟩
  · rintro ⟨hsome, heven⟩
    obtain ⟨alone, halone⟩ := Option.isSome_iff_exists.mp hsome
    have hfalse := mt (eq_true_iff_of_passAll? halone).mp (not_not.mpr heven)
    rw [halone, Bool.eq_false_iff.mpr hfalse]

/-- A label is closed by its own quote if the number of backslashes is even before each quote in it
and at its end. -/
theorem closesBefore_insideLabel_iff (s rest : List Char) :
    ClosesBefore (insideLabel s) rest ↔ EvenBeforeQuotes s ∧ Even (backslashesAtEnd s) :=
  (closing?_insideLabel_iff s rest).1.trans passAll?_eq_some_false_iff

end Dot

end DrawnModels
