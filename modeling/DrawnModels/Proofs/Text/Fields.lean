import DrawnModels.Proofs.Text.Grammar

/-!
# Fields

The fields of a text are its trimmed pieces, less the empty ones. A separator anywhere divides the
fields, and white space at the ends of a text changes none of them. So texts that are fields already
are read back from a text in which they stand between separators, whatever white space there is
around these.
-/

namespace DrawnModels

namespace Text

variable {separator : Char → Bool} {s t : List Char} {c : Char}

/-! ### Trimming -/

theorem trimChars_cons (hc : isBlank c = true) : trimChars (c :: s) = trimChars s := by
  rw [trimChars, trimChars, List.dropWhile_cons_of_pos hc]

theorem trimChars_concat (hc : isBlank c = true) : trimChars (s ++ [c]) = trimChars s := by
  rw [trimChars, trimChars, List.dropWhile_append]
  split
  · rename_i hempty
    rw [List.isEmpty_iff.mp hempty, List.dropWhile_cons_of_pos hc]
    rfl
  · rw [List.reverse_append, List.reverse_singleton, List.singleton_append,
      List.dropWhile_cons_of_pos hc]

theorem length_trimChars_le (s : List Char) : (trimChars s).length ≤ s.length := by
  rw [trimChars, List.length_reverse]
  calc
    _ ≤ (s.dropWhile isBlank).reverse.length := List.length_dropWhile_le _ _
    _ = (s.dropWhile isBlank).length := List.length_reverse
    _ ≤ s.length := List.length_dropWhile_le _ _

theorem trimChars_eq_self_iff :
    trimChars s = s ↔
      (∀ c ∈ s.head?, isBlank c = false) ∧ ∀ c ∈ s.getLast?, isBlank c = false := by
  constructor
  · intro h
    refine ⟨fun c hc => ?_, fun c hc => ?_⟩
    · obtain ⟨rest, rfl⟩ := List.head?_eq_some_iff.mp hc
      rw [← Bool.not_eq_true]
      intro hblank
      have hle := length_trimChars_le rest
      rw [← trimChars_cons hblank, h, List.length_cons] at hle
      exact absurd hle (Nat.not_succ_le_self _)
    · obtain ⟨rest, rfl⟩ := List.getLast?_eq_some_iff.mp hc
      rw [← Bool.not_eq_true]
      intro hblank
      have hle := length_trimChars_le rest
      rw [← trimChars_concat hblank, h, List.length_append, List.length_singleton] at hle
      exact absurd hle (Nat.not_succ_le_self _)
  · rintro ⟨hfirst, hlast⟩
    have hkeep : ∀ l : List Char, (∀ c ∈ l.head?, isBlank c = false) →
        l.dropWhile isBlank = l := by
      intro l hl
      cases l with
      | nil => rfl
      | cons c l => exact List.dropWhile_cons_of_neg (by simp [hl c rfl])
    rw [trimChars, hkeep s hfirst, hkeep s.reverse (by simpa using hlast), List.reverse_reverse]

theorem trimChars_append_append {middle : List Char} (hs : trimChars s = s) (hs_ne : s ≠ [])
    (ht : trimChars t = t) (ht_ne : t ≠ []) :
    trimChars (s ++ middle ++ t) = s ++ middle ++ t := by
  obtain ⟨hfirst, -⟩ := trimChars_eq_self_iff.mp hs
  obtain ⟨-, hlast⟩ := trimChars_eq_self_iff.mp ht
  refine trimChars_eq_self_iff.mpr ⟨fun c hc => hfirst c ?_, fun c hc => hlast c ?_⟩
  · obtain ⟨a, s, rfl⟩ := List.exists_cons_of_ne_nil hs_ne
    exact hc
  · rwa [List.getLast?_append, List.getLast?_eq_some_getLast ht_ne, Option.some_or,
      ← List.getLast?_eq_some_getLast ht_ne] at hc

theorem IsNumeral.trimChars_eq {n : Nat} (h : IsNumeral s n) : trimChars s = s := by
  refine trimChars_eq_self_iff.mpr ⟨fun c hc => ?_, fun c hc => ?_⟩
  · exact isBlank_of_isDigit (h.isDigit c (List.mem_of_mem_head? hc))
  · exact isBlank_of_isDigit (h.isDigit c (List.mem_of_mem_getLast? hc))

/-! ### Fields of a text -/

/-- The pieces of a text, each trimmed, without the empty ones. -/
def fields (separator : Char → Bool) (s : List Char) : List (List Char) :=
  ((s.splitOnP separator).map trimChars).filter (· ≠ [])

theorem filter_trimmedPieces (separator : Char → Bool) (s : String) :
    (trimmedPieces separator s).filter (· ≠ "") = (fields separator s.toList).map .ofList := by
  simp [trimmedPieces, pieces, fields, trim, List.filter_map, Function.comp_def]

theorem fields_nil : fields separator [] = [] := by
  simp [fields, trimChars]

theorem fields_append_cons (hc : separator c = true) :
    fields separator (s ++ c :: t) = fields separator s ++ fields separator t := by
  simp only [fields, List.splitOnP_append_cons s t hc, List.map_append, List.filter_append]

theorem fields_of_forall (h : ∀ c ∈ s, separator c = false) :
    fields separator s = [trimChars s].filter (· ≠ []) := by
  rw [fields, List.splitOnP_eq_singleton h, List.map_singleton]

theorem fields_cons (hc : isBlank c = true) :
    fields separator (c :: s) = fields separator s := by
  cases hsep : separator c with
  | true =>
    rw [← List.nil_append (c :: s), fields_append_cons hsep, fields_nil, List.nil_append]
  | false =>
    obtain ⟨piece, pieces, hs⟩ := List.exists_cons_of_ne_nil (List.splitOnP_ne_nil separator s)
    simp [fields, List.splitOnP_cons_eq_if_modifyHead, hsep, hs, trimChars_cons hc]

theorem fields_blank_append {blank : List Char} (h : ∀ c ∈ blank, isBlank c = true) :
    fields separator (blank ++ s) = fields separator s := by
  induction blank with
  | nil => rfl
  | cons c blank ih =>
    obtain ⟨hc, hblank⟩ := List.forall_mem_cons.mp h
    rw [List.cons_append, fields_cons hc, ih hblank]

theorem fields_blank {blank : List Char} (h : ∀ c ∈ blank, isBlank c = true) :
    fields separator blank = [] := by
  rw [← List.append_nil blank, fields_blank_append h, fields_nil]

theorem fields_append_blank {blank : List Char} (hs : ∀ c ∈ s, separator c = false)
    (h : ∀ c ∈ blank, isBlank c = true) :
    fields separator (s ++ blank) = fields separator s := by
  induction blank generalizing s with
  | nil => rw [List.append_nil]
  | cons c blank ih =>
    obtain ⟨hc, hblank⟩ := List.forall_mem_cons.mp h
    cases hsep : separator c with
    | true => rw [fields_append_cons hsep, fields_blank hblank, List.append_nil]
    | false =>
      have hs' : ∀ d ∈ s ++ [c], separator d = false := by
        simpa [or_imp, forall_and, hsep] using hs
      rw [← List.singleton_append, ← List.append_assoc, ih hs' hblank, fields_of_forall hs',
        fields_of_forall hs, trimChars_concat hc]

/-! ### Joining -/

/-- A text that is its only field. -/
structure IsField (separator : Char → Bool) (s : List Char) : Prop where
  ne_nil : s ≠ []
  trim_eq : trimChars s = s
  not_separator : ∀ c ∈ s, separator c = false

theorem IsField.fields_eq (h : IsField separator s) : fields separator s = [s] := by
  rw [fields_of_forall h.not_separator, h.trim_eq]
  simp [h.ne_nil]

/-- A separator with white space around it. -/
def IsJoint (separator : Char → Bool) (joint : List Char) : Prop :=
  ∃ before sign after, joint = before ++ sign :: after ∧ separator sign = true ∧
    (∀ c ∈ before, isBlank c = true) ∧ ∀ c ∈ after, isBlank c = true

/-- Texts that are joined are read back as the fields. -/
theorem fields_intercalate {joint : List Char} {texts : List (List Char)}
    (hjoint : IsJoint separator joint) (h : ∀ s ∈ texts, IsField separator s) :
    fields separator (joint.intercalate texts) = texts := by
  obtain ⟨before, sign, after, rfl, hsign, hbefore, hafter⟩ := hjoint
  induction texts with
  | nil => exact fields_nil
  | cons s texts ih =>
    obtain ⟨hs, htexts⟩ := List.forall_mem_cons.mp h
    cases texts with
    | nil => rw [List.intercalate_singleton, hs.fields_eq]
    | cons s' texts =>
      rw [List.intercalate_cons_cons, ← List.append_assoc, List.append_assoc, List.cons_append,
        fields_append_cons hsign, fields_append_blank hs.not_separator hbefore, hs.fields_eq,
        fields_blank_append hafter, ih htexts, List.singleton_append]

end Text

end DrawnModels
