import DrawnModels.Proofs.Collection.Classes
import DrawnModels.Proofs.Petri.MarkingText
import DrawnModels.Proofs.Text.Fields

/-!
# Markings that are printed and read back

A marking is printed as the list of its places with their counts. If there is no ω among them, and
the names can be told from the signs around them, then this is the text of an initial marking, and
that initial marking gives every place its count.
-/

namespace DrawnModels

namespace InitialMarking

variable {cap : Capacity}

/-- A name that can be told from what stands around it: there is something to it, no white space is
at its ends, and it contains no sign that has a meaning between names and counts. -/
structure IsPlainName (name : String) : Prop where
  ne_empty : name ≠ ""
  trim_eq : Text.trim name = name
  no_sign : ∀ c ∈ name.toList, c ∉ [',', ';', '\n', '=', ':']

instance (name : String) : Decidable (IsPlainName name) :=
  decidable_of_iff (name ≠ "" ∧ Text.trim name = name ∧
      name.toList.all (· ∉ [',', ';', '\n', '=', ':']) = true)
    ⟨fun h => ⟨h.1, h.2.1, by simpa using h.2.2⟩,
      fun h => ⟨h.ne_empty, h.trim_eq, by simpa using h.no_sign⟩⟩

/-- A comma, a semicolon or a line break with any white space around it. -/
def IsSpacedSeparator (separator : String) : Prop :=
  ∃ before sign after, separator.toList = before ++ sign :: after ∧ sign ∈ [',', ';', '\n'] ∧
    (∀ c ∈ before, Text.isBlank c = true) ∧ ∀ c ∈ after, Text.isBlank c = true

theorem IsPlainName.not_separator {name : String} (h : IsPlainName name) :
    ∀ c ∈ name.toList, isSeparator c = false := by
  intro c hc
  have hsign := h.no_sign c hc
  simp only [List.mem_cons, List.not_mem_nil, or_false, not_or] at hsign
  simp [isSeparator, hsign]

theorem IsPlainName.not_assignment {name : String} (h : IsPlainName name) :
    ∀ c ∈ name.toList, isAssignment c = false := by
  intro c hc
  have hsign := h.no_sign c hc
  simp only [List.mem_cons, List.not_mem_nil, or_false, not_or] at hsign
  simp [isAssignment, hsign]

theorem IsSpacedSeparator.isJoint {separator : String} (h : IsSpacedSeparator separator) :
    Text.IsJoint isSeparator separator.toList := by
  obtain ⟨before, sign, after, hseparator, hsign, hblank⟩ := h
  refine ⟨before, sign, after, hseparator, ?_, hblank⟩
  simpa [isSeparator, or_assoc] using hsign

/-! ### One entry -/

def assignment (e : String × Count cap) : String :=
  e.1 ++ "=" ++ toString e.2.val

variable {e : String × Count cap}

theorem toList_assignment (e : String × Count cap) :
    (assignment e).toList = e.1.toList ++ ['='] ++ Nat.toDigits 10 e.2.val := by
  simp only [assignment, String.toList_append, Text.toList_toString]
  rfl

theorem hasParts_assignment (h : IsPlainName e.1) :
    HasParts (assignment e) e.1 (toString e.2.val) where
  exists_sign := by
    refine ⟨e.1, toString e.2.val, '=', ?_, rfl, h.not_assignment, h.trim_eq, ?_⟩
    · rw [toList_assignment, Text.toList_toString, List.append_assoc, List.singleton_append]
    · rw [Text.trim, Text.toList_toString, (Text.isNumeral_toDigits e.2.val).trimChars_eq,
        ← Text.toList_toString, String.ofList_toList]
  place_ne_empty := h.ne_empty

theorem isSeparator_of_isDigit {c : Char} (h : c.isDigit = true) : isSeparator c = false := by
  rw [← Bool.not_eq_true]
  intro hc
  simp only [isSeparator, Bool.or_eq_true, decide_eq_true_eq] at hc
  rcases hc with (rfl | rfl) | rfl <;> cases h

theorem isField_assignment (h : IsPlainName e.1) :
    Text.IsField isSeparator (assignment e).toList := by
  have hname : Text.trimChars e.1.toList = e.1.toList := by
    simpa [Text.trim] using congrArg String.toList h.trim_eq
  have hne : e.1.toList ≠ [] := by simpa using h.ne_empty
  have hnumeral := Text.isNumeral_toDigits e.2.val
  rw [toList_assignment]
  refine ⟨by simp, ?_, ?_⟩
  · exact Text.trimChars_append_append hname hne hnumeral.trimChars_eq hnumeral.ne_nil
  · intro c hc
    rcases List.mem_append.mp hc with hc | hc
    · rcases List.mem_append.mp hc with hc | hc
      · exact h.not_separator c hc
      · rw [List.mem_singleton.mp hc]
        rfl
    · exact isSeparator_of_isDigit (hnumeral.isDigit c hc)

/-! ### All entries -/

variable {pairs : List (String × Count cap)} {separator : String}

theorem entries_join (hjoint : Text.IsJoint isSeparator separator.toList)
    (h : ∀ e ∈ pairs, IsPlainName e.1) :
    entries (Text.join separator (pairs.map assignment)) = pairs.map assignment := by
  have hfields : ∀ s ∈ (pairs.map assignment).map String.toList, Text.IsField isSeparator s := by
    simp only [List.forall_mem_map]
    exact fun e he => isField_assignment (h e he)
  rw [entries, Text.filter_trimmedPieces, Text.join, String.toList_intercalate,
    Text.fields_intercalate hjoint hfields, List.map_map]
  simp [Function.comp_def]

variable {most : Nat}

theorem gives_assignment {e : String × Count (.upTo most)} (h : IsPlainName e.1) :
    Gives most (assignment e) e.1 e.2.val :=
  ⟨toString e.2.val, hasParts_assignment h, Text.isCount_toString e.2.val, e.2.allowed⟩

theorem readable_assignments {pairs : List (String × Count (.upTo most))}
    (h : ∀ e ∈ pairs, IsPlainName e.1) (hnodup : (pairs.map Prod.fst).Nodup) :
    Readable most (pairs.map assignment) where
  gives entry hentry := by
    obtain ⟨e, he, rfl⟩ := List.mem_map.mp hentry
    exact ⟨e.1, e.2.val, gives_assignment (h e he)⟩
  distinct := by
    refine List.pairwise_map.mpr ((List.pairwise_map.mp hnodup).imp_of_mem ?_)
    intro e e' he he' hne place hnames hnames'
    have hplace := (gives_assignment (h e he)).place_eq hnames
    have hplace' := (gives_assignment (h e' he')).place_eq hnames'
    exact hne (hplace.trans hplace'.symm)

/-- Entries for different places are read, and give the places their counts. -/
theorem exists_parse_join {pairs : List (String × Count (.upTo most))}
    (hjoint : Text.IsJoint isSeparator separator.toList) (h : ∀ e ∈ pairs, IsPlainName e.1)
    (hnodup : (pairs.map Prod.fst).Nodup) :
    ∃ initial, parse (.upTo most) (Text.join separator (pairs.map assignment)) = .ok initial ∧
      ∀ e ∈ pairs, initial.tokens e.1 = e.2 := by
  have hentries := entries_join hjoint h
  obtain ⟨initial, hparse⟩ := exists_parse_iff.mpr (hentries ▸ readable_assignments h hnodup)
  refine ⟨initial, hparse, fun e he => ?_⟩
  have hfound : initial.table.find? e.1 = some e.2 := by
    rw [(holds_of_parse hparse).find?_iff, hentries]
    exact ⟨assignment e, List.mem_map_of_mem he, gives_assignment (h e he)⟩
  rw [tokens, hfound]
  rfl

/-! ### Markings -/

theorem exists_counts {m : Marking cap} (h : m.hasOmega = false) :
    ∃ counts : List (Count cap), m.counts = counts.map .finite := by
  obtain ⟨l⟩ := m
  induction l with
  | nil => exact ⟨[], rfl⟩
  | cons k l ih =>
    rw [Marking.hasOmega, List.any_cons, Bool.or_eq_false_iff] at h
    obtain ⟨counts, hcounts⟩ := ih h.2
    cases k with
    | finite n => exact ⟨n :: counts, congrArg (Tokens.finite n :: ·) hcounts⟩
    | omega => cases h.1

theorem map_eq_of_forall_zip {names : List String} {counts : List (Count cap)}
    (hlength : names.length = counts.length) {f : String → Count cap}
    (h : ∀ e ∈ names.zip counts, f e.1 = e.2) : names.map f = counts := by
  calc
    names.map f = ((names.zip counts).map Prod.fst).map f := by
      rw [List.map_fst_zip hlength.le]
    _ = (names.zip counts).map Prod.snd := by
      rw [List.map_map]
      exact List.map_congr_left h
    _ = counts := List.map_snd_zip hlength.ge

theorem labelled_eq_join {m : Marking cap} {counts : List (Count cap)}
    (h : m.counts = counts.map .finite) (names : List String) (separator : String) :
    m.labelled names separator = Text.join separator ((names.zip counts).map assignment) := by
  rw [Marking.labelled, h, List.zipWith_map_right, List.map_zip_eq_zipWith]
  rfl

/-- A marking without ω that is printed for its net is read back. -/
theorem exists_parse_labelled {n : Net} {m : Marking (.upTo most)}
    (hnames : ∀ name ∈ n.placeNames, IsPlainName name) (hsize : m.size = n.placeCount)
    (hfinite : m.hasOmega = false) (hseparator : IsSpacedSeparator separator) :
    ∃ initial, parse (.upTo most) (m.labelled n.placeNames separator) = .ok initial ∧
      initial.forNet n = m := by
  obtain ⟨counts, hcounts⟩ := exists_counts hfinite
  have hlength : n.placeNames.length = counts.length := by
    rw [← List.length_map Tokens.finite, ← hcounts]
    exact hsize.symm
  have hplain : ∀ e ∈ n.placeNames.zip counts, IsPlainName e.1 :=
    fun e he => hnames e.1 (List.of_mem_zip he).1
  have hnodup : ((n.placeNames.zip counts).map Prod.fst).Nodup := by
    rw [List.map_fst_zip hlength.le]
    exact n.places.nodup_toList
  obtain ⟨initial, hparse, htokens⟩ := exists_parse_join hseparator.isJoint hplain hnodup
  refine ⟨initial, labelled_eq_join hcounts _ _ ▸ hparse, ?_⟩
  have hforNet : (initial.forNet n).counts = m.counts := by
    rw [hcounts, ← map_eq_of_forall_zip hlength htokens, List.map_map]
    rfl
  exact congrArg Marking.mk hforNet

end InitialMarking

/-- A net whose places have names with white space, quotes and accents in them. -/
def Net.quaint : Net :=
  .make ["place 1", "\"é\""] []

/-- As many tokens as a place can hold, and none. -/
def Marking.fullAndBare : Marking .word :=
  ⟨[.finite (.ofNat .word 18446744073709551615), .zero]⟩

theorem InitialMarking.exists_parse_quaint :
    (∀ name ∈ Net.quaint.placeNames, IsPlainName name) ∧
      Marking.fullAndBare.size = Net.quaint.placeCount ∧
      Marking.fullAndBare.hasOmega = false ∧ IsSpacedSeparator " ;\n" ∧
      ∃ initial, parse .word (Marking.fullAndBare.labelled Net.quaint.placeNames " ;\n") =
          .ok initial ∧
        initial.forNet Net.quaint = Marking.fullAndBare := by
  have hnames : ∀ name ∈ Net.quaint.placeNames, IsPlainName name := by decide +kernel
  have hsize : Marking.fullAndBare.size = Net.quaint.placeCount := by decide +kernel
  have hfinite : Marking.fullAndBare.hasOmega = false := rfl
  have hseparator : IsSpacedSeparator " ;\n" :=
    ⟨[' '], ';', ['\n'], rfl, by decide, List.forall_mem_singleton.mpr (by decide),
      List.forall_mem_singleton.mpr (by decide)⟩
  exact ⟨hnames, hsize, hfinite, hseparator,
    exists_parse_labelled hnames hsize hfinite hseparator⟩

end DrawnModels
