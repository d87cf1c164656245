import DrawnModels.Petri.InitialMarking
import DrawnModels.Proofs.Collection.Entries
import DrawnModels.Proofs.Collection.Folds
import DrawnModels.Proofs.Text.Grammar

/-!
# The text of initial markings

A text is the text of an initial marking if each of its entries gives a count to a place and no two
of them name the same place. Entries are read one after the other, and each is judged by the ones
before it, so the first one that is at fault is reported.
-/

namespace DrawnModels

namespace InitialMarking

/-- The first sign of an assignment in an entry stands between the name of a place and the text of a
count. -/
structure HasParts (entry place count : String) : Prop where
  exists_sign : ∃ before after : String, ∃ sign,
    entry.toList = before.toList ++ sign :: after.toList ∧ isAssignment sign = true ∧
      (∀ c ∈ before.toList, isAssignment c = false) ∧
      Text.trim before = place ∧ Text.trim after = count
  place_ne_empty : place ≠ ""

def Names (entry place : String) : Prop :=
  ∃ count, HasParts entry place count

/-- An entry gives a count within the limit to a place. -/
def Gives (most : Nat) (entry place : String) (n : Nat) : Prop :=
  ∃ count, HasParts entry place count ∧ Text.IsCount count n ∧ n ≤ most

/-- All entries give counts to places, and no two of them name the same place. -/
structure Readable (most : Nat) (entries : List String) : Prop where
  gives : ∀ entry ∈ entries, ∃ place n, Gives most entry place n
  distinct : entries.Pairwise fun earlier later =>
    ∀ place, Names earlier place → ¬ Names later place

/-- What is at fault with an entry. It is compared with earlier entries only if it gives a count. -/
inductive Fault (most : Nat) (earlier : List String) (entry : String) : MarkingError → Prop
  | malformedEntry (h : ∀ place count, ¬ HasParts entry place count) :
      Fault most earlier entry (.malformedEntry entry)
  | invalidCount {place count : String} (h : HasParts entry place count)
      (hcount : ∀ n, Text.IsCount count n → most < n) :
      Fault most earlier entry (.invalidCount place count)
  | duplicate {place : String} {n : Nat} (h : Gives most entry place n)
      (hearlier : ∃ e ∈ earlier, Names e place) : Fault most earlier entry (.duplicate place)

/-! ### One entry -/

variable {most : Nat} {entry place count : String}

theorem splitEntry_eq_ok_iff :
    splitEntry entry = .ok (place, count) ↔ HasParts entry place count := by
  constructor
  · intro h
    unfold splitEntry at h
    split at h
    · cases h
    · rename_i before after hcut
      split at h
      · cases h
      · rename_i hne
        cases h
        obtain ⟨sign, hentry, hsign, hbefore⟩ := Text.cut?_eq_some_iff.mp hcut
        exact ⟨⟨before, after, sign, hentry, hsign, hbefore, rfl, rfl⟩, hne⟩
  · rintro ⟨⟨before, after, sign, hentry, hsign, hbefore, rfl, rfl⟩, hne⟩
    have hcut : Text.cut? isAssignment entry = some (before, after) :=
      Text.cut?_eq_some_iff.mpr ⟨sign, hentry, hsign, hbefore⟩
    rw [splitEntry, hcut]
    exact if_neg hne

theorem splitEntry_of_forall_not (h : ∀ place count, ¬ HasParts entry place count) :
    splitEntry entry = .error (.malformedEntry entry) := by
  cases hsplit : splitEntry entry with
  | ok parts => exact absurd (splitEntry_eq_ok_iff.mp hsplit) (h parts.1 parts.2)
  | error e =>
    unfold splitEntry at hsplit
    split at hsplit
    · exact hsplit.symm
    · split at hsplit
      · exact hsplit.symm
      · cases hsplit

theorem HasParts.unique {place' count' : String} (h : HasParts entry place count)
    (h' : HasParts entry place' count') : place = place' ∧ count = count' := by
  have hsplit := (splitEntry_eq_ok_iff.mpr h).symm.trans (splitEntry_eq_ok_iff.mpr h')
  cases hsplit
  exact ⟨rfl, rfl⟩

theorem readCount_eq_ok_iff {n : Count (.upTo most)} :
    readCount (.upTo most) place count = .ok n ↔ Text.IsCount count n.val := by
  rw [← Text.readCount?_eq_some_iff, readCount]
  constructor
  · intro h
    split at h
    · rename_i m hm
      cases h
      obtain ⟨k, hk, hkn⟩ := Option.bind_eq_some_iff.mp hm
      unfold Count.ofNat? at hkn
      split at hkn
      · cases hkn
        exact hk
      · cases hkn
    · cases h
  · intro h
    have hallowed : (Capacity.upTo most).Allows n.val := n.allowed
    simp [h, Count.ofNat?, hallowed]

theorem readCount_of_forall (h : ∀ n, Text.IsCount count n → most < n) :
    readCount (.upTo most) place count = .error (.invalidCount place count) := by
  cases hread : readCount (.upTo most) place count with
  | ok n =>
    have hn : n.val ≤ most := n.allowed
    exact absurd (h n.val (readCount_eq_ok_iff.mp hread)) (Nat.not_lt_of_le hn)
  | error e =>
    unfold readCount at hread
    split at hread
    · cases hread
    · exact hread.symm

/-- An entry has no parts, or its count cannot be read, or it gives a count to a place. -/
theorem cases_of_entry (most : Nat) (entry : String) :
    (∀ place count, ¬ HasParts entry place count) ∨
      (∃ place count, HasParts entry place count ∧ ∀ n, Text.IsCount count n → most < n) ∨
        ∃ place, ∃ n : Count (.upTo most), Gives most entry place n.val := by
  by_cases hparts : ∃ place count, HasParts entry place count
  · obtain ⟨place, count, hparts⟩ := hparts
    by_cases hcount : ∃ n, Text.IsCount count n ∧ n ≤ most
    · obtain ⟨n, hn, hle⟩ := hcount
      exact Or.inr (Or.inr ⟨place, ⟨n, hle⟩, count, hparts, hn, hle⟩)
    · refine Or.inr (Or.inl ⟨place, count, hparts, fun n hn => ?_⟩)
      exact Nat.lt_of_not_le fun hle => hcount ⟨n, hn, hle⟩
  · exact Or.inl fun place count h => hparts ⟨place, count, h⟩

variable {table : KeyedList String (Count (.upTo most))}

theorem addEntry_of_forall_not (h : ∀ place count, ¬ HasParts entry place count) :
    addEntry table entry = .error (.malformedEntry entry) := by
  rw [addEntry, splitEntry_of_forall_not h]
  rfl

theorem addEntry_of_invalid (h : HasParts entry place count)
    (hcount : ∀ n, Text.IsCount count n → most < n) :
    addEntry table entry = .error (.invalidCount place count) := by
  rw [addEntry, splitEntry_eq_ok_iff.mpr h]
  simp only [bind, Except.bind, readCount_of_forall hcount]

theorem addEntry_of_gives {n : Count (.upTo most)} (h : Gives most entry place n.val) :
    addEntry table entry =
      if table.contains place then .error (.duplicate place) else .ok (table.insert place n) := by
  obtain ⟨count, hparts, hcount, -⟩ := h
  rw [addEntry, splitEntry_eq_ok_iff.mpr hparts]
  simp only [bind, Except.bind, readCount_eq_ok_iff.mpr hcount]

theorem exists_gives_of_addEntry {table' : KeyedList String (Count (.upTo most))}
    (hok : addEntry table entry = .ok table') :
    ∃ place, ∃ n : Count (.upTo most), Gives most entry place n.val ∧
      ¬ table.contains place = true ∧ table' = table.insert place n := by
  rcases cases_of_entry most entry with
    hnone | ⟨place, count, hparts, hcount⟩ | ⟨place, n, hgives⟩
  · rw [addEntry_of_forall_not hnone] at hok
    cases hok
  · rw [addEntry_of_invalid hparts hcount] at hok
    cases hok
  · rw [addEntry_of_gives hgives] at hok
    split at hok
    · cases hok
    · rename_i hnew
      cases hok
      exact ⟨place, n, hgives, hnew, rfl⟩

/-! ### All entries -/

theorem Gives.le {n : Nat} (h : Gives most entry place n) : n ≤ most := by
  obtain ⟨count, -, -, hle⟩ := h
  exact hle

theorem Gives.names {n : Nat} (h : Gives most entry place n) : Names entry place := by
  obtain ⟨count, hparts, -⟩ := h
  exact ⟨count, hparts⟩

theorem Gives.place_eq {place' : String} {n : Nat} (h : Gives most entry place n)
    (h' : Names entry place') : place = place' := by
  obtain ⟨count, hparts, -⟩ := h
  obtain ⟨count', hparts'⟩ := h'
  exact (hparts.unique hparts').1

theorem Gives.eq {place' : String} {m n : Nat} (h : Gives most entry place m)
    (h' : Gives most entry place' n) : place = place' ∧ m = n := by
  obtain ⟨count, hparts, hcount, -⟩ := h
  obtain ⟨count', hparts', hcount', -⟩ := h'
  obtain ⟨hplace, rfl⟩ := hparts.unique hparts'
  rw [← Text.readCount?_eq_some_iff] at hcount hcount'
  exact ⟨hplace, Option.some.inj (hcount.symm.trans hcount')⟩

theorem Readable.not_fault {earlier later : List String} {e : MarkingError}
    (h : Readable most (earlier ++ entry :: later)) : ¬ Fault most earlier entry e := by
  intro hfault
  obtain ⟨place, n, count, hparts, hcount, hle⟩ := h.gives entry (by simp)
  cases hfault with
  | malformedEntry hnot => exact hnot place count hparts
  | invalidCount hparts' hlt =>
    obtain ⟨-, rfl⟩ := hparts.unique hparts'
    exact Nat.not_lt_of_le hle (hlt n hcount)
  | duplicate hgives hearlier =>
    obtain ⟨before, hbefore, hnames⟩ := hearlier
    have hdistinct := (List.pairwise_append.mp h.distinct).2.2
    exact hdistinct before hbefore entry List.mem_cons_self _ hnames hgives.names

/-- A table says what the entries say. -/
structure Holds (table : KeyedList String (Count (.upTo most))) (entries : List String) : Prop where
  readable : Readable most entries
  find?_iff : ∀ place n, table.find? place = some n ↔
    ∃ entry ∈ entries, Gives most entry place n.val

namespace Holds

variable {entries : List String}

theorem empty : Holds (.empty : KeyedList String (Count (.upTo most))) [] where
  readable := ⟨by simp, List.Pairwise.nil⟩
  find?_iff := by simp

theorem contains_iff (h : Holds table entries) :
    table.contains place = true ↔ ∃ entry ∈ entries, Names entry place := by
  rw [KeyedList.contains_iff, KeyedList.mem_keys_iff]
  constructor
  · rintro ⟨n, hn⟩
    obtain ⟨entry, hentry, hgives⟩ := (h.find?_iff place n).mp hn
    exact ⟨entry, hentry, hgives.names⟩
  · rintro ⟨entry, hentry, hnames⟩
    obtain ⟨place', n, hgives⟩ := h.readable.gives entry hentry
    obtain rfl := hgives.place_eq hnames
    exact ⟨⟨n, hgives.le⟩, (h.find?_iff _ _).mpr ⟨entry, hentry, hgives⟩⟩

theorem addEntry_eq_error_iff (h : Holds table entries) {e : MarkingError} :
    addEntry table entry = .error e ↔ Fault most entries entry e := by
  constructor
  · intro herror
    rcases cases_of_entry most entry with
      hnone | ⟨place, count, hparts, hcount⟩ | ⟨place, n, hgives⟩
    · rw [addEntry_of_forall_not hnone] at herror
      cases herror
      exact .malformedEntry hnone
    · rw [addEntry_of_invalid hparts hcount] at herror
      cases herror
      exact .invalidCount hparts hcount
    · rw [addEntry_of_gives hgives] at herror
      split at herror
      · rename_i hcontains
        cases herror
        exact .duplicate hgives (h.contains_iff.mp hcontains)
      · cases herror
  · intro hfault
    cases hfault with
    | malformedEntry hnone => exact addEntry_of_forall_not hnone
    | invalidCount hparts hcount => exact addEntry_of_invalid hparts hcount
    | @duplicate place n hgives hearlier =>
      have hcontains := h.contains_iff.mpr hearlier
      exact (addEntry_of_gives (n := ⟨n, hgives.le⟩) hgives).trans (if_pos hcontains)

theorem insert {n : Count (.upTo most)} (h : Holds table entries)
    (hgives : Gives most entry place n.val) (hnew : ∀ e ∈ entries, ¬ Names e place) :
    Holds (table.insert place n) (entries ++ [entry]) where
  readable := by
    constructor
    · intro e he
      rcases List.mem_append.mp he with he | he
      · exact h.readable.gives e he
      · rw [List.mem_singleton.mp he]
        exact ⟨place, n.val, hgives⟩
    · refine List.pairwise_append.mpr ⟨h.readable.distinct, List.pairwise_singleton _ _, ?_⟩
      intro e he e' he' place' hnames hnames'
      rw [List.mem_singleton.mp he'] at hnames'
      rw [← hgives.place_eq hnames'] at hnames
      exact hnew e he hnames
  find?_iff place' k := by
    simp only [KeyedList.find?_insert, List.mem_append, List.mem_singleton, or_and_right, exists_or,
      exists_eq_left]
    by_cases hplace : place' = place
    · subst hplace
      have hnone : ¬ ∃ e ∈ entries, Gives most e place' k.val := by
        rintro ⟨e, he, hgives'⟩
        exact hnew e he hgives'.names
      rw [if_pos rfl, or_iff_right hnone, Option.some.injEq]
      constructor
      · rintro rfl
        exact hgives
      · intro hgives'
        exact Count.ext (hgives.eq hgives').2
    · have hother : ¬ Gives most entry place' k.val := by
        intro hgives'
        exact hplace (hgives'.place_eq hgives.names)
      rw [if_neg hplace, or_iff_left hother]
      exact h.find?_iff place' k

theorem addEntry {table' : KeyedList String (Count (.upTo most))} (h : Holds table entries)
    (hok : addEntry table entry = .ok table') : Holds table' (entries ++ [entry]) := by
  obtain ⟨place, n, hgives, hnew, rfl⟩ := exists_gives_of_addEntry hok
  apply h.insert hgives
  intro e he hnames
  exact hnew (h.contains_iff.mpr ⟨e, he, hnames⟩)

end Holds

variable {l : List String}

theorem judges_addEntry : Judges addEntry (.empty : KeyedList String (Count (.upTo most)))
    (fun l table => Holds table l) (Readable most) (Fault most) where
  start := Holds.empty
  step _ _ _ _ := Holds.addEntry
  good _ _ := Holds.readable
  error_iff _ _ _ _ h := h.addEntry_eq_error_iff
  not_fault _ _ _ _ := Readable.not_fault

variable {s : String} {m : InitialMarking (.upTo most)}

theorem parse_eq_ok_iff :
    parse (.upTo most) s = .ok m ↔ (entries s).foldlM addEntry .empty = .ok m.table := by
  rw [parse, map_eq_ok_iff]
  constructor
  · rintro ⟨table, hok, rfl⟩
    exact hok
  · intro hok
    exact ⟨m.table, hok, rfl⟩

theorem exists_parse_iff : (∃ m, parse (.upTo most) s = .ok m) ↔ Readable most (entries s) := by
  rw [← judges_addEntry.exists_foldlM_iff]
  constructor
  · rintro ⟨m, hm⟩
    exact ⟨m.table, parse_eq_ok_iff.mp hm⟩
  · rintro ⟨table, hok⟩
    exact ⟨⟨table⟩, parse_eq_ok_iff.mpr hok⟩

theorem holds_of_parse (h : parse (.upTo most) s = .ok m) : Holds m.table (entries s) :=
  judges_addEntry.of_foldlM_eq_ok (parse_eq_ok_iff.mp h)

theorem tokens_of_forall_not (h : Holds m.table l) (hnone : ∀ entry ∈ l, ¬ Names entry place) :
    (m.tokens place).val = 0 := by
  have hnot : m.table.find? place = none := by
    rw [Option.eq_none_iff_forall_ne_some]
    intro n hn
    obtain ⟨entry, hentry, hgives⟩ := (h.find?_iff place n).mp hn
    exact hnone entry hentry hgives.names
  rw [tokens, hnot]
  exact Nat.zero_min most

theorem parse_eq_error_iff {e : MarkingError} :
    parse (.upTo most) s = .error e ↔
      ∃ earlier entry later, entries s = earlier ++ entry :: later ∧ Readable most earlier ∧
        Fault most earlier entry e := by
  rw [parse, map_eq_error_iff]
  exact judges_addEntry.foldlM_eq_error_iff

theorem exists_cut_entries (s : String) :
    ∃ pieces, Text.Cut isSeparator s.toList pieces ∧
      entries s = (pieces.map fun piece => Text.trim (.ofList piece)).filter (· ≠ "") := by
  refine ⟨_, Text.cut_iff.mpr rfl, ?_⟩
  rw [entries, Text.trimmedPieces, Text.pieces, List.map_map]
  rfl

/-- The entries of a text are its pieces, trimmed, without the empty ones. A text is read if all
entries give counts to different places, and then these places have these counts and no other place
has tokens. Otherwise the first entry that is at fault is reported. -/
theorem exists_parse_iff_and_error_iff (most : Nat) (s : String) :
    (∃ pieces, Text.Cut isSeparator s.toList pieces ∧
        entries s = (pieces.map fun piece => Text.trim (.ofList piece)).filter (· ≠ "")) ∧
      ((∃ m, parse (.upTo most) s = .ok m) ↔ Readable most (entries s)) ∧
      (∀ m, parse (.upTo most) s = .ok m →
        (∀ place n, m.table.find? place = some n ↔
          ∃ entry ∈ entries s, Gives most entry place n.val) ∧
        ∀ place, (∀ entry ∈ entries s, ¬ Names entry place) → (m.tokens place).val = 0) ∧
      ∀ e, parse (.upTo most) s = .error e ↔
        ∃ earlier entry later, entries s = earlier ++ entry :: later ∧
          Readable most earlier ∧ Fault most earlier entry e := by
  refine ⟨exists_cut_entries s, exists_parse_iff, ?_, fun e => parse_eq_error_iff⟩
  intro m hm
  have hholds := holds_of_parse hm
  constructor
  · exact hholds.find?_iff
  · intro place hnone
    exact tokens_of_forall_not hholds hnone

/-- What stands behind the first sign is the count, and of two faults the first is reported. -/
example : parse .word "p = +07; q=1:2, r" = .error (.invalidCount "q" "1:2") := by
  rfl

end InitialMarking

end DrawnModels
