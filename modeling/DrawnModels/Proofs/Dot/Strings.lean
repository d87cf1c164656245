import DrawnModels.Proofs.Dot.Escapes

/-!
# The strings of a drawing

The DOT text of a digraph is made of pieces, of which some are the strings for identifiers and
labels. So what is said about strings before any characters can be said about all strings of a
drawing where they stand: those for identifiers are closed by their own quotes, and those for labels
if all labels are harmless.
-/

namespace DrawnModels

namespace Dot

/-- What a string is written for. -/
inductive Role
  | identifier
  | label

inductive Piece
  | plain (text : List Char)
  /-- A string, with what stands between its quotes. -/
  | string (role : Role) (inside : List Char)

def Piece.text : Piece → List Char
  | plain text => text
  | string _ inside => '"' :: inside ++ ['"']

def textOf (pieces : List Piece) : List Char :=
  pieces.flatMap Piece.text

def identifierPiece (s : String) : Piece :=
  .string .identifier (insideIdentifier s.toList)

def labelPiece (s : String) : Piece :=
  .string .label (insideLabel s.toList)

@[simp] theorem text_plain (text : List Char) : (Piece.plain text).text = text := rfl

@[simp] theorem text_identifierPiece (s : String) :
    (identifierPiece s).text = (identifier s).toList :=
  (toList_identifier s).symm

@[simp] theorem text_labelPiece (s : String) :
    (labelPiece s).text = '"' :: (escapeQuotes s).toList ++ ['"'] :=
  congrArg (fun inside => '"' :: inside ++ ['"']) (toList_escapeQuotes s).symm

@[simp] theorem textOf_nil : textOf [] = [] := rfl

@[simp] theorem textOf_cons (p : Piece) (l : List Piece) : textOf (p :: l) = p.text ++ textOf l :=
  List.flatMap_cons

@[simp] theorem textOf_append (l l' : List Piece) : textOf (l ++ l') = textOf l ++ textOf l' :=
  List.flatMap_append

/-- The number of backslashes is even before each quote of a text and at its end. -/
def IsHarmless (s : String) : Prop :=
  EvenBeforeQuotes s.toList ∧ Even (backslashesAtEnd s.toList)

namespace NodeAttribute

def pieces : NodeAttribute → List Piece
  | label s => [.plain "label=".toList, labelPiece s]
  | a => [.plain a.render.toList]

def label? : NodeAttribute → Option String
  | label s => some s
  | _ => none

theorem textOf_pieces (a : NodeAttribute) : textOf a.pieces = a.render.toList := by
  cases a with
  | label s => simp [pieces, render]
  | shape s => simp [pieces]
  | style s => simp [pieces]

theorem string_mem_pieces_iff {a : NodeAttribute} {role : Role} {inside : List Char} :
    .string role inside ∈ a.pieces ↔ ∃ s, a.label? = some s ∧ .string role inside = labelPiece s := by
  cases a <;> simp [pieces, label?]

end NodeAttribute

namespace EdgeAttribute

def pieces : EdgeAttribute → List Piece
  | label s => [.plain "label=".toList, labelPiece s]

def labelText : EdgeAttribute → String
  | label s => s

theorem textOf_pieces (a : EdgeAttribute) : textOf a.pieces = a.render.toList := by
  cases a with
  | label s => simp [pieces, render]

theorem string_mem_pieces_iff {a : EdgeAttribute} {role : Role} {inside : List Char} :
    .string role inside ∈ a.pieces ↔ .string role inside = labelPiece a.labelText := by
  cases a
  simp [pieces, labelText]

end EdgeAttribute

namespace Digraph

variable {ι : Type}

def firstPieces (g : Digraph ι) : List Piece :=
  [.plain "digraph ".toList, identifierPiece (g.name.getD "A"), .plain " \x7b".toList]

def nodePieces (g : Digraph ι) (i : ι) : List Piece :=
  identifierPiece (g.ident i) :: .plain " [".toList ::
    [.plain ", ".toList].intercalate ((g.attributes i).map NodeAttribute.pieces) ++
    [.plain "]".toList]

def edgePieces (g : Digraph ι) (i : ι) (e : ι × List EdgeAttribute) : List Piece :=
  identifierPiece (g.ident i) :: .plain " -> ".toList :: identifierPiece (g.ident e.1) ::
    .plain " [".toList ::
    [.plain ", ".toList].intercalate (e.2.map EdgeAttribute.pieces) ++ [.plain "]".toList]

def linePieces (g : Digraph ι) : List (List Piece) :=
  g.firstPieces :: g.header.map (fun s => [.plain s.toList]) ++ g.nodes.map g.nodePieces ++
    g.nodes.flatMap (fun i => (g.edgesFrom i).map (g.edgePieces i)) ++ [[.plain "\x7d".toList]]

def pieces (g : Digraph ι) : List Piece :=
  [.plain "\n".toList].intercalate g.linePieces

end Digraph

theorem textOf_intercalate (sep : List Piece) (l : List (List Piece)) :
    textOf (sep.intercalate l) = (textOf sep).intercalate (l.map textOf) := by
  induction l with
  | nil => rfl
  | cons x l ih =>
    cases l with
    | nil => simp
    | cons y l =>
      rw [List.map_cons] at ih ⊢
      rw [List.map_cons, List.intercalate_cons_cons, List.intercalate_cons_cons, textOf_append,
        textOf_append, ih]

theorem mem_intercalate_iff {α : Type} {sep : List α} {a : α} (h : a ∉ sep) (l : List (List α)) :
    a ∈ sep.intercalate l ↔ ∃ x ∈ l, a ∈ x := by
  induction l with
  | nil => simp
  | cons x l ih =>
    cases l with
    | nil => simp
    | cons y l =>
      rw [List.intercalate_cons_cons, List.mem_append, List.mem_append, ih]
      simp [h]

namespace Digraph

variable {ι : Type} (g : Digraph ι)

theorem textOf_firstPieces : textOf g.firstPieces = g.firstLine.toList := by
  simp [firstPieces, firstLine]

theorem textOf_nodePieces (i : ι) : textOf (g.nodePieces i) = (g.nodeLine i).toList := by
  simp [nodePieces, nodeLine, textOf_intercalate, Text.join, Function.comp_def,
    NodeAttribute.textOf_pieces]

theorem textOf_edgePieces (i : ι) (e : ι × List EdgeAttribute) :
    textOf (g.edgePieces i e) = (g.edgeLine i e).toList := by
  simp [edgePieces, edgeLine, textOf_intercalate, Text.join, Function.comp_def,
    EdgeAttribute.textOf_pieces]

theorem textOf_pieces : textOf g.pieces = g.render.toList := by
  have hlines : g.linePieces.map textOf = g.lines.map String.toList := by
    simp [linePieces, lines, Function.comp_def, List.map_flatMap, textOf_firstPieces,
      textOf_nodePieces, textOf_edgePieces]
  rw [pieces, textOf_intercalate, hlines, render, Text.join, String.toList_intercalate, textOf_cons,
    textOf_nil, List.append_nil, text_plain]

def labels : List String :=
  g.nodes.flatMap (fun i => (g.attributes i).filterMap NodeAttribute.label?) ++
    g.nodes.flatMap fun i => (g.edgesFrom i).flatMap fun e => e.2.map EdgeAttribute.labelText

/-- All strings for one thing are closed by their own quotes, where they stand. -/
def Closes (role : Role) : Prop :=
  ∀ before inside after, g.pieces = before ++ .string role inside :: after →
    ClosesBefore inside (textOf after)

theorem string_mem_nodePieces_iff {i : ι} {role : Role} {inside : List Char} :
    .string role inside ∈ g.nodePieces i ↔ .string role inside = identifierPiece (g.ident i) ∨
      ∃ s ∈ (g.attributes i).filterMap NodeAttribute.label?,
        .string role inside = labelPiece s := by
  simp only [nodePieces, List.mem_append, List.mem_cons, reduceCtorEq, false_or, or_false,
    List.not_mem_nil, mem_intercalate_iff, not_false_eq_true, List.mem_map, List.mem_filterMap,
    exists_exists_and_eq_and, NodeAttribute.string_mem_pieces_iff]
  refine or_congr_right ⟨?_, ?_⟩
  · rintro ⟨a, ha, s, hs, hpiece⟩
    exact ⟨s, ⟨a, ha, hs⟩, hpiece⟩
  · rintro ⟨s, ⟨a, ha, hs⟩, hpiece⟩
    exact ⟨a, ha, s, hs, hpiece⟩

theorem string_mem_edgePieces_iff {i : ι} {e : ι × List EdgeAttribute} {role : Role}
    {inside : List Char} : .string role inside ∈ g.edgePieces i e ↔
      .string role inside = identifierPiece (g.ident i) ∨
      .string role inside = identifierPiece (g.ident e.1) ∨
      ∃ s ∈ e.2.map EdgeAttribute.labelText, .string role inside = labelPiece s := by
  simp [edgePieces, mem_intercalate_iff, EdgeAttribute.string_mem_pieces_iff]

theorem string_mem_pieces_iff {role : Role} {inside : List Char} :
    .string role inside ∈ g.pieces ↔ .string role inside ∈ g.firstPieces ∨
      (∃ i ∈ g.nodes, .string role inside ∈ g.nodePieces i) ∨
      ∃ i ∈ g.nodes, ∃ e ∈ g.edgesFrom i, .string role inside ∈ g.edgePieces i e := by
  rw [pieces, mem_intercalate_iff (by simp)]
  simp [linePieces, or_and_right, exists_or, and_assoc]

/-- A string is written for an identifier or for one of the labels. -/
theorem eq_of_mem_pieces {role : Role} {inside : List Char}
    (h : .string role inside ∈ g.pieces) : (∃ s, .string role inside = identifierPiece s) ∨
      ∃ s ∈ g.labels, .string role inside = labelPiece s := by
  rcases g.string_mem_pieces_iff.mp h with h | ⟨i, hi, h⟩ | ⟨i, hi, e, he, h⟩
  · exact Or.inl ⟨_, by simpa [firstPieces] using h⟩
  · rcases g.string_mem_nodePieces_iff.mp h with h | ⟨s, hs, h⟩
    · exact Or.inl ⟨_, h⟩
    · exact Or.inr ⟨s, List.mem_append_left _ (List.mem_flatMap.mpr ⟨i, hi, hs⟩), h⟩
  · rcases g.string_mem_edgePieces_iff.mp h with h | h | ⟨s, hs, h⟩
    · exact Or.inl ⟨_, h⟩
    · exact Or.inl ⟨_, h⟩
    · exact Or.inr ⟨s, List.mem_append_right _
        (List.mem_flatMap.mpr ⟨i, hi, List.mem_flatMap.mpr ⟨e, he, hs⟩⟩), h⟩

theorem labelPiece_mem_pieces {s : String} (h : s ∈ g.labels) : labelPiece s ∈ g.pieces := by
  apply g.string_mem_pieces_iff.mpr
  rcases List.mem_append.mp h with h | h
  · obtain ⟨i, hi, hs⟩ := List.mem_flatMap.mp h
    exact Or.inr (Or.inl ⟨i, hi, g.string_mem_nodePieces_iff.mpr (Or.inr ⟨s, hs, rfl⟩)⟩)
  · obtain ⟨i, hi, h⟩ := List.mem_flatMap.mp h
    obtain ⟨e, he, hs⟩ := List.mem_flatMap.mp h
    exact Or.inr (Or.inr ⟨i, hi, e, he,
      g.string_mem_edgePieces_iff.mpr (Or.inr (Or.inr ⟨s, hs, rfl⟩))⟩)

theorem closes_identifier : g.Closes .identifier := by
  intro before inside after h
  have hmem : .string .identifier inside ∈ g.pieces := by simp [h]
  rcases g.eq_of_mem_pieces hmem with ⟨s, hs⟩ | ⟨s, -, hs⟩
  · cases hs
    exact closesBefore_insideIdentifier s.toList _
  · cases hs

theorem closes_label_iff : g.Closes .label ↔ ∀ s ∈ g.labels, IsHarmless s := by
  constructor
  · intro h s hs
    obtain ⟨before, after, hpieces⟩ := List.append_of_mem (g.labelPiece_mem_pieces hs)
    exact (closesBefore_insideLabel_iff _ _).mp (h before _ after hpieces)
  · intro h before inside after hpieces
    have hmem : .string .label inside ∈ g.pieces := by simp [hpieces]
    rcases g.eq_of_mem_pieces hmem with ⟨s, hs⟩ | ⟨s, hlabel, hs⟩
    · cases hs
    · cases hs
      exact (closesBefore_insideLabel_iff _ _).mpr (h s hlabel)

end Digraph

end Dot

end DrawnModels
