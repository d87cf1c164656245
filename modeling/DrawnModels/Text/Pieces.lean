import DrawnModels.Text.Blank

/-!
# Cutting text into pieces

Text is trimmed of the white space at both ends, cut at every separator into pieces, or cut in
two at its first separator. Separators belong to no piece, and a text with `n` separators has
`n + 1` pieces, some of which may be empty.
-/

namespace DrawnModels

namespace Text

def trimChars (s : List Char) : List Char :=
  ((s.dropWhile isBlank).reverse.dropWhile isBlank).reverse

def trim (s : String) : String :=
  .ofList (trimChars s.toList)

def pieces (separator : Char → Bool) (s : String) : List String :=
  (s.toList.splitOnP separator).map .ofList

def trimmedPieces (separator : Char → Bool) (s : String) : List String :=
  (pieces separator s).map trim

/-- The text before and the text after the first character that satisfies `separator`. -/
def cut? (separator : Char → Bool) (s : String) : Option (String × String) :=
  match s.toList.span (!separator ·) with
  | (_, []) => none
  | (before, _ :: after) => some (.ofList before, .ofList after)

def occursIn (pattern : List Char) : List Char → Bool
  | [] => pattern.isEmpty
  | c :: s => pattern.isPrefixOf (c :: s) || occursIn pattern s

def startsWith (s start : String) : Bool :=
  start.toList.isPrefixOf s.toList

def mentions (s pattern : String) : Bool :=
  occursIn pattern.toList s.toList

def join (separator : String) (texts : List String) : String :=
  .intercalate separator texts

end Text

end DrawnModels
