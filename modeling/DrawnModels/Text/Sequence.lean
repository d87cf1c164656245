import DrawnModels.Text.Ligature

/-!
# Control sequences

Text for a terminal holds sequences that begin with the escape character and are not shown. Most
end with a letter, some with a character of their own, and any of them is broken off by another
escape character. What was broken off belongs to the sequence that ends next. If none does, it is
shown together with the text that it follows, and without such text not at all.
-/

namespace DrawnModels

namespace Text

def escape : Char := '\x1b'

inductive Part
  | shown (s : List Char)
  /-- A sequence that changes how text looks. -/
  | appearance (s : List Char)
  /-- Any other sequence. -/
  | control (s : List Char)
deriving DecidableEq

namespace Part

def columns : Part → Nat
  | shown s => columnsOf s
  | _ => 0

end Part

/-- How far a list of parameters has been read. -/
inductive Field
  | opened
  | parameters
  /-- Among the marks after the parameters. -/
  | marks
deriving DecidableEq

namespace Field

/-- How far the list has been read after one more of its characters, if that is in place. -/
def next? (f : Field) (c : Char) : Option Field :=
  if c ≤ '/' then some marks
  else if f = opened ∨ f = parameters ∧ c ≤ ';' then some parameters
  else none

end Field

/-- How far a sequence has been read. -/
inductive Stage
  | outside
  /-- After the escape character. -/
  | begun
  /-- After the escape character and marks that ask for one more character. -/
  | marked
  /-- In a list of parameters, which a letter or a string for a device follows. -/
  | listing (device : Bool) (f : Field)
  /-- In a list that makes no sense. -/
  | spoilt
  /-- In a command, which ends with the bell. -/
  | command
  /-- In a string for a device, which has a terminator of its own. -/
  | deviceString
deriving DecidableEq

/-- What a character does to a sequence. -/
structure Step where
  stage : Stage
  /-- How many bytes of the character are shown. -/
  bytes : Nat
  /-- Whether the sequence ends here. -/
  ends : Bool
deriving DecidableEq

namespace Stage

def silent (s : Stage) : Step :=
  ⟨s, 0, false⟩

def control (s : Stage) : Step :=
  ⟨s, 1, false⟩

def final : Step :=
  ⟨outside, 0, true⟩

def afterEscape (c : Char) : Step :=
  if c < ' ' then begun.control
  else if c ≤ '/' then marked.silent
  else if c = '[' then (listing false .opened).silent
  else if c = ']' then command.silent
  else if c = 'P' then (listing true .opened).silent
  else if c = 'X' ∨ c = '^' ∨ c = '_' then deviceString.silent
  else if c ≤ '~' then final
  else begun.silent

def inList (device : Bool) (f : Field) (c : Char) : Step :=
  let s := listing device f
  if c < ' ' then if device then s.silent else s.control
  else if c ≤ '?' then
    match f.next? c with
    | some g => (listing device g).silent
    | none => (if device then deviceString else spoilt).silent
  else if c ≤ '~' then if device then deviceString.silent else final
  else s.silent

/-- What a character does in a string for a device. The string ends at the byte `9C`, also within a
character, and some of the bytes after it count as control characters. -/
def inString (c : Char) : Step :=
  match (String.utf8EncodeChar c).dropWhile (· ≠ 0x9C) with
  | [] => deviceString.silent
  | _ :: rest => ⟨outside, rest.countP fun b => b ≤ 0x9C && b ≠ 0x90 && b ≠ 0x9B, false⟩

def step (s : Stage) (c : Char) : Step :=
  if c = escape then ⟨begun, 0, s = command⟩
  else if c = '\x18' ∨ c = '\x1A' then ⟨outside, 1, s = command⟩
  else
    match s with
    | outside => ⟨outside, c.utf8Size, false⟩
    | begun => afterEscape c
    | marked =>
      if c < ' ' then s.control else if '0' ≤ c ∧ c ≤ '~' then final else s.silent
    | listing device f => inList device f c
    | spoilt =>
      if c < ' ' then s.control else if '@' ≤ c ∧ c ≤ '~' then outside.silent else s.silent
    | command => if c = '\x07' then final else s.silent
    | deviceString => inString c

end Stage

def isSeparator (c : Char) : Bool :=
  c = ':' || c = ';'

def isMark (c : Char) : Bool :=
  (' ' ≤ c && c ≤ '/') || ('<' ≤ c && c ≤ '?')

/-- Characters that have been read since a sequence ended or was broken off. -/
structure Run where
  /-- The characters, with the last one in front. -/
  chars : List Char
  /-- How many of their bytes are shown. -/
  bytes : Nat
deriving DecidableEq

namespace Run

def nothing : Run :=
  ⟨[], 0⟩

def push (r : Run) (c : Char) (bytes : Nat) : Run :=
  ⟨c :: r.chars, r.bytes + bytes⟩

/-- The sequence at the end of a run, which may be unfinished. -/
def sequence (r : Run) : List Char :=
  r.chars.takeWhile (· ≠ escape)

/-- Whether a sequence with a list has too many parameters, or more than one mark, to be one. -/
def overlong (r : Run) : Stage → Bool
  | .listing _ _ => 31 < r.sequence.countP isSeparator || 1 < r.sequence.countP isMark
  | _ => false

/-- Whether a sequence changes how text looks if it ends with `last`. -/
def changesAppearance (r : Run) (s : Stage) (last : Char) : Bool :=
  last = 'm' && (s = .listing false .opened || s = .listing false .parameters) &&
    !r.sequence.any isMark

/-- The text that a run is if no sequence ends in it. -/
def part? (r : Run) : Option Part :=
  if r.bytes = 0 then none else some (.shown r.chars.reverse)

end Run

/-- The longest part at the front of a text that has at most `n` bytes, and the rest. -/
def cutBytes (n : Nat) : List Char → List Char × List Char
  | [] => ([], [])
  | c :: rest =>
    if c.utf8Size ≤ n then (cutBytes (n - c.utf8Size) rest).map (c :: ·) id else ([], c :: rest)

/-- The parts of some runs with a sequence that ends in the last of them. The text in front of the
sequence is as long as what is shown. -/
def divided (appears : Bool) (runs : List Run) : List Part :=
  let n := runs.foldl (fun n r => n + r.bytes) 0
  let (front, back) := cutBytes n (runs.flatMap (·.chars.reverse))
  (if n = 0 then [] else [.shown front]) ++
    [if appears then .appearance back else .control back]

/-- The parts of a text, at some stage of a sequence in the run `r`. The runs in `broken` ended with
a sequence that was broken off. -/
def scan (s : Stage) (broken : List Run) (r : Run) : List Char → List Part
  | [] => (broken ++ [r]).filterMap Run.part?
  | c :: rest =>
    let t := s.step c
    if t.ends && !r.overlong s then
      divided (r.changesAppearance s c) (broken ++ [r.push c t.bytes]) ++
        scan t.stage [] .nothing rest
    else if c = escape ∧ s ≠ .outside then
      scan t.stage (broken ++ [r]) (Run.nothing.push c t.bytes) rest
    else scan t.stage broken (r.push c t.bytes) rest

def parts (s : String) : List Part :=
  scan .outside [] .nothing s.toList

/-- The columns that a line of text fills. Characters are drawn as one only if no sequence stands
between them. -/
def width (s : String) : Nat :=
  (parts s).foldl (fun filled part => filled + part.columns) 0

end Text

end DrawnModels
