import DrawnModels.Text.Decimal
import DrawnModels.Text.Pieces
import DrawnModels.Text.Sequence

/-!
# The appearance of text

Control sequences make text bold, coloured and so on. They hold numbers: some switch a feature on,
some switch features off, and zero switches all of them off. A text that is cut into lines keeps
its appearance if each line ends what it has begun and the next line begins it anew.
-/

namespace DrawnModels

namespace Text

/-- A way in which text can stand out. -/
inductive Feature
  | bold
  | faint
  | italic
  | underlined
  | blinking
  | flashing
  | inverse
  | concealed
  | struck
  | font
  | blackletter
  | doublyUnderlined
  | proportional
  | foreground
  | background
  | underlineColor
  | framed
  | encircled
  | overlined
  | sideLine
  | doubleSideLine
  | otherSideLine
  | doubleOtherSideLine
  | stressed
  | superscript
  | subscript
deriving DecidableEq

namespace Feature

def all : List Feature :=
  [bold, faint, italic, underlined, blinking, flashing, inverse, concealed, struck, font,
    blackletter, doublyUnderlined, proportional, foreground, background, underlineColor, framed,
    encircled, overlined, sideLine, doubleSideLine, otherSideLine, doubleOtherSideLine, stressed,
    superscript, subscript]

def numbers : Feature → Ranges
  | bold => [(1, 1)]
  | faint => [(2, 2)]
  | italic => [(3, 3)]
  | underlined => [(4, 4)]
  | blinking => [(5, 5)]
  | flashing => [(6, 6)]
  | inverse => [(7, 7)]
  | concealed => [(8, 8)]
  | struck => [(9, 9)]
  | font => [(11, 19)]
  | blackletter => [(20, 20)]
  | doublyUnderlined => [(21, 21)]
  | proportional => [(26, 26)]
  | foreground => [(30, 37), (90, 97)]
  | background => [(40, 47), (100, 107)]
  | underlineColor => []
  | framed => [(51, 51)]
  | encircled => [(52, 52)]
  | overlined => [(53, 53)]
  | sideLine => [(60, 60)]
  | doubleSideLine => [(61, 61)]
  | otherSideLine => [(62, 62)]
  | doubleOtherSideLine => [(63, 63)]
  | stressed => [(64, 64)]
  | superscript => [(73, 73)]
  | subscript => [(74, 74)]

def off : Feature → Nat
  | bold | faint => 22
  | italic | blackletter => 23
  | underlined | doublyUnderlined => 24
  | blinking | flashing => 25
  | inverse => 27
  | concealed => 28
  | struck => 29
  | font => 10
  | proportional => 50
  | foreground => 39
  | background => 49
  | underlineColor => 59
  | framed | encircled => 54
  | overlined => 55
  | sideLine | doubleSideLine | otherSideLine | doubleOtherSideLine | stressed => 65
  | superscript | subscript => 75

/-- The feature whose color a number announces. -/
def ofColorNumber? (n : Nat) : Option Feature :=
  if n = 38 then some foreground
  else if n = 48 then some background
  else if n = 58 then some underlineColor
  else none

end Feature

/-- The numbers that switch features off, in the order in which they are written. -/
def offNumbers : List Nat :=
  [10, 22, 23, 24, 25, 27, 28, 29, 39, 49, 50, 54, 55, 65, 59, 75]

def appearanceSequence (numbers : List Nat) : String :=
  escape.toString ++ "[" ++ join ";" (numbers.map toString) ++ "m"

/-- A text in bold letters, after which everything is switched off. -/
def bold (s : String) : String :=
  appearanceSequence [1] ++ s ++ appearanceSequence [0]

structure Appearance where
  /-- The features that are on, with the numbers that switched them on. -/
  features : List (Feature × List Nat)
  /-- Whether everything has been switched off before. -/
  cleared : Bool
  /-- Whether some parameter was not understood. -/
  unclear : Bool
deriving DecidableEq

namespace Appearance

def plain : Appearance :=
  ⟨[], false, false⟩

def switchOn (a : Appearance) (f : Feature) (numbers : List Nat) : Appearance :=
  { a with features := (f, numbers) :: a.features.filter (·.1 ≠ f) }

/-- Applies a number that stands for itself. -/
def apply (a : Appearance) (n : Nat) : Appearance :=
  if n = 0 then { plain with cleared := true }
  else
    match Feature.all.find? (·.numbers.includes n) with
    | some f => a.switchOn f [n]
    | none =>
      if n ∈ offNumbers then { a with features := a.features.filter (·.1.off ≠ n) }
      else { a with unclear := true }

/-- The number that a parameter stands for. Zeros in front are not understood. -/
def number? : List Char → Option Nat
  | '0' :: _ :: _ => none
  | p => readNumeral? p

/-- A part of a color. What is no number, or does not fit into a byte, counts as zero. -/
def colorPart (p : List Char) : Nat :=
  ((readCount? (.ofList p)).filter (· ≤ 255)).getD 0

/-- Applies the parameters of a sequence. A color is one out of a palette, or has three parts;
anything else that announces a color is skipped. -/
def applyAll (a : Appearance) : List (List Char) → Appearance
  | [] => a
  | p :: rest =>
    match number? p with
    | none => applyAll { a with unclear := true } rest
    | some n =>
      match Feature.ofColorNumber? n with
      | none => applyAll (a.apply n) rest
      | some f =>
        match rest with
        | [] => a
        | kind :: rest =>
          if kind = ['5'] then
            match rest with
            | i :: rest => applyAll (a.switchOn f [n, 5, colorPart i]) rest
            | [] => a
          else if kind = ['2'] then
            match rest with
            | r :: g :: b :: rest =>
              applyAll (a.switchOn f [n, 2, colorPart r, colorPart g, colorPart b]) rest
            | _ => a
          else applyAll a rest

/-- The parameters of a sequence, between its first two characters and its last one. If it begins
with something else, that belongs to the first parameter. -/
def parameters (s : List Char) : List (List Char) :=
  (s.dropLast.drop (if [escape, '['].isPrefixOf s then 2 else 0)).splitOnP (· = ';')

def next (a : Appearance) : Part → Appearance
  | .appearance s => a.applyAll (parameters s)
  | _ => a

def after (a : Appearance) (line : String) : Appearance :=
  (parts line).foldl next a

/-- Whether sequences are written for this look. There are none for a font alone. -/
def standsOut (a : Appearance) : Bool :=
  a.cleared || a.features.any (·.1 ≠ .font)

def opening (a : Appearance) : String :=
  if a.standsOut then
    join "" ((Feature.all.filterMap fun f => a.features.lookup f).map appearanceSequence)
  else ""

/-- The numbers that end this look. If something was not understood, everything is switched off,
and this is done twice if it had been done before. -/
def closingNumbers (a : Appearance) : List Nat :=
  (if a.unclear && a.cleared then [0] else []) ++
    offNumbers.filter (fun n => a.features.any (·.1.off = n)) ++
    if a.unclear then [0] else []

def closing (a : Appearance) : String :=
  if a.standsOut then join "" (a.closingNumbers.map fun n => appearanceSequence [n]) else ""

/-- Lines of one text, each with the sequences that begin and end its appearance. An empty line gets
none. -/
def carry (a : Appearance) : List String → List String
  | [] => []
  | line :: rest =>
    if line = "" then line :: carry a rest
    else (a.opening ++ line ++ (a.after line).closing) :: carry (a.after line) rest

end Appearance

/-- The lines of a text. If there are several, each keeps the appearance to itself. -/
def lines (s : String) : List String :=
  match pieces (· = '\n') s with
  | [line] => [line]
  | several => Appearance.plain.carry several

end Text

end DrawnModels
