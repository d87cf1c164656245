import DrawnModels.Text.Pieces
import DrawnModels.Text.Visibility

/-!
# Quoted text for messages

A name in a list of names is put in double quotes. A character that would not show, that would
attach itself to its neighbour, or that would be taken for a quote is written as an escape, so the
name can be read off the message without doubt.
-/

namespace DrawnModels

namespace Text

def quotedChar (c : Char) : List Char :=
  match c with
  | '"' => ['\\', '"']
  | '\\' => ['\\', '\\']
  | '\t' => ['\\', 't']
  | '\n' => ['\\', 'n']
  | '\r' => ['\\', 'r']
  | '\x00' => ['\\', '0']
  | c =>
    if isHidden c || isAttached c then
      ['\\', 'u', '\x7b'] ++ Nat.toDigits 16 c.toNat ++ ['\x7d']
    else [c]

def quoted (s : String) : String :=
  .ofList ('"' :: s.toList.flatMap quotedChar ++ ['"'])

def quotedList (texts : List String) : String :=
  "[" ++ join ", " (texts.map quoted) ++ "]"

end Text

end DrawnModels
