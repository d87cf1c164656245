import DrawnModels.Text.Columns

/-!
# Ligatures

Some sequences of characters are drawn as one and fill fewer or more columns than their characters
do alone: emoji with their selectors, skin tones and joiners, and ligatures of several scripts.

A text is measured from its end. What stands ahead of a character, seen from the left, decides how
many columns the character adds, and the character in turn decides what stands ahead of the one
before it.
-/

namespace DrawnModels

namespace Text

/-- Pictures that are drawn as text unless a selector asks for an emoji. -/
def plainPictureRanges : Ranges :=
  [(0x0023, 0x0023), (0x002A, 0x002A), (0x0030, 0x0039), (0x00A9, 0x00A9), (0x00AE, 0x00AE),
   (0x203C, 0x203C), (0x2049, 0x2049), (0x2122, 0x2122), (0x2139, 0x2139), (0x2194, 0x2199),
   (0x21A9, 0x21AA), (0x2328, 0x2328), (0x23CF, 0x23CF), (0x23ED, 0x23EF), (0x23F1, 0x23F2),
   (0x23F8, 0x23FA), (0x24C2, 0x24C2), (0x25AA, 0x25AB), (0x25B6, 0x25B6), (0x25C0, 0x25C0),
   (0x25FB, 0x25FC), (0x2600, 0x2604), (0x260E, 0x260E), (0x2611, 0x2611), (0x2618, 0x2618),
   (0x261D, 0x261D), (0x2620, 0x2620), (0x2622, 0x2623), (0x2626, 0x2626), (0x262A, 0x262A),
   (0x262E, 0x262F), (0x2638, 0x263A), (0x2640, 0x2640), (0x2642, 0x2642), (0x265F, 0x2660),
   (0x2663, 0x2663), (0x2665, 0x2666), (0x2668, 0x2668), (0x267B, 0x267B), (0x267E, 0x267E),
   (0x2692, 0x2692), (0x2694, 0x2697), (0x2699, 0x2699), (0x269B, 0x269C), (0x26A0, 0x26A0),
   (0x26A7, 0x26A7), (0x26B0, 0x26B1), (0x26C8, 0x26C8), (0x26CF, 0x26CF), (0x26D1, 0x26D1),
   (0x26D3, 0x26D3), (0x26E9, 0x26E9), (0x26F0, 0x26F1), (0x26F4, 0x26F4), (0x26F7, 0x26F9),
   (0x2702, 0x2702), (0x2708, 0x2709), (0x270C, 0x270D), (0x270F, 0x270F), (0x2712, 0x2712),
   (0x2714, 0x2714), (0x2716, 0x2716), (0x271D, 0x271D), (0x2721, 0x2721), (0x2733, 0x2734),
   (0x2744, 0x2744), (0x2747, 0x2747), (0x2763, 0x2764), (0x27A1, 0x27A1), (0x2934, 0x2935),
   (0x2B05, 0x2B07), (0x3030, 0x3030), (0x303D, 0x303D), (0x3297, 0x3297), (0x3299, 0x3299),
   (0x1F170, 0x1F171), (0x1F17E, 0x1F17F), (0x1F202, 0x1F202), (0x1F237, 0x1F237),
   (0x1F321, 0x1F321), (0x1F324, 0x1F32C), (0x1F336, 0x1F336), (0x1F37D, 0x1F37D),
   (0x1F396, 0x1F397), (0x1F399, 0x1F39B), (0x1F39E, 0x1F39F), (0x1F3CB, 0x1F3CE),
   (0x1F3D4, 0x1F3DF), (0x1F3F3, 0x1F3F3), (0x1F3F5, 0x1F3F5), (0x1F3F7, 0x1F3F7),
   (0x1F43F, 0x1F43F), (0x1F441, 0x1F441), (0x1F4FD, 0x1F4FD), (0x1F549, 0x1F54A),
   (0x1F56F, 0x1F570), (0x1F573, 0x1F579), (0x1F587, 0x1F587), (0x1F58A, 0x1F58D),
   (0x1F590, 0x1F590), (0x1F5A5, 0x1F5A5), (0x1F5A8, 0x1F5A8), (0x1F5B1, 0x1F5B2),
   (0x1F5BC, 0x1F5BC), (0x1F5C2, 0x1F5C4), (0x1F5D1, 0x1F5D3), (0x1F5DC, 0x1F5DE),
   (0x1F5E1, 0x1F5E1), (0x1F5E3, 0x1F5E3), (0x1F5E8, 0x1F5E8), (0x1F5EF, 0x1F5EF),
   (0x1F5F3, 0x1F5F3), (0x1F5FA, 0x1F5FA), (0x1F6CB, 0x1F6CB), (0x1F6CD, 0x1F6CF),
   (0x1F6E0, 0x1F6E5), (0x1F6E9, 0x1F6E9), (0x1F6F0, 0x1F6F0), (0x1F6F3, 0x1F6F3)]

/-- Pictures that are drawn as emoji of two columns. -/
def emojiRanges : Ranges :=
  [(0x231A, 0x231B), (0x23E9, 0x23EC), (0x23F0, 0x23F0), (0x23F3, 0x23F3), (0x25FD, 0x25FE),
   (0x2614, 0x2615), (0x2648, 0x2653), (0x267F, 0x267F), (0x2693, 0x2693), (0x26A1, 0x26A1),
   (0x26AA, 0x26AB), (0x26BD, 0x26BE), (0x26C4, 0x26C5), (0x26CE, 0x26CE), (0x26D4, 0x26D4),
   (0x26EA, 0x26EA), (0x26F2, 0x26F3), (0x26F5, 0x26F5), (0x26FA, 0x26FA), (0x26FD, 0x26FD),
   (0x2705, 0x2705), (0x270A, 0x270B), (0x2728, 0x2728), (0x274C, 0x274C), (0x274E, 0x274E),
   (0x2753, 0x2755), (0x2757, 0x2757), (0x2795, 0x2797), (0x27B0, 0x27B0), (0x27BF, 0x27BF),
   (0x2B1B, 0x2B1C), (0x2B50, 0x2B50), (0x2B55, 0x2B55), (0x1F004, 0x1F004), (0x1F0CF, 0x1F0CF),
   (0x1F18E, 0x1F18E), (0x1F191, 0x1F19A), (0x1F201, 0x1F201), (0x1F21A, 0x1F21A),
   (0x1F22F, 0x1F22F), (0x1F232, 0x1F236), (0x1F238, 0x1F23A), (0x1F250, 0x1F251),
   (0x1F300, 0x1F320), (0x1F32D, 0x1F335), (0x1F337, 0x1F37C), (0x1F37E, 0x1F393),
   (0x1F3A0, 0x1F3CA), (0x1F3CF, 0x1F3D3), (0x1F3E0, 0x1F3F0), (0x1F3F4, 0x1F3F4),
   (0x1F3F8, 0x1F3FA), (0x1F400, 0x1F43E), (0x1F440, 0x1F440), (0x1F442, 0x1F4FC),
   (0x1F4FF, 0x1F53D), (0x1F54B, 0x1F54E), (0x1F550, 0x1F567), (0x1F57A, 0x1F57A),
   (0x1F595, 0x1F596), (0x1F5A4, 0x1F5A4), (0x1F5FB, 0x1F64F), (0x1F680, 0x1F6C5),
   (0x1F6CC, 0x1F6CC), (0x1F6D0, 0x1F6D2), (0x1F6D5, 0x1F6D7), (0x1F6DC, 0x1F6DF),
   (0x1F6EB, 0x1F6EC), (0x1F6F4, 0x1F6FC), (0x1F7E0, 0x1F7EB), (0x1F7F0, 0x1F7F0),
   (0x1F90C, 0x1F93A), (0x1F93C, 0x1F945), (0x1F947, 0x1F9FF), (0x1FA70, 0x1FA7C),
   (0x1FA80, 0x1FA88), (0x1FA90, 0x1FABD), (0x1FABF, 0x1FAC5), (0x1FACE, 0x1FADB),
   (0x1FAE0, 0x1FAE8), (0x1FAF0, 0x1FAF8)]

/-- Pictures of people and hands, which take a skin tone. -/
def figureRanges : Ranges :=
  [(0x261D, 0x261D), (0x26F9, 0x26F9), (0x270A, 0x270D), (0x1F385, 0x1F385), (0x1F3C2, 0x1F3C4),
   (0x1F3C7, 0x1F3C7), (0x1F3CA, 0x1F3CC), (0x1F442, 0x1F443), (0x1F446, 0x1F450),
   (0x1F466, 0x1F478), (0x1F47C, 0x1F47C), (0x1F481, 0x1F483), (0x1F485, 0x1F487),
   (0x1F48F, 0x1F48F), (0x1F491, 0x1F491), (0x1F4AA, 0x1F4AA), (0x1F574, 0x1F575),
   (0x1F57A, 0x1F57A), (0x1F590, 0x1F590), (0x1F595, 0x1F596), (0x1F645, 0x1F647),
   (0x1F64B, 0x1F64F), (0x1F6A3, 0x1F6A3), (0x1F6B4, 0x1F6B6), (0x1F6C0, 0x1F6C0),
   (0x1F6CC, 0x1F6CC), (0x1F90C, 0x1F90C), (0x1F90F, 0x1F90F), (0x1F918, 0x1F91F),
   (0x1F926, 0x1F926), (0x1F930, 0x1F939), (0x1F93C, 0x1F93E), (0x1F977, 0x1F977),
   (0x1F9B5, 0x1F9B6), (0x1F9B8, 0x1F9B9), (0x1F9BB, 0x1F9BB), (0x1F9CD, 0x1F9CF),
   (0x1F9D1, 0x1F9DD), (0x1FAC3, 0x1FAC5), (0x1FAF0, 0x1FAF8)]

/-- Emoji that a selector can turn into text of one column. -/
def textStyleRanges : Ranges :=
  [(0x231A, 0x231B), (0x23E9, 0x23EC), (0x23F0, 0x23F0), (0x23F3, 0x23F3), (0x25FD, 0x25FE),
   (0x2614, 0x2615), (0x2648, 0x2653), (0x267F, 0x267F), (0x2693, 0x2693), (0x26A1, 0x26A1),
   (0x26AA, 0x26AB), (0x26BD, 0x26BE), (0x26C4, 0x26C5), (0x26CE, 0x26CE), (0x26D4, 0x26D4),
   (0x26EA, 0x26EA), (0x26F2, 0x26F3), (0x26F5, 0x26F5), (0x26FA, 0x26FA), (0x26FD, 0x26FD),
   (0x2705, 0x2705), (0x270A, 0x270B), (0x2728, 0x2728), (0x274C, 0x274C), (0x274E, 0x274E),
   (0x2753, 0x2755), (0x2757, 0x2757), (0x2795, 0x2797), (0x27B0, 0x27B0), (0x27BF, 0x27BF),
   (0x2B1B, 0x2B1C), (0x2B50, 0x2B50), (0x2B55, 0x2B55), (0x1F004, 0x1F004), (0x1F30D, 0x1F30F),
   (0x1F315, 0x1F315), (0x1F31C, 0x1F31C), (0x1F378, 0x1F378), (0x1F393, 0x1F393),
   (0x1F3A7, 0x1F3A7), (0x1F3AC, 0x1F3AE), (0x1F3C2, 0x1F3C2), (0x1F3C4, 0x1F3C4),
   (0x1F3C6, 0x1F3C6), (0x1F3CA, 0x1F3CA), (0x1F3E0, 0x1F3E0), (0x1F3ED, 0x1F3ED),
   (0x1F408, 0x1F408), (0x1F415, 0x1F415), (0x1F41F, 0x1F41F), (0x1F426, 0x1F426),
   (0x1F442, 0x1F442), (0x1F446, 0x1F449), (0x1F44D, 0x1F44E), (0x1F453, 0x1F453),
   (0x1F46A, 0x1F46A), (0x1F47D, 0x1F47D), (0x1F4A3, 0x1F4A3), (0x1F4B0, 0x1F4B0),
   (0x1F4B3, 0x1F4B3), (0x1F4BB, 0x1F4BB), (0x1F4BF, 0x1F4BF), (0x1F4CB, 0x1F4CB),
   (0x1F4DA, 0x1F4DA), (0x1F4DF, 0x1F4DF), (0x1F4E4, 0x1F4E6), (0x1F4EA, 0x1F4ED),
   (0x1F4F7, 0x1F4F7), (0x1F4F9, 0x1F4FB), (0x1F508, 0x1F508), (0x1F50D, 0x1F50D),
   (0x1F512, 0x1F513), (0x1F550, 0x1F567), (0x1F610, 0x1F610), (0x1F687, 0x1F687),
   (0x1F68D, 0x1F68D), (0x1F691, 0x1F691), (0x1F694, 0x1F694), (0x1F698, 0x1F698),
   (0x1F6AD, 0x1F6AD), (0x1F6B2, 0x1F6B2), (0x1F6B9, 0x1F6BA), (0x1F6BC, 0x1F6BC)]

/-- Characters without columns that keep the letters around them from being joined. -/
def opaqueRanges : Ranges :=
  [(0x0605, 0x0605), (0x0890, 0x0891), (0x08E2, 0x08E2), (0x09BE, 0x09BE), (0x09D7, 0x09D7),
   (0x0B3E, 0x0B3E), (0x0B57, 0x0B57), (0x0BBE, 0x0BBE), (0x0BD7, 0x0BD7), (0x0CC0, 0x0CC0),
   (0x0CC2, 0x0CC2), (0x0CC7, 0x0CC8), (0x0CCA, 0x0CCB), (0x0CD5, 0x0CD6), (0x0D3E, 0x0D3E),
   (0x0D4E, 0x0D4E), (0x0D57, 0x0D57), (0x0DCF, 0x0DCF), (0x0DDF, 0x0DDF), (0x1160, 0x11FF),
   (0x180E, 0x180E), (0x1B35, 0x1B35), (0x1B3B, 0x1B3B), (0x1B3D, 0x1B3D), (0x1B43, 0x1B43),
   (0x200C, 0x200D), (0x2065, 0x2069), (0x302E, 0x302F), (0x3164, 0x3164), (0xA8FA, 0xA8FA),
   (0xD7B0, 0xD7C6), (0xD7CB, 0xD7FB), (0xFF9E, 0xFFA0), (0xFFF0, 0xFFF8), (0x111C2, 0x111C3),
   (0x1133E, 0x1133E), (0x11357, 0x11357), (0x114B0, 0x114B0), (0x114BD, 0x114BD),
   (0x115AF, 0x115AF), (0x11930, 0x11930), (0x1193F, 0x1193F), (0x11941, 0x11941),
   (0x11A3A, 0x11A3A), (0x11A84, 0x11A89), (0x11D46, 0x11D46), (0x11F02, 0x11F02),
   (0x1D165, 0x1D165), (0x1D16E, 0x1D172), (0xE0000, 0xE0000), (0xE0002, 0xE001F),
   (0xE0080, 0xE00FF), (0xE01F0, 0xE0FFF)]

/-- A character that chooses between the two looks of a picture. -/
inductive Selector
  | text
  | emoji
deriving DecidableEq

/-- What a character can be joined with. A letter that is joined has a joiner in front. -/
inductive Partner
  | emoji
  | skinTone
  /-- One letter of a flag. -/
  | flagLetter
  /-- Several letters of flags. -/
  | flagLetters
  /-- An emoji with a joiner in front. -/
  | joinedEmoji
  /-- The mark of a keycap, a joiner and an emoji. -/
  | joinedKeycap
  /-- One letter of a flag, a joiner and an emoji. -/
  | joinedFlagLetter
  /-- Several letters of flags, a joiner and an emoji. -/
  | joinedFlagLetters (odd : Bool)
  /-- The last letters in the name of a regional flag, a joiner and an emoji. -/
  | tagLetters (n : Nat)
  /-- Digits in the name of a regional flag, a joiner and an emoji. -/
  | tagDigits (n : Nat)
  /-- Arabic Alef, which joins with Lam. -/
  | alef
  /-- Hebrew Lamed, which joins with Alef by a joiner. -/
  | lamed (joined : Bool)
  /-- Buginese Ya, which joins by a joiner with a letter A that carries the vowel I. -/
  | ya (joined : Bool)
  | voweledYa
  /-- A Tifinagh consonant, which joins with another by a joiner of either kind. -/
  | consonant (joined : Bool)
  | linkedConsonant
  /-- A Khmer letter that turns into a subscript. -/
  | subscript
  /-- A Lisu tone letter that joins with another. -/
  | tone
  /-- Old Turkic I, which joins with another letter by a joiner. -/
  | orkhonI (joined : Bool)
deriving DecidableEq

/-- What stands right of a character. -/
structure Ahead where
  selector : Option Selector
  partner : Option Partner
deriving DecidableEq

namespace Ahead

def nothing : Ahead :=
  ⟨none, none⟩

def of (p : Partner) : Ahead :=
  ⟨none, some p⟩

end Ahead

/-- The joiner, which shows nothing and asks for the characters around it to be drawn as one. -/
def joiner : Char := '\u200D'

def letter? (c : Char) : Option Partner :=
  if Ranges.contains [(0x0622, 0x0623), (0x0625, 0x0625), (0x0627, 0x0627), (0x0671, 0x0673),
      (0x0675, 0x0675), (0x0773, 0x0774), (0x0870, 0x0882)] c then some .alef
  else if c = '\u05DC' then some (.lamed false)
  else if c = '\u1A10' then some (.ya false)
  else if Ranges.contains [(0x2D31, 0x2D65), (0x2D6F, 0x2D6F)] c then some (.consonant false)
  else if Ranges.contains [(0x1780, 0x1782), (0x1784, 0x1787), (0x1789, 0x178C), (0x178E, 0x1793),
      (0x1795, 0x1798), (0x179B, 0x179D), (0x17A0, 0x17A0), (0x17A2, 0x17A2), (0x17A7, 0x17A7),
      (0x17AB, 0x17AC), (0x17AF, 0x17AF)] c then some .subscript
  else if Ranges.contains [(0xA4FC, 0xA4FD)] c then some .tone
  else if c.toNat = 0x10C03 then some (.orkhonI false)
  else none

/-- Whether a picture looks like an emoji if a selector asks for that. -/
def takesEmojiSelector (c : Char) : Bool :=
  plainPictureRanges.contains c || textStyleRanges.contains c ||
    Ranges.contains [(0x1F21A, 0x1F21A), (0x1F22F, 0x1F22F)] c

def isFlagLetter (c : Char) : Bool :=
  Ranges.contains [(0x1F1E6, 0x1F1FF)] c

/-- A skin tone or an emoji, as a partner of the character before it. -/
def picture? (c : Char) : Option Partner :=
  if Ranges.contains [(0x1F3FB, 0x1F3FF)] c then some .skinTone
  else if emojiRanges.contains c then some .emoji
  else none

def partner? (c : Char) : Option Partner :=
  if isFlagLetter c then some .flagLetter else (picture? c).or (letter? c)

/-- A character that adds the columns it fills alone. -/
def alone (c : Char) : Int × Ahead :=
  (columns c, ⟨none, partner? c⟩)

/-- Whether a mark may stand inside a ligature without breaking it. -/
def isInert (c : Char) : Bool :=
  Ranges.contains [(0x034F, 0x034F), (0x17B4, 0x17B5), (0x180B, 0x180D), (0x180F, 0x180F),
    (0xFE00, 0xFE0F), (0xE0100, 0xE01EF)] c

namespace Partner

/-- Whether this is a letter of a script, and nothing that emoji are made of. -/
def isLetter : Partner → Bool
  | alef | lamed _ | ya _ | voweledYa | consonant _ | linkedConsonant | subscript | tone
  | orkhonI _ => true
  | _ => false

/-- Whether joiners and inert marks in front of this keep it as a partner. -/
def isSeenThrough (p : Partner) : Bool :=
  p.isLetter && p ≠ alef

/-- Whether this is a joiner and an emoji, perhaps with a keycap, which a picture joins. -/
def isJoined (p : Partner) : Bool :=
  p = joinedEmoji || p = joinedKeycap

/-- A partner with a joiner in front, if that makes a difference. -/
def join? : Partner → Option Partner
  | emoji | skinTone | flagLetters | joinedFlagLetters _ => some joinedEmoji
  | lamed _ => some (lamed true)
  | ya _ => some (ya true)
  | consonant _ => some (consonant true)
  | orkhonI _ => some (orkhonI true)
  | p => if p.isSeenThrough then some p else none

/-- What a character adds when it joins with an emoji that has a joiner in front, if it does. -/
def meetJoined? (c : Char) : Option (Int × Ahead) :=
  if c = '\u20E3' then some (0, .of joinedKeycap)
  else if isFlagLetter c then some (1, .of joinedFlagLetter)
  else if c.toNat = 0xE007F then some (0, .of (tagLetters 0))
  else (picture? c).map fun p => (0, .of p)

/-- What a character adds in front of the last letters in the name of a regional flag, if that can
be a part of the name or the flag. -/
def meetTagLetters? (n : Nat) (c : Char) : Option (Int × Ahead) :=
  if n < 6 ∧ Ranges.contains [(0xE0061, 0xE007A)] c then some (0, .of (tagLetters (n + 1)))
  else if n < 5 ∧ Ranges.contains [(0xE0030, 0xE0039)] c then some (0, .of (tagDigits 1))
  else if 3 ≤ n ∧ c.toNat = 0x1F3F4 then some (0, .of emoji)
  else none

/-- What a character adds in front of digits in the name of a regional flag, if that can be a part
of the name or the flag. -/
def meetTagDigits? (n : Nat) (c : Char) : Option (Int × Ahead) :=
  if n < 3 ∧ Ranges.contains [(0xE0030, 0xE0039)] c then some (0, .of (tagDigits (n + 1)))
  else if n = 3 ∧ c.toNat = 0x1F3F4 then some (0, .of emoji)
  else none

/-- What a character adds when it joins with what stands ahead of it, if it does. -/
def meet? (p : Partner) (c : Char) : Option (Int × Ahead) :=
  if c = joiner then p.join?.map fun q => (0, .of q)
  else if p.isSeenThrough && isInert c then some (0, .of p)
  else
    match p with
    | emoji | joinedKeycap => none
    | skinTone => if figureRanges.contains c then some (0, .of emoji) else none
    | flagLetter | flagLetters => if isFlagLetter c then some (1, .of flagLetters) else none
    | joinedEmoji => meetJoined? c
    | joinedFlagLetter | joinedFlagLetters true =>
      if isFlagLetter c then some (-1, .of (joinedFlagLetters false)) else none
    | joinedFlagLetters false =>
      if isFlagLetter c then some (3, .of (joinedFlagLetters true)) else none
    | tagLetters n => meetTagLetters? n c
    | tagDigits n => meetTagDigits? n c
    | alef =>
      if Ranges.contains [(0x0644, 0x0644), (0x06B5, 0x06B8), (0x076A, 0x076A), (0x08A6, 0x08A6),
          (0x08C7, 0x08C7)] c then some (0, .nothing)
      else if columns c = 0 && !opaqueRanges.contains c then some (0, .of alef)
      else none
    | lamed joined => if joined ∧ c = '\u05D0' then some (0, .nothing) else none
    | ya joined => if joined ∧ c = '\u1A17' then some (0, .of voweledYa) else none
    | voweledYa => if c = '\u1A15' then some (0, .nothing) else none
    | consonant joined =>
      if c = '\u2D7F' then some (1, .of linkedConsonant)
      else if joined && letter? c = some (consonant false) then some (0, .nothing)
      else none
    | linkedConsonant => if letter? c = some (consonant false) then some (-1, .nothing) else none
    | subscript => if c = '\u17D2' then some (-1, .nothing) else none
    | tone => if Ranges.contains [(0xA4F8, 0xA4FB)] c then some (0, .nothing) else none
    | orkhonI joined => if joined ∧ c.toNat = 0x10C32 then some (0, .nothing) else none

end Partner

/-- What stands right of a character that takes no emoji selector. -/
def Ahead.unselected (a : Ahead) : Ahead :=
  if a.selector = some .emoji then ⟨none, a.partner.filter Partner.isLetter⟩ else a

/-- What a character adds to the columns of the text from it on, and how it looks from the left. -/
def weigh (c : Char) (ahead : Ahead) : Int × Ahead :=
  if ahead.selector = some .emoji && takesEmojiSelector c then
    (if ahead.partner.any Partner.isJoined then 0 else 2, .of .emoji)
  else
    let ahead := ahead.unselected
    if c.toNat ≤ 0xA0 then (1, .nothing)
    else if c = '\uFE0F' then
      (0, ⟨some .emoji, ahead.partner.filter fun p => p.isLetter || p.isJoined⟩)
    else if c = '\uFE0E' then (0, ⟨some .text, ahead.partner.filter Partner.isLetter⟩)
    else if ahead.selector = some .text && textStyleRanges.contains c then (1, .nothing)
    else (ahead.partner.bind fun p => p.meet? c).getD (alone c)

def measure : List Char → Int × Ahead
  | [] => (0, .nothing)
  | c :: rest =>
    let (filled, ahead) := measure rest
    let (added, here) := weigh c ahead
    (filled + added, here)

def columnsOf (s : List Char) : Nat :=
  (measure s).1.toNat

end Text

end DrawnModels
