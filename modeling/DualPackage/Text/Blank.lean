import DualPackage.Text.Word
/-!
# White space

The white space between the words of a clause is that of the Unicode
property White_Space, which is wider than the blanks of a keyboard: it
holds the no-break space and the line separator among others. No white
space is a word character, so a keyword may always begin after it.
-/

namespace DualPackage

namespace Text

/-- The code points of the Unicode property White_Space. -/
def blankRanges : Ranges where
  blocks := [(0x9, 0xD), (0x20, 0x20), (0x85, 0x85), (0xA0, 0xA0), (0x1680, 0x1680),
    (0x2000, 0x200A), (0x2028, 0x2029), (0x202F, 0x202F), (0x205F, 0x205F), (0x3000, 0x3000)]

/-- Whether a character is white space. -/
def isBlank (c : Char) : Bool :=
  blankRanges.contains c.toNat

theorem blankRanges_apart_wordRanges : blankRanges.Apart wordRanges := by
  decide +kernel

theorem isWord_eq_false_of_isBlank {c : Char} (h : isBlank c) : isWord c = false :=
  blankRanges_apart_wordRanges.not_contains h

/-- A text that is empty or white space only. -/
def allBlank (text : List Char) : Bool :=
  text.all isBlank

/-- The text without the white space it begins with. -/
def skipBlank (text : List Char) : List Char :=
  text.dropWhile isBlank

/-- The white space a text begins with. -/
def leadingBlank (text : List Char) : List Char :=
  text.takeWhile isBlank

@[simp] theorem leadingBlank_append_skipBlank (text : List Char) :
    leadingBlank text ++ skipBlank text = text :=
  List.takeWhile_append_dropWhile

end Text

end DualPackage
