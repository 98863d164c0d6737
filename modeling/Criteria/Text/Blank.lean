/-!
# Blank characters and trimming

A character is blank when Unicode gives it the property `White_Space`. Trimming drops the blanks at
the ends of a text and nothing else, so that a trimmed text neither starts nor ends with one.

Texts are worked on as lists of characters; the functions on `String` wrap those on lists.
-/

namespace Criteria.Text

/-- The twenty-five characters with the property `White_Space`. The zero-width space U+200B, the
byte-order mark U+FEFF and the Mongolian vowel separator U+180E are not among them. -/
def isBlank (c : Char) : Bool :=
  let n := c.toNat
  (9 ≤ n && n ≤ 13) || n == 0x20 || n == 0x85 || n == 0xA0 || n == 0x1680 ||
    (0x2000 ≤ n && n ≤ 0x200A) || n == 0x2028 || n == 0x2029 || n == 0x202F || n == 0x205F ||
    n == 0x3000

/-- Drops the blanks in front. -/
def trimStart (cs : List Char) : List Char := cs.dropWhile isBlank

/-- Drops the blanks behind. -/
def trimEnd (cs : List Char) : List Char := (cs.reverse.dropWhile isBlank).reverse

/-- Drops the blanks on both sides. -/
def trim (cs : List Char) : List Char := trimEnd (trimStart cs)

@[simp] theorem trim_nil : trim [] = [] := rfl

/-- A text that begins with no blank is not changed in front. -/
theorem trimStart_cons {c : Char} (h : isBlank c = false) (cs : List Char) :
    trimStart (c :: cs) = c :: cs := by
  simp [trimStart, h]

end Criteria.Text
