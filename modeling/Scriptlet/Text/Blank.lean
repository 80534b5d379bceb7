/-!
# White space of running text

The characters that count as white space in Unicode text, with the four ASCII separators, and the
two operations on lines that need them.
-/

namespace Scriptlet.Text

/-- The code points of white space, as ranges with both ends included. -/
def blankRanges : List (Nat × Nat) :=
  [(0x09, 0x0d), (0x1c, 0x20), (0x85, 0x85), (0xa0, 0xa0), (0x1680, 0x1680), (0x2000, 0x200a),
    (0x2028, 0x2029), (0x202f, 0x202f), (0x205f, 0x205f), (0x3000, 0x3000)]

/-- The code point lies in one of the ranges. -/
def inRanges (ranges : List (Nat × Nat)) (point : Nat) : Bool :=
  ranges.any fun range => range.1 ≤ point && point ≤ range.2

/-- The character is white space. -/
def isBlank (char : Char) : Bool :=
  inRanges blankRanges char.toNat

/-- Nothing but white space. -/
def allBlank (chars : List Char) : Bool :=
  chars.all isBlank

/-- Drop white space behind the text. -/
def trimEnd (chars : List Char) : List Char :=
  (chars.reverse.dropWhile isBlank).reverse

/-- The first word of a line and the rest without the white space around it. -/
def firstWord (chars : List Char) : List Char × List Char :=
  let line := chars.dropWhile isBlank
  (line.takeWhile fun char => !isBlank char,
    trimEnd ((line.dropWhile fun char => !isBlank char).dropWhile isBlank))

end Scriptlet.Text
