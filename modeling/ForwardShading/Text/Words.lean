/-!
# White space and words

White space is the Unicode property White_Space. A text is read as the list of its words, the
maximal runs of other characters; `collapse` writes the words back with one space between them.
-/

namespace ForwardShading.Text

/-- Holds of the characters with the Unicode property White_Space. -/
def isWhite (c : Char) : Bool :=
  let n := c.toNat
  (9 ≤ n && n ≤ 13) || n == 0x20 || n == 0x85 || n == 0xA0 || n == 0x1680 ||
    (0x2000 ≤ n && n ≤ 0x200A) || n == 0x2028 || n == 0x2029 || n == 0x202F || n == 0x205F ||
    n == 0x3000

/-- The maximal runs of characters that are not white space, in order. -/
def words (cs : List Char) : List (List Char) :=
  (cs.splitOnP isWhite).filter (!·.isEmpty)

/-- Words with a space between them. -/
def unwords (ws : List (List Char)) : List Char :=
  [' '].intercalate ws

/-- Shrinks every inner run of white space to one space and drops the outer ones. -/
def collapse (cs : List Char) : List Char :=
  unwords (words cs)

/-- A text without the white space in front. -/
def trimStart (cs : List Char) : List Char :=
  cs.dropWhile isWhite

/-- A text without the white space in front and behind. -/
def trim (cs : List Char) : List Char :=
  ((trimStart cs).reverse.dropWhile isWhite).reverse

end ForwardShading.Text
