/-!
# White space

The characters with the Unicode property White_Space, and the cutting of text
at them.  All functions work on lists of characters; `String` wrappers stand
where a caller needs them.

* `trim` removes white space at both ends.
* `nextWord` splits off the first maximal run without white space.
* `crlfLines` cuts text at every CR LF.
-/

namespace FramedChannel.Text

/-- A character with the Unicode property White_Space. -/
def isBlank (c : Char) : Bool :=
  let n := c.toNat
  (0x9 ≤ n && n ≤ 0xD) || n == 0x20 || n == 0x85 || n == 0xA0 || n == 0x1680 ||
    (0x2000 ≤ n && n ≤ 0x200A) || n == 0x2028 || n == 0x2029 || n == 0x202F || n == 0x205F ||
    n == 0x3000

/-- Text without the white space at its two ends. -/
def trim (text : List Char) : List Char :=
  ((text.dropWhile isBlank).reverse.dropWhile isBlank).reverse

/-- The first word of a text and what follows it. -/
def nextWord (text : List Char) : Option (List Char × List Char) :=
  match text.dropWhile isBlank with
  | [] => none
  | c :: rest => some ((c :: rest).span fun d => !isBlank d)

/-- The pieces of a text between its CR LF pairs. -/
def crlfLines : List Char → List (List Char)
  | [] => [[]]
  | '\r' :: '\n' :: rest => [] :: crlfLines rest
  | c :: rest =>
    match crlfLines rest with
    | [] => [[c]]
    | line :: lines => (c :: line) :: lines

/-- The text before the first `mark` and the text behind it. -/
def cutAt (mark : Char) (text : List Char) : Option (List Char × List Char) :=
  match text.span (· != mark) with
  | (_, []) => none
  | (before, _ :: behind) => some (before, behind)

/-- The pieces of a text between its occurrences of `mark`. -/
def piecesAt (mark : Char) : List Char → List (List Char)
  | [] => [[]]
  | c :: rest =>
    if c = mark then [] :: piecesAt mark rest
    else
      match piecesAt mark rest with
      | [] => [[c]]
      | piece :: pieces => (c :: piece) :: pieces

/-- A text with its ASCII capitals made small. -/
def lowercaseAscii (text : List Char) : List Char :=
  text.map Char.toLower

end FramedChannel.Text
