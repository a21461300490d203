/-!
# Characters and texts

Sets of characters given by ranges of code points, white space and decimal digits of all scripts, ends of
lines, and texts that are cut at a mark.
-/

namespace CodeAtlas.Text

def inRanges (ranges : List (Nat × Nat)) (n : Nat) : Bool :=
  ranges.any fun (first, last) => first ≤ n && n ≤ last

/-! ## White space

The white space of Unicode, with the four information separators of ASCII. -/

def blankRanges : List (Nat × Nat) :=
  [(0x9, 0xd), (0x1c, 0x20), (0x85, 0x85), (0xa0, 0xa0), (0x1680, 0x1680), (0x2000, 0x200a),
   (0x2028, 0x2029), (0x202f, 0x202f), (0x205f, 0x205f), (0x3000, 0x3000)]

def isBlank (c : Char) : Bool :=
  inRanges blankRanges c.toNat

def stripChars (cs : List Char) : List Char :=
  ((cs.dropWhile isBlank).reverse.dropWhile isBlank).reverse

def strip (s : String) : String :=
  String.ofList (stripChars s.toList)

/-! ## Digits -/

/-- The zero of each run of ten digits. -/
def digitZeros : List Nat :=
  [0x30, 0x660, 0x6f0, 0x7c0, 0x966, 0x9e6, 0xa66, 0xae6, 0xb66, 0xbe6, 0xc66, 0xce6, 0xd66, 0xde6,
   0xe50, 0xed0, 0xf20, 0x1040, 0x1090, 0x17e0, 0x1810, 0x1946, 0x19d0, 0x1a80, 0x1a90, 0x1b50,
   0x1bb0, 0x1c40, 0x1c50, 0xa620, 0xa8d0, 0xa900, 0xa9d0, 0xa9f0, 0xaa50, 0xabf0, 0xff10, 0x104a0,
   0x10d30, 0x11066, 0x110f0, 0x11136, 0x111d0, 0x112f0, 0x11450, 0x114d0, 0x11650, 0x116c0,
   0x11730, 0x118e0, 0x11950, 0x11c50, 0x11d50, 0x11da0, 0x16a60, 0x16ac0, 0x16b50, 0x1d7ce,
   0x1d7d8, 0x1d7e2, 0x1d7ec, 0x1d7f6, 0x1e140, 0x1e2f0, 0x1e950, 0x1fbf0]

def digitValue? (c : Char) : Option Nat :=
  (digitZeros.find? fun z => z ≤ c.toNat && c.toNat < z + 10).map (c.toNat - ·)

/-! ## Ends of lines

Files may end their lines in three ways; texts in memory end them in one. -/

/-- A newline for each return and each return with a newline, after the reversed text before. -/
def unifyFrom (before : List Char) : List Char → List Char
  | [] => before.reverse
  | '\r' :: '\n' :: rest => unifyFrom ('\n' :: before) rest
  | '\r' :: rest => unifyFrom ('\n' :: before) rest
  | c :: rest => unifyFrom (c :: before) rest

def unifyNewlines (s : String) : String :=
  String.ofList (unifyFrom [] s.toList)

/-- The lines of a text, of whatever ends; nothing follows the last end. -/
def lines (s : String) : List String :=
  let parts := (unifyNewlines s).splitOn "\n"
  if parts.getLast? == some "" then parts.dropLast else parts

/-! ## Marks -/

/-- The pieces of a text between marks, with the piece begun before in reverse and so many characters
that are still part of a mark. -/
def splitFrom (mark piece : List Char) : Nat → List Char → List (List Char)
  | _, [] => [piece.reverse]
  | skip + 1, _ :: rest => splitFrom mark piece skip rest
  | 0, c :: rest =>
    if mark.isPrefixOf (c :: rest) then piece.reverse :: splitFrom mark [] (mark.length - 1) rest
    else splitFrom mark (c :: piece) 0 rest

def split (mark text : List Char) : List (List Char) :=
  splitFrom mark [] 0 text

def join (mark : List Char) (pieces : List (List Char)) : List Char :=
  List.intercalate mark pieces

def splitAtMost (mark : List Char) (most : Nat) (text : List Char) : List (List Char) :=
  let pieces := split mark text
  if pieces.length ≤ most + 1 then pieces
  else pieces.take most ++ [join mark (pieces.drop most)]

def countMarks (mark text : List Char) : Nat :=
  (split mark text).length - 1

end CodeAtlas.Text
