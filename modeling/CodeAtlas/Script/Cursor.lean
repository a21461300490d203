import CodeAtlas.Analysis

/-!
# Places in a text
-/

namespace CodeAtlas.Script

/-- The text still to be read, how many characters it has, and where it stands in the file. -/
structure Cursor where
  rest : List Char
  left : Nat
  line : Nat := 0
  column : Nat := 0

namespace Cursor

def ofText (text : String) : Cursor :=
  { rest := text.toList, left := text.length }

/-- Only a line feed starts a new line; a column counts bytes. -/
def advance (c : Cursor) : Nat → Cursor
  | 0 => c
  | n + 1 =>
    match c.rest with
    | [] => c
    | ch :: rest =>
      if ch == '\n' then advance ⟨rest, c.left - 1, c.line + 1, 0⟩ n
      else advance ⟨rest, c.left - 1, c.line, c.column + ch.utf8Size⟩ n

def position (c : Cursor) : Position :=
  { line := c.line + 1, column := c.column }

def textTo (c d : Cursor) : String :=
  String.ofList (c.rest.take (c.left - d.left))

def spanTo (c d : Cursor) : Span :=
  ⟨c.position, d.position⟩

end Cursor

end CodeAtlas.Script
