/-!
# Tables of text

Columns as wide as their widest cell, in boxes whose head is drawn with heavy lines.
-/

namespace CodeAtlas

structure TextTable where
  title : String
  head : List String
  rows : List (List String)
deriving Repr, Inhabited

namespace TextTable

def column (t : TextTable) (i : Nat) : List String :=
  (t.head :: t.rows).map fun row => row.getD i ""

def widths (t : TextTable) : List Nat :=
  (List.range t.head.length).map fun i => ((t.column i).map String.length).foldl max 0

def filled (c : Char) (n : Nat) : String :=
  String.ofList (List.replicate n c)

def rule (t : TextTable) (line : Char) (left between right : String) : String :=
  left ++ between.intercalate (t.widths.map fun w => filled line (w + 2)) ++ right

def row (t : TextTable) (bar : String) (cells : List String) : String :=
  let boxes := (cells.zip t.widths).map fun (cell, w) =>
    " " ++ cell ++ filled ' ' (w - cell.length) ++ " "
  bar ++ bar.intercalate boxes ++ bar

def width (t : TextTable) : Nat :=
  t.widths.foldl (fun n w => n + w + 3) 1

/-- The title in the middle, or a little to the left of it. -/
def titleLine (t : TextTable) : String :=
  let spare := t.width - t.title.length
  filled ' ' (spare / 2) ++ t.title ++ filled ' ' (spare - spare / 2)

def lines (t : TextTable) : List String :=
  [t.titleLine, t.rule '━' "┏" "┳" "┓", t.row "┃" t.head, t.rule '━' "┡" "╇" "┩"]
    ++ t.rows.map (t.row "│") ++ [t.rule '─' "└" "┴" "┘"]

def render (t : TextTable) : String :=
  String.join (t.lines.map (· ++ "\n"))

end TextTable

end CodeAtlas
