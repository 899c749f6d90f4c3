import VaultSchema.Console.Lines
import VaultSchema.Console.Markup

set_option autoImplicit false

namespace VaultSchema.Console

structure Column where
  head : String
  alignment : Alignment := .left

structure Grid where
  title : String
  titleAlignment : Alignment := .centre
  columns : List Column
  rows : List (List String)

namespace Grid

def cell? (markup : String) : Option (List (List Char)) :=
  (Markup.text? markup).map fun s => Text.splitList (· == '\n') (expandTabs 0 s.toList)

def cellWidth (cell : List (List Char)) : Nat := ((cell.map width).max?).getD 0

/-- A line across the table: its left end, what it is made of, its crossings, and its right end. -/
def rule (left line crossing right : String) (widths : List Nat) : String :=
  left ++ crossing.intercalate (widths.map fun w => String.join (List.replicate (w + 2) line)) ++ right

def rowLines (left between right : String) (columns : List (Alignment × Nat))
    (cells : List (List (List Char))) : List String :=
  let height := ((cells.map List.length).max?).getD 1
  (List.range height).map fun n =>
    let shown := (columns.zip cells).map fun (c, cell) =>
      " " ++ String.ofList (align c.1 c.2 (cell.getD n [])) ++ " "
    left ++ between.intercalate shown ++ right

def lines? (g : Grid) : Option (List String) := do
  let title ← Markup.text? g.title
  let heads ← g.columns.mapM fun c => cell? c.head
  let rows ← g.rows.mapM fun r => r.mapM cell?
  let widths := (List.range g.columns.length).map fun n =>
    max 1 (((heads :: rows).map fun cells => cellWidth (cells.getD n [])).max?.getD 0)
  let columns := (g.columns.map (·.alignment)).zip widths
  let wide := widths.foldl (fun n w => n + w + 2) (widths.length + 1)
  let titleLines := (layOut wide title.toList).map fun l => String.ofList (align g.titleAlignment wide l)
  return titleLines
    ++ [rule "┏" "━" "┳" "┓" widths]
    ++ rowLines "┃" "┃" "┃" (columns.map fun c => (c.1, c.2)) heads
    ++ [rule "┡" "━" "╇" "┩" widths]
    ++ rows.flatMap (rowLines "│" "│" "│" columns)
    ++ [rule "└" "─" "┴" "┘" widths]

end Grid
end VaultSchema.Console
