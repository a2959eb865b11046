import TrackGrid.Line

/-! Pictures of a grid, for checking track sizes by eye. Every cell is painted in a color of its
own; what no cell reaches stays transparent. -/

namespace TrackGrid

/-- A cell of a grid, which stands for its color. -/
structure Cell where
  row : Nat
  column : Nat
  deriving DecidableEq, Repr

/-- The pixels from `start` up to `stop`, without the latter, along one axis. -/
structure Band where
  start : Int
  stop : Int
  deriving DecidableEq, Repr

namespace Band

def has (band : Band) (position : Nat) : Bool := band.start ≤ position && position < band.stop

/-- The part of a band within the first `extent` positions. Its stop may lie before its start. -/
def clip (band : Band) (extent : Nat) : Band := ⟨max band.start 0, min band.stop extent⟩

end Band

structure Block where
  down : Band
  across : Band
  cell : Cell
  deriving DecidableEq, Repr

namespace Block

def isProper (block : Block) : Bool :=
  block.down.start < block.down.stop && block.across.start < block.across.stop

def has (block : Block) (x y : Nat) : Bool := block.down.has y && block.across.has x

end Block

/-- Rows of pixels from the top, each from the left. A picture keeps its width if it has no row. -/
structure Picture where
  width : Nat
  rows : List (List (Option Cell))
  deriving DecidableEq

namespace Picture

def height (picture : Picture) : Nat := picture.rows.length

def pixel (picture : Picture) (x y : Nat) : Option Cell :=
  (picture.rows[y]?.bind fun row => row[x]?).join

/-- A transparent picture. One without rows takes no time, however wide it is. -/
def blank (width height : Nat) : Picture :=
  ⟨width, if height = 0 then [] else List.replicate height (List.replicate width none)⟩

def paintRow (band : Band) (cell : Cell) (row : List (Option Cell)) : List (Option Cell) :=
  row.mapIdx fun x seen => if band.has x then some cell else seen

def paint (picture : Picture) (block : Block) : Picture :=
  { picture with
    rows := picture.rows.mapIdx fun y row =>
      if block.down.has y then paintRow block.across block.cell row else row }

def bands (line : Line) (extent : Nat) : Except Fault (List Band) :=
  (List.range line.sizes.length).mapM fun (index : Nat) => do
    let start ← itemAt line.offsets index
    let stop ← itemAt line.offsets (index + 1)
    return Band.clip ⟨start, stop⟩ extent

/-- The blocks that the cells of a grid fill of a picture, row by row. A cell without a pixel in the
picture fills none. -/
def blocks (grid : Grid) (size : Size) : Except Fault (List Block) := do
  let downs ← bands grid.rows size.height.toNat
  let acrosses ← if downs.isEmpty then pure [] else bands grid.columns size.width.toNat
  let cells := downs.zipIdx.flatMap fun (down, row) =>
    acrosses.zipIdx.map fun (across, column) => (⟨down, across, ⟨row, column⟩⟩ : Block)
  return cells.filter Block.isProper

def ofGrid (grid : Grid) (size : Size) : Except Fault Picture := do
  return (← blocks grid size).foldl paint (blank size.width.toNat size.height.toNat)

/-- The picture of a grid with colors drawn from a seed. `prepare` makes room for the picture and
takes the seed, either of which may fail. The colors of the cells differ whatever the seed is, so a
cell still stands for its color. -/
def draw (prepare : Size → Int → Except Fault Unit) (grid : Grid) (size : Size) (seed : Int) :
    Except Fault Picture := do
  prepare size seed
  ofGrid grid size

end Picture

namespace Picture

def runs {α : Type} [DecidableEq α] : List α → List (Nat × α)
  | [] => []
  | a :: rest =>
      match runs rest with
      | (count, b) :: others =>
          if a = b then (count + 1, a) :: others else (1, a) :: (count, b) :: others
      | [] => [(1, a)]

/-- Puts those cells behind the known ones that are seen here for the first time. -/
def meet (known : List Cell) (seen : List (Option Cell)) : List Cell :=
  seen.foldl
    (fun known cell? => match cell? with
      | some cell => if known.contains cell then known else known ++ [cell]
      | none => known)
    known

def number (known : List Cell) : Option Cell → Nat
  | some cell => (known.idxOf cell) + 1
  | none => 0

/-- A picture in short. Cells of a row that are counted together are also numbered together, for
different cells have different numbers. -/
def inShort (picture : Picture) : List (Nat × List (Nat × Nat)) :=
  let merged := (runs picture.rows).map fun (count, row) => (count, runs row)
  let known := merged.foldl (fun known (_, row) => meet known (row.map Prod.snd)) []
  merged.map fun (count, row) => (count, row.map fun (length, seen) => (length, number known seen))

end Picture

end TrackGrid
