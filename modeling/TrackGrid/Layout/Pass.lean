import TrackGrid.Host

/-! Layout passes: the grid for a frame, and the place of every component on it. What lies outside
of the grid or fails is reported and keeps its bounds. -/

namespace TrackGrid

/-- Where something begins along an axis and how long it is there. -/
structure Stretch where
  start : Int
  length : Int
  deriving DecidableEq, Repr

namespace Line

def startOf (line : Line) (track : Int) : Except Fault Int := itemAt line.offsets track

def stopOf (line : Line) (track : Int) : Except Fault Int := itemAt line.offsets (track + 1)

def placeInCell (line : Line) (cell : Int) (align : Alignment) (preferred : Int) :
    Except Fault Stretch := do
  let cellLength ← itemAt line.sizes cell
  let length := if align = .full ∨ cellLength < preferred then cellLength else preferred
  match align with
  | .trailing => return ⟨(← line.stopOf cell) - length, length⟩
  | .center => return ⟨(← line.startOf cell) + (cellLength - length) / 2, length⟩
  | _ => return ⟨← line.startOf cell, length⟩

end Line

namespace Rect

def ofStretches (across down : Stretch) : Rect :=
  ⟨across.start, down.start, across.length, down.length⟩

end Rect

namespace Constraint

/-- Whether the place depends on the preferred size: in a single cell that is not filled. -/
def needsPreferred : Constraint → Bool
  | .single _ align => align.columns ≠ .full || align.rows ≠ .full
  | .span _ => false

def place (c : Constraint) (grid : Grid) (preferred : Size) : Except Fault Rect := do
  match c with
  | .single cell align =>
      let across ← grid.columns.placeInCell cell.columns align.columns preferred.width
      let down ← grid.rows.placeInCell cell.rows align.rows preferred.height
      return Rect.ofStretches across down
  | .span cells =>
      let left ← grid.columns.startOf cells.columns.first
      let top ← grid.rows.startOf cells.rows.first
      let right ← grid.columns.stopOf cells.columns.last
      let bottom ← grid.rows.stopOf cells.rows.last
      return Rect.ofStretches ⟨left, right - left⟩ ⟨top, bottom - top⟩

end Constraint

namespace Layout

variable {κ σ : Type}

/-- The grid of a layout for a frame. All entries take part. -/
def solve (layout : Layout κ) (host : Host κ σ) (frame : Frame) : ExceptT Fault (StateM σ) Grid :=
  Grid.solve layout.tracks frame.origin frame.inner (host.items layout.entries.present)

/-- The grid for a frame. A grid that is solved anew is held and announced; a failure of whoever
listens is dropped. -/
def resolve (host : Host κ σ) (frame : Frame) : Act κ σ Grid := do
  let layout ← Act.layout
  if !layout.isFresh frame then
    let grid ← Act.around (layout.solve host frame)
    Act.change fun layout => layout.hold frame grid
    let _ ← Act.outcome (host.gridSolved grid)
  match (← Act.layout).grid? with
  | some grid => return grid
  | none => throw .noGrid

/-- The rectangle of a component under a constraint. Its preferred size is asked for only if the
place depends on it. -/
def boundsOn (host : Host κ σ) (grid : Grid) (constraint : Constraint) (component : κ) :
    ExceptT Fault (StateM σ) Rect := do
  if constraint.needsPreferred then
    match ← host.preferredSize component with
    | some size => calculate (constraint.place grid size)
    | none => throw .noSize
  else calculate (constraint.place grid Size.zero)

/-- Places the entry of a handle on a grid, unless it was removed meanwhile. -/
def placeEntry (host : Host κ σ) (grid : Grid) (handle : Nat) : Act κ σ Unit := do
  match (← Act.layout).entries.get? handle with
  | none => return
  | some entry =>
      if entry.constraint.within grid.counts then
        let placed ← Act.outcome do
          let bounds ← Act.around (boundsOn host grid entry.constraint entry.component)
          host.setBounds entry.component bounds
        match placed with
        | .ok _ => return
        | .error fault =>
            let entry := ((← Act.layout).entries.lastKnown? handle).getD entry
            let text ← Act.around (calculate entry.text)
            Act.around (host.notify (.placementFailed text fault))
      else
        let text ← Act.around (calculate entry.text)
        Act.around (host.notify (.entryHidden text))

def arrange (host : Host κ σ) (frame : Frame) : Act κ σ Unit := do
  let grid ← resolve host frame
  (← Act.layout).entries.handles.forM (placeEntry host grid)

/-- The entries inside of the table, the only ones that count for the size of the table. -/
def visible (layout : Layout κ) : List (Entry κ) :=
  layout.entries.present.filter fun entry => entry.constraint.within layout.counts

def requiredSize (layout : Layout κ) (host : Host κ σ) (insets : Insets) (kind : Sizing) :
    ExceptT Fault (StateM σ) Size := do
  let items := host.items layout.visible
  let width ← Line.required layout.tracks.columns items.columns kind
  let height ← Line.required layout.tracks.rows items.rows kind
  return ⟨width + insets.left + insets.right, height + insets.top + insets.bottom⟩

def maximumSize : Size := ⟨largestIndex, largestIndex⟩

def alignment : PerAxis Binary64 := ⟨Binary64.half, Binary64.half⟩

end Layout

end TrackGrid
