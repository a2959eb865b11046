import TrackGrid.Layout

/-! The host of a layout: the components, whoever waits for a new grid, and the place for notices.
Its callbacks may change the layout itself, so they act on a `World`. -/

namespace TrackGrid

structure World (κ σ : Type) where
  layout : Layout κ
  around : σ

/-- What acts on a world and may fail. A failure undoes nothing. -/
abbrev Act (κ σ : Type) := ExceptT Fault (StateM (World κ σ))

/-- What a layout asks of everything around it. A component that gives no size answers a query
with none. Reporting cannot fail: it is assumed that a component and the reason of its failure can
always be written. -/
structure Host (κ σ : Type) where
  preferredSize : κ → ExceptT Fault (StateM σ) (Option Size)
  minimumSize : κ → ExceptT Fault (StateM σ) (Option Size)
  setBounds : κ → Rect → Act κ σ Unit
  gridSolved : Grid → Act κ σ Unit
  report : Notice κ → StateM σ Unit

namespace Act

variable {κ σ α : Type}

def layout : Act κ σ (Layout κ) := do return (← get).layout

def change (f : Layout κ → Layout κ) : Act κ σ Unit :=
  modify fun world => { world with layout := f world.layout }

def around (x : ExceptT Fault (StateM σ) α) : Act κ σ α :=
  ExceptT.mk fun world =>
    let (result, around) := x.run.run world.around
    (result, { world with around := around })

def outcome (x : Act κ σ α) : Act κ σ (Except Fault α) :=
  ExceptT.mk do return .ok (← x.run)

end Act

namespace Host

variable {κ σ : Type}

def notify (host : Host κ σ) (notice : Notice κ) : ExceptT Fault (StateM σ) Unit :=
  ExceptT.lift (host.report notice)

/-- The size of a component of a kind: its minimum size where that is asked for, else its preferred
size. -/
def sizeOf (host : Host κ σ) (component : κ) : Sizing → ExceptT Fault (StateM σ) (Option Size)
  | .minimum => host.minimumSize component
  | _ => host.preferredSize component

/-- The extent of a component along an axis. A query that fails is reported and counts as zero, as
one without an answer does. -/
def extent (host : Host κ σ) (axis : Axis) (component : κ) (kind : Sizing) :
    ExceptT Fault (StateM σ) Int :=
  tryCatch
    (do match ← host.sizeOf component kind with
        | some size => return size.along axis
        | none => return 0)
    (fun fault => do
      host.notify (.queryFailed component fault)
      return 0)

def item (host : Host κ σ) (axis : Axis) (entry : Entry κ) : Item (StateM σ) :=
  ⟨entry.constraint.cells.along axis, entry.constraint.isSingle,
    host.extent axis entry.component⟩

def items (host : Host κ σ) (entries : List (Entry κ)) : PerAxis (List (Item (StateM σ))) :=
  ⟨entries.map (host.item .columns), entries.map (host.item .rows)⟩

end Host

end TrackGrid
