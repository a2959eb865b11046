import TrackGrid.Layout.Pass
import TrackGrid.Picture
import TrackGrid.Session.Component

/-! Sessions: a layout with components held in memory, a container, and a listener, all of which may
carry out commands, also while the layout is at work. -/

namespace TrackGrid

/-- What is around the layout of a session: the components in the order of their definition, the
container, what is carried out whenever a grid was solved, the layout that has taken the place of
the one at work, if one has, and the grids solved and the notices given since they were last taken,
latest first. -/
structure Surroundings where
  components : List Component
  container : Frame
  /-- Makes room for a picture of a size and takes the seed of its colors. -/
  prepare : Size → Int → Except Fault Unit
  onSolved : List Command
  replacement : Option (Layout String)
  solved : List Grid
  notices : List (Notice String)

abbrev Session := World String Surroundings

abbrev SessionAct := Act String Surroundings

inductive Result where
  | nothing
  | handle (handle : Nat)
  | constraint (constraint : Constraint)
  | entry (entry : Entry String) (text : String)
  | track (track : Track)
  | grid (grid : Grid)
  | size (size : Size)
  | factors (factors : PerAxis Binary64)
  | flag (flag : Bool)
  | description (description : Description)
  | rectangle (rect : Rect)
  | picture (picture : Picture)

namespace Surroundings

def component? (s : Surroundings) (name : String) : Option Component :=
  s.components.find? fun c => c.name = name

def changeComponent (s : Surroundings) (name : String) (f : Component → Component) : Surroundings :=
  { s with components := s.components.map fun c => if c.name = name then f c else c }

def note (notice : Notice String) : StateM Surroundings Unit :=
  modify fun s => { s with notices := notice :: s.notices }

def query (name : String) (f : Component → Except Fault (Option Size)) :
    ExceptT Fault (StateM Surroundings) (Option Size) := do
  match (← get).component? name with
  | some c => calculate (f c)
  | none => return none

def preferredSize (name : String) : ExceptT Fault (StateM Surroundings) (Option Size) := do
  modify fun s => s.changeComponent name Component.asked
  query name fun c => Component.answer c.preferredReply c.preferred

def minimumSize (name : String) : ExceptT Fault (StateM Surroundings) (Option Size) :=
  query name fun c => Component.answer c.minimumReply c.minimum

def known? (s : Surroundings) (name : String) : Option String :=
  (s.component? name).map Component.name

end Surroundings

namespace Session

def frame : SessionAct Frame := do return (← get).around.container

def changeAround (f : Surroundings → Surroundings) : SessionAct Unit :=
  modify fun world => { world with around := f world.around }

def calculated {α : Type} (x : Except Fault α) : SessionAct α := Act.around (calculate x)

def naming (skipped : List String) (name : String) : Option String :=
  if skipped.contains name then none else some name

def requiredSize (host : Host String Surroundings) (kind : SizeKind) : SessionAct Size := do
  let world ← get
  Act.around (world.layout.requiredSize host world.around.container.insets kind.sizing)

/-- Puts a layout in the place of the one at work. It is read from the description of that one, in
which the components of the given names are skipped. -/
def replaceLayout (skipped : List String) : SessionAct Unit := do
  let description ← calculated ((← Act.layout).describe (some (naming skipped)))
  let known := (← get).around.known?
  let layout ← Act.around (Layout.ofDescription Surroundings.note known description)
  changeAround fun s => { s with replacement := some layout }

def setContainerSize (size : Size) : SessionAct Unit :=
  changeAround fun s => { s with container := { s.container with size := size } }

def perform (host : Host String Surroundings) : Command → SessionAct Result
  | .edit edit => do
      return match ← edit.carryOut with
        | some handle => .handle handle
        | none => .nothing
  | .constraintOf component => do
      return match (← Act.layout).constraintOf? component with
        | some constraint => .constraint constraint
        | none => .nothing
  | .entry handle => do
      match (← Act.layout).entries.get? handle with
      | some entry => return .entry entry (← calculated entry.text)
      | none => return .nothing
  | .track axis index => do return .track (← calculated ((← Act.layout).trackAt axis index))
  | .arrange => do
      Layout.arrange host (← frame)
      return match (← Act.layout).grid? with
        | some grid => .grid grid
        | none => .nothing
  | .resolve => do return .grid (← Layout.resolve host (← frame))
  | .heldGrid => do
      return match (← Act.layout).grid? with
        | some grid => .grid grid
        | none => .nothing
  | .size kind => do return .size (← requiredSize host kind)
  | .maximumSize => return .size Layout.maximumSize
  | .alignment => return .factors Layout.alignment
  | .hasHidden => do return .flag (← Act.layout).hasHidden
  | .hasOverlap => do return .flag (← Act.layout).hasOverlap
  | .describe named skipped => do
      let name := if named then some (naming skipped) else none
      return .description (← calculated ((← Act.layout).describe name))
  | .setContainerSize size => do
      setContainerSize size
      return .nothing
  | .setInsets insets => do
      changeAround fun s => { s with container := { s.container with insets := insets } }
      return .nothing
  | .setComponentSize component kind size => do
      match (← get).around.component? component with
      | some c =>
          let c ← calculated (c.resize kind size)
          changeAround fun s => s.changeComponent component fun _ => c
          return .nothing
      | none => return .nothing
  | .fit kind => do
      let size ← requiredSize host kind
      setContainerSize size
      return .size size
  | .boundsOf component given => do
      let constraint ← calculated (Constraint.ofGiven given)
      let grid ← Layout.resolve host (← frame)
      return .rectangle (← Act.around (Layout.boundsOn host grid constraint component))
  | .picture seed => do
      let grid ← Layout.resolve host (← frame)
      return .picture (← calculated (Picture.draw (← get).around.prepare grid (← frame).size seed))
  | .reload skipped => do
      replaceLayout skipped
      return .nothing
  | .unreadable fault => throw fault

/-- Acts on the layout that takes commands: the one at work, or the one that has taken its place. -/
def inCharge {α : Type} (x : SessionAct α) : SessionAct α :=
  ExceptT.mk fun world =>
    match world.around.replacement with
    | none => x.run.run world
    | some layout =>
        let (result, after) := x.run.run ⟨layout, { world.around with replacement := none }⟩
        let layout := after.around.replacement.getD after.layout
        (result, ⟨world.layout, { after.around with replacement := some layout }⟩)

/-- Carries out commands one after the other, up to the first that fails. The result is that of the
last one. -/
def performAll (host : Host String Surroundings) (commands : List Command) : SessionAct Result :=
  commands.foldlM (fun _ command => inCharge (perform host command)) .nothing

def setBounds (run : List Command → SessionAct Unit) (name : String) (bounds : Rect) :
    SessionAct Unit := do
  match (← get).around.component? name with
  | none => return
  | some c =>
      if c.refusesBounds then throw (.component "bounds failed")
      changeAround fun s => s.changeComponent name fun c => c.placed bounds
      run c.onBounds

/-- Listens to a grid: it is recorded, then the commands of the listener are carried out. A grid is
recorded in writing, so listening fails at once if one of its sizes cannot be written. -/
def gridSolved (run : List Command → SessionAct Unit) (grid : Grid) : SessionAct Unit := do
  let _ ← calculated ((grid.columns.sizes ++ grid.rows.sizes).mapM Number.writeInt)
  changeAround fun s => { s with solved := grid :: s.solved }
  run (← get).around.onSolved

def hostRunning (run : List Command → SessionAct Unit) : Host String Surroundings where
  preferredSize := Surroundings.preferredSize
  minimumSize := Surroundings.minimumSize
  setBounds := setBounds run
  gridSolved := gridSolved run
  report := Surroundings.note

/-- The host of a session. The commands of its components and of its listener may call these again, to
so many levels of calls within calls. -/
def hostOfDepth : Nat → Host String Surroundings
  | 0 => hostRunning fun commands =>
      if commands.isEmpty then return else throw .nestedTooDeeply
  | depth + 1 => hostRunning fun commands => do
      let _ ← performAll (hostOfDepth depth) commands

def depthLimit : Nat := 1000

def host : Host String Surroundings := hostOfDepth depthLimit

def settle (session : Session) : Session :=
  match session.around.replacement with
  | none => session
  | some layout => ⟨layout, { session.around with replacement := none }⟩

/-- The outcome of a step, which carries out commands one after the other, and the session after
it. -/
def step (session : Session) (commands : List Command) : Except Fault Result × Session :=
  let (result, after) := (performAll host commands).run.run session
  (result, settle after)

def takeRecords (session : Session) : (List Grid × List (Notice String)) × Session :=
  ((session.around.solved.reverse, session.around.notices.reverse),
    { session with around := { session.around with solved := [], notices := [] } })

def ofGiven (columns rows : Option (List GivenSize)) (around : Surroundings) :
    Except Fault Session := do
  return ⟨← Layout.ofGiven columns rows, around⟩

/-- A session with a layout of a description; components may be known by name or not at all. -/
def ofDescription (d : Description) (known : Bool) (around : Surroundings) : Except Fault Session :=
  let find := if known then around.known? else fun _ => none
  match (Layout.ofDescription Surroundings.note find d).run.run around with
  | (.ok layout, around) => .ok ⟨layout, around⟩
  | (.error fault, _) => .error fault

end Session

end TrackGrid
