import TrackGrid.Proofs.Layout.Transposition

/-! Columns and rows are treated alike: whatever is asked of a layout across comes to the answer
across. -/

namespace TrackGrid

variable {κ σ τ α β : Type}

namespace Answers

def transpose (answers : Answers κ) : Answers κ := fun component kind =>
  (answers component kind).map fun size => size.map Size.transpose

variable (answers : Answers κ)

private theorem host_extent_transpose (axis : Axis) (component : κ) (kind : Sizing) :
    answers.transpose.host.extent axis component kind =
      answers.host.extent axis.across component kind := by
  unfold Host.extent Host.sizeOf
  cases kind with
  | minimum =>
    simp only [host, transpose]
    rcases answers component .minimum with _ | _ | size <;> cases axis <;> rfl
  | fill | preferred =>
    simp only [host, transpose]
    rcases answers component .preferred with _ | _ | size <;> cases axis <;> rfl

private theorem item_transpose (axis : Axis) (e : Entry κ) :
    answers.transpose.host.item axis e.transpose = answers.host.item axis.across e := by
  simp only [Host.item, Entry.transpose, Constraint.cells_transpose, Constraint.isSingle_transpose,
    PerAxis.along_transpose, Item.mk.injEq, true_and]
  exact funext fun kind => answers.host_extent_transpose axis e.component kind

private theorem items_transpose (axis : Axis) (entries : List (Entry κ)) :
    (entries.map Entry.transpose).map (answers.transpose.host.item axis) =
      entries.map (answers.host.item axis.across) := by
  rw [List.map_map]
  exact List.map_congr_left fun e _ => answers.item_transpose axis e

end Answers

namespace Layout

variable (answers : Answers κ) (l : Layout κ)

private theorem lineAlong_transpose (frame : Frame) (axis : Axis) :
    l.transpose.lineAlong answers.transpose frame.transpose axis =
      l.lineAlong answers frame axis.across := by
  have hcontent : l.transpose.contentAlong answers.transpose axis =
      l.contentAlong answers axis.across := by
    have hitems := answers.items_transpose axis l.entries.present
    simp only [contentAlong, transpose, Entries.transpose, hitems, PerAxis.along_transpose]
  unfold lineAlong
  rw [hcontent]
  cases axis <;> rfl

private theorem rebuilt_transpose (frame : Frame) :
    Matches (fun grid grid' => grid' = PerAxis.transpose grid) (l.rebuilt answers frame)
      (l.transpose.rebuilt answers.transpose frame.transpose) := by
  rw [rebuilt_eq, rebuilt_eq, lineAlong_transpose, lineAlong_transpose]
  have hgrid (columns rows : Line) : (⟨rows, columns⟩ : Grid) = PerAxis.transpose ⟨columns, rows⟩ :=
    rfl
  exact Matches.swap hgrid

private theorem requiredOuter_transpose (insets : Insets) (kind : Sizing) :
    Matches (fun size size' => size' = size.transpose) (l.requiredOuter answers insets kind)
      (l.transpose.requiredOuter answers.transpose insets.transpose kind) := by
  have hlength (axis : Axis) : l.transpose.requiredAlong answers.transpose kind axis =
      l.requiredAlong answers kind axis.across := by
    unfold requiredAlong
    rw [visible_transpose, answers.items_transpose]
    cases axis <;> rfl
  unfold requiredOuter
  rw [hlength, hlength]
  exact Matches.swap fun _ _ => rfl

private theorem heldGrid_transpose :
    Matches (fun grid grid' => grid' = PerAxis.transpose grid) l.heldGrid l.transpose.heldGrid := by
  unfold heldGrid
  rw [grid?_transpose]
  cases l.grid? with
  | none => exact .faults _ _
  | some grid => exact .results rfl

private theorem boundsOn_transpose (grid : Grid) (constraint : Constraint) (component : κ) :
    Matches (fun rect rect' => rect' = rect.transpose)
      ((boundsOn answers.host grid constraint component).run.run ()).1
      ((boundsOn answers.transpose.host (PerAxis.transpose grid) constraint.transpose
        component).run.run ()).1 := by
  unfold boundsOn
  rw [Constraint.needsPreferred_transpose]
  split
  · rw [run_bind, run_bind]
    simp only [Answers.host, Answers.transpose]
    rcases answers component .preferred with _ | _ | size
    · exact .faults _ _
    · exact .faults _ _
    · exact constraint.place_transpose grid size
  · exact constraint.place_transpose grid Size.zero

end Layout

theorem Entry.text_transpose (e : Entry κ) : Matches (fun _ _ => True) e.text e.transpose.text :=
  e.constraint.text_transpose.bind fun _ _ _ => .results trivial

def World.Mirrored (R : σ → τ → Prop) (w : World κ σ) (v : World κ τ) : Prop :=
  v.layout = w.layout.transpose ∧ R w.around v.around

namespace Likewise

variable {R : σ → τ → Prop} {S : α → β → Prop}

theorem layout : Likewise (World.Mirrored R) (fun l l' => l' = Layout.transpose l)
    (Act.layout : Act κ σ (Layout κ)) (Act.layout : Act κ τ (Layout κ)) :=
  fun _ _ hw => ⟨.results hw.1, hw⟩

theorem around {x : ExceptT Fault (StateM σ) α} {y : ExceptT Fault (StateM τ) β}
    (h : Likewise R S x y) :
    Likewise (World.Mirrored (κ := κ) R) S (Act.around x) (Act.around y) :=
  fun w v hw => ⟨(h w.around v.around hw.2).1, hw.1, (h w.around v.around hw.2).2⟩

theorem outcome {Q : World κ σ → World κ τ → Prop} {x : Act κ σ α} {y : Act κ τ β}
    (h : Likewise Q S x y) : Likewise Q (Matches S) (Act.outcome x) (Act.outcome y) :=
  fun w v hw => ⟨.results (h w v hw).1, (h w v hw).2⟩

/-- Computations that each have their outcome as long as the relation holds, and keep it. -/
theorem of_gives {x : ExceptT Fault (StateM σ) α} {y : ExceptT Fault (StateM τ) β}
    {r : Except Fault α} {r' : Except Fault β} (hx : ∀ t, Gives (fun s => R s t) x r)
    (hy : ∀ s, Gives (fun t => R s t) y r') (h : Matches S r r') : Likewise R S x y := by
  intro s t hst
  obtain ⟨hout, hafter⟩ := hx t s hst
  obtain ⟨hout', hafter'⟩ := hy (x.run.run s).2 t hafter
  rw [hout, hout']
  exact ⟨h, hafter'⟩

end Likewise

private theorem Act.Performs.likewise {R : σ → τ → Prop}
    {f g : Layout κ → Except Fault (α × Layout κ)}
    {x : Act κ σ α} {y : Act κ τ α} (hx : x.Performs f) (hy : y.Performs g)
    (h : ∀ l, g l.transpose = (f l).map fun p => (p.1, p.2.transpose)) :
    Likewise (World.Mirrored R) (· = ·) x y := by
  intro w v hw
  obtain ⟨hlayout, haround⟩ := hw
  rw [hx w, hy v, hlayout, h]
  rcases f w.layout with fault | ⟨a, l⟩
  · exact ⟨.faults _ _, hlayout, haround⟩
  · exact ⟨.results rfl, rfl, haround⟩

/-- Two hosts across each other. The components of one give the answers and those of the other give
them across, whatever either of them was asked before. Calls with a rectangle and a grid do the same
to mirrored worlds as calls with the rectangle and the grid across. -/
structure Host.Mirrors (answers : Answers κ) (R : σ → τ → Prop) (host : Host κ σ)
    (other : Host κ τ) : Prop where
  answering : ∀ t, host.Answering answers fun s => R s t
  across : ∀ s, other.Answering answers.transpose fun t => R s t
  setBounds : ∀ component rect, Likewise (World.Mirrored R) (fun _ _ => True)
    (host.setBounds component rect) (other.setBounds component rect.transpose)
  gridSolved : ∀ grid : Grid, Likewise (World.Mirrored R) (fun _ _ => True)
    (host.gridSolved grid) (other.gridSolved (PerAxis.transpose grid))

namespace Host.Mirrors

variable {answers : Answers κ} {R : σ → τ → Prop} {host : Host κ σ} {other : Host κ τ}
  (h : host.Mirrors answers R other)
include h

theorem solve (l : Layout κ) (frame : Frame) :
    Likewise R (fun grid grid' => grid' = PerAxis.transpose grid) (l.solve host frame)
      (l.transpose.solve other frame.transpose) :=
  .of_gives (fun t _ hs => Layout.solve_eq_rebuilt (h.answering t) l frame hs)
    (fun s _ ht => Layout.solve_eq_rebuilt (h.across s) l.transpose frame.transpose ht)
    (l.rebuilt_transpose answers frame)

theorem requiredSize (l : Layout κ) (insets : Insets) (kind : Sizing) :
    Likewise R (fun size size' => size' = size.transpose) (l.requiredSize host insets kind)
      (l.transpose.requiredSize other insets.transpose kind) :=
  .of_gives (fun t => Layout.requiredSize_gives (h.answering t) l insets kind)
    (fun s => Layout.requiredSize_gives (h.across s) l.transpose insets.transpose kind)
    (l.requiredOuter_transpose answers insets kind)

theorem boundsOn (grid : Grid) (constraint : Constraint) (component : κ) :
    Likewise R (fun rect rect' => rect' = rect.transpose)
      (Layout.boundsOn host grid constraint component)
      (Layout.boundsOn other (PerAxis.transpose grid) constraint.transpose component) :=
  .of_gives (fun t s hs => (h.answering t).boundsOn grid constraint component s () hs)
    (fun s t ht => (h.across s).boundsOn (PerAxis.transpose grid) constraint.transpose component t ()
      ht) (Layout.boundsOn_transpose answers grid constraint component)

/-- Notices may differ. -/
theorem notify (notice notice' : Notice κ) :
    Likewise R (fun _ _ => True) (host.notify notice) (other.notify notice') :=
  fun s t hst => ⟨.results trivial,
    (h.across _).report notice' t () ((h.answering t).report notice s () hst)⟩

theorem resolve (frame : Frame) :
    Likewise (World.Mirrored R) (fun grid grid' => grid' = PerAxis.transpose grid)
      (Layout.resolve host frame) (Layout.resolve other frame.transpose) := by
  intro w v hw
  obtain ⟨hlayout, haround⟩ := hw
  have hfresh : v.layout.isFresh frame.transpose = w.layout.isFresh frame := by
    rw [hlayout, Layout.isFresh_transpose]
  cases hcase : w.layout.isFresh frame with
  | true =>
    rw [Layout.resolve_of_isFresh host hcase, Layout.resolve_of_isFresh other (hfresh.trans hcase),
      hlayout]
    exact ⟨w.layout.heldGrid_transpose, hlayout, haround⟩
  | false =>
    obtain ⟨hout, hafter⟩ := h.solve w.layout frame w.around v.around haround
    rcases hsolve : (w.layout.solve host frame).run.run w.around with ⟨fault | grid, s⟩ <;>
      rcases hsolve' : (w.layout.transpose.solve other frame.transpose).run.run v.around
        with ⟨fault' | grid', t⟩ <;>
      rw [hsolve, hsolve'] at hout hafter <;> cases hout <;> rw [← hlayout] at hsolve'
    · rw [Layout.resolve_of_fault hcase hsolve,
        Layout.resolve_of_fault (hfresh.trans hcase) hsolve']
      exact ⟨.faults _ _, hlayout, hafter⟩
    · rename_i hgrid
      subst hgrid
      have hheld : v.layout.hold frame.transpose (PerAxis.transpose grid) =
          (w.layout.hold frame grid).transpose := by
        rw [hlayout]
        rfl
      obtain ⟨-, hlistened, haround⟩ := h.gridSolved grid ⟨w.layout.hold frame grid, s⟩
        ⟨v.layout.hold frame.transpose (PerAxis.transpose grid), t⟩ ⟨hheld, hafter⟩
      rw [Layout.resolve_of_grid hcase hsolve rfl,
        Layout.resolve_of_grid (hfresh.trans hcase) hsolve' rfl, hlistened]
      exact ⟨Layout.heldGrid_transpose _, hlistened, haround⟩

theorem noteText {text text' : Except Fault String} (htext : Matches (fun _ _ => True) text text')
    (notice notice' : String → Notice κ) :
    Likewise (World.Mirrored R) (fun _ _ => True)
      (do
        let text ← Act.around (calculate text)
        Act.around (host.notify (notice text)) : Act κ σ Unit)
      (do
        let text ← Act.around (calculate text')
        Act.around (other.notify (notice' text)) : Act κ τ Unit) :=
  (Likewise.around (.calculate htext)).bind fun _ _ _ => Likewise.around (h.notify _ _)

theorem placeEntry (grid : Grid) (handle : Nat) :
    Likewise (World.Mirrored R) (fun _ _ => True) (Layout.placeEntry host grid handle)
      (Layout.placeEntry other (PerAxis.transpose grid) handle) := by
  unfold Layout.placeEntry
  refine Likewise.layout.bind fun l _ hl => ?_
  subst hl
  rw [show l.transpose.entries = l.entries.transpose from rfl, Entries.get?_transpose]
  cases l.entries.get? handle with
  | none => exact .pure trivial
  | some entry =>
    have hwithin : entry.transpose.constraint.within (Grid.counts (PerAxis.transpose grid)) =
        entry.constraint.within grid.counts := entry.constraint.within_transpose grid.counts
    simp only [Option.map_some, hwithin]
    split
    · have hplaced := (Likewise.around (h.boundsOn grid entry.constraint entry.component)).bind
        fun rect rect' (hrect : rect' = rect.transpose) => hrect ▸ h.setBounds entry.component rect
      refine hplaced.outcome.bind fun placed placed' hmatch => ?_
      cases hmatch with
      | results => exact .pure trivial
      | faults fault fault' =>
        refine Likewise.layout.bind fun l _ hl => ?_
        subst hl
        rw [show l.transpose.entries = l.entries.transpose from rfl, Entries.lastKnown?_transpose,
          Option.getD_map]
        exact h.noteText (Entry.text_transpose _) _ _
    · exact h.noteText entry.text_transpose _ _

theorem arrange (frame : Frame) :
    Likewise (World.Mirrored R) (fun _ _ => True) (Layout.arrange host frame)
      (Layout.arrange other frame.transpose) := by
  unfold Layout.arrange
  refine (h.resolve frame).bind fun grid _ hgrid => ?_
  subst hgrid
  refine Likewise.layout.bind fun l _ hl => ?_
  subst hl
  rw [show l.transpose.entries = l.entries.transpose from rfl, Entries.handles_transpose]
  exact Likewise.forM _ fun handle _ => h.placeEntry grid handle

/-- Noting the bounds keeps hosts across each other, and the notes too. -/
theorem recorded : host.recorded.Mirrors answers
    (fun s t => R s.1 t.1 ∧ t.2 = s.2.map fun note => (note.1, note.2.transpose))
    other.recorded where
  answering t := (h.answering t.1).recorded fun notes =>
    t.2 = notes.map fun note => (note.1, note.2.transpose)
  across s := (h.across s.1).recorded fun notes =>
    notes = s.2.map fun note => (note.1, note.2.transpose)
  setBounds component rect := by
    rintro ⟨l, s, notes⟩ ⟨_, t, _⟩ ⟨rfl, hst, rfl⟩
    obtain ⟨hout, hlayout, haround⟩ := h.setBounds component rect ⟨l, s⟩ ⟨l.transpose, t⟩ ⟨rfl, hst⟩
    refine ⟨hout, hlayout, haround, ?_⟩
    rw [run_setBounds_recorded, run_setBounds_recorded, List.map_append]
    rfl
  gridSolved grid := by
    rintro ⟨l, s, notes⟩ ⟨_, t, _⟩ ⟨rfl, hst, rfl⟩
    obtain ⟨hout, hlayout, haround⟩ := h.gridSolved grid ⟨l, s⟩ ⟨l.transpose, t⟩ ⟨rfl, hst⟩
    exact ⟨hout, hlayout, haround, rfl⟩

end Host.Mirrors

inductive Request (κ : Type) where
  | edit (change : Edit κ)
  | track (axis : Axis) (index : Int)
  | constraintOf (component : κ)
  | entry (handle : Int)
  | hasHidden
  | hasOverlap
  | resolve (frame : Frame)
  | arrange (frame : Frame)
  | size (insets : Insets) (kind : Sizing)

inductive Response (κ : Type) where
  | handle (handle : Option Nat)
  | track (track : Track)
  | constraint (constraint : Option Constraint)
  | entry (entry : Option (Entry κ))
  | flag (flag : Bool)
  | grid (grid : Grid)
  | placed
  | size (size : Size)

namespace Request

def transpose : Request κ → Request κ
  | .edit change => .edit change.transpose
  | .track axis index => .track axis.across index
  | .constraintOf component => .constraintOf component
  | .entry handle => .entry handle
  | .hasHidden => .hasHidden
  | .hasOverlap => .hasOverlap
  | .resolve frame => .resolve frame.transpose
  | .arrange frame => .arrange frame.transpose
  | .size insets kind => .size insets.transpose kind

def carryOut [DecidableEq κ] (host : Host κ σ) : Request κ → Act κ σ (Response κ)
  | .edit change => do return .handle (← change.carryOut)
  | .track axis index => do
      return .track (← Act.around (calculate ((← Act.layout).trackAt axis index)))
  | .constraintOf component => do return .constraint ((← Act.layout).constraintOf? component)
  | .entry handle => do return .entry ((← Act.layout).entries.get? handle)
  | .hasHidden => do return .flag (← Act.layout).hasHidden
  | .hasOverlap => do return .flag (← Act.layout).hasOverlap
  | .resolve frame => do return .grid (← Layout.resolve host frame)
  | .arrange frame => do
      Layout.arrange host frame
      return .placed
  | .size insets kind => do
      return .size (← Act.around ((← Act.layout).requiredSize host insets kind))

/-- The outcomes of requests one after the other, each with the world it leaves. A request that fails
does not keep the others from being carried out. -/
def trace [DecidableEq κ] (host : Host κ σ) :
    List (Request κ) → World κ σ → List (Except Fault (Response κ) × World κ σ)
  | [], _ => []
  | request :: rest, w =>
      let step := (request.carryOut host).run.run w
      step :: trace host rest step.2

end Request

def Response.transpose : Response κ → Response κ
  | .handle n => .handle n
  | .track t => .track t
  | .constraint c => .constraint (c.map Constraint.transpose)
  | .entry e => .entry (e.map Entry.transpose)
  | .flag b => .flag b
  | .grid g => .grid (PerAxis.transpose g)
  | .placed => .placed
  | .size s => .size s.transpose

namespace Request

section
variable [DecidableEq κ] {answers : Answers κ} {R : σ → τ → Prop} {host : Host κ σ}
  {other : Host κ τ} (h : host.Mirrors answers R other)
include h

/-- A single request and the request across. -/
theorem carryOut_likewise (request : Request κ) :
    Likewise (World.Mirrored R) (fun response response' => response' = response.transpose)
      (request.carryOut host) (request.transpose.carryOut other) := by
  cases request with
  | edit change =>
    refine (change.carryOut_performs.likewise change.transpose.carryOut_performs
      change.apply_transpose).bind fun handle _ hhandle => ?_
    exact .pure (by rw [hhandle]; rfl)
  | track axis index =>
    refine Likewise.layout.bind fun l _ hl => ?_
    subst hl
    rw [Layout.trackAt_transpose]
    refine (Likewise.around (.calculate (.of_eq rfl))).bind fun track _ htrack => ?_
    exact .pure (by rw [htrack]; rfl)
  | constraintOf component =>
    refine Likewise.layout.bind fun l _ hl => .pure ?_
    rw [hl, Layout.constraintOf?_transpose]
    rfl
  | entry handle =>
    refine Likewise.layout.bind fun l _ hl => .pure ?_
    rw [hl]
    exact congrArg Response.entry (l.entries.get?_transpose handle)
  | hasHidden =>
    refine Likewise.layout.bind fun l _ hl => .pure ?_
    rw [hl, Layout.hasHidden_transpose]
    rfl
  | hasOverlap =>
    refine Likewise.layout.bind fun l _ hl => .pure ?_
    rw [hl, Layout.hasOverlap_transpose]
    rfl
  | resolve frame =>
    refine (h.resolve frame).bind fun grid _ hgrid => .pure ?_
    rw [hgrid]
    rfl
  | arrange frame => exact (h.arrange frame).bind fun _ _ _ => .pure rfl
  | size insets kind =>
    refine Likewise.layout.bind fun l _ hl => ?_
    subst hl
    refine (Likewise.around (h.requiredSize l insets kind)).bind fun size _ hsize => .pure ?_
    rw [hsize]
    rfl

/-- Requests and the requests across from mirrored worlds on. -/
theorem trace_likewise (requests : List (Request κ)) {w : World κ σ} {v : World κ τ}
    (hw : World.Mirrored R w v) :
    List.Forall₂ (fun step step' =>
        Matches (fun response response' => response' = response.transpose) step.1 step'.1 ∧
          World.Mirrored R step.2 step'.2)
      (trace host requests w) (trace other (requests.map Request.transpose) v) := by
  induction requests generalizing w v with
  | nil => exact .nil
  | cons request rest ih =>
    have hstep := carryOut_likewise h request w v hw
    exact .cons hstep (ih hstep.2)

/-- Columns and rows are treated alike. A layout is made of given columns and rows just if one is
made of these exchanged, which is then the layout across. Let any requests be made of a layout and,
across, of the layout across, by hosts across each other, whose components answer the same whenever
they are asked, failing or not. Step by step both succeed or both fail; what they give is across each
other, and so are the layouts they leave, with their tracks, constraints, held grids, the mark of
being out of date and the count of grids solved, and the bounds given to the components. -/
theorem trace_transposed {s : σ} {t : τ} (hst : R s t) :
    (∀ columns rows, Matches (fun l l' => l' = l.transpose)
      (Layout.ofGiven (κ := κ) columns rows) (Layout.ofGiven rows columns)) ∧
    ∀ (l : Layout κ) (requests : List (Request κ)),
      List.Forall₂ (fun step step' =>
          Matches (fun response response' => response' = response.transpose) step.1 step'.1 ∧
          step'.2.layout = step.2.layout.transpose ∧ R step.2.around.1 step'.2.around.1 ∧
          step'.2.around.2 = step.2.around.2.map fun note => (note.1, note.2.transpose))
        (trace host.recorded requests ⟨l, (s, [])⟩)
        (trace other.recorded (requests.map Request.transpose) ⟨l.transpose, (t, [])⟩) := by
  constructor
  · intro columns rows
    exact Layout.ofGiven_transpose columns rows
  · intro l requests
    refine List.Forall₂.imp ?_ (trace_likewise h.recorded requests ⟨rfl, hst, rfl⟩)
    rintro step step' ⟨hout, hlayout, haround, hnotes⟩
    exact ⟨hout, hlayout, haround, hnotes⟩

end
end Request

/-- Components that keep their bounds, and components that keep them across. -/
theorem Answers.keeping_mirrors [DecidableEq κ] (answers : Answers κ) (refuses : κ → Bool) :
    (answers.keeping refuses).Mirrors answers
      (fun bounds bounds' => bounds' = fun component => (bounds component).map Rect.transpose)
      (answers.transpose.keeping refuses) where
  answering _ := ⟨fun _ _ _ hs => ⟨rfl, hs⟩, fun _ _ _ hs => ⟨rfl, hs⟩, fun _ _ _ hs => hs⟩
  across _ := ⟨fun _ _ _ ht => ⟨rfl, ht⟩, fun _ _ _ ht => ⟨rfl, ht⟩, fun _ _ _ ht => ht⟩
  setBounds component rect := by
    rintro ⟨l, bounds⟩ ⟨_, _⟩ ⟨rfl, rfl⟩
    simp only [keeping]
    cases refuses component with
    | true => exact ⟨.faults _ _, rfl, rfl⟩
    | false =>
      refine ⟨.results trivial, rfl, funext fun other => ?_⟩
      change Function.update (fun component => (bounds component).map Rect.transpose) component
        (some rect.transpose) other =
          (Function.update bounds component (some rect) other).map Rect.transpose
      by_cases hother : other = component
      · rw [hother, Function.update_self, Function.update_self]
        rfl
      · rw [Function.update_of_ne hother, Function.update_of_ne hother]
  gridSolved _ := .pure trivial

namespace Request

private def loomAnswers : Answers Bool := fun component _ =>
  if component then .error (.component "no size") else .ok (some ⟨4, 3⟩)

private def loomLayout : Layout Bool := Layout.ofTracks ⟨[.fill, .fill], [.sizing .preferred]⟩

private def loomRequests : List (Request Bool) :=
  [.edit (.add false (.constraint (.single ⟨1, 0⟩ ⟨.trailing, .center⟩))),
    .edit (.add true (.constraint (.single ⟨0, 0⟩ ⟨.leading, .full⟩))),
    .edit (.insertTrack .columns 0 (.number (.int 5))), .arrange ⟨⟨26, 10⟩, ⟨1, 0, 0, 0⟩⟩]

private def loomTrace : List (Except Fault (Response Bool) ×
    World Bool ((Bool → Option Rect) × List (Bool × Rect))) :=
  trace (loomAnswers.keeping fun _ => false).recorded loomRequests ⟨loomLayout, (fun _ => none, [])⟩

private def loomTraceAcross : List (Except Fault (Response Bool) ×
    World Bool ((Bool → Option Rect) × List (Bool × Rect))) :=
  trace (loomAnswers.transpose.keeping fun _ => false).recorded (loomRequests.map transpose)
    ⟨loomLayout.transpose, (fun _ => none, [])⟩

theorem loomLayout_transposed :
    loomTrace.map (fun step => step.2.around.2) = [[], [], [], [(false, ⟨22, 1, 4, 3⟩)]] ∧
    loomTraceAcross.map (fun step => step.2.around.2) =
      [[], [], [], [(false, ⟨1, 22, 3, 4⟩)]] := by
  have hnotes : loomTrace.map (fun step => step.2.around.2) =
      [[], [], [], [(false, ⟨22, 1, 4, 3⟩)]] := by decide +kernel
  obtain ⟨-, hsteps⟩ := trace_transposed (s := fun _ => none) (t := fun _ => none)
    (loomAnswers.keeping_mirrors fun _ => false) rfl
  have hacross : List.Forall₂ (· = ·)
      (loomTrace.map fun step => step.2.around.2.map fun note => (note.1, note.2.transpose))
      (loomTraceAcross.map fun step => step.2.around.2) := by
    rw [List.forall₂_map_left_iff, List.forall₂_map_right_iff]
    exact (hsteps loomLayout loomRequests).imp fun _ _ hstep => hstep.2.2.2.symm
  rw [List.forall₂_eq_eq_eq] at hacross
  refine ⟨hnotes, hacross.symm.trans ?_⟩
  rw [← Function.comp_def, ← List.map_map, hnotes]
  rfl

end Request
end TrackGrid
