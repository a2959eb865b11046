import TrackGrid.Proofs.Layout.Recording

/-! As long as the components answer the same, a grid that is not marked as out of date is the grid
that solving the layout as it is would give. -/

namespace TrackGrid

variable {κ σ α : Type}

abbrev Answers (κ : Type) := κ → SizeKind → Except Fault (Option Size)

def Answers.host (answers : Answers κ) : Host κ Unit where
  preferredSize component := calculate (answers component .preferred)
  minimumSize component := calculate (answers component .minimum)
  setBounds _ _ := pure ()
  gridSolved _ := pure ()
  report _ := pure ()

/-- A host whose components give the answers throughout, as long as its surroundings are as kept. -/
def Host.Answering (answers : Answers κ) (kept : σ → Prop) (host : Host κ σ) : Prop :=
  host.Alike (fun s (_ : Unit) => kept s) answers.host

/-- An act that leaves the layout alone and its surroundings as kept. -/
def Act.Silent (kept : σ → Prop) (x : Act κ σ α) : Prop :=
  ∀ w, kept w.around → (x.run.run w).2.layout = w.layout ∧ kept (x.run.run w).2.around

theorem Act.Silent.beside {τ : Type} {kept : σ → Prop} {x : Act κ σ α} (h : x.Silent kept)
    (noted : τ → Prop) : x.beside.Silent (Beside kept noted) := by
  intro w hw
  obtain ⟨hlayout, hkept⟩ := h ⟨w.layout, w.around.1⟩ hw.1
  exact ⟨hlayout, hkept, hw.2⟩

namespace Host.Answering

variable {answers : Answers κ} {kept : σ → Prop} {host : Host κ σ}

theorem keeps (h : host.Answering answers kept) : host.Keeps kept where
  preferred component s hs := ⟨(h.preferred component s () hs).2, fun _ _ => trivial⟩
  minimum component s hs := ⟨(h.minimum component s () hs).2, fun _ _ => trivial⟩
  report notice s hs := h.report notice s () hs

theorem recorded (h : host.Answering answers kept) (noted : List (κ × Rect) → Prop) :
    host.recorded.Answering answers (Beside kept noted) where
  preferred component s t hs :=
    ⟨(h.preferred component s.1 t hs.1).1, (h.preferred component s.1 t hs.1).2, hs.2⟩
  minimum component s t hs :=
    ⟨(h.minimum component s.1 t hs.1).1, (h.minimum component s.1 t hs.1).2, hs.2⟩
  report notice s t hs := ⟨h.report notice s.1 t hs.1, hs.2⟩

theorem boundsOn (h : host.Answering answers kept) (grid : Grid) (constraint : Constraint)
    (component : κ) :
    Agree (fun s (_ : Unit) => kept s) (Layout.boundsOn host grid constraint component)
      (Layout.boundsOn answers.host grid constraint component) :=
  Host.Alike.boundsOn h grid constraint component

end Host.Answering

namespace Layout

variable {answers : Answers κ} {kept : σ → Prop} {host : Host κ σ}

/-- The grid that solving the layout as it is gives for a frame. -/
def rebuilt (answers : Answers κ) (l : Layout κ) (frame : Frame) : Except Fault Grid :=
  ((l.solve answers.host frame).run.run ()).1

/-- A grid that is not marked as out of date is the one that solving gives for the frame it was last
solved for. -/
def Current (answers : Answers κ) (l : Layout κ) : Prop :=
  l.stale = false → ∃ solved, l.held = some solved ∧
    l.rebuilt answers solved.frame = .ok solved.grid

/-- Solving gives the rebuilt grid. -/
theorem solve_eq_rebuilt (h : host.Answering answers kept) (l : Layout κ) (frame : Frame) {s : σ}
    (hs : kept s) :
    ((l.solve host frame).run.run s).1 = l.rebuilt answers frame ∧
      kept ((l.solve host frame).run.run s).2 :=
  h.solve rfl rfl frame s () hs

theorem current_of_stale {l : Layout κ} (h : l.stale = true) : Current answers l := by
  intro hfresh
  rw [h] at hfresh
  cases hfresh

private theorem current_hold {l : Layout κ} {frame : Frame} {grid : Grid}
    (h : l.rebuilt answers frame = .ok grid) : Current answers (l.hold frame grid) :=
  fun _ => ⟨⟨frame, grid⟩, rfl, h⟩

theorem Reached.current [DecidableEq κ] {l : Layout κ}
    (h : Reached (Solves kept (Host.Answering answers kept)) l) : Current answers l := by
  induction h with
  | made h =>
    obtain ⟨tracks, -, rfl⟩ := made_eq h
    exact current_of_stale rfl
  | change _ hc ih =>
    rcases hc.spec with rfl | ⟨hstale, -⟩
    · exact ih
    · exact current_of_stale hstale
  | @hold l frame grid _ hs _ =>
    obtain ⟨host, s, hanswers, hs, hsolve⟩ := hs
    refine current_hold ?_
    rw [← (solve_eq_rebuilt hanswers l frame hs).1, hsolve]

private theorem heldGrid_of_isFresh {l : Layout κ} {frame : Frame} (h : Current answers l)
    (hfresh : l.isFresh frame = true) : l.heldGrid = l.rebuilt answers frame := by
  simp only [isFresh, Bool.and_eq_true, Bool.not_eq_true'] at hfresh
  obtain ⟨solved, hheld, hgrid⟩ := h hfresh.1
  have hframe : solved.frame = frame := by simpa [hheld] using hfresh.2
  rw [← hframe, hgrid, heldGrid, grid?, hheld]
  rfl

/-- The layout that resolving leaves when no listener changes it. -/
def settled (answers : Answers κ) (l : Layout κ) (frame : Frame) : Layout κ :=
  if l.isFresh frame then l
  else match l.rebuilt answers frame with
    | .ok grid => l.hold frame grid
    | .error _ => l

private theorem isFresh_hold (l : Layout κ) (frame : Frame) (grid : Grid) :
    (l.hold frame grid).isFresh frame = true := by
  simp [isFresh, hold]

private theorem settled_cases (answers : Answers κ) (l : Layout κ) (frame : Frame) :
    l.settled answers frame = l ∨ ∃ grid, l.rebuilt answers frame = .ok grid ∧
      l.settled answers frame = l.hold frame grid := by
  unfold settled
  split
  · exact .inl rfl
  · split
    · rename_i grid hgrid
      exact .inr ⟨grid, hgrid, rfl⟩
    · exact .inl rfl

theorem entries_settled (answers : Answers κ) (l : Layout κ) (frame : Frame) :
    (l.settled answers frame).entries = l.entries := by
  rcases settled_cases answers l frame with h | ⟨grid, -, h⟩
  · rw [h]
  · rw [h, hold]

private theorem rebuilt_settled (answers : Answers κ) (l : Layout κ) (frame : Frame) :
    (l.settled answers frame).rebuilt answers frame = l.rebuilt answers frame := by
  rcases settled_cases answers l frame with h | ⟨grid, -, h⟩
  · rw [h]
  · rw [h]
    rfl

/-- Resolving again changes nothing. -/
theorem settled_settled (answers : Answers κ) (l : Layout κ) (frame : Frame) :
    (l.settled answers frame).settled answers frame = l.settled answers frame := by
  rcases settled_cases answers l frame with h | ⟨grid, -, h⟩
  · rw [h, h]
  · rw [h, settled, if_pos (isFresh_hold l frame grid)]

theorem Current.settled {l : Layout κ} (h : Current answers l) (frame : Frame) :
    Current answers (l.settled answers frame) := by
  rcases settled_cases answers l frame with hl | ⟨grid, hgrid, hl⟩ <;> rw [hl]
  · exact h
  · exact current_hold hgrid

def resolved (answers : Answers κ) (l : Layout κ) (frame : Frame) : Except Fault Grid :=
  if l.isFresh frame then l.heldGrid else l.rebuilt answers frame

theorem Current.resolved {l : Layout κ} (h : Current answers l) (frame : Frame) :
    l.resolved answers frame = l.rebuilt answers frame := by
  unfold Layout.resolved
  split
  · exact heldGrid_of_isFresh h ‹_›
  · rfl

theorem resolve_resolved (hanswers : host.Answering answers kept)
    (hsilent : ∀ grid, (host.gridSolved grid).Silent kept) {w : World κ σ} (hs : kept w.around)
    (frame : Frame) : ∃ s, kept s ∧ (resolve host frame).run.run w =
      (w.layout.resolved answers frame, ⟨w.layout.settled answers frame, s⟩) := by
  unfold resolved settled
  cases hfresh : w.layout.isFresh frame with
  | true =>
    refine ⟨w.around, hs, ?_⟩
    rw [resolve_of_isFresh host hfresh]
    rfl
  | false =>
    obtain ⟨hsolve, hkept⟩ := solve_eq_rebuilt hanswers w.layout frame hs
    rcases hrun : (w.layout.solve host frame).run.run w.around with ⟨fault | grid, s⟩
    · rw [hrun] at hsolve hkept
      refine ⟨s, hkept, ?_⟩
      rw [resolve_of_fault hfresh hrun, ← hsolve]
      rfl
    · rw [hrun] at hsolve hkept
      obtain ⟨hlayout, hafter⟩ := hsilent grid ⟨w.layout.hold frame grid, s⟩ hkept
      refine ⟨_, hafter, ?_⟩
      rw [resolve_of_grid hfresh hrun rfl, ← hsolve]
      exact Prod.ext (by rw [hlayout]; rfl) (congrArg (World.mk · _) hlayout)

def given? (answers : Answers κ) (grid : Grid) (entry : Entry κ) : Option (κ × Rect) :=
  match ((boundsOn answers.host grid entry.constraint entry.component).run.run ()).1 with
  | .ok bounds => some (entry.component, bounds)
  | .error _ => none

def bounds? (answers : Answers κ) (l : Layout κ) (grid : Grid) (handle : Nat) : Option (κ × Rect) :=
  match l.entries.get? handle with
  | none => none
  | some entry => if entry.constraint.within grid.counts then given? answers grid entry else none

section
variable (hanswers : host.Answering answers kept)
  (hsilent : ∀ component bounds, (host.setBounds component bounds).Silent kept)
include hanswers hsilent

private theorem setBounds_notes (l : Layout κ) (grid : Grid) (entry : Entry κ)
    (notes : List (κ × Rect))
    {w : World κ (σ × List (κ × Rect))} (hw : World.Has (· = l) (Beside kept (· = notes)) w) :
    World.Has (· = l) (Beside kept (· = notes ++ (given? answers grid entry).toList))
      ((do
        let bounds ← Act.around (boundsOn host.recorded grid entry.constraint entry.component)
        host.recorded.setBounds entry.component bounds :
          Act κ (σ × List (κ × Rect)) Unit).run.run w).2 := by
  obtain ⟨rfl, hs⟩ := hw
  obtain ⟨hbounds, hkept⟩ := (hanswers.recorded (· = notes)).boundsOn grid entry.constraint
    entry.component w.around () hs
  unfold given?
  rw [run_bind, Act.run_around, ← hbounds]
  rcases hrun : (boundsOn host.recorded grid entry.constraint entry.component).run.run w.around
    with ⟨fault | bounds, s⟩ <;> rw [hrun] at hkept
  · exact ⟨rfl, hkept.1, hkept.2.trans (List.append_nil notes).symm⟩
  · obtain ⟨hlayout, hafter⟩ := hsilent entry.component bounds ⟨w.layout, s.1⟩ hkept.1
    dsimp only
    rw [Host.run_setBounds_recorded]
    exact ⟨hlayout, hafter, congrArg (· ++ _) hkept.2⟩

/-- Placing the entry of a handle leaves the layout alone and notes the bounds it gives. -/
theorem placeEntry_notes (l : Layout κ) (grid : Grid) (handle : Nat) (notes : List (κ × Rect))
    {w : World κ (σ × List (κ × Rect))} (hw : World.Has (· = l) (Beside kept (· = notes)) w) :
    World.Has (· = l) (Beside kept (· = notes ++ (bounds? answers l grid handle).toList))
      ((placeEntry host.recorded grid handle).run.run w).2 := by
  have hkeeps (notes : List (κ × Rect)) := (hanswers.recorded (· = notes)).keeps
  unfold placeEntry bounds?
  rw [run_bind, Act.run_layout, hw.1]
  dsimp only
  cases l.entries.get? handle with
  | none => exact ⟨hw.1, hw.2.1, hw.2.2.trans (List.append_nil notes).symm⟩
  | some entry =>
    dsimp only
    split
    · have hset := setBounds_notes hanswers hsilent l grid entry notes hw
      rw [run_bind, Act.run_outcome]
      dsimp only
      split
      · exact hset
      · exact (Holds.layout.bind (fun l _ => noteText_holds (hkeeps _) _ _) _ hset).1
    · rw [Option.toList_none, List.append_nil]
      exact (noteText_holds (hkeeps notes) _ _ w hw).1

/-- Placing all entries notes their bounds in order, if it comes to its end. -/
theorem forM_placeEntry_notes (l : Layout κ) (grid : Grid) (handles : List Nat)
    (notes : List (κ × Rect)) {w : World κ (σ × List (κ × Rect))}
    (hw : World.Has (· = l) (Beside kept (· = notes)) w)
    (hok : ((handles.forM (placeEntry host.recorded grid)).run.run w).1 = .ok ()) :
    ((handles.forM (placeEntry host.recorded grid)).run.run w).2.around.2 =
      notes ++ handles.filterMap (bounds? answers l grid) := by
  induction handles generalizing notes w with
  | nil => exact hw.2.2.trans (List.append_nil notes).symm
  | cons handle handles ih =>
    have hfirst := placeEntry_notes hanswers hsilent l grid handle notes hw
    have hrun : ((handle :: handles).forM (placeEntry host.recorded grid)).run.run w = _ :=
      run_bind (placeEntry host.recorded grid handle) _ w
    rw [hrun] at hok ⊢
    rcases hplace : (placeEntry host.recorded grid handle).run.run w with ⟨fault | _, v⟩
    · rw [hplace] at hok
      cases hok
    · rw [hplace] at hok hfirst
      dsimp only at hok ⊢
      rw [ih _ hfirst hok, List.append_assoc]
      cases hbounds : bounds? answers l grid handle with
      | none => rw [List.filterMap_cons_none hbounds]; rfl
      | some note => rw [List.filterMap_cons_some hbounds]; rfl

/-- Placing all entries leaves the layout alone. -/
theorem forM_placeEntry_layout (l : Layout κ) (grid : Grid) (handles : List Nat) :
    Holds (World.Has (· = l) (Beside kept fun _ => True))
      (handles.forM (placeEntry host.recorded grid)) fun _ => True := by
  refine Holds.forM _ fun handle _ => placeEntry_holds hanswers.keeps.recorded ?_
  rintro _ entry rect _ rfl _ _ _
  refine Holds.setBounds_recorded (fun w hw => ?_) fun _ _ => trivial
  obtain ⟨hlayout, hkept⟩ := hsilent entry.component rect w hw.2
  exact ⟨⟨hlayout.trans hw.1, hkept⟩, fun _ _ => trivial⟩

/-- What a pass leaves and what bounds it gives, if it comes to its end. -/
theorem arrange_notes (hsolved : ∀ grid, (host.gridSolved grid).Silent kept) {l : Layout κ} {s : σ}
    (hs : kept s) {frame : Frame} {after : Except Fault Unit × World κ (σ × List (κ × Rect))}
    (hafter : (arrange host.recorded frame).run.run ⟨l, (s, [])⟩ = after) :
    after.2.layout = l.settled answers frame ∧ kept after.2.around.1 ∧
      (after.1 = .ok () → ∃ grid, l.resolved answers frame = .ok grid ∧ after.2.around.2 =
        l.entries.handles.filterMap (bounds? answers (l.settled answers frame) grid)) := by
  obtain ⟨t, ht, hrun⟩ := resolve_resolved (w := ⟨l, (s, [])⟩) (hanswers.recorded (· = []))
    (fun grid => (hsolved grid).beside _) ⟨hs, rfl⟩ frame
  dsimp only at hrun
  cases hresolved : l.resolved answers frame with
  | error fault =>
    rw [hresolved] at hrun
    rw [arrange_of_fault hrun] at hafter
    subst hafter
    exact ⟨rfl, ht.1, fun hok => nomatch hok⟩
  | ok grid =>
    rw [hresolved] at hrun
    rw [arrange_of_grid hrun] at hafter
    dsimp only at hafter
    rw [entries_settled] at hafter
    obtain ⟨⟨hlayout, hkept, -⟩, -⟩ := forM_placeEntry_layout hanswers hsilent
      (l.settled answers frame) grid l.entries.handles ⟨l.settled answers frame, t⟩
      ⟨rfl, ht.1, trivial⟩
    rw [hafter] at hlayout hkept
    refine ⟨hlayout, hkept, fun hok => ⟨grid, rfl, ?_⟩⟩
    rw [← hafter] at hok ⊢
    exact forM_placeEntry_notes hanswers hsilent _ grid _ [] ⟨rfl, ht⟩ hok

/-- A pass that is repeated with nothing changed in between solves nothing and leaves the layout as
it is; if both come to their end, they give the same bounds to the same components in the same
order. -/
theorem arrange_twice (hsolved : ∀ grid, (host.gridSolved grid).Silent kept) {w : World κ σ}
    (hw : Current answers w.layout) (hs : kept w.around) {frame : Frame}
    {first second : Except Fault Unit × World κ (σ × List (κ × Rect))}
    (hfirst : (arrange host.recorded frame).run.run ⟨w.layout, (w.around, [])⟩ = first)
    (hsecond : (arrange host.recorded frame).run.run ⟨first.2.layout, (first.2.around.1, [])⟩ =
      second) :
    second.2.layout = first.2.layout ∧
      (first.1 = .ok () → second.1 = .ok () → second.2.around.2 = first.2.around.2) := by
  obtain ⟨hlayout, hkept, hnotes⟩ := arrange_notes hanswers hsilent hsolved hs hfirst
  rw [hlayout] at hsecond ⊢
  obtain ⟨hlayout', -, hnotes'⟩ := arrange_notes hanswers hsilent hsolved hkept hsecond
  rw [hw.resolved] at hnotes
  rw [settled_settled] at hlayout' hnotes'
  rw [(hw.settled frame).resolved, rebuilt_settled] at hnotes'
  refine ⟨hlayout', fun hok hok' => ?_⟩
  obtain ⟨grid, hgrid, heq⟩ := hnotes hok
  obtain ⟨grid', hgrid', heq'⟩ := hnotes' hok'
  obtain rfl : grid = grid' := Except.ok.inj (hgrid.symm.trans hgrid')
  rw [heq, heq', entries_settled]

end

/-- Two layouts with the same tracks and the same components under the same constraints are rebuilt
alike. -/
theorem rebuilt_congr {l l' : Layout κ} (htracks : l.tracks = l'.tracks)
    (hentries : l.entries.present.map (fun e => (e.component, e.constraint)) =
      l'.entries.present.map fun e => (e.component, e.constraint)) (frame : Frame) :
    l.rebuilt answers frame = l'.rebuilt answers frame := by
  have hself : answers.host.Alike (fun _ _ => True) answers.host :=
    ⟨fun _ _ _ _ => ⟨rfl, trivial⟩, fun _ _ _ _ => ⟨rfl, trivial⟩, fun _ _ _ _ => trivial⟩
  exact (hself.solve htracks hentries frame () () trivial).1

/-- Coherence over whole runs. Let anything act on a layout by its operations, callbacks included,
while the components answer the same. Then a grid that is not marked as out of date is the one that
solving the layout as it is gives. If no listener changes the layout, resolving comes to the same as
for a layout with these tracks and entries in which no grid was solved yet, and a pass that is
repeated solves nothing and gives the same bounds. -/
theorem run_coherent [DecidableEq κ] {x : Act κ σ α} {w after : World κ σ}
    (hw : Reached (Solves kept (Host.Answering answers kept)) w.layout) (hs : kept w.around)
    (hx : Orderly kept (Host.Answering answers kept) x) (hafter : (x.run.run w).2 = after) :
    Reached (Solves kept (Host.Answering answers kept)) after.layout ∧ kept after.around ∧
    Current answers after.layout ∧
    ∀ host : Host κ σ, host.Answering answers kept →
      (∀ grid, (host.gridSolved grid).Silent kept) → ∀ frame,
      (∀ fresh s, fresh.stale = true → fresh.tracks = after.layout.tracks →
        fresh.entries.present.map (fun e => (e.component, e.constraint)) =
          after.layout.entries.present.map (fun e => (e.component, e.constraint)) → kept s →
        ((resolve host frame).run.run after).1 = ((resolve host frame).run.run ⟨fresh, s⟩).1) ∧
      ((∀ component bounds, (host.setBounds component bounds).Silent kept) → ∀ first second,
        (arrange host.recorded frame).run.run ⟨after.layout, (after.around, [])⟩ = first →
        (arrange host.recorded frame).run.run ⟨first.2.layout, (first.2.around.1, [])⟩ = second →
        second.2.layout = first.2.layout ∧
          (first.1 = .ok () → second.1 = .ok () → second.2.around.2 = first.2.around.2)) := by
  obtain ⟨⟨hreached, hkept⟩, -⟩ := hx.holds (fun _ hfit => hfit.keeps) w ⟨hw, hs⟩
  rw [hafter] at hreached hkept
  have hcurrent := hreached.current
  refine ⟨hreached, hkept, hcurrent, fun host hanswers hsolved frame => ⟨?_, ?_⟩⟩
  · intro fresh s hstale htracks hentries hs
    obtain ⟨_, -, hv⟩ := resolve_resolved hanswers hsolved hkept frame
    obtain ⟨_, -, hu⟩ := resolve_resolved hanswers hsolved (w := ⟨fresh, s⟩) hs frame
    rw [hv, hu, hcurrent.resolved, (current_of_stale hstale).resolved,
      rebuilt_congr htracks hentries frame]
  · intro hbounds first second hfirst hsecond
    exact arrange_twice hanswers hbounds hsolved hcurrent hkept hfirst hsecond

private def loneLayout : Layout Unit where
  tracks := ⟨[.fill, .fill], [.sizing .preferred]⟩
  entries := ⟨[⟨0, (), .single ⟨1, 0⟩ Constraint.fullAlign⟩], [], [((), 0)], 1⟩
  stale := true
  held := none
  solveCount := 0

private def loneAnswers : Answers Unit := fun _ _ => .ok (some ⟨4, 3⟩)

private def loneHost : Host Unit Unit :=
  { loneAnswers.host with
    gridSolved := fun _ => Act.change fun l => l.removeEntry 0 }

/-- The listener of the first pass removes the component, so the second pass solves again. -/
private def loneRun : Act Unit Unit Grid :=
  resolve loneHost ⟨⟨21, 10⟩, .zero⟩ >>= fun _ => resolve loneAnswers.host ⟨⟨21, 10⟩, .zero⟩

theorem loneLayout_coherent :
    (loneRun.run.run ⟨loneLayout, ()⟩).2.layout.held =
      some ⟨⟨⟨21, 10⟩, .zero⟩, ⟨⟨[10, 11], [0, 10, 21]⟩, ⟨[0], [0, 0]⟩⟩⟩ ∧
    (loneRun.run.run ⟨loneLayout, ()⟩).2.layout.rebuilt loneAnswers ⟨⟨21, 10⟩, .zero⟩ =
      .ok ⟨⟨[10, 11], [0, 10, 21]⟩, ⟨[0], [0, 0]⟩⟩ := by
  have hmade : ofGiven (κ := Unit) (some [.sizing .fill, .sizing .fill])
      (some [.sizing .preferred]) = .ok (ofTracks loneLayout.tracks) := rfl
  have hadd : (ofTracks loneLayout.tracks).add ()
      (.constraint (.single ⟨1, 0⟩ Constraint.fullAlign)) = .ok (0, loneLayout) := rfl
  have hlistening : loneHost.Answering loneAnswers fun _ : Unit => True :=
    ⟨fun _ => .calculate _, fun _ => .calculate _, fun _ _ _ h => h⟩
  have hplain : loneAnswers.host.Answering loneAnswers fun _ : Unit => True :=
    ⟨fun _ => .calculate _, fun _ => .calculate _, fun _ _ _ h => h⟩
  have horderly : Orderly (fun _ => True) (Host.Answering loneAnswers fun _ => True) loneRun := by
    refine .bind (.resolve hlistening (fun _ => .step fun w _ => ?_) _) fun _ =>
      .resolve hplain (fun _ => .step fun w _ => ⟨trivial, .inl rfl⟩) _
    exact ⟨trivial, .inr (.removeEntry w.layout 0)⟩
  have hrun := run_coherent (w := ⟨loneLayout, ()⟩) (.change (.made hmade) (.add hadd)) trivial
    horderly rfl
  obtain ⟨solved, hheld, hgrid⟩ := hrun.2.2.1 rfl
  have hsolved : solved = ⟨⟨⟨21, 10⟩, .zero⟩, ⟨⟨[10, 11], [0, 10, 21]⟩, ⟨[0], [0, 0]⟩⟩⟩ :=
    Option.some.inj (hheld.symm.trans rfl)
  rw [hsolved] at hheld hgrid
  exact ⟨hheld, hgrid⟩

end Layout

end TrackGrid
