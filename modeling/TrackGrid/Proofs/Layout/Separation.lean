import Mathlib.Data.List.Pairwise
import TrackGrid.Proofs.Layout.Recording

/-! A pass gives two components no pixel in common unless they share a cell. -/

namespace TrackGrid

variable {κ σ : Type}

namespace Layout

/-- Constraints of which no two share a cell. -/
theorem anyMeet_eq_false_iff {cs : List Constraint} :
    anyMeet cs = false ↔ cs.Pairwise fun c d => c.meets d = false := by
  induction cs with
  | nil => simp [anyMeet]
  | cons c rest ih =>
    simp only [anyMeet, Bool.or_eq_false_iff, List.any_eq_false, Bool.not_eq_true,
      List.pairwise_cons, ih]

theorem meets_comm (c d : Constraint) : c.meets d = d.meets c := by
  simp only [Constraint.meets, Interval.meets, Bool.and_comm]

/-- Entries of different components share no cell in a table without overlaps. -/
theorem meets_of_hasOverlap {l : Layout κ} (h : l.hasOverlap = false) {e f : Entry κ}
    (he : e ∈ l.entries.present) (hf : f ∈ l.entries.present) (hne : e.component ≠ f.component) :
    e.constraint.meets f.constraint = false := by
  have hpairs := List.pairwise_map.mp (anyMeet_eq_false_iff.mp h)
  have : Std.Symm fun a b : Entry κ => a.constraint.meets b.constraint = false :=
    ⟨fun a b hab => by rwa [meets_comm]⟩
  exact hpairs.forall he hf fun heq => hne (by rw [heq])

theorem Reachable.held_sound [DecidableEq κ] {l : Layout κ} (h : Reachable σ l) :
    ∀ grid, l.grid? = some grid → grid.Sound := by
  induction h with
  | made h =>
    intro grid hgrid
    obtain ⟨tracks, -, rfl⟩ := made_eq h
    cases hgrid
  | change _ hc ih =>
    intro grid hgrid
    rcases hc.spec with rfl | ⟨-, hheld⟩
    · exact ih grid hgrid
    · rw [grid?, hheld] at hgrid
      exact ih grid hgrid
  | hold _ hs _ =>
    intro grid hgrid
    cases hgrid
    obtain ⟨host, s, -, -, hsolve⟩ := hs
    exact ((Host.Keeps.always host).solve _ _ s trivial).2 _ hsolve

/-- Bounds that were given to a component of a layout within the cells of its constraint. -/
def GivenWithin (l : Layout κ) (grid : Grid) (note : κ × Rect) : Prop :=
  ∃ entry ∈ l.entries.present, entry.component = note.1 ∧
    entry.constraint.within grid.counts = true ∧
    ∃ preferred, entry.constraint.place grid preferred = .ok note.2

/-- Bounds given within the cells of different components of a table without overlaps. -/
theorem GivenWithin.apart {l : Layout κ} {grid : Grid} {c d : κ} {r q : Rect}
    (hgrid : grid.Sound) (hl : l.hasOverlap = false) (hc : l.GivenWithin grid (c, r))
    (hd : l.GivenWithin grid (d, q)) (hne : c ≠ d) (x y : Int) :
    ¬ (r.Contains x y ∧ q.Contains x y) := by
  rintro ⟨hr, hq⟩
  obtain ⟨e, he, rfl, hewithin, _, heplace⟩ := hc
  obtain ⟨f, hf, rfl, hfwithin, _, hfplace⟩ := hd
  have hmeets := Constraint.meets_of_reaches hgrid
    (Constraint.place_within hgrid hewithin heplace hr)
    (Constraint.place_within hgrid hfwithin hfplace hq)
  rw [meets_of_hasOverlap hl he hf hne] at hmeets
  cases hmeets

section
variable {host : Host κ σ}

/-- Solving finds the same grid with a host that records. -/
theorem hold_recorded [DecidableEq κ] {l : Layout κ} {frame : Frame} {grid : Grid}
    {s : σ × List (κ × Rect)} (hl : Reachable σ l)
    (hsolve : ((l.solve host.recorded frame).run.run s).1 = .ok grid) :
    Reachable σ (l.hold frame grid) := by
  have hsame : ((l.solve host.recorded frame).run.run s).1 = ((l.solve host frame).run.run s.1).1 :=
    (host.recorded_alike.solve rfl rfl frame s s.1 rfl).1
  exact .hold hl ⟨host, s.1, trivial, trivial, hsame.symm.trans hsolve⟩

/-- Placing notes only bounds within the cells of the layout as it is. -/
theorem forM_placeEntry_within (hbounds : ∀ component bounds (w : World κ σ),
      ((host.setBounds component bounds).run.run w).2.layout = w.layout)
    (l : Layout κ) (grid : Grid) (handles : List Nat) :
    Holds (World.Has (· = l)
        (Beside (fun _ : σ => True) fun notes => ∀ note ∈ notes, l.GivenWithin grid note))
      (handles.forM (placeEntry host.recorded grid)) fun _ => True := by
  refine Holds.forM _ fun handle _ => ?_
  refine placeEntry_holds (Host.Keeps.always host).recorded ?_
  rintro _ entry rect preferred rfl hentry hwithin hplace
  refine Holds.setBounds_recorded (fun w hw => ?_) fun notes hnotes note hnote => ?_
  · exact ⟨⟨(hbounds entry.component rect w).trans hw.1, trivial⟩, fun _ _ => trivial⟩
  · rcases List.mem_append.mp hnote with hnote | hnote
    · exact hnotes note hnote
    · obtain rfl := List.mem_singleton.mp hnote
      exact ⟨entry, List.mem_of_find?_eq_some hentry, rfl, hwithin, preferred, hplace⟩

/-- A pass whose callbacks leave the layout alone leaves its entries as they are. -/
theorem entries_arrange
    (hsolved : ∀ grid (w : World κ σ), ((host.gridSolved grid).run.run w).2.layout = w.layout)
    (hbounds : ∀ component bounds (w : World κ σ),
      ((host.setBounds component bounds).run.run w).2.layout = w.layout)
    (w : World κ (σ × List (κ × Rect))) (frame : Frame) :
    ((arrange host.recorded frame).run.run w).2.layout.entries = w.layout.entries := by
  have harrange : Holds (World.Has (fun l => l.entries = w.layout.entries)
      (Beside (fun _ : σ => True) fun _ => True)) (arrange host.recorded frame) fun _ => True := by
    refine arrange_holds (Host.Keeps.always host).recorded (fun l frame grid s hl _ _ => hl)
      (fun grid => Holds.beside ?_) (fun component bounds => Holds.setBounds_recorded ?_ ?_) frame
    · intro v hv
      refine ⟨⟨?_, trivial⟩, fun _ _ => trivial⟩
      rw [hsolved grid v]
      exact hv.1
    · intro v hv
      refine ⟨⟨?_, trivial⟩, fun _ _ => trivial⟩
      rw [hbounds component bounds v]
      exact hv.1
    · exact fun _ _ => trivial
  exact (harrange w ⟨rfl, trivial, trivial⟩).1.1

/-- A pass gives no bounds at all, or all of them within the cells of one sound grid. -/
theorem arrange_within [DecidableEq κ] {w : World κ σ} {after : World κ (σ × List (κ × Rect))}
    {frame : Frame} (hw : Reachable σ w.layout)
    (hsolved : ∀ grid, Orderly (fun _ => True) (fun _ => True) (host.gridSolved grid))
    (hbounds : ∀ component bounds (w : World κ σ),
      ((host.setBounds component bounds).run.run w).2.layout = w.layout)
    (hafter : ((arrange host.recorded frame).run.run ⟨w.layout, (w.around, [])⟩).2 = after) :
    after.around.2 = [] ∨
      ∃ grid : Grid, grid.Sound ∧ ∀ note ∈ after.around.2, after.layout.GivenWithin grid note := by
  have hresolve : Holds (World.Has (Reachable σ) (Beside (fun _ : σ => True) (· = [])))
      (resolve host.recorded frame) Grid.Sound := by
    refine (resolve_holds (Host.Keeps.always host).recorded
      (fun l frame grid s hl _ => hold_recorded hl)
      (fun grid => ((hsolved grid).holds fun other _ => .always other).beside) frame).mono ?_
    rintro grid ⟨l, hl, hgrid⟩
    exact hl.held_sound grid hgrid
  obtain ⟨⟨-, -, hnotes⟩, hsound⟩ := hresolve ⟨w.layout, (w.around, [])⟩ ⟨hw, trivial, rfl⟩
  rcases hrun : (resolve host.recorded frame).run.run ⟨w.layout, (w.around, [])⟩
    with ⟨fault | grid, v⟩ <;> rw [hrun] at hnotes hsound
  · rw [arrange_of_fault hrun] at hafter
    subst hafter
    exact .inl hnotes
  · rw [arrange_of_grid hrun] at hafter
    obtain ⟨⟨hlayout, -, hwithin⟩, -⟩ :=
      forM_placeEntry_within hbounds v.layout grid v.layout.entries.handles v
        ⟨rfl, trivial, by rw [hnotes]; exact List.forall_mem_nil _⟩
    rw [hafter] at hlayout hwithin
    rw [hlayout]
    exact .inr ⟨grid, hsound grid rfl, hwithin⟩

/-- No two placed components collide. Let a pass be made on a layout that can be reached, by a host
whose listener acts by the operations of the layout and whose components leave the layout alone when
they are placed. If afterwards no two components share a cell, which is as before when the listener
leaves the layout alone, then no two components are given bounds with a pixel in common. -/
theorem arrange_apart [DecidableEq κ] {w : World κ σ} {after : World κ (σ × List (κ × Rect))}
    {frame : Frame} (hw : Reachable σ w.layout)
    (hsolved : ∀ grid, Orderly (fun _ => True) (fun _ => True) (host.gridSolved grid))
    (hbounds : ∀ component bounds (w : World κ σ),
      ((host.setBounds component bounds).run.run w).2.layout = w.layout)
    (hafter : ((arrange host.recorded frame).run.run ⟨w.layout, (w.around, [])⟩).2 = after) :
    ((∀ grid (w : World κ σ), ((host.gridSolved grid).run.run w).2.layout = w.layout) →
      after.layout.hasOverlap = w.layout.hasOverlap) ∧
    (after.layout.hasOverlap = false → ∀ c r d q, (c, r) ∈ after.around.2 →
      (d, q) ∈ after.around.2 → c ≠ d → ∀ x y, ¬ (r.Contains x y ∧ q.Contains x y)) := by
  constructor
  · intro hquiet
    have hentries := entries_arrange hquiet hbounds ⟨w.layout, (w.around, [])⟩ frame
    rw [hafter] at hentries
    rw [hasOverlap, hentries, hasOverlap]
  · intro hoverlap c r d q hc hd hne x y
    rcases arrange_within hw hsolved hbounds hafter with hnone | ⟨grid, hgrid, hwithin⟩
    · rw [hnone] at hc
      cases hc
    · exact GivenWithin.apart hgrid hoverlap (hwithin _ hc) (hwithin _ hd) hne x y

end

private def pairLayout : Layout Bool where
  tracks := ⟨[.fill, .fill], [.fill]⟩
  entries := ⟨[⟨0, false, .single ⟨0, 0⟩ ⟨.leading, .trailing⟩⟩,
    ⟨1, true, .single ⟨1, 0⟩ ⟨.center, .full⟩⟩], [], [(true, 1), (false, 0)], 2⟩
  stale := true
  held := none
  solveCount := 0

private def pairHost : Host Bool Unit where
  preferredSize _ := pure (some ⟨4, 3⟩)
  minimumSize _ := pure (some ⟨4, 3⟩)
  setBounds _ _ := pure ()
  gridSolved _ := pure ()
  report _ := pure ()

private theorem pairLayout_reachable : Reachable Unit pairLayout := by
  have hmade : ofGiven (κ := Bool) (some [.sizing .fill, .sizing .fill]) none =
      .ok (ofTracks pairLayout.tracks) := rfl
  have hfirst : (ofTracks pairLayout.tracks).add false
      (.constraint (.single ⟨0, 0⟩ ⟨.leading, .trailing⟩)) =
        .ok (0, { pairLayout with
          entries := ⟨pairLayout.entries.present.take 1, [], [(false, 0)], 1⟩ }) := rfl
  have hsecond : Layout.add { pairLayout with
      entries := ⟨pairLayout.entries.present.take 1, [], [(false, 0)], 1⟩ } true
        (.constraint (.single ⟨1, 0⟩ ⟨.center, .full⟩)) = .ok (1, pairLayout) := rfl
  exact .change (.change (.made hmade) (.add hfirst)) (.add hsecond)

theorem pairLayout_apart : ¬ ∃ x y : Int,
    (⟨0, 7, 4, 3⟩ : Rect).Contains x y ∧ (⟨13, 0, 4, 10⟩ : Rect).Contains x y := by
  have hafter : ((arrange pairHost.recorded ⟨⟨21, 10⟩, .zero⟩).run.run ⟨pairLayout, ((), [])⟩).2 =
      ⟨pairLayout.hold ⟨⟨21, 10⟩, .zero⟩ ⟨⟨[10, 11], [0, 10, 21]⟩, ⟨[10], [0, 10]⟩⟩,
        ((), [(false, ⟨0, 7, 4, 3⟩), (true, ⟨13, 0, 4, 10⟩)])⟩ := by
    rfl
  have hquiet {α : Type} (a : α) :
      Orderly (fun _ : Unit => True) (fun _ => True) (pure a : Act Bool Unit α) :=
    .step fun w _ => ⟨trivial, .inl rfl⟩
  have happart := (arrange_apart (w := ⟨pairLayout, ()⟩) pairLayout_reachable (fun _ => hquiet ())
    (fun _ _ _ => rfl) hafter).2
  rintro ⟨x, y, hxy⟩
  exact happart (by decide) false _ true _ (by simp) (by simp) (by simp) x y hxy

end Layout

end TrackGrid
