import TrackGrid.Proofs.Layout.Edit
import TrackGrid.Proofs.Layout.Recording

/-! An operation on a layout that fails, at whatever point, leaves the layout as it was and
announces no grid. -/

namespace TrackGrid

variable {κ σ τ α : Type}

/-- An operation on a layout of components of type `κ` with a result of the given type: an edit,
reading something off the layout, resolving it for a frame, or asking for the size it requires. -/
inductive Operation (κ : Type) : Type → Type 1 where
  | edit (change : Edit κ) : Operation κ (Option Nat)
  | read {α : Type} (f : Layout κ → Except Fault α) : Operation κ α
  | resolve (frame : Frame) : Operation κ Grid
  | size (insets : Insets) (kind : Sizing) : Operation κ Size

def Operation.carryOut [DecidableEq κ] (host : Host κ σ) : Operation κ α → Act κ σ α
  | .edit change => change.carryOut
  | .read f => do Act.around (calculate (f (← Act.layout)))
  | .resolve frame => Layout.resolve host frame
  | .size insets kind => do Act.around ((← Act.layout).requiredSize host insets kind)

def Layout.Holding (l : Layout κ) : Prop := l.held.isSome = true

namespace Layout

variable {l : Layout κ} {frame : Frame}

theorem exists_heldGrid (h : l.Holding) : ∃ grid, l.heldGrid = .ok grid := by
  obtain ⟨solved, hsolved⟩ := Option.isSome_iff_exists.mp h
  exact ⟨solved.grid, by rw [heldGrid, grid?, hsolved]; rfl⟩

theorem holding_of_isFresh (h : l.isFresh frame = true) : l.Holding :=
  Option.isSome_of_any (Bool.and_eq_true_iff.mp h).2

end Layout

def Act.KeepsGrid (x : Act κ σ α) : Prop :=
  ∀ w, w.layout.Holding → (x.run.run w).2.layout.Holding

private theorem Orderly.keepsGrid [DecidableEq κ] {x : Act κ σ α}
    (hx : Orderly (fun _ => True) (fun _ => True) x) : x.KeepsGrid := by
  intro w hw
  refine (hx.keeps (P := Layout.Holding) (fun host _ => .always host) (fun l l' hl hc => ?_)
    (fun _ _ _ _ _ => rfl) w ⟨hw, trivial⟩).1.1
  rcases hc.spec with rfl | ⟨-, hheld⟩
  · exact hl
  · exact (congrArg Option.isSome hheld).trans hl

theorem Act.KeepsGrid.noting {host : Host κ σ} {onCall : Call κ → τ → τ} {onGrid : Grid → τ → τ}
    {grid : Grid} (h : (host.gridSolved grid).KeepsGrid) :
    ((host.noting onCall onGrid).gridSolved grid).KeepsGrid :=
  fun w hw => h ⟨w.layout, w.around.1⟩ hw

section
variable {host : Host κ σ} {w after : World κ σ} {fault : Fault} {kept : σ → Prop}
  (hlistens : ∀ grid, (host.gridSolved grid).KeepsGrid)
include hlistens

/-- Resolving fails only while the grid is solved, not after it was held. -/
theorem Layout.resolve_error {frame : Frame}
    (h : (resolve host frame).run.run w = (.error fault, after)) :
    after.layout = w.layout ∧ after.around = ((w.layout.solve host frame).run.run w.around).2 := by
  cases hfresh : w.layout.isFresh frame with
  | true =>
    obtain ⟨grid, hgrid⟩ := exists_heldGrid (holding_of_isFresh hfresh)
    rw [resolve_of_isFresh host hfresh, hgrid] at h
    cases h
  | false =>
    rcases hsolve : (w.layout.solve host frame).run.run w.around with ⟨fault' | grid, s⟩
    · rw [resolve_of_fault hfresh hsolve] at h
      cases h
      exact ⟨rfl, rfl⟩
    · -- the grid that was just held is still there after listening, so nothing fails any more
      have hafter := hlistens grid ⟨w.layout.hold frame grid, s⟩ rfl
      obtain ⟨grid', hgrid'⟩ := exists_heldGrid hafter
      rw [resolve_of_grid hfresh hsolve rfl, hgrid'] at h
      cases h

/-- An operation that fails leaves the layout as it was. What is kept while questions are asked is
kept. -/
theorem Operation.error_keeps [DecidableEq κ] (hkeeps : host.Keeps kept) (op : Operation κ α)
    (hs : kept w.around) (h : (op.carryOut host).run.run w = (.error fault, after)) :
    after.layout = w.layout ∧ kept after.around := by
  cases op with
  | edit change =>
    rw [carryOut, change.carryOut_performs w] at h
    cases happly : change.apply w.layout with
    | error fault' =>
      rw [happly] at h
      cases h
      exact ⟨rfl, hs⟩
    | ok result =>
      rw [happly] at h
      cases h
  | read f =>
    obtain rfl : _ = after := congrArg Prod.snd h
    exact ⟨rfl, hs⟩
  | resolve frame =>
    obtain ⟨hlayout, haround⟩ := Layout.resolve_error hlistens h
    rw [haround]
    exact ⟨hlayout, (hkeeps.solve w.layout frame w.around hs).1⟩
  | size insets kind =>
    obtain rfl : _ = after := congrArg Prod.snd h
    exact ⟨rfl, (hkeeps.requiredSize w.layout insets kind w.around hs).1⟩

end

private theorem Act.Performs.agree {f : Layout κ → Except Fault (α × Layout κ)} {R : σ → τ → Prop}
    {x : Act κ σ α} {y : Act κ τ α} (hx : x.Performs f) (hy : y.Performs f) :
    Agree (World.Alike R) x y := by
  intro w v hw
  obtain ⟨hlayout, haround⟩ := hw
  rw [hx w, hy v, hlayout]
  cases f v.layout with
  | error fault => exact ⟨rfl, hlayout, haround⟩
  | ok result => exact ⟨rfl, rfl, haround⟩

/-- Hosts that do the same make the same of an operation. -/
theorem Operation.agree [DecidableEq κ] {R : σ → τ → Prop} {host : Host κ σ} {other : Host κ τ}
    (h : host.Same R other) (op : Operation κ α) :
    Agree (World.Alike R) (op.carryOut host) (op.carryOut other) := by
  cases op with
  | edit change => exact change.carryOut_performs.agree change.carryOut_performs
  | read f => exact Agree.layout.bind fun l => Agree.around (.calculate (f l))
  | resolve frame => exact h.resolve frame
  | size insets kind =>
    exact Agree.layout.bind fun l => Agree.around (h.toAlike.requiredSize l insets kind)

/-- Failures leave no trace on the layout. Let an operation fail while whoever listens for grids acts
on the layout by its operations only, and may fail as well. Then the layout is as it was before, with
its tracks, its entries and their handles, the next handle, the mark of being out of date, the grid
that is held with its frame and the count of grids solved. No grid is announced either: none is noted
beside the ones noted before. -/
theorem Operation.error_intact [DecidableEq κ] {host : Host κ σ}
    (hlistens : ∀ grid, Orderly (fun _ => True) (fun _ => True) (host.gridSolved grid))
    (op : Operation κ α) {w after : World κ σ} {fault : Fault}
    (h : (op.carryOut host).run.run w = (.error fault, after)) :
    after.layout = w.layout ∧ ∀ grids,
      (op.carryOut host.announced).run.run ⟨w.layout, (w.around, grids)⟩ =
        (.error fault, ⟨w.layout, (after.around, grids)⟩) := by
  have hannounced (grids : List Grid) :
      after.layout = w.layout ∧
        (op.carryOut host.announced).run.run ⟨w.layout, (w.around, grids)⟩ =
          (.error fault, ⟨after.layout, (after.around, grids)⟩) := by
    have hagree := op.agree host.announced_same
    obtain ⟨hout, hlayout, -⟩ := hagree ⟨w.layout, (w.around, grids)⟩ w ⟨rfl, rfl⟩
    rw [h] at hout hlayout
    have hkeeps : host.announced.Keeps (Beside (fun _ => True) (· = grids)) :=
      (Host.Keeps.always host).noting
    obtain ⟨hbefore, -, hgrids⟩ := op.error_keeps (fun grid => (hlistens grid).keepsGrid.noting)
      hkeeps ⟨trivial, rfl⟩ (Prod.ext hout rfl)
    exact ⟨hlayout.symm.trans hbefore, hagree.run_beside h hgrids⟩
  obtain ⟨hlayout, -⟩ := hannounced []
  refine ⟨hlayout, fun grids => ?_⟩
  rw [(hannounced grids).2, hlayout]

private def steepLayout : Layout Bool :=
  (Layout.ofTracks ⟨[.sizing .preferred, .fill], [.number (.float Binary64.half)]⟩).putEntries
    (Entries.empty.append false (.single ⟨0, 0⟩ Constraint.fullAlign))

/-- Components that count how often they are asked, and a listener that takes one of them out and
fails. -/
private def steepHost : Host Bool Nat where
  preferredSize _ := do
    modify Nat.succ
    return some ⟨4, 3⟩
  minimumSize _ := pure none
  setBounds _ _ := pure ()
  gridSolved _ := do
    let _ ← (Edit.removeComponent false).carryOut
    throw .noSize
  report _ := pure ()

/-- The third of three given tracks is beyond all numbers, and so is the height of a frame whose
columns have been laid out already. -/
theorem steepLayout_intact :
    (∃ after, ((Operation.edit (.setTracks .columns
        [.sizing .fill, .number (.int 5), .number (.int (10 ^ 309))])).carryOut steepHost).run.run
        ⟨steepLayout, 0⟩ = (.error .integerTooLarge, after) ∧ after.layout = steepLayout) ∧
    ∃ after, ((Operation.resolve ⟨⟨21, 2 ^ 1024⟩, .zero⟩).carryOut steepHost).run.run
      ⟨steepLayout, 0⟩ = (.error .integerTooLarge, after) ∧ after.layout = steepLayout ∧
        after.around = 1 := by
  have hlistens (grid : Grid) :
      Orderly (fun _ => True) (fun _ => True) (steepHost.gridSolved grid) :=
    .bind (Edit.carryOut_orderly _ _ _) fun _ => .step fun w _ => ⟨trivial, .inl rfl⟩
  have hedit : (((Operation.edit (.setTracks .columns
      [.sizing .fill, .number (.int 5), .number (.int (10 ^ 309))])).carryOut steepHost).run.run
      ⟨steepLayout, 0⟩).1 = .error .integerTooLarge := by decide +kernel
  have hresolve : (((Operation.resolve ⟨⟨21, 2 ^ 1024⟩, .zero⟩).carryOut steepHost).run.run
      ⟨steepLayout, 0⟩).1 = .error .integerTooLarge := by decide +kernel
  refine ⟨⟨_, Prod.ext hedit rfl, ?_⟩, _, Prod.ext hresolve rfl, ?_, by decide +kernel⟩
  · exact (Operation.error_intact hlistens _ (Prod.ext hedit rfl)).1
  · exact (Operation.error_intact hlistens _ (Prod.ext hresolve rfl)).1

end TrackGrid
