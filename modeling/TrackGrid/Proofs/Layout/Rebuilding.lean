import TrackGrid.Proofs.Layout.Editing
import TrackGrid.Proofs.Layout.Isolation
import TrackGrid.Proofs.Line.Extents

/-! With components that answer the same throughout, the grid depends on the entries only through
the content of the tracks. -/

namespace TrackGrid

variable {κ σ : Type}

def Item.value (item : Item (StateM Unit)) (kind : Sizing) : Int :=
  match ((item.extent kind).run.run ()).1 with
  | .ok extent => extent
  | .error _ => 0

namespace Answers

variable (answers : Answers κ)

/-- The extent of a component along an axis by the answers, zero where its query gives no size. -/
def extent (axis : Axis) (component : κ) (kind : Sizing) : Int :=
  match answers component (match kind with | .minimum => .minimum | _ => .preferred) with
  | .ok (some size) => size.along axis
  | _ => 0

private theorem extent_gives (axis : Axis) (component : κ) (kind : Sizing) :
    Gives (fun _ : Unit => True) (answers.host.extent axis component kind)
      (.ok (answers.extent axis component kind)) := by
  have hanswer (answer : Except Fault (Option Size)) :
      (match answer with
        | .ok (some size) => (.ok (size.along axis) : Except Fault Int)
        | _ => .ok 0) =
      .ok (match answer with
        | .ok (some size) => size.along axis
        | _ => 0) := by
    rcases answer with _ | _ | _ <;> rfl
  refine fun _ _ => ⟨?_, trivial⟩
  rw [answers.run_extent]
  cases kind <;> exact hanswer _

theorem value_item (axis : Axis) (entry : Entry κ) (kind : Sizing) :
    (answers.host.item axis entry).value kind = answers.extent axis entry.component kind := by
  have hrun : ((answers.host.extent axis entry.component kind).run.run ()).1 = _ :=
    (answers.extent_gives axis entry.component kind () trivial).1
  unfold Item.value
  change (match ((answers.host.extent axis entry.component kind).run.run ()).1 with
    | .ok extent => extent
    | .error _ => 0) = _
  rw [hrun]

private theorem items_give (axis : Axis) (entries : List (Entry κ)) :
    ∀ item ∈ entries.map (answers.host.item axis), ∀ kind,
      Gives (fun _ => True) (item.extent kind) (.ok (item.value kind)) := by
  intro item hitem kind
  obtain ⟨entry, -, rfl⟩ := List.mem_map.mp hitem
  rw [value_item]
  exact answers.extent_gives axis entry.component kind

end Answers

namespace Layout

variable {answers : Answers κ} {kept : σ → Prop} {host : Host κ σ} {l : Layout κ}

/-- The sizes that the entries give the tracks of an axis that are sized by their content. -/
def contentAlong (answers : Answers κ) (l : Layout κ) (axis : Axis) : List Int :=
  Line.contents Item.value (l.tracks.along axis) (l.entries.present.map (answers.host.item axis))

def lineAlong (answers : Answers κ) (l : Layout κ) (frame : Frame) (axis : Axis) :
    Except Fault Line :=
  Line.solved (l.tracks.along axis) (frame.origin.along axis) (frame.inner.along axis)
    (l.contentAlong answers axis)

theorem rebuilt_eq (answers : Answers κ) (l : Layout κ) (frame : Frame) :
    l.rebuilt answers frame = do
      let columns ← l.lineAlong answers frame .columns
      let rows ← l.lineAlong answers frame .rows
      return ⟨columns, rows⟩ := by
  have hline (axis : Axis) := Line.solve_gives (answers.items_give axis l.entries.present)
    (l.tracks.along axis) (frame.origin.along axis) (frame.inner.along axis)
  have hgrid : Gives (fun _ => True) (l.solve answers.host frame) (do
      let columns ← l.lineAlong answers frame .columns
      let rows ← l.lineAlong answers frame .rows
      return ⟨columns, rows⟩) :=
    (hline .columns).bind fun _ => (hline .rows).bind fun _ => .pure _
  exact (hgrid () trivial).1

/-- Layouts with the same tracks are rebuilt to the same grid only if the content is the same. -/
theorem contentAlong_eq_of_rebuilt {l' : Layout κ} (htracks : l'.tracks = l.tracks) {frame : Frame}
    {grid : Grid} (h : l.rebuilt answers frame = .ok grid)
    (h' : l'.rebuilt answers frame = .ok grid) (axis : Axis) :
    l'.contentAlong answers axis = l.contentAlong answers axis := by
  have hlines {l : Layout κ} (h : l.rebuilt answers frame = .ok grid) (axis : Axis) :
      l.lineAlong answers frame axis = .ok (grid.along axis) := by
    rw [rebuilt_eq] at h
    obtain ⟨columns, hcolumns, h⟩ := bind_eq_ok_iff.mp h
    obtain ⟨rows, hrows, h⟩ := bind_eq_ok_iff.mp h
    obtain rfl := pure_eq_ok_iff.mp h
    cases axis with
    | columns => exact hcolumns
    | rows => exact hrows
  have honly (l : Layout κ) : Line.Only Track.isContent (l.tracks.along axis)
      (l.contentAlong answers axis) := Line.contents_only _ _ _
  have hline' := hlines h' axis
  rw [lineAlong, htracks] at hline'
  exact Line.solved_injective (htracks ▸ honly l') (honly l) hline' (hlines h axis)

theorem rebuilt_of_contentAlong {l' : Layout κ} (htracks : l'.tracks = l.tracks)
    (hcontent : ∀ axis, l'.contentAlong answers axis = l.contentAlong answers axis)
    (frame : Frame) : l'.rebuilt answers frame = l.rebuilt answers frame := by
  simp only [rebuilt_eq, lineAlong, htracks, hcontent]

def requiredAlong (answers : Answers κ) (l : Layout κ) (kind : Sizing) (axis : Axis) :
    Except Fault Int :=
  Line.requiredOf Item.value (l.tracks.along axis) (l.visible.map (answers.host.item axis)) kind

def requiredOuter (answers : Answers κ) (l : Layout κ) (insets : Insets) (kind : Sizing) :
    Except Fault Size := do
  let width ← l.requiredAlong answers kind .columns
  let height ← l.requiredAlong answers kind .rows
  return ⟨width + insets.left + insets.right, height + insets.top + insets.bottom⟩

theorem requiredSize_gives (hanswers : host.Answering answers kept) (l : Layout κ) (insets : Insets)
    (kind : Sizing) :
    Gives kept (l.requiredSize host insets kind) (l.requiredOuter answers insets kind) := by
  have hline (axis : Axis) := Line.required_gives (answers.items_give axis l.visible)
    (l.tracks.along axis) kind
  have hsize : Gives (fun _ => True) (l.requiredSize answers.host insets kind)
      (l.requiredOuter answers insets kind) :=
    (hline .columns).bind fun _ => (hline .rows).bind fun _ => .pure _
  intro s hs
  obtain ⟨hsame, hkept⟩ := Host.Alike.requiredSize hanswers l insets kind s () hs
  exact ⟨hsame.trans (hsize () trivial).1, hkept⟩

section
variable (hanswers : host.Answering answers kept)
  (hsolved : ∀ grid, (host.gridSolved grid).Silent kept)
include hanswers hsolved

theorem resolve_rebuilt (hcurrent : Current answers l) {s : σ} (hs : kept s) (frame : Frame) :
    ((resolve host frame).run.run ⟨l, s⟩).1 = l.rebuilt answers frame := by
  obtain ⟨_, -, hresolve⟩ := resolve_resolved (w := ⟨l, s⟩) hanswers hsolved hs frame
  rw [hresolve, hcurrent.resolved]

variable (hsilent : ∀ component bounds, (host.setBounds component bounds).Silent kept)
include hsilent

/-- What a pass calls the components with, if it comes to its end. -/
theorem arrange_calls [DecidableEq κ] (hl : l.entries.Faithful) (hcurrent : Current answers l)
    {s : σ} (hs : kept s) {frame : Frame} {after : Except Fault Unit × World κ (σ × List (κ × Rect))}
    (hafter : (arrange host.recorded frame).run.run ⟨l, (s, [])⟩ = after) (hend : after.1 = .ok ()) :
    ∃ grid, l.rebuilt answers frame = .ok grid ∧
      after.2.around.2 = l.entries.present.filterMap (call? answers grid) := by
  obtain ⟨-, -, hnotes⟩ := arrange_notes hanswers hsilent hsolved hs hafter
  obtain ⟨grid, hgrid, hcalls⟩ := hnotes hend
  rw [filterMap_bounds? hl] at hcalls
  exact ⟨grid, hcurrent.resolved frame ▸ hgrid, hcalls⟩

/-- A pass over constraints that can be written fails only if no grid is found. -/
theorem arrange_ends (hwritable : l.Writable) (hcurrent : Current answers l) {s : σ} (hs : kept s)
    (frame : Frame) : ((arrange host.recorded frame).run.run ⟨l, (s, [])⟩).1 =
      (l.rebuilt answers frame).map fun _ => () := by
  obtain ⟨hsame, -⟩ := host.recorded_same.arrange frame ⟨l, (s, [])⟩ ⟨l, s⟩ ⟨rfl, rfl⟩
  rw [hsame]
  obtain ⟨t, ht, hresolve⟩ := resolve_resolved (w := ⟨l, s⟩) hanswers hsolved hs frame
  dsimp only at hresolve
  rw [hcurrent.resolved] at hresolve
  cases hgrid : l.rebuilt answers frame with
  | error fault =>
    rw [hgrid] at hresolve
    rw [arrange_of_fault hresolve]
    rfl
  | ok grid =>
    rw [hgrid] at hresolve
    exact arrange_finishes hanswers hsilent hwritable ht hresolve

end
end Layout
end TrackGrid
