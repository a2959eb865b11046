import TrackGrid.Proofs.Layout.Rebuilding
import TrackGrid.Proofs.Line.Monotonicity

/-! The minimum size of a layout is within the preferred one if the components keep theirs in that
order. -/

namespace TrackGrid
namespace Layout

variable {κ σ : Type} {answers : Answers κ} {kept : σ → Prop} {host : Host κ σ} {l : Layout κ}

private theorem requiredAlong_mono {axis : Axis}
    (hsizes : ∀ entry ∈ l.visible,
      answers.extent axis entry.component .minimum ≤ answers.extent axis entry.component .preferred)
    {least length : Int} (hleast : l.requiredAlong answers .minimum axis = .ok least)
    (hlength : l.requiredAlong answers .preferred axis = .ok length) : least ≤ length := by
  refine Line.requiredOf_mono (fun item hitem => ?_) hleast hlength
  obtain ⟨entry, hentry, rfl⟩ := List.mem_map.mp hitem
  rw [answers.value_item, answers.value_item]
  exact hsizes entry hentry

/-- The minimum size of a layout is not larger than its preferred size. Let no component inside of
the table have a minimum size that is larger than its preferred one, where a query that fails or has
no answer counts as zero. If both sizes of the layout can be told, at whatever moments, the minimum
size is at most the preferred size along each axis. -/
theorem minimum_le_preferred (hanswers : host.Answering answers kept) (l : Layout κ)
    (hsizes : ∀ entry ∈ l.visible, ∀ axis,
      answers.extent axis entry.component .minimum ≤ answers.extent axis entry.component .preferred)
    (insets : Insets) {s t : σ} (hs : kept s) (ht : kept t) {least size : Size}
    (hleast : ((l.requiredSize host insets .minimum).run.run s).1 = .ok least)
    (hsize : ((l.requiredSize host insets .preferred).run.run t).1 = .ok size) :
    ∀ axis, least.along axis ≤ size.along axis := by
  rw [(requiredSize_gives hanswers l insets .minimum s hs).1] at hleast
  rw [(requiredSize_gives hanswers l insets .preferred t ht).1] at hsize
  obtain ⟨width, hwidth, hleast⟩ := bind_eq_ok_iff.mp hleast
  obtain ⟨height, hheight, hleast⟩ := bind_eq_ok_iff.mp hleast
  obtain ⟨width', hwidth', hsize⟩ := bind_eq_ok_iff.mp hsize
  obtain ⟨height', hheight', hsize⟩ := bind_eq_ok_iff.mp hsize
  obtain rfl := pure_eq_ok_iff.mp hleast
  obtain rfl := pure_eq_ok_iff.mp hsize
  have hcolumns := requiredAlong_mono (fun entry he => hsizes entry he .columns) hwidth hwidth'
  have hrows := requiredAlong_mono (fun entry he => hsizes entry he .rows) hheight hheight'
  intro axis
  cases axis with
  | columns =>
    simp only [Size.along]
    omega
  | rows =>
    simp only [Size.along]
    omega

private def cabinetLayout : Layout (Fin 3) :=
  (ofTracks ⟨[.sizing .preferred, .number (.float .half), .fill], [.sizing .minimum]⟩).putEntries
    (((Entries.empty.append 0 (.single ⟨0, 0⟩ Constraint.fullAlign)).append 1
      (.span ⟨⟨1, 2⟩, ⟨0, 0⟩⟩)).append 2 (.single ⟨1, 4⟩ Constraint.fullAlign))

private def cabinetAnswers : Answers (Fin 3)
  | 0, .preferred => .ok (some ⟨10, 4⟩)
  | 0, .minimum => .ok (some ⟨6, 3⟩)
  | 1, .preferred => .ok (some ⟨30, 5⟩)
  | 1, .minimum => .error (.component "no size")
  | 2, .preferred => .ok none
  | 2, .minimum => .ok (some ⟨90, 90⟩)

private def cabinetSize (kind : Sizing) : Except Fault Size :=
  ((cabinetLayout.requiredSize cabinetAnswers.host ⟨1, 2, 0, 3⟩ kind).run.run ()).1

/-- The component below the last row has a minimum size only, but no say. -/
theorem cabinetLayout_minimum_le : ∃ least size : Size,
    cabinetSize .minimum = .ok least ∧ cabinetSize .preferred = .ok size ∧
      ∀ axis, least.along axis ≤ size.along axis := by
  have hanswers : cabinetAnswers.host.Answering cabinetAnswers fun _ : Unit => True :=
    ⟨fun _ => .calculate _, fun _ => .calculate _, fun _ _ _ h => h⟩
  have hsizes : ∀ entry ∈ cabinetLayout.visible, ∀ axis,
      cabinetAnswers.extent axis entry.component .minimum ≤
        cabinetAnswers.extent axis entry.component .preferred := by
    have hentries : ∀ entry ∈ cabinetLayout.visible,
        entry.component = 0 ∨ entry.component = 1 := by decide
    intro entry hentry axis
    rcases hentries entry hentry with h | h <;> rw [h] <;> cases axis <;> decide
  have hleast : cabinetSize .minimum = .ok ⟨15, 4⟩ := by decide +kernel
  have hsize : cabinetSize .preferred = .ok ⟨45, 4⟩ := by decide +kernel
  exact ⟨_, _, hleast, hsize,
    minimum_le_preferred hanswers cabinetLayout hsizes _ trivial trivial hleast hsize⟩

end Layout
end TrackGrid
