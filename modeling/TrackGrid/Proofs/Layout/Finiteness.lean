import TrackGrid.Proofs.Layout.Rebuilding
import TrackGrid.Proofs.Line.Finiteness

/-! When the sizes of a layout can be told: just if along both axes all needs can be divided by
their shares. -/

namespace TrackGrid
namespace Layout

variable {κ σ : Type} {answers : Answers κ} {l : Layout κ}

/-- Whether the needs of all visible components along an axis can be divided by their shares. -/
def ScalableAlong (answers : Answers κ) (l : Layout κ) (kind : Sizing) (axis : Axis) : Prop :=
  Line.AllScalable Item.value (l.tracks.along axis) (l.visible.map (answers.host.item axis)) kind

section
variable (htracks : ∀ axis, Line.Moderate (l.tracks.along axis))
  (hsizes : ∀ entry ∈ l.visible, ∀ axis kind, 0 ≤ answers.extent axis entry.component kind ∧
    answers.extent axis entry.component kind ≤ 2 ^ 31)
include hsizes

private theorem value_bounds (axis : Axis) : ∀ item ∈ l.visible.map (answers.host.item axis),
    ∀ kind, 0 ≤ item.value kind ∧ item.value kind ≤ 2 ^ 31 := by
  intro item hitem kind
  obtain ⟨entry, hentry, rfl⟩ := List.mem_map.mp hitem
  rw [answers.value_item]
  exact hsizes entry hentry axis kind

include htracks

private theorem scalableAlong_of_coarse (hcoarse : ∀ axis, Line.Coarse (l.tracks.along axis))
    (kind : Sizing) (axis : Axis) : l.ScalableAlong answers kind axis :=
  Line.allScalable_of_coarse (value_bounds hsizes axis) (htracks axis) kind (hcoarse axis)

private theorem requiredAlong_finite (kind : Sizing) (axis : Axis) :
    (l.ScalableAlong answers kind axis →
      ∃ length, l.requiredAlong answers kind axis = .ok length) ∧
    (¬ l.ScalableAlong answers kind axis →
      l.requiredAlong answers kind axis = .error .infiniteInteger) :=
  Line.requiredOf_finite (value_bounds hsizes axis) (htracks axis) kind

private theorem requiredOuter_finite (insets : Insets) (kind : Sizing) :
    ((∀ axis, l.ScalableAlong answers kind axis) →
      ∃ size, l.requiredOuter answers insets kind = .ok size) ∧
    ((∃ axis, ¬ l.ScalableAlong answers kind axis) →
      l.requiredOuter answers insets kind = .error .infiniteInteger) := by
  have haxis := requiredAlong_finite htracks hsizes kind
  constructor
  · intro hall
    obtain ⟨width, hwidth⟩ := (haxis .columns).1 (hall .columns)
    obtain ⟨height, hheight⟩ := (haxis .rows).1 (hall .rows)
    rw [requiredOuter, hwidth, hheight]
    exact ⟨_, rfl⟩
  · rintro ⟨axis, hnot⟩
    by_cases hcolumns : l.ScalableAlong answers kind .columns
    · obtain ⟨width, hwidth⟩ := (haxis .columns).1 hcolumns
      have hrows : ¬ l.ScalableAlong answers kind .rows := by
        cases axis with
        | columns => exact absurd hcolumns hnot
        | rows => exact hnot
      rw [requiredOuter, hwidth, (haxis .rows).2 hrows]
      rfl
    · rw [requiredOuter, (haxis .columns).2 hcolumns]
      rfl

end

/-- Let tracks be clean, no more of them than a list can have and none of more than 2 ^ 31 pixels, and
let extents be from zero to 2 ^ 31 and be told whenever they are asked for. Then the length that is
required is found just if each need can be divided by the share of its tracks, and otherwise an
infinite number was to become an integer. All needs can be divided if no fraction of a relative track
is below 2 ^ -900. The preferred and the minimum size of a layout are told just as the lengths of
both of its axes are found. -/
theorem sizes_finite {kept : σ → Prop} :
    (∀ (items : List (Item (StateM σ))) (extent : Item (StateM σ) → Sizing → Int)
      (tracks : List Track) (kind : Sizing),
      (∀ item ∈ items, ∀ kind, Gives kept (item.extent kind) (.ok (extent item kind))) →
      (∀ item ∈ items, ∀ kind, 0 ≤ extent item kind ∧ extent item kind ≤ 2 ^ 31) →
      Line.Moderate tracks →
      (Line.AllScalable extent tracks items kind →
        ∃ length, Gives kept (Line.required tracks items kind) (.ok length)) ∧
      (¬ Line.AllScalable extent tracks items kind →
        Gives kept (Line.required tracks items kind) (.error .infiniteInteger)) ∧
      (Line.Coarse tracks → Line.AllScalable extent tracks items kind)) ∧
    ∀ (l : Layout κ) (host : Host κ σ) (answers : Answers κ) (insets : Insets) (kind : Sizing),
      host.Answering answers kept → (∀ axis, Line.Moderate (l.tracks.along axis)) →
      (∀ entry ∈ l.visible, ∀ axis kind, 0 ≤ answers.extent axis entry.component kind ∧
        answers.extent axis entry.component kind ≤ 2 ^ 31) →
      ((∀ axis, l.ScalableAlong answers kind axis) →
        ∃ size, Gives kept (l.requiredSize host insets kind) (.ok size)) ∧
      ((∃ axis, ¬ l.ScalableAlong answers kind axis) →
        Gives kept (l.requiredSize host insets kind) (.error .infiniteInteger)) ∧
      ((∀ axis, Line.Coarse (l.tracks.along axis)) →
        ∀ axis, l.ScalableAlong answers kind axis) := by
  constructor
  · intro items extent tracks kind hitems hextents htracks
    obtain ⟨hfound, hinfinite⟩ := Line.requiredOf_finite hextents htracks kind
    have hgives := Line.required_gives hitems tracks kind
    refine ⟨fun hall => ?_, fun hnot => hinfinite hnot ▸ hgives,
      Line.allScalable_of_coarse hextents htracks kind⟩
    obtain ⟨length, hlength⟩ := hfound hall
    exact ⟨length, hlength ▸ hgives⟩
  · intro l host answers insets kind hanswers htracks hsizes
    obtain ⟨hfound, hinfinite⟩ := requiredOuter_finite htracks hsizes insets kind
    have hgives := requiredSize_gives hanswers l insets kind
    refine ⟨fun hall => ?_, fun hnot => hinfinite hnot ▸ hgives,
      fun hcoarse => scalableAlong_of_coarse htracks hsizes hcoarse kind⟩
    obtain ⟨size, hsize⟩ := hfound hall
    exact ⟨size, hsize ▸ hgives⟩

/-- A half and a fill track over one row of ten pixels, and a component in each of them. -/
private def lampLayout : Layout Bool :=
  (ofTracks ⟨[.number (.float .half), .fill], [.number (.int 10)]⟩).putEntries
    ((Entries.empty.append false (.single ⟨0, 0⟩ Constraint.fullAlign)).append true
      (.single ⟨1, 0⟩ Constraint.fullAlign))

private def lampAnswers : Answers Bool
  | false, _ => .ok (some ⟨30, 4⟩)
  | true, _ => .ok (some ⟨12, 9⟩)

private theorem lampTracks_moderate (axis : Axis) :
    Line.Moderate (lampLayout.tracks.along axis) ∧ Line.Coarse (lampLayout.tracks.along axis) := by
  cases axis <;> exact ⟨⟨by decide +kernel, by decide, by decide +kernel⟩, by decide +kernel⟩

theorem lampLayout_finite :
    ∃ size, Gives (fun _ : Unit => True)
      (lampLayout.requiredSize lampAnswers.host .zero .preferred) (.ok size) := by
  have hanswers : lampAnswers.host.Answering lampAnswers fun _ : Unit => True :=
    ⟨fun _ => .calculate _, fun _ => .calculate _, fun _ _ _ h => h⟩
  have hsizes (component : Bool) (axis : Axis) (kind : Sizing) :
      0 ≤ lampAnswers.extent axis component kind ∧
        lampAnswers.extent axis component kind ≤ 2 ^ 31 := by
    cases component <;> cases axis <;> cases kind <;> decide
  obtain ⟨hfound, -, hcoarse⟩ := sizes_finite.2 lampLayout lampAnswers.host lampAnswers .zero
    .preferred hanswers (fun axis => (lampTracks_moderate axis).1) fun entry _ => hsizes entry.component
  exact hfound (hcoarse fun axis => (lampTracks_moderate axis).2)

end Layout

namespace Line

private def hairTracks : List Track := [.number (.float (.finite false 1 (by decide +kernel)))]

private def dotItem : Item Id := ⟨.one 0, true, fun _ => pure 1⟩

/-- One pixel in it takes more than all numbers. -/
theorem hairTracks_overflow :
    (∀ t ∈ hairTracks, t.Clean) ∧
    Id.run (required hairTracks [dotItem] .preferred).run = .error .infiniteInteger := by
  constructor <;> decide +kernel

end Line
end TrackGrid
