import TrackGrid.Layout.Pass
import TrackGrid.Proofs.Constraint.Normal
import TrackGrid.Proofs.Outcome

/-! Columns and rows exchanged. What is calculated from transposed values is transposed. -/

namespace TrackGrid

@[simp] theorem Axis.across_across (axis : Axis) : axis.across.across = axis := by cases axis <;> rfl

namespace PerAxis

variable {α β : Type}

@[simp] theorem along_transpose (p : PerAxis α) (axis : Axis) :
    p.transpose.along axis = p.along axis.across := by
  cases axis <;> rfl

theorem transpose_put (p : PerAxis α) (axis : Axis) (a : α) :
    p.transpose.put axis.across a = (p.put axis a).transpose := by
  cases axis <;> rfl

private theorem transpose_modify (p : PerAxis α) (axis : Axis) (f : α → α) :
    p.transpose.modify axis.across f = (p.modify axis f).transpose := by
  cases axis <;> rfl

end PerAxis

/-- Two calculations of which neither needs the other, in either order. -/
theorem Matches.swap {α β γ δ : Type} {x : Except Fault α} {y : Except Fault β} {f : α → β → γ}
    {g : β → α → δ} {S : γ → δ → Prop} (h : ∀ a b, S (f a b) (g b a)) :
    Matches S (do let a ← x; let b ← y; return f a b) (do let b ← y; let a ← x; return g b a) := by
  rcases x with fault | a <;> rcases y with fault' | b
  · exact .faults _ _
  · exact .faults _ _
  · exact .faults _ _
  · exact .results (h a b)

namespace Size

def transpose (size : Size) : Size := ⟨size.height, size.width⟩

@[simp] theorem along_transpose (size : Size) (axis : Axis) :
    size.transpose.along axis = size.along axis.across := by
  cases axis <;> rfl

end Size

def Insets.transpose (insets : Insets) : Insets :=
  ⟨insets.left, insets.top, insets.right, insets.bottom⟩

namespace Frame

def transpose (frame : Frame) : Frame := ⟨frame.size.transpose, frame.insets.transpose⟩

theorem transpose_injective : Function.Injective transpose := by
  rintro ⟨⟨w, h⟩, ⟨t, l, b, r⟩⟩ ⟨⟨w', h'⟩, ⟨t', l', b', r'⟩⟩ heq
  simp only [transpose, Size.transpose, Insets.transpose, Frame.mk.injEq, Size.mk.injEq,
    Insets.mk.injEq] at heq ⊢
  omega

end Frame

def Rect.transpose (rect : Rect) : Rect := ⟨rect.y, rect.x, rect.height, rect.width⟩

namespace Constraint

def transpose : Constraint → Constraint
  | .single cell align => .single cell.transpose align.transpose
  | .span cells => .span cells.transpose

@[simp] theorem cells_transpose (c : Constraint) : c.transpose.cells = c.cells.transpose := by
  cases c <;> rfl

@[simp] theorem align_transpose (c : Constraint) : c.transpose.align = c.align.transpose := by
  cases c <;> rfl

@[simp] theorem isSingle_transpose (c : Constraint) : c.transpose.isSingle = c.isSingle := by
  cases c <;> rfl

private theorem ofCells_transpose (cells : PerAxis Interval) (align : PerAxis Alignment) :
    ofCells cells.transpose align.transpose = (ofCells cells align).transpose := by
  unfold ofCells
  dsimp only
  split
  · rename_i hsingle
    rw [if_pos ⟨hsingle.2, hsingle.1⟩]
    rfl
  · rename_i hspan
    rw [if_neg fun hsingle => hspan ⟨hsingle.2, hsingle.1⟩]
    rfl

private theorem normalize_transpose (c : Constraint) :
    c.transpose.normalize = c.normalize.transpose := by
  rw [normalize, cells_transpose, align_transpose, ofCells_transpose, normalize]

theorem shift_transpose (c : Constraint) (axis : Axis) (index delta : Int) :
    c.transpose.shift axis.across index delta = (c.shift axis index delta).transpose := by
  rw [shift, cells_transpose, align_transpose, PerAxis.transpose_modify, ofCells_transpose, shift]

theorem within_transpose (c : Constraint) (counts : PerAxis Int) :
    c.transpose.within counts.transpose = c.within counts := by
  rw [within, cells_transpose, within, Bool.and_comm]
  rfl

theorem meets_transpose (c d : Constraint) : c.transpose.meets d.transpose = c.meets d := by
  rw [meets, cells_transpose, cells_transpose, meets, Bool.and_comm]
  rfl

theorem needsPreferred_transpose (c : Constraint) :
    c.transpose.needsPreferred = c.needsPreferred := by
  cases c with
  | single cell align => exact Bool.or_comm _ _
  | span => rfl

/-- A place is found across just if it is found, and then it is the place across. -/
theorem place_transpose (c : Constraint) (grid : Grid) (preferred : Size) :
    Matches (fun rect rect' => rect' = rect.transpose) (c.place grid preferred)
      (c.transpose.place grid.transpose preferred.transpose) := by
  cases c with
  | single cell align => exact Matches.swap fun _ _ => rfl
  | span cells =>
    simp only [place, transpose, PerAxis.transpose]
    rcases grid.columns.startOf cells.columns.first with _ | left <;>
      rcases grid.rows.startOf cells.rows.first with _ | top <;>
      rcases grid.columns.stopOf cells.columns.last with _ | right <;>
      rcases grid.rows.stopOf cells.rows.last with _ | bottom <;>
      first | exact .faults _ _ | exact .results rfl

/-- A constraint can be written just if it can be written across. -/
theorem text_transpose (c : Constraint) : Matches (fun _ _ => True) c.text c.transpose.text := by
  cases c with
  | single cell align => exact Matches.swap fun _ _ => trivial
  | span cells =>
    simp only [text, transpose, PerAxis.transpose]
    rcases Number.writeInt cells.columns.first with _ | left <;>
      rcases Number.writeInt cells.rows.first with _ | top <;>
      rcases Number.writeInt cells.columns.last with _ | right <;>
      rcases Number.writeInt cells.rows.last with _ | bottom <;>
      first | exact .faults _ _ | exact .results trivial

end Constraint

namespace GivenConstraint

/-- What is given as a constraint, across. In place of a text that can be read the constraint is
given. -/
def transpose : GivenConstraint → GivenConstraint
  | .text t =>
      match Constraint.ofText t with
      | .ok c => .constraint c.transpose
      | .error _ => .text t
  | .constraint c => .constraint c.transpose
  | .absent => .absent
  | .other kind => .other kind

theorem ofGiven_transpose (given : GivenConstraint) :
    Constraint.ofGiven given.transpose = (Constraint.ofGiven given).map Constraint.transpose := by
  cases given with
  | text t =>
    unfold transpose
    cases htext : Constraint.ofText t with
    | error fault =>
      simp only [Constraint.ofGiven, htext]
      rfl
    | ok c =>
      have hgiven : Constraint.ofGiven (.text t) = .ok c := htext
      have hnormal := Constraint.ofGiven_normal hgiven
      simp only [Constraint.ofGiven, htext, Constraint.normalize_transpose, hnormal.normalize_eq]
      rfl
  | constraint c => exact congrArg Except.ok (Constraint.normalize_transpose c)
  | absent => rfl
  | other => rfl

end GivenConstraint

end TrackGrid
