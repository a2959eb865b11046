import TrackGrid.Proofs.Constraint.Reading
import TrackGrid.Proofs.Layout.Edit

/-! Layouts that are made of one another by edits, as components may do while they are placed. -/

namespace TrackGrid

variable {κ : Type}

namespace Layout

def Writable (l : Layout κ) : Prop := ∀ e ∈ l.entries.present, e.constraint.Writable

instance (l : Layout κ) : Decidable l.Writable :=
  inferInstanceAs (Decidable (∀ e ∈ l.entries.present, e.constraint.Writable))

section
variable [DecidableEq κ]

/-- One layout is made of another by changes after each of which all constraints can be written. -/
inductive Edited (start : Layout κ) : Layout κ → Prop
  | refl : Edited start start
  | tail {l l' : Layout κ} (h : Edited start l) (hchange : Change l l') (hwritable : l'.Writable) :
      Edited start l'

namespace Edited

variable {start l l' : Layout κ}

theorem trans (h : Edited start l) (h' : Edited l l') : Edited start l' := by
  induction h' with
  | refl => exact h
  | tail _ hchange hwritable ih => exact ih.tail hchange hwritable

theorem writable (h : Edited start l) (hstart : start.Writable) : l.Writable := by
  cases h with
  | refl => exact hstart
  | tail _ _ hwritable => exact hwritable

theorem faithful (h : Edited start l) (hstart : start.entries.Faithful) : l.entries.Faithful := by
  induction h with
  | refl => exact hstart
  | tail _ hchange _ ih => exact ih.step hchange.entries

theorem succeeds (h : Edited start l) : start.entries.Succeeds l.entries := by
  induction h with
  | refl => exact .refl _
  | tail _ hchange _ ih => exact ih.trans hchange.entries.succeeds

/-- Nothing marks the grid as up to date again. -/
theorem stale (h : Edited start l) (hstart : start.stale = true) : l.stale = true := by
  induction h with
  | refl => exact hstart
  | tail _ hchange _ ih =>
    rcases hchange.spec with rfl | ⟨hstale, -⟩
    · exact ih
    · exact hstale

/-- The constraint of what left in the course of edits could be written when it left. -/
theorem departed (h : Edited start l) (hstart : start.entries.Faithful)
    (hwritable : start.Writable) {gone : Entry κ} (hgone : gone ∈ l.entries.departed) :
    gone ∈ start.entries.departed ∨ gone.constraint.Writable := by
  induction h with
  | refl => exact .inl hgone
  | tail hsofar hchange _ ih =>
    rcases (hsofar.faithful hstart).departed_step hchange.entries hgone with hold | ⟨hleft, -⟩
    · exact ih hold
    · exact .inr (hsofar.writable hwritable gone hleft)

/-- While an entry of the start is present, nothing of its component leaves. -/
theorem unbroken (h : Edited start l) (hstart : start.entries.Faithful) {e gone : Entry κ}
    (he : e ∈ l.entries.present) (hhandle : e.handle < start.entries.nextHandle)
    (hgone : gone ∈ l.entries.departed) (hcomponent : gone.component = e.component) :
    gone ∈ start.entries.departed := by
  induction h generalizing e with
  | refl => exact hgone
  | tail hsofar hchange _ ih =>
    have hstep := hchange.entries
    rcases (hsofar.faithful hstart).departed_step hstep hgone with hold | ⟨-, hnone⟩
    · obtain ⟨e', he', hhandle', hcomponent'⟩ :=
        hstep.succeeds.kept e he (hhandle.trans_le hsofar.succeeds.next)
      exact ih he' (hhandle' ▸ hhandle) hold (hcomponent.trans hcomponent'.symm)
    · exact absurd hcomponent.symm (hnone e he)

/-- The entry of a handle as it was last known can be written, if it was present at the start. -/
theorem lastKnown?_writable (h : Edited start l) (hstart : start.entries.Faithful)
    (hwritable : start.Writable) {e known : Entry κ} (he : e ∈ start.entries.present)
    (hknown : l.entries.lastKnown? e.handle = some known) : known.constraint.Writable := by
  have hhandle : known.handle = e.handle := by simpa using List.find?_some hknown
  rcases List.mem_append.mp (List.mem_of_find?_eq_some hknown) with hpresent | hdeparted
  · exact h.writable hwritable known hpresent
  · rcases h.departed hstart hwritable hdeparted with hold | hgone
    · exact absurd hhandle (hstart.handle_ne_departed he hold)
    · exact hgone

end Edited

/-- Edits one after the other, of which some may fail, as long as all constraints can be written. -/
theorem edited_foldl (edits : List (Edit κ)) (l : Layout κ)
    (hwritable : ∀ m ∈ edits.scanl (fun l edit => edit.leaves l) l, m.Writable) :
    Edited l (edits.foldl (fun l edit => edit.leaves l) l) := by
  induction edits generalizing l with
  | nil => exact .refl
  | cons edit edits ih =>
    rw [List.scanl_cons] at hwritable
    obtain ⟨-, hrest⟩ := List.forall_mem_cons.mp hwritable
    have hedit : (edit.leaves l).Writable := hrest _ (by cases edits <;> simp)
    have hfirst : Edited l (edit.leaves l) := by
      rcases edit.leaves_cases l with heq | hchange
      · rw [heq]
        exact .refl
      · exact Edited.refl.tail hchange hedit
    exact hfirst.trans (ih _ hrest)

end

end Layout

end TrackGrid
