import TrackGrid.Proofs.Layout.Editing
import TrackGrid.Proofs.Layout.Separation
import TrackGrid.Proofs.Layout.Table
import TrackGrid.Proofs.Layout.Totality

/-! Passes in which components edit the layout while they are placed go along the entries and on the
grid that they began with. -/

namespace TrackGrid

variable {κ σ τ α : Type}

/-- A call on a grid: the bounds are the place of an entry of the component, under the constraint
that the entry has when it is reached. -/
structure Call.Places (host : Host κ σ) (grid : Grid) (call : Call κ) (entry : Entry κ) :
    Prop where
  present : entry ∈ call.before.entries.present
  component : entry.component = call.component
  within : entry.constraint.within grid.counts = true
  bounds : ∃ s, ((Layout.boundsOn host grid entry.constraint entry.component).run.run s).1 =
    .ok call.bounds

/-- The calls that a pass makes on its way along handles, from one layout to another. -/
inductive Trail (host : Host κ σ) (grid : Grid) :
    Layout κ → List Nat → List (Call κ) → Layout κ → Prop
  | done (l : Layout κ) (handles : List Nat) : Trail host grid l handles [] l
  | skip {l l' : Layout κ} {handle : Nat} {handles : List Nat} {calls : List (Call κ)}
      (h : Trail host grid l handles calls l') : Trail host grid l (handle :: handles) calls l'
  | call {l' : Layout κ} {handles : List Nat} {calls : List (Call κ)} {call : Call κ}
      {entry : Entry κ} (hplaces : call.Places host grid entry)
      (h : Trail host grid call.after handles calls l') :
      Trail host grid call.before (entry.handle :: handles) (call :: calls) l'

namespace Trail

variable {host : Host κ σ} {grid : Grid} {l l' : Layout κ} {handles : List Nat}
  {calls : List (Call κ)}

section
variable [DecidableEq κ] (h : Trail host grid l handles calls l')
  (hedits : ∀ call ∈ calls, Layout.Edited call.before call.after)
include h hedits

private theorem edited : Layout.Edited l l' := by
  induction h with
  | done => exact .refl
  | skip _ ih => exact ih hedits
  | call _ _ ih =>
    obtain ⟨hfirst, hrest⟩ := List.forall_mem_cons.mp hedits
    exact hfirst.trans (ih hrest)

/-- Each call comes after the calls before it and before those after it. -/
theorem call_between {call : Call κ} (hcall : call ∈ calls) :
    Layout.Edited l call.before ∧ Layout.Edited call.after l' := by
  induction h with
  | done => cases hcall
  | skip _ ih => exact ih hedits hcall
  | call _ hrest ih =>
    obtain ⟨hfirst, hlater⟩ := List.forall_mem_cons.mp hedits
    rcases List.mem_cons.mp hcall with rfl | hcall
    · exact ⟨.refl, hrest.edited hlater⟩
    · obtain ⟨hbefore, hafter⟩ := ih hlater hcall
      exact ⟨hfirst.trans hbefore, hafter⟩

end

/-- Each call is that of an entry whose handle the pass comes along. -/
theorem exists_places (h : Trail host grid l handles calls l') {call : Call κ}
    (hcall : call ∈ calls) : ∃ entry, entry.handle ∈ handles ∧ call.Places host grid entry := by
  induction h with
  | done => cases hcall
  | skip _ ih =>
    obtain ⟨entry, hentry, hplaces⟩ := ih hcall
    exact ⟨entry, List.mem_cons_of_mem _ hentry, hplaces⟩
  | @call _ _ _ _ entry hplaces _ ih =>
    rcases List.mem_cons.mp hcall with rfl | hcall
    · exact ⟨entry, List.mem_cons_self, hplaces⟩
    · obtain ⟨entry, hentry, hplaces⟩ := ih hcall
      exact ⟨entry, List.mem_cons_of_mem _ hentry, hplaces⟩

/-- A way along entries that were present at the start calls their components, each at most once and
in the same order. -/
theorem components_sublist [DecidableEq κ] {start : Layout κ} {entries : List (Entry κ)}
    (hstart : start.entries.Faithful) (hentries : ∀ e ∈ entries, e ∈ start.entries.present)
    (hsofar : Layout.Edited start l)
    (h : Trail host grid l (entries.map Entry.handle) calls l')
    (hedits : ∀ call ∈ calls, Layout.Edited call.before call.after) :
    (calls.map Call.component).Sublist (entries.map Entry.component) := by
  generalize hhandles : entries.map Entry.handle = handles at h
  induction h generalizing entries with
  | done => exact List.nil_sublist _
  | skip _ ih =>
    obtain ⟨e, rest, rfl, -, hrest⟩ := List.map_eq_cons_iff.mp hhandles
    obtain ⟨-, hothers⟩ := List.forall_mem_cons.mp hentries
    exact (ih hothers hsofar hedits hrest).cons _
  | @call _ _ _ call entry hplaces _ ih =>
    obtain ⟨e, rest, rfl, hhandle, hrest⟩ := List.map_eq_cons_iff.mp hhandles
    obtain ⟨he, hothers⟩ := List.forall_mem_cons.mp hentries
    obtain ⟨hfirst, hlater⟩ := List.forall_mem_cons.mp hedits
    -- the entry that is reached stands under the handle of `e`, so it is of the same component
    obtain ⟨e', he', hhandle', hcomponent⟩ :=
      hsofar.succeeds.kept entry hplaces.present (hhandle ▸ hstart.handle_lt he)
    obtain rfl := hstart.eq_of_handle he' he (hhandle'.trans hhandle.symm)
    rw [List.map_cons, List.map_cons, ← hplaces.component, ← hcomponent]
    exact (ih hothers (hsofar.trans hfirst) hlater hrest).cons_cons _

private theorem skips (h : Trail host grid l handles calls l') (others : List Nat) :
    Trail host grid l (others ++ handles) calls l' := by
  induction others with
  | nil => exact h
  | cons handle others ih => exact ih.skip

theorem append {handles' : List Nat} {calls' : List (Call κ)} {l'' : Layout κ}
    (h : Trail host grid l handles calls l') (h' : Trail host grid l' handles' calls' l'') :
    Trail host grid l (handles ++ handles') (calls ++ calls') l'' := by
  induction h with
  | done l handles => exact h'.skips handles
  | skip _ ih => exact (ih h').skip
  | call hplaces _ ih => exact (ih h').call hplaces

end Trail

namespace Layout

variable {host : Host κ σ}

private theorem noteText_observed {text : Except Fault String} {notice : String → Notice κ}
    {w v : World κ (σ × List (Call κ))} {out : Except Fault Unit}
    (h : (do
      let text ← Act.around (calculate text)
      Act.around (host.observed.notify (notice text))).run.run w = (out, v)) :
    v.layout = w.layout ∧ v.around.2 = w.around.2 ∧ ((∃ t, text = .ok t) → out = .ok ()) := by
  cases text with
  | error fault =>
    cases h
    exact ⟨rfl, rfl, fun ⟨t, ht⟩ => nomatch ht⟩
  | ok t =>
    cases h
    exact ⟨rfl, rfl, fun _ => rfl⟩

private theorem boundsOn_observed (host : Host κ σ) (grid : Grid) (entry : Entry κ)
    (s : σ × List (Call κ)) :
    ((boundsOn host.observed grid entry.constraint entry.component).run.run s).1 =
        ((boundsOn host grid entry.constraint entry.component).run.run s.1).1 ∧
      ((boundsOn host.observed grid entry.constraint entry.component).run.run s).2.2 = s.2 :=
  host.boundsOn_noting grid entry.constraint entry.component s

private theorem run_setBounds_observed (host : Host κ σ) (component : κ) (bounds : Rect)
    (w : World κ (σ × List (Call κ))) :
    (host.observed.setBounds component bounds).run.run w =
      let (result, v) := (host.setBounds component bounds).run.run ⟨w.layout, w.around.1⟩
      (result, ⟨v.layout, (v.around, w.around.2 ++ [⟨component, bounds, w.layout, v.layout⟩])⟩) :=
  rfl

/-- Finding the place of an entry and calling its component with it makes one call at most. -/
theorem placed_trail {grid : Grid} {entry : Entry κ} {w u : World κ (σ × List (Call κ))}
    {result : Except Fault Unit} (hentry : entry ∈ w.layout.entries.present)
    (hwithin : entry.constraint.within grid.counts = true)
    (h : (do
      let bounds ← Act.around (boundsOn host.observed grid entry.constraint entry.component)
      host.observed.setBounds entry.component bounds).run.run w = (result, u)) :
    ∃ calls, u.around.2 = w.around.2 ++ calls ∧
      Trail host grid w.layout [entry.handle] calls u.layout := by
  rw [run_bind, Act.run_around] at h
  obtain ⟨hbounds, hnotes⟩ := boundsOn_observed host grid entry w.around
  rcases hrun : (boundsOn host.observed grid entry.constraint entry.component).run.run w.around
    with ⟨fault | bounds, s⟩ <;> rw [hrun] at h hbounds hnotes
  · cases h
    exact ⟨[], hnotes.trans (List.append_nil _).symm, .done _ _⟩
  · -- the call is noted whether the component takes its bounds or fails
    have hplaces (after : Layout κ) :
        Call.Places host grid ⟨entry.component, bounds, w.layout, after⟩ entry :=
      ⟨hentry, rfl, hwithin, w.around.1, hbounds.symm⟩
    dsimp only at h hnotes
    rw [run_setBounds_observed] at h
    cases h
    exact ⟨_, congrArg (· ++ _) hnotes, .call (hplaces _) (.done _ [])⟩

/-- Placing the entry of a handle makes one call at most. It fails only if the entry cannot be written
as it is last known. -/
theorem placeEntry_trail {grid : Grid} {handle : Nat} {w v : World κ (σ × List (Call κ))}
    {out : Except Fault Unit} (h : (placeEntry host.observed grid handle).run.run w = (out, v)) :
    (∃ calls, v.around.2 = w.around.2 ++ calls ∧
      Trail host grid w.layout [handle] calls v.layout) ∧
    ((∀ e, w.layout.entries.get? handle = some e →
      ((v.layout.entries.lastKnown? handle).getD e).constraint.Writable) → out = .ok ()) := by
  unfold placeEntry at h
  rw [run_bind, Act.run_layout] at h
  dsimp only at h
  cases hget : w.layout.entries.get? handle with
  | none =>
    rw [hget] at h
    cases h
    exact ⟨⟨[], (List.append_nil _).symm, .done _ _⟩, fun _ => rfl⟩
  | some entry =>
    obtain rfl : entry.handle = handle := by simpa using List.find?_some hget
    rw [hget] at h
    dsimp only at h
    split at h
    · rename_i hwithin
      rw [run_bind, Act.run_outcome] at h
      dsimp only at h
      rcases hplaced : (do
        let bounds ← Act.around (boundsOn host.observed grid entry.constraint entry.component)
        host.observed.setBounds entry.component bounds).run.run w with ⟨result, u⟩
      rw [hplaced] at h
      obtain ⟨calls, hnotes, htrail⟩ :=
        placed_trail (List.mem_of_find?_eq_some hget) hwithin hplaced
      cases result with
      | ok _ =>
        cases h
        exact ⟨⟨calls, hnotes, htrail⟩, fun _ => rfl⟩
      | error fault =>
        dsimp only at h
        rw [run_bind, Act.run_layout] at h
        obtain ⟨hlayout, hkept, hout⟩ := noteText_observed h
        rw [hlayout, hkept]
        exact ⟨⟨calls, hnotes, htrail⟩, fun hwritable =>
          hout (exists_entryText (hwritable entry rfl))⟩
    · obtain ⟨hlayout, hkept, hout⟩ := noteText_observed h
      rw [hlayout, hkept]
      refine ⟨⟨[], (List.append_nil _).symm, .done _ _⟩, fun hwritable => hout ?_⟩
      have hentry := hwritable entry rfl
      rw [Entries.lastKnown?_of_get? hget] at hentry
      exact exists_entryText hentry

/-- Placing all entries leaves a trail, whether it comes to its end or not. -/
theorem forM_placeEntry_trail {grid : Grid} {handles : List Nat}
    {w v : World κ (σ × List (Call κ))} {out : Except Fault Unit}
    (h : (handles.forM (placeEntry host.observed grid)).run.run w = (out, v)) :
    ∃ calls, v.around.2 = w.around.2 ++ calls ∧ Trail host grid w.layout handles calls v.layout := by
  induction handles generalizing w with
  | nil =>
    cases h
    exact ⟨[], (List.append_nil _).symm, .done _ _⟩
  | cons handle handles ih =>
    rw [run_forM_cons] at h
    rcases hfirst : (placeEntry host.observed grid handle).run.run w with ⟨fault | _, u⟩ <;>
      rw [hfirst] at h <;> obtain ⟨⟨calls, hnotes, htrail⟩, -⟩ := placeEntry_trail hfirst
    · cases h
      have hend := htrail.append (.done v.layout handles)
      rw [List.append_nil] at hend
      exact ⟨calls, hnotes, hend⟩
    · obtain ⟨rest, hrest, htrail'⟩ := ih h
      exact ⟨calls ++ rest, by rw [hrest, hnotes, List.append_assoc], htrail.append htrail'⟩

section
variable [DecidableEq κ]

/-- Placing an entry does not fail if the call, if there is one, does nothing but edits. -/
theorem placeEntry_survives {grid : Grid} {handle : Nat} {w v : World κ (σ × List (Call κ))}
    {out : Except Fault Unit} (hfaithful : w.layout.entries.Faithful)
    (hwritable : w.layout.Writable)
    (h : (placeEntry host.observed grid handle).run.run w = (out, v))
    (hedits : ∀ call ∈ v.around.2, Edited call.before call.after) :
    out = .ok () ∧ Edited w.layout v.layout := by
  obtain ⟨⟨calls, hnotes, htrail⟩, hout⟩ := placeEntry_trail h
  have hedited := htrail.edited fun call hcall => hedits call (by simp [hnotes, hcall])
  refine ⟨hout fun e hget => ?_, hedited⟩
  obtain ⟨he, hhandle⟩ := hfaithful.get?_eq_some_iff.mp hget
  obtain rfl := Int.ofNat.inj hhandle
  cases hknown : v.layout.entries.lastKnown? e.handle with
  | none => exact hwritable e he
  | some known => exact hedited.lastKnown?_writable hfaithful hwritable he hknown

/-- Placing all entries does not fail if the calls do nothing but edits. -/
theorem forM_placeEntry_survives {grid : Grid} {handles : List Nat}
    {w v : World κ (σ × List (Call κ))} {out : Except Fault Unit}
    (hfaithful : w.layout.entries.Faithful) (hwritable : w.layout.Writable)
    (h : (handles.forM (placeEntry host.observed grid)).run.run w = (out, v))
    (hedits : ∀ call ∈ v.around.2, Edited call.before call.after) : out = .ok () := by
  induction handles generalizing w with
  | nil =>
    cases h
    rfl
  | cons handle handles ih =>
    rw [run_forM_cons] at h
    rcases hfirst : (placeEntry host.observed grid handle).run.run w with ⟨result, u⟩
    rw [hfirst] at h
    -- calls are only ever noted behind others, so what is known of all holds of the first one
    have hnotes : ∀ call ∈ u.around.2, call ∈ v.around.2 := by
      cases result with
      | error fault =>
        cases h
        exact fun _ hcall => hcall
      | ok _ =>
        obtain ⟨calls, hcalls, -⟩ := forM_placeEntry_trail h
        exact fun call hcall => hcalls ▸ List.mem_append_left calls hcall
    obtain ⟨rfl, hedited⟩ := placeEntry_survives hfaithful hwritable hfirst fun call hcall =>
      hedits call (hnotes call hcall)
    exact ih (hedited.faithful hfaithful) (hedited.writable hwritable) h

end

private theorem resolve_observed {frame : Frame} {grid : Grid} {w v : World κ σ}
    (h : (resolve host frame).run.run w = (.ok grid, v)) (calls : List (Call κ)) :
    (resolve host.observed frame).run.run ⟨w.layout, (w.around, calls)⟩ =
      (.ok grid, ⟨v.layout, (v.around, calls)⟩) := by
  have hkeeps : host.observed.Keeps (Beside (fun _ => True) (· = calls)) :=
    (Host.Keeps.always host).noting
  obtain ⟨⟨-, -, hcalls⟩, -⟩ := resolve_holds (P := fun _ => True) hkeeps
    (fun _ _ _ _ _ _ _ => trivial) (fun grid u hu => ⟨⟨trivial, trivial, hu.2.2⟩, fun _ _ => trivial⟩)
    frame ⟨w.layout, (w.around, calls)⟩ ⟨trivial, trivial, rfl⟩
  exact (host.observed_same.resolve frame).run_beside h hcalls

/-- What resolving comes to when the grid is solved, held and announced, whatever grid was held. -/
def solvedAnew (host : Host κ σ) (frame : Frame) (w : World κ σ) :
    Except Fault Grid × World κ σ :=
  match (w.layout.solve host frame).run.run w.around with
  | (.error fault, s) => (.error fault, ⟨w.layout, s⟩)
  | (.ok grid, s) =>
      let after := ((host.gridSolved grid).run.run ⟨w.layout.hold frame grid, s⟩).2
      (after.layout.heldGrid, after)

private theorem resolve_of_stale (host : Host κ σ) (frame : Frame) {w : World κ σ}
    (h : w.layout.stale = true) :
    (resolve host frame).run.run w = solvedAnew host frame w := by
  have hfresh : w.layout.isFresh frame = false := by simp [isFresh, h]
  unfold solvedAnew
  rcases hsolve : (w.layout.solve host frame).run.run w.around with ⟨fault | grid, s⟩
  · exact resolve_of_fault hfresh hsolve
  · exact resolve_of_grid hfresh hsolve rfl

section
variable [DecidableEq κ]

/-- A change that has any effect, or is made to mark the grid as out of date, leaves it so through
all further edits. -/
theorem Edited.stale_of_change {l l' last : Layout κ} (hchange : Change l l')
    (heffect : l' ≠ l ∨ l' = l.invalidate) (h : Edited l' last) : last.stale = true := by
  refine h.stale ?_
  rcases heffect with hne | rfl
  · rcases hchange.spec with heq | ⟨hstale, -⟩
    · exact absurd heq hne
    · exact hstale
  · rfl

private theorem resolve_reachable {host : Host κ σ}
    (hlistens : ∀ grid, Orderly (fun _ => True) (fun _ => True) (host.gridSolved grid))
    {w v : World κ σ} (hw : Reachable σ w.layout) {frame : Frame} {grid : Grid}
    (h : (resolve host frame).run.run w = (.ok grid, v)) :
    Reachable σ v.layout ∧ grid.Sound := by
  obtain ⟨⟨hreached, -⟩, hgrid⟩ := resolve_holds (P := Reachable σ) (.always host)
    (fun _ _ _ s hl _ hsolve => .hold hl ⟨host, s, trivial, trivial, hsolve⟩)
    (fun grid => (hlistens grid).holds fun host _ => .always host) frame w ⟨hw, trivial⟩
  rw [h] at hreached hgrid
  obtain ⟨l, hl, hheld⟩ := hgrid grid rfl
  exact ⟨hreached, hl.held_sound grid hheld⟩

/-- A pass survives what components do to the layout while they are placed. Let a layout that can be
reached be resolved, and let each call of a component, failed or not, do nothing but edit the layout
in such a way that all constraints can be written. Then the pass comes to its end. No component is
called twice, and only components are called that were there when the pass began to place them; a
call is that of an entry that has been there since then, so none of its component left meanwhile, and
its bounds are its place on the grid by the constraint it then has. That lies on the grid, and so has
a place there. After a call that changed anything or marked the grid as out of date, the grid is
out of date, and is solved anew when it is asked for next. -/
theorem arrange_survives {host : Host κ σ}
    (hlistens : ∀ grid, Orderly (fun _ => True) (fun _ => True) (host.gridSolved grid))
    {w v : World κ σ} (hw : Reachable σ w.layout) {frame : Frame} {grid : Grid}
    (hresolve : (resolve host frame).run.run w = (.ok grid, v)) (hwritable : v.layout.Writable)
    {after : World κ (σ × List (Call κ))}
    (hafter : ((arrange host.observed frame).run.run ⟨w.layout, (w.around, [])⟩).2 = after)
    (hedits : ∀ call ∈ after.around.2, Edited call.before call.after) :
    (arrange host frame).run.run w = (.ok (), ⟨after.layout, after.around.1⟩) ∧
    Edited v.layout after.layout ∧
    (after.around.2.map Call.component).Nodup ∧
    (after.around.2.map Call.component).Sublist (v.layout.entries.present.map Entry.component) ∧
    (∀ call ∈ after.around.2, Edited v.layout call.before ∧ ∃ entry, call.Places host grid entry ∧
      entry.handle ∈ v.layout.entries.handles ∧
      ∀ gone ∈ call.before.entries.departed, gone.component = call.component →
        gone ∈ v.layout.entries.departed) ∧
    (∀ constraint : Constraint, constraint.within grid.counts = true → ∀ size, ∃ rect,
      constraint.place grid size = .ok rect) ∧
    (∀ call ∈ after.around.2, ∀ l l', Edited call.before l → Change l l' →
      l' ≠ l ∨ l' = l.invalidate → Edited l' call.after → after.layout.stale = true) ∧
    (after.layout.stale = true → ∀ {τ : Type} (other : Host κ τ) frame t,
      (resolve other frame).run.run ⟨after.layout, t⟩ =
        solvedAnew other frame ⟨after.layout, t⟩) := by
  obtain ⟨hreached, hsound⟩ := resolve_reachable hlistens hw hresolve
  have hfaithful := hreached.faithful
  rcases hrun : (arrange host.observed frame).run.run ⟨w.layout, (w.around, [])⟩ with ⟨out, u⟩
  obtain rfl : u = after := by rw [← hafter, hrun]
  obtain ⟨hout, hlayout, haround⟩ := host.observed_same.arrange frame ⟨w.layout, (w.around, [])⟩ w
    ⟨rfl, rfl⟩
  have hloop := arrange_of_grid (resolve_observed hresolve [])
  rw [hrun] at hout hlayout haround hloop
  obtain rfl := forM_placeEntry_survives hfaithful hwritable hloop.symm hedits
  obtain ⟨calls, hcalls, htrail⟩ := forM_placeEntry_trail hloop.symm
  obtain rfl : u.around.2 = calls := hcalls
  have hcomponents := htrail.components_sublist hfaithful (fun _ he => he) .refl hedits
  refine ⟨Prod.ext hout.symm ?_, htrail.edited hedits, hfaithful.distinct.sublist hcomponents,
    hcomponents, fun call hcall => ?_, fun constraint hwithin size =>
    Constraint.exists_place hsound hwithin size, fun call hcall l l' _ hchange heffect hlater => ?_,
    fun hstale _ other frame t => resolve_of_stale other frame hstale⟩
  · rw [hlayout, haround]
  · obtain ⟨hbefore, -⟩ := htrail.call_between hedits hcall
    obtain ⟨entry, hhandle, hplaces⟩ := htrail.exists_places hcall
    obtain ⟨e, he, heq⟩ := List.mem_map.mp hhandle
    refine ⟨hbefore, entry, hplaces, hhandle, fun gone hgone hcomponent => ?_⟩
    exact hbefore.unbroken hfaithful hplaces.present (heq ▸ hfaithful.handle_lt he) hgone
      (hcomponent.trans hplaces.component.symm)
  · obtain ⟨-, hend⟩ := htrail.call_between hedits hcall
    exact (hlater.trans hend).stale_of_change hchange heffect

end

private def busyTracks : Specification :=
  ⟨[.number (.int 10), .number (.int 20), .number (.int 30)], [.fill]⟩

private def busyLayout : Layout Nat :=
  (ofTracks busyTracks).putEntries
    ((((Entries.empty.append 0 (.single ⟨0, 0⟩ Constraint.fullAlign)).append 1
      (.single ⟨1, 0⟩ Constraint.fullAlign)).append 2 (.single ⟨1, 0⟩ Constraint.fullAlign)).append
      3 (.single ⟨2, 0⟩ Constraint.fullAlign))

private def busyEdits : Nat → List (Edit Nat)
  | 0 => [.removeComponent 1, .add 1 (.constraint (.single ⟨0, 0⟩ Constraint.fullAlign)),
      .add 4 (.constraint (.single ⟨0, 0⟩ Constraint.fullAlign)), .deleteTrack .columns 9,
      .insertTrack .columns 1 (.sizing .fill)]
  | _ => [.invalidate, .removeEntry 0]

/-- The first component takes another one out and puts it back, adds a third, inserts a column and
then refuses its bounds. -/
private def busyHost : Host Nat Unit where
  preferredSize _ := pure (some ⟨4, 3⟩)
  minimumSize _ := pure none
  setBounds component _ := do
    (busyEdits component).forM fun edit => do
      let _ ← Act.outcome edit.carryOut
    if component = 0 then throw .noSize
  gridSolved _ := pure ()
  report _ := pure ()

private def busyFrame : Frame := ⟨⟨60, 10⟩, .zero⟩

private theorem busyLayout_reachable : Reachable Unit busyLayout := by
  have hmade : ofGiven (κ := Nat)
      (some [.number (.int 10), .number (.int 20), .number (.int 30)]) (some [.sizing .fill]) =
      .ok (ofTracks busyTracks) := by decide +kernel
  exact ((((Reached.made hmade).append 0 (.single ⟨0, 0⟩ Constraint.fullAlign) rfl
    (by decide)).append 1 (.single ⟨1, 0⟩ Constraint.fullAlign) rfl (by decide)).append 2
    (.single ⟨1, 0⟩ Constraint.fullAlign) rfl (by decide)).append 3
    (.single ⟨2, 0⟩ Constraint.fullAlign) rfl (by decide)

/-- The pass goes on after the first component, which is noted as called, and calls the third one in
the column it was moved to. The second and the new one are not called, and the last one lies outside of
the grid by now. -/
theorem busyLayout_survives : ∃ after : World Nat (Unit × List (Call Nat)),
    ((arrange busyHost.observed busyFrame).run.run ⟨busyLayout, ((), [])⟩).2 = after ∧
    (arrange busyHost busyFrame).run.run ⟨busyLayout, ()⟩ = (.ok (), ⟨after.layout, ()⟩) ∧
    after.around.2.map (fun call => (call.component, call.bounds)) =
      [(0, ⟨0, 0, 10, 10⟩), (2, ⟨30, 0, 30, 10⟩)] ∧
    (after.around.2.map Call.component).Nodup ∧ after.layout.stale = true := by
  have hlistens (grid : Grid) :
      Orderly (fun _ => True) (fun _ => True) (busyHost.gridSolved grid) :=
    .step fun w _ => ⟨trivial, .inl rfl⟩
  have hgrid : ((resolve busyHost busyFrame).run.run ⟨busyLayout, ()⟩).1 =
      .ok ⟨⟨[10, 20, 30], [0, 10, 30, 60]⟩, ⟨[10], [0, 10]⟩⟩ := by decide +kernel
  have hwritable : ((resolve busyHost busyFrame).run.run ⟨busyLayout, ()⟩).2.layout.Writable := by
    decide +kernel
  have hedits : ∀ call ∈ ((arrange busyHost.observed busyFrame).run.run
      ⟨busyLayout, ((), [])⟩).2.around.2,
      call.after = (busyEdits call.component).foldl (fun l edit => edit.leaves l) call.before ∧
        ∀ m ∈ (busyEdits call.component).scanl (fun l edit => edit.leaves l) call.before,
          m.Writable := by decide +kernel
  have hsurvives := arrange_survives (w := ⟨busyLayout, ()⟩) hlistens busyLayout_reachable
    (Prod.ext hgrid rfl) hwritable rfl fun call hcall => by
      obtain ⟨hafter, hwritable⟩ := hedits call hcall
      exact hafter ▸ edited_foldl _ _ hwritable
  exact ⟨_, rfl, hsurvives.1, by decide +kernel, hsurvives.2.2.1, by decide +kernel⟩

end Layout

end TrackGrid
