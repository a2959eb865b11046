import TrackGrid.Proofs.Layout.Coherence
import TrackGrid.Proofs.Layout.Separation
import TrackGrid.Proofs.Layout.Table
import TrackGrid.Proofs.Layout.Totality

/-! A pass comes to its end whichever components fail, and a component that cannot be placed costs
no other one its bounds. -/

namespace TrackGrid

variable {κ σ ρ : Type}

namespace Answers

variable (answers : Answers κ)

/-- The answers with the size zero in place of each failure and of each missing size. -/
def mended : Answers κ := fun component kind =>
  match answers component kind with
  | .ok (some size) => .ok (some size)
  | _ => .ok (some Size.zero)

/-- The size that an entry is placed by, if its query gives one where one is asked. -/
def placing (entry : Entry κ) : Option Size :=
  if entry.constraint.needsPreferred then
    match answers entry.component .preferred with
    | .ok size => size
    | .error _ => none
  else some Size.zero

private theorem placing_mended {entry : Entry κ} {size : Size}
    (h : answers.placing entry = some size) :
    answers.mended.placing entry = some size := by
  unfold placing at h ⊢
  split at h
  · rename_i hneeds
    rw [if_pos hneeds, mended]
    rcases hanswer : answers entry.component .preferred with _ | _ | size' <;> rw [hanswer] at h
    · cases h
    · cases h
    · exact h
  · rename_i hneeds
    rw [if_neg hneeds]
    exact h

private def asked : Sizing → SizeKind
  | .minimum => .minimum
  | _ => .preferred

theorem run_extent (axis : Axis) (component : κ) (kind : Sizing) :
    ((answers.host.extent axis component kind).run.run ()).1 =
      match answers component (asked kind) with
      | .ok (some size) => .ok (size.along axis)
      | _ => .ok 0 := by
  have hsize : answers.host.sizeOf component kind = calculate (answers component (asked kind)) := by
    cases kind <;> rfl
  unfold Host.extent
  rw [hsize, run_tryCatch, run_bind]
  rcases h : answers component (asked kind) with _ | _ | size <;> rfl

/-- A query without a size has no extent, as one that gives size zero has none. -/
theorem extent_mended (axis : Axis) (component : κ) (kind : Sizing) :
    Agree (fun _ _ : Unit => True) (answers.host.extent axis component kind)
      (answers.mended.host.extent axis component kind) := by
  intro s t _
  refine ⟨?_, trivial⟩
  rw [run_extent, run_extent, mended]
  rcases answers component (asked kind) with _ | _ | size
  · cases axis <;> rfl
  · cases axis <;> rfl
  · rfl

end Answers

namespace Layout

variable {answers : Answers κ} {l : Layout κ}

private theorem rebuilt_mended (answers : Answers κ) (l : Layout κ) (frame : Frame) :
    l.rebuilt answers.mended frame = l.rebuilt answers frame :=
  ((agree_solve answers.extent_mended rfl rfl frame) () () trivial).1.symm

private theorem resolved_mended (answers : Answers κ) (l : Layout κ) (frame : Frame) :
    l.resolved answers.mended frame = l.resolved answers frame := by
  rw [resolved, resolved, rebuilt_mended]

/-- A grid is found for every layout that is reached, and it is sound. -/
theorem exists_resolved [DecidableEq κ] (hl : Reachable ρ l) (answers : Answers κ) {frame : Frame}
    (hframe : frame.Moderate) : ∃ grid, l.resolved answers frame = .ok grid ∧ grid.Sound := by
  have hkeeps : answers.host.Keeps fun _ => True := .always _
  unfold resolved
  cases hfresh : l.isFresh frame with
  | true =>
    simp only [isFresh, Bool.and_eq_true] at hfresh
    obtain ⟨solved, hheld⟩ := Option.isSome_iff_exists.mp (Option.isSome_of_any hfresh.2)
    have hgrid : l.grid? = some solved.grid := by rw [grid?, hheld, Option.map_some]
    refine ⟨solved.grid, ?_, hl.held_sound _ hgrid⟩
    rw [if_pos rfl, heldGrid, hgrid]
  | false =>
    obtain ⟨grid, hgrid⟩ := hkeeps.solve_finishes hl.clean hframe () trivial
    exact ⟨grid, hgrid, (hkeeps.solve l frame () trivial).2 grid hgrid⟩

/-- The bounds that an entry is called with: none outside of the grid. -/
def call? (answers : Answers κ) (grid : Grid) (entry : Entry κ) : Option (κ × Rect) :=
  if entry.constraint.within grid.counts then given? answers grid entry else none

private theorem given?_eq (answers : Answers κ) (grid : Grid) (entry : Entry κ) :
    given? answers grid entry = (answers.placing entry).bind fun size =>
      match entry.constraint.place grid size with
      | .ok bounds => some (entry.component, bounds)
      | .error _ => none := by
  cases hneeds : entry.constraint.needsPreferred with
  | false =>
    simp only [given?, boundsOn, Answers.placing, hneeds]
    rfl
  | true =>
    simp only [given?, boundsOn, Answers.placing, hneeds, if_true]
    rw [run_bind]
    rcases hanswer : answers entry.component .preferred with fault | _ | size <;>
      simp only [Answers.host, hanswer] <;> rfl

/-- An entry is called if it lies on the grid and its query gives a size. -/
theorem isSome_call? {grid : Grid} (hgrid : grid.Sound) (answers : Answers κ) (entry : Entry κ) :
    (call? answers grid entry).isSome = true ↔
      entry.constraint.within grid.counts = true ∧ (answers.placing entry).isSome = true := by
  unfold call?
  cases hwithin : entry.constraint.within grid.counts with
  | false => simp
  | true =>
    rw [if_pos rfl, given?_eq]
    cases answers.placing entry with
    | none => simp
    | some size =>
      obtain ⟨bounds, hbounds⟩ := Constraint.exists_place hgrid hwithin size
      simp [hbounds]

private theorem call?_component {grid : Grid} {entry : Entry κ} {call : κ × Rect}
    (h : call? answers grid entry = some call) : call.1 = entry.component := by
  unfold call? at h
  split at h
  · unfold given? at h
    split at h
    · rw [← Option.some.inj h]
    · cases h
  · cases h

/-- Mending the answers changes no call. -/
theorem call?_mended {grid : Grid} {entry : Entry κ} {call : κ × Rect}
    (h : call? answers grid entry = some call) : call? answers.mended grid entry = some call := by
  unfold call? at h ⊢
  split at h
  · rename_i hwithin
    rw [if_pos hwithin, given?_eq]
    rw [given?_eq] at h
    obtain ⟨size, hsize, h⟩ := Option.bind_eq_some_iff.mp h
    rw [answers.placing_mended hsize]
    exact h
  · cases h

theorem nodup_calls {entries : Entries κ} (h : entries.Faithful) (answers : Answers κ)
    (grid : Grid) : ((entries.present.filterMap (call? answers grid)).map Prod.fst).Nodup := by
  refine List.Pairwise.map _ (fun _ _ hne => hne) (List.Pairwise.filterMap _ ?_
    (List.pairwise_map.mp h.distinct))
  intro a b hne call hcall other hother
  rwa [call?_component hcall, call?_component hother]

/-- The calls by the handles of a faithful table are those of its entries. -/
theorem filterMap_bounds? [DecidableEq κ] (hl : l.entries.Faithful) (answers : Answers κ)
    (frame : Frame) (grid : Grid) :
    l.entries.handles.filterMap (bounds? answers (l.settled answers frame) grid) =
      l.entries.present.filterMap (call? answers grid) := by
  rw [Entries.handles, List.filterMap_map]
  refine List.filterMap_congr fun e he => ?_
  rw [Function.comp_apply, bounds?, entries_settled, hl.get?_handle he]
  rfl

/-- A pass over constraints that can be written comes to its end if a grid is found. -/
theorem arrange_finishes {kept : σ → Prop} {host : Host κ σ}
    (hanswers : host.Answering answers kept)
    (hsilent : ∀ component rect, (host.setBounds component rect).Silent kept)
    (hwritable : ∀ e ∈ l.entries.present, e.constraint.Writable) {frame : Frame} {grid : Grid}
    {s t : σ} (ht : kept t)
    (hresolve : (resolve host frame).run.run ⟨l, s⟩ = (.ok grid, ⟨l.settled answers frame, t⟩)) :
    ((arrange host frame).run.run ⟨l, s⟩).1 = .ok () := by
  have hbounds (component : κ) (rect : Rect) :
      Holds (World.Has (· = l.settled answers frame) kept) (host.setBounds component rect)
        fun _ => True := by
    intro w hw
    obtain ⟨hlayout, hkept⟩ := hsilent component rect w hw.2
    exact ⟨⟨hlayout.trans hw.1, hkept⟩, fun _ _ => trivial⟩
  have hwritable' : ∀ e ∈ (l.settled answers frame).entries.present, e.constraint.Writable := by
    rw [entries_settled]
    exact hwritable
  obtain ⟨_, hend⟩ := forM_placeEntry_finishes hanswers.keeps hwritable' hbounds grid
    (l.settled answers frame).entries.handles ⟨l.settled answers frame, t⟩ ⟨rfl, ht⟩
  rw [arrange_of_grid hresolve]
  exact hend

section Taken
variable [DecidableEq κ] {refuses : κ → Bool} {calls : List (κ × Rect)}

def taken (refuses : κ → Bool) (before : κ → Option Rect) (calls : List (κ × Rect)) :
    κ → Option Rect :=
  calls.foldl (fun bounds call =>
    if refuses call.1 then bounds else Function.update bounds call.1 (some call.2)) before

private theorem taken_concat (before : κ → Option Rect) (calls : List (κ × Rect))
    (call : κ × Rect) :
    taken refuses before (calls ++ [call]) =
      if refuses call.1 then taken refuses before calls
      else Function.update (taken refuses before calls) call.1 (some call.2) :=
  List.foldl_concat _ _ _ _

private theorem taken_of_untouched (before : κ → Option Rect) {component : κ}
    (h : ∀ call ∈ calls, call.1 = component → refuses component = true) :
    taken refuses before calls component = before component := by
  induction calls generalizing before with
  | nil => rfl
  | cons call calls ih =>
    obtain ⟨hcall, hcalls⟩ := List.forall_mem_cons.mp h
    rw [taken, List.foldl_cons]
    refine (ih _ hcalls).trans ?_
    by_cases heq : call.1 = component
    · rw [heq, if_pos (hcall heq)]
    · split
      · rfl
      · exact Function.update_of_ne (Ne.symm heq) _ _

private theorem taken_of_mem (before : κ → Option Rect) (hdistinct : (calls.map Prod.fst).Nodup)
    {call : κ × Rect} (hcall : call ∈ calls) (htakes : refuses call.1 = false) :
    taken refuses before calls call.1 = some call.2 := by
  induction calls generalizing before with
  | nil => cases hcall
  | cons first calls ih =>
    obtain ⟨hnew, hdistinct⟩ := List.nodup_cons.mp hdistinct
    rw [taken, List.foldl_cons]
    rcases List.mem_cons.mp hcall with rfl | hcall
    · refine (taken_of_untouched _ fun other hother heq => ?_).trans ?_
      · exact absurd (heq ▸ List.mem_map_of_mem hother) hnew
      · rw [htakes, if_neg Bool.false_ne_true, Function.update_self]
    · exact ih _ hdistinct hcall

/-- The bounds that an entry has after the calls for a faithful table. -/
theorem taken_calls {entries : Entries κ} (h : entries.Faithful) (answers : Answers κ) (grid : Grid)
    (before : κ → Option Rect) {e : Entry κ} (he : e ∈ entries.present) :
    taken refuses before (entries.present.filterMap (call? answers grid)) e.component =
      match call? answers grid e with
      | some call => if refuses e.component then before e.component else some call.2
      | none => before e.component := by
  have hdistinct := nodup_calls h answers grid
  cases hcall : call? answers grid e with
  | none =>
    refine taken_of_untouched before fun call hmem heq => ?_
    obtain ⟨e', he', hcall'⟩ := List.mem_filterMap.mp hmem
    rw [call?_component hcall'] at heq
    rw [h.eq_of_component he' he heq, hcall] at hcall'
    cases hcall'
  | some call =>
    rw [← call?_component hcall]
    dsimp only
    cases hrefuses : refuses call.1 with
    | true => exact taken_of_untouched before fun _ _ _ => hrefuses
    | false =>
      exact taken_of_mem before hdistinct (List.mem_filterMap.mpr ⟨e, he, hcall⟩) hrefuses

end Taken

end Layout

/-- A host whose components give the answers throughout, refuse bounds by failing or take them, and
change nothing else, and whose listener, failing or not, changes neither the layout nor any bounds.
What bounds the components have is told by `bounds`. -/
structure Host.Steady [DecidableEq κ] (answers : Answers κ) (refuses : κ → Bool)
    (bounds : σ → κ → Option Rect) (host : Host κ σ) : Prop where
  preferred : ∀ component s,
    ((host.preferredSize component).run.run s).1 = answers component .preferred ∧
      bounds ((host.preferredSize component).run.run s).2 = bounds s
  minimum : ∀ component s,
    ((host.minimumSize component).run.run s).1 = answers component .minimum ∧
      bounds ((host.minimumSize component).run.run s).2 = bounds s
  report : ∀ notice s, bounds ((host.report notice).run s).2 = bounds s
  gridSolved : ∀ grid w, ((host.gridSolved grid).run.run w).2.layout = w.layout ∧
    bounds ((host.gridSolved grid).run.run w).2.around = bounds w.around
  refused : ∀ component rect w, refuses component = true →
    (∃ fault, ((host.setBounds component rect).run.run w).1 = .error fault) ∧
      ((host.setBounds component rect).run.run w).2.layout = w.layout ∧
      bounds ((host.setBounds component rect).run.run w).2.around = bounds w.around
  taken : ∀ component rect w, refuses component = false →
    ((host.setBounds component rect).run.run w).1 = .ok () ∧
      ((host.setBounds component rect).run.run w).2.layout = w.layout ∧
      bounds ((host.setBounds component rect).run.run w).2.around =
        Function.update (bounds w.around) component (some rect)

def Answers.keeping [DecidableEq κ] (answers : Answers κ) (refuses : κ → Bool) :
    Host κ (κ → Option Rect) where
  preferredSize component := calculate (answers component .preferred)
  minimumSize component := calculate (answers component .minimum)
  setBounds component rect :=
    if refuses component then throw (.component "set_bounds")
    else Act.around (modify fun bounds => Function.update bounds component (some rect))
  gridSolved _ := pure ()
  report _ := pure ()

private theorem Answers.keeping_steady [DecidableEq κ] (answers : Answers κ) (refuses : κ → Bool) :
    (answers.keeping refuses).Steady answers refuses id where
  preferred _ _ := ⟨rfl, rfl⟩
  minimum _ _ := ⟨rfl, rfl⟩
  report _ _ := rfl
  gridSolved _ _ := ⟨rfl, rfl⟩
  refused component rect w hrefuses := by
    simp only [Answers.keeping, hrefuses]
    exact ⟨⟨_, rfl⟩, rfl, rfl⟩
  taken component rect w htakes := by
    simp only [Answers.keeping, htakes]
    exact ⟨rfl, rfl, rfl⟩

namespace Host.Steady

variable [DecidableEq κ] {answers : Answers κ} {refuses : κ → Bool} {bounds : σ → κ → Option Rect}
  {host : Host κ σ} (h : host.Steady answers refuses bounds)
include h

theorem answering : host.Answering answers fun _ => True where
  preferred component s _ _ := ⟨(h.preferred component s).1, trivial⟩
  minimum component s _ _ := ⟨(h.minimum component s).1, trivial⟩
  report _ _ _ _ := trivial

theorem gridSolved_silent (grid : Grid) : (host.gridSolved grid).Silent fun _ => True :=
  fun w _ => ⟨(h.gridSolved grid w).1, trivial⟩

theorem setBounds_silent (component : κ) (rect : Rect) :
    (host.setBounds component rect).Silent fun _ => True := by
  intro w _
  cases hrefuses : refuses component with
  | true => exact ⟨(h.refused component rect w hrefuses).2.1, trivial⟩
  | false => exact ⟨(h.taken component rect w hrefuses).2.1, trivial⟩

/-- All along a pass the components have the bounds that the calls so far have left. -/
theorem arrange_taken (before : κ → Option Rect) (frame : Frame) :
    Holds (World.Has (fun _ => True) fun s : σ × List (κ × Rect) =>
        bounds s.1 = Layout.taken refuses before s.2)
      (Layout.arrange host.recorded frame) fun _ => True := by
  refine Layout.arrange_holds ⟨fun component s hs => ?_, fun component s hs => ?_,
    fun notice s hs => (h.report notice s.1).trans hs⟩ (fun _ _ _ _ _ _ _ => trivial)
    (fun grid w hw => ?_) (fun component rect w hw => ?_) frame
  · exact ⟨(h.preferred component s.1).2.trans hs, fun _ _ => trivial⟩
  · exact ⟨(h.minimum component s.1).2.trans hs, fun _ _ => trivial⟩
  · exact ⟨⟨trivial, (h.gridSolved grid ⟨w.layout, w.around.1⟩).2.trans hw.2⟩,
      fun _ _ => trivial⟩
  · refine ⟨⟨trivial, ?_⟩, fun _ _ => trivial⟩
    rw [Host.run_setBounds_recorded]
    dsimp only
    rw [Layout.taken_concat]
    cases hrefuses : refuses component with
    | true => exact (h.refused component rect ⟨w.layout, w.around.1⟩ hrefuses).2.2.trans hw.2
    | false =>
      rw [(h.taken component rect ⟨w.layout, w.around.1⟩ hrefuses).2.2, hw.2]
      rfl

/-- A pass comes to its end. Its calls are those of the entries that lie on the grid and give a
size, and they leave the bounds. -/
theorem arrange_calls {l : Layout κ} (hl : Layout.Reachable ρ l)
    (hwritable : ∀ e ∈ l.entries.present, e.constraint.Writable) {frame : Frame}
    (hframe : frame.Moderate) (s : σ) :
    ∃ grid : Grid, grid.Sound ∧ l.resolved answers frame = .ok grid ∧
      ((Layout.resolve host frame).run.run ⟨l, s⟩).1 = .ok grid ∧
      ((Layout.arrange host frame).run.run ⟨l, s⟩).1 = .ok () ∧
      ((Layout.arrange host.recorded frame).run.run ⟨l, (s, [])⟩).2.around.2 =
        l.entries.present.filterMap (Layout.call? answers grid) ∧
      bounds ((Layout.arrange host frame).run.run ⟨l, s⟩).2.around =
        Layout.taken refuses (bounds s) (l.entries.present.filterMap (Layout.call? answers grid)) := by
  obtain ⟨grid, hgrid, hsound⟩ := Layout.exists_resolved hl answers hframe
  obtain ⟨t, -, hresolve⟩ := Layout.resolve_resolved (w := ⟨l, s⟩) h.answering h.gridSolved_silent
    trivial frame
  dsimp only at hresolve
  rw [hgrid] at hresolve
  have hok := Layout.arrange_finishes h.answering h.setBounds_silent hwritable trivial hresolve
  obtain ⟨hsame, -, haround⟩ := host.recorded_same.arrange frame ⟨l, (s, [])⟩ ⟨l, s⟩ ⟨rfl, rfl⟩
  obtain ⟨-, -, hnotes⟩ := Layout.arrange_notes h.answering h.setBounds_silent h.gridSolved_silent
    trivial (Eq.refl ((Layout.arrange host.recorded frame).run.run ⟨l, (s, [])⟩))
  obtain ⟨grid', hgrid', hcalls⟩ := hnotes (hsame.trans hok)
  obtain rfl : grid = grid' := Except.ok.inj (hgrid.symm.trans hgrid')
  rw [Layout.filterMap_bounds? hl.faithful] at hcalls
  obtain ⟨⟨-, htaken⟩, -⟩ := h.arrange_taken (bounds s) frame ⟨l, (s, [])⟩ ⟨trivial, rfl⟩
  rw [hcalls, haround] at htaken
  exact ⟨grid, hsound, hgrid, by rw [hresolve], hok, hcalls, htaken⟩

end Host.Steady

namespace Layout

variable [DecidableEq κ]

/-- Failures in a pass are isolated. Let a layout that can be reached be laid out in a moderate frame
by components of which some fail, each in its own way but always the same. The pass comes to its
end. The grid is the one of components that give size zero wherever these give none; the components
called are those that lie on the grid and give the size they are placed by, each once and in the
order of the entries; those that are not called or refuse keep their bounds, and all others get the
bounds that they would get if no component failed. -/
theorem arrange_isolated {answers : Answers κ} {refuses : κ → Bool} {bounds : σ → κ → Option Rect}
    {host : Host κ σ} (hhost : host.Steady answers refuses bounds) {w after : World κ σ}
    (hw : Reachable ρ w.layout) (hwritable : ∀ e ∈ w.layout.entries.present, e.constraint.Writable)
    {frame : Frame} (hframe : frame.Moderate) {outcome : Except Fault Unit}
    (hafter : (arrange host frame).run.run w = (outcome, after)) :
    outcome = .ok () ∧ ∃ grid,
      ((resolve host frame).run.run w).1 = .ok grid ∧
      ((arrange host.recorded frame).run.run ⟨w.layout, (w.around, [])⟩).2.around.2 =
        w.layout.entries.present.filterMap (call? answers grid) ∧
      (∀ e ∈ w.layout.entries.present, (call? answers grid e).isSome = true ↔
        e.constraint.within grid.counts = true ∧ (answers.placing e).isSome = true) ∧
      (∀ e ∈ w.layout.entries.present, bounds after.around e.component =
        match call? answers grid e with
        | some call => if refuses e.component then bounds w.around e.component else some call.2
        | none => bounds w.around e.component) ∧
      ∀ {τ : Type} (other : Host κ τ) (others : τ → κ → Option Rect),
        other.Steady answers.mended (fun _ => false) others → ∀ t,
          ((resolve other frame).run.run ⟨w.layout, t⟩).1 = .ok grid ∧
          ∀ e ∈ w.layout.entries.present, (call? answers grid e).isSome = true →
            refuses e.component = false →
            others ((arrange other frame).run.run ⟨w.layout, t⟩).2.around e.component =
              bounds after.around e.component := by
  obtain ⟨l, s⟩ := w
  obtain ⟨grid, hsound, hresolved, hresolve, hok, hcalls, htaken⟩ :=
    hhost.arrange_calls hw hwritable hframe s
  rw [hafter] at hok htaken
  have hbounds (e : Entry κ) (he : e ∈ l.entries.present) :=
    (congrFun htaken e.component).trans (taken_calls hw.faithful answers grid (bounds s) he)
  refine ⟨hok, grid, hresolve, hcalls, fun e _ => isSome_call? hsound answers e, hbounds, ?_⟩
  intro τ other others hother t
  obtain ⟨grid', -, hresolved', hresolve', -, -, htaken'⟩ :=
    hother.arrange_calls hw hwritable hframe t
  rw [resolved_mended, hresolved] at hresolved'
  obtain rfl := Except.ok.inj hresolved'
  refine ⟨hresolve', fun e he hcalled htakes => ?_⟩
  obtain ⟨call, hcall⟩ := Option.isSome_iff_exists.mp hcalled
  rw [hbounds e he, htaken', taken_calls hw.faithful answers.mended grid (others t) he, hcall,
    call?_mended hcall, htakes]
  rfl

private def crowdAnswers : Answers Nat := fun component _ =>
  match component with
  | 1 => .error (.component "no size")
  | 2 => .ok none
  | 5 => .ok (some ⟨6, 2⟩)
  | _ => .ok (some ⟨4, 3⟩)

private def crowdRefuses (component : Nat) : Bool := component == 3

private def crowdTracks : Specification := ⟨[.fill, .sizing .preferred], [.fill]⟩

private def crowdEntries : Entries Nat :=
  (((((Entries.empty.append 0 (.single ⟨0, 0⟩ ⟨.leading, .leading⟩)).append 1
    (.single ⟨1, 0⟩ Constraint.fullAlign)).append 2 (.single ⟨0, 0⟩ ⟨.center, .full⟩)).append 3
    (.single ⟨0, 0⟩ Constraint.fullAlign)).append 4 (.single ⟨2, 0⟩ Constraint.fullAlign)).append 5
    (.single ⟨1, 0⟩ ⟨.full, .center⟩)

private def crowdLayout : Layout Nat := (ofTracks crowdTracks).putEntries crowdEntries

private theorem crowdLayout_reachable : Reachable Unit crowdLayout := by
  have hmade : ofGiven (κ := Nat) (some [.sizing .fill, .sizing .preferred])
      (some [.sizing .fill]) = .ok (ofTracks crowdTracks) := rfl
  exact ((((((Reached.made hmade).append 0 (.single ⟨0, 0⟩ ⟨.leading, .leading⟩) rfl
    (by decide)).append 1 (.single ⟨1, 0⟩ Constraint.fullAlign) rfl (by decide)).append 2
    (.single ⟨0, 0⟩ ⟨.center, .full⟩) rfl (by decide)).append 3
    (.single ⟨0, 0⟩ Constraint.fullAlign) rfl (by decide)).append 4
    (.single ⟨2, 0⟩ Constraint.fullAlign) rfl (by decide)).append 5
    (.single ⟨1, 0⟩ ⟨.full, .center⟩) rfl (by decide)

private def crowdFrame : Frame := ⟨⟨21, 10⟩, .zero⟩

private theorem crowdFrame_moderate : crowdFrame.Moderate :=
  ⟨by decide, by decide, by decide, by decide, by decide, by decide⟩

private theorem crowd_resolve :
    ((resolve (crowdAnswers.keeping crowdRefuses) crowdFrame).run.run
      ⟨crowdLayout, fun _ => some ⟨1, 2, 3, 4⟩⟩).1 =
        .ok ⟨⟨[15, 6], [0, 15, 21]⟩, ⟨[10], [0, 10]⟩⟩ := by
  decide +kernel

private theorem crowd_around :
    [0, 1, 2, 3, 4, 5].map ((arrange (crowdAnswers.keeping crowdRefuses) crowdFrame).run.run
      ⟨crowdLayout, fun _ => some ⟨1, 2, 3, 4⟩⟩).2.around =
        [some ⟨0, 0, 4, 3⟩, some ⟨15, 0, 6, 10⟩, some ⟨1, 2, 3, 4⟩, some ⟨1, 2, 3, 4⟩,
          some ⟨1, 2, 3, 4⟩, some ⟨15, 4, 6, 2⟩] := by
  decide +kernel

/-- One component gives no size where one is needed, one refuses its bounds and one lies outside. The
last one gets its bounds as if nothing had failed. -/
theorem crowdLayout_isolated :
    ∃ after after' : World Nat (Nat → Option Rect),
      (arrange (crowdAnswers.keeping crowdRefuses) crowdFrame).run.run
        ⟨crowdLayout, fun _ => some ⟨1, 2, 3, 4⟩⟩ = (.ok (), after) ∧
      ((arrange (crowdAnswers.mended.keeping fun _ => false) crowdFrame).run.run
        ⟨crowdLayout, fun _ => none⟩).2 = after' ∧
      [0, 1, 2, 3, 4, 5].map after.around =
        [some ⟨0, 0, 4, 3⟩, some ⟨15, 0, 6, 10⟩, some ⟨1, 2, 3, 4⟩, some ⟨1, 2, 3, 4⟩,
          some ⟨1, 2, 3, 4⟩, some ⟨15, 4, 6, 2⟩] ∧
      after'.around 5 = after.around 5 := by
  rcases hpass : (arrange (crowdAnswers.keeping crowdRefuses) crowdFrame).run.run
    ⟨crowdLayout, fun _ => some ⟨1, 2, 3, 4⟩⟩ with ⟨outcome, after⟩
  obtain ⟨hok, grid, hgrid, -, -, -, hothers⟩ := arrange_isolated
    (w := ⟨crowdLayout, fun _ => some ⟨1, 2, 3, 4⟩⟩) (crowdAnswers.keeping_steady crowdRefuses)
    crowdLayout_reachable (by decide) crowdFrame_moderate hpass
  rw [crowd_resolve] at hgrid
  obtain rfl := Except.ok.inj hgrid
  obtain ⟨-, hsame⟩ := hothers _ id (crowdAnswers.mended.keeping_steady fun _ => false)
    fun _ => none
  refine ⟨after, _, by rw [hok], rfl, ?_, ?_⟩
  · have hlist := crowd_around
    rwa [hpass] at hlist
  · simpa only [id] using
      hsame ⟨5, 5, .single ⟨1, 0⟩ ⟨.full, .center⟩⟩ (by decide) (by decide) rfl

end Layout

end TrackGrid
