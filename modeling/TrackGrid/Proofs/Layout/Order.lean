import TrackGrid.Proofs.Layout.Rebuilding

/-! Nothing but the order of the calls tells in which order components were added. -/

namespace TrackGrid

variable {κ σ : Type}

def Entry.placed (e : Entry κ) : κ × Constraint := (e.component, e.constraint)

namespace Layout

private theorem anyMeet_perm {cs ds : List Constraint} (h : cs.Perm ds) :
    anyMeet cs = anyMeet ds := by
  refine Bool.eq_iff_iff.mpr (not_iff_not.mp ?_)
  rw [Bool.not_eq_true, Bool.not_eq_true, anyMeet_eq_false_iff, anyMeet_eq_false_iff]
  refine h.pairwise_iff fun {c d} hmeets => ?_
  rwa [meets_comm]

/-- Handles do not show in the items of entries. -/
theorem items_perm {entries others : List (Entry κ)} (host : Host κ σ) (axis : Axis)
    (h : (entries.map Entry.placed).Perm (others.map Entry.placed)) :
    (entries.map (host.item axis)).Perm (others.map (host.item axis)) := by
  have hitems := h.map fun p => (⟨p.2.cells.along axis, p.2.isSingle, host.extent axis p.1⟩ :
    Item (StateM σ))
  rwa [List.map_map, List.map_map] at hitems

/-- Calls of distinct components leave the same bounds in any order. -/
theorem taken_perm [DecidableEq κ] {refuses : κ → Bool} {calls others : List (κ × Rect)}
    (h : calls.Perm others) (hdistinct : (calls.map Prod.fst).Nodup) (before : κ → Option Rect) :
    taken refuses before calls = taken refuses before others := by
  refine h.foldl_eq' (fun call hcall other hother bounds => ?_) before
  by_cases hsame : call.1 = other.1
  · rw [List.inj_on_of_nodup_map hdistinct hcall hother hsame]
  · cases refuses call.1 <;> cases refuses other.1 <;>
      simp [Function.update_comm hsame]

/-- Layouts of the same tracks and of the same components under the same constraints, in whatever
order and under whatever handles. -/
structure Shuffled (l l' : Layout κ) : Prop where
  tracks : l'.tracks = l.tracks
  placed : (l.entries.present.map Entry.placed).Perm (l'.entries.present.map Entry.placed)

namespace Shuffled

variable {l l' : Layout κ} {answers : Answers κ} {kept : σ → Prop} {host : Host κ σ}
  (h : Shuffled l l')
include h

theorem counts : l'.counts = l.counts := congrArg Specification.counts h.tracks

theorem constraints : l.entries.constraints.Perm l'.entries.constraints := by
  have hconstraints := h.placed.map Prod.snd
  rwa [List.map_map, List.map_map] at hconstraints

theorem hasHidden : l'.hasHidden = l.hasHidden := by
  unfold Layout.hasHidden
  rw [h.counts, Bool.eq_iff_iff, List.any_eq_true, List.any_eq_true]
  exact exists_congr fun c => and_congr_left fun _ => h.constraints.mem_iff.symm

theorem hasOverlap : l'.hasOverlap = l.hasOverlap := (anyMeet_perm h.constraints).symm

theorem visible : (l.visible.map Entry.placed).Perm (l'.visible.map Entry.placed) := by
  have hvisible := h.placed.filter fun p => p.2.within l.counts
  rw [List.filter_map, List.filter_map] at hvisible
  rw [Layout.visible, Layout.visible, h.counts]
  exact hvisible

/-- Which of several failures comes first depends on the order. -/
theorem requiredAlong (kind : Sizing) (axis : Axis) :
    Matches (· = ·) (l.requiredAlong answers kind axis) (l'.requiredAlong answers kind axis) := by
  unfold Layout.requiredAlong
  rw [h.tracks]
  exact Line.requiredOf_perm (items_perm answers.host axis h.visible) _ kind

theorem requiredSize (hanswers : host.Answering answers kept) {s t : σ} (hs : kept s) (ht : kept t)
    (insets : Insets) (kind : Sizing) :
    Matches (· = ·) ((l.requiredSize host insets kind).run.run s).1
      ((l'.requiredSize host insets kind).run.run t).1 := by
  rw [(requiredSize_gives hanswers l insets kind s hs).1,
    (requiredSize_gives hanswers l' insets kind t ht).1]
  refine (h.requiredAlong kind .columns).bind fun width _ heq => ?_
  subst heq
  refine (h.requiredAlong kind .rows).bind fun height _ heq => ?_
  subst heq
  exact .of_eq rfl

theorem rebuilt (answers : Answers κ) (frame : Frame) :
    l'.rebuilt answers frame = l.rebuilt answers frame := by
  refine rebuilt_of_contentAlong h.tracks (fun axis => ?_) frame
  rw [contentAlong, contentAlong, h.tracks]
  exact Line.contents_congr (fun _ => (items_perm answers.host axis h.placed).mem_iff.symm) _

theorem calls (answers : Answers κ) (grid : Grid) :
    (l.entries.present.filterMap (call? answers grid)).Perm
      (l'.entries.present.filterMap (call? answers grid)) := by
  -- the handle of an entry does not show in its call
  have hcalls := h.placed.filterMap fun p => call? answers grid ⟨0, p.1, p.2⟩
  rwa [List.filterMap_map, List.filterMap_map] at hcalls

theorem writable (hwritable : l.Writable) : l'.Writable := by
  intro e he
  obtain ⟨e', he', heq⟩ :=
    List.mem_map.mp (h.placed.mem_iff.mpr (List.mem_map_of_mem (f := Entry.placed) he))
  have hconstraint : e'.constraint = e.constraint := congrArg Prod.snd heq
  exact hconstraint ▸ hwritable e' he'

end Shuffled

/-- A layout that can be reached and for which no grid may be used yet. -/
structure Unsolved [DecidableEq κ] (l : Layout κ) : Prop where
  reachable : Reachable Unit l
  stale : l.stale = true

theorem Unsolved.current [DecidableEq κ] {l : Layout κ} (h : l.Unsolved) (answers : Answers κ) :
    Current answers l := current_of_stale h.stale

/-- Two layouts that cannot be told apart by diagnostics, sizes, grids and bounds. Calls may come in
another order. -/
structure Indistinct [DecidableEq κ] (l l' : Layout κ) : Prop where
  hidden : l'.hasHidden = l.hasHidden
  overlap : l'.hasOverlap = l.hasOverlap
  size : ∀ {σ : Type} {answers : Answers κ} {kept : σ → Prop} {host : Host κ σ},
    host.Answering answers kept → ∀ s t, kept s → kept t → ∀ insets kind,
      Matches (· = ·) ((l.requiredSize host insets kind).run.run s).1
        ((l'.requiredSize host insets kind).run.run t).1
  grid : ∀ {σ : Type} {answers : Answers κ} {kept : σ → Prop} {host : Host κ σ},
    host.Answering answers kept → (∀ grid, (host.gridSolved grid).Silent kept) →
      ∀ s t, kept s → kept t → ∀ frame,
      ((resolve host frame).run.run ⟨l', t⟩).1 = ((resolve host frame).run.run ⟨l, s⟩).1 ∧
        (frame.Moderate → ∃ grid, ((resolve host frame).run.run ⟨l, s⟩).1 = .ok grid)
  calls : ∀ {σ : Type} {answers : Answers κ} {kept : σ → Prop} {host : Host κ σ},
    host.Answering answers kept → (∀ grid, (host.gridSolved grid).Silent kept) →
      (∀ component bounds, (host.setBounds component bounds).Silent kept) →
      ∀ s t, kept s → kept t → ∀ frame first second,
      (arrange host.recorded frame).run.run ⟨l, (s, [])⟩ = first →
      (arrange host.recorded frame).run.run ⟨l', (t, [])⟩ = second →
      (first.1 = .ok () → second.1 = .ok () → first.2.around.2.Perm second.2.around.2) ∧
        (l.Writable → first.1 = ((resolve host frame).run.run ⟨l, s⟩).1.map (fun _ => ()) ∧
          second.1 = first.1)
  bounds : ∀ {σ : Type} {answers : Answers κ} {refuses : κ → Bool} {bounds : σ → κ → Option Rect}
    {host : Host κ σ}, host.Steady answers refuses bounds → ∀ s t, bounds s = bounds t →
      ∀ frame first second,
      (arrange host frame).run.run ⟨l, s⟩ = (.ok (), first) →
      (arrange host frame).run.run ⟨l', t⟩ = (.ok (), second) →
        bounds first.around = bounds second.around

namespace Shuffled

variable [DecidableEq κ] {l l' : Layout κ} {answers : Answers κ} {kept : σ → Prop} {host : Host κ σ}
  {frame : Frame} (h : Shuffled l l') (hl : l.Unsolved) (hl' : l'.Unsolved)
include h hl hl'

section
variable (hanswers : host.Answering answers kept)
  (hsolved : ∀ grid, (host.gridSolved grid).Silent kept) {s t : σ} (hs : kept s) (ht : kept t)
include hanswers hsolved hs ht

theorem resolve :
    ((Layout.resolve host frame).run.run ⟨l', t⟩).1 =
        ((Layout.resolve host frame).run.run ⟨l, s⟩).1 ∧
      (frame.Moderate → ∃ grid, ((Layout.resolve host frame).run.run ⟨l, s⟩).1 = .ok grid) := by
  rw [resolve_rebuilt hanswers hsolved (hl.current answers) hs,
    resolve_rebuilt hanswers hsolved (hl'.current answers) ht]
  refine ⟨h.rebuilt answers frame, fun hframe => ?_⟩
  obtain ⟨grid, hgrid, -⟩ := exists_resolved hl.reachable answers hframe
  exact ⟨grid, (hl.current answers).resolved frame ▸ hgrid⟩

variable (hsilent : ∀ component bounds, (host.setBounds component bounds).Silent kept)
include hsilent

/-- Passes that come to their end call the same components with the same bounds, each once. -/
theorem arrange_calls {first second : Except Fault Unit × World κ (σ × List (κ × Rect))}
    (hfirst : (arrange host.recorded frame).run.run ⟨l, (s, [])⟩ = first)
    (hsecond : (arrange host.recorded frame).run.run ⟨l', (t, [])⟩ = second)
    (hend : first.1 = .ok ()) (hend' : second.1 = .ok ()) :
    first.2.around.2.Perm second.2.around.2 ∧ (first.2.around.2.map Prod.fst).Nodup := by
  obtain ⟨grid, hgrid, hcalls⟩ := Layout.arrange_calls hanswers hsolved hsilent
    hl.reachable.faithful (hl.current answers) hs hfirst hend
  obtain ⟨grid', hgrid', hcalls'⟩ := Layout.arrange_calls hanswers hsolved hsilent
    hl'.reachable.faithful (hl'.current answers) ht hsecond hend'
  rw [h.rebuilt, hgrid] at hgrid'
  obtain rfl := Except.ok.inj hgrid'
  rw [hcalls, hcalls']
  exact ⟨h.calls answers grid, nodup_calls hl.reachable.faithful answers grid⟩

theorem arrange_ends (hwritable : l.Writable) :
    ((arrange host.recorded frame).run.run ⟨l, (s, [])⟩).1 =
        ((Layout.resolve host frame).run.run ⟨l, s⟩).1.map (fun _ => ()) ∧
      ((arrange host.recorded frame).run.run ⟨l', (t, [])⟩).1 =
        ((arrange host.recorded frame).run.run ⟨l, (s, [])⟩).1 := by
  rw [resolve_rebuilt hanswers hsolved (hl.current answers) hs,
    Layout.arrange_ends hanswers hsolved hsilent hwritable (hl.current answers) hs,
    Layout.arrange_ends hanswers hsolved hsilent (h.writable hwritable) (hl'.current answers) ht,
    h.rebuilt]
  exact ⟨rfl, rfl⟩

end

private theorem arrange_bounds {refuses : κ → Bool} {bounds : σ → κ → Option Rect}
    (hsteady : host.Steady answers refuses bounds) {s t : σ} (hbounds : bounds s = bounds t)
    {first second : World κ σ} (hfirst : (arrange host frame).run.run ⟨l, s⟩ = (.ok (), first))
    (hsecond : (arrange host frame).run.run ⟨l', t⟩ = (.ok (), second)) :
    bounds first.around = bounds second.around := by
  have hsame (l : Layout κ) (s : σ) := host.recorded_same.arrange frame ⟨l, (s, [])⟩ ⟨l, s⟩
    ⟨rfl, rfl⟩
  obtain ⟨hend, -, haround⟩ := hsame l s
  obtain ⟨hend', -, haround'⟩ := hsame l' t
  rw [hfirst] at hend haround
  rw [hsecond] at hend' haround'
  obtain ⟨hperm, hdistinct⟩ := h.arrange_calls hl hl' hsteady.answering hsteady.gridSolved_silent
    trivial trivial hsteady.setBounds_silent rfl rfl hend hend'
  have htaken (l : Layout κ) (s : σ) :=
    (hsteady.arrange_taken (bounds s) frame ⟨l, (s, [])⟩ ⟨trivial, rfl⟩).1.2
  rw [← haround, ← haround', htaken l s, htaken l' t, ← hbounds]
  exact taken_perm hperm hdistinct _

private theorem indistinct : Indistinct l l' where
  hidden := h.hasHidden
  overlap := h.hasOverlap
  size hanswers _ _ hs ht insets kind := h.requiredSize hanswers hs ht insets kind
  grid hanswers hsolved _ _ hs ht _ := h.resolve hl hl' hanswers hsolved hs ht
  calls := by
    intro σ answers kept host hanswers hsolved hsilent s t hs ht frame first second hfirst hsecond
    refine ⟨fun hend hend' => ?_, fun hwritable => ?_⟩
    · exact (h.arrange_calls hl hl' hanswers hsolved hs ht hsilent hfirst hsecond hend hend').1
    · rw [← hfirst, ← hsecond]
      exact h.arrange_ends hl hl' hanswers hsolved hs ht hsilent hwritable
  bounds hsteady _ _ hbounds _ _ _ hfirst hsecond :=
    h.arrange_bounds hl hl' hsteady hbounds hfirst hsecond

end Shuffled

variable [DecidableEq κ]

def addAll (l : Layout κ) (adds : List (κ × GivenConstraint)) : Except Fault (Layout κ) :=
  adds.foldlM (fun l add => do return (← l.add add.1 add.2).2) l

/-- Adding distinct components that are absent puts them behind the others. -/
theorem exists_addAll {l : Layout κ} {adds : List (κ × GivenConstraint)}
    (hl : l.Unsolved) (hdistinct : (adds.map Prod.fst).Nodup)
    (haccepted : ∀ add ∈ adds, ∃ c, Constraint.ofGiven add.2 = .ok c)
    (habsent : ∀ add ∈ adds, ∀ e ∈ l.entries.present, e.component ≠ add.1) :
    ∃ l', l.addAll adds = .ok l' ∧ l'.Unsolved ∧ l'.tracks = l.tracks ∧
      l'.entries.present.map (fun e => (e.component, .ok e.constraint)) =
        l.entries.present.map (fun e => (e.component, .ok e.constraint)) ++
          adds.map fun add => (add.1, Constraint.ofGiven add.2) := by
  induction adds generalizing l with
  | nil => exact ⟨l, rfl, hl, rfl, by simp⟩
  | cons add adds ih =>
    obtain ⟨hnew, hdistinct⟩ := List.nodup_cons.mp hdistinct
    obtain ⟨⟨c, hc⟩, haccepted⟩ := List.forall_mem_cons.mp haccepted
    obtain ⟨hfirst, habsent⟩ := List.forall_mem_cons.mp habsent
    have hadd := add_of_absent (hl.reachable.faithful.ofComponent?_eq_none_iff.mpr hfirst) hc
    obtain ⟨l', hall, hl', htracks, hentries⟩ := ih
      (l := l.putEntries (l.entries.append add.1 c)) ⟨.change hl.reachable (.add hadd), rfl⟩
      hdistinct haccepted fun other hother e he => by
        rcases List.mem_append.mp he with he | he
        · exact habsent other hother e he
        · rw [List.mem_singleton.mp he]
          exact fun heq => hnew (List.mem_map.mpr ⟨other, hother, heq.symm⟩)
    refine ⟨l', ?_, hl', htracks, ?_⟩
    · rw [addAll, List.foldlM_cons, hadd]
      exact hall
    · rw [hentries, List.map_cons, hc]
      simp [putEntries, Entries.append]

private def crossAdds : List (Bool × GivenConstraint) :=
  [(false, .constraint (.single ⟨0, 0⟩ Constraint.fullAlign)),
    (true, .constraint (.span ⟨⟨0, 1⟩, ⟨0, 0⟩⟩))]

private def crossItems : List (Item (StateM Unit)) :=
  [⟨.one 0, true, fun _ => pure 7⟩, ⟨.one 0, true, fun _ => pure 9⟩]

end Layout
end TrackGrid
