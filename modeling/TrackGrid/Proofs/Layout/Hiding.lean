import TrackGrid.Proofs.Layout.Rebuilding

/-! The size of a table leaves out the entries that lie outside of it along either axis, but solving
takes all entries along both. -/

namespace TrackGrid

variable {κ σ : Type}

def Entry.SitsIn (e : Entry κ) (axis : Axis) (index : Int) : Prop :=
  e.constraint.isSingle = true ∧ e.constraint.cells.along axis = .one index

namespace Layout

variable {answers : Answers κ} {kept : σ → Prop} {host : Host κ σ} {l : Layout κ} {e : Entry κ}

private theorem sitsIn_item (axis : Axis) (f : Entry κ) (index : Int) :
    (answers.host.item axis f).sitsIn index = true ↔ f.SitsIn axis index := by
  rcases hcells : f.constraint.cells.along axis with ⟨first, last⟩
  simp only [Host.item, Item.sitsIn, Entry.SitsIn, Interval.one, hcells, Bool.and_eq_true, beq_iff_eq,
    Interval.mk.injEq, and_assoc]

/-- An entry gives a track of an axis its size: it occupies a content track alone and has a larger
extent there than all others. -/
def Stretches (answers : Answers κ) (l : Layout κ) (e : Entry κ) (axis : Axis) : Prop :=
  ∃ (index : Nat) (kind : Sizing), (l.tracks.along axis)[index]? = some (.sizing kind) ∧
    kind ≠ .fill ∧ e.SitsIn axis index ∧ 0 < answers.extent axis e.component kind ∧
    ∀ f ∈ l.entries.present, f.handle ≠ e.handle → f.SitsIn axis index →
      answers.extent axis f.component kind < answers.extent axis e.component kind

private theorem largest_items_le_iff {axis : Axis} {index bound : Int} {kind : Sizing}
    {entries : List (Entry κ)} :
    Line.largest (Item.value · kind) index (entries.map (answers.host.item axis)) ≤ bound ↔
      0 ≤ bound ∧ ∀ f ∈ entries, f.SitsIn axis index →
        answers.extent axis f.component kind ≤ bound := by
  simp only [Line.largest_le_iff, List.forall_mem_map, sitsIn_item, answers.value_item]

private theorem call?_hidden (hhidden : e.constraint.within l.counts = false) {grid : Grid}
    (hcounts : grid.counts = l.counts) : call? answers grid e = none := by
  rw [call?, hcounts, if_neg (by rw [hhidden]; decide)]

section
variable [DecidableEq κ] (hl : l.entries.Faithful) (he : e ∈ l.entries.present)
include hl he

private theorem removeEntry_eq :
    l.removeEntry e.handle = l.putEntries (l.entries.remove e.handle) := by
  rw [removeEntry, hl.get?_handle he]

private theorem present_removeEntry : (l.removeEntry e.handle).entries.present =
    l.entries.present.filter fun f => f.handle ≠ e.handle := by
  rw [removeEntry_eq hl he, Entries.remove, hl.get?_handle he]
  rfl

private theorem mem_removeEntry {f : Entry κ} : f ∈ (l.removeEntry e.handle).entries.present ↔
    f ∈ l.entries.present ∧ f.handle ≠ e.handle := by
  rw [present_removeEntry hl he, List.mem_filter, decide_eq_true_iff]

/-- What is done for all entries that count and not for the one removed is done alike without it. -/
theorem filterMap_removeEntry {β : Type} {f : Entry κ → Option β} (hnone : f e = none) :
    (l.removeEntry e.handle).entries.present.filterMap f = l.entries.present.filterMap f := by
  rw [present_removeEntry hl he, List.filterMap_filter]
  refine List.filterMap_congr fun other hother => ?_
  by_cases hhandle : other.handle = e.handle
  · rw [hl.eq_of_handle hother he hhandle, hnone]
    simp
  · simp [hhandle]

/-- The content of the tracks is the same without an entry just if the entry stretches none. -/
theorem contentAlong_removeEntry (axis : Axis) :
    (l.removeEntry e.handle).contentAlong answers axis = l.contentAlong answers axis ↔
      ¬ l.Stretches answers e axis := by
  rw [contentAlong, contentAlong, tracks_removeEntry l e.handle, Line.contents_eq_iff]
  constructor
  · rintro hsame ⟨index, kind, htrack, hkind, hsits, hpos, hothers⟩
    have hless : Line.largest (Item.value · kind) index ((l.removeEntry e.handle).entries.present.map
        (answers.host.item axis)) ≤ answers.extent axis e.component kind - 1 := by
      refine largest_items_le_iff.mpr ⟨by omega, fun f hf hfsits => ?_⟩
      obtain ⟨hf, hne⟩ := (mem_removeEntry hl he).mp hf
      have := hothers f hf hne hfsits
      omega
    rw [hsame index kind htrack hkind] at hless
    have := (largest_items_le_iff.mp hless).2 e he hsits
    omega
  · intro hstretches index kind htrack hkind
    refine eq_of_forall_ge_iff fun bound => ?_
    simp only [largest_items_le_iff, mem_removeEntry hl he, and_imp]
    refine ⟨fun ⟨hbound, hothers⟩ => ⟨hbound, fun f hf hfsits => ?_⟩,
      fun ⟨hbound, hall⟩ => ⟨hbound, fun f hf _ => hall f hf⟩⟩
    by_cases hhandle : f.handle = e.handle
    · obtain rfl := hl.eq_of_handle hf he hhandle
      by_contra hlarger
      refine hstretches ⟨index, kind, htrack, hkind, hfsits, by omega, fun g hg hne hgsits => ?_⟩
      have := hothers g hg hne hgsits
      omega
    · exact hothers f hf hhandle hfsits

private theorem rebuilt_removeEntry (hstretches : ∀ axis, ¬ l.Stretches answers e axis)
    (frame : Frame) :
    (l.removeEntry e.handle).rebuilt answers frame = l.rebuilt answers frame :=
  rebuilt_of_contentAlong (tracks_removeEntry l e.handle)
    (fun axis => (contentAlong_removeEntry hl he axis).mpr (hstretches axis)) frame

section
variable (hhidden : e.constraint.within l.counts = false)
include hhidden

private theorem visible_removeEntry : (l.removeEntry e.handle).visible = l.visible := by
  rw [visible, visible, present_removeEntry hl he, List.filter_filter, counts,
    tracks_removeEntry l e.handle]
  refine List.filter_congr fun f hf => ?_
  change (f.constraint.within l.counts && _) = f.constraint.within l.counts
  cases hwithin : f.constraint.within l.counts with
  | false => rfl
  | true =>
    refine (Bool.true_and _).trans (decide_eq_true fun hhandle => ?_)
    rw [hl.eq_of_handle hf he hhandle, hhidden] at hwithin
    cases hwithin

/-- A hidden entry is asked nothing for the size of the table. -/
theorem requiredSize_removeEntry {τ : Type} (host : Host κ τ) (insets : Insets) (kind : Sizing) :
    (l.removeEntry e.handle).requiredSize host insets kind = l.requiredSize host insets kind := by
  simp only [requiredSize, visible_removeEntry hl he hhidden, tracks_removeEntry l e.handle]

end
end

/-- What a hidden entry does. Let an entry of a layout that is reached lie outside of the table along
one axis or both, while the components answer the same and callbacks leave the layout alone. The
size that the table asks for is the same without the entry, whoever the host is. The grid is the
same without it if the entry stretches no track, and if it stretches one, no two grids are the same.
Where it stretches none, passes with and without it give the same bounds to the same components in
the same order, and come to the same end if all constraints can be written. -/
theorem hidden_inert_iff [DecidableEq κ]
    (hl : Reached (Solves kept (Host.Answering answers kept)) l) (he : e ∈ l.entries.present)
    (hhidden : e.constraint.within l.counts = false) :
    (∀ {τ : Type} (host : Host κ τ) insets kind,
      (l.removeEntry e.handle).requiredSize host insets kind = l.requiredSize host insets kind) ∧
    ∀ host : Host κ σ, host.Answering answers kept →
      (∀ grid, (host.gridSolved grid).Silent kept) → ∀ frame s t, kept s → kept t →
      ((∀ axis, ¬ l.Stretches answers e axis) →
        ((resolve host frame).run.run ⟨l.removeEntry e.handle, t⟩).1 =
          ((resolve host frame).run.run ⟨l, s⟩).1) ∧
      (∀ grid, ((resolve host frame).run.run ⟨l, s⟩).1 = .ok grid →
        ((resolve host frame).run.run ⟨l.removeEntry e.handle, t⟩).1 = .ok grid →
        ∀ axis, ¬ l.Stretches answers e axis) ∧
      ((∀ axis, ¬ l.Stretches answers e axis) →
        (∀ component bounds, (host.setBounds component bounds).Silent kept) → ∀ first second,
        (arrange host.recorded frame).run.run ⟨l, (s, [])⟩ = first →
        (arrange host.recorded frame).run.run ⟨l.removeEntry e.handle, (t, [])⟩ = second →
        (first.1 = .ok () → second.1 = .ok () → second.2.around.2 = first.2.around.2) ∧
        (l.Writable → second.1 = first.1)) := by
  have hfaithful := hl.faithful
  have hcurrent := hl.current
  have hremoved := Reached.change hl (.removeEntry l e.handle)
  have hfaithful' := hremoved.faithful
  have hcurrent' := hremoved.current
  refine ⟨requiredSize_removeEntry hfaithful he hhidden,
    fun host hanswers hsolved frame s t hs ht => ⟨?_, ?_, ?_⟩⟩
  · intro hstretches
    rw [resolve_rebuilt hanswers hsolved hcurrent hs, resolve_rebuilt hanswers hsolved hcurrent' ht,
      rebuilt_removeEntry hfaithful he hstretches]
  · intro grid hgrid hgrid' axis
    rw [resolve_rebuilt hanswers hsolved hcurrent hs] at hgrid
    rw [resolve_rebuilt hanswers hsolved hcurrent' ht] at hgrid'
    exact (contentAlong_removeEntry hfaithful he axis).mp
      (contentAlong_eq_of_rebuilt (tracks_removeEntry l e.handle) hgrid hgrid' axis)
  · intro hstretches hsilent first second hfirst hsecond
    have hrebuilt := rebuilt_removeEntry hfaithful he hstretches frame
    constructor
    · intro hend hend'
      obtain ⟨grid, hgrid, hcalls⟩ :=
        arrange_calls hanswers hsolved hsilent hfaithful hcurrent hs hfirst hend
      obtain ⟨grid', hgrid', hcalls'⟩ :=
        arrange_calls hanswers hsolved hsilent hfaithful' hcurrent' ht hsecond hend'
      rw [hrebuilt, hgrid] at hgrid'
      obtain rfl := Except.ok.inj hgrid'
      rw [hcalls, hcalls']
      exact filterMap_removeEntry hfaithful he
        (call?_hidden hhidden (counts_of_solve hgrid))
    · intro hwritable
      have hwritable' : (l.removeEntry e.handle).Writable := fun f hf =>
        hwritable f ((mem_removeEntry hfaithful he).mp hf).1
      rw [← hfirst, ← hsecond, arrange_ends hanswers hsolved hsilent hwritable hcurrent hs,
        arrange_ends hanswers hsolved hsilent hwritable' hcurrent' ht, hrebuilt]

private def askewEntry : Entry Bool := ⟨0, false, .single ⟨0, 5⟩ Constraint.fullAlign⟩

/-- One component lies below the table, another one in the first column. -/
private def askewLayout : Layout Bool :=
  (ofTracks ⟨[.sizing .preferred, .fill], [.fill]⟩).putEntries
    ((Entries.empty.append false askewEntry.constraint).append true
      (.single ⟨0, 0⟩ Constraint.fullAlign))

private def askewAnswers (hidden : Int) : Answers Bool := fun component _ =>
  .ok (some ⟨if component then 50 else hidden, 20⟩)

private def askewFrame : Frame := ⟨⟨200, 100⟩, .zero⟩

private theorem askewLayout_reached (solves : Layout Bool → Frame → Grid → Prop) :
    Reached solves askewLayout := by
  have hmade : ofGiven (κ := Bool) (some [.sizing .preferred, .sizing .fill])
      (some [.sizing .fill]) = .ok (ofTracks ⟨[.sizing .preferred, .fill], [.fill]⟩) := rfl
  exact ((Reached.made hmade).append false askewEntry.constraint rfl (by decide)).append true
    (.single ⟨0, 0⟩ Constraint.fullAlign) rfl (by decide)

/-- A hidden component of the same width as the visible one has no say. A wider one stretches the
column of the visible one. -/
theorem askewLayout_inert :
    ((resolve (askewAnswers 50).host askewFrame).run.run ⟨askewLayout.removeEntry 0, ()⟩).1 =
      ((resolve (askewAnswers 50).host askewFrame).run.run ⟨askewLayout, ()⟩).1 ∧
    ¬ ∃ grid,
      ((resolve (askewAnswers 60).host askewFrame).run.run ⟨askewLayout, ()⟩).1 = .ok grid ∧
      ((resolve (askewAnswers 60).host askewFrame).run.run
        ⟨askewLayout.removeEntry 0, ()⟩).1 = .ok grid := by
  have hanswers (hidden : Int) :
      (askewAnswers hidden).host.Answering (askewAnswers hidden) fun _ : Unit => True :=
    ⟨fun _ => .calculate _, fun _ => .calculate _, fun _ _ _ h => h⟩
  have hreached (hidden : Int) : Reached (Solves (fun _ : Unit => True)
      (Host.Answering (askewAnswers hidden) fun _ => True)) askewLayout := askewLayout_reached _
  have hinert (hidden : Int) := (hidden_inert_iff (e := askewEntry) (hreached hidden) (by decide)
    (by decide)).2 _ (hanswers hidden) (fun _ _ _ => ⟨rfl, trivial⟩) askewFrame () () trivial trivial
  constructor
  · refine (hinert 50).1 ?_
    rintro axis ⟨index, kind, htrack, hkind, ⟨-, hindex⟩, -, hothers⟩
    cases axis with
    | rows =>
      have hindex : (5 : Int) = index := congrArg Interval.first hindex
      obtain rfl : index = 5 := by omega
      cases htrack
    | columns =>
      have hindex : (0 : Int) = index := congrArg Interval.first hindex
      have hlarger := hothers ⟨1, true, .single ⟨0, 0⟩ Constraint.fullAlign⟩ (by decide) (by decide)
        ⟨rfl, congrArg Interval.one hindex⟩
      exact absurd hlarger (by cases kind <;> decide)
  · rintro ⟨grid, hgrid, hgrid'⟩
    refine (hinert 60).2.1 grid hgrid hgrid' .columns
      ⟨0, .preferred, rfl, by decide, ⟨rfl, rfl⟩, by decide, ?_⟩
    intro f hf hhandle _
    obtain rfl : f = ⟨1, true, .single ⟨0, 0⟩ Constraint.fullAlign⟩ := by
      rcases List.mem_pair.mp hf with rfl | rfl
      · exact absurd rfl hhandle
      · rfl
    decide

theorem hidden_not_inert : ¬ ∀ (l : Layout Bool) (e : Entry Bool), Reachable Unit l →
    e ∈ l.entries.present → e.constraint.within l.counts = false → ∀ answers : Answers Bool,
      ∀ frame, ((resolve answers.host frame).run.run ⟨l.removeEntry e.handle, ()⟩).1 =
        ((resolve answers.host frame).run.run ⟨l, ()⟩).1 := by
  intro hinert
  have hsame := hinert askewLayout askewEntry (askewLayout_reached _) (by decide) (by decide)
    (askewAnswers 60) askewFrame
  have hwith : ((resolve (askewAnswers 60).host askewFrame).run.run ⟨askewLayout, ()⟩).1 =
      .ok ⟨⟨[60, 140], [0, 60, 200]⟩, ⟨[100], [0, 100]⟩⟩ := rfl
  have hwithout : ((resolve (askewAnswers 60).host askewFrame).run.run
      ⟨askewLayout.removeEntry 0, ()⟩).1 =
        .ok ⟨⟨[50, 150], [0, 50, 200]⟩, ⟨[100], [0, 100]⟩⟩ := rfl
  have hgrids := hwithout.symm.trans (hsame.trans hwith)
  revert hgrids
  decide

end Layout

end TrackGrid
