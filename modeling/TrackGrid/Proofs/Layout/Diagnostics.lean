import TrackGrid.Proofs.Constraint.Shifting
import TrackGrid.Proofs.Layout.Failure
import TrackGrid.Proofs.Layout.Journal
import TrackGrid.Proofs.Layout.Separation
import TrackGrid.Proofs.Layout.Table
import TrackGrid.Proofs.Layout.Totality

/-! The diagnostics of a layout against the cells that components cover and the course that a pass
takes. -/

namespace TrackGrid

variable {κ σ : Type}

/-- Intervals in order meet just in a track that both cover. -/
theorem Interval.meets_iff {i j : Interval} (hi : i.first ≤ i.last) (hj : j.first ≤ j.last) :
    i.meets j = true ↔ ∃ track, i.covers track = true ∧ j.covers track = true := by
  simp only [meets, Bool.and_eq_true, decide_eq_true_eq, covers_iff]
  constructor
  · rintro ⟨hij, hji⟩
    exact ⟨max i.first j.first, by omega, by omega⟩
  · rintro ⟨track, htrack, htrack'⟩
    omega

namespace Constraint

variable {c d : Constraint}

def Covers (c : Constraint) (column row : Int) : Prop :=
  c.cells.columns.covers column = true ∧ c.cells.rows.covers row = true

private theorem Normal.meets_iff (hc : c.Normal) (hd : d.Normal) :
    c.meets d = true ↔ ∃ column row, c.Covers column row ∧ d.Covers column row := by
  rw [meets, Bool.and_eq_true, Interval.meets_iff hc.columns hd.columns,
    Interval.meets_iff hc.rows hd.rows]
  constructor
  · rintro ⟨⟨column, hcolumn, hcolumn'⟩, row, hrow, hrow'⟩
    exact ⟨column, row, ⟨hcolumn, hrow⟩, hcolumn', hrow'⟩
  · rintro ⟨column, row, ⟨hcolumn, hrow⟩, hcolumn', hrow'⟩
    exact ⟨⟨column, hcolumn, hcolumn'⟩, row, hrow, hrow'⟩

/-- What lies within as many tracks as a list can have can be written. -/
theorem writable_of_within {counts : PerAxis Int} (h : c.within counts = true)
    (hcounts : ∀ axis, counts.along axis ≤ largestIndex) : c.Writable := by
  have hindex {n : Int} (h0 : 0 ≤ n) (hlt : n < largestIndex) : Number.Writable n := by
    have hlength : (Text.digitsOfNat n.natAbs).length ≤ 19 :=
      (Nat.length_toDigits_le_iff (by decide) (by decide)).mpr <| by
        simp only [largestIndex] at hlt
        omega
    exact hlength.trans (by decide)
  simp only [within, Bool.and_eq_true, Interval.within_iff] at h
  obtain ⟨⟨hleft, hcolumns, hright⟩, htop, hrows, hbottom⟩ := h
  have hcolumns' : counts.columns ≤ largestIndex := hcounts .columns
  have hrows' : counts.rows ≤ largestIndex := hcounts .rows
  constructor <;> exact hindex (by omega) (by omega)

end Constraint

namespace Layout

variable {l : Layout κ}

/-- Two components overlap just if two different entries share a cell. -/
theorem hasOverlap_iff (hl : l.entries.Faithful) :
    l.hasOverlap = true ↔ ∃ e ∈ l.entries.present, ∃ f ∈ l.entries.present, e ≠ f ∧
      ∃ column row, e.constraint.Covers column row ∧ f.constraint.Covers column row := by
  have hmeets (e f : Entry κ) (he : e ∈ l.entries.present) (hf : f ∈ l.entries.present) :=
    (hl.normal e he).meets_iff (hl.normal f hf)
  constructor
  · intro hoverlap
    by_contra hnone
    push Not at hnone
    have hpairs :
        l.entries.present.Pairwise fun e f => e.constraint.meets f.constraint = false := by
      refine hl.distinct.of_map.pairwise_of_forall_ne fun e he f hf hne => ?_
      rw [← Bool.not_eq_true, hmeets e f he hf]
      rintro ⟨column, row, hcovers, hcovers'⟩
      exact hnone e he f hf hne column row hcovers hcovers'
    rw [hasOverlap, Entries.constraints, anyMeet_eq_false_iff.mpr (List.pairwise_map.mpr hpairs)]
      at hoverlap
    cases hoverlap
  · rintro ⟨e, he, f, hf, hne, hcell⟩
    by_contra hoverlap
    have hapart := meets_of_hasOverlap (Bool.not_eq_true _ ▸ hoverlap) he hf fun hcomponent =>
      hne (hl.eq_of_component he hf hcomponent)
    rw [(hmeets e f he hf).mpr hcell] at hapart
    cases hapart

private theorem hasHidden_eq_false_iff :
    l.hasHidden = false ↔ ∀ e ∈ l.entries.present, e.constraint.within l.counts = true := by
  simp [hasHidden, Entries.constraints]

variable {host : Host κ σ} {grid : Grid} {out : Except Fault Unit}

/-- In a moderate frame a grid is found. -/
theorem exists_resolve [DecidableEq κ] {w : World κ σ}
    (hsilent : ∀ grid, (host.gridSolved grid).Silent fun _ => True)
    (hw : w.layout.tracks.Clean) {frame : Frame} (hframe : frame.Moderate) :
    ∃ grid, ((resolve host frame).run.run w).1 = .ok grid := by
  cases hfresh : w.layout.isFresh frame with
  | true =>
    rw [resolve_of_isFresh host hfresh]
    exact exists_heldGrid (holding_of_isFresh hfresh)
  | false =>
    obtain ⟨grid, hgrid⟩ := (Host.Keeps.always host).solve_finishes hw hframe w.around trivial
    rcases hsolve : (w.layout.solve host frame).run.run w.around with ⟨result, s⟩
    rw [hsolve] at hgrid
    obtain rfl : result = .ok grid := hgrid
    rw [resolve_of_grid hfresh hsolve rfl, (hsilent grid ⟨w.layout.hold frame grid, s⟩ trivial).1]
    exact ⟨grid, rfl⟩

/-- What the events of a pass tell of what is hidden. Nothing is just if every entry is placed, and
then none is skipped and the pass comes to its end. Otherwise an entry is not placed but skipped, or
stops the pass if it cannot be written. -/
structure Tells (l : Layout κ) (events : List (Event κ)) (out : Except Fault Unit) : Prop where
  placed : l.hasHidden = false ↔ ∀ e ∈ l.entries.present, ∃ event ∈ events, event.Places e
  finished : l.hasHidden = false →
    out = .ok () ∧ ∀ event ∈ events, ∀ text, event ≠ .notice (.entryHidden text)
  skipped : l.hasHidden = true → ∃ e ∈ l.entries.present, (∀ event ∈ events, ¬ event.Places e) ∧
    ((∃ text, e.text = .ok text ∧ .notice (.entryHidden text) ∈ events) ∨
      ∃ fault, e.text = .error fault ∧ out = .error fault)

section
variable (hl : l.entries.Faithful) {queries events : List (Event κ)}
  (hqueries : ∀ event ∈ queries, event.IsQuery) (hcounts : grid.counts = l.counts)
  (h : Course grid l.entries.present events out)
include hl hqueries hcounts h

private theorem within_of_places {e : Entry κ} (he : e ∈ l.entries.present) {event : Event κ}
    (hevent : event ∈ queries ++ events) (hplaces : event.Places e) :
    e.constraint.within l.counts = true := by
  rcases List.mem_append.mp hevent with hevent | hevent
  · exact absurd hplaces ((hqueries event hevent).not_places e)
  · obtain ⟨f, hf, hwithin, hplaces'⟩ := h.exists_within hevent hplaces
    rw [hplaces.unique hl he hf hplaces', ← hcounts]
    exact hwithin

/-- A course along all entries tells what is hidden on a grid with as many tracks as the layout. -/
theorem tells_of_course : l.Tells (queries ++ events) out := by
  have hall (hnone : l.hasHidden = false) :=
    h.places fun e he => hcounts ▸ hasHidden_eq_false_iff.mp hnone e he
  refine ⟨⟨fun hnone e he => ?_, fun hplaced => ?_⟩, fun hnone => ?_, fun hsome => ?_⟩
  · obtain ⟨event, hevent, hplaces⟩ := (hall hnone).2.1 e he
    exact ⟨event, List.mem_append_right _ hevent, hplaces⟩
  · refine hasHidden_eq_false_iff.mpr fun e he => ?_
    obtain ⟨event, hevent, hplaces⟩ := hplaced e he
    exact within_of_places hl hqueries hcounts h he hevent hplaces
  · obtain ⟨hout, -, hown⟩ := hall hnone
    refine ⟨hout, fun event hevent text heq => ?_⟩
    rcases List.mem_append.mp hevent with hevent | hevent
    · obtain ⟨component, fault, hquery⟩ := hqueries event hevent
      rw [heq] at hquery
      cases hquery
    · obtain ⟨e, -, hplaces⟩ := hown event hevent
      rw [heq] at hplaces
      exact hplaces
  · have hhidden : ∃ e ∈ l.entries.present, e.constraint.within grid.counts = false := by
      by_contra hall
      push Not at hall
      rw [hasHidden_eq_false_iff.mpr fun e he => hcounts ▸ Bool.not_eq_false _ ▸ hall e he] at hsome
      cases hsome
    obtain ⟨e, he, hhidden, hskipped⟩ := h.exists_skipped hhidden
    refine ⟨e, he, fun event hevent hplaces => ?_, hskipped.imp_left ?_⟩
    · rw [hcounts, within_of_places hl hqueries hcounts h he hevent hplaces] at hhidden
      cases hhidden
    · rintro ⟨text, htext, hevent⟩
      exact ⟨text, htext, List.mem_append_right _ hevent⟩

end

/-- The diagnostics of a layout that is reached tell the truth, if it has no more tracks than a list
can have. It has an overlap just if two different entries cover a common cell, inside of the table
or not. It has nothing hidden just if a pass, whose callbacks leave the layout alone, comes to the
placement of every entry instead of skipping one. A pass that finds no grid comes to no entry at
all, but in a moderate frame there always is one. -/
theorem diagnostics_exact [DecidableEq κ] {w : World κ σ} (hw : Reachable σ w.layout)
    (hcounts : ∀ axis, w.layout.counts.along axis ≤ largestIndex) :
    (w.layout.hasOverlap = true ↔ ∃ e ∈ w.layout.entries.present, ∃ f ∈ w.layout.entries.present,
      e ≠ f ∧ ∃ column row, e.constraint.Covers column row ∧ f.constraint.Covers column row) ∧
    ∀ host : Host κ σ, (∀ grid, (host.gridSolved grid).Silent fun _ => True) →
      (∀ component bounds, (host.setBounds component bounds).Silent fun _ => True) →
      ∀ frame out after,
        (arrange host.journaled frame).run.run ⟨w.layout, (w.around, [])⟩ = (out, after) →
        (arrange host frame).run.run w = (out, ⟨after.layout, after.around.1⟩) ∧
        (∀ grid, ((resolve host frame).run.run w).1 = .ok grid →
          w.layout.Tells after.around.2 out) ∧
        (∀ fault, ((resolve host frame).run.run w).1 = .error fault →
          out = .error fault ∧ ∀ event ∈ after.around.2, event.IsQuery) ∧
        (frame.Moderate → ∃ grid, ((resolve host frame).run.run w).1 = .ok grid) := by
  have hfaithful := hw.faithful
  refine ⟨hasOverlap_iff hfaithful, fun host hsolved hbounds frame out after h => ?_⟩
  obtain ⟨hout, hlayout, haround⟩ :=
    host.journaled_same.arrange frame ⟨w.layout, (w.around, [])⟩ w ⟨rfl, rfl⟩
  obtain ⟨hresult, -⟩ :=
    host.journaled_same.resolve frame ⟨w.layout, (w.around, [])⟩ w ⟨rfl, rfl⟩
  rw [h] at hout hlayout haround
  rcases hresolve : (resolve host.journaled frame).run.run ⟨w.layout, (w.around, [])⟩
    with ⟨result, v⟩
  obtain ⟨hentries, hqueries, hcounted⟩ :=
    resolve_journaled (w := ⟨w.layout, (w.around, [])⟩) hsolved hw rfl hresolve
  rw [hresolve] at hresult
  refine ⟨?_, fun grid hgrid => ?_, fun fault hfault => ?_, exists_resolve hsolved hw.clean⟩
  · exact Prod.ext hout.symm (congrArg₂ World.mk hlayout.symm haround.symm)
  · obtain rfl : result = .ok grid := hresult.trans hgrid
    rw [arrange_of_grid hresolve, Entries.handles] at h
    have hget : ∀ e ∈ v.layout.entries.present, v.layout.entries.get? e.handle = some e :=
      fun e he => Entries.Faithful.get?_handle (hentries ▸ hfaithful) he
    obtain ⟨events, hevents, hcourse⟩ := forM_placeEntry_course hbounds hget (fun e _ hwithin =>
      exists_entryText (Constraint.writable_of_within hwithin (hcounted grid rfl ▸ hcounts))) h
    rw [hevents]
    rw [hentries] at hcourse
    exact tells_of_course hfaithful hqueries (hcounted grid rfl) hcourse
  · obtain rfl : result = .error fault := hresult.trans hfault
    rw [arrange_of_fault hresolve] at h
    cases h
    exact ⟨rfl, hqueries⟩

/-- Two spans that share a cell, of which the second one reaches out of the table. -/
private def awningLayout : Layout Bool :=
  (ofTracks ⟨[.fill, .fill], [.fill]⟩).putEntries
    ((Entries.empty.append false (.span ⟨⟨0, 1⟩, .one 0⟩)).append true (.span ⟨⟨1, 2⟩, .one 0⟩))

private def awningHost : Host Bool Unit := Answers.host fun _ _ => .ok none

private theorem awningLayout_reachable : Reachable Unit awningLayout := by
  have hmade : ofGiven (κ := Bool) (some [.sizing .fill, .sizing .fill]) none =
      .ok (ofTracks ⟨[.fill, .fill], [.fill]⟩) := rfl
  exact ((Reached.made hmade).append false (.span ⟨⟨0, 1⟩, .one 0⟩) rfl (by decide)).append true
    (.span ⟨⟨1, 2⟩, .one 0⟩) rfl (by decide)

theorem awningLayout_told : awningLayout.hasHidden = true ∧
    awningLayout.Tells [.call false ⟨0, 0, 21, 10⟩,
      .notice (.entryHidden "TableEntry (1: 1, 0, 2, 0)")] (.ok ()) ∧
    ∃ e ∈ awningLayout.entries.present, ∃ f ∈ awningLayout.entries.present, e ≠ f ∧
      ∃ column row, e.constraint.Covers column row ∧ f.constraint.Covers column row := by
  obtain ⟨hoverlap, hpass⟩ := diagnostics_exact (w := ⟨awningLayout, ()⟩) awningLayout_reachable
    (fun axis => by cases axis <;> decide)
  obtain ⟨-, htells, -, hgrid⟩ := hpass awningHost (fun _ _ _ => ⟨rfl, trivial⟩)
    (fun _ _ _ _ => ⟨rfl, trivial⟩) ⟨⟨21, 10⟩, .zero⟩ _ _ rfl
  obtain ⟨grid, hgrid⟩ := hgrid (by constructor <;> decide)
  have hevents : ((arrange awningHost.journaled ⟨⟨21, 10⟩, .zero⟩).run.run
      ⟨awningLayout, ((), [])⟩).2.around.2 = [.call false ⟨0, 0, 21, 10⟩,
        .notice (.entryHidden "TableEntry (1: 1, 0, 2, 0)")] := by decide +kernel
  exact ⟨by decide, hevents ▸ htells grid hgrid, hoverlap.mp (by decide)⟩

end Layout

end TrackGrid
