import TrackGrid.Proofs.Constraint.Reading
import TrackGrid.Proofs.Layout.Run
import TrackGrid.Proofs.Line.Totality

/-! Passes come to their end: clean tracks can be laid out in every frame that is not too large. -/

namespace TrackGrid

variable {κ σ α : Type}

namespace Finishes

variable {P : Layout κ → Prop} {kept : σ → Prop}

theorem layout : Finishes (World.Has P kept) (Act.layout : Act κ σ (Layout κ)) :=
  fun w _ => ⟨w.layout, rfl⟩

theorem outcome (x : Act κ σ α) : Finishes (World.Has P kept) (Act.outcome x) :=
  fun w _ => ⟨(x.run.run w).1, rfl⟩

theorem around {x : ExceptT Fault (StateM σ) α} (h : Finishes kept x) :
    Finishes (World.Has P kept) (Act.around x) :=
  fun w hw => h w.around hw.2

end Finishes

/-- Sizes and insets of no more than 2 ^ 50 pixels either way. -/
structure Frame.Moderate (frame : Frame) : Prop where
  width : frame.size.width.natAbs ≤ 2 ^ 50
  height : frame.size.height.natAbs ≤ 2 ^ 50
  top : frame.insets.top.natAbs ≤ 2 ^ 50
  left : frame.insets.left.natAbs ≤ 2 ^ 50
  bottom : frame.insets.bottom.natAbs ≤ 2 ^ 50
  right : frame.insets.right.natAbs ≤ 2 ^ 50

private theorem Frame.Moderate.inner_le {frame : Frame} (h : frame.Moderate) :
    frame.inner.columns ≤ 2 ^ 52 ∧ frame.inner.rows ≤ 2 ^ 52 := by
  obtain ⟨hwidth, hheight, htop, hleft, hbottom, hright⟩ := h
  simp only [Frame.inner]
  omega

namespace Host.Keeps

variable {kept : σ → Prop} {host : Host κ σ}

private theorem extent_finishes (h : host.Keeps kept) (axis : Axis) (component : κ)
    (kind : Sizing) :
    Finishes kept (host.extent axis component kind) := by
  refine Finishes.tryCatch (Q := fun _ => True) ((h.sizeOf component kind).bind fun size _ => ?_)
    fun fault => ?_
  · cases size <;> exact .pure trivial
  · exact Finishes.bind (fun _ _ => ⟨(), rfl⟩) (h.notify _) fun _ _ => .pure 0

private theorem items_finish (h : host.Keeps kept) (axis : Axis) (entries : List (Entry κ)) :
    ∀ item ∈ entries.map (host.item axis), ∀ kind, Finishes kept (item.extent kind) := by
  intro item hitem kind
  obtain ⟨entry, -, rfl⟩ := List.mem_map.mp hitem
  exact h.extent_finishes axis entry.component kind

/-- Clean tracks can be laid out in a moderate frame whatever the components answer. -/
theorem solve_finishes (h : host.Keeps kept) {layout : Layout κ} (hclean : layout.tracks.Clean)
    {frame : Frame} (hframe : frame.Moderate) : Finishes kept (layout.solve host frame) := by
  obtain ⟨hcolumns, hrows⟩ := hframe.inner_le
  refine Finishes.bind (Line.solve_finishes (h.items .columns _) (h.items_finish .columns _)
    (hclean .columns) _ hcolumns) (h.line .columns _ _ _ _) fun columns _ => ?_
  exact Finishes.bind (Line.solve_finishes (h.items .rows _) (h.items_finish .rows _)
    (hclean .rows) _ hrows) (h.line .rows _ _ _ _) fun rows _ => .pure _

end Host.Keeps

namespace Layout

theorem exists_entryText {e : Entry κ} (h : e.constraint.Writable) : ∃ t, e.text = .ok t := by
  obtain ⟨t, ht, -⟩ := Constraint.exists_text h
  unfold Entry.text
  rw [ht]
  exact ⟨_, rfl⟩

variable {l : Layout κ} {kept : σ → Prop} {host : Host κ σ}

private theorem noteText_finishes (host : Host κ σ) {P : Layout κ → Prop}
    {text : Except Fault String}
    (htext : ∃ t, text = .ok t) (notice : String → Notice κ) :
    Finishes (World.Has P kept) (do
      let text ← Act.around (calculate text)
      Act.around (host.notify (notice text))) :=
  Finishes.bind (Q := fun _ => True) (.around (.calculate htext))
    (Holds.around (Holds.calculate fun _ _ => trivial)) fun _ _ =>
      .around fun _ _ => ⟨(), rfl⟩

section
variable (hkeeps : host.Keeps kept)
  (hwritable : ∀ e ∈ l.entries.present, e.constraint.Writable)
  (hbounds : ∀ component bounds,
    Holds (World.Has (· = l) kept) (host.setBounds component bounds) fun _ => True)
include hkeeps hwritable hbounds

/-- Placing an entry does not fail, whatever becomes of its component. -/
theorem placeEntry_finishes (grid : Grid) (handle : Nat) :
    Finishes (World.Has (· = l) kept) (placeEntry host grid handle) := by
  unfold placeEntry
  refine Finishes.layout.bind Holds.layout fun l' hl' => ?_
  obtain rfl : l = l' := hl'.symm
  split
  · exact .pure ()
  · rename_i entry hentry
    have htext := exists_entryText (hwritable entry (List.mem_of_find?_eq_some hentry))
    split
    · have hplaced := placed_holds hkeeps grid fun rect _ _ => hbounds entry.component rect
      refine (Finishes.outcome _).bind hplaced.outcome fun placed _ => ?_
      split
      · exact .pure ()
      · refine Finishes.layout.bind Holds.layout fun l' hl' => ?_
        obtain rfl : l = l' := hl'.symm
        rw [Entries.lastKnown?_of_get? hentry]
        exact noteText_finishes host htext _
    · exact noteText_finishes host htext _

theorem forM_placeEntry_finishes (grid : Grid) (handles : List Nat) :
    Finishes (World.Has (· = l) kept) (handles.forM (placeEntry host grid)) :=
  Finishes.forM handles
    (fun _ _ => placeEntry_holds hkeeps fun _ entry rect _ _ _ _ _ => hbounds entry.component rect)
    fun handle _ => placeEntry_finishes hkeeps hwritable hbounds grid handle

end

end Layout
end TrackGrid
