import TrackGrid.Proofs.Layout.Run

/-! The entries of a layout over whole runs: a faithful table that comes after the one the run began
with. -/

namespace TrackGrid

variable {κ σ α : Type} [DecidableEq κ]

namespace Layout

variable {l : Layout κ}

theorem add_of_absent {component : κ} {given : GivenConstraint} {constraint : Constraint}
    (habsent : l.entries.ofComponent? component = none)
    (hgiven : Constraint.ofGiven given = .ok constraint) :
    l.add component given =
      .ok (l.entries.nextHandle, l.putEntries (l.entries.append component constraint)) := by
  simp only [add, hgiven, Entries.add, habsent]
  rfl

theorem Reached.append {solves : Layout κ → Frame → Grid → Prop} (h : Reached solves l)
    (component : κ) (constraint : Constraint)
    (habsent : l.entries.ofComponent? component = none) (hnormal : constraint.Normal) :
    Reached solves (l.putEntries (l.entries.append component constraint)) := by
  have hgiven : Constraint.ofGiven (.constraint constraint) = .ok constraint :=
    congrArg Except.ok hnormal.normalize_eq
  exact .change h (.add (add_of_absent habsent hgiven))

/-- Adding stores the constraint that is given. -/
theorem add_stores (h : l.entries.Faithful) (component : κ) {given : GivenConstraint}
    {constraint : Constraint} (hgiven : Constraint.ofGiven given = .ok constraint) :
    ∃ handle l', l.add component given = .ok (handle, l') ∧
      l.entries.Stores component constraint handle l'.entries ∧
      match l.entries.ofComponent? component with
      | some e => handle = e.handle ∧ l'.entries.handles = l.entries.handles
      | none => handle = l.entries.nextHandle ∧
          l'.entries.handles = l.entries.handles ++ [handle] := by
  have hadd : l.add component given = .ok ((l.entries.add component constraint).1,
      l.putEntries (l.entries.add component constraint).2) := by
    rw [add, hgiven]
    rfl
  exact ⟨_, _, hadd, h.add_stores component (Constraint.ofGiven_normal hgiven) rfl⟩

/-- Setting a constraint stores it if the component is present, and does nothing otherwise. -/
theorem setConstraint_stores (h : l.entries.Faithful) (component : κ) {given : GivenConstraint}
    {constraint : Constraint} (hgiven : Constraint.ofGiven given = .ok constraint) :
    ∃ l', l.setConstraint component given = .ok l' ∧
      match l.entries.ofComponent? component with
      | some e => l.entries.Stores component constraint e.handle l'.entries ∧
          l'.entries.handles = l.entries.handles
      | none => l' = l := by
  unfold setConstraint
  rw [hgiven]
  cases hfind : l.entries.ofComponent? component with
  | none => exact ⟨l, rfl, rfl⟩
  | some e =>
    obtain ⟨he, rfl⟩ := h.ofComponent?_eq_some_iff.mp hfind
    exact ⟨_, rfl, h.constrain_stores he (Constraint.ofGiven_normal hgiven),
      Entries.handles_constrain l.entries e.handle constraint⟩

/-- The entries over whole runs, callbacks that change the layout in the middle of a pass included.
The table stays faithful and comes after the one before, its index and its entries lead to each
other, and adding and setting store the constraint in normal form for one component only. -/
theorem run_table {x : Act κ σ α} {w after : World κ σ} (hw : Reachable σ w.layout)
    (hx : Orderly (fun _ => True) (fun _ => True) x) (hafter : (x.run.run w).2 = after) :
    after.layout.entries.Faithful ∧ w.layout.entries.Succeeds after.layout.entries ∧
    (∀ e, after.layout.entries.ofComponent? e.component = some e ↔
      e ∈ after.layout.entries.present) ∧
    (∀ component handle, after.layout.entries.handleOf? component = some handle →
      ∃ e, after.layout.entries.get? handle = some e ∧ e.component = component) ∧
    (∀ handle ∈ after.layout.entries.handles, handle < after.layout.entries.nextHandle) ∧
    ∀ component given,
      (∀ fault, Constraint.ofGiven given = .error fault →
        after.layout.add component given = .error fault ∧
        after.layout.setConstraint component given = .error fault) ∧
      ∀ constraint, Constraint.ofGiven given = .ok constraint → constraint.Normal ∧
        (∃ handle l', after.layout.add component given = .ok (handle, l') ∧
          after.layout.entries.Stores component constraint handle l'.entries ∧
          match after.layout.entries.ofComponent? component with
          | some e => handle = e.handle ∧ l'.entries.handles = after.layout.entries.handles
          | none => handle = after.layout.entries.nextHandle ∧
              l'.entries.handles = after.layout.entries.handles ++ [handle]) ∧
        ∃ l', after.layout.setConstraint component given = .ok l' ∧
          match after.layout.entries.ofComponent? component with
          | some e => after.layout.entries.Stores component constraint e.handle l'.entries ∧
              l'.entries.handles = after.layout.entries.handles
          | none => l' = after.layout := by
  have hkeeps (host : Host κ σ) (_ : True) : host.Keeps fun _ => True := .always host
  obtain ⟨⟨hreached, -⟩, -⟩ := hx.holds hkeeps w ⟨hw, trivial⟩
  have hsucceeds := hx.keeps (P := fun l => w.layout.entries.Succeeds l.entries) hkeeps
    (fun _ _ hl hc => hl.trans hc.entries.succeeds) fun _ _ _ hl _ => hl
  obtain ⟨⟨hafterwards, -⟩, -⟩ := hsucceeds w ⟨.refl _, trivial⟩
  rw [hafter] at hreached hafterwards
  have hfaithful := hreached.faithful
  refine ⟨hfaithful, hafterwards, fun e => ?_, fun component handle hindex => ?_,
    fun handle hhandle => ?_, fun component given => ⟨fun fault hgiven => ?_,
    fun constraint hgiven => ⟨Constraint.ofGiven_normal hgiven, ?_, ?_⟩⟩⟩
  · rw [hfaithful.ofComponent?_eq_some_iff, and_iff_left rfl]
  · obtain ⟨e, he, hcomponent, rfl⟩ := hfaithful.handleOf?_eq_some_iff.mp hindex
    exact ⟨e, hfaithful.get?_handle he, hcomponent⟩
  · obtain ⟨e, he, rfl⟩ := List.mem_map.mp hhandle
    exact hfaithful.handle_lt he
  · simp only [add, setConstraint, hgiven]
    exact ⟨rfl, rfl⟩
  · exact add_stores hfaithful component hgiven
  · exact setConstraint_stores hfaithful component hgiven

private def swapTracks : Specification := ⟨[.fill, .sizing .preferred], [.fill]⟩

private def swapLayout : Layout Bool :=
  ((ofTracks swapTracks).putEntries
    (Entries.empty.append false (.single ⟨0, 0⟩ Constraint.fullAlign))).putEntries
    ((Entries.empty.append false (.single ⟨0, 0⟩ Constraint.fullAlign)).append true
      (.single ⟨1, 0⟩ Constraint.fullAlign))

/-- Placing the first component takes it out and puts it back over both columns, with rows that are
out of order. -/
private def swapHost : Host Bool Unit where
  preferredSize _ := pure (some ⟨4, 3⟩)
  minimumSize _ := pure none
  setBounds component _ :=
    if component then pure ()
    else do
      Act.change fun l => l.removeComponent false
      Act.change fun l => match l.add false (.constraint (.span ⟨⟨0, 1⟩, ⟨0, -1⟩⟩)) with
        | .ok (_, l') => l'
        | .error _ => l
  gridSolved _ := pure ()
  report _ := pure ()

theorem swapLayout_table :
    let after := ((arrange swapHost ⟨⟨21, 10⟩, .zero⟩).run.run ⟨swapLayout, ()⟩).2
    after.layout.entries.present = [⟨1, true, .single ⟨1, 0⟩ Constraint.fullAlign⟩,
      ⟨2, false, .span ⟨⟨0, 1⟩, ⟨0, 0⟩⟩⟩] ∧
    after.layout.entries.Faithful ∧ swapLayout.entries.Succeeds after.layout.entries := by
  have hmade : ofGiven (κ := Bool) (some [.sizing .fill, .sizing .preferred])
      (some [.sizing .fill]) = .ok (ofTracks swapTracks) := rfl
  have hreached : Reachable Unit swapLayout :=
    ((Reached.made hmade).append false (.single ⟨0, 0⟩ Constraint.fullAlign) rfl
      (by decide)).append true (.single ⟨1, 0⟩ Constraint.fullAlign) rfl (by decide)
  have horderly : Orderly (fun _ => True) (fun _ => True)
      (arrange swapHost ⟨⟨21, 10⟩, .zero⟩) := by
    refine .arrange trivial (fun _ => .step fun w _ => ⟨trivial, .inl rfl⟩) (fun c _ => ?_) _
    cases c with
    | true => exact .step fun w _ => ⟨trivial, .inl rfl⟩
    | false =>
      refine .bind (.step fun w _ => ⟨trivial, .inr (.removeComponent w.layout false)⟩) fun _ => ?_
      refine .step fun w _ => ⟨trivial, .inr ?_⟩
      have hback : w.layout.add false (.constraint (.span ⟨⟨0, 1⟩, ⟨0, -1⟩⟩)) =
          .ok ((w.layout.entries.add false (.span ⟨⟨0, 1⟩, ⟨0, 0⟩⟩)).1,
            w.layout.putEntries (w.layout.entries.add false (.span ⟨⟨0, 1⟩, ⟨0, 0⟩⟩)).2) := rfl
      exact .add hback
  have hrun := run_table (w := ⟨swapLayout, ()⟩) hreached horderly rfl
  exact ⟨rfl, hrun.1, hrun.2.1⟩

end Layout

end TrackGrid
