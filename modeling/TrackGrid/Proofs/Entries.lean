import Mathlib.Data.List.Nodup
import Mathlib.Data.List.Perm.Basic
import TrackGrid.Entries
import TrackGrid.Proofs.Constraint.Normal

/-! The entries as an ordered table. All that is done to a table keeps it faithful
(`Entries.Faithful.step`). -/

namespace TrackGrid

namespace Entries

variable {κ : Type}

/-- Handles in order and each given out once, one entry for each component, an index of just these
entries, and constraints in normal form. -/
structure Faithful (entries : Entries κ) : Prop where
  ascending : entries.handles.Pairwise (· < ·)
  issued : ((entries.present ++ entries.departed).map Entry.handle).Perm
    (List.range entries.nextHandle)
  distinct : (entries.present.map Entry.component).Nodup
  indexed : entries.index.Perm (entries.present.map fun e => (e.component, e.handle))
  normal : ∀ e ∈ entries.present, e.constraint.Normal

/-- One table comes after another. What left stays away, and an entry under a handle that had been
given out already was there before, under the same component. -/
structure Succeeds (old new : Entries κ) : Prop where
  next : old.nextHandle ≤ new.nextHandle
  departed : old.departed <:+ new.departed
  kept : ∀ e ∈ new.present, e.handle < old.nextHandle →
    ∃ e' ∈ old.present, e'.handle = e.handle ∧ e'.component = e.component

theorem Succeeds.refl (entries : Entries κ) : Succeeds entries entries :=
  ⟨le_rfl, List.suffix_rfl, fun e he _ => ⟨e, he, rfl, rfl⟩⟩

theorem Succeeds.trans {first second third : Entries κ} (h : Succeeds first second)
    (h' : Succeeds second third) : Succeeds first third := by
  refine ⟨h.next.trans h'.next, h.departed.trans h'.departed, fun e he hold => ?_⟩
  obtain ⟨e', he', hhandle, hcomponent⟩ := h'.kept e he (hold.trans_le h.next)
  obtain ⟨e'', he'', hhandle', hcomponent'⟩ := h.kept e' he' (by rwa [hhandle])
  exact ⟨e'', he'', hhandle'.trans hhandle, hcomponent'.trans hcomponent⟩

/-- Among elements with distinct keys, a key finds the element it belongs to. -/
theorem find?_key {α β : Type} [DecidableEq β] {f : α → β} {xs : List α}
    (h : (xs.map f).Nodup) {k : β} {x : α} :
    (xs.find? fun y => f y = k) = some x ↔ x ∈ xs ∧ f x = k := by
  constructor
  · intro hfind
    exact ⟨List.mem_of_find?_eq_some hfind, by simpa using List.find?_some hfind⟩
  · rintro ⟨hx, hk⟩
    cases hfind : xs.find? fun y => f y = k with
    | none =>
      exact absurd (decide_eq_true hk) (List.find?_eq_none.mp hfind x hx)
    | some y =>
      have hy : f y = k := by simpa using List.find?_some hfind
      rw [List.inj_on_of_nodup_map h (List.mem_of_find?_eq_some hfind) hx (hy.trans hk.symm)]

theorem lastKnown?_of_get? {entries : Entries κ} {handle : Nat} {e : Entry κ}
    (h : entries.get? handle = some e) : entries.lastKnown? handle = some e := by
  unfold get? at h
  unfold lastKnown?
  simp only [Int.ofNat_inj] at h
  rw [List.find?_append, h, Option.some_or]

namespace Faithful

variable {entries : Entries κ}

theorem handle_lt (h : entries.Faithful) {e : Entry κ} (he : e ∈ entries.present) :
    e.handle < entries.nextHandle :=
  List.mem_range.mp
    (h.issued.subset (List.mem_map_of_mem (List.mem_append_left entries.departed he)))

theorem eq_of_handle (h : entries.Faithful) {e e' : Entry κ} (he : e ∈ entries.present)
    (he' : e' ∈ entries.present) (hhandle : e.handle = e'.handle) : e = e' :=
  List.inj_on_of_nodup_map (h.ascending.imp fun hlt => hlt.ne) he he' hhandle

theorem eq_of_component (h : entries.Faithful) {e e' : Entry κ} (he : e ∈ entries.present)
    (he' : e' ∈ entries.present) (hcomponent : e.component = e'.component) : e = e' :=
  List.inj_on_of_nodup_map h.distinct he he' hcomponent

theorem get?_eq_some_iff (h : entries.Faithful) {handle : Int} {e : Entry κ} :
    entries.get? handle = some e ↔ e ∈ entries.present ∧ (e.handle : Int) = handle := by
  refine find?_key (f := fun e : Entry κ => (e.handle : Int)) ?_
  have hhandles : entries.handles.Nodup := h.ascending.imp fun hlt => hlt.ne
  have hcast := hhandles.map (f := fun n : Nat => (n : Int)) fun _ _ heq => Int.ofNat.inj heq
  rwa [handles, List.map_map] at hcast

theorem get?_handle (h : entries.Faithful) {e : Entry κ} (he : e ∈ entries.present) :
    entries.get? e.handle = some e :=
  h.get?_eq_some_iff.mpr ⟨he, rfl⟩

/-- No handle of an entry that is present belongs to one that left. -/
theorem handle_ne_departed (h : entries.Faithful) {e gone : Entry κ} (he : e ∈ entries.present)
    (hgone : gone ∈ entries.departed) : gone.handle ≠ e.handle := by
  have hnodup := h.issued.nodup_iff.mpr List.nodup_range
  rw [List.map_append] at hnodup
  exact fun heq => (List.nodup_append.mp hnodup).2.2 _ (List.mem_map_of_mem he) _
    (List.mem_map_of_mem hgone) heq.symm

variable [DecidableEq κ]

theorem handleOf?_eq_some_iff (h : entries.Faithful) {component : κ} {handle : Nat} :
    entries.handleOf? component = some handle ↔
      ∃ e ∈ entries.present, e.component = component ∧ e.handle = handle := by
  have hkeys : (entries.index.map Prod.fst).Nodup := by
    refine (h.indexed.map Prod.fst).nodup_iff.mpr ?_
    rw [List.map_map]
    exact h.distinct
  unfold handleOf?
  simp only [Option.map_eq_some_iff, find?_key hkeys, h.indexed.mem_iff, List.mem_map]
  constructor
  · rintro ⟨_, ⟨⟨e, he, rfl⟩, hcomponent⟩, hhandle⟩
    exact ⟨e, he, hcomponent, hhandle⟩
  · rintro ⟨e, he, hcomponent, hhandle⟩
    exact ⟨_, ⟨⟨e, he, rfl⟩, hcomponent⟩, hhandle⟩

theorem ofComponent?_eq_some_iff (h : entries.Faithful) {component : κ} {e : Entry κ} :
    entries.ofComponent? component = some e ↔ e ∈ entries.present ∧ e.component = component := by
  simp only [ofComponent?, Option.bind_eq_some_iff, h.handleOf?_eq_some_iff, h.get?_eq_some_iff]
  constructor
  · rintro ⟨handle, ⟨e', he', hcomponent, hhandle⟩, he, heq⟩
    obtain rfl := h.eq_of_handle he' he (hhandle.trans (Int.ofNat.inj heq).symm)
    exact ⟨he, hcomponent⟩
  · rintro ⟨he, hcomponent⟩
    exact ⟨e.handle, ⟨e, he, hcomponent, rfl⟩, he, rfl⟩

theorem ofComponent?_eq_none_iff (h : entries.Faithful) {component : κ} :
    entries.ofComponent? component = none ↔ ∀ e ∈ entries.present, e.component ≠ component := by
  rw [Option.eq_none_iff_forall_ne_some]
  constructor
  · intro hnone e he hcomponent
    exact hnone e (h.ofComponent?_eq_some_iff.mpr ⟨he, hcomponent⟩)
  · intro habsent e hsome
    obtain ⟨he, hcomponent⟩ := h.ofComponent?_eq_some_iff.mp hsome
    exact habsent e he hcomponent

end Faithful

theorem empty_faithful : (empty : Entries κ).Faithful :=
  ⟨.nil, .refl _, .nil, .refl _, fun _ he => nomatch he⟩

section Revised
variable {entries : Entries κ} {f : Entry κ → Entry κ}
  (hhandle : ∀ e, (f e).handle = e.handle) (hcomponent : ∀ e, (f e).component = e.component)
include hhandle hcomponent

/-- Changing nothing but constraints. -/
theorem Faithful.revise (h : entries.Faithful)
    (hnormal : ∀ e ∈ entries.present, (f e).constraint.Normal) :
    ({ entries with present := entries.present.map f } : Entries κ).Faithful := by
  have hhandles : (entries.present.map f).map Entry.handle = entries.handles := by
    rw [List.map_map]
    exact List.map_congr_left fun e _ => hhandle e
  have hcomponents : (entries.present.map f).map Entry.component =
      entries.present.map Entry.component := by
    rw [List.map_map]
    exact List.map_congr_left fun e _ => hcomponent e
  have hpairs : (entries.present.map f).map (fun e => (e.component, e.handle)) =
      entries.present.map fun e => (e.component, e.handle) := by
    rw [List.map_map]
    exact List.map_congr_left fun e _ => congrArg₂ Prod.mk (hcomponent e) (hhandle e)
  constructor
  · rw [handles, hhandles]
    exact h.ascending
  · rw [List.map_append, hhandles, handles, ← List.map_append]
    exact h.issued
  · rw [hcomponents]
    exact h.distinct
  · rw [hpairs]
    exact h.indexed
  · intro e he
    obtain ⟨e', he', rfl⟩ := List.mem_map.mp he
    exact hnormal e' he'

private theorem Succeeds.revise (entries : Entries κ) :
    Succeeds entries { entries with present := entries.present.map f } := by
  refine ⟨le_rfl, List.suffix_rfl, fun e he _ => ?_⟩
  obtain ⟨e', he', rfl⟩ := List.mem_map.mp he
  exact ⟨e', he', (hhandle e').symm, (hcomponent e').symm⟩

end Revised

private theorem constrained_handle (handle : Nat) (constraint : Constraint) (e : Entry κ) :
    (if e.handle = handle then { e with constraint := constraint } else e).handle = e.handle := by
  split <;> rfl

private theorem constrained_component (handle : Nat) (constraint : Constraint) (e : Entry κ) :
    (if e.handle = handle then { e with constraint := constraint } else e).component =
      e.component := by
  split <;> rfl

theorem handles_constrain (entries : Entries κ) (handle : Nat) (constraint : Constraint) :
    (entries.constrain handle constraint).handles = entries.handles := by
  unfold handles constrain
  rw [List.map_map]
  exact List.map_congr_left fun e _ => constrained_handle handle constraint e

section
variable {entries : Entries κ}

theorem Faithful.shift (h : entries.Faithful) (axis : Axis) (index delta : Int) :
    (entries.mapConstraints fun c => c.shift axis index delta).Faithful :=
  h.revise (fun _ => rfl) (fun _ => rfl) fun e _ => e.constraint.shift_normal axis index delta

theorem Faithful.constrain (h : entries.Faithful) (handle : Nat) {constraint : Constraint}
    (hnormal : constraint.Normal) : (entries.constrain handle constraint).Faithful := by
  refine h.revise (constrained_handle handle constraint) (constrained_component handle constraint)
    fun e he => ?_
  split
  · exact hnormal
  · exact h.normal e he

variable [DecidableEq κ]

theorem Faithful.append (h : entries.Faithful) {component : κ} {constraint : Constraint}
    (habsent : ∀ e ∈ entries.present, e.component ≠ component) (hnormal : constraint.Normal) :
    (entries.append component constraint).Faithful := by
  have hindex : (entries.index.filter fun pair => pair.1 ≠ component) = entries.index := by
    refine List.filter_eq_self.mpr fun pair hpair => decide_eq_true ?_
    obtain ⟨e, he, rfl⟩ := List.mem_map.mp (h.indexed.subset hpair)
    exact habsent e he
  constructor
  · simp only [handles, Entries.append, List.map_append, List.map_cons, List.map_nil]
    refine List.pairwise_append.mpr ⟨h.ascending, List.pairwise_singleton _ _, ?_⟩
    intro handle hhandle next hnext
    obtain ⟨e, he, rfl⟩ := List.mem_map.mp hhandle
    rw [List.mem_singleton.mp hnext]
    exact h.handle_lt he
  · simp only [Entries.append, List.append_assoc, List.map_append, List.map_cons, List.map_nil,
      List.range_succ]
    -- the new handle stands between those present and those that left
    refine (List.perm_append_left_iff _).mpr List.perm_append_comm |>.trans ?_
    rw [← List.append_assoc, ← List.map_append]
    exact h.issued.append_right _
  · simp only [Entries.append, List.map_append, List.map_cons, List.map_nil]
    refine List.nodup_append.mpr ⟨h.distinct, List.nodup_singleton _, ?_⟩
    intro other hother new hnew
    obtain ⟨e, he, rfl⟩ := List.mem_map.mp hother
    rw [List.mem_singleton.mp hnew]
    exact habsent e he
  · simp only [Entries.append, hindex, List.map_append, List.map_cons, List.map_nil]
    exact (h.indexed.cons _).trans (List.perm_append_singleton _ _).symm
  · intro e he
    rcases List.mem_append.mp he with he | he
    · exact h.normal e he
    · rw [List.mem_singleton.mp he]
      exact hnormal

theorem Succeeds.append (entries : Entries κ) (component : κ) (constraint : Constraint) :
    Succeeds entries (entries.append component constraint) := by
  refine ⟨Nat.le_succ _, List.suffix_rfl, fun e he hold => ?_⟩
  rcases List.mem_append.mp he with he | he
  · exact ⟨e, he, rfl, rfl⟩
  · rw [List.mem_singleton.mp he] at hold
    exact absurd hold (Nat.lt_irrefl _)

theorem Faithful.remove (h : entries.Faithful) (handle : Int) :
    (entries.remove handle).Faithful := by
  unfold Entries.remove
  cases hget : entries.get? handle with
  | none => exact h
  | some gone =>
    obtain ⟨hgone, -⟩ := h.get?_eq_some_iff.mp hget
    have hsub : (entries.present.filter fun e => e.handle ≠ gone.handle).Sublist entries.present :=
      List.filter_sublist
    have hpresent : entries.present.Nodup := h.distinct.of_map
    have hsplit : (gone :: entries.present.filter fun e => e.handle ≠ gone.handle).Perm
        entries.present := by
      refine (List.perm_ext_iff_of_nodup ?_ hpresent).mpr fun e => ?_
      · exact List.nodup_cons.mpr ⟨by simp, hpresent.sublist hsub⟩
      · simp only [List.mem_cons, List.mem_filter, ne_eq, decide_eq_true_eq]
        constructor
        · rintro (rfl | ⟨he, -⟩)
          · exact hgone
          · exact he
        · intro he
          by_cases hhandle : e.handle = gone.handle
          · exact .inl (h.eq_of_handle he hgone hhandle)
          · exact .inr ⟨he, hhandle⟩
    constructor
    · exact h.ascending.sublist (hsub.map _)
    · exact ((List.perm_middle.trans (hsplit.append_right _)).map _).trans h.issued
    · exact h.distinct.sublist (hsub.map _)
    · refine (h.indexed.filter _).trans ?_
      rw [List.filter_map]
      refine .of_eq (congrArg _ (List.filter_congr fun e he => decide_eq_decide.mpr ?_))
      refine not_congr ⟨fun hcomponent => ?_, fun hhandle => ?_⟩
      · rw [h.eq_of_component he hgone hcomponent]
      · rw [h.eq_of_handle he hgone hhandle]
    · exact fun e he => h.normal e (hsub.subset he)

theorem Succeeds.remove (entries : Entries κ) (handle : Int) :
    Succeeds entries (entries.remove handle) := by
  unfold Entries.remove
  cases entries.get? handle with
  | none => exact .refl entries
  | some gone =>
    exact ⟨le_rfl, List.suffix_cons _ _, fun e he _ => ⟨e, (List.mem_filter.mp he).1, rfl, rfl⟩⟩

end

section
variable [DecidableEq κ] {entries : Entries κ}

/-- The entry of a component has the constraint, and every other entry is what it was. -/
structure Stores (old : Entries κ) (component : κ) (constraint : Constraint) (handle : Nat)
    (new : Entries κ) : Prop where
  stored : new.ofComponent? component = some ⟨handle, component, constraint⟩
  others : ∀ other, other ≠ component → new.ofComponent? other = old.ofComponent? other

theorem Faithful.constrain_stores (h : entries.Faithful) {e : Entry κ} (he : e ∈ entries.present)
    {constraint : Constraint} (hnormal : constraint.Normal) :
    Stores entries e.component constraint e.handle (entries.constrain e.handle constraint) := by
  have hnew := h.constrain e.handle hnormal
  constructor
  · refine hnew.ofComponent?_eq_some_iff.mpr ⟨?_, rfl⟩
    exact List.mem_map.mpr ⟨e, he, if_pos rfl⟩
  · intro other hother
    have hrest (e' : Entry κ) (he' : e' ∈ entries.present) (hcomponent : e'.component = other) :
        e'.handle ≠ e.handle := by
      intro hhandle
      rw [h.eq_of_handle he' he hhandle] at hcomponent
      exact hother hcomponent.symm
    refine Option.ext fun e' => ?_
    rw [hnew.ofComponent?_eq_some_iff, h.ofComponent?_eq_some_iff]
    constructor
    · rintro ⟨he', hcomponent⟩
      obtain ⟨before, hbefore, rfl⟩ := List.mem_map.mp he'
      rw [constrained_component] at hcomponent
      rw [if_neg (hrest before hbefore hcomponent)]
      exact ⟨hbefore, hcomponent⟩
    · rintro ⟨he', hcomponent⟩
      exact ⟨List.mem_map.mpr ⟨e', he', if_neg (hrest e' he' hcomponent)⟩, hcomponent⟩

private theorem Faithful.append_stores (h : entries.Faithful) {component : κ}
    {constraint : Constraint}
    (habsent : ∀ e ∈ entries.present, e.component ≠ component) (hnormal : constraint.Normal) :
    Stores entries component constraint entries.nextHandle
      (entries.append component constraint) := by
  have hnew := h.append habsent hnormal
  constructor
  · refine hnew.ofComponent?_eq_some_iff.mpr ⟨?_, rfl⟩
    exact List.mem_append_right _ (List.mem_singleton_self _)
  · intro other hother
    refine Option.ext fun e => ?_
    rw [hnew.ofComponent?_eq_some_iff, h.ofComponent?_eq_some_iff]
    constructor
    · rintro ⟨he, hcomponent⟩
      rcases List.mem_append.mp he with he | he
      · exact ⟨he, hcomponent⟩
      · rw [List.mem_singleton.mp he] at hcomponent
        exact absurd hcomponent.symm hother
    · rintro ⟨he, hcomponent⟩
      exact ⟨List.mem_append_left _ he, hcomponent⟩

/-- Adding stores the constraint. A component that is present keeps its handle and its place, and
another one comes last under the next handle. -/
theorem Faithful.add_stores (h : entries.Faithful) (component : κ) {constraint : Constraint}
    (hnormal : constraint.Normal) {handle : Nat} {new : Entries κ}
    (hadd : entries.add component constraint = (handle, new)) :
    Stores entries component constraint handle new ∧
      match entries.ofComponent? component with
      | some e => handle = e.handle ∧ new.handles = entries.handles
      | none => handle = entries.nextHandle ∧ new.handles = entries.handles ++ [handle] := by
  unfold add at hadd
  cases hfind : entries.ofComponent? component with
  | some e =>
    rw [hfind] at hadd
    obtain ⟨rfl, rfl⟩ := Prod.mk.inj hadd
    obtain ⟨he, rfl⟩ := h.ofComponent?_eq_some_iff.mp hfind
    exact ⟨h.constrain_stores he hnormal, rfl, handles_constrain entries e.handle constraint⟩
  | none =>
    rw [hfind] at hadd
    obtain ⟨rfl, rfl⟩ := Prod.mk.inj hadd
    refine ⟨h.append_stores (h.ofComponent?_eq_none_iff.mp hfind) hnormal, rfl, ?_⟩
    rw [handles, Entries.append, List.map_append]
    rfl

end

inductive Step [DecidableEq κ] : Entries κ → Entries κ → Prop
  | refl (entries : Entries κ) : Step entries entries
  | shift (entries : Entries κ) (axis : Axis) (index delta : Int) :
      Step entries (entries.mapConstraints fun c => c.shift axis index delta)
  | add (entries : Entries κ) (component : κ) {constraint : Constraint} (h : constraint.Normal) :
      Step entries (entries.add component constraint).2
  | constrain (entries : Entries κ) (handle : Nat) {constraint : Constraint}
      (h : constraint.Normal) : Step entries (entries.constrain handle constraint)
  | remove (entries : Entries κ) (handle : Int) : Step entries (entries.remove handle)

section
variable [DecidableEq κ] {entries entries' : Entries κ}

theorem Faithful.step (h : entries.Faithful) (hstep : Step entries entries') :
    entries'.Faithful := by
  cases hstep with
  | refl => exact h
  | shift axis index delta => exact h.shift axis index delta
  | add component hnormal =>
    unfold add
    cases hfind : entries.ofComponent? component with
    | none => exact h.append (h.ofComponent?_eq_none_iff.mp hfind) hnormal
    | some e => exact h.constrain e.handle hnormal
  | constrain handle hnormal => exact h.constrain handle hnormal
  | remove handle => exact h.remove handle

theorem Step.succeeds (hstep : Step entries entries') : Succeeds entries entries' := by
  have hconstrain (handle : Nat) (constraint : Constraint) :
      Succeeds entries (entries.constrain handle constraint) :=
    .revise (constrained_handle handle constraint) (constrained_component handle constraint) entries
  cases hstep with
  | refl => exact .refl entries
  | shift axis index delta =>
    exact .revise (f := fun e => { e with constraint := e.constraint.shift axis index delta })
      (fun _ => rfl) (fun _ => rfl) entries
  | @add component constraint =>
    unfold Entries.add
    cases entries.ofComponent? component with
    | none => exact .append entries component constraint
    | some e => exact hconstrain e.handle constraint
  | @constrain handle constraint => exact hconstrain handle constraint
  | remove handle => exact .remove entries handle

/-- What leaves at a step was present before, and none of its component is present after. -/
theorem Faithful.departed_step (h : entries.Faithful) (hstep : Step entries entries')
    {gone : Entry κ} (hgone : gone ∈ entries'.departed) :
    gone ∈ entries.departed ∨
      gone ∈ entries.present ∧ ∀ e ∈ entries'.present, e.component ≠ gone.component := by
  cases hstep with
  | refl => exact .inl hgone
  | shift => exact .inl hgone
  | add component hnormal =>
    unfold add at hgone
    cases hfind : entries.ofComponent? component <;> rw [hfind] at hgone <;> exact .inl hgone
  | constrain => exact .inl hgone
  | remove handle =>
    unfold Entries.remove at hgone ⊢
    cases hget : entries.get? handle with
    | none =>
      rw [hget] at hgone
      exact .inl hgone
    | some left =>
      rw [hget] at hgone
      obtain ⟨hleft, -⟩ := h.get?_eq_some_iff.mp hget
      rcases List.mem_cons.mp hgone with rfl | hgone
      · refine .inr ⟨hleft, fun e he hcomponent => ?_⟩
        obtain ⟨he, hhandle⟩ := List.mem_filter.mp he
        rw [h.eq_of_component he hleft hcomponent] at hhandle
        simp at hhandle
      · exact .inl hgone

end
end Entries
end TrackGrid
