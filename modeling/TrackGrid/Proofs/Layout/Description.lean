import TrackGrid.Proofs.Constraint.Reading
import TrackGrid.Proofs.Layout.Table

/-! Descriptions read back: a layout made from the description of one that is reached has the same
tracks and the same named components. -/

namespace TrackGrid
namespace Layout

variable {κ : Type}

def described (name : κ → Option String) (component : κ) (constraint : Constraint) :
    Option DescribedItem :=
  (name component).map fun n =>
    ⟨some n, some (.text (String.ofList ([',', ' '].intercalate constraint.written)))⟩

private theorem describeEntry_eq (name : κ → Option String) {e : Entry κ}
    (h : e.constraint.Writable) :
    describeEntry name e = .ok (described name e.component e.constraint) := by
  unfold describeEntry described
  cases name e.component with
  | none => rfl
  | some n =>
    simp only [Constraint.text_eq h]
    rfl

private theorem describe_eq (name : κ → Option String) {l : Layout κ}
    (h : ∀ e ∈ l.entries.present, e.constraint.Writable) :
    l.describe (some name) = .ok ⟨some (l.tracks.columns.map Track.describe),
      some (l.tracks.rows.map Track.describe),
      some (l.entries.present.filterMap fun e => described name e.component e.constraint)⟩ := by
  have hitems : l.entries.present.mapM (describeEntry name) =
      .ok (l.entries.present.map fun e => described name e.component e.constraint) := by
    refine mapM_eq_ok_iff.mpr (List.forall₂_map_right_iff.mpr (List.forall₂_same.mpr ?_))
    exact fun e he => describeEntry_eq name (h e he)
  unfold describe
  simp only [hitems]
  change Except.ok _ = _
  rw [List.filterMap_map]
  rfl

/-- What is left out where components have no names is not described. -/
theorem filterMap_described (name : κ → Option String) {es es' : List (Entry κ)}
    (h : es'.map (fun e => (e.component, e.constraint)) =
      (es.filter fun e => (name e.component).isSome).map fun e => (e.component, e.constraint)) :
    es'.filterMap (fun e => described name e.component e.constraint) =
      es.filterMap fun e => described name e.component e.constraint := by
  have hpairs (xs : List (Entry κ)) :
      xs.filterMap (fun e => described name e.component e.constraint) =
        (xs.map fun e => (e.component, e.constraint)).filterMap fun p =>
          described name p.1 p.2 := by
    rw [List.filterMap_map]
    rfl
  rw [hpairs es', h, ← hpairs, List.filterMap_filter]
  refine List.filterMap_congr fun e _ => ?_
  unfold described
  cases name e.component <;> rfl

section
variable {m : Type → Type} [Monad m] [LawfulMonad m] [DecidableEq κ]
  (report : Notice κ → m Unit) {find : String → Option κ} {name : κ → Option String}

private theorem addDescribed_eq {l : Layout κ} {component : κ} {constraint : Constraint}
    {n : String}
    (habsent : l.entries.ofComponent? component = none) (hfind : find n = some component)
    (hnormal : constraint.Normal) (hwritable : constraint.Writable) :
    addDescribed report find l
        ⟨some n, some (.text (String.ofList ([',', ' '].intercalate constraint.written)))⟩ =
      pure (l.putEntries (l.entries.append component constraint)) := by
  have hread : Constraint.ofGiven
      (.text (String.ofList ([',', ' '].intercalate constraint.written))) = .ok constraint := by
    rw [Constraint.ofGiven, Constraint.ofText_written hwritable, hnormal.normalize_eq]
  unfold addDescribed DescribedItem.given
  simp only [Option.bind_some, Option.getD_some, hfind, add_of_absent habsent hread]
  exact pure_bind _ _

/-- Adding the described entries puts those that have names behind the ones that are there. -/
theorem foldlM_addDescribed {es : List (Entry κ)} {l : Layout κ} (hl : l.entries.Faithful)
    (hnormal : ∀ e ∈ es, e.constraint.Normal) (hwritable : ∀ e ∈ es, e.constraint.Writable)
    (hfind : ∀ e ∈ es, ∀ n, name e.component = some n → find n = some e.component)
    (hdistinct : (es.map Entry.component).Nodup)
    (habsent : ∀ e ∈ es, ∀ e' ∈ l.entries.present, e'.component ≠ e.component) :
    ∃ l', (es.filterMap fun e => described name e.component e.constraint).foldlM
        (addDescribed report find) l = pure l' ∧
      l'.tracks = l.tracks ∧
      l'.entries.present.map (fun e => (e.component, e.constraint)) =
        l.entries.present.map (fun e => (e.component, e.constraint)) ++
        (es.filter fun e => (name e.component).isSome).map fun e => (e.component, e.constraint) := by
  induction es generalizing l with
  | nil => exact ⟨l, rfl, rfl, (List.append_nil _).symm⟩
  | cons e es ih =>
    obtain ⟨hnormal, hnormals⟩ := List.forall_mem_cons.mp hnormal
    obtain ⟨hwritable, hwritables⟩ := List.forall_mem_cons.mp hwritable
    obtain ⟨hfind, hfinds⟩ := List.forall_mem_cons.mp hfind
    obtain ⟨habsent, habsents⟩ := List.forall_mem_cons.mp habsent
    obtain ⟨hnew, hdistinct⟩ := List.nodup_cons.mp hdistinct
    cases hname : name e.component with
    | none =>
      rw [List.filterMap_cons_none (by rw [described, hname, Option.map_none]),
        List.filter_cons_of_neg (by simp [hname])]
      exact ih hl hnormals hwritables hfinds hdistinct habsents
    | some n =>
      rw [List.filterMap_cons_some (by rw [described, hname, Option.map_some]),
        List.filter_cons_of_pos (by simp [hname]), List.foldlM_cons,
        addDescribed_eq report (hl.ofComponent?_eq_none_iff.mpr habsent) (hfind n hname) hnormal
          hwritable, pure_bind]
      have hrest : ∀ other ∈ es,
          ∀ e' ∈ (l.putEntries (l.entries.append e.component e.constraint)).entries.present,
            e'.component ≠ other.component := by
        intro other hother e' he'
        rcases List.mem_append.mp he' with he' | he'
        · exact habsents other hother e' he'
        · rw [List.mem_singleton.mp he']
          exact fun heq => hnew (heq ▸ List.mem_map_of_mem hother)
      obtain ⟨l', hrun, htracks, hentries⟩ := ih (l := l.putEntries _)
        (hl.append habsent hnormal) hnormals hwritables hfinds hdistinct hrest
      refine ⟨l', hrun, htracks, hentries.trans ?_⟩
      simp [putEntries]

/-- What a layout that is reached is described as can be made into a layout again, with any notion
`find` of which component has which name that takes the names of its components back. The new layout
has the same tracks and the components that have names, in their order and under their constraints,
and it is described alike. -/
theorem describe_inverse {σ : Type} {l : Layout κ} (hl : Reachable σ l)
    (hwritable : ∀ e ∈ l.entries.present, e.constraint.Writable)
    (hfind : ∀ e ∈ l.entries.present, ∀ n, name e.component = some n →
      find n = some e.component) :
    ∃ d, l.describe (some name) = .ok d ∧
      ∃ rebuilt, ofDescription report find d = pure rebuilt ∧
        rebuilt.tracks = l.tracks ∧
        rebuilt.entries.present.map (fun e => (e.component, e.constraint)) =
          (l.entries.present.filter fun e => (name e.component).isSome).map
            (fun e => (e.component, e.constraint)) ∧
        rebuilt.describe (some name) = .ok d := by
  have hfaithful := hl.faithful
  refine ⟨_, describe_eq name hwritable, ?_⟩
  have hmade : ofGiven (some (l.tracks.columns.map Track.describe))
      (some (l.tracks.rows.map Track.describe)) = .ok (ofTracks (κ := κ) l.tracks) := by
    rw [ofGiven, hl.clean.ofGiven_describe]
    rfl
  obtain ⟨rebuilt, hrun, htracks, hentries⟩ := foldlM_addDescribed report (l := ofTracks l.tracks)
    Entries.empty_faithful hfaithful.normal hwritable hfind hfaithful.distinct
    fun _ _ _ he' => nomatch he'
  simp only [ofTracks, Entries.empty, List.map_nil, List.nil_append] at htracks hentries
  refine ⟨rebuilt, ?_, htracks, hentries, ?_⟩
  · rw [ofDescription, hmade]
    exact (pure_bind _ _).trans hrun
  · have hkept : ∀ e ∈ rebuilt.entries.present, e.constraint.Writable := by
      intro e he
      have hpair : (e.component, e.constraint) ∈
          (l.entries.present.filter fun e => (name e.component).isSome).map
            fun e => (e.component, e.constraint) :=
        hentries ▸ List.mem_map_of_mem he
      obtain ⟨e', he', heq⟩ := List.mem_map.mp hpair
      rw [← (Prod.mk.inj heq).2]
      exact hwritable e' (List.mem_filter.mp he').1
    rw [describe_eq name hkept, htracks, filterMap_described name hentries]

end

private def deskTracks : Specification :=
  ⟨[.fill, .number (.int 10), .number (.float .half)], [.sizing .minimum]⟩

private def deskEntries : Entries Nat :=
  ((Entries.empty.append 7 (.single ⟨-1, 0⟩ ⟨.leading, .center⟩)).append 8
    (.single ⟨0, 0⟩ Constraint.fullAlign)).append 9 (.span ⟨⟨0, 2⟩, ⟨0, 0⟩⟩)

private def deskLayout : Layout Nat := (ofTracks deskTracks).putEntries deskEntries

private def deskName (component : Nat) : Option String :=
  if component = 8 then none else some (if component = 7 then "lamp" else "board")

private def deskFind (name : String) : Option Nat :=
  if name = "lamp" then some 7 else if name = "board" then some 9 else none

/-- The component in the middle has no name. -/
theorem deskLayout_inverse :
    ∃ d, deskLayout.describe (some deskName) = .ok d ∧
      ∃ rebuilt, ofDescription (m := Id) (fun _ => ()) deskFind d = pure rebuilt ∧
        rebuilt.tracks = deskTracks ∧
        rebuilt.entries.present.map (fun e => (e.component, e.constraint)) =
          [(7, .single ⟨-1, 0⟩ ⟨.leading, .center⟩), (9, .span ⟨⟨0, 2⟩, ⟨0, 0⟩⟩)] ∧
        rebuilt.describe (some deskName) = .ok d := by
  have hmade : ofGiven (κ := Nat)
      (some [.text " Fill", .number (.int 10), .number (.float .half)])
      (some [.text "minimum"]) = .ok (ofTracks deskTracks) := by decide +kernel
  have hreached : Reachable Unit deskLayout :=
    (((Reached.made hmade).append 7 (.single ⟨-1, 0⟩ ⟨.leading, .center⟩) rfl
      (by decide)).append 8 (.single ⟨0, 0⟩ Constraint.fullAlign) rfl (by decide)).append 9
      (.span ⟨⟨0, 2⟩, ⟨0, 0⟩⟩) rfl (by decide)
  refine describe_inverse (m := Id) (fun _ => ()) hreached (by decide) ?_
  intro e he n hn
  simp only [deskLayout, putEntries, deskEntries, Entries.append, Entries.empty, List.nil_append,
    List.cons_append, List.mem_cons, List.not_mem_nil, or_false] at he
  rcases he with rfl | rfl | rfl <;> cases hn <;> rfl

end Layout
end TrackGrid
