import TrackGrid.Proofs.Layout.Coherence

/-! The journal of a pass: the calls of the components and the notices, in their order. -/

namespace TrackGrid

variable {κ σ : Type}

/-- The written form of an entry tells its handle. -/
theorem Entry.handle_eq_of_text {e f : Entry κ} {text : String} (he : e.text = .ok text)
    (hf : f.text = .ok text) : e.handle = f.handle := by
  have hform {e : Entry κ} (he : e.text = .ok text) : ∃ rest,
      text.toList = "TableEntry (".toList ++ (Nat.toDigits 10 e.handle ++ ':' :: rest) := by
    obtain ⟨constraint, -, htext⟩ := bind_eq_ok_iff.mp he
    obtain rfl := pure_eq_ok_iff.mp htext
    refine ⟨' ' :: constraint.toList ++ [')'], ?_⟩
    change ("TableEntry (" ++ toString e.handle ++ ": " ++ constraint ++ ")").toList = _
    simp [String.toList_append]
  -- the digits of the handle end at the colon
  have hdigits (n : Nat) (rest : List Char) :
      (Nat.toDigits 10 n ++ ':' :: rest).takeWhile Char.isDigit = Nat.toDigits 10 n := by
    have hall : ∀ c ∈ Nat.toDigits 10 n, Char.isDigit c = true :=
      fun c hc => Text.isDigit_of_mem_digitsOfNat hc
    rw [List.takeWhile_append_of_pos hall, List.takeWhile_cons_of_neg (by decide), List.append_nil]
  obtain ⟨rest, hrest⟩ := hform he
  obtain ⟨rest', hrest'⟩ := hform hf
  have hsame := congrArg (List.takeWhile Char.isDigit)
    (List.append_cancel_left (hrest.symm.trans hrest'))
  rw [hdigits, hdigits] at hsame
  rw [← Text.natOfDigits_digitsOfNat e.handle, ← Text.natOfDigits_digitsOfNat f.handle]
  exact congrArg Text.natOfDigits hsame

inductive Event (κ : Type) where
  | call (component : κ) (bounds : Rect)
  | notice (notice : Notice κ)
  deriving DecidableEq

namespace Event

/-- An event of the placement of an entry: the call of its component or notice that it failed. -/
def Places (event : Event κ) (e : Entry κ) : Prop :=
  match event with
  | .call component _ => component = e.component
  | .notice (.placementFailed text _) => e.text = .ok text
  | .notice _ => False

def IsQuery (event : Event κ) : Prop :=
  ∃ component fault, event = .notice (.queryFailed component fault)

theorem IsQuery.not_places {event : Event κ} (h : event.IsQuery) (e : Entry κ) :
    ¬ event.Places e := by
  obtain ⟨component, fault, rfl⟩ := h
  exact not_false

/-- No event belongs to the placement of two entries. -/
theorem Places.unique {event : Event κ} {entries : Entries κ} (hfaithful : entries.Faithful)
    {e f : Entry κ} (he : e ∈ entries.present) (hf : f ∈ entries.present)
    (hplaces : event.Places e) (hplaces' : event.Places f) : e = f := by
  match event with
  | .call component bounds => exact hfaithful.eq_of_component he hf (hplaces.symm.trans hplaces')
  | .notice (.placementFailed text fault) =>
    exact hfaithful.eq_of_handle he hf (Entry.handle_eq_of_text hplaces hplaces')

end Event

def Host.journaled (host : Host κ σ) : Host κ (σ × List (Event κ)) :=
  { host.noting (fun call events => events ++ [.call call.component call.bounds])
      fun _ events => events with
    report := fun notice s =>
      ((), (((host.report notice).run s.1).2, s.2 ++ [.notice notice])) }

theorem Host.journaled_same (host : Host κ σ) :
    host.journaled.Same (fun s (t : σ) => s.1 = t) host := by
  have hnoting : (host.noting (fun call events => events ++ [Event.call call.component call.bounds])
      fun _ events => events).Same (fun s (t : σ) => s.1 = t) host := host.noting_same
  refine { hnoting with report := ?_ }
  rintro _ s _ rfl
  rfl

/-- The events of a pass when it comes to an entry, and whether it goes on. It places an entry in
the grid, and skips one outside of it, which stops the pass if the entry cannot be written. -/
inductive Meets (grid : Grid) (e : Entry κ) : List (Event κ) → Except Fault Unit → Prop
  | placed {events : List (Event κ)} (hwithin : e.constraint.within grid.counts = true)
      (hsome : events ≠ []) (hplaces : ∀ event ∈ events, event.Places e) :
      Meets grid e events (.ok ())
  | skipped {text : String} (hhidden : e.constraint.within grid.counts = false)
      (htext : e.text = .ok text) : Meets grid e [.notice (.entryHidden text)] (.ok ())
  | stopped {fault : Fault} (hhidden : e.constraint.within grid.counts = false)
      (htext : e.text = .error fault) : Meets grid e [] (.error fault)

inductive Course (grid : Grid) : List (Entry κ) → List (Event κ) → Except Fault Unit → Prop
  | done : Course grid [] [] (.ok ())
  | next {e : Entry κ} {es : List (Entry κ)} {events rest : List (Event κ)}
      {out : Except Fault Unit} (h : Meets grid e events (.ok ())) (hrest : Course grid es rest out) :
      Course grid (e :: es) (events ++ rest) out
  | stop {e : Entry κ} {es : List (Entry κ)} {events : List (Event κ)} {fault : Fault}
      (h : Meets grid e events (.error fault)) : Course grid (e :: es) events (.error fault)

section
variable {grid : Grid} {e : Entry κ} {es : List (Entry κ)} {events : List (Event κ)}
  {out : Except Fault Unit}

/-- What is placed lies in the grid. -/
theorem Meets.within (h : Meets grid e events out) {event : Event κ} (hevent : event ∈ events)
    {f : Entry κ} (hplaces : event.Places f) :
    e.constraint.within grid.counts = true ∧ event.Places e := by
  cases h with
  | placed hwithin _ hown => exact ⟨hwithin, hown event hevent⟩
  | skipped =>
    obtain rfl := List.mem_singleton.mp hevent
    exact hplaces.elim
  | stopped => cases hevent

namespace Course

theorem exists_within (h : Course grid es events out) {event : Event κ} (hevent : event ∈ events)
    {f : Entry κ} (hplaces : event.Places f) :
    ∃ e ∈ es, e.constraint.within grid.counts = true ∧ event.Places e := by
  induction h with
  | done => cases hevent
  | @next e _ _ _ _ hmeets _ ih =>
    rcases List.mem_append.mp hevent with hevent | hevent
    · exact ⟨e, List.mem_cons_self, hmeets.within hevent hplaces⟩
    · obtain ⟨e', he', hfound⟩ := ih hevent
      exact ⟨e', List.mem_cons_of_mem _ he', hfound⟩
  | @stop e _ _ _ hmeets => exact ⟨e, List.mem_cons_self, hmeets.within hevent hplaces⟩

/-- A pass along entries in the grid comes to its end and to the placement of each. -/
theorem places (h : Course grid es events out)
    (hwithin : ∀ e ∈ es, e.constraint.within grid.counts = true) :
    out = .ok () ∧ (∀ e ∈ es, ∃ event ∈ events, event.Places e) ∧
      ∀ event ∈ events, ∃ e ∈ es, event.Places e := by
  induction h with
  | done => exact ⟨rfl, List.forall_mem_nil _, List.forall_mem_nil _⟩
  | next hmeets _ ih =>
    obtain ⟨hfirst, hothers⟩ := List.forall_mem_cons.mp hwithin
    cases hmeets with
    | placed _ hsome hplaces =>
      obtain ⟨hout, hall, hown⟩ := ih hothers
      obtain ⟨event, hevent⟩ := List.exists_mem_of_ne_nil _ hsome
      refine ⟨hout, List.forall_mem_cons.mpr ⟨⟨event, List.mem_append_left _ hevent,
        hplaces event hevent⟩, fun e he => ?_⟩, fun event hevent => ?_⟩
      · obtain ⟨event, hevent, hplaced⟩ := hall e he
        exact ⟨event, List.mem_append_right _ hevent, hplaced⟩
      · rcases List.mem_append.mp hevent with hevent | hevent
        · exact ⟨_, List.mem_cons_self, hplaces event hevent⟩
        · obtain ⟨e, he, hplaced⟩ := hown event hevent
          exact ⟨e, List.mem_cons_of_mem _ he, hplaced⟩
    | skipped hhidden =>
      rw [hfirst] at hhidden
      cases hhidden
  | stop hmeets =>
    cases hmeets with
    | stopped hhidden =>
      rw [hwithin _ List.mem_cons_self] at hhidden
      cases hhidden

/-- A pass along entries of which one lies outside of the grid skips such an entry. -/
theorem exists_skipped (h : Course grid es events out)
    (hhidden : ∃ e ∈ es, e.constraint.within grid.counts = false) :
    ∃ e ∈ es, e.constraint.within grid.counts = false ∧
      ((∃ text, e.text = .ok text ∧ .notice (.entryHidden text) ∈ events) ∨
        ∃ fault, e.text = .error fault ∧ out = .error fault) := by
  induction h with
  | done =>
    obtain ⟨e, he, -⟩ := hhidden
    cases he
  | next hmeets _ ih =>
    cases hmeets with
    | placed hwithin =>
      obtain ⟨e, he, hhidden⟩ := hhidden
      rcases List.mem_cons.mp he with rfl | he
      · rw [hwithin] at hhidden
        cases hhidden
      · obtain ⟨e', he', hhidden', hskipped⟩ := ih ⟨e, he, hhidden⟩
        refine ⟨e', List.mem_cons_of_mem _ he', hhidden', hskipped.imp_left ?_⟩
        rintro ⟨text, htext, hevent⟩
        exact ⟨text, htext, List.mem_append_right _ hevent⟩
    | skipped hfirst htext =>
      exact ⟨_, List.mem_cons_self, hfirst, .inl ⟨_, htext, List.mem_append_left _ List.mem_cons_self⟩⟩
  | stop hmeets =>
    cases hmeets with
    | stopped hfirst htext => exact ⟨_, List.mem_cons_self, hfirst, .inr ⟨_, htext, rfl⟩⟩

end Course
end

namespace Layout

variable {host : Host κ σ} {grid : Grid} {e : Entry κ} {out : Except Fault Unit}
  {w v : World κ (σ × List (Event κ))}

private theorem boundsOn_journaled (host : Host κ σ) (grid : Grid) (e : Entry κ)
    (s : σ × List (Event κ)) :
    ((boundsOn host.journaled grid e.constraint e.component).run.run s).2.2 = s.2 := by
  -- finding a place reports nothing, so it does not matter that notices are noted too
  have hnoting : ((boundsOn (host.noting (fun _ (events : List (Event κ)) => events)
      fun _ events => events) grid e.constraint e.component).run.run s).2.2 = s.2 :=
    (host.boundsOn_noting grid e.constraint e.component s).2
  exact hnoting

private theorem run_setBounds_journaled (host : Host κ σ) (component : κ) (bounds : Rect)
    (w : World κ (σ × List (Event κ))) :
    (host.journaled.setBounds component bounds).run.run w =
      let (result, v) := (host.setBounds component bounds).run.run ⟨w.layout, w.around.1⟩
      (result, ⟨v.layout, (v.around, w.around.2 ++ [.call component bounds])⟩) :=
  rfl

private theorem noteText_journaled {text : Except Fault String} {notice : String → Notice κ}
    (h : (do
      let text ← Act.around (calculate text)
      Act.around (host.journaled.notify (notice text))).run.run w = (out, v)) :
    v.layout = w.layout ∧
    (∀ t, text = .ok t → out = .ok () ∧ v.around.2 = w.around.2 ++ [.notice (notice t)]) ∧
    (∀ fault, text = .error fault → out = .error fault ∧ v.around.2 = w.around.2) := by
  cases text with
  | error fault =>
    cases h
    exact ⟨rfl, nofun, fun _ heq => by cases heq; exact ⟨rfl, rfl⟩⟩
  | ok t =>
    cases h
    exact ⟨rfl, fun _ heq => by cases heq; exact ⟨rfl, rfl⟩, nofun⟩

private theorem hidden_meets (hhidden : e.constraint.within grid.counts = false)
    (h : (do
      let text ← Act.around (calculate e.text)
      Act.around (host.journaled.notify (.entryHidden text))).run.run w = (out, v)) :
    v.layout = w.layout ∧
      ∃ events, v.around.2 = w.around.2 ++ events ∧ Meets grid e events out := by
  obtain ⟨hlayout, hnote, hfault⟩ := noteText_journaled h
  refine ⟨hlayout, ?_⟩
  cases htext : e.text with
  | ok text =>
    obtain ⟨rfl, hnoted⟩ := hnote text htext
    exact ⟨_, hnoted, .skipped hhidden htext⟩
  | error fault =>
    obtain ⟨rfl, hnoted⟩ := hfault fault htext
    exact ⟨[], hnoted.trans (List.append_nil _).symm, .stopped hhidden htext⟩

section
variable (hsilent : ∀ component bounds, (host.setBounds component bounds).Silent fun _ => True)
include hsilent

private theorem placed_journaled {u : World κ (σ × List (Event κ))} {result : Except Fault Unit}
    (h : (do
      let bounds ← Act.around (boundsOn host.journaled grid e.constraint e.component)
      host.journaled.setBounds e.component bounds).run.run w = (result, u)) :
    u.layout = w.layout ∧ ∃ events, u.around.2 = w.around.2 ++ events ∧
      (∀ event ∈ events, event.Places e) ∧ (result = .ok () → events ≠ []) := by
  rw [run_bind, Act.run_around] at h
  have hnotes := boundsOn_journaled host grid e w.around
  rcases hrun : (boundsOn host.journaled grid e.constraint e.component).run.run w.around
    with ⟨fault | bounds, s⟩ <;> rw [hrun] at h hnotes
  · cases h
    exact ⟨rfl, [], hnotes.trans (List.append_nil _).symm, List.forall_mem_nil _, nofun⟩
  · obtain ⟨hlayout, -⟩ := hsilent e.component bounds ⟨w.layout, s.1⟩ trivial
    dsimp only at h hnotes
    rw [run_setBounds_journaled] at h
    cases h
    exact ⟨hlayout, _, congrArg (· ++ _) hnotes,
      fun event hevent => by rw [List.mem_singleton.mp hevent]; rfl, fun _ => List.cons_ne_nil _ _⟩

/-- What happens when a pass comes to the handle of an entry. -/
theorem placeEntry_meets (hget : w.layout.entries.get? e.handle = some e)
    (htext : e.constraint.within grid.counts = true → ∃ text, e.text = .ok text)
    (h : (placeEntry host.journaled grid e.handle).run.run w = (out, v)) :
    v.layout = w.layout ∧
      ∃ events, v.around.2 = w.around.2 ++ events ∧ Meets grid e events out := by
  unfold placeEntry at h
  rw [run_bind, Act.run_layout] at h
  dsimp only at h
  rw [hget] at h
  dsimp only at h
  split at h
  · rename_i hwithin
    rw [run_bind, Act.run_outcome] at h
    dsimp only at h
    rcases hplaced : (do
      let bounds ← Act.around (boundsOn host.journaled grid e.constraint e.component)
      host.journaled.setBounds e.component bounds).run.run w with ⟨result, u⟩
    rw [hplaced] at h
    obtain ⟨hlayout, events, hnotes, hplaces, hsome⟩ := placed_journaled hsilent hplaced
    cases result with
    | ok _ =>
      cases h
      exact ⟨hlayout, events, hnotes, .placed hwithin (hsome rfl) hplaces⟩
    | error fault =>
      obtain ⟨text, htext⟩ := htext hwithin
      dsimp only at h
      rw [run_bind, Act.run_layout] at h
      dsimp only at h
      rw [hlayout, Entries.lastKnown?_of_get? hget] at h
      obtain ⟨hlayout', hnote, -⟩ := noteText_journaled h
      obtain ⟨rfl, hnoted⟩ := hnote text htext
      refine ⟨hlayout'.trans hlayout, events ++ [.notice (.placementFailed text fault)],
        by rw [hnoted, hnotes, List.append_assoc], .placed hwithin (by simp) fun event hevent => ?_⟩
      rcases List.mem_append.mp hevent with hevent | hevent
      · exact hplaces event hevent
      · rw [List.mem_singleton.mp hevent]
        exact htext
  · rename_i hhidden
    exact hidden_meets (Bool.not_eq_true _ ▸ hhidden) h

/-- Coming to the handles of entries one after the other is a course along them. -/
theorem forM_placeEntry_course {es : List (Entry κ)}
    (hget : ∀ e ∈ es, w.layout.entries.get? e.handle = some e)
    (htext : ∀ e ∈ es, e.constraint.within grid.counts = true → ∃ text, e.text = .ok text)
    (h : ((es.map Entry.handle).forM (placeEntry host.journaled grid)).run.run w = (out, v)) :
    ∃ events, v.around.2 = w.around.2 ++ events ∧ Course grid es events out := by
  induction es generalizing w with
  | nil =>
    cases h
    exact ⟨[], (List.append_nil _).symm, .done⟩
  | cons e es ih =>
    obtain ⟨hget, hgets⟩ := List.forall_mem_cons.mp hget
    obtain ⟨htext, htexts⟩ := List.forall_mem_cons.mp htext
    rw [List.map_cons, run_forM_cons] at h
    rcases hfirst : (placeEntry host.journaled grid e.handle).run.run w with ⟨fault | _, u⟩ <;>
      rw [hfirst] at h <;>
      obtain ⟨hlayout, events, hnotes, hmeets⟩ := placeEntry_meets hsilent hget htext hfirst
    · cases h
      exact ⟨events, hnotes, .stop hmeets⟩
    · obtain ⟨rest, hrest, hcourse⟩ := ih (hlayout.symm ▸ hgets) htexts h
      exact ⟨events ++ rest, by rw [hrest, hnotes, List.append_assoc], .next hmeets hcourse⟩

end

/-- Solving reports nothing but queries that failed. -/
theorem solve_journaled (host : Host κ σ) (l : Layout κ) (frame : Frame)
    {s : σ × List (Event κ)} (hs : ∀ event ∈ s.2, event.IsQuery) :
    ∀ event ∈ ((l.solve host.journaled frame).run.run s).2.2, event.IsQuery := by
  -- so a host that takes no other notices does the same
  let asking : Host κ (σ × List (Event κ)) :=
    { host.journaled with
      report := fun notice => match notice with
        | .queryFailed component fault => host.journaled.report (.queryFailed component fault)
        | _ => pure () }
  have hkeeps : asking.Keeps
      (Beside (fun _ => True) fun events => ∀ event ∈ events, event.IsQuery) := by
    refine ⟨fun _ s hs => ⟨hs, fun _ _ => trivial⟩, fun _ s hs => ⟨hs, fun _ _ => trivial⟩,
      fun notice s hs => ?_⟩
    cases notice with
    | queryFailed component fault =>
      refine ⟨trivial, fun event hevent => ?_⟩
      rcases List.mem_append.mp hevent with hevent | hevent
      · exact hs.2 event hevent
      · exact ⟨component, fault, List.mem_singleton.mp hevent⟩
    | _ => exact hs
  have hsame : l.solve host.journaled frame = l.solve asking frame := rfl
  rw [hsame]
  exact (hkeeps.solve l frame s ⟨trivial, hs⟩).1.2

/-- Resolving reports nothing but queries that failed, and the grid has as many tracks as the
layout. -/
theorem resolve_journaled [DecidableEq κ] {kept : σ → Prop} {fit : Host κ σ → Prop}
    (hsilent : ∀ grid, (host.gridSolved grid).Silent fun _ => True)
    (hw : Reached (Solves kept fit) w.layout) (hnone : w.around.2 = []) {frame : Frame}
    {result : Except Fault Grid} (h : (resolve host.journaled frame).run.run w = (result, v)) :
    v.layout.entries = w.layout.entries ∧ (∀ event ∈ v.around.2, event.IsQuery) ∧
      ∀ grid, result = .ok grid → grid.counts = w.layout.counts := by
  cases hfresh : w.layout.isFresh frame with
  | true =>
    rw [resolve_of_isFresh host.journaled hfresh] at h
    cases h
    simp only [isFresh, Bool.and_eq_true, Bool.not_eq_true'] at hfresh
    exact ⟨rfl, by rw [hnone]; exact List.forall_mem_nil _,
      fun grid hgrid => hw.counts_held hfresh.1 (grid?_of_heldGrid hgrid)⟩
  | false =>
    have hqueries := solve_journaled host w.layout frame (s := w.around)
      (by rw [hnone]; exact List.forall_mem_nil _)
    rcases hsolve : (w.layout.solve host.journaled frame).run.run w.around with ⟨fault | grid, s⟩ <;>
      rw [hsolve] at hqueries
    · rw [resolve_of_fault hfresh hsolve] at h
      cases h
      exact ⟨rfl, hqueries, fun _ hgrid => by cases hgrid⟩
    · obtain ⟨hlayout, -⟩ := hsilent grid ⟨w.layout.hold frame grid, s.1⟩ trivial
      rw [resolve_of_grid hfresh hsolve rfl] at h
      cases h
      change ((host.gridSolved grid).run.run ⟨w.layout.hold frame grid, s.1⟩).2.layout.entries = _ ∧
        _ ∧ ∀ grid', ((host.gridSolved grid).run.run
          ⟨w.layout.hold frame grid, s.1⟩).2.layout.heldGrid = .ok grid' → _
      rw [hlayout]
      refine ⟨rfl, hqueries, fun grid' hgrid => ?_⟩
      cases hgrid
      exact counts_of_solve (congrArg Prod.fst hsolve)

end Layout

end TrackGrid
