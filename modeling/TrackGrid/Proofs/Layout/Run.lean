import TrackGrid.Proofs.Entries
import TrackGrid.Proofs.Placement
import TrackGrid.Proofs.Track.Clean

/-! Runs: what can become of a layout by its operations alone (`Orderly`), callbacks that use them
in the middle of a pass included. -/

namespace TrackGrid

variable {κ σ α : Type}

namespace Act

@[simp] theorem run_layout (w : World κ σ) :
    (Act.layout : Act κ σ (Layout κ)).run.run w = (.ok w.layout, w) := rfl

@[simp] theorem run_change (f : Layout κ → Layout κ) (w : World κ σ) :
    (Act.change f : Act κ σ Unit).run.run w = (.ok (), ⟨f w.layout, w.around⟩) := rfl

@[simp] theorem run_around (x : ExceptT Fault (StateM σ) α) (w : World κ σ) :
    (Act.around x).run.run w =
      ((x.run.run w.around).1, ⟨w.layout, (x.run.run w.around).2⟩) := rfl

@[simp] theorem run_outcome (x : Act κ σ α) (w : World κ σ) :
    (Act.outcome x).run.run w = (.ok (x.run.run w).1, (x.run.run w).2) := rfl

end Act

def World.Has (P : Layout κ → Prop) (kept : σ → Prop) (w : World κ σ) : Prop :=
  P w.layout ∧ kept w.around

namespace Holds

variable {P : Layout κ → Prop} {kept : σ → Prop}

theorem layout : Holds (World.Has P kept) (Act.layout : Act κ σ (Layout κ)) P :=
  fun _ hw => ⟨hw, fun _ hl => by cases hl; exact hw.1⟩

theorem around {x : ExceptT Fault (StateM σ) α} {Q : α → Prop} (h : Holds kept x Q) :
    Holds (World.Has P kept) (Act.around x) Q :=
  fun w hw => ⟨⟨hw.1, (h w.around hw.2).1⟩, (h w.around hw.2).2⟩

theorem outcome {R : World κ σ → Prop} {Q : α → Prop} {x : Act κ σ α} (h : Holds R x Q) :
    Holds R (Act.outcome x) fun _ => True :=
  fun w hw => ⟨(h w hw).1, fun _ _ => trivial⟩

end Holds

structure Host.Keeps (kept : σ → Prop) (host : Host κ σ) : Prop where
  preferred : ∀ component, Holds kept (host.preferredSize component) fun _ => True
  minimum : ∀ component, Holds kept (host.minimumSize component) fun _ => True
  report : ∀ notice s, kept s → kept ((host.report notice).run s).2

namespace Host.Keeps

variable {kept : σ → Prop} {host : Host κ σ}

theorem always (host : Host κ σ) : host.Keeps fun _ => True :=
  ⟨fun _ => .always, fun _ => .always, fun _ _ _ => trivial⟩

theorem notify (h : host.Keeps kept) (notice : Notice κ) :
    Holds kept (host.notify notice) fun _ => True :=
  fun s hs => ⟨h.report notice s hs, fun _ _ => trivial⟩

theorem sizeOf (h : host.Keeps kept) (component : κ) (kind : Sizing) :
    Holds kept (host.sizeOf component kind) fun _ => True := by
  cases kind with
  | minimum => exact h.minimum component
  | fill => exact h.preferred component
  | preferred => exact h.preferred component

theorem extent (h : host.Keeps kept) (axis : Axis) (component : κ) (kind : Sizing) :
    Holds kept (host.extent axis component kind) fun _ => True := by
  refine Holds.tryCatch ((h.sizeOf component kind).bind fun size _ => ?_) fun fault => ?_
  · cases size <;> exact .pure trivial
  · exact (h.notify _).bind fun _ _ => .pure trivial

theorem items (h : host.Keeps kept) (axis : Axis) (entries : List (Entry κ)) :
    ∀ item ∈ entries.map (host.item axis), ∀ kind, Holds kept (item.extent kind) fun _ => True := by
  intro item hitem kind
  obtain ⟨entry, -, rfl⟩ := List.mem_map.mp hitem
  exact h.extent axis entry.component kind

theorem line (h : host.Keeps kept) (axis : Axis) (entries : List (Entry κ)) (tracks : List Track)
    (origin length : Int) :
    Holds kept (Line.solve tracks origin length (entries.map (host.item axis))) Line.Sound :=
  Line.solve_sound (h.items axis entries) tracks origin length

theorem solve (h : host.Keeps kept) (layout : Layout κ) (frame : Frame) :
    Holds kept (layout.solve host frame) Grid.Sound :=
  Grid.solve_sound (h.items .columns _) (h.items .rows _) layout.tracks frame.origin frame.inner

theorem itemNeed (h : host.Keeps kept) (axis : Axis) (entries : List (Entry κ)) (kind : Sizing)
    (contributions : List Line.Contribution) :
    ∀ item ∈ entries.map (host.item axis),
      Holds kept (Line.itemNeed contributions kind item) fun _ => True := by
  intro item hitem
  refine (h.items axis entries item hitem kind).bind fun extent _ => ?_
  dsimp only
  split
  · exact .pure trivial
  · exact (Holds.calculate fun _ _ => trivial).bind fun _ _ => .pure trivial

theorem required (h : host.Keeps kept) (axis : Axis) (tracks : List Track)
    (entries : List (Entry κ)) (kind : Sizing) :
    Holds kept (Line.required tracks (entries.map (host.item axis)) kind) fun _ => True := by
  have hitems := h.items axis entries
  refine (Holds.mapM (T := fun _ _ => True) _ fun p _ => ?_).bind fun contributions _ => ?_
  · change Holds kept (Line.contribution _ _ p.1 p.2) _
    unfold Line.contribution
    split
    · exact (Holds.calculate fun _ _ => trivial).bind fun _ _ => .pure trivial
    · split
      · exact (Line.contentExtent_nonneg hitems _ _).bind fun _ _ => .pure trivial
      · split <;> exact .pure trivial
  · refine (Holds.foldlM (Q := fun _ => True) _ (fun longest _ item hitem => ?_) trivial).bind
      fun _ _ => .pure trivial
    exact (h.itemNeed axis entries kind contributions item (List.mem_filter.mp hitem).1).bind
      fun _ _ => .pure trivial

theorem requiredSize (h : host.Keeps kept) (layout : Layout κ) (insets : Insets) (kind : Sizing) :
    Holds kept (layout.requiredSize host insets kind) fun _ => True :=
  (h.required .columns _ _ kind).bind fun _ _ =>
    (h.required .rows _ _ kind).bind fun _ _ => .pure trivial

theorem boundsOn (h : host.Keeps kept) (grid : Grid) (constraint : Constraint) (component : κ) :
    Holds kept (Layout.boundsOn host grid constraint component) fun rect =>
      ∃ preferred, constraint.place grid preferred = .ok rect := by
  unfold Layout.boundsOn
  split
  · refine (h.preferred component).bind fun size _ => ?_
    cases size with
    | none => exact .throw _
    | some size => exact .calculate fun _ hr => ⟨size, hr⟩
  · exact .calculate fun _ hr => ⟨Size.zero, hr⟩

end Host.Keeps

namespace Layout

inductive Change [DecidableEq κ] : Layout κ → Layout κ → Prop
  | invalidate (l : Layout κ) : Change l l.invalidate
  | setTracks {l l' : Layout κ} {axis : Axis} {values : List GivenSize}
      (h : l.setTracks axis values = .ok l') : Change l l'
  | setTrack {l l' : Layout κ} {axis : Axis} {index : Int} {value : GivenSize}
      (h : l.setTrack axis index value = .ok l') : Change l l'
  | insertTrack {l l' : Layout κ} {axis : Axis} {index : Int} {value : GivenSize}
      (h : l.insertTrack axis index value = .ok l') : Change l l'
  | deleteTrack {l l' : Layout κ} {axis : Axis} {index : Int}
      (h : l.deleteTrack axis index = .ok l') : Change l l'
  | add {l l' : Layout κ} {component : κ} {given : GivenConstraint} {handle : Nat}
      (h : l.add component given = .ok (handle, l')) : Change l l'
  | setConstraint {l l' : Layout κ} {component : κ} {given : GivenConstraint}
      (h : l.setConstraint component given = .ok l') : Change l l'
  | removeEntry (l : Layout κ) (handle : Int) : Change l (l.removeEntry handle)
  | removeComponent (l : Layout κ) (component : κ) : Change l (l.removeComponent component)

/-- Whether a grid can be what solving a layout for a frame gives, with a host that fits and in
surroundings that are as they are kept. -/
def Solves (kept : σ → Prop) (fit : Host κ σ → Prop) (l : Layout κ) (frame : Frame) (grid : Grid) :
    Prop :=
  ∃ host s, fit host ∧ kept s ∧ ((l.solve host frame).run.run s).1 = .ok grid

/-- Layouts that are reached from new ones by changes and by holding what solving gives. -/
inductive Reached [DecidableEq κ] (solves : Layout κ → Frame → Grid → Prop) : Layout κ → Prop
  | made {l : Layout κ} {columns rows : Option (List GivenSize)}
      (h : ofGiven columns rows = .ok l) : Reached solves l
  | change {l l' : Layout κ} (h : Reached solves l) (hc : Change l l') : Reached solves l'
  | hold {l : Layout κ} {frame : Frame} {grid : Grid} (h : Reached solves l)
      (hs : solves l frame grid) : Reached solves (l.hold frame grid)

variable {l l' : Layout κ}

/-- Layouts that are reached with any hosts and surroundings. -/
def Reachable [DecidableEq κ] (σ : Type) : Layout κ → Prop :=
  Reached (Solves (fun _ : σ => True) fun _ => True)

theorem made_eq {columns rows : Option (List GivenSize)} (h : ofGiven columns rows = .ok l) :
    ∃ tracks, Specification.ofGiven columns rows = .ok tracks ∧ l = ofTracks tracks := by
  obtain ⟨tracks, htracks, h⟩ := bind_eq_ok_iff.mp h
  exact ⟨tracks, htracks, (pure_eq_ok_iff.mp h).symm⟩

/-- A change does nothing at all, or it takes one step on the tracks or on the entries, or one on
both, and marks the grid as out of date, which goes on being held. -/
def Stepped [DecidableEq κ] (l l' : Layout κ) : Prop :=
  l' = l ∨ ∃ tracks entries, Specification.Step l.tracks tracks ∧
    Entries.Step l.entries entries ∧ l' = ⟨tracks, entries, true, l.held, l.solveCount⟩

theorem tracks_removeEntry [DecidableEq κ] (l : Layout κ) (handle : Int) :
    (l.removeEntry handle).tracks = l.tracks := by
  unfold removeEntry
  split <;> rfl

private theorem removeEntry_stepped [DecidableEq κ] (l : Layout κ) (handle : Int) :
    Stepped l (l.removeEntry handle) := by
  unfold removeEntry
  split
  · exact .inl rfl
  · exact .inr ⟨_, _, .refl _, .remove _ handle, rfl⟩

private theorem Change.stepped [DecidableEq κ] (h : Change l l') : Stepped l l' := by
  cases h with
  | invalidate => exact .inr ⟨_, _, .refl _, .refl _, rfl⟩
  | setTracks h =>
    obtain ⟨tracks, htracks, h⟩ := bind_eq_ok_iff.mp h
    cases pure_eq_ok_iff.mp h
    exact .inr ⟨_, _, .setTracks htracks, .refl _, rfl⟩
  | setTrack h =>
    obtain ⟨tracks, htracks, h⟩ := bind_eq_ok_iff.mp h
    cases pure_eq_ok_iff.mp h
    exact .inr ⟨_, _, .setTrack htracks, .refl _, rfl⟩
  | @insertTrack _ axis index _ h =>
    obtain ⟨tracks, htracks, h⟩ := bind_eq_ok_iff.mp h
    cases pure_eq_ok_iff.mp h
    exact .inr ⟨_, _, .insertTrack htracks, .shift _ axis index 1, rfl⟩
  | @deleteTrack _ axis index h =>
    obtain ⟨tracks, htracks, h⟩ := bind_eq_ok_iff.mp h
    cases pure_eq_ok_iff.mp h
    exact .inr ⟨_, _, .deleteTrack htracks, .shift _ axis index (-1), rfl⟩
  | @add _ component given _ h =>
    obtain ⟨constraint, hgiven, h⟩ := bind_eq_ok_iff.mp h
    cases pure_eq_ok_iff.mp h
    exact .inr ⟨_, _, .refl _, .add _ component (Constraint.ofGiven_normal hgiven), rfl⟩
  | setConstraint h =>
    obtain ⟨constraint, hgiven, h⟩ := bind_eq_ok_iff.mp h
    split at h
    · cases pure_eq_ok_iff.mp h
      exact .inl rfl
    · rename_i e _
      cases pure_eq_ok_iff.mp h
      exact .inr ⟨_, _, .refl _, .constrain _ e.handle (Constraint.ofGiven_normal hgiven), rfl⟩
  | removeEntry handle => exact removeEntry_stepped l handle
  | removeComponent component =>
    unfold Layout.removeComponent
    split
    · exact .inl rfl
    · exact removeEntry_stepped l _

theorem Change.spec [DecidableEq κ] (h : Change l l') :
    l' = l ∨ l'.stale = true ∧ l'.held = l.held := by
  rcases h.stepped with rfl | ⟨tracks, entries, -, -, rfl⟩
  · exact .inl rfl
  · exact .inr ⟨rfl, rfl⟩

theorem Change.entries [DecidableEq κ] (h : Change l l') : Entries.Step l.entries l'.entries := by
  rcases h.stepped with rfl | ⟨tracks, entries, -, hentries, rfl⟩
  · exact .refl _
  · exact hentries

theorem Reached.clean [DecidableEq κ] {solves : Layout κ → Frame → Grid → Prop}
    (h : Reached solves l) : l.tracks.Clean := by
  induction h with
  | made h =>
    obtain ⟨tracks, htracks, rfl⟩ := made_eq h
    exact Specification.ofGiven_clean htracks
  | change _ hc ih =>
    rcases hc.stepped with rfl | ⟨tracks, entries, htracks, -, rfl⟩
    · exact ih
    · exact ih.step htracks
  | hold _ _ ih => exact ih

theorem Reached.faithful [DecidableEq κ] {solves : Layout κ → Frame → Grid → Prop}
    (h : Reached solves l) : l.entries.Faithful := by
  induction h with
  | made h =>
    obtain ⟨tracks, -, rfl⟩ := made_eq h
    exact Entries.empty_faithful
  | change _ hc ih => exact ih.step hc.entries
  | hold _ _ ih => exact ih

theorem counts_of_solve {host : Host κ σ} {frame : Frame} {s : σ} {grid : Grid}
    (h : ((l.solve host frame).run.run s).1 = .ok grid) : grid.counts = l.counts :=
  Grid.counts_of_solve h

/-- A held grid that is not out of date has as many tracks as the layout. -/
theorem Reached.counts_held [DecidableEq κ] {kept : σ → Prop} {fit : Host κ σ → Prop}
    (h : Reached (Solves kept fit) l) (hfresh : l.stale = false) {grid : Grid}
    (hgrid : l.grid? = some grid) : grid.counts = l.counts := by
  induction h with
  | made h =>
    obtain ⟨tracks, -, rfl⟩ := made_eq h
    cases hgrid
  | change _ hc ih =>
    rcases hc.spec with rfl | ⟨hstale, -⟩
    · exact ih hfresh hgrid
    · rw [hstale] at hfresh
      cases hfresh
  | hold _ hs _ =>
    cases hgrid
    obtain ⟨host, s, -, -, hsolve⟩ := hs
    exact counts_of_solve hsolve

/-- The grid that is held, which resolving gives in the end. -/
def heldGrid (l : Layout κ) : Except Fault Grid :=
  match l.grid? with
  | some grid => .ok grid
  | none => .error .noGrid

theorem grid?_of_heldGrid {l : Layout κ} {grid : Grid} (h : l.heldGrid = .ok grid) :
    l.grid? = some grid := by
  unfold heldGrid at h
  cases hg : l.grid? with
  | none =>
    rw [hg] at h
    cases h
  | some g =>
    rw [hg] at h
    cases h
    rfl

theorem resolve_of_isFresh (host : Host κ σ) {frame : Frame} {w : World κ σ}
    (h : w.layout.isFresh frame = true) :
    (resolve host frame).run.run w = (w.layout.heldGrid, w) := by
  unfold resolve
  simp only [run_bind, Act.run_layout, h, Bool.not_true, Bool.false_eq_true, if_false, heldGrid]
  cases w.layout.grid? <;> rfl

theorem resolve_of_fault {host : Host κ σ} {frame : Frame} {w : World κ σ} {fault : Fault} {s : σ}
    (h : w.layout.isFresh frame = false)
    (hsolve : (w.layout.solve host frame).run.run w.around = (.error fault, s)) :
    (resolve host frame).run.run w = (.error fault, ⟨w.layout, s⟩) := by
  unfold resolve
  simp only [run_bind, Act.run_layout, h, Bool.not_false, if_true, Act.run_around, hsolve]

theorem resolve_of_grid {host : Host κ σ} {frame : Frame} {w after : World κ σ} {grid : Grid}
    {s : σ} (h : w.layout.isFresh frame = false)
    (hsolve : (w.layout.solve host frame).run.run w.around = (.ok grid, s))
    (hafter : ((host.gridSolved grid).run.run ⟨w.layout.hold frame grid, s⟩).2 = after) :
    (resolve host frame).run.run w = (after.layout.heldGrid, after) := by
  unfold resolve
  simp only [run_bind, Act.run_layout, h, Bool.not_false, if_true, Act.run_around, hsolve,
    Act.run_change, Act.run_outcome, hafter, heldGrid]
  cases after.layout.grid? <;> rfl

theorem arrange_of_fault {host : Host κ σ} {frame : Frame} {w v : World κ σ} {fault : Fault}
    (h : (resolve host frame).run.run w = (.error fault, v)) :
    (arrange host frame).run.run w = (.error fault, v) := by
  unfold arrange
  rw [run_bind, h]

theorem arrange_of_grid {host : Host κ σ} {frame : Frame} {w v : World κ σ} {grid : Grid}
    (h : (resolve host frame).run.run w = (.ok grid, v)) :
    (arrange host frame).run.run w =
      (v.layout.entries.handles.forM (placeEntry host grid)).run.run v := by
  unfold arrange
  rw [run_bind, h]
  rfl

section
variable {P : Layout κ → Prop} {kept : σ → Prop} {host : Host κ σ}

/-- Resolving keeps what holding a solved grid and listening keep, and gives the grid that is held
in the end. -/
theorem resolve_holds (hkeeps : host.Keeps kept)
    (hhold : ∀ l frame grid s, P l → kept s → ((l.solve host frame).run.run s).1 = .ok grid →
      P (l.hold frame grid))
    (hsolved : ∀ grid, Holds (World.Has P kept) (host.gridSolved grid) fun _ => True)
    (frame : Frame) :
    Holds (World.Has P kept) (resolve host frame) fun grid => ∃ l, P l ∧ l.grid? = some grid := by
  intro w hw
  have hheld {after : World κ σ} (hafter : World.Has P kept after) (grid : Grid)
      (hgrid : after.layout.heldGrid = .ok grid) : ∃ l, P l ∧ l.grid? = some grid :=
    ⟨after.layout, hafter.1, grid?_of_heldGrid hgrid⟩
  cases hfresh : w.layout.isFresh frame with
  | true =>
    rw [resolve_of_isFresh host hfresh]
    exact ⟨hw, hheld hw⟩
  | false =>
    obtain ⟨hs, -⟩ := hkeeps.solve w.layout frame w.around hw.2
    rcases hsolve : (w.layout.solve host frame).run.run w.around with ⟨fault | grid, s⟩
    · rw [hsolve] at hs
      rw [resolve_of_fault hfresh hsolve]
      exact ⟨⟨hw.1, hs⟩, fun _ hb => by cases hb⟩
    · rw [hsolve] at hs
      have hheldWorld : World.Has P kept ⟨w.layout.hold frame grid, s⟩ :=
        ⟨hhold w.layout frame grid w.around hw.1 hw.2 (by rw [hsolve]), hs⟩
      obtain ⟨hafter, -⟩ := hsolved grid _ hheldWorld
      rw [resolve_of_grid hfresh hsolve rfl]
      exact ⟨hafter, hheld hafter⟩

theorem noteText_holds (hkeeps : host.Keeps kept) (text : Except Fault String)
    (notice : String → Notice κ) :
    Holds (World.Has P kept) (do
      let text ← Act.around (calculate text)
      Act.around (host.notify (notice text))) fun _ => True :=
  (Holds.around (Holds.calculate (Q := fun _ => True) fun _ _ => trivial)).bind fun _ _ =>
    Holds.around (hkeeps.notify _)

theorem placed_holds (hkeeps : host.Keeps kept) (grid : Grid) {entry : Entry κ}
    (hbounds : ∀ rect preferred, entry.constraint.place grid preferred = .ok rect →
      Holds (World.Has P kept) (host.setBounds entry.component rect) fun _ => True) :
    Holds (World.Has P kept) (do
      let rect ← Act.around (boundsOn host grid entry.constraint entry.component)
      host.setBounds entry.component rect) fun _ => True :=
  (Holds.around (hkeeps.boundsOn grid _ _)).bind fun rect ⟨preferred, hrect⟩ =>
    hbounds rect preferred hrect

/-- Placing an entry keeps what placing its component within the cells of its constraint keeps. -/
theorem placeEntry_holds (hkeeps : host.Keeps kept) {grid : Grid} {handle : Nat}
    (hbounds : ∀ l entry rect preferred, P l → l.entries.get? handle = some entry →
      entry.constraint.within grid.counts = true →
      entry.constraint.place grid preferred = .ok rect →
        Holds (World.Has P kept) (host.setBounds entry.component rect) fun _ => True) :
    Holds (World.Has P kept) (placeEntry host grid handle) fun _ => True := by
  unfold placeEntry
  refine Holds.layout.bind fun l hl => ?_
  split
  · exact .pure trivial
  · rename_i entry hentry
    split
    · rename_i hwithin
      have hplaced := placed_holds hkeeps grid fun rect preferred =>
        hbounds l entry rect preferred hl hentry hwithin
      refine hplaced.outcome.bind fun placed _ => ?_
      split
      · exact .pure trivial
      · exact Holds.layout.bind fun l _ => noteText_holds hkeeps _ _
    · exact noteText_holds hkeeps _ _

theorem arrange_holds (hkeeps : host.Keeps kept)
    (hhold : ∀ l frame grid s, P l → kept s → ((l.solve host frame).run.run s).1 = .ok grid →
      P (l.hold frame grid))
    (hsolved : ∀ grid, Holds (World.Has P kept) (host.gridSolved grid) fun _ => True)
    (hbounds : ∀ component bounds,
      Holds (World.Has P kept) (host.setBounds component bounds) fun _ => True) (frame : Frame) :
    Holds (World.Has P kept) (arrange host frame) fun _ => True := by
  refine (resolve_holds hkeeps hhold hsolved frame).bind fun grid _ => ?_
  refine Holds.layout.bind fun l _ => Holds.forM _ fun handle _ => ?_
  exact placeEntry_holds hkeeps fun _ entry rect _ _ _ _ _ => hbounds entry.component rect

end

end Layout

/-- What acts on a layout by its operations only: single steps that leave the layout alone or change
it once, such steps one after the other, and passes with hosts whose callbacks do the same. -/
inductive Orderly [DecidableEq κ] (kept : σ → Prop) (fit : Host κ σ → Prop) :
    {α : Type} → Act κ σ α → Prop
  | step {α : Type} {x : Act κ σ α}
      (h : ∀ w, kept w.around → kept (x.run.run w).2.around ∧
        ((x.run.run w).2.layout = w.layout ∨ Layout.Change w.layout (x.run.run w).2.layout)) :
      Orderly kept fit x
  | bind {α β : Type} {x : Act κ σ α} {f : α → Act κ σ β} (hx : Orderly kept fit x)
      (hf : ∀ a, Orderly kept fit (f a)) : Orderly kept fit (x >>= f)
  | outcome {α : Type} {x : Act κ σ α} (hx : Orderly kept fit x) : Orderly kept fit (Act.outcome x)
  | resolve {host : Host κ σ} (hfit : fit host)
      (hsolved : ∀ grid, Orderly kept fit (host.gridSolved grid)) (frame : Frame) :
      Orderly kept fit (Layout.resolve host frame)
  | arrange {host : Host κ σ} (hfit : fit host)
      (hsolved : ∀ grid, Orderly kept fit (host.gridSolved grid))
      (hbounds : ∀ component bounds, Orderly kept fit (host.setBounds component bounds))
      (frame : Frame) : Orderly kept fit (Layout.arrange host frame)
  | size {host : Host κ σ} (hfit : fit host) (insets : Insets) (kind : Sizing) :
      Orderly kept fit (Act.layout >>= fun l => Act.around (l.requiredSize host insets kind))

/-- Acting by operations only keeps what single changes and holding what solving gives keep. -/
theorem Orderly.keeps [DecidableEq κ] {kept : σ → Prop} {fit : Host κ σ → Prop}
    {P : Layout κ → Prop} (hkeeps : ∀ host, fit host → host.Keeps kept)
    (hchange : ∀ l l', P l → Layout.Change l l' → P l')
    (hhold : ∀ l frame grid, P l → Layout.Solves kept fit l frame grid → P (l.hold frame grid))
    {x : Act κ σ α} (hx : Orderly kept fit x) : Holds (World.Has P kept) x fun _ => True := by
  have hsolves {host : Host κ σ} (hfit : fit host) (l : Layout κ) (frame : Frame) (grid : Grid)
      (s : σ) (hl : P l) (hs : kept s) (hsolve : ((l.solve host frame).run.run s).1 = .ok grid) :
      P (l.hold frame grid) :=
    hhold l frame grid hl ⟨host, s, hfit, hs, hsolve⟩
  -- on how the act is made up; what callbacks do in the middle of a pass is a hypothesis
  induction hx with
  | step h =>
    intro w hw
    obtain ⟨hkept, hlayout⟩ := h w hw.2
    refine ⟨⟨?_, hkept⟩, fun _ _ => trivial⟩
    rcases hlayout with heq | hstep
    · rw [heq]
      exact hw.1
    · exact hchange _ _ hw.1 hstep
  | bind _ _ ihx ihf => exact ihx.bind fun a _ => ihf a
  | outcome _ ih => exact ih.outcome
  | resolve hfit _ frame ih =>
    exact (Layout.resolve_holds (hkeeps _ hfit) (hsolves hfit) ih frame).mono fun _ _ => trivial
  | arrange hfit _ _ frame ihsolved ihbounds =>
    exact Layout.arrange_holds (hkeeps _ hfit) (hsolves hfit) ihsolved ihbounds frame
  | size hfit insets kind =>
    exact Holds.layout.bind fun l _ =>
      Holds.around ((hkeeps _ hfit).requiredSize l insets kind)

/-- Acting by operations only leads from layouts that are reached to layouts that are reached. -/
theorem Orderly.holds [DecidableEq κ] {kept : σ → Prop} {fit : Host κ σ → Prop}
    (hkeeps : ∀ host, fit host → host.Keeps kept) {x : Act κ σ α} (hx : Orderly kept fit x) :
    Holds (World.Has (Layout.Reached (Layout.Solves kept fit)) kept) x fun _ => True :=
  hx.keeps hkeeps (fun _ _ hl hc => .change hl hc) fun _ _ _ hl hs => .hold hl hs

end TrackGrid
