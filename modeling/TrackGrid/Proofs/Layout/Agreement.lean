import TrackGrid.Layout.Pass
import TrackGrid.Proofs.Effect

/-! Solving a layout depends on what surrounds it only through the extents of the components, and a
pass only through what callbacks do. -/

namespace TrackGrid

variable {κ σ τ : Type} {R : σ → τ → Prop}

structure Item.Alike (R : σ → τ → Prop) (x : Item (StateM σ)) (y : Item (StateM τ)) : Prop where
  tracks : x.tracks = y.tracks
  single : x.single = y.single
  extent : ∀ kind, Agree R (x.extent kind) (y.extent kind)

theorem Item.Alike.itemNeed {x : Item (StateM σ)} {y : Item (StateM τ)} (h : Item.Alike R x y)
    (contributions : List Line.Contribution) (kind : Sizing) :
    Agree R (Line.itemNeed contributions kind x) (Line.itemNeed contributions kind y) := by
  unfold Line.itemNeed
  rw [h.tracks]
  refine (h.extent kind).bind fun extent => ?_
  dsimp only
  split
  · exact .pure none
  · exact (Agree.calculate _).bind fun _ => .pure _

section
variable {items : List (Item (StateM σ))} {others : List (Item (StateM τ))}
  (h : List.Forall₂ (Item.Alike R) items others)
include h

/-- Folding over the items that are taken, which alike items are both or neither. -/
theorem agree_foldlM_filter {α : Type} {take : Item (StateM σ) → Bool}
    {take' : Item (StateM τ) → Bool} {f : α → Item (StateM σ) → ExceptT Fault (StateM σ) α}
    {g : α → Item (StateM τ) → ExceptT Fault (StateM τ) α}
    (htake : ∀ x y, Item.Alike R x y → take' y = take x)
    (hstep : ∀ a x y, Item.Alike R x y → Agree R (f a x) (g a y)) (a : α) :
    Agree R ((items.filter take).foldlM f a) ((others.filter take').foldlM g a) := by
  induction h generalizing a with
  | nil => exact .pure a
  | @cons x y xs ys hxy _ ih =>
    rw [List.filter_cons, List.filter_cons, htake x y hxy]
    split
    · rw [List.foldlM_cons, List.foldlM_cons]
      exact (hstep a x y hxy).bind fun b => ih b
    · exact ih a

private theorem agree_largestExtent (kind : Sizing) (index : Int) :
    Agree R (largestExtent kind index items) (largestExtent kind index others) := by
  refine agree_foldlM_filter h (fun x y hxy => ?_) (fun best x y hxy => ?_) 0
  · rw [Item.sitsIn, Item.sitsIn, hxy.tracks, hxy.single]
  · exact (hxy.extent kind).bind fun extent => .pure _

private theorem agree_contentExtent (track : Track) (index : Int) :
    Agree R (contentExtent track index items) (contentExtent track index others) := by
  unfold contentExtent
  split
  · exact agree_largestExtent h _ _
  · exact .throw _

private theorem agree_contentSizes (tracks : List Track) :
    Agree R (Line.contentSizes tracks items) (Line.contentSizes tracks others) := by
  refine Agree.mapM _ fun p _ => ?_
  change Agree R (if p.1.isContent = true then contentExtent p.1 p.2 items else pure 0)
    (if p.1.isContent = true then contentExtent p.1 p.2 others else pure 0)
  split
  · exact agree_contentExtent h _ _
  · exact .pure 0

private theorem agree_contribution (fillShare : Binary64) (track : Track) (index : Nat) :
    Agree R (Line.contribution fillShare items track index)
      (Line.contribution fillShare others track index) := by
  unfold Line.contribution
  split
  · exact (Agree.calculate _).bind fun _ => .pure _
  · split
    · exact (agree_contentExtent h _ _).bind fun _ => .pure _
    · split <;> exact .pure _

private theorem agree_required (tracks : List Track) (kind : Sizing) :
    Agree R (Line.required tracks items kind) (Line.required tracks others kind) := by
  refine (Agree.mapM _ fun p _ => agree_contribution h _ p.1 p.2).bind fun contributions => ?_
  refine (agree_foldlM_filter h (fun x y hxy => ?_) (fun longest x y hxy => ?_) 0).bind
    fun scaled => .pure _
  · rw [Item.inside, Item.inside, hxy.tracks]
  · exact (hxy.itemNeed contributions kind).bind fun need => .pure _

private theorem agree_solveLine (tracks : List Track) (origin length : Int) :
    Agree R (Line.solve tracks origin length items) (Line.solve tracks origin length others) := by
  refine (Agree.calculate _).bind fun absolute => ?_
  refine (agree_contentSizes h tracks).bind fun content => ?_
  exact (Agree.calculate _).bind fun relative => .pure _

end

structure Host.Alike (R : σ → τ → Prop) (host : Host κ σ) (other : Host κ τ) : Prop where
  preferred : ∀ component, Agree R (host.preferredSize component) (other.preferredSize component)
  minimum : ∀ component, Agree R (host.minimumSize component) (other.minimumSize component)
  report : ∀ notice s t, R s t →
    R ((host.report notice).run s).2 ((other.report notice).run t).2

namespace Host.Alike

variable {host : Host κ σ} {other : Host κ τ}

theorem extent (h : host.Alike R other) (axis : Axis) (component : κ) (kind : Sizing) :
    Agree R (host.extent axis component kind) (other.extent axis component kind) := by
  have hsize : Agree R (host.sizeOf component kind) (other.sizeOf component kind) := by
    cases kind with
    | minimum => exact h.minimum component
    | fill => exact h.preferred component
    | preferred => exact h.preferred component
  refine Agree.tryCatch (hsize.bind fun size => ?_) fun fault => ?_
  · cases size <;> exact .pure _
  · have hnote : Agree R (host.notify (.queryFailed component fault))
        (other.notify (.queryFailed component fault)) :=
      fun s t hst => ⟨rfl, h.report _ s t hst⟩
    exact hnote.bind fun _ => .pure 0

end Host.Alike

section
variable {host : Host κ σ} {other : Host κ τ}
  (hextent : ∀ axis component kind,
    Agree R (host.extent axis component kind) (other.extent axis component kind))
include hextent

/-- Entries with the same components and constraints, whatever their handles, are items alike. -/
theorem alike_items (axis : Axis) {entries others : List (Entry κ)}
    (hsame : entries.map (fun e => (e.component, e.constraint)) =
      others.map fun e => (e.component, e.constraint)) :
    List.Forall₂ (Item.Alike R) (entries.map (host.item axis)) (others.map (other.item axis)) := by
  induction entries generalizing others with
  | nil =>
    obtain rfl : others = [] := by simpa using hsame.symm
    exact .nil
  | cons entry entries ih =>
    cases others with
    | nil => simp at hsame
    | cons another others =>
      obtain ⟨⟨hcomponent, hconstraint⟩, htail⟩ := by simpa using hsame
      refine .cons ⟨?_, ?_, fun kind => ?_⟩ (ih (by simpa using htail))
      · simp only [Host.item, hconstraint]
      · simp only [Host.item, hconstraint]
      · simp only [Host.item, hcomponent]
        exact hextent axis another.component kind

theorem agree_solve {l l' : Layout κ} (htracks : l.tracks = l'.tracks)
    (hentries : l.entries.present.map (fun e => (e.component, e.constraint)) =
      l'.entries.present.map fun e => (e.component, e.constraint)) (frame : Frame) :
    Agree R (l.solve host frame) (l'.solve other frame) := by
  unfold Layout.solve
  rw [htracks]
  refine (agree_solveLine (alike_items hextent .columns hentries) _ _ _).bind fun columns => ?_
  exact (agree_solveLine (alike_items hextent .rows hentries) _ _ _).bind fun rows => .pure _

end

namespace Host.Alike

variable {host : Host κ σ} {other : Host κ τ}

theorem solve (h : host.Alike R other) {l l' : Layout κ} (htracks : l.tracks = l'.tracks)
    (hentries : l.entries.present.map (fun e => (e.component, e.constraint)) =
      l'.entries.present.map fun e => (e.component, e.constraint)) (frame : Frame) :
    Agree R (l.solve host frame) (l'.solve other frame) :=
  agree_solve h.extent htracks hentries frame

theorem requiredSize (h : host.Alike R other) (l : Layout κ) (insets : Insets) (kind : Sizing) :
    Agree R (l.requiredSize host insets kind) (l.requiredSize other insets kind) := by
  refine (agree_required (alike_items h.extent .columns rfl) _ _).bind fun width => ?_
  exact (agree_required (alike_items h.extent .rows rfl) _ _).bind fun height => .pure _

theorem notify (h : host.Alike R other) (notice : Notice κ) :
    Agree R (host.notify notice) (other.notify notice) :=
  fun s t hst => ⟨rfl, h.report notice s t hst⟩

theorem boundsOn (h : host.Alike R other) (grid : Grid) (constraint : Constraint) (component : κ) :
    Agree R (Layout.boundsOn host grid constraint component)
      (Layout.boundsOn other grid constraint component) := by
  unfold Layout.boundsOn
  split
  · refine (h.preferred component).bind fun size => ?_
    cases size with
    | none => exact .throw _
    | some size => exact .calculate _
  · exact .calculate _

end Host.Alike

def World.Alike (R : σ → τ → Prop) (w : World κ σ) (v : World κ τ) : Prop :=
  w.layout = v.layout ∧ R w.around v.around

namespace Agree

variable {α : Type}

theorem layout : Agree (World.Alike R) (Act.layout : Act κ σ (Layout κ)) Act.layout :=
  fun _ _ h => ⟨congrArg Except.ok h.1, h⟩

theorem change (f : Layout κ → Layout κ) :
    Agree (World.Alike R) (Act.change f : Act κ σ Unit) (Act.change f) :=
  fun _ _ h => ⟨rfl, congrArg f h.1, h.2⟩

theorem around {x : ExceptT Fault (StateM σ) α} {y : ExceptT Fault (StateM τ) α}
    (h : Agree R x y) : Agree (World.Alike (κ := κ) R) (Act.around x) (Act.around y) :=
  fun w v hw => ⟨(h w.around v.around hw.2).1, hw.1, (h w.around v.around hw.2).2⟩

theorem outcome {S : World κ σ → World κ τ → Prop} {x : Act κ σ α} {y : Act κ τ α}
    (h : Agree S x y) : Agree S (Act.outcome x) (Act.outcome y) :=
  fun w v hw => ⟨congrArg Except.ok (h w v hw).1, (h w v hw).2⟩

end Agree

/-- Two hosts that answer alike and do the same when they are called back. -/
structure Host.Same (R : σ → τ → Prop) (host : Host κ σ) (other : Host κ τ) : Prop
    extends Host.Alike R host other where
  setBounds : ∀ component bounds,
    Agree (World.Alike R) (host.setBounds component bounds) (other.setBounds component bounds)
  gridSolved : ∀ grid, Agree (World.Alike R) (host.gridSolved grid) (other.gridSolved grid)

namespace Host.Same

variable {host : Host κ σ} {other : Host κ τ}

theorem resolve (h : host.Same R other) (frame : Frame) :
    Agree (World.Alike R) (Layout.resolve host frame) (Layout.resolve other frame) := by
  unfold Layout.resolve
  refine Agree.layout.bind fun l => ?_
  split
  · refine (Agree.around (h.toAlike.solve rfl rfl frame)).bind fun grid => ?_
    refine (Agree.change _).bind fun _ => ?_
    refine (h.gridSolved grid).outcome.bind fun _ => ?_
    refine Agree.layout.bind fun l => ?_
    split
    · exact .pure _
    · exact .throw _
  · refine Agree.layout.bind fun l => ?_
    split
    · exact .pure _
    · exact .throw _

theorem noteText (h : host.Same R other) (text : Except Fault String)
    (notice : String → Notice κ) :
    Agree (World.Alike R)
      (do
        let text ← Act.around (calculate text)
        Act.around (host.notify (notice text)) : Act κ σ Unit)
      (do
        let text ← Act.around (calculate text)
        Act.around (other.notify (notice text)) : Act κ τ Unit) :=
  (Agree.around (.calculate text)).bind fun _ => Agree.around (h.toAlike.notify _)

theorem placeEntry (h : host.Same R other) (grid : Grid) (handle : Nat) :
    Agree (World.Alike R) (Layout.placeEntry host grid handle)
      (Layout.placeEntry other grid handle) := by
  unfold Layout.placeEntry
  refine Agree.layout.bind fun l => ?_
  split
  · exact .pure _
  · rename_i entry _
    split
    · have hplaced := (Agree.around (h.toAlike.boundsOn grid entry.constraint entry.component)).bind
        fun bounds => h.setBounds entry.component bounds
      refine hplaced.outcome.bind fun placed => ?_
      split
      · exact .pure _
      · exact Agree.layout.bind fun l => h.noteText _ _
    · exact h.noteText _ _

theorem arrange (h : host.Same R other) (frame : Frame) :
    Agree (World.Alike R) (Layout.arrange host frame) (Layout.arrange other frame) := by
  unfold Layout.arrange
  refine (h.resolve frame).bind fun grid => ?_
  exact Agree.layout.bind fun l => Agree.forM _ fun handle _ => h.placeEntry grid handle

end Host.Same

end TrackGrid
