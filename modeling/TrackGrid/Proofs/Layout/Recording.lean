import TrackGrid.Proofs.Layout.Agreement
import TrackGrid.Proofs.Layout.Run

/-! Hosts beside which bounds, calls and grids are noted. Noting changes neither what components
answer nor what callbacks do to the layout. -/

namespace TrackGrid

variable {κ σ τ α : Type}

def beside (x : ExceptT Fault (StateM σ) α) : ExceptT Fault (StateM (σ × τ)) α :=
  ExceptT.mk fun s => ((x.run.run s.1).1, ((x.run.run s.1).2, s.2))

def Beside (kept : σ → Prop) (noted : τ → Prop) (s : σ × τ) : Prop := kept s.1 ∧ noted s.2

namespace Act

def beside (x : Act κ σ α) : Act κ (σ × τ) α :=
  ExceptT.mk fun w =>
    let (result, after) := x.run.run ⟨w.layout, w.around.1⟩
    (result, ⟨after.layout, (after.around, w.around.2)⟩)

end Act

namespace Host

/-- A host that notes which bounds are given to which component before it places the component. -/
def recorded (host : Host κ σ) : Host κ (σ × List (κ × Rect)) where
  preferredSize component := beside (host.preferredSize component)
  minimumSize component := beside (host.minimumSize component)
  setBounds component bounds := do
    Act.around (modify fun s => (s.1, s.2 ++ [(component, bounds)]))
    (host.setBounds component bounds).beside
  gridSolved grid := (host.gridSolved grid).beside
  report notice := fun s => ((), (((host.report notice).run s.1).2, s.2))

variable {host : Host κ σ} {kept : σ → Prop} {noted : List (κ × Rect) → Prop}

theorem run_setBounds_recorded (host : Host κ σ) (component : κ) (bounds : Rect)
    (w : World κ (σ × List (κ × Rect))) :
    ((host.recorded.setBounds component bounds).run.run w).2 =
      ⟨((host.setBounds component bounds).run.run ⟨w.layout, w.around.1⟩).2.layout,
        ((host.setBounds component bounds).run.run ⟨w.layout, w.around.1⟩).2.around,
        w.around.2 ++ [(component, bounds)]⟩ := rfl

theorem recorded_alike (host : Host κ σ) :
    host.recorded.Alike (fun s (t : σ) => s.1 = t) host where
  preferred _ := by
    rintro s _ rfl
    exact ⟨rfl, rfl⟩
  minimum _ := by
    rintro s _ rfl
    exact ⟨rfl, rfl⟩
  report _ := by
    rintro s _ rfl
    rfl

/-- Noting the bounds changes nothing about a pass. -/
theorem recorded_same (host : Host κ σ) : host.recorded.Same (fun s (t : σ) => s.1 = t) host where
  toAlike := host.recorded_alike
  setBounds component bounds := by
    rintro ⟨l, s⟩ ⟨_, _⟩ ⟨rfl, rfl⟩
    exact ⟨rfl, rfl, rfl⟩
  gridSolved grid := by
    rintro ⟨l, s⟩ ⟨_, _⟩ ⟨rfl, rfl⟩
    exact ⟨rfl, rfl, rfl⟩

theorem Keeps.recorded (h : host.Keeps kept) :
    host.recorded.Keeps (Beside kept noted) where
  preferred component s hs := ⟨⟨(h.preferred component s.1 hs.1).1, hs.2⟩, fun _ _ => trivial⟩
  minimum component s hs := ⟨⟨(h.minimum component s.1 hs.1).1, hs.2⟩, fun _ _ => trivial⟩
  report notice s hs := ⟨h.report notice s.1 hs.1, hs.2⟩

end Host

namespace Holds

variable {P : Layout κ → Prop} {kept : σ → Prop} {noted : τ → Prop}

theorem beside {x : Act κ σ α} (h : Holds (World.Has P kept) x fun _ => True) :
    Holds (World.Has P (Beside kept noted)) x.beside fun _ => True := by
  intro w hw
  obtain ⟨⟨hlayout, hkept⟩, -⟩ := h ⟨w.layout, w.around.1⟩ ⟨hw.1, hw.2.1⟩
  exact ⟨⟨hlayout, hkept, hw.2.2⟩, fun _ _ => trivial⟩

/-- What is noted besides may grow by the bounds that are given. -/
theorem setBounds_recorded {host : Host κ σ} {noted : List (κ × Rect) → Prop} {component : κ}
    {bounds : Rect}
    (h : Holds (World.Has P kept) (host.setBounds component bounds) fun _ => True)
    (hnote : ∀ notes, noted notes → noted (notes ++ [(component, bounds)])) :
    Holds (World.Has P (Beside kept noted)) (host.recorded.setBounds component bounds)
      fun _ => True := by
  refine Holds.bind (Q := fun _ => True) (fun w hw => ?_) fun _ _ => h.beside
  exact ⟨⟨hw.1, hw.2.1, hnote _ hw.2.2⟩, fun _ _ => trivial⟩

end Holds

/-- The call of a component with its bounds, and the layout before and after it. -/
structure Call (κ : Type) where
  component : κ
  bounds : Rect
  before : Layout κ
  after : Layout κ
  deriving DecidableEq

namespace Host

/-- A host that notes each call of a component, failed or not, and each grid before it is
announced. -/
def noting (host : Host κ σ) (onCall : Call κ → τ → τ) (onGrid : Grid → τ → τ) :
    Host κ (σ × τ) where
  preferredSize component := beside (host.preferredSize component)
  minimumSize component := beside (host.minimumSize component)
  setBounds component bounds := ExceptT.mk fun w =>
    let (result, after) := (host.setBounds component bounds).run.run ⟨w.layout, w.around.1⟩
    (result, ⟨after.layout,
      (after.around, onCall ⟨component, bounds, w.layout, after.layout⟩ w.around.2)⟩)
  gridSolved grid := do
    Act.around (modify fun s => (s.1, onGrid grid s.2))
    (host.gridSolved grid).beside
  report notice := fun s => ((), (((host.report notice).run s.1).2, s.2))

def observed (host : Host κ σ) : Host κ (σ × List (Call κ)) :=
  host.noting (fun call calls => calls ++ [call]) fun _ calls => calls

def announced (host : Host κ σ) : Host κ (σ × List Grid) :=
  host.noting (fun _ grids => grids) fun grid grids => grids ++ [grid]

variable {onCall : Call κ → τ → τ} {onGrid : Grid → τ → τ}

/-- Noting changes nothing else. -/
theorem noting_same (host : Host κ σ) :
    (host.noting onCall onGrid).Same (fun s (t : σ) => s.1 = t) host where
  preferred _ := by
    rintro s _ rfl
    exact ⟨rfl, rfl⟩
  minimum _ := by
    rintro s _ rfl
    exact ⟨rfl, rfl⟩
  report _ := by
    rintro s _ rfl
    rfl
  setBounds component bounds := by
    rintro ⟨l, s⟩ ⟨_, _⟩ ⟨rfl, rfl⟩
    exact ⟨rfl, rfl, rfl⟩
  gridSolved grid := by
    rintro ⟨l, s⟩ ⟨_, _⟩ ⟨rfl, rfl⟩
    exact ⟨rfl, rfl, rfl⟩

theorem observed_same (host : Host κ σ) : host.observed.Same (fun s (t : σ) => s.1 = t) host :=
  host.noting_same

theorem announced_same (host : Host κ σ) : host.announced.Same (fun s (t : σ) => s.1 = t) host :=
  host.noting_same

theorem Keeps.noting {host : Host κ σ} {kept : σ → Prop} {noted : τ → Prop} (h : host.Keeps kept) :
    (host.noting onCall onGrid).Keeps (Beside kept noted) where
  preferred component s hs := ⟨⟨(h.preferred component s.1 hs.1).1, hs.2⟩, fun _ _ => trivial⟩
  minimum component s hs := ⟨⟨(h.minimum component s.1 hs.1).1, hs.2⟩, fun _ _ => trivial⟩
  report notice s hs := ⟨h.report notice s.1 hs.1, hs.2⟩

/-- Finding the place of a component notes nothing. -/
theorem boundsOn_noting (host : Host κ σ) (grid : Grid) (constraint : Constraint) (component : κ)
    (s : σ × τ) :
    ((Layout.boundsOn (host.noting onCall onGrid) grid constraint component).run.run s).1 =
        ((Layout.boundsOn host grid constraint component).run.run s.1).1 ∧
      ((Layout.boundsOn (host.noting onCall onGrid) grid constraint component).run.run s).2.2 =
        s.2 := by
  have hkeeps : (host.noting onCall onGrid).Keeps (Beside (fun _ => True) (· = s.2)) :=
    (Keeps.always host).noting
  exact ⟨(host.noting_same.toAlike.boundsOn grid constraint component s s.1 rfl).1,
    (hkeeps.boundsOn grid _ _ s ⟨trivial, rfl⟩).1.2⟩

end Host

/-- An act that agrees with another one but for what stands beside the surroundings does the same, if
it leaves that alone. -/
theorem Agree.run_beside {x : Act κ (σ × τ) α} {y : Act κ σ α}
    (h : Agree (World.Alike fun s (t : σ) => s.1 = t) x y) {w v : World κ σ} {notes : τ}
    {out : Except Fault α} (hy : y.run.run w = (out, v))
    (hnotes : (x.run.run ⟨w.layout, (w.around, notes)⟩).2.around.2 = notes) :
    x.run.run ⟨w.layout, (w.around, notes)⟩ = (out, ⟨v.layout, (v.around, notes)⟩) := by
  obtain ⟨hout, hlayout, haround⟩ := h ⟨w.layout, (w.around, notes)⟩ w ⟨rfl, rfl⟩
  rw [hy] at hout hlayout haround
  rcases hx : x.run.run ⟨w.layout, (w.around, notes)⟩ with ⟨result, l, s, notes'⟩
  rw [hx] at hout hlayout haround hnotes
  obtain rfl : result = out := hout
  obtain rfl : l = v.layout := hlayout
  obtain rfl : s = v.around := haround
  obtain rfl : notes' = notes := hnotes
  rfl

end TrackGrid
