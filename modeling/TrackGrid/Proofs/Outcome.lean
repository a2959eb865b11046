import TrackGrid.Proofs.Effect

/-! Outcomes that do not depend on the state (`Gives`), and outcomes that match up to what a failure
is (`Matches`, `Likewise`). -/

namespace TrackGrid

variable {σ τ α β γ δ ι : Type}

/-- Both outcomes are failures, of whatever kind, or both are results and in the relation. -/
inductive Matches (S : α → β → Prop) : Except Fault α → Except Fault β → Prop
  | results {a : α} {b : β} (h : S a b) : Matches S (.ok a) (.ok b)
  | faults (fault other : Fault) : Matches S (.error fault) (.error other)

namespace Matches

variable {S : α → β → Prop} {T : γ → δ → Prop} {x : Except Fault α} {y : Except Fault β}

theorem of_eq {x y : Except Fault α} (h : x = y) : Matches (· = ·) x y := by
  subst h
  cases x with
  | error fault => exact .faults fault fault
  | ok a => exact .results rfl

theorem trans {x y z : Except Fault α} (h : Matches (· = ·) x y) (h' : Matches (· = ·) y z) :
    Matches (· = ·) x z := by
  cases h with
  | results h =>
    subst h
    exact h'
  | faults fault other =>
    cases h' with
    | faults _ last => exact .faults fault last

theorem bind {f : α → Except Fault γ} {g : β → Except Fault δ} (hx : Matches S x y)
    (hf : ∀ a b, S a b → Matches T (f a) (g b)) : Matches T (x >>= f) (y >>= g) := by
  cases hx with
  | results h => exact hf _ _ h
  | faults fault other => exact .faults fault other

/-- Folding over a list in another order, with steps of which any two may be exchanged. -/
theorem foldlM_perm {step : α → ι → Except Fault α} {xs ys : List ι}
    (hstep : ∀ a x y,
      Matches (· = ·) (step a x >>= fun b => step b y) (step a y >>= fun b => step b x))
    (hperm : xs.Perm ys) (a : α) : Matches (· = ·) (xs.foldlM step a) (ys.foldlM step a) := by
  induction hperm generalizing a with
  | nil => exact of_eq rfl
  | cons x _ ih =>
    rw [List.foldlM_cons, List.foldlM_cons]
    refine bind (of_eq rfl) fun b c hbc => ?_
    subst hbc
    exact ih b
  | swap x y xs =>
    simp only [List.foldlM_cons, ← bind_assoc]
    refine bind (hstep a y x) fun b c hbc => ?_
    subst hbc
    exact of_eq rfl
  | trans _ _ ih ih' => exact (ih a).trans (ih' a)

end Matches

/-- From the states of `P` on, the computation has the outcome and stays within `P`. -/
def Gives (P : σ → Prop) (x : ExceptT Fault (StateM σ) α) (r : Except Fault α) : Prop :=
  ∀ s, P s → (x.run.run s).1 = r ∧ P (x.run.run s).2

namespace Gives

variable {P : σ → Prop}

theorem pure (a : α) : Gives P (pure a) (.ok a) := fun _ hs => ⟨rfl, hs⟩

theorem calculate (r : Except Fault α) : Gives P (calculate r) r := fun _ hs => ⟨rfl, hs⟩

theorem bind {x : ExceptT Fault (StateM σ) α} {r : Except Fault α}
    {f : α → ExceptT Fault (StateM σ) β} {g : α → Except Fault β} (hx : Gives P x r)
    (hf : ∀ a, Gives P (f a) (g a)) : Gives P (x >>= f) (r >>= g) := by
  intro s hs
  obtain ⟨hout, hp⟩ := hx s hs
  rw [run_bind]
  rcases h : x.run.run s with ⟨fault | a, t⟩ <;> rw [h] at hout hp <;> subst hout
  · exact ⟨rfl, hp⟩
  · exact hf a t hp

theorem bind_ok {x : ExceptT Fault (StateM σ) α} {a : α} {f : α → ExceptT Fault (StateM σ) β}
    {r : Except Fault β} (hx : Gives P x (.ok a)) (hf : Gives P (f a) r) :
    Gives P (x >>= f) r := by
  intro s hs
  obtain ⟨hout, hp⟩ := hx s hs
  rw [run_bind]
  rcases h : x.run.run s with ⟨_, t⟩
  rw [h] at hout hp
  subst hout
  exact hf t hp

theorem mapM {f : ι → ExceptT Fault (StateM σ) α} {g : ι → Except Fault α} (xs : List ι)
    (h : ∀ x ∈ xs, Gives P (f x) (g x)) : Gives P (xs.mapM f) (xs.mapM g) := by
  induction xs with
  | nil => exact .pure []
  | cons x xs ih =>
    rw [List.mapM_cons, List.mapM_cons]
    refine bind (h x (by simp)) fun a => ?_
    exact bind (ih fun y hy => h y (by simp [hy])) fun as => .pure _

theorem foldlM {f : α → ι → ExceptT Fault (StateM σ) α} {g : α → ι → Except Fault α} (xs : List ι)
    (h : ∀ a, ∀ x ∈ xs, Gives P (f a x) (g a x)) (a : α) :
    Gives P (xs.foldlM f a) (xs.foldlM g a) := by
  induction xs generalizing a with
  | nil => exact .pure a
  | cons x xs ih =>
    rw [List.foldlM_cons, List.foldlM_cons]
    refine bind (h a x (by simp)) fun b => ?_
    exact ih (fun c y hy => h c y (by simp [hy])) b

end Gives

/-- From states in the relation on, both computations fail or both come to results in a relation, and
the states they leave are in the relation. -/
def Likewise (R : σ → τ → Prop) (S : α → β → Prop) (x : ExceptT Fault (StateM σ) α)
    (y : ExceptT Fault (StateM τ) β) : Prop :=
  ∀ s t, R s t → Matches S (x.run.run s).1 (y.run.run t).1 ∧ R (x.run.run s).2 (y.run.run t).2

namespace Likewise

variable {R : σ → τ → Prop} {S : α → β → Prop} {T : γ → δ → Prop}

theorem pure {a : α} {b : β} (h : S a b) : Likewise R S (pure a) (pure b) :=
  fun _ _ hst => ⟨.results h, hst⟩

theorem calculate {x : Except Fault α} {y : Except Fault β} (h : Matches S x y) :
    Likewise R S (calculate x) (calculate y) :=
  fun _ _ hst => ⟨h, hst⟩

theorem bind {x : ExceptT Fault (StateM σ) α} {y : ExceptT Fault (StateM τ) β}
    {f : α → ExceptT Fault (StateM σ) γ} {g : β → ExceptT Fault (StateM τ) δ}
    (hx : Likewise R S x y) (hf : ∀ a b, S a b → Likewise R T (f a) (g b)) :
    Likewise R T (x >>= f) (y >>= g) := by
  intro s t hst
  obtain ⟨hout, hrel⟩ := hx s t hst
  rw [run_bind, run_bind]
  rcases h : x.run.run s with ⟨fault | a, s'⟩ <;>
    rcases h' : y.run.run t with ⟨fault' | b, t'⟩ <;> rw [h, h'] at hout hrel <;> cases hout
  · exact ⟨.faults _ _, hrel⟩
  · rename_i hab
    exact hf a b hab s' t' hrel

theorem forM {f : ι → ExceptT Fault (StateM σ) PUnit} {g : ι → ExceptT Fault (StateM τ) PUnit}
    (xs : List ι) (h : ∀ x ∈ xs, Likewise R (fun _ _ => True) (f x) (g x)) :
    Likewise R (fun _ _ => True) (xs.forM f) (xs.forM g) := by
  induction xs with
  | nil => exact .pure trivial
  | cons x xs ih =>
    exact bind (h x (by simp)) fun _ _ _ => ih fun y hy => h y (by simp [hy])

end Likewise

end TrackGrid
