import Mathlib.Data.List.Forall2
import TrackGrid.Line

/-! Computations that may fail: what they return (`Returns`), keep (`Holds`), come to an end with
(`Finishes`) and have in common (`Agree`). -/

namespace TrackGrid

variable {σ α β ι : Type}

theorem bind_eq_ok_iff {x : Except Fault α} {f : α → Except Fault β} {b : β} :
    (x >>= f) = .ok b ↔ ∃ a, x = .ok a ∧ f a = .ok b := by
  cases x <;> simp [bind, Except.bind]

theorem pure_eq_ok_iff {a b : α} : (pure a : Except Fault α) = .ok b ↔ a = b := by
  simp [pure, Except.pure]

theorem mapM_eq_ok_iff {f : ι → Except Fault α} {xs : List ι} {as : List α} :
    xs.mapM f = .ok as ↔ List.Forall₂ (fun x a => f x = .ok a) xs as := by
  induction xs generalizing as with
  | nil => rw [List.mapM_nil, pure_eq_ok_iff, List.forall₂_nil_left_iff, eq_comm]
  | cons x xs ih =>
    rw [List.mapM_cons, bind_eq_ok_iff, List.forall₂_cons_left_iff]
    simp only [bind_eq_ok_iff, pure_eq_ok_iff, ih]
    grind

theorem exists_mapM_iff {f : ι → Except Fault α} {xs : List ι} :
    (∃ as, xs.mapM f = .ok as) ↔ ∀ x ∈ xs, ∃ a, f x = .ok a := by
  induction xs with
  | nil => exact iff_of_true ⟨[], rfl⟩ (List.forall_mem_nil _)
  | cons x xs ih =>
    simp only [List.forall_mem_cons, ← ih, List.mapM_cons, bind_eq_ok_iff, pure_eq_ok_iff]
    constructor
    · rintro ⟨_, a, ha, as, has, -⟩
      exact ⟨⟨a, ha⟩, as, has⟩
    · rintro ⟨⟨a, ha⟩, as, has⟩
      exact ⟨_, a, ha, as, has, rfl⟩

/-- What holds of the result for each member holds of all results. -/
theorem forall_of_mapM_eq_ok {f : ι → Except Fault α} {p : α → Prop} {xs : List ι} {as : List α}
    (h : xs.mapM f = .ok as) (hp : ∀ x ∈ xs, ∀ a, f x = .ok a → p a) : ∀ a ∈ as, p a := by
  have hall := mapM_eq_ok_iff.mp h
  clear h
  induction hall with
  | nil => exact List.forall_mem_nil _
  | cons hx _ ih =>
    obtain ⟨hfirst, hrest⟩ := List.forall_mem_cons.mp hp
    exact List.forall_mem_cons.mpr ⟨hfirst _ hx, ih hrest⟩

/-- What fails for a list fails for one of its members. -/
theorem exists_of_mapM_error {f : ι → Except Fault α} {xs : List ι} {fault : Fault}
    (h : xs.mapM f = .error fault) : ∃ x ∈ xs, f x = .error fault := by
  induction xs with
  | nil => cases h
  | cons x xs ih =>
    rw [List.mapM_cons] at h
    cases hx : f x with
    | error other =>
      rw [hx] at h
      cases h
      exact ⟨x, List.mem_cons_self, hx⟩
    | ok a =>
      rw [hx] at h
      cases hxs : xs.mapM f with
      | error other =>
        rw [hxs] at h
        cases h
        obtain ⟨y, hy, hfault⟩ := ih hxs
        exact ⟨y, List.mem_cons_of_mem x hy, hfault⟩
      | ok as =>
        rw [hxs] at h
        cases h

/-- A list fails for a fault if one of its members does and no member fails otherwise. -/
theorem mapM_eq_error {f : ι → Except Fault α} {p : ι → Prop} {xs : List ι} {fault : Fault}
    (hok : ∀ x ∈ xs, p x → ∃ a, f x = .ok a) (hfault : ∀ x ∈ xs, ¬ p x → f x = .error fault)
    (h : ∃ x ∈ xs, ¬ p x) : xs.mapM f = .error fault := by
  cases hlist : xs.mapM f with
  | ok as =>
    obtain ⟨x, hx, hp⟩ := h
    obtain ⟨a, ha⟩ := exists_mapM_iff.mp ⟨as, hlist⟩ x hx
    cases (hfault x hx hp).symm.trans ha
  | error other =>
    obtain ⟨x, hx, hother⟩ := exists_of_mapM_error hlist
    by_cases hp : p x
    · obtain ⟨a, ha⟩ := hok x hx hp
      cases hother.symm.trans ha
    · rw [Except.error.inj (hother.symm.trans (hfault x hx hp))]

/-- A list fails for the fault of the first of its members that has one. -/
theorem mapM_eq_first_error {f : ι → Except Fault α} {fault? : ι → Option Fault} {xs : List ι}
    {fault : Fault} (hok : ∀ x, fault? x = none → ∃ a, f x = .ok a)
    (herror : ∀ x fault, fault? x = some fault → f x = .error fault)
    (h : xs.findSome? fault? = some fault) : xs.mapM f = .error fault := by
  induction xs with
  | nil => cases h
  | cons x xs ih =>
    rw [List.mapM_cons]
    cases hx : fault? x with
    | some other =>
      rw [List.findSome?_cons, hx] at h
      obtain rfl := Option.some.inj h
      rw [herror x _ hx]
      rfl
    | none =>
      rw [List.findSome?_cons, hx] at h
      obtain ⟨a, ha⟩ := hok x hx
      rw [ha, ih h]
      rfl

theorem mapM_congr {m : Type → Type} [Monad m] [LawfulMonad m] {f g : ι → m α} {xs : List ι}
    (h : ∀ x ∈ xs, f x = g x) : xs.mapM f = xs.mapM g := by
  induction xs with
  | nil => rw [List.mapM_nil, List.mapM_nil]
  | cons x xs ih =>
    obtain ⟨hx, hxs⟩ := List.forall_mem_cons.mp h
    rw [List.mapM_cons, List.mapM_cons, hx, ih hxs]

theorem foldlM_congr {m : Type → Type} [Monad m] {f g : α → ι → m α} {xs : List ι}
    (h : ∀ a, ∀ x ∈ xs, f a x = g a x) (a : α) : xs.foldlM f a = xs.foldlM g a := by
  induction xs generalizing a with
  | nil => rfl
  | cons x xs ih =>
    rw [List.foldlM_cons, List.foldlM_cons, h a x List.mem_cons_self]
    exact congrArg _ (funext fun b => ih (fun c y hy => h c y (List.mem_cons_of_mem x hy)) b)

/-- One member of a list may be exchanged for another one if what follows makes up for it. -/
theorem mapM_exchange {m : Type → Type} [Monad m] [LawfulMonad m] {f g : ι → m α} {xs : List ι}
    {i : Nat} {x y : ι} {a b : α} (hx : xs[i]? = some x) (hf : f x = pure a) (hg : g y = pure b)
    (hothers : ∀ j z, xs[j]? = some z → j ≠ i → f z = g z) {next next' : List α → m β}
    (hnext : ∀ as, as[i]? = some a → next as = next' (as.set i b)) :
    xs.mapM f >>= next = (xs.set i y).mapM g >>= next' := by
  induction xs generalizing i next next' with
  | nil => cases hx
  | cons z zs ih =>
    cases i with
    | zero =>
      obtain rfl := Option.some.inj hx
      have hrest : zs.mapM f = zs.mapM g := by
        refine mapM_congr fun z hz => ?_
        obtain ⟨j, hj⟩ := List.getElem?_of_mem hz
        exact hothers (j + 1) z hj (Nat.succ_ne_zero j)
      simp only [List.set_cons_zero, List.mapM_cons, hf, hg, hrest, pure_bind, bind_assoc]
      exact bind_congr fun as => hnext (a :: as) rfl
    | succ i =>
      have hfirst : f z = g z := hothers 0 z rfl (Nat.succ_ne_zero i).symm
      simp only [List.set_cons_succ, List.mapM_cons, hfirst, pure_bind, bind_assoc]
      refine bind_congr fun c => ih hx (fun j z hz hne => ?_) fun as has => ?_
      · exact hothers (j + 1) z hz (by omega)
      · exact hnext (c :: as) has

def Returns (x : ExceptT Fault Id α) (a : α) : Prop := Id.run x.run = .ok a

instance [DecidableEq α] (x : ExceptT Fault Id α) (a : α) : Decidable (Returns x a) :=
  inferInstanceAs (Decidable (Id.run x.run = .ok a))

namespace Returns

theorem pure_iff {a b : α} : Returns (pure a) b ↔ a = b := Except.ok.injEq a b ▸ Iff.rfl

theorem bind_iff {x : ExceptT Fault Id α} {f : α → ExceptT Fault Id β} {b : β} :
    Returns (x >>= f) b ↔ ∃ a, Returns x a ∧ Returns (f a) b := by
  simp only [Returns, ExceptT.run_bind, Id.run_bind]
  rcases h : Id.run x.run with fault | a <;> simp

theorem mapM_iff {f : ι → ExceptT Fault Id α} {xs : List ι} {as : List α} :
    Returns (xs.mapM f) as ↔ List.Forall₂ (fun x a => Returns (f x) a) xs as := by
  induction xs generalizing as with
  | nil => rw [List.mapM_nil, pure_iff, List.forall₂_nil_left_iff, eq_comm]
  | cons x xs ih =>
    rw [List.mapM_cons, bind_iff, List.forall₂_cons_left_iff]
    simp only [bind_iff, pure_iff, ih]
    grind

end Returns

theorem run_bind (x : ExceptT Fault (StateM σ) α) (f : α → ExceptT Fault (StateM σ) β) (s : σ) :
    (x >>= f).run.run s =
      match x.run.run s with
      | (.ok a, t) => (f a).run.run t
      | (.error fault, t) => (.error fault, t) := by
  rw [ExceptT.run_bind, StateT.run_bind]
  rcases h : x.run.run s with ⟨_ | a, t⟩ <;> rfl

theorem run_bind_eq_ok_iff {x : ExceptT Fault (StateM σ) α} {f : α → ExceptT Fault (StateM σ) β}
    {s t : σ} {b : β} : (x >>= f).run.run s = (.ok b, t) ↔
      ∃ a u, x.run.run s = (.ok a, u) ∧ (f a).run.run u = (.ok b, t) := by
  rw [run_bind]
  rcases x.run.run s with ⟨fault | a, u⟩
  · constructor
    · intro h
      cases h
    · rintro ⟨a, u', h, -⟩
      cases h
  · constructor
    · exact fun h => ⟨a, u, rfl, h⟩
    · rintro ⟨a', u', h, h'⟩
      cases h
      exact h'

@[simp] theorem run_calculate (x : Except Fault α) (s : σ) :
    (calculate x : ExceptT Fault (StateM σ) α).run.run s = (x, s) := rfl

theorem run_tryCatch (x : ExceptT Fault (StateM σ) α) (f : Fault → ExceptT Fault (StateM σ) α)
    (s : σ) : (tryCatch x f).run.run s =
      match x.run.run s with
      | (.ok a, t) => (.ok a, t)
      | (.error fault, t) => (f fault).run.run t := by
  rw [ExceptT.run_tryCatch, StateT.run_bind]
  rcases h : x.run.run s with ⟨_ | a, t⟩ <;> rfl

theorem run_forM_cons (f : ι → ExceptT Fault (StateM σ) PUnit) (x : ι) (xs : List ι) (s : σ) :
    ((x :: xs).forM f).run.run s =
      match (f x).run.run s with
      | (.ok _, t) => (xs.forM f).run.run t
      | (.error fault, t) => (.error fault, t) := by
  refine (run_bind (f x) (fun _ => xs.forM f) s).trans ?_
  rcases (f x).run.run s with ⟨fault | _, t⟩ <;> rfl

/-- From the states of `P` on, the computation stays within `P`, and its results satisfy `Q`. -/
def Holds (P : σ → Prop) (x : ExceptT Fault (StateM σ) α) (Q : α → Prop) : Prop :=
  ∀ s, P s → P (x.run.run s).2 ∧ ∀ a, (x.run.run s).1 = .ok a → Q a

namespace Holds

variable {P : σ → Prop} {Q : α → Prop} {R : β → Prop}

theorem always {x : ExceptT Fault (StateM σ) α} : Holds (fun _ => True) x fun _ => True :=
  fun _ _ => ⟨trivial, fun _ _ => trivial⟩

theorem pure {a : α} (h : Q a) : Holds P (pure a) Q :=
  fun _ hs => ⟨hs, fun _ hb => by cases hb; exact h⟩

theorem throw (fault : Fault) : Holds P (throw fault) Q := fun _ hs => ⟨hs, fun _ hb => by cases hb⟩

theorem calculate {x : Except Fault α} (h : ∀ a, x = .ok a → Q a) : Holds P (calculate x) Q :=
  fun _ hs => ⟨hs, h⟩

theorem mono {x : ExceptT Fault (StateM σ) α} {Q' : α → Prop} (h : Holds P x Q)
    (hq : ∀ a, Q a → Q' a) : Holds P x Q' :=
  fun s hs => ⟨(h s hs).1, fun a ha => hq a ((h s hs).2 a ha)⟩

theorem bind {x : ExceptT Fault (StateM σ) α} {f : α → ExceptT Fault (StateM σ) β}
    (hx : Holds P x Q) (hf : ∀ a, Q a → Holds P (f a) R) : Holds P (x >>= f) R := by
  intro s hs
  obtain ⟨hp, hq⟩ := hx s hs
  rw [run_bind]
  rcases h : x.run.run s with ⟨fault | a, t⟩
  · rw [h] at hp
    exact ⟨hp, fun _ hb => by cases hb⟩
  · rw [h] at hp hq
    exact hf a (hq a rfl) t hp

theorem mapM {f : ι → ExceptT Fault (StateM σ) α} {T : ι → α → Prop} (xs : List ι)
    (h : ∀ x ∈ xs, Holds P (f x) (T x)) : Holds P (xs.mapM f) (List.Forall₂ T xs) := by
  induction xs with
  | nil => exact .pure .nil
  | cons x xs ih =>
    rw [List.mapM_cons]
    refine bind (h x (by simp)) fun a ha => ?_
    exact bind (ih fun y hy => h y (by simp [hy])) fun as has => .pure (.cons ha has)

theorem foldlM {f : α → ι → ExceptT Fault (StateM σ) α} (xs : List ι)
    (h : ∀ a, Q a → ∀ x ∈ xs, Holds P (f a x) Q) {a : α} (ha : Q a) :
    Holds P (xs.foldlM f a) Q := by
  induction xs generalizing a with
  | nil => exact .pure ha
  | cons x xs ih =>
    rw [List.foldlM_cons]
    exact bind (h a ha x (by simp)) fun b hb => ih (fun c hc y hy => h c hc y (by simp [hy])) hb

theorem forM {f : ι → ExceptT Fault (StateM σ) PUnit} (xs : List ι)
    (h : ∀ x ∈ xs, Holds P (f x) fun _ => True) : Holds P (xs.forM f) fun _ => True := by
  induction xs with
  | nil => exact .pure trivial
  | cons x xs ih =>
    exact bind (h x (by simp)) fun _ _ => ih fun y hy => h y (by simp [hy])

theorem tryCatch {x : ExceptT Fault (StateM σ) α} {f : Fault → ExceptT Fault (StateM σ) α}
    (hx : Holds P x Q) (hf : ∀ fault, Holds P (f fault) Q) : Holds P (tryCatch x f) Q := by
  intro s hs
  obtain ⟨hp, hq⟩ := hx s hs
  rw [run_tryCatch]
  rcases h : x.run.run s with ⟨fault | a, t⟩
  · rw [h] at hp
    exact hf fault t hp
  · rw [h] at hp hq
    exact ⟨hp, hq⟩

end Holds

/-- From the states of `P` on, the computation does not fail. -/
def Finishes (P : σ → Prop) (x : ExceptT Fault (StateM σ) α) : Prop :=
  ∀ s, P s → ∃ a, (x.run.run s).1 = .ok a

namespace Finishes

variable {P : σ → Prop} {Q : α → Prop}

theorem pure (a : α) : Finishes P (pure a) := fun _ _ => ⟨a, rfl⟩

theorem calculate {x : Except Fault α} (h : ∃ a, x = .ok a) : Finishes P (calculate x) :=
  fun _ _ => h

theorem bind {x : ExceptT Fault (StateM σ) α} {f : α → ExceptT Fault (StateM σ) β}
    (hx : Finishes P x) (hkeeps : Holds P x Q) (hf : ∀ a, Q a → Finishes P (f a)) :
    Finishes P (x >>= f) := by
  intro s hs
  obtain ⟨a, ha⟩ := hx s hs
  obtain ⟨hp, hq⟩ := hkeeps s hs
  rw [run_bind]
  rcases h : x.run.run s with ⟨fault | b, t⟩
  · rw [h] at ha
    cases ha
  · rw [h] at hp hq
    exact hf b (hq b rfl) t hp

theorem mapM {f : ι → ExceptT Fault (StateM σ) α} (xs : List ι)
    (hkeeps : ∀ x ∈ xs, Holds P (f x) fun _ => True) (h : ∀ x ∈ xs, Finishes P (f x)) :
    Finishes P (xs.mapM f) := by
  induction xs with
  | nil => exact .pure []
  | cons x xs ih =>
    obtain ⟨hkeep, hkeeps⟩ := List.forall_mem_cons.mp hkeeps
    obtain ⟨hx, hxs⟩ := List.forall_mem_cons.mp h
    rw [List.mapM_cons]
    refine bind hx hkeep fun a _ => ?_
    exact bind (ih hkeeps hxs) ((Holds.mapM xs hkeeps).mono fun _ _ => trivial) fun _ _ => .pure _

theorem foldlM {f : α → ι → ExceptT Fault (StateM σ) α} (xs : List ι)
    (hkeeps : ∀ a, ∀ x ∈ xs, Holds P (f a x) fun _ => True)
    (h : ∀ a, ∀ x ∈ xs, Finishes P (f a x)) (a : α) : Finishes P (xs.foldlM f a) := by
  induction xs generalizing a with
  | nil => exact .pure a
  | cons x xs ih =>
    rw [List.foldlM_cons]
    refine bind (h a x (by simp)) (hkeeps a x (by simp)) fun b _ => ?_
    exact ih (fun c y hy => hkeeps c y (by simp [hy])) (fun c y hy => h c y (by simp [hy])) b

theorem forM {f : ι → ExceptT Fault (StateM σ) PUnit} (xs : List ι)
    (hkeeps : ∀ x ∈ xs, Holds P (f x) fun _ => True) (h : ∀ x ∈ xs, Finishes P (f x)) :
    Finishes P (xs.forM f) := by
  induction xs with
  | nil => exact .pure _
  | cons x xs ih =>
    refine bind (h x (by simp)) (hkeeps x (by simp)) fun _ _ => ?_
    exact ih (fun y hy => hkeeps y (by simp [hy])) fun y hy => h y (by simp [hy])

/-- What recovers from every failure does not fail. -/
theorem tryCatch {x : ExceptT Fault (StateM σ) α} {f : Fault → ExceptT Fault (StateM σ) α}
    (hx : Holds P x Q) (hf : ∀ fault, Finishes P (f fault)) : Finishes P (tryCatch x f) := by
  intro s hs
  obtain ⟨hp, -⟩ := hx s hs
  rw [run_tryCatch]
  rcases h : x.run.run s with ⟨fault | a, t⟩
  · rw [h] at hp
    exact hf fault t hp
  · exact ⟨a, rfl⟩

end Finishes

/-- From states in the relation on, both computations have the same outcome, and the states they
leave are in the relation. -/
def Agree {τ : Type} (R : σ → τ → Prop) (x : ExceptT Fault (StateM σ) α)
    (y : ExceptT Fault (StateM τ) α) : Prop :=
  ∀ s t, R s t → (x.run.run s).1 = (y.run.run t).1 ∧ R (x.run.run s).2 (y.run.run t).2

namespace Agree

variable {τ : Type} {R : σ → τ → Prop}

theorem pure (a : α) : Agree R (pure a) (pure a) := fun _ _ h => ⟨rfl, h⟩

theorem throw (fault : Fault) : Agree R (α := α) (throw fault) (throw fault) :=
  fun _ _ h => ⟨rfl, h⟩

theorem calculate (x : Except Fault α) : Agree R (calculate x) (calculate x) :=
  fun _ _ h => ⟨rfl, h⟩

theorem bind {x : ExceptT Fault (StateM σ) α} {y : ExceptT Fault (StateM τ) α}
    {f : α → ExceptT Fault (StateM σ) β} {g : α → ExceptT Fault (StateM τ) β}
    (hx : Agree R x y) (hf : ∀ a, Agree R (f a) (g a)) : Agree R (x >>= f) (y >>= g) := by
  intro s t h
  obtain ⟨hout, hrel⟩ := hx s t h
  rw [run_bind, run_bind]
  rcases hxs : x.run.run s with ⟨fault | a, s'⟩ <;>
    rcases hyt : y.run.run t with ⟨fault' | b, t'⟩ <;> rw [hxs, hyt] at hout hrel
  · exact ⟨congrArg _ (Except.error.inj hout), hrel⟩
  · cases hout
  · cases hout
  · cases hout
    exact hf a s' t' hrel

theorem tryCatch {x : ExceptT Fault (StateM σ) α} {y : ExceptT Fault (StateM τ) α}
    {f : Fault → ExceptT Fault (StateM σ) α} {g : Fault → ExceptT Fault (StateM τ) α}
    (hx : Agree R x y) (hf : ∀ fault, Agree R (f fault) (g fault)) :
    Agree R (tryCatch x f) (tryCatch y g) := by
  intro s t h
  obtain ⟨hout, hrel⟩ := hx s t h
  rw [run_tryCatch, run_tryCatch]
  rcases hxs : x.run.run s with ⟨fault | a, s'⟩ <;>
    rcases hyt : y.run.run t with ⟨fault' | b, t'⟩ <;> rw [hxs, hyt] at hout hrel
  · cases hout
    exact hf fault s' t' hrel
  · cases hout
  · cases hout
  · exact ⟨hout, hrel⟩

theorem mapM {f : ι → ExceptT Fault (StateM σ) α} {g : ι → ExceptT Fault (StateM τ) α}
    (xs : List ι) (h : ∀ x ∈ xs, Agree R (f x) (g x)) : Agree R (xs.mapM f) (xs.mapM g) := by
  induction xs with
  | nil => exact .pure []
  | cons x xs ih =>
    rw [List.mapM_cons, List.mapM_cons]
    refine bind (h x (by simp)) fun a => ?_
    exact bind (ih fun y hy => h y (by simp [hy])) fun as => .pure _

theorem forM {f : ι → ExceptT Fault (StateM σ) PUnit} {g : ι → ExceptT Fault (StateM τ) PUnit}
    (xs : List ι) (h : ∀ x ∈ xs, Agree R (f x) (g x)) : Agree R (xs.forM f) (xs.forM g) := by
  induction xs with
  | nil => exact .pure _
  | cons x xs ih => exact bind (h x (by simp)) fun _ => ih fun y hy => h y (by simp [hy])

end Agree

end TrackGrid
