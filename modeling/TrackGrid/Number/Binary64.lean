import TrackGrid.Fault

/-! Floating-point numbers of 53 significant bits. A finite number is a whole number of quanta of 2
^ -1074, so every operation is exact arithmetic on integers followed by one rounding. -/

namespace TrackGrid

namespace Binary64

/-- The number one, in quanta. -/
@[irreducible] def unit : Nat := Nat.pow 2 1074

/-- The first magnitude beyond the finite ones, 2 ^ 1024, in quanta. -/
@[irreducible] def limit : Nat := Nat.pow 2 2098

/-- The distance of neighbouring magnitudes around `q` quanta. -/
def spacing (q : Nat) : Nat := Nat.pow 2 (q.log2 + 1 - 53)

/-- A magnitude of 53 significant bits below the limit. -/
def Representable (q : Nat) : Prop := q % spacing q = 0 ∧ q < limit

instance (q : Nat) : Decidable (Representable q) := inferInstanceAs (Decidable (_ ∧ _))

end Binary64

/-- A floating-point number. Zero has a sign; there is one number that is not a number. -/
inductive Binary64 where
  | finite (negative : Bool) (quanta : Nat) (representable : Binary64.Representable quanta)
  | infinite (negative : Bool)
  | nan
  deriving DecidableEq

namespace Binary64

/-- The multiple of the spacing that is nearest to `num / den` quanta; of two that are equally
near, the even multiple. -/
def nearest (num den : Nat) : Nat :=
  let step := spacing (num / den)
  let wide := den * step
  let low := num / wide
  let rest := num % wide
  (if 2 * rest < wide ∨ (2 * rest = wide ∧ low % 2 = 0) then low else low + 1) * step

theorem mul_pow_mod_spacing {m : Nat} (e : Nat) (hm : m ≤ Nat.pow 2 53) :
    m * Nat.pow 2 e % spacing (m * Nat.pow 2 e) = 0 := by
  rw [spacing]
  simp only [Nat.pow_eq] at hm ⊢
  rcases Nat.eq_or_lt_of_le hm with rfl | hlt
  · rw [← Nat.pow_add, Nat.log2_two_pow]
    exact Nat.mod_eq_zero_of_dvd (Nat.pow_dvd_pow 2 (by omega))
  · rcases Nat.eq_zero_or_pos m with rfl | hpos
    · simp
    · have hne : m * 2 ^ e ≠ 0 := Nat.ne_of_gt (Nat.mul_pos hpos (Nat.two_pow_pos e))
      have hlog : (m * 2 ^ e).log2 < 53 + e := by
        rw [Nat.log2_lt hne, Nat.pow_add]
        exact Nat.mul_lt_mul_of_pos_right hlt (Nat.two_pow_pos e)
      exact Nat.mod_eq_zero_of_dvd
        (Nat.dvd_trans (Nat.pow_dvd_pow 2 (by omega)) (Nat.dvd_mul_left _ _))

private theorem div_spacing_lt (q : Nat) : q / spacing q < Nat.pow 2 53 := by
  have hq : q < 2 ^ (q.log2 + 1) := Nat.lt_log2_self
  simp only [spacing, Nat.pow_eq]
  rw [Nat.div_lt_iff_lt_mul (Nat.two_pow_pos _), ← Nat.pow_add]
  exact Nat.lt_of_lt_of_le hq (Nat.pow_le_pow_right (by decide) (by omega))

/-- A rounded magnitude has 53 significant bits. -/
theorem nearest_mod_spacing (num den : Nat) :
    nearest num den % spacing (nearest num den) = 0 := by
  have hlow : num / (den * spacing (num / den)) < Nat.pow 2 53 := by
    rw [← Nat.div_div_eq_div_mul]
    exact div_spacing_lt _
  simp only [nearest]
  split
  · exact mul_pow_mod_spacing _ (Nat.le_of_lt hlow)
  · exact mul_pow_mod_spacing _ hlow

/-- The number nearest to `num / den` quanta with the given sign, infinite from the limit on. -/
def ofQuotient (negative : Bool) (num den : Nat) : Binary64 :=
  if h : nearest num den < limit then
    .finite negative (nearest num den) ⟨nearest_mod_spacing num den, h⟩
  else .infinite negative

def signed (negative : Bool) (q : Nat) : Int := if negative then -(q : Int) else q

/-- The number nearest to a signed count of quanta; `zero` says which zero an exact zero is. -/
def ofQuanta (zero : Bool) (q : Int) : Binary64 :=
  ofQuotient (if q = 0 then zero else q < 0) q.natAbs 1

/-- The number nearest to an integer. An integer that rounds beyond the finite numbers is none. -/
def ofInt (n : Int) : Except Fault Binary64 :=
  match ofQuanta false (n * unit) with
  | .infinite _ => .error .integerTooLarge
  | x => .ok x

def ofRatio (num den : Nat) : Binary64 := ofQuotient false (num * unit) den

def half : Binary64 := ofRatio 1 2

def zero : Binary64 := ofRatio 0 1

def one : Binary64 := ofRatio 1 1

def neg : Binary64 → Binary64
  | .finite negative q h => .finite (!negative) q h
  | .infinite negative => .infinite (!negative)
  | .nan => .nan

def add : Binary64 → Binary64 → Binary64
  | .nan, _ => .nan
  | _, .nan => .nan
  | .infinite s, .infinite t => if s = t then .infinite s else .nan
  | .infinite s, _ => .infinite s
  | _, .infinite t => .infinite t
  | .finite s p _, .finite t q _ =>
      ofQuanta (s && t) (signed s p + signed t q)

def sub (x y : Binary64) : Binary64 := x.add y.neg

def mul : Binary64 → Binary64 → Binary64
  | .nan, _ => .nan
  | _, .nan => .nan
  | .infinite s, .infinite t => .infinite (s != t)
  | .infinite s, .finite t q _ => if q = 0 then .nan else .infinite (s != t)
  | .finite s p _, .infinite t => if p = 0 then .nan else .infinite (s != t)
  | .finite s p _, .finite t q _ => ofQuotient (s != t) (p * q) unit

def div : Binary64 → Binary64 → Binary64
  | .nan, _ => .nan
  | _, .nan => .nan
  | .infinite _, .infinite _ => .nan
  | .infinite s, .finite t _ _ => .infinite (s != t)
  | .finite s _ _, .infinite t => ofQuotient (s != t) 0 1
  | .finite s p _, .finite t q _ =>
      if q = 0 then if p = 0 then .nan else .infinite (s != t)
      else ofQuotient (s != t) (p * unit) q

instance : Add Binary64 := ⟨add⟩
instance : Sub Binary64 := ⟨sub⟩
instance : Mul Binary64 := ⟨mul⟩
instance : Div Binary64 := ⟨div⟩

def truncate : Binary64 → Except Fault Int
  | .nan => .error .undefinedInteger
  | .infinite _ => .error .infiniteInteger
  | .finite negative q _ => .ok (signed negative (q / unit))

/-- The rounding that all sizes go through: to the nearest integer, a half upwards, where the
sum with one half is itself a rounded one. -/
def roundHalfUp (x : Binary64) : Except Fault Int := (x + half).truncate

end Binary64

end TrackGrid
