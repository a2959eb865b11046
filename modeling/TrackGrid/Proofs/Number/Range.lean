import TrackGrid.Proofs.Number.Whole

/-! The range of floating-point numbers: which integers and which quotients are rounded to finite
ones. -/

namespace TrackGrid
namespace Binary64

/-- The first integer that is rounded beyond the finite numbers. -/
def intLimit : Nat := Nat.pow 2 1024 - Nat.pow 2 970

/-- What is rounded is the quotient, whichever way it is written. -/
theorem nearest_mul_mul {k : Nat} (hk : 0 < k) (num den : Nat) :
    nearest (k * num) (k * den) = nearest num den := by
  have hdiv : k * num / (k * den) = num / den := Nat.mul_div_mul_left num den hk
  have hlow (wide : Nat) : k * num / (k * wide) = num / wide := Nat.mul_div_mul_left num wide hk
  have hrest (wide : Nat) : k * num % (k * wide) = k * (num % wide) := Nat.mul_mod_mul_left k num wide
  have hhalf (rest wide : Nat) : 2 * (k * rest) < k * wide ↔ 2 * rest < wide := by
    rw [Nat.mul_left_comm, Nat.mul_lt_mul_left hk]
  have htie (rest wide : Nat) : 2 * (k * rest) = k * wide ↔ 2 * rest = wide := by
    rw [Nat.mul_left_comm, Nat.mul_right_inj hk.ne']
  simp only [nearest, hdiv, Nat.mul_assoc, hlow, hrest, hhalf, htie]

private def coarsest : Nat := Nat.pow 2 2045

private theorem largest_eq : largest = (2 ^ 53 - 1) * coarsest := by decide +kernel

private theorem intLimit_eq : 2 * (intLimit * unit) = 2 * largest + coarsest := by decide +kernel

private theorem spacing_largest : spacing largest = coarsest := by decide +kernel

private theorem spacing_pred : spacing (intLimit * unit - 1) = coarsest := by decide +kernel

/-- Between the largest magnitude and the middle to the limit, the largest one is the nearest. -/
private theorem nearest_eq_largest {num den : Nat} (hden : 0 < den) (hlow : den * largest ≤ num)
    (hhigh : num < den * (intLimit * unit)) : nearest num den = largest := by
  have hstep : spacing (num / den) = coarsest := by
    have hge : largest ≤ num / den :=
      (Nat.le_div_iff_mul_le hden).mpr ((Nat.mul_comm largest den).trans_le hlow)
    have hlt : num / den < intLimit * unit := Nat.div_lt_of_lt_mul hhigh
    apply Nat.dvd_antisymm
    · exact spacing_pred ▸ spacing_dvd_spacing (Nat.le_sub_one_of_lt hlt)
    · exact spacing_largest ▸ spacing_dvd_spacing hge
  obtain ⟨rest, rfl⟩ := Nat.exists_eq_add_of_le hlow
  have hrest : 2 * rest < den * coarsest := by
    have hdouble : 2 * (den * largest + rest) < den * (2 * (intLimit * unit)) := by
      rw [Nat.mul_left_comm den]
      exact Nat.mul_lt_mul_of_pos_left hhigh Nat.two_pos
    rw [intLimit_eq, Nat.mul_add, Nat.mul_add, Nat.mul_left_comm 2 den] at hdouble
    exact Nat.add_lt_add_iff_left.mp hdouble
  have hwide : rest < den * coarsest := by omega
  have hnum : den * largest + rest = rest + den * coarsest * (2 ^ 53 - 1) := by
    rw [largest_eq, Nat.add_comm, Nat.mul_assoc, Nat.mul_comm (2 ^ 53 - 1)]
  simp only [nearest, hstep]
  rw [hnum, Nat.add_mul_mod_self_left, Nat.mod_eq_of_lt hwide, if_pos (.inl hrest),
    Nat.add_mul_div_left _ _ (Nat.zero_lt_of_lt hwide), Nat.div_eq_of_lt hwide, Nat.zero_add,
    largest_eq]

/-- A quotient is rounded to a finite magnitude just if it is below the first integer that is not. -/
theorem nearest_lt_limit_iff {num den : Nat} (hden : 0 < den) :
    nearest num den < limit ↔ num < den * (intLimit * unit) := by
  constructor
  · intro hlt
    by_contra hle
    have hlimit : nearest (den * (intLimit * unit)) den = limit := by
      have hscaled := nearest_mul_mul hden (intLimit * unit) 1
      rw [Nat.mul_one] at hscaled
      rw [hscaled]
      decide +kernel
    have hmono := nearest_mono hden (Nat.not_lt.mp hle)
    omega
  · intro hlt
    rcases Nat.le_total num (den * largest) with hle | hge
    · exact (nearest_le_of_representable hden largest_representable hle).trans_lt
        largest_representable.2
    · rw [nearest_eq_largest hden hge hlt]
      exact largest_representable.2

private theorem ofQuanta_int (n : Int) : ∃ negative,
    ofQuanta false (n * unit) = ofQuotient negative (n.natAbs * unit) 1 :=
  ⟨_, by rw [ofQuanta, Int.natAbs_mul, Int.natAbs_natCast]⟩

private theorem nearest_int_lt_iff {n : Nat} : nearest (n * unit) 1 < limit ↔ n < intLimit := by
  rw [nearest_lt_limit_iff Nat.one_pos, Nat.one_mul, Nat.mul_lt_mul_right unit_pos]

/-- An integer in the range becomes the finite number nearest to it. -/
theorem ofInt_of_natAbs_lt {n : Int} (h : n.natAbs < intLimit) :
    ∃ negative hr, ofInt n = .ok (.finite negative (nearest (n.natAbs * unit) 1) hr) := by
  obtain ⟨negative, hquanta⟩ := ofQuanta_int n
  obtain ⟨hr, heq⟩ := ofQuotient_eq negative (nearest_int_lt_iff.mpr h)
  exact ⟨negative, hr, by rw [ofInt, hquanta, heq]⟩

/-- Any other integer becomes none. -/
theorem ofInt_of_le_natAbs {n : Int} (h : intLimit ≤ n.natAbs) :
    ofInt n = .error .integerTooLarge := by
  obtain ⟨negative, hquanta⟩ := ofQuanta_int n
  rw [ofInt, hquanta, ofQuotient_infinite (mt nearest_int_lt_iff.mp (Nat.not_lt.mpr h))]

theorem infinite_roundHalfUp (negative : Bool) :
    (infinite negative).roundHalfUp = .error .infiniteInteger := by
  rw [roundHalfUp, half_eq_finite]
  rfl

section
variable {negative : Bool} {p q : Nat} {hp : Representable p} {hq : Representable q}

private theorem div_positive (hpos : 0 < q) :
    finite negative p hp / finite false q hq = ofQuotient negative (p * unit) q := by
  change div _ _ = _
  simp only [div, if_neg hpos.ne', Bool.bne_false]

private theorem nearest_quotient_lt_iff (hpos : 0 < q) :
    nearest (p * unit) q < limit ↔ p < q * intLimit := by
  rw [nearest_lt_limit_iff hpos, ← Nat.mul_assoc, Nat.mul_lt_mul_right unit_pos]

/-- A finite number is divided by one above zero and rounded to an integer as long as it is not so
many times as large as there are integers in the range. -/
theorem exists_roundHalfUp_div (h : p < q * intLimit) :
    ∃ k, (finite negative p hp / finite false q hq).roundHalfUp = .ok k := by
  have hpos : 0 < q := Nat.pos_of_mul_pos_right (Nat.zero_lt_of_lt h)
  obtain ⟨hr, heq⟩ := ofQuotient_eq negative ((nearest_quotient_lt_iff hpos).mpr h)
  rw [div_positive hpos, heq]
  exact exists_roundHalfUp_finite negative hr

/-- From there on the quotient is infinite. -/
theorem roundHalfUp_div_of_le (hpos : 0 < q) (h : q * intLimit ≤ p) :
    (finite negative p hp / finite false q hq).roundHalfUp = .error .infiniteInteger := by
  rw [div_positive hpos,
    ofQuotient_infinite (mt (nearest_quotient_lt_iff hpos).mp (Nat.not_lt.mpr h)),
    infinite_roundHalfUp]

end

end Binary64
end TrackGrid
