import TrackGrid.Proofs.Number.Rounding

/-! The order of floating-point numbers: `nearest` is monotone, and it leaves alone what can be
represented. -/

namespace TrackGrid
namespace Binary64

theorem le_nearest_of_dvd {num den m : Nat} (hden : 0 < den) (hm : spacing (num / den) ∣ m)
    (h : den * m ≤ num) : m ≤ nearest num den := by
  obtain ⟨k, rfl⟩ := hm
  have hwide : 0 < den * spacing (num / den) := Nat.mul_pos hden (spacing_pos _)
  have hlow : k ≤ num / (den * spacing (num / den)) := by
    rw [Nat.le_div_iff_mul_le hwide, Nat.mul_comm, Nat.mul_assoc]
    exact h
  simp only [nearest]
  rw [Nat.mul_comm (spacing _) k]
  apply Nat.mul_le_mul_right
  split
  · exact hlow
  · exact hlow.trans (Nat.le_succ _)

/-- What can be represented is not rounded. -/
theorem nearest_mul {den m : Nat} (hden : 0 < den) (hm : Representable m) :
    nearest (den * m) den = m := by
  have hdvd : spacing (den * m / den) ∣ m := by
    rw [Nat.mul_div_cancel_left m hden]
    exact hm.spacing_dvd
  apply Nat.le_antisymm
  · exact nearest_le_of_dvd hden hdvd le_rfl
  · exact le_nearest_of_dvd hden hdvd le_rfl

/-- Below a power of two that the larger quotient reaches, the smaller one rounds no higher. -/
private theorem nearest_le_of_log2_lt {num num' den : Nat} (hden : 0 < den)
    (h : (num / den).log2 < (num' / den).log2) : nearest num den ≤ nearest num' den := by
  have hne : num' / den ≠ 0 := by
    intro hzero
    rw [hzero] at h
    simp at h
  have hlow : num ≤ den * 2 ^ (num' / den).log2 := by
    have hlt : num / den < 2 ^ ((num / den).log2 + 1) := Nat.lt_log2_self
    have hpow : num / den < 2 ^ (num' / den).log2 :=
      hlt.trans_le (Nat.pow_le_pow_right Nat.two_pos h)
    rw [Nat.mul_comm]
    exact ((Nat.div_lt_iff_lt_mul hden).mp hpow).le
  have hhigh : den * 2 ^ (num' / den).log2 ≤ num' := by
    rw [Nat.mul_comm]
    exact (Nat.le_div_iff_mul_le hden).mp (Nat.log2_self_le hne)
  have hdvd {q : Nat} (hq : q.log2 ≤ (num' / den).log2) : spacing q ∣ 2 ^ (num' / den).log2 := by
    rw [spacing_eq]
    exact Nat.pow_dvd_pow 2 (by omega)
  calc
    nearest num den ≤ 2 ^ (num' / den).log2 := nearest_le_of_dvd hden (hdvd h.le) hlow
    _ ≤ nearest num' den := le_nearest_of_dvd hden (hdvd le_rfl) hhigh

/-- On one grid the larger of two quotients rounds no lower. -/
private theorem nearest_le_of_spacing_eq {num num' den : Nat} (h : num ≤ num')
    (hstep : spacing (num / den) = spacing (num' / den)) : nearest num den ≤ nearest num' den := by
  simp only [nearest, hstep]
  generalize den * spacing (num' / den) = wide
  apply Nat.mul_le_mul_right
  have hlow : num / wide ≤ num' / wide := Nat.div_le_div_right h
  have hdiv := Nat.div_add_mod num wide
  have hdiv' := Nat.div_add_mod num' wide
  rcases hlow.lt_or_eq with hlt | heq
  · split <;> split <;> omega
  · rw [heq] at hdiv ⊢
    split <;> split <;> omega

/-- Rounding keeps the order. -/
theorem nearest_mono {num num' den : Nat} (hden : 0 < den) (h : num ≤ num') :
    nearest num den ≤ nearest num' den := by
  rcases (log2_mono (Nat.div_le_div_right (c := den) h)).lt_or_eq with hlt | heq
  · exact nearest_le_of_log2_lt hden hlt
  · exact nearest_le_of_spacing_eq h (by rw [spacing_eq, spacing_eq, heq])

/-- Rounding moves a magnitude by at most half of the distance of its neighbours. -/
theorem nearest_near (n : Nat) :
    2 * n ≤ 2 * nearest n 1 + spacing n ∧ 2 * nearest n 1 ≤ 2 * n + spacing n := by
  have hdiv := Nat.div_add_mod n (spacing n)
  have hrest := Nat.mod_lt n (spacing_pos n)
  rw [Nat.mul_comm] at hdiv
  simp only [nearest, Nat.div_one, Nat.one_mul]
  split
  · omega
  · rw [Nat.add_one_mul (n / spacing n)]
    omega

/-- The signed count of quanta of a finite number. -/
def quanta? : Binary64 → Option Int
  | .finite negative q _ => some (signed negative q)
  | _ => none

def rounded (den : Nat) (q : Int) : Int := signed (decide (q < 0)) (nearest q.natAbs den)

theorem signed_mul (negative : Bool) (p q : Nat) :
    signed negative (p * q) = signed negative p * q := by
  cases negative with
  | false => exact Int.natCast_mul p q
  | true => simp only [signed, if_true, Int.natCast_mul, Int.neg_mul]

theorem signed_natAbs (n : Int) : signed (decide (n < 0)) n.natAbs = n := by
  by_cases hn : n < 0
  · simp only [signed, hn, decide_true, if_true]
    omega
  · simp only [signed, hn, decide_false, Bool.false_eq_true, if_false]
    omega

theorem rounded_of_signed {den : Nat} (hden : 0 < den) (negative : Bool) (q : Nat) :
    rounded den (signed negative q) = signed negative (nearest q den) := by
  rcases Nat.eq_zero_or_pos q with rfl | hq
  · have hzero : nearest 0 den = 0 := nearest_mul (m := 0) hden (by decide +kernel)
    cases negative <;> simp [rounded, signed, hzero]
  · cases negative with
    | false => simp [rounded, signed]
    | true =>
      have hneg : -(q : Int) < 0 := by omega
      simp only [rounded, signed, if_true, hneg, decide_true, Int.natAbs_neg, Int.natAbs_natCast]

theorem rounded_mono {den : Nat} (hden : 0 < den) {p q : Int} (h : p ≤ q) :
    rounded den p ≤ rounded den q := by
  unfold rounded
  by_cases hp : p < 0
  · by_cases hq : q < 0
    · have hle : nearest q.natAbs den ≤ nearest p.natAbs den := nearest_mono hden (by omega)
      simp only [signed, hp, hq, decide_true, if_true]
      omega
    · simp only [signed, hp, hq, decide_true, decide_false, if_true, Bool.false_eq_true, if_false]
      omega
  · have hq : ¬ q < 0 := by omega
    have hle : nearest p.natAbs den ≤ nearest q.natAbs den := nearest_mono hden (by omega)
    simp only [signed, hp, hq, decide_false, Bool.false_eq_true, if_false]
    omega

private theorem quanta?_ofQuotient {negative : Bool} {num den : Nat} {v : Int} (hden : 0 < den)
    (h : (ofQuotient negative num den).quanta? = some v) :
    v = rounded den (signed negative num) := by
  rw [rounded_of_signed hden]
  unfold ofQuotient at h
  split at h
  · exact (Option.some.inj h).symm
  · cases h

private theorem quanta?_ofQuanta {zero : Bool} {q v : Int}
    (h : (ofQuanta zero q).quanta? = some v) :
    v = rounded 1 q := by
  have hv := quanta?_ofQuotient Nat.one_pos h
  by_cases hq : q = 0
  · subst hq
    rw [hv]
    cases zero <;> rfl
  · rw [hv, if_neg hq, signed_natAbs]

theorem quanta?_ofInt {n : Int} {x : Binary64} (h : ofInt n = .ok x) :
    x.quanta? = some (rounded 1 (n * unit)) := by
  unfold ofInt at h
  cases hq : ofQuanta false (n * unit) with
  | infinite =>
    rw [hq] at h
    cases h
  | nan =>
    unfold ofQuanta ofQuotient at hq
    split at hq <;> cases hq
  | finite negative q hr =>
    rw [hq] at h
    obtain rfl := Except.ok.inj h
    have hv := quanta?_ofQuanta (v := signed negative q) (by rw [hq]; rfl)
    rw [quanta?, hv]

private theorem quanta?_add {x y : Binary64} {p v : Int} (hy : y.quanta? = some p)
    (h : (x + y).quanta? = some v) : ∃ q, x.quanta? = some q ∧ v = rounded 1 (q + p) := by
  cases y with
  | infinite => cases hy
  | nan => cases hy
  | finite t b hb =>
    cases x with
    | infinite => cases h
    | nan => cases h
    | finite s a ha =>
      obtain rfl := Option.some.inj hy
      exact ⟨_, rfl, quanta?_ofQuanta h⟩

/-- Nothing is left of a number that is divided by an infinite one. -/
theorem quanta?_div_infinite {x : Binary64} {negative : Bool} {v : Int}
    (h : (x / infinite negative).quanta? = some v) : v = 0 := by
  cases x with
  | infinite => cases h
  | nan => cases h
  | finite s a ha =>
    rw [quanta?_ofQuotient Nat.one_pos h]
    cases s <;> cases negative <;> decide +kernel

private theorem quanta?_div_finite {x : Binary64} {negative : Bool} {q : Nat} {hq : Representable q}
    {p v : Int} (hx : x.quanta? = some p) (hy : (finite negative q hq).Nonneg)
    (h : (x / finite negative q hq).quanta? = some v) : 0 < q ∧ v = rounded q (p * unit) := by
  cases x with
  | infinite => cases hx
  | nan => cases hx
  | finite s a ha =>
    obtain rfl := Option.some.inj hx
    change (div _ _).quanta? = some v at h
    rcases Nat.eq_zero_or_pos q with rfl | hpos
    · simp only [div, if_true] at h
      split at h <;> cases h
    · have hsign : negative = false := by
        cases negative with
        | false => rfl
        | true =>
          simp only [Nonneg, signed, if_true] at hy
          omega
      simp only [div, if_neg hpos.ne', hsign, Bool.bne_false] at h
      rw [← signed_mul]
      exact ⟨hpos, quanta?_ofQuotient hpos h⟩

private theorem truncate_eq {x : Binary64} {n : Int} (h : x.truncate = .ok n) :
    ∃ p, x.quanta? = some p ∧ n = p.tdiv unit := by
  cases x with
  | nan => cases h
  | infinite => cases h
  | finite negative q hr =>
    obtain rfl := Except.ok.inj h
    refine ⟨_, rfl, ?_⟩
    cases negative with
    | false => exact (Int.natCast_ediv q unit).trans (Int.tdiv_eq_ediv_of_nonneg (by simp)).symm
    | true =>
      simp only [signed, if_true, Int.neg_tdiv]
      rw [Int.tdiv_eq_ediv_of_nonneg (by simp), Int.natCast_ediv]

def halfUnit : Nat := Nat.pow 2 1073

/-- Rounding to an integer, told by the count of quanta. -/
theorem roundHalfUp_eq {x : Binary64} {n : Int} (h : x.roundHalfUp = .ok n) :
    ∃ p, x.quanta? = some p ∧ n = (rounded 1 (p + halfUnit)).tdiv unit := by
  obtain ⟨v, hv, rfl⟩ := truncate_eq h
  have hhalf : half.quanta? = some halfUnit := by decide +kernel
  obtain ⟨p, hp, rfl⟩ := quanta?_add hhalf hv
  exact ⟨p, hp, rfl⟩

/-- Rounding to integers keeps the order. -/
theorem roundHalfUp_mono {x x' : Binary64} {p p' k k' : Int} (hp : x.quanta? = some p)
    (hp' : x'.quanta? = some p') (hle : p ≤ p') (hk : x.roundHalfUp = .ok k)
    (hk' : x'.roundHalfUp = .ok k') : k ≤ k' := by
  obtain ⟨q, hq, rfl⟩ := roundHalfUp_eq hk
  obtain ⟨q', hq', rfl⟩ := roundHalfUp_eq hk'
  obtain rfl := Option.some.inj (hp.symm.trans hq)
  obtain rfl := Option.some.inj (hp'.symm.trans hq')
  apply Int.tdiv_le_tdiv (by decide +kernel)
  exact rounded_mono Nat.one_pos (Int.add_le_add_right hle _)

/-- Integers divided by one number that is not below zero and rounded to integers again keep their
order. -/
theorem roundHalfUp_div_mono {n n' k k' : Int} {x x' y : Binary64} (hy : y.Nonneg) (hle : n ≤ n')
    (hx : ofInt n = .ok x) (hx' : ofInt n' = .ok x') (hk : (x / y).roundHalfUp = .ok k)
    (hk' : (x' / y).roundHalfUp = .ok k') : k ≤ k' := by
  have hunit : (0 : Int) ≤ unit := Int.natCast_nonneg _
  obtain ⟨p, hp, -⟩ := roundHalfUp_eq hk
  obtain ⟨p', hp', -⟩ := roundHalfUp_eq hk'
  refine roundHalfUp_mono hp hp' ?_ hk hk'
  cases y with
  | nan => cases hy
  | infinite => rw [quanta?_div_infinite hp, quanta?_div_infinite hp']
  | finite =>
    obtain ⟨hpos, rfl⟩ := quanta?_div_finite (quanta?_ofInt hx) hy hp
    obtain ⟨-, rfl⟩ := quanta?_div_finite (quanta?_ofInt hx') hy hp'
    apply rounded_mono hpos
    apply Int.mul_le_mul_of_nonneg_right _ hunit
    exact rounded_mono Nat.one_pos (Int.mul_le_mul_of_nonneg_right hle hunit)

end Binary64
end TrackGrid
