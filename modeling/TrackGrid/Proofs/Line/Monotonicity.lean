import TrackGrid.Proofs.Line.Extents
import TrackGrid.Proofs.Number.Order

/-! The required length grows with the extents that are asked for. -/

namespace TrackGrid
namespace Line

variable {m : Type → Type}

/-- A share that is not below zero, if it is a number. -/
theorem nonneg_of_not_le_zero {x : Binary64} (h : (Number.float x).le (.int 0) = false) :
    x.Nonneg ∨ x = .nan := by
  cases x with
  | nan => exact .inr rfl
  | infinite negative =>
    cases negative with
    | false => exact .inl rfl
    | true => cases h
  | finite negative q hq =>
    simp only [Number.le, Number.position, Position.le, Int.zero_mul, decide_eq_false_iff_not] at h
    exact .inl (Int.not_le.mp h).le

/-- The share by which needs are scaled up. -/
private def effective (shares : List Binary64) (takers : Nat) : Binary64 :=
  if (Number.float (sumShares shares)).le (.int 0) then Binary64.ofRatio shares.length takers
  else sumShares shares

private theorem effective_nonneg (shares : List Binary64) (takers : Nat) :
    (effective shares takers).Nonneg ∨ effective shares takers = .nan := by
  unfold effective
  split
  · exact .inl (Binary64.ofQuotient_nonneg _ _)
  · rename_i hle
    exact nonneg_of_not_le_zero (Bool.not_eq_true _ ▸ hle)

private theorem scaledNeed_eq_ok_iff {need k : Int} {shares : List Binary64} {takers : Nat} :
    scaledNeed need shares takers = .ok k ↔
      ∃ x, Binary64.ofInt need = .ok x ∧ (x / effective shares takers).roundHalfUp = .ok k :=
  bind_eq_ok_iff

/-- A larger need is scaled up to no smaller length. -/
theorem scaledNeed_mono {need need' k k' : Int} {shares : List Binary64} {takers : Nat}
    (hle : need ≤ need') (h : scaledNeed need shares takers = .ok k)
    (h' : scaledNeed need' shares takers = .ok k') : k ≤ k' := by
  obtain ⟨x, hx, hk⟩ := scaledNeed_eq_ok_iff.mp h
  obtain ⟨x', hx', hk'⟩ := scaledNeed_eq_ok_iff.mp h'
  rcases effective_nonneg shares takers with hshare | hshare
  · exact Binary64.roundHalfUp_div_mono hshare hle hx hx' hk hk'
  · rw [hshare] at hk
    have hnan : x / Binary64.nan = .nan := by cases x <;> rfl
    rw [hnan] at hk
    cases hk

/-- Whichever extents are asked for, an item has a need or it has none; a larger extent is a need of
no smaller length. -/
theorem needOf_mono {extent extent' : Item m → Int} {cs : List Contribution} {item : Item m}
    (hle : extent item ≤ extent' item) {n n' : Option Int} (h : needOf extent cs item = .ok n)
    (h' : needOf extent' cs item = .ok n') : Option.Rel (· ≤ ·) n n' := by
  unfold needOf at h h'
  dsimp only at h h'
  split at h
  · rename_i hempty
    rw [if_pos hempty] at h'
    obtain rfl := pure_eq_ok_iff.mp h
    obtain rfl := pure_eq_ok_iff.mp h'
    exact .none
  · rename_i hshares
    rw [if_neg hshares] at h'
    obtain ⟨k, hk, hn⟩ := bind_eq_ok_iff.mp h
    obtain ⟨k', hk', hn'⟩ := bind_eq_ok_iff.mp h'
    obtain rfl := pure_eq_ok_iff.mp hn
    obtain rfl := pure_eq_ok_iff.mp hn'
    exact .some (scaledNeed_mono (Int.sub_le_sub_right hle _) hk hk')

private theorem foldlM_max_mono {ι : Type} {need need' : ι → Except Fault (Option Int)}
    {xs : List ι}
    (h : ∀ x ∈ xs, ∀ n n', need x = .ok n → need' x = .ok n' → Option.Rel (· ≤ ·) n n')
    {a a' b b' : Int} (ha : a ≤ a')
    (hb : xs.foldlM (fun longest x => do return max longest ((← need x).getD longest)) a = .ok b)
    (hb' : xs.foldlM (fun longest x => do return max longest ((← need' x).getD longest)) a' =
      .ok b') : b ≤ b' := by
  induction xs generalizing a a' with
  | nil =>
    obtain rfl := pure_eq_ok_iff.mp hb
    obtain rfl := pure_eq_ok_iff.mp hb'
    exact ha
  | cons x xs ih =>
    obtain ⟨hx, hxs⟩ := List.forall_mem_cons.mp h
    rw [List.foldlM_cons] at hb hb'
    obtain ⟨c, hc, hb⟩ := bind_eq_ok_iff.mp hb
    obtain ⟨c', hc', hb'⟩ := bind_eq_ok_iff.mp hb'
    obtain ⟨n, hn, hmax⟩ := bind_eq_ok_iff.mp hc
    obtain ⟨n', hn', hmax'⟩ := bind_eq_ok_iff.mp hc'
    obtain rfl := pure_eq_ok_iff.mp hmax
    obtain rfl := pure_eq_ok_iff.mp hmax'
    refine ih hxs ?_ hb hb'
    cases hx n n' hn hn' with
    | none => exact max_le_max ha ha
    | some hle => exact max_le_max ha hle

/-- Asked for extents that are nowhere larger, the required length is not larger. -/
theorem requiredOf_mono {extent : Item m → Sizing → Int} {tracks : List Track}
    {items : List (Item m)} {kind kind' : Sizing} {length length' : Int}
    (hle : ∀ item ∈ items, extent item kind ≤ extent item kind')
    (h : requiredOf extent tracks items kind = .ok length)
    (h' : requiredOf extent tracks items kind' = .ok length') : length ≤ length' := by
  obtain ⟨cs, hcs, h⟩ := bind_eq_ok_iff.mp h
  obtain ⟨cs', hcs', h'⟩ := bind_eq_ok_iff.mp h'
  obtain rfl := Except.ok.inj (hcs.symm.trans hcs')
  obtain ⟨room, hroom, h⟩ := bind_eq_ok_iff.mp h
  obtain ⟨room', hroom', h'⟩ := bind_eq_ok_iff.mp h'
  obtain rfl := pure_eq_ok_iff.mp h
  obtain rfl := pure_eq_ok_iff.mp h'
  have hneeds : ∀ item ∈ items.filter (·.inside tracks.length), ∀ n n',
      needOf (extent · kind) cs item = .ok n → needOf (extent · kind') cs item = .ok n' →
        Option.Rel (· ≤ ·) n n' := by
    intro item hitem n n' hn hn'
    exact needOf_mono (hle item (List.mem_filter.mp hitem).1) hn hn'
  exact Int.add_le_add_right (foldlM_max_mono hneeds le_rfl hroom hroom') _

end Line
end TrackGrid
