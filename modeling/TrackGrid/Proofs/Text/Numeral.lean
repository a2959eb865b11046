import Mathlib.Algebra.Order.Ring.Nat
import TrackGrid.Number

/-! Reading takes back what writing gives, and takes any other numeral of an integer too, with zeros
and a sign in front. -/

namespace TrackGrid
namespace Text

theorem natOfDigits_digitsOfNat (n : Nat) : natOfDigits (digitsOfNat n) = n := by
  rw [natOfDigits, ← Nat.ofDigitChars_eq_foldl, digitsOfNat, Nat.ofDigitChars_ten_toDigits]

theorem isDigit_of_mem_digitsOfNat {n : Nat} {c : Char} (h : c ∈ digitsOfNat n) :
    c.isDigit = true :=
  Nat.isDigit_of_mem_toDigits (by decide) (by decide) h

private theorem toNat_sub_lt {c : Char} (h : c.isDigit = true) : c.toNat - '0'.toNat < 10 := by
  have hhigh : c.toNat ≤ 57 := by
    simp only [Char.isDigit, Bool.and_eq_true, decide_eq_true_eq] at h
    exact h.2
  change c.toNat - 48 < 10
  omega

/-- Digits write a number below the power of ten of their count. -/
theorem natOfDigits_lt {cs : List Char} (h : ∀ c ∈ cs, c.isDigit = true) :
    natOfDigits cs < 10 ^ cs.length := by
  rw [natOfDigits, ← Nat.ofDigitChars_eq_foldl]
  induction cs with
  | nil => simp
  | cons c cs ih =>
    have htail := ih fun d hd => h d (by simp [hd])
    have hdigit := toNat_sub_lt (h c (by simp))
    rw [Nat.ofDigitChars_cons, Nat.ofDigitChars_eq_ofDigitChars_zero, List.length_cons,
      Nat.mul_zero, Nat.zero_add]
    calc
      _ < 10 ^ cs.length * (c.toNat - '0'.toNat) + 10 ^ cs.length := Nat.add_lt_add_left htail _
      _ = 10 ^ cs.length * (c.toNat - '0'.toNat + 1) := by rw [Nat.mul_add, Nat.mul_one]
      _ ≤ 10 ^ cs.length * 10 := Nat.mul_le_mul_left _ hdigit
      _ = 10 ^ (cs.length + 1) := by rw [Nat.pow_succ]

/-- Writing drops zeros in front and adds none. -/
theorem length_digitsOfNat_le {cs : List Char} (hne : cs ≠ []) (h : ∀ c ∈ cs, c.isDigit = true) :
    (digitsOfNat (natOfDigits cs)).length ≤ cs.length :=
  (Nat.length_toDigits_le_iff (by decide) (List.length_pos_iff.mpr hne)).mpr (natOfDigits_lt h)

theorem splitSign_of_isDigit {cs : List Char} (h : ∀ c ∈ cs, c.isDigit = true) :
    splitSign cs = (false, cs) := by
  unfold splitSign
  split
  · have hminus := h '-' (by simp)
    cases hminus
  · have hplus := h '+' (by simp)
    cases hplus
  · rfl

private theorem splitSign_numeralOfInt (n : Int) :
    splitSign (numeralOfInt n) = (decide (n < 0), digitsOfNat n.natAbs) := by
  unfold numeralOfInt
  by_cases hn : n < 0
  · rw [if_pos hn, decide_eq_true hn]
    rfl
  · rw [if_neg hn, decide_eq_false hn]
    exact splitSign_of_isDigit fun c hc => isDigit_of_mem_digitsOfNat hc

theorem numeral?_of_splitSign {cs ds : List Char} {negative : Bool}
    (hsign : splitSign cs = (negative, ds)) (hne : ds ≠ []) (h : ∀ c ∈ ds, c.isDigit = true) :
    numeral? cs = some (negative, ds) := by
  unfold numeral?
  rw [hsign]
  exact if_pos ⟨hne, List.all_eq_true.mpr h⟩

private theorem numeral?_numeralOfInt (n : Int) :
    numeral? (numeralOfInt n) = some (decide (n < 0), digitsOfNat n.natAbs) :=
  numeral?_of_splitSign (splitSign_numeralOfInt n) Nat.toDigits_ne_nil
    fun _ hc => isDigit_of_mem_digitsOfNat hc

private theorem intOfNumeral_digitsOfNat (n : Int) :
    intOfNumeral (decide (n < 0)) (digitsOfNat n.natAbs) = n := by
  unfold intOfNumeral
  rw [natOfDigits_digitsOfNat]
  by_cases hn : n < 0
  · rw [if_pos (decide_eq_true hn)]
    omega
  · rw [if_neg (by simpa using hn)]
    omega

private theorem digits_of_numeral? {cs ds : List Char} {negative : Bool}
    (h : numeral? cs = some (negative, ds)) : ds ≠ [] ∧ ∀ c ∈ ds, c.isDigit = true := by
  unfold numeral? at h
  dsimp only at h
  split at h
  · rename_i hds
    cases h
    exact ⟨hds.1, List.all_eq_true.mp hds.2⟩
  · cases h

/-- A numeral has no more digits than characters. -/
theorem length_of_numeral? {cs ds : List Char} {negative : Bool}
    (h : numeral? cs = some (negative, ds)) : ds.length ≤ cs.length := by
  have hsign : (splitSign cs).2.length ≤ cs.length := by
    unfold splitSign
    split
    · exact Nat.le_succ _
    · exact Nat.le_succ _
    · exact le_rfl
  unfold numeral? at h
  dsimp only at h
  split at h
  · cases h
    exact hsign
  · cases h

def padded (zeros n : Nat) : List Char := List.replicate zeros '0' ++ digitsOfNat n

private theorem padded_ne_nil (zeros n : Nat) : padded zeros n ≠ [] :=
  List.append_ne_nil_of_right_ne_nil _ Nat.toDigits_ne_nil

private theorem isDigit_of_mem_padded {zeros n : Nat} {c : Char} (h : c ∈ padded zeros n) :
    c.isDigit = true := by
  rcases List.mem_append.mp h with hc | hc
  · rw [List.eq_of_mem_replicate hc]
    rfl
  · exact isDigit_of_mem_digitsOfNat hc

/-- Zeros in front do not count. -/
theorem natOfDigits_padded (zeros n : Nat) : natOfDigits (padded zeros n) = n := by
  induction zeros with
  | zero => exact natOfDigits_digitsOfNat n
  | succ zeros ih => exact ih

end Text

namespace Number

def Writable (n : Int) : Prop := (Text.digitsOfNat n.natAbs).length ≤ Fault.digitLimit

instance (n : Int) : Decidable (Writable n) := inferInstanceAs (Decidable (_ ≤ _))

variable {n : Int}

theorem writeInt_eq (h : Writable n) : writeInt n = .ok (String.ofList (Text.numeralOfInt n)) :=
  if_neg (Nat.not_lt.mpr h)

theorem ofNumeral?_numeralOfInt (h : Writable n) :
    ofNumeral? (Text.numeralOfInt n) = some (.ok n) := by
  unfold ofNumeral?
  rw [Text.numeral?_numeralOfInt, Option.map_some, if_neg (Nat.not_lt.mpr h),
    Text.intOfNumeral_digitsOfNat]

/-- The numerals of an integer: its digits, with any zeros and then any sign in front that leaves
the integer as it is, as long as there are not too many digits. -/
inductive Numeral : Int → List Char → Prop
  | plain {zeros n : Nat} (h : (Text.padded zeros n).length ≤ Fault.digitLimit) :
      Numeral n (Text.padded zeros n)
  | plus {zeros n : Nat} (h : (Text.padded zeros n).length ≤ Fault.digitLimit) :
      Numeral n ('+' :: Text.padded zeros n)
  | minus {zeros n : Nat} (h : (Text.padded zeros n).length ≤ Fault.digitLimit) :
      Numeral (-n) ('-' :: Text.padded zeros n)

/-- Any numeral of an integer is read as that integer. -/
theorem ofNumeral?_of_numeral {cs : List Char} (h : Numeral n cs) :
    ofNumeral? cs = some (.ok n) := by
  have hread {zeros n : Nat} {negative : Bool} {cs : List Char}
      (hlimit : (Text.padded zeros n).length ≤ Fault.digitLimit)
      (hsign : Text.splitSign cs = (negative, Text.padded zeros n)) :
      ofNumeral? cs = some (.ok (if negative then -(n : Int) else n)) := by
    unfold ofNumeral?
    rw [Text.numeral?_of_splitSign hsign (Text.padded_ne_nil _ _)
      fun _ hc => Text.isDigit_of_mem_padded hc, Option.map_some, if_neg (Nat.not_lt.mpr hlimit),
      Text.intOfNumeral, Text.natOfDigits_padded]
  cases h with
  | plain h => exact hread h (Text.splitSign_of_isDigit fun _ hc => Text.isDigit_of_mem_padded hc)
  | @plus zeros n h =>
    have hsign : Text.splitSign ('+' :: Text.padded zeros n) = (false, Text.padded zeros n) := rfl
    exact hread h hsign
  | @minus zeros n h =>
    have hsign : Text.splitSign ('-' :: Text.padded zeros n) = (true, Text.padded zeros n) := rfl
    exact hread h hsign

/-- What was read can be written. -/
theorem writable_of_ofNumeral? {cs : List Char} (h : ofNumeral? cs = some (.ok n)) :
    Writable n := by
  obtain ⟨⟨negative, ds⟩, hds, hread⟩ := Option.map_eq_some_iff.mp h
  obtain ⟨hne, hall⟩ := Text.digits_of_numeral? hds
  dsimp only at hread
  split at hread
  · cases hread
  · rename_i hlimit
    obtain rfl := Except.ok.inj hread
    have habs : (Text.intOfNumeral negative ds).natAbs = Text.natOfDigits ds := by
      cases negative <;> simp [Text.intOfNumeral]
    rw [Writable, habs]
    exact Nat.le_trans (Text.length_digitsOfNat_le hne hall) (Nat.not_lt.mp hlimit)

theorem writable_zero : Writable 0 := by decide

end Number
end TrackGrid
