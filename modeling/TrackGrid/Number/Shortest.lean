import TrackGrid.Number.Binary64

/-! Writing floating-point numbers by the fewest decimal digits that read back as the number, and of
those digits by the nearest ones. -/

namespace TrackGrid

namespace Binary64

structure Decimal where
  digits : Nat
  exponent : Int
  deriving DecidableEq, Repr

/-- The number of digits before the point of a positive magnitude, not positive for one below a
tenth. -/
def leadingPlace (q : Nat) : Int :=
  ((Text.digitsOfNat (q * Nat.pow 10 330 / unit)).length : Int) - 330

/-- Half the distance to the next smaller magnitude, in quarters of a quantum. Below a power of two
magnitudes lie twice as close. -/
def gapBelow (q : Nat) : Nat :=
  if q = Nat.pow 2 q.log2 ∧ 1 < spacing q then spacing q else 2 * spacing q

def gapAbove (q : Nat) : Nat := 2 * spacing q

/-- Whether the ends of the interval round to the magnitude too: they do if its significand is
even. -/
def endsIncluded (q : Nat) : Bool := q / spacing q % 2 = 0

/-- The decimal number of at most `count` digits that reads back as the magnitude `q`, if there is
one. Only the two neighbours of `q` among these decimals can be nearest to it; of two that are
equally near the even one is taken. -/
def decimalOfLength? (q count : Nat) : Option Decimal :=
  let exponent := leadingPlace q - count
  let up := Nat.pow 10 (-exponent).toNat
  let down := unit * Nat.pow 10 exponent.toNat
  let low := q * up / down
  let readsBack := fun c : Nat =>
    if endsIncluded q then
      (4 * q - gapBelow q) * up ≤ 4 * c * down ∧ 4 * c * down ≤ (4 * q + gapAbove q) * up
    else
      (4 * q - gapBelow q) * up < 4 * c * down ∧ 4 * c * down < (4 * q + gapAbove q) * up
  let rest := 2 * (q * up % down)
  if readsBack low ∧ (¬ readsBack (low + 1) ∨ rest < down ∨ (rest = down ∧ low % 2 = 0)) then
    some ⟨low, exponent⟩
  else if readsBack (low + 1) then some ⟨low + 1, exponent⟩
  else none

/-- The shortest decimal number that reads back as the magnitude `q`. Seventeen digits suffice for
any. -/
def shortest? (q : Nat) : Option Decimal :=
  (List.range' 1 17).findSome? (decimalOfLength? q)

/-- The choices of the written form: from which power of ten of the leading digit on numbers are
written with a point, below which, and how many digits a power of ten has at least. -/
structure Notation where
  pointFrom : Int
  pointBelow : Int
  exponentWidth : Nat

/-- Numbers from 0.0001 up to 16 digits before the point are written with a point, all others with
a power of ten of two digits or more. -/
def notation64 : Notation := ⟨-4, 16, 2⟩

def padLeft (width : Nat) (cs : List Char) : List Char :=
  List.replicate (width - cs.length) '0' ++ cs

def withPoint (cs : List Char) (place : Int) : List Char :=
  if place ≤ 0 then
    '0' :: '.' :: (List.replicate (-place).toNat '0' ++ cs)
  else
    let whole := cs.take place.toNat
    let fraction := cs.drop place.toNat
    whole ++ List.replicate (place.toNat - whole.length) '0' ++
      '.' :: (if fraction = [] then ['0'] else fraction)

def withExponent (style : Notation) (cs : List Char) (power : Int) : List Char :=
  let fraction := cs.drop 1
  cs.take 1 ++ (if fraction = [] then [] else '.' :: fraction) ++
    ('e' :: (if power < 0 then '-' else '+') ::
      padLeft style.exponentWidth (Text.digitsOfNat power.natAbs))

def Decimal.write (style : Notation) (d : Decimal) : List Char :=
  let cs := Text.digitsOfNat d.digits
  let place := (cs.length : Int) + d.exponent
  let kept := (cs.reverse.dropWhile (· = '0')).reverse
  if style.pointFrom ≤ place - 1 ∧ place - 1 < style.pointBelow then withPoint kept place
  else withExponent style kept (place - 1)

def text : Binary64 → String
  | .nan => "nan"
  | .infinite negative => if negative then "-inf" else "inf"
  | .finite negative q _ =>
      let magnitude := if q = 0 then "0.0" else match shortest? q with
        | some d => String.ofList (d.write notation64)
        | none => ""
      if negative then "-" ++ magnitude else magnitude

end Binary64

end TrackGrid
