import TrackGrid.Number.Shortest

/-! Numbers as they are given for sizes: an integer of any size or a floating-point number. The two
compare by value but are written differently. -/

namespace TrackGrid

namespace Binary64

/-- The number nearest to `digits * 10 ^ exponent`. A number that is far too small or far too large
is not computed: three bits of the digits make less than one decimal place. -/
def ofDecimal (negative : Bool) (digits : Nat) (exponent : Int) : Binary64 :=
  if digits = 0 ∨ ((digits.log2 / 3 + 1 : Nat) : Int) + exponent < -330 then
    ofQuotient negative 0 1
  else if 310 < exponent then .infinite negative
  else
    ofQuotient negative (digits * unit * Nat.pow 10 exponent.toNat)
      (Nat.pow 10 (-exponent).toNat)

def exponent? : List Char → Option Int
  | [] => some 0
  | c :: rest =>
      if c.toLower = 'e' then
        (Text.numeral? rest).map fun numeral => Text.intOfNumeral numeral.1 numeral.2
      else none

def ofDigits? (negative : Bool) (cs : List Char) : Option Binary64 :=
  let (whole, rest) := Text.splitDigits cs
  let (fraction, rest) := match rest with
    | '.' :: tail => Text.splitDigits tail
    | _ => ([], rest)
  if whole = [] ∧ fraction = [] then none
  else (exponent? rest).map fun e =>
    ofDecimal negative (Text.natOfDigits (whole ++ fraction)) (e - fraction.length)

def ofPlain? (cs : List Char) : Option Binary64 :=
  let (negative, rest) := Text.splitSign cs
  let word := rest.map Char.toLower
  if word = "inf".toList ∨ word = "infinity".toList then some (.infinite negative)
  else if word = "nan".toList then some .nan
  else ofDigits? negative rest

def ofText? (text : String) : Option Binary64 := (Text.bare? text.toList).bind ofPlain?

end Binary64

inductive Number where
  | int (n : Int)
  | float (x : Binary64)
  deriving DecidableEq

/-- Where a number stands on the real line; a finite one by its count of quanta. -/
inductive Position where
  | below
  | at (quanta : Int)
  | above
  | nowhere
  deriving DecidableEq

namespace Position

/-- The order of positions. What stands nowhere compares with nothing. -/
def le : Position → Position → Bool
  | .nowhere, _ => false
  | _, .nowhere => false
  | .below, _ => true
  | _, .above => true
  | .at p, .at q => p ≤ q
  | _, _ => false

end Position

namespace Number

def position : Number → Position
  | .int n => .at (n * Binary64.unit)
  | .float .nan => .nowhere
  | .float (.infinite negative) => if negative then .below else .above
  | .float (.finite negative q _) => .at (Binary64.signed negative q)

/-- The order of values, exact between integers and floating-point numbers. -/
def le (x y : Number) : Bool := x.position.le y.position

def lt (x y : Number) : Bool := x.le y && !y.le x

/-- Equality of values, so 10 is the same as 10.0 and zero the same as its negative. -/
def same (x y : Number) : Bool := x.le y && y.le x

def toBinary64 : Number → Except Fault Binary64
  | .int n => Binary64.ofInt n
  | .float x => .ok x

/-- Whether a number is finite. The question fails for an integer beyond the floating-point
range. -/
def isFinite (x : Number) : Except Fault Bool := do
  match ← x.toBinary64 with
  | .finite _ _ _ => pure true
  | _ => pure false

def writeInt (n : Int) : Except Fault String :=
  if Fault.digitLimit < (Text.digitsOfNat n.natAbs).length then .error .tooLongToWrite
  else .ok (String.ofList (Text.numeralOfInt n))

/-- The integer written by a numeral, if the characters are one. One of too many digits is
refused. -/
def ofNumeral? (cs : List Char) : Option (Except Fault Int) :=
  (Text.numeral? cs).map fun numeral =>
    if Fault.digitLimit < numeral.2.length then .error (.tooLongToRead numeral.2.length)
    else .ok (Text.intOfNumeral numeral.1 numeral.2)

/-- The integer that a text writes, with blanks around it, underscores and digits as a
floating-point number may have them. Any other text is refused. -/
def readInt (text : String) : Except Fault Int :=
  ((Text.bare? text.toList).bind ofNumeral?).getD (.error (.noInteger text))

def readFloat (text : String) : Except Fault Binary64 :=
  match Binary64.ofText? text with
  | some x => .ok x
  | none => .error (.noFloat text)

def text : Number → Except Fault String
  | .int n => writeInt n
  | .float x => .ok x.text

end Number

end TrackGrid
