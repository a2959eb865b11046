import TrackGrid.Text.Shown

/-! Characters, plain numerals, written numbers in their bare form, and texts in quotes. -/

namespace TrackGrid.Text

def blankRanges : List (Nat × Nat) :=
  [(0x09, 0x0d), (0x1c, 0x20), (0x85, 0x85), (0xa0, 0xa0), (0x1680, 0x1680), (0x2000, 0x200a),
    (0x2028, 0x2029), (0x202f, 0x202f), (0x205f, 0x205f), (0x3000, 0x3000)]

def isBlank (c : Char) : Bool :=
  blankRanges.any fun range => range.1 ≤ c.toNat && c.toNat ≤ range.2

/-- A blank character that separates fields on a line of plain text. -/
def isPlainBlank (c : Char) : Bool :=
  c.toNat == 0x20 || (0x09 ≤ c.toNat && c.toNat ≤ 0x0d)

def trim (p : Char → Bool) (cs : List Char) : List Char :=
  ((cs.dropWhile p).reverse.dropWhile p).reverse

/-- The capital form of a character as far as it is spelled in the letters A to Z; any other
character stands for itself. A ligature or sharp letter is spelled out. -/
def capital : Char → List Char
  | 'ß' => ['S', 'S']
  | 'ı' => ['I']
  | 'ſ' => ['S']
  | 'ﬀ' => ['F', 'F']
  | 'ﬁ' => ['F', 'I']
  | 'ﬂ' => ['F', 'L']
  | 'ﬃ' => ['F', 'F', 'I']
  | 'ﬄ' => ['F', 'F', 'L']
  | 'ﬅ' => ['S', 'T']
  | 'ﬆ' => ['S', 'T']
  | c => [c.toUpper]

def capitals (cs : List Char) : List Char := cs.flatMap capital

/-- The code points of the zeros, in ascending order. -/
def zeros : List Nat :=
  [0x30, 0x660, 0x6f0, 0x7c0, 0x966, 0x9e6, 0xa66, 0xae6, 0xb66, 0xbe6, 0xc66, 0xce6, 0xd66, 0xde6,
    0xe50, 0xed0, 0xf20, 0x1040, 0x1090, 0x17e0, 0x1810, 0x1946, 0x19d0, 0x1a80, 0x1a90, 0x1b50,
    0x1bb0, 0x1c40, 0x1c50, 0xa620, 0xa8d0, 0xa900, 0xa9d0, 0xa9f0, 0xaa50, 0xabf0, 0xff10, 0x104a0,
    0x10d30, 0x11066, 0x110f0, 0x11136, 0x111d0, 0x112f0, 0x11450, 0x114d0, 0x11650, 0x116c0,
    0x11730, 0x118e0, 0x11950, 0x11c50, 0x11d50, 0x11da0, 0x16a60, 0x16ac0, 0x16b50, 0x1d7ce,
    0x1d7d8, 0x1d7e2, 0x1d7ec, 0x1d7f6, 0x1e140, 0x1e2f0, 0x1e950, 0x1fbf0]

def digitValue? (c : Char) : Option Nat :=
  (zeros.find? fun first => first ≤ c.toNat && c.toNat < first + 10).map (c.toNat - ·)

/-- A character as its plain counterpart: a digit of any script as one of the ten digits, a blank
beyond the plain characters as a space. -/
def plain (c : Char) : Char :=
  if c.toNat < 127 then c
  else if isBlank c then ' '
  else match digitValue? c with
    | some d => Char.ofNat ('0'.toNat + d)
    | none => c

/-- Drops the underscores of a number, each of which must stand between two digits; `afterDigit`
says whether a digit came before. -/
def dropUnderscores (afterDigit : Bool) : List Char → Option (List Char)
  | [] => some []
  | '_' :: c :: rest =>
      if afterDigit && c.isDigit then (dropUnderscores true rest).map (c :: ·) else none
  | ['_'] => none
  | c :: rest => (dropUnderscores c.isDigit rest).map (c :: ·)

def bare? (cs : List Char) : Option (List Char) :=
  dropUnderscores false (trim isPlainBlank (cs.map plain))

def natOfDigits (cs : List Char) : Nat := cs.foldl (fun n c => 10 * n + (c.toNat - '0'.toNat)) 0

def splitSign : List Char → Bool × List Char
  | '-' :: rest => (true, rest)
  | '+' :: rest => (false, rest)
  | cs => (false, cs)

def splitDigits (cs : List Char) : List Char × List Char :=
  (cs.takeWhile Char.isDigit, cs.dropWhile Char.isDigit)

/-- A numeral: plain digits, at least one, with an optional sign in front. It is given as its sign
and its digits. -/
def numeral? (cs : List Char) : Option (Bool × List Char) :=
  let (negative, digits) := splitSign cs
  if digits ≠ [] ∧ digits.all Char.isDigit then some (negative, digits) else none

def intOfNumeral (negative : Bool) (digits : List Char) : Int :=
  if negative then -(natOfDigits digits : Int) else natOfDigits digits

def digitsOfNat (n : Nat) : List Char := Nat.toDigits 10 n

def numeralOfInt (n : Int) : List Char :=
  if n < 0 then '-' :: digitsOfNat n.natAbs else digitsOfNat n.natAbs

def hexDigits (width n : Nat) : List Char :=
  let digits := Nat.toDigits 16 n
  List.replicate (width - digits.length) '0' ++ digits

/-- The code point of a character behind the letter for its width. -/
def escapedCode (c : Char) : List Char :=
  let n := c.toNat
  if n < 0x100 then '\\' :: 'x' :: hexDigits 2 n
  else if n < 0x10000 then '\\' :: 'u' :: hexDigits 4 n
  else '\\' :: 'U' :: hexDigits 8 n

def escaped (quote c : Char) : List Char :=
  if c = quote ∨ c = '\\' then ['\\', c]
  else if c = '\n' then ['\\', 'n']
  else if c = '\r' then ['\\', 'r']
  else if c = '\t' then ['\\', 't']
  else if isShown c then [c]
  else escapedCode c

def quoteFor (cs : List Char) : Char :=
  if cs.contains '\'' && !cs.contains '"' then '"' else '\''

def quoted (cs : List Char) : List Char :=
  let quote := quoteFor cs
  quote :: cs.flatMap (escaped quote) ++ [quote]

end TrackGrid.Text
