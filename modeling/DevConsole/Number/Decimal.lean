import DevConsole.Number.Single

/-!
# Decimal numerals

A numeral is an optional sign, digits with an optional point among, before or after them, and an
optional exponent: `[+-]? (D+ ('.' D*)? | '.' D+) ([eE] [+-]? D+)?`. `Decimal.ofChars?` reads a text
that is one numeral and `leadingNumeral` finds the longest one that a text starts with.
-/

namespace DevConsole.Number

/-- The number `± coefficient * 10 ^ exponent`. -/
structure Decimal where
  negative : Bool
  coefficient : Nat
  exponent : Int
  deriving DecidableEq, Repr, Inhabited

/-- The nearest number of binary32. The first two cases are those whose powers of ten need not be
computed: above 10 ^ 40 all is infinite, and below 2 ^ -150 all is zero. -/
def Decimal.toSingle (d : Decimal) : Single :=
  if d.coefficient = 0 then .ofMagnitude d.negative 0
  else if 40 < d.exponent then .ofMagnitude d.negative Single.infinityMagnitude
  else if 0 ≤ d.exponent then
    .nearest d.negative (d.coefficient * Nat.pow 10 d.exponent.toNat) 1
  else
    let places := (-d.exponent).toNat
    if d.coefficient.log2 + 151 ≤ 3 * places then .ofMagnitude d.negative 0
    else .nearest d.negative d.coefficient (Nat.pow 10 places)

/-- The letter before an exponent. -/
def isExponentMark (c : Char) : Bool := c == 'e' || c == 'E'

/-- The point and the digits after it, if the characters start with a point and there is a digit
on one of its sides. -/
def leadingFraction (hasWhole : Bool) : List Char → List Char
  | '.' :: cs =>
    let ds := cs.takeWhile isDigit
    if hasWhole || ds ≠ [] then '.' :: ds else []
  | _ => []

/-- The exponent that the characters start with, mark and sign included; nothing unless there is a
digit. -/
def leadingExponent : List Char → List Char
  | c :: cs =>
    let (sign, rest) := splitSign cs
    let ds := rest.takeWhile isDigit
    if isExponentMark c && ds ≠ [] then c :: (sign ++ ds) else []
  | [] => []

/-- The longest numeral that the characters start with; nothing if there is none. -/
def leadingNumeral (cs : List Char) : List Char :=
  let (sign, cs) := splitSign cs
  let whole := cs.takeWhile isDigit
  let rest := cs.dropWhile isDigit
  let fraction := leadingFraction (whole ≠ []) rest
  if whole = [] ∧ fraction = [] then []
  else sign ++ whole ++ fraction ++ leadingExponent (rest.drop fraction.length)

/-- The exponent that is all of the characters; 0 if there are none. -/
def exponentOf? : List Char → Option Int
  | [] => some 0
  | c :: cs =>
    let (sign, ds) := splitSign cs
    if isExponentMark c ∧ ds ≠ [] ∧ ds.all isDigit then some (signed sign (digitsValue ds)) else none

/-- The number whose numeral is all of the characters. -/
def Decimal.ofChars? (cs : List Char) : Option Decimal :=
  let (sign, cs) := splitSign cs
  let whole := cs.takeWhile isDigit
  let (fraction, rest) :=
    match cs.dropWhile isDigit with
    | '.' :: cs => (cs.takeWhile isDigit, cs.dropWhile isDigit)
    | cs => ([], cs)
  if whole = [] ∧ fraction = [] then none
  else
    (exponentOf? rest).map fun e =>
      { negative := sign == ['-']
        coefficient := digitsValue (whole ++ fraction)
        exponent := e - fraction.length }

/-- The names of the numbers that no numeral stands for. -/
def Single.ofName? (negative : Bool) (cs : List Char) : Option Single :=
  let name := cs.map Char.toLower
  if name = "inf".toList ∨ name = "infinity".toList then
    some (.ofMagnitude negative infinityMagnitude)
  else if name = "nan".toList then some (.ofMagnitude negative (infinityMagnitude + Nat.pow 2 22))
  else none

/-- The number that is the whole text: a numeral, or infinity or NaN by name. -/
def Single.ofText? (s : String) : Option Single :=
  match Decimal.ofChars? s.toList with
  | some d => some d.toSingle
  | none =>
    let (sign, cs) := splitSign s.toList
    Single.ofName? (sign == ['-']) cs

/-- The number that the text starts with, after white space; 0 if there is none. -/
def leadingSingle (s : String) : Single :=
  ((Decimal.ofChars? (leadingNumeral (Text.dropBlank s.toList))).map Decimal.toSingle).getD .zero

end DevConsole.Number
