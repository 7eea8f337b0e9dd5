import DevConsole.Number.Decimal

/-!
# The text of a number of binary32

A whole number is written with all its digits and no point. Any other finite number is written
with the fewest places after the point that read back as it; of two neighbours on that grid that
both read back the nearer is taken, and the upper one if the number lies halfway. No exponent is
ever written.
-/

namespace DevConsole.Number

/-- The digits of `n / 10 ^ places` with the point. -/
def pointChars (n places : Nat) : List Char :=
  digitChars (n / Nat.pow 10 places) ++ '.' :: paddedDigits places (n % Nat.pow 10 places)

namespace Single

/-- The decimal `n / 10 ^ places` rounds to the absolute value of the number. -/
def readsBack (x : Single) (places n : Nat) : Bool :=
  nearestMagnitude n (Nat.pow 10 places) == x.magnitude

/-- The multiple of `10 ^ -places` that stands for the number, if one reads back. Only the
neighbours of the value on that grid can. -/
def onGrid? (x : Single) (places : Nat) : Option Nat :=
  let scaled := x.units * Nat.pow 10 places
  let below := scaled / unitsPerOne
  let above := below + 1
  match x.readsBack places below, x.readsBack places above with
  | true, true => some (if 2 * (scaled % unitsPerOne) < unitsPerOne then below else above)
  | true, false => some below
  | false, true => some above
  | false, false => none

/-- The first grid on which the number can be written, with the point of it. The last grid holds
the value itself. -/
def shortest (x : Single) : Nat × Nat :=
  ((List.range 149).findSome? fun places => (x.onGrid? places).map (·, places)).getD
    (x.units * Nat.pow 5 149, 149)

/-- The digits of the absolute value of a finite number. -/
def digits (x : Single) : List Char :=
  if x.isWhole then digitChars (x.units / unitsPerOne)
  else
    let (n, places) := x.shortest
    pointChars n places

/-- The text of a number. -/
def text (x : Single) : String :=
  if x.isNaN then "NaN"
  else
    let digits := if x.isFinite then x.digits else "inf".toList
    String.ofList (if x.isNegative then '-' :: digits else digits)

end Single

end DevConsole.Number
