import DevConsole.Number.Integer

/-!
# Numbers of binary32

A number is its 32 bits. The magnitude of a finite one is a whole multiple (`units`) of the least
positive number, 2 ^ -149, so all arithmetic on values is exact arithmetic on `Nat`.

`nearest` rounds a quotient to the closest number, an exact half to the even neighbour. Since
consecutive magnitudes have consecutive bit patterns, a significand that rounds up to the next
power of two carries into the exponent by itself, and past the largest number into infinity.
-/

namespace DevConsole.Number

/-- A number of binary32, by its bits. -/
structure Single where
  bits : UInt32
  deriving DecidableEq, Repr, Inhabited

namespace Single

/-- How many of the least positive number make up one. -/
def unitsPerOne : Nat := Nat.pow 2 149

/-- The bits of infinity. -/
def infinityMagnitude : Nat := 255 * Nat.pow 2 23

/-- The bits below the sign. -/
def magnitude (x : Single) : Nat := x.bits.toNat % Nat.pow 2 31

/-- The sign bit is set. -/
def isNegative (x : Single) : Bool := Nat.pow 2 31 ≤ x.bits.toNat

/-- The number with the given sign and lower bits. -/
def ofMagnitude (negative : Bool) (magnitude : Nat) : Single :=
  ⟨UInt32.ofNat (if negative then Nat.pow 2 31 + magnitude else magnitude)⟩

/-- Neither infinite nor NaN. -/
def isFinite (x : Single) : Bool := x.magnitude < infinityMagnitude

/-- Not a number. -/
def isNaN (x : Single) : Bool := infinityMagnitude < x.magnitude

/-- The value is `significand * 2 ^ scale` units; below the normal range the leading bit is 0. -/
def significand (x : Single) : Nat :=
  if x.magnitude < Nat.pow 2 23 then x.magnitude else Nat.pow 2 23 + x.magnitude % Nat.pow 2 23

/-- The power of two of the last bit, counted from the least positive number. -/
def scale (x : Single) : Nat := x.magnitude / Nat.pow 2 23 - 1

/-- The absolute value as a multiple of the least positive number. -/
def units (x : Single) : Nat := x.significand * Nat.pow 2 x.scale

/-- The value is a whole number. -/
def isWhole (x : Single) : Bool := x.isFinite && x.units % unitsPerOne == 0

/-- The quotient rounded to a whole number, an exact half to the even neighbour. -/
def roundHalfEven (num den : Nat) : Nat :=
  let q := num / den
  let r := num % den
  if 2 * r < den then q else if den < 2 * r then q + 1 else q + q % 2

/-- The lower bits of the number nearest to `num / den`. -/
def nearestMagnitude (num den : Nat) : Nat :=
  let scaled := num * unitsPerOne
  let scale := (scaled / den).log2 - 23
  min (scale * Nat.pow 2 23 + roundHalfEven scaled (den * Nat.pow 2 scale)) infinityMagnitude

/-- The number nearest to `num / den` with the given sign. -/
def nearest (negative : Bool) (num den : Nat) : Single :=
  ofMagnitude negative (nearestMagnitude num den)

/-- Zero. -/
def zero : Single := ⟨0⟩

/-- The number nearest to an integer. -/
def ofInteger (i : Int32) : Single := nearest (i.toInt < 0) i.toInt.natAbs 1

/-- The value without its fraction, or the nearest integer of 32 bits if that is out of range; 0
for NaN. -/
def truncate (x : Single) : Int32 :=
  if x.isNaN then 0
  else
    let n : Int := x.units / unitsPerOne
    clamp (if x.isNegative then -n else n)

end Single

end DevConsole.Number
