namespace SelectList

namespace Decimal

def tens (k : Nat) : Nat :=
  Nat.pow 10 k

def digitChar (d : Nat) : Char :=
  Char.ofNat ('0'.toNat + d)

def digits (n : Nat) : List Char :=
  if n < 10 then [digitChar n] else digits (n / 10) ++ [digitChar (n % 10)]

def digitValue (c : Char) : Nat :=
  c.toNat - '0'.toNat

def value (cs : List Char) : Nat :=
  cs.foldl (fun n c => n * 10 + digitValue c) 0

theorem digitValue_digitChar {d : Nat} (h : d < 10) : digitValue (digitChar d) = d := by
  revert h
  revert d
  decide

theorem value_concat (cs : List Char) (c : Char) :
    value (cs ++ [c]) = value cs * 10 + digitValue c := by
  simp [value, List.foldl_append]

theorem value_digits (n : Nat) : value (digits n) = n := by
  fun_induction digits n with
  | case1 n h => simp [value, digitValue_digitChar h]
  | case2 n _ ih =>
    rw [value_concat, ih, digitValue_digitChar (by omega)]
    omega

end Decimal

/-- The number `mantissa * 2 ^ exponent`, negated if `negative`. -/
structure Double where
  negative : Bool
  mantissa : Nat
  exponent : Int
deriving DecidableEq, Repr

namespace Double

def twos (k : Nat) : Nat := Nat.pow 2 k

def leastExponent : Int := -1074

def greatestExponent : Int := 971

def zero : Double := ⟨false, 0, leastExponent⟩

def isZero (x : Double) : Bool := x.mantissa == 0

def neg (x : Double) : Double := { x with negative := !x.negative }

def numerator (x : Double) : Nat := x.mantissa * twos x.exponent.toNat

def denominator (x : Double) : Nat := twos (-x.exponent).toNat

def roundedQuotient (num den : Nat) : Nat :=
  let q := num / den
  let r := num % den
  if 2 * r > den || (2 * r == den && q % 2 == 1) then q + 1 else q

def binaryExponent (num den : Nat) : Int :=
  let k : Int := num.log2 - den.log2
  if num * twos (-k).toNat < den * twos k.toNat then k - 1 else k

def ofRatio (num den : Nat) : Option Double :=
  if num = 0 then some zero
  else
    let e := max leastExponent (binaryExponent num den - 52)
    let m := roundedQuotient (num * twos (-e).toNat) (den * twos e.toNat)
    let x : Double := if m = twos 53 then ⟨false, twos 52, e + 1⟩ else ⟨false, m, e⟩
    if x.exponent > greatestExponent then none else some x

def ofNat (n : Nat) : Option Double := ofRatio n 1

def mostTens : Nat := 308

def tenTo (k : Nat) : Double := (ofNat (Decimal.tens k)).getD zero

def overTens (x : Double) (k : Nat) : Double :=
  if k ≤ mostTens then
    (ofRatio (x.numerator * (tenTo k).denominator) (x.denominator * (tenTo k).numerator)).getD zero
  else if x.isZero then x
  else
    let p := tenTo mostTens
    overTens ((ofRatio (x.numerator * p.denominator) (x.denominator * p.numerator)).getD zero)
      (k - mostTens)
termination_by k
decreasing_by simp only [mostTens] at *; omega

def timesTens (x : Double) (k : Nat) : Option Double :=
  if k ≤ mostTens then
    ofRatio (x.numerator * (tenTo k).numerator) (x.denominator * (tenTo k).denominator)
  else if x.isZero then some x
  else none

/-- A significand times a power of ten, rounded twice: first the significand, then the result. -/
def ofDecimal (significand : Nat) (exponent : Int) : Option Double :=
  (ofNat significand).bind fun x =>
    if exponent < 0 then some (x.overTens (-exponent).toNat) else x.timesTens exponent.toNat

/-- The fractions that round to a positive number lie between these two, counted in quarters of its
last binary place. Below a power of two the places are half as wide. -/
def quarters (x : Double) : Nat × Nat :=
  let below := if x.mantissa = twos 52 && x.exponent > leastExponent then 1 else 2
  (4 * x.mantissa - below, 4 * x.mantissa + 2)

def pointPosition (num den : Nat) : Int :=
  if den ≤ num then (Decimal.digits (num / den)).length
  else
    let zeros := ((List.range 400).find? fun j => den ≤ num * Decimal.tens j).getD 0
    1 - (zeros : Int)

def decimalWith? (x : Double) (n : Nat) : Option (Nat × Int) :=
  let unit : Int := pointPosition x.numerator x.denominator - n
  let num := x.numerator * Decimal.tens (-unit).toNat
  let den := x.denominator * Decimal.tens unit.toNat
  let low := num / den
  let (least, most) := x.quarters
  let isWithin (c : Nat) : Bool :=
    let here := 4 * x.mantissa * c * den
    if x.mantissa % 2 == 0 then least * num ≤ here && here ≤ most * num
    else least * num < here && here < most * num
  let upperIsNearer := 2 * (num % den) > den || (2 * (num % den) == den && low % 2 == 1)
  match isWithin low, isWithin (low + 1) with
  | false, false => none
  | true, false => some (low, unit)
  | false, true => some (low + 1, unit)
  | true, true => some (if upperIsNearer then low + 1 else low, unit)

def shortest (x : Double) : Nat × Int :=
  ((List.range 17).findSome? fun n => x.decimalWith? (n + 1)).getD (0, 0)

def isWrittenOut (magnitude : Int) : Bool := -5 ≤ magnitude && magnitude ≤ 15

def exponentText (e : Int) : List Char :=
  'e' :: (if e < 0 then '-' else '+') :: Decimal.digits e.natAbs

def pointText (ds : List Char) (magnitude : Int) : List Char :=
  if magnitude < 0 then '0' :: '.' :: List.replicate (-magnitude - 1).toNat '0' ++ ds
  else
    let whole := magnitude.toNat + 1
    if ds.length ≤ whole then ds ++ List.replicate (whole - ds.length) '0' ++ ['.', '0']
    else ds.take whole ++ '.' :: ds.drop whole

def withoutTrailingZeros (ds : List Char) : List Char :=
  (ds.reverse.dropWhile (· == '0')).reverse

def magnitudeText (x : Double) : List Char :=
  if x.isZero then ['0', '.', '0']
  else
    let (n, unit) := x.shortest
    let magnitude := unit + (Decimal.digits n).length - 1
    let ds := withoutTrailingZeros (Decimal.digits n)
    if isWrittenOut magnitude then pointText ds magnitude
    else (match ds with
      | [] => []
      | [d] => [d]
      | d :: rest => d :: '.' :: rest) ++ exponentText magnitude

def text (x : Double) : String :=
  String.ofList (if x.negative then '-' :: x.magnitudeText else x.magnitudeText)

end Double

end SelectList
