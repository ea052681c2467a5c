import SelectList.Json.Fault

/-!
JSON numbers: their form, and the value read from it. A number without point and exponent that fits
64 bits is whole, and every other one is a double.
-/

namespace SelectList.Json

inductive Number
  | natural (n : Nat)
  | negative (n : Nat)
  | double (x : Double)
deriving DecidableEq, Repr

def Number.found : Number → Found
  | .natural n => .natural n
  | .negative n => .negative n
  | .double x => .double x

structure Numeral where
  negative : Bool
  whole : List Char
  fraction : Option (List Char)
  exponent : Option (Bool × List Char)

namespace Numeral

def leadingDigits (s : List Char) : List Char := s.takeWhile Char.isDigit

def afterDigits (s : List Char) : List Char := s.dropWhile Char.isDigit

def someDigits (s : List Char) : Except Fault (List Char × List Char) :=
  if leadingDigits s = [] then .error (if s = [] then .endOfText else .malformed)
  else .ok (leadingDigits s, afterDigits s)

def scanWhole (s : List Char) : Except Fault (List Char × List Char) := do
  let (ds, rest) ← someDigits s
  if ds.head? = some '0' && ds.length > 1 then .error .malformed else .ok (ds, rest)

def scanFraction (s : List Char) : Except Fault (Option (List Char) × List Char) :=
  match s with
  | '.' :: rest => do
    let (ds, rest) ← someDigits rest
    return (some ds, rest)
  | _ => .ok (none, s)

def exponentSign : List Char → Bool × List Char
  | '-' :: rest => (true, rest)
  | '+' :: rest => (false, rest)
  | s => (false, s)

def scanExponent (s : List Char) : Except Fault (Option (Bool × List Char) × List Char) :=
  match s with
  | c :: rest =>
    if c = 'e' || c = 'E' then do
      let sign := exponentSign rest
      let (ds, rest) ← someDigits sign.2
      return (some (sign.1, ds), rest)
    else .ok (none, s)
  | [] => .ok (none, [])

def scan (negative : Bool) (s : List Char) : Except Fault (Numeral × List Char) := do
  let (whole, s) ← scanWhole s
  let (fraction, s) ← scanFraction s
  let (exponent, s) ← scanExponent s
  return (⟨negative, whole, fraction, exponent⟩, s)

theorem someDigits_length {s ds rest : List Char} (h : someDigits s = .ok (ds, rest)) :
    rest.length < s.length := by
  have hs := congrArg List.length (List.takeWhile_append_dropWhile (p := Char.isDigit) (l := s))
  unfold someDigits at h
  split at h
  · simp at h
  · next hne =>
    obtain ⟨-, rfl⟩ : leadingDigits s = ds ∧ afterDigits s = rest := by simpa using h
    have := List.length_pos_iff.mpr hne
    simp only [leadingDigits, afterDigits, List.length_append] at *
    omega

theorem scanWhole_length {s ds rest : List Char} (h : scanWhole s = .ok (ds, rest)) :
    rest.length < s.length := by
  obtain ⟨⟨ds', rest'⟩, hd, h⟩ := bind_eq_ok h
  simp only at h
  split at h
  · simp at h
  · obtain ⟨rfl, rfl⟩ : ds' = ds ∧ rest' = rest := by simpa using h
    exact someDigits_length hd

theorem scanFraction_length {s rest : List Char} {x : Option (List Char)}
    (h : scanFraction s = .ok (x, rest)) : rest.length ≤ s.length := by
  unfold scanFraction at h
  split at h
  · obtain ⟨⟨ds, rest'⟩, hd, h⟩ := bind_eq_ok h
    obtain ⟨-, rfl⟩ : some ds = x ∧ rest' = rest := by simpa [pure, Except.pure] using h
    have := someDigits_length hd
    simp only [List.length_cons]
    omega
  · simp_all

theorem exponentSign_length (s : List Char) : (exponentSign s).2.length ≤ s.length := by
  unfold exponentSign
  split <;> simp

theorem scanExponent_length {s rest : List Char} {x : Option (Bool × List Char)}
    (h : scanExponent s = .ok (x, rest)) : rest.length ≤ s.length := by
  unfold scanExponent at h
  split at h
  · next c tail =>
    split at h
    · obtain ⟨⟨ds, rest'⟩, hd, h⟩ := bind_eq_ok h
      obtain ⟨-, rfl⟩ : some ((exponentSign tail).1, ds) = x ∧ rest' = rest := by
        simpa [pure, Except.pure] using h
      have := someDigits_length hd
      have := exponentSign_length tail
      simp only [List.length_cons]
      omega
    · simp_all
  · simp_all

theorem scan_length {b : Bool} {s rest : List Char} {x : Numeral}
    (h : scan b s = .ok (x, rest)) : rest.length < s.length := by
  obtain ⟨⟨whole, s₁⟩, h₁, h⟩ := bind_eq_ok h
  obtain ⟨⟨fraction, s₂⟩, h₂, h⟩ := bind_eq_ok h
  obtain ⟨⟨exponent, s₃⟩, h₃, h⟩ := bind_eq_ok h
  obtain ⟨-, rfl⟩ : _ ∧ s₃ = rest := by simpa [pure, Except.pure] using h
  have := scanWhole_length h₁
  have := scanFraction_length h₂
  have := scanExponent_length h₃
  omega

def maxNatural : Nat := UInt64.size - 1

def appendDigits (n : Nat) : List Char → Nat × List Char
  | [] => (n, [])
  | d :: ds =>
    let next := n * 10 + Decimal.digitValue d
    if next ≤ maxNatural then appendDigits next ds else (n, d :: ds)

/-- The value of a numeral as a double. Digits that do not fit only count as places before the
point, and are dropped after it. -/
def double (x : Numeral) : Except Fault Double :=
  let (n, excess) := appendDigits 0 x.whole
  let fraction := x.fraction.getD []
  let (significand, dropped) := appendDigits n fraction
  let places : Int := excess.length - ((fraction.length : Int) - dropped.length)
  let exponent : Int := match x.exponent with
    | none => 0
    | some (negative, ds) => if negative then -Decimal.value ds else Decimal.value ds
  match Double.ofDecimal significand (places + exponent) with
  | none => .error .malformed
  | some y => .ok (if x.negative then y.neg else y)

def number (x : Numeral) : Except Fault Number :=
  match x.fraction, x.exponent, appendDigits 0 x.whole with
  | none, none, (n, []) =>
    if !x.negative then .ok (.natural n)
    -- there is no negative zero among the whole numbers
    else if 0 < n && n ≤ UInt64.size / 2 then .ok (.negative n)
    else .double <$> x.double
  | _, _, _ => .double <$> x.double

end Numeral

end SelectList.Json
