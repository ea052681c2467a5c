import SelectList.Json.Fault
import SelectList.Json.Numeral

/-!
JSON text as lexemes. A lexeme that is broken, or whose value cannot be read, is a lexeme all the
same: its fault is told by the reader that asks for its value, and a reader that only skips it asks
for less. No lexeme follows a broken one.
-/

namespace SelectList.Json

inductive Piece
  | char (c : Char)
  | unit (n : Nat)
deriving DecidableEq, Repr

structure Scanned where
  pieces : List Piece
  rest : Except Fault (List Char)

def Scanned.cons (p : Piece) (s : Scanned) : Scanned := { s with pieces := p :: s.pieces }

def Scanned.stop (f : Fault) : Scanned := ⟨[], .error f⟩

def hexValue? (c : Char) : Option Nat :=
  if c.isDigit then some (c.toNat - '0'.toNat)
  else if 'a' ≤ c && c ≤ 'f' then some (c.toNat - 'a'.toNat + 10)
  else if 'A' ≤ c && c ≤ 'F' then some (c.toNat - 'A'.toNat + 10)
  else none

def unitValue? (a b c d : Char) : Option Nat := do
  return (((← hexValue? a) * 16 + (← hexValue? b)) * 16 + (← hexValue? c)) * 16 + (← hexValue? d)

def shortEscape? (c : Char) : Option Char :=
  match c with
  | '"' => some '"'
  | '\\' => some '\\'
  | '/' => some '/'
  | 'b' => some '\x08'
  | 'f' => some '\x0c'
  | 'n' => some '\n'
  | 'r' => some '\r'
  | 't' => some '\t'
  | _ => none

def shortUnitFault (s : List Char) : Fault :=
  if (String.ofList s).utf8ByteSize < 4 then .endOfText else .malformed

def scanText : List Char → Scanned
  | [] => .stop .endOfText
  | c :: cs =>
    if c = '"' then ⟨[], .ok cs⟩
    else if c < ' ' then .stop .malformed
    else if c ≠ '\\' then (scanText cs).cons (.char c)
    else match cs with
      | [] => .stop .endOfText
      | 'u' :: h₁ :: h₂ :: h₃ :: h₄ :: rest =>
        match unitValue? h₁ h₂ h₃ h₄ with
        | none => .stop .malformed
        | some n => (scanText rest).cons (.unit n)
      | 'u' :: few => .stop (shortUnitFault few)
      | e :: rest =>
        match shortEscape? e with
        | none => .stop .malformed
        | some d => (scanText rest).cons (.char d)

def isHighSurrogate (n : Nat) : Bool := 0xD800 ≤ n && n ≤ 0xDBFF

def isLowSurrogate (n : Nat) : Bool := 0xDC00 ≤ n && n ≤ 0xDFFF

/-- The characters of the pieces. A high surrogate must be followed by a low one, and a low one
cannot come first; `ending` is how the pieces end. -/
def decode (ending : Except Fault Unit) : List Piece → Except Fault (List Char)
  | [] => ending.map fun _ => []
  | .char c :: ps => (c :: ·) <$> decode ending ps
  | .unit n :: ps =>
    if isLowSurrogate n then .error .malformed
    else if !isHighSurrogate n then (Char.ofNat n :: ·) <$> decode ending ps
    else match ps with
      | [] => ending.bind fun _ => .error .malformed
      | .char _ :: _ => .error .malformed
      | .unit m :: ps =>
        if isLowSurrogate m then
          (Char.ofNat (0x10000 + (n - 0xD800) * 0x400 + (m - 0xDC00)) :: ·) <$> decode ending ps
        else .error .malformed

theorem scanText_length {cs rest : List Char} (h : (scanText cs).rest = .ok rest) :
    rest.length ≤ cs.length := by
  fun_induction scanText cs generalizing rest with
  | case1 | case3 | case5 | case6 | case8 | case9 => simp [Scanned.stop] at h
  | case2 => simp_all
  | case4 _ _ _ _ _ ih | case7 _ _ _ _ _ _ _ _ _ _ _ ih | case10 _ _ _ _ _ _ _ _ _ _ ih =>
    have := ih h
    simp only [List.length_cons]
    omega

inductive Word
  | null
  | true
  | false
deriving DecidableEq, Repr

def Word.found : Word → Found
  | .null => .null
  | .true => .boolean Bool.true
  | .false => .boolean Bool.false

inductive Lexeme
  | mark (c : Char)
  | word (w : Except Fault Word)
  | number (value : Except Fault Number) (shape : Except Fault Unit)
  | text (value : Except Fault String) (shape : Except Fault Unit)

namespace Lexeme

def isBlank (c : Char) : Bool := c == ' ' || c == '\n' || c == '\t' || c == '\r'

def scanWord (w : Word) : List Char → List Char → Except Fault (Word × List Char)
  | [], s => .ok (w, s)
  | _ :: _, [] => .error .endOfText
  | e :: es, c :: cs => if e = c then scanWord w es cs else .error .malformed

def ofWord : Except Fault (Word × List Char) → Lexeme × List Char
  | .ok (w, rest) => (.word (.ok w), rest)
  | .error f => (.word (.error f), [])

def ofNumeral : Except Fault (Numeral × List Char) → Lexeme × List Char
  | .ok (x, rest) => (.number x.number (.ok ()), rest)
  | .error f => (.number (.error f) (.error .malformed), [])

def ofScanned (s : Scanned) : Lexeme × List Char :=
  let ending := s.rest.map fun _ => ()
  (.text ((decode ending s.pieces).map String.ofList) ending, s.rest.toOption.getD [])

def next (c : Char) (cs : List Char) : Lexeme × List Char :=
  if c = 'n' then ofWord (scanWord .null ['u', 'l', 'l'] cs)
  else if c = 't' then ofWord (scanWord .true ['r', 'u', 'e'] cs)
  else if c = 'f' then ofWord (scanWord .false ['a', 'l', 's', 'e'] cs)
  else if c = '-' then ofNumeral (Numeral.scan true cs)
  else if c.isDigit then ofNumeral (Numeral.scan false (c :: cs))
  else if c = '"' then ofScanned (scanText cs)
  else (.mark c, cs)

theorem scanWord_length {w v : Word} {es cs rest : List Char}
    (h : scanWord w es cs = .ok (v, rest)) : rest.length ≤ cs.length := by
  fun_induction scanWord w es cs with
  | case1 => simp_all
  | case2 => simp at h
  | case3 _ _ _ ih =>
    have := ih h
    simp only [List.length_cons]
    omega
  | case4 => simp at h

theorem next_length (c : Char) (cs : List Char) : (next c cs).2.length ≤ cs.length := by
  have hword (w : Word) (es : List Char) : (ofWord (scanWord w es cs)).2.length ≤ cs.length := by
    cases h : scanWord w es cs with
    | error => simp [ofWord]
    | ok r => exact scanWord_length h
  unfold next
  split
  · exact hword _ _
  split
  · exact hword _ _
  split
  · exact hword _ _
  split
  · cases h : Numeral.scan true cs with
    | error => simp [ofNumeral]
    | ok r => exact Nat.le_of_lt (Numeral.scan_length h)
  split
  · cases h : Numeral.scan false (c :: cs) with
    | error => simp [ofNumeral]
    | ok r => exact Nat.le_of_lt_succ (Numeral.scan_length h)
  split
  · cases h : (scanText cs).rest with
    | error => simp [ofScanned, h, Except.toOption]
    | ok rest =>
      simp only [ofScanned, h, Except.toOption, Option.getD_some]
      exact scanText_length h
  · exact Nat.le_refl _

def lex (s : List Char) : List Lexeme :=
  match _h : s.dropWhile isBlank with
  | [] => []
  | c :: cs => (next c cs).1 :: lex (next c cs).2
termination_by s.length
decreasing_by
  have hs := (List.dropWhile_sublist isBlank (l := s)).length_le
  have := next_length c cs
  rw [_h, List.length_cons] at hs
  omega

end Lexeme

end SelectList.Json
