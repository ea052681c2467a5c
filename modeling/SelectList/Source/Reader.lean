import SelectList.Source
import SelectList.Text

namespace SelectList.Source

def textLength : List Char → Nat
  | [] => 0
  | c :: s =>
    if c = '"' then 1
    else if c ≠ '\\' then 1 + textLength s
    else match s with
      | [] => 1
      | _ :: s => 2 + textLength s

def rawLength (hashes : Nat) : List Char → Nat
  | [] => 0
  | c :: s =>
    if c = '"' && s.take hashes = List.replicate hashes '#' then 1 + hashes
    else 1 + rawLength hashes s

def rawTextLength? (s : List Char) : Option Nat :=
  let hashes := (s.takeWhile (· == '#')).length
  match s.drop hashes with
  | '"' :: s => some (hashes + 1 + rawLength hashes s)
  | _ => none

def characterLength? : List Char → Option Nat
  | '\\' :: _ :: s => some (3 + (s.takeWhile (· != '\'')).length)
  | _ :: '\'' :: _ => some 2
  -- without a second quote the first one starts a lifetime
  | _ => none

def quotedLength? : List Char → Option Nat
  | '"' :: s => some (1 + textLength s)
  | '\'' :: s => (characterLength? s).map (1 + ·)
  | 'b' :: '\'' :: s => (characterLength? s).map (2 + ·)
  | 'b' :: '"' :: s | 'c' :: '"' :: s => some (2 + textLength s)
  | 'r' :: s => (rawTextLength? s).map (1 + ·)
  | 'b' :: 'r' :: s | 'c' :: 'r' :: s => (rawTextLength? s).map (2 + ·)
  | _ => none

def isDigitMark (c : Char) : Bool := c.isDigit || c == '_'

def isHexMark (c : Char) : Bool :=
  isDigitMark c || ('a' ≤ c && c ≤ 'f') || ('A' ≤ c && c ≤ 'F')

def countWhile (p : Char → Bool) (s : List Char) : Nat := (s.takeWhile p).length

def exponentLength? (s : List Char) : Option Nat :=
  match s with
  | c :: s =>
    if c ≠ 'e' && c ≠ 'E' then none
    else
      let sign := if s.head? = some '+' || s.head? = some '-' then 1 else 0
      let digits := (s.drop sign).takeWhile isDigitMark
      if digits.any Char.isDigit then some (1 + sign + digits.length) else none
  | [] => none

def fractionLength (s : List Char) : Nat :=
  match s with
  | '.' :: s =>
    -- the point of a range or of an access is no part of the number
    if s.head?.any fun c => c == '.' || isWordStart c then 0
    else
      let n := 1 + countWhile isDigitMark s
      n + (exponentLength? (s.drop (n - 1))).getD 0
  | s => (exponentLength? s).getD 0

def numberLength? (s : List Char) : Option Nat :=
  match s with
  | '0' :: 'x' :: s => some (2 + countWhile isHexMark s)
  | '0' :: 'o' :: s | '0' :: 'b' :: s => some (2 + countWhile isDigitMark s)
  | c :: _ =>
    if c.isDigit then
      let n := countWhile isDigitMark s
      some (n + fractionLength (s.drop n))
    else none
  | [] => none

def literalLength? (s : List Char) : Option Nat :=
  ((quotedLength? s).or (numberLength? s)).map fun n => n + wordLength (s.drop n)

def escaped : List Char → List Char
  | [] => []
  | c :: s =>
    -- the short escape of a zero would be read together with a digit behind it
    let isFollowedByDigit := s.head?.any fun d => '0' ≤ d && d ≤ '7'
    (if c = '\x00' && isFollowedByDigit then "\\x00".toList else Text.escapedChar c) ++ escaped s

def documentation (isInner : Bool) (content : List Char) : Source :=
  .mark '#' :: (if isInner then [.mark '!'] else []) ++
    [.mark '[', .word "doc".toList, .mark '=', .literal ('"' :: escaped content ++ ['"']),
      .mark ']']

def line : List Char → List Char × List Char
  | [] => ([], [])
  | '\r' :: '\n' :: s => ([], '\n' :: s)
  | c :: s =>
    if c = '\n' then ([], c :: s)
    else
      let (content, rest) := line s
      (c :: content, rest)

def block (depth : Nat) : List Char → List Char × List Char
  | '*' :: '/' :: s =>
    if depth = 0 then ([], s)
    else
      let (content, rest) := block (depth - 1) s
      ('*' :: '/' :: content, rest)
  | '/' :: '*' :: s =>
    let (content, rest) := block (depth + 1) s
    ('/' :: '*' :: content, rest)
  | c :: s =>
    let (content, rest) := block depth s
    (c :: content, rest)
  | [] => ([], [])

def lineComment (s : List Char) : Source :=
  match s with
  -- a third slash documents, and a fourth one does not
  | '/' :: '/' :: _ => []
  | '/' :: s => documentation false (line s).1
  | '!' :: s => documentation true (line s).1
  | _ => []

def blockComment (s : List Char) : Source :=
  match s with
  | '*' :: '*' :: _ | '*' :: '/' :: _ => []
  | '*' :: s => documentation false (block 0 s).1
  | '!' :: s => documentation true (block 0 s).1
  | _ => []

theorem line_length (s : List Char) : (line s).2.length ≤ s.length := by
  fun_induction line s <;> simp_all
  omega

theorem block_length (depth : Nat) (s : List Char) : (block depth s).2.length ≤ s.length := by
  fun_induction block depth s <;> simp_all <;> omega

def nameLength (s : List Char) : Nat :=
  match s with
  | 'r' :: '#' :: t => if wordLength t = 0 then wordLength s else 2 + wordLength t
  | s => wordLength s

def next (c : Char) (s : List Char) : Source × List Char :=
  if Text.isBlank c then ([], s)
  else if c = '/' && s.head? = some '/' then (lineComment s.tail, (line s.tail).2)
  else if c = '/' && s.head? = some '*' then (blockComment s.tail, (block 0 s.tail).2)
  else match literalLength? (c :: s) with
    | some n => ([.literal ((c :: s).take n)], s.drop (n - 1))
    | none =>
      let n := nameLength (c :: s)
      if n ≠ 0 then ([.word ((c :: s).take n)], s.drop (n - 1))
      else if c = '\'' && nameLength s ≠ 0 then
        ([.lifetime (s.take (nameLength s))], s.drop (nameLength s))
      else if c = ':' && s.head? = some ':' then ([.separator], s.tail)
      else ([.mark c], s)

theorem next_length (c : Char) (s : List Char) : (next c s).2.length ≤ s.length := by
  have htail : s.tail.length ≤ s.length := by simp
  unfold next
  split
  · exact Nat.le_refl _
  split
  · exact Nat.le_trans (line_length s.tail) htail
  split
  · exact Nat.le_trans (block_length 0 s.tail) htail
  split
  · simp
  dsimp only
  split
  · simp
  split
  · simp
  split
  · exact htail
  · exact Nat.le_refl _

def read (s : List Char) : Source :=
  match s with
  | [] => []
  | c :: s => (next c s).1 ++ read (next c s).2
termination_by s.length
decreasing_by
  have := next_length c s
  simp only [List.length_cons]
  omega

def ofString (s : String) : Source :=
  match s.toList with
  -- a byte order mark
  | '\ufeff' :: s => read s
  | s => read s

end SelectList.Source
