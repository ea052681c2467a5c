import SelectList.Number
import SelectList.Source.Standard.Type

namespace SelectList.Source.Standard

open Reading

def hexValue (c : Char) : Nat :=
  if c.isDigit then Decimal.digitValue c else c.toLower.toNat - 'a'.toNat + 10

def position (spelling : List Char) : Nat :=
  let (base, digits) := match spelling with
    | '0' :: 'x' :: s => (16, s)
    | '0' :: 'o' :: s => (8, s)
    | '0' :: 'b' :: s => (2, s)
    | s => (10, s)
  (digits.filter (· != '_')).foldl (fun n c => n * base + hexValue c) 0

def positionToken (spelling : List Char) : Token := .literal (Decimal.digits (position spelling))

def positions (spelling : List Char) : Source :=
  let whole := spelling.takeWhile (· != '.')
  match _h : spelling.dropWhile (· != '.') with
  | '.' :: rest => positionToken whole :: .mark '.' :: (if rest.isEmpty then [] else positions rest)
  | _ => [positionToken whole]
termination_by spelling.length
decreasing_by
  have h := (List.dropWhile_sublist (l := spelling) (· != '.')).length_le
  rw [_h] at h
  simp only [List.length_cons] at h
  omega

def hasPosition : Source → Bool
  | .literal _ :: _ => true
  | _ => false

def member : Reading Source := fun ts =>
  match ts with
  | .literal spelling :: ts => some ([positionToken spelling], ts)
  | ts => name ts

def hasAlternative : Source → Bool
  | .mark '|' :: .mark c :: _ => c ∉ ['|', '=']
  | ts => hasMark '|' ts

def alternatives (g : Grammar) : Reading Source :=
  seq [given hasAlternative any, g.pattern, many hasAlternative (seq [any, g.pattern])]

def hasRangeMark (ts : Source) : Bool :=
  hasMark '.' ts || (hasMark '=' ts && !hasArrow '=' ts)

def dots : Reading Source := seq [mark '.', mark '.', given hasRangeMark any]

def hasLimit : Source → Bool
  | .literal _ :: _ | .mark '-' :: _ | .mark '<' :: _ | .separator :: _ => true
  | ts => frontWord ts ∉ ["", "if"]

def limit (g : Grammar) : Reading Source := do
  let ts ← get
  if hasWord "const" ts then seq [any, g.block]
  else if hasConstant ts then constant g
  else qualifiedPath g false

def furtherRange (g : Grammar) : Reading Source :=
  given hasDots (seq [dots, given hasLimit (limit g)])

def isBinding (w : String) : Bool := w ∈ ["box", "ref", "mut"]

def hasBinding (ts : Source) : Bool := isBinding (frontWord ts)

def memberPattern (g : Grammar) : Reading Source := do
  let attributes ← attributes
  if hasDots (← get) then return attributes ++ (← dots)
  return attributes ++ (← seq [many hasBinding any, member,
    given (hasMark ':') (seq [any, alternatives g])])

def pathPattern (g : Grammar) : Reading Source := do
  let p ← qualifiedPath g false
  let ts ← get
  let rest ←
    if hasInvocation ts then invocation
    else if hasMark '\x7b' ts then enclosed '\x7b' '\x7d' (memberPattern g)
    else if hasMark '(' ts then enclosed '(' ')' (alternatives g)
    else furtherRange g
  return p ++ rest

def boundName (g : Grammar) : Reading Source :=
  seq [given (hasWord "ref") any, given (hasWord "mut") any, anyWord,
    given (hasMark '@') (seq [any, g.pattern])]

def continuesPath : Source → Bool
  | .separator :: _ => true
  | .mark c :: _ => c ∈ ['!', '\x7b', '(', '<']
  | _ => false

def wordPattern (g : Grammar) (w : String) (rest : Source) : Reading Source :=
  if w = "_" then any
  else if w = "box" then asWritten (seq [any, g.pattern])
  else if w ∈ ["ref", "mut"] then boundName g
  else if w ∈ ["true", "false", "const"] then seq [limit g, furtherRange g]
  else if w ∈ ["Self", "super", "crate"] || continuesPath rest || hasDots rest then pathPattern g
  else boundName g

def pattern (g : Grammar) : Reading Source := do
  match ← get with
  | .mark '&' :: _ => seq [any, given (hasMark '&') any, given (hasWord "mut") any, g.pattern]
  | .mark '(' :: _ => enclosed '(' ')' (alternatives g)
  | .mark '[' :: _ => enclosed '[' ']' (alternatives g)
  | .mark '.' :: _ => seq [dots, given hasLimit (limit g)]
  | .literal _ :: _ | .mark '-' :: _ => seq [limit g, furtherRange g]
  | .word w :: rest => wordPattern g (String.ofList w) rest
  | _ => pathPattern g

end SelectList.Source.Standard
