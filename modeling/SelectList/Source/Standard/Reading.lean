import SelectList.Source

namespace SelectList.Source

abbrev Reading := StateT Source Option

def hasMark (c : Char) (ts : Source) : Bool := ts.head? == some (.mark c)

def hasWord (w : String) (ts : Source) : Bool := ts.head? == some (.word w.toList)

def frontWord : Source → String
  | .word w :: _ => String.ofList w
  | _ => ""

def isName : Token → Bool
  | .word w => String.ofList w ∉ keywords
  | _ => false

def hasName (ts : Source) : Bool := ts.head?.any isName

def closes : Source → Bool
  | [] => true
  | .mark c :: _ => c ∈ [')', ']', '>', '\x7d']
  | _ => false

abbrev Listed (α : Type) := List (α × Bool)

def joined (mark : Char) (ps : Listed Source) : Source :=
  ps.flatMap fun (s, isFollowed) => if isFollowed then s ++ [.mark mark] else s

namespace Reading

def token (test : Token → Bool) : Reading Source := fun ts =>
  match ts with
  | [] => none
  | t :: ts => if test t then some ([t], ts) else none

def any : Reading Source := token fun _ => true

def mark (c : Char) : Reading Source := token (· == .mark c)

def word (w : String) : Reading Source := token (· == .word w.toList)

def name : Reading Source := token isName

def anyWord : Reading Source := token fun
  | .word _ => true
  | _ => false

def lifetime : Reading Source := token fun
  | .lifetime _ => true
  | _ => false

def seq : List (Reading Source) → Reading Source
  | [] => return []
  | p :: ps => return (← p) ++ (← seq ps)

def given (test : Source → Bool) (p : Reading Source) : Reading Source := do
  if test (← get) then p else return []

def repeated (starts : Source → Bool) (p : Reading Source) : Nat → Reading Source
  | 0 => return []
  | n + 1 => do
    if starts (← get) then return (← p) ++ (← repeated starts p n) else return []

def many (starts : Source → Bool) (p : Reading Source) : Reading Source := do
  repeated starts p (← get).length

def listedWithin {α : Type} (separator : Char) (ends : Source → Bool) (p : Reading α) :
    Nat → Reading (Listed α)
  | 0 => return []
  | n + 1 => do
    if ends (← get) then return []
    let a ← p
    if hasMark separator (← get) then
      let _ ← any
      return (a, true) :: (← listedWithin separator ends p n)
    return [(a, false)]

def listed {α : Type} (separator : Char) (ends : Source → Bool) (p : Reading α) :
    Reading (Listed α) := do
  listedWithin separator ends p (← get).length

def list (separator : Char) (ends : Source → Bool) (p : Reading Source) : Reading Source :=
  return joined separator (← listed separator ends p)

def enclosed (opening closing : Char) (p : Reading Source) : Reading Source :=
  seq [mark opening, list ',' closes p, mark closing]

def groupLength (depth : Nat) : Source → Nat
  | [] => 0
  | t :: ts =>
    if t ∈ [.mark '(', .mark '[', .mark '\x7b'] then 1 + groupLength (depth + 1) ts
    else if t ∈ [.mark ')', .mark ']', .mark '\x7d'] then
      if depth ≤ 1 then 1 else 1 + groupLength (depth - 1) ts
    else 1 + groupLength depth ts

def opens : Source → Bool
  | .mark c :: _ => c ∈ ['(', '[', '\x7b']
  | _ => false

def group : Reading Source := fun ts =>
  if opens ts then some (ts.splitAt (groupLength 0 ts)) else none

def asWritten (p : Reading Source) : Reading Source := fun ts =>
  (p ts).map fun (_, rest) => (ts.take (ts.length - rest.length), rest)

end Reading

structure Grammar where
  type : Bool → Reading Source
  bounds : Reading Source
  expression : Bool → Reading Source
  standalone : Reading Source
  pattern : Reading Source
  block : Reading Source
  item : Reading Source

def Grammar.empty : Grammar :=
  ⟨fun _ => failure, failure, fun _ => failure, failure, failure, failure, failure⟩

namespace Reading

def attributes : Reading Source :=
  many (hasMark '#') (seq [mark '#', group])

def hasInnerAttribute : Source → Bool
  | .mark '#' :: .mark '!' :: _ => true
  | _ => false

def innerAttributes : Reading Source :=
  many hasInnerAttribute (seq [mark '#', mark '!', group])

def hasArrow (c : Char) : Source → Bool
  | .mark d :: .mark '>' :: _ => d == c
  | _ => false

def arrow (c : Char) : Reading Source := seq [mark c, mark '>']

end Reading

end SelectList.Source
