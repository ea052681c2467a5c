import SelectList.Definition
import SelectList.Source

/-!
The attribute `db` of a member: a list of tag texts and the word `flatten`. The whole list is read
before tags are counted, and only the first such attribute is read at all.
-/

namespace SelectList

structure Settings where
  tag : Option (String × Place) := none
  flatten : Bool := false
deriving DecidableEq, Repr

namespace Attribute

inductive Piece
  | text (value : String)
  | word (spelling : String)
  | comma
  | other
deriving DecidableEq, Repr

def pieces : Arg → List Piece
  | .text value | .rawText value => [.text value]
  | .word spelling => [.word spelling]
  | .bytes _ | .number => [.other]
  | .nothing => []
  | .adjacent a b => pieces a ++ pieces b

abbrev Placed := List (Piece × Place)

def placed (member attr : Nat) (k : Nat) : List Arg → Placed
  | [] => []
  | [a] => (pieces a).map fun p => (p, .arg member attr k)
  | a :: b :: rest =>
    -- a comma is reported where the attribute is
    (pieces a).map (fun p => (p, .arg member attr k)) ++
      (.comma, .attr member attr) :: placed member attr (k + 1) (b :: rest)

def placedList (member attr : Nat) (args : List Arg) (trailing : Bool) : Placed :=
  placed member attr 0 args ++ if trailing then [(.comma, .attr member attr)] else []

inductive Reading
  | tag (value : String) (place : Place)
  | flatten
deriving DecidableEq, Repr

def readPiece : Piece × Place → Except Violation Reading
  | (.text value, place) => .ok (.tag value place)
  | (.word spelling, place) =>
    if spelling ∈ Source.keywords then .error ⟨.keyword spelling, place⟩
    else if spelling = "flatten" then .ok .flatten
    else .error ⟨.unknownArgument, place⟩
  | (.comma, place) | (.other, place) => .error ⟨.notIdentifier, place⟩

def readAll : Placed → Except Violation (List Reading)
  | [] => .ok []
  | [p] => (readPiece p).map fun r => [r]
  | p :: (.comma, _) :: rest => do
    let r ← readPiece p
    let rs ← readAll rest
    return r :: rs
  | p :: (_, place) :: _ => do
    let _ ← readPiece p
    throw ⟨.missingComma, place⟩

def collect (s : Settings) : List Reading → Except Violation Settings
  | [] => .ok s
  | .flatten :: rs => collect { s with flatten := true } rs
  | .tag value place :: rs =>
    if s.tag.isSome then .error ⟨.secondTag, place⟩
    else collect { s with tag := some (value, place) } rs

def readForm (member attr : Nat) : AttrForm → Except Violation Settings
  | .bare => .error ⟨.missingArguments, .attr member attr⟩
  | .assigned _ => .error ⟨.missingDelimiters, .attr member attr⟩
  | .listed _ args trailing => (readAll (placedList member attr args trailing)).bind (collect {})

def relevant (attrs : List Attr) : List (Attr × Nat) :=
  attrs.zipIdx.filter fun a => a.1.path == Source.ofWord "db"

def readFirst (member : Nat) : List (Attr × Nat) → Except Violation Settings
  | [] => .ok {}
  | [(a, j)] => readForm member j a.form
  | (a, j) :: (_, j') :: _ => do
    let _ ← readForm member j a.form
    throw ⟨.secondAttribute, .attr member j'⟩

def checkTag (s : Settings) : Except Violation Settings :=
  -- a flattened member has no column of its own, so that a tag can only leave it out
  match s.flatten, s.tag with
  | true, some (value, place) => if value = "-" then .ok s else .error ⟨.tagOfFlatten, place⟩
  | _, _ => .ok s

end Attribute

def Settings.ofAttrs (member : Nat) (attrs : List Attr) : Except Violation Settings :=
  (Attribute.readFirst member (Attribute.relevant attrs)).bind Attribute.checkTag

end SelectList
