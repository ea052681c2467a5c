import SelectList.Letter
import SelectList.Record

namespace SelectList

structure Tag where
  name : Option String
  json : Bool
  ignored : Bool
deriving DecidableEq, Repr

namespace Tag

def untagged : Tag := ⟨none, false, false⟩

def split : List Char → List Char × List (List Char)
  | [] => ([], [])
  | c :: cs =>
    let (p, ps) := split cs
    if c = ',' then ([], p :: ps) else (c :: p, ps)

def ofChars (raw : List Char) : Tag :=
  if raw = ['-'] then { untagged with ignored := true }
  else
    let (name, options) := split raw
    { name := if name = [] then none else some (String.ofList name)
      json := options.getLast? == some ['j', 's', 'o', 'n']
      ignored := false }

def parse (raw : Option String) : Tag :=
  (raw.map fun s => ofChars s.toList).getD untagged

end Tag

open Letter

namespace SnakeCase

/-- A capital starts a word after a small letter or a digit, and after a capital if a small letter
follows. -/
def startsWord (before : Char) (after : Option Char) : Bool :=
  isLowercase before || before.isDigit || (isUppercase before && after.any isLowercase)

structure Last where
  read : Char
  written : Char

def Last.ofLetter (c : Char) : Last :=
  ⟨c, (lowercase c).getLast?.getD c⟩

def gap (last : Option Last) (after : Option Char) : List Char :=
  -- none at the start, and none after another one, be it from the identifier or written here
  if last.any fun l => l.written != '_' && startsWord l.read after then ['_'] else []

def words (last : Option Last) : List Char → List Char
  | [] => []
  | c :: rest =>
    if isUppercase c then gap last rest.head? ++ lowercase c ++ words (some (.ofLetter c)) rest
    else c :: words (some ⟨c, c⟩) rest

end SnakeCase

def snakeCase (ident : String) : String :=
  String.ofList (SnakeCase.words none ident.toList)

inductive Role
  | hidden
  | promoted (record : Slot)
  | json (name : String)
  | plain (name : String)
  | expanded (name : String) (record : Slot)
deriving DecidableEq, Repr

namespace Field

def columnName (f : Field) : String :=
  (Tag.parse f.tag).name.getD (snakeCase f.ident)

/-- Embedding is looked at before visibility and name: a hidden field can promote its record. -/
def role (f : Field) : Role :=
  let tag := Tag.parse f.tag
  if tag.ignored then .hidden
  else if f.embedded then (f.nested.map .promoted).getD .hidden
  else if !f.exported || f.columnName == "" then .hidden
  else if tag.json then .json f.columnName
  else (f.nested.map (.expanded f.columnName)).getD (.plain f.columnName)

end Field

end SelectList
