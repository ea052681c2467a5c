import SelectList.Cache
import SelectList.Column
import SelectList.Json.Reader
import SelectList.Json.Structured
import SelectList.Text

namespace SelectList.Json

def escapedChar (c : Char) : List Char :=
  if c = '"' || c = '\\' then ['\\', c]
  else if c = '\x08' then ['\\', 'b']
  else if c = '\x0c' then ['\\', 'f']
  else if c = '\n' then ['\\', 'n']
  else if c = '\r' then ['\\', 'r']
  else if c = '\t' then ['\\', 't']
  else if c < ' ' then
    ['\\', 'u', '0', '0', Text.hexDigit (c.toNat / 16), Text.hexDigit (c.toNat % 16)]
  else [c]

def writeText (s : String) : List Char :=
  '"' :: s.toList.flatMap escapedChar ++ ['"']

def writeMembers : List (String × List Char) → List Char
  | [] => []
  | [(name, value)] => writeText name ++ ':' :: value
  | (name, value) :: ms => writeText name ++ ':' :: value ++ ',' :: writeMembers ms

def writeStructure (ms : List (String × List Char)) : List Char :=
  '\x7b' :: writeMembers ms ++ ['\x7d']

structure ColumnDraft where
  name : Option String := none
  path : Option String := none
  kind : Option Kind := none
  order : Option Nat := none

def once {α β : Type} (seen : Option α) (name : String) (r : Reader β) : Except Fault (Reader β) :=
  if seen.isSome then .error (.mismatch (.repeatedMember name)) else .ok r

def present {α : Type} (member : Option α) (name : String) : Except Fault α :=
  match member with
  | some a => .ok a
  | none => .error (.mismatch (.missingMember name))

namespace ColumnDraft

def readName (d : ColumnDraft) : Reader ColumnDraft :=
  Reader.text.map fun s => { d with name := some s }

def readPath (d : ColumnDraft) : Reader ColumnDraft :=
  Reader.text.map fun s => { d with path := some s }

def readKind (d : ColumnDraft) : Reader ColumnDraft :=
  (Reader.variant (Kind.all.map fun k => (k.name, k))).map fun k => { d with kind := some k }

def readOrder (d : ColumnDraft) : Reader ColumnDraft :=
  Reader.natural.map fun n => { d with order := some n }

def member (d : ColumnDraft) (name : String) : Except Fault (Reader ColumnDraft) :=
  if name = "name" then once d.name name d.readName
  else if name = "path" then once d.path name d.readPath
  else if name = "kind" then once d.kind name d.readKind
  else if name = "declaration_order" then once d.order name d.readOrder
  else .ok (Reader.skip.map fun _ => d)

def layout : Reader.Layout ColumnDraft where
  name := "FieldSpec"
  member := member
  inOrder := [readName, readPath, readKind, readOrder]
  short n _ := .error (.mismatch (.wrongLength n "FieldSpec" 4))

def complete (d : ColumnDraft) : Except Fault Column := do
  let name ← present d.name "name"
  let path ← present d.path "path"
  let kind ← present d.kind "kind"
  let order ← present d.order "declaration_order"
  return ⟨⟨name, path, kind⟩, order⟩

end ColumnDraft

def column : Reader Column :=
  (Reader.structured ColumnDraft.layout {}).checked ColumnDraft.complete

def readColumns (s : String) : Except Fault (List Column) :=
  (Reader.list column).whole s

def writeColumn (c : Column) : List Char :=
  writeStructure [("name", writeText c.name), ("path", writeText c.path),
    ("kind", writeText c.kind.name), ("declaration_order", Decimal.digits c.order)]

def writeItems : List Column → List Char
  | [] => []
  | [c] => writeColumn c
  | c :: cs => writeColumn c ++ ',' :: writeItems cs

def writeColumns (cs : List Column) : String :=
  String.ofList ('[' :: writeItems cs ++ [']'])

structure ConfigDraft where
  cacheCapacity : Option Nat := none

namespace ConfigDraft

def readCapacity (d : ConfigDraft) : Reader ConfigDraft :=
  Reader.natural.map fun n => { d with cacheCapacity := some n }

def layout : Reader.Layout ConfigDraft where
  name := "Config"
  member d name :=
    if name = "cache_capacity" then once d.cacheCapacity name d.readCapacity
    else .ok (Reader.skip.map fun _ => d)
  inOrder := [readCapacity]
  short _ d := .ok d

def complete (d : ConfigDraft) : Config :=
  Config.Builder.build ⟨d.cacheCapacity⟩

end ConfigDraft

def config : Reader Config :=
  (Reader.structured ConfigDraft.layout {}).map ConfigDraft.complete

def readConfig (s : String) : Except Fault Config :=
  config.whole s

def writeConfig (c : Config) : String :=
  String.ofList (writeStructure [("cache_capacity", Decimal.digits c.cacheCapacity)])

end SelectList.Json
