namespace SelectList

inductive Kind
  | plain
  | jsonOpaque
  | nestedExpanded
deriving DecidableEq, Repr

def Kind.all : List Kind := [.plain, .jsonOpaque, .nestedExpanded]

def Kind.name : Kind → String
  | .plain => "Plain"
  | .jsonOpaque => "JsonOpaque"
  | .nestedExpanded => "NestedExpanded"

/-- A column as the walk emits it. The path is empty unless the column is expanded. -/
structure RawColumn where
  name : String
  path : String
  kind : Kind
deriving DecidableEq, Repr

namespace RawColumn

def plain (name : String) : RawColumn := ⟨name, "", .plain⟩

def json (name : String) : RawColumn := ⟨name, "", .jsonOpaque⟩

def under (outer : String) (c : RawColumn) : RawColumn :=
  let dotted := outer ++ "." ++ c.name
  ⟨dotted, dotted, .nestedExpanded⟩

def keepFirst (seen : List String) : List RawColumn → List RawColumn
  | [] => []
  | c :: cs =>
    if c.name ∈ seen then keepFirst seen cs else c :: keepFirst (c.name :: seen) cs

end RawColumn

structure Column extends RawColumn where
  order : Nat
deriving DecidableEq, Repr

namespace Column

def needsAlias (c : Column) : Bool :=
  c.name.toList.contains '.'

def number (cs : List RawColumn) : List Column :=
  cs.zipIdx.map fun (c, i) => ⟨c, i⟩

def ofRaw (cs : List RawColumn) : List Column :=
  number (RawColumn.keepFirst [] cs)

end Column

namespace Rendering

def escaped (name : List Char) : List Char :=
  name.flatMap fun c => if c = '"' then ['"', '"'] else [c]

def quoted (name : List Char) : List Char := '"' :: escaped name ++ ['"']

def item (name : List Char) : List Char :=
  if '.' ∈ name then quoted name ++ " as ".toList ++ quoted name else quoted name

def items : List (List Char) → List Char
  | [] => []
  | [name] => item name
  | name :: next :: rest => item name ++ ',' :: items (next :: rest)

end Rendering

namespace Column

def expression (cs : List Column) : String :=
  String.ofList (Rendering.items (cs.map fun c => c.name.toList))

def names (cs : List Column) : List String :=
  cs.map fun c => c.name

end Column

end SelectList
