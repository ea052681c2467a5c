import SelectList.Source.Reader
import SelectList.Source.Standard.Item

/-!
The standard form of source texts. A source that is no type, no bounds, or whatever it is read as,
stays as it is.
-/

namespace SelectList.Source

namespace Standard

open Reading

def binding (g : Grammar) : Reading Source :=
  seq [any, g.pattern, given (hasMark ':') (seq [any, g.type true]),
    given (hasMark '=') (seq [any, g.expression true, given (hasWord "else") (seq [any, g.block])]),
    mark ';']

def isInvocation (ts : Source) : Bool :=
  match (seq [wordPath, mark '!']) ts with
  | some (_, rest) => hasName rest || (hasMark '\x7b' rest &&
      !((group rest).any fun (_, rest) => hasContinuation rest))
  | none => false

def startsItem (w : String) (rest : Source) : Bool :=
  match w with
  | "pub" | "extern" | "use" | "fn" | "mod" | "type" | "struct" | "enum" | "trait" | "impl"
  | "macro" => true
  | "static" => hasWord "mut" rest || hasName rest
  | "const" => !(hasMark '\x7b' rest || hasMark '|' rest || hasWord "static" rest ||
      hasWord "move" rest || (hasWord "async" rest && !hasFunction rest))
  | "unsafe" => !hasMark '\x7b' rest
  | "async" => hasWord "unsafe" rest || hasWord "extern" rest || hasWord "fn" rest
  | "union" => hasName rest
  | "auto" => hasWord "trait" rest
  | "default" => hasWord "unsafe" rest || hasWord "impl" rest
  | _ => false

def hasItem : Source → Bool
  | .word w :: rest => startsItem (String.ofList w) rest
  | _ => false

def statement (g : Grammar) : Reading Source := do
  let attributes ← attributes
  let ts ← get
  let statement ←
    if hasMark ';' ts then any
    else if hasWord "let" ts then binding g
    else if hasItem ts then item g
    else if isInvocation ts then invocationItem
    else seq [standalone g, given (hasMark ';') any]
  return attributes ++ statement

def block (g : Grammar) : Reading Source :=
  seq [mark '\x7b', innerAttributes, many (!closes ·) (statement g), mark '\x7d']

def grammar : Nat → Grammar
  | 0 => .empty
  | n + 1 =>
    let g := grammar n
    { type := type g, bounds := bounds g, expression := expression g, standalone := standalone g,
      pattern := pattern g, block := block g, item := item g }

/-- Parts nest in parts only with tokens around them, except for the few kinds of parts that can
stand for each other. -/
def depth (s : Source) : Nat := 3 * s.length + 3

def whole (part : Grammar → Reading Source) (s : Source) : Source :=
  match part (grammar (depth s)) s with
  | some (t, []) => t
  | _ => s

end Standard

def ofType (s : String) : Source := Standard.whole (·.type true) (ofString s)

def ofBounds (s : String) : Source := Standard.whole (·.bounds) (ofString s)

def ofSubject (s : String) : Source :=
  let part (g : Grammar) : Reading Source :=
    Reading.seq [Reading.given (hasWord "for") (Standard.binder g), g.type true]
  Standard.whole part (ofString s)

def attributed (s : String) : Source × Source :=
  let ts := ofString s
  (Reading.attributes ts).getD ([], ts)

def ofVisibility (s : String) : Source := (attributed s).2

end SelectList.Source
