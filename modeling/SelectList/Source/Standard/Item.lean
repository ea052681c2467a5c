import SelectList.Source.Standard.Expression

namespace SelectList.Source.Standard

open Reading

def hasReach : Source → Bool
  | .mark '(' :: .word w :: ts =>
    w = "in".toList || (String.ofList w ∈ ["crate", "self", "super"] && hasMark ')' ts)
  | _ => false

def visibility : Reading Source :=
  given (hasWord "pub") (seq [any, given hasReach group])

def unknownItem : Reading Source := fun ts =>
  let n := length ts.length ts
  if n = 0 then none else some (ts.splitAt n)
where
  length : Nat → Source → Nat
    | 0, _ | _, [] => 0
    | fuel + 1, t :: ts =>
      if t = .mark ';' then 1
      else
        let n := if opens (t :: ts) then groupLength 0 (t :: ts) else 1
        if t = .mark '\x7b' then n else n + length fuel ((t :: ts).drop n)

def throughSemicolon : Reading Source :=
  seq [many (fun ts => !hasMark ';' ts) any, mark ';']

def hasQualifier (ts : Source) : Bool := frontWord ts ∈ ["const", "async", "unsafe", "safe"]

def qualifiers : Reading Source := seq [many hasQualifier any, abi]

def hasFunction (ts : Source) : Bool :=
  match qualifiers ts with
  | some (_, rest) => hasWord "fn" rest
  | none => false

def receiver : Reading Source :=
  seq [given (hasMark '&') (seq [any, given hasLifetime any]), given (hasWord "mut") any,
    word "self"]

def hasReceiver (ts : Source) : Bool := (receiver ts).isSome

def hasTypeAlone : Source → Bool
  | t :: .mark '<' :: _ => isName t
  | _ => false

def itemParam (g : Grammar) : Reading Source := do
  let attributes ← attributes
  let ts ← get
  let param ←
    if hasReceiver ts then seq [receiver, given (hasMark ':') (seq [any, g.type true])]
    else if hasEllipsis ts then ellipsis
    else if hasTypeAlone ts then pure (ofWord "_" ++ .mark ':' :: (← g.type true))
    else
      seq [g.pattern, mark ':', do if hasEllipsis (← get) then ellipsis else g.type true]
  return attributes ++ param

def functionHead (g : Grammar) : Reading Source :=
  seq [qualifiers, word "fn", name, generics g, enclosed '(' ')' (itemParam g), result g true,
    whereClause g]

def function (g : Grammar) : Reading Source := seq [functionHead g, g.block]

def namedMembers (g : Grammar) : Reading Source :=
  enclosed '\x7b' '\x7d' (seq [attributes, visibility, anyWord, mark ':', g.type true])

def unnamedMembers (g : Grammar) : Reading Source :=
  enclosed '(' ')' (seq [attributes, visibility, g.type true])

def structureItem (g : Grammar) : Reading Source := do
  let head ← seq [any, name, generics g, whereClause g]
  let ts ← get
  if hasMark '\x7b' ts then return head ++ (← namedMembers g)
  if hasMark '(' ts then return head ++ (← seq [unnamedMembers g, whereClause g, mark ';'])
  return head ++ (← mark ';')

def variant (g : Grammar) : Reading Source := do
  let attributes ← attributes
  let _ ← visibility
  let variant ← name
  let ts ← get
  let members ←
    if hasMark '\x7b' ts then namedMembers g
    else if hasMark '(' ts then unnamedMembers g
    else pure []
  return attributes ++ variant ++ members ++
    (← given (hasMark '=') (seq [any, g.expression true]))

def enumeration (g : Grammar) : Reading Source :=
  seq [any, name, generics g, whereClause g, enclosed '\x7b' '\x7d' (variant g)]

def constantItem (g : Grammar) : Reading Source :=
  seq [any, given (hasWord "mut") any, anyWord, mark ':', g.type true, mark '=',
    g.expression true, mark ';']

def abbreviation (g : Grammar) : Reading Source :=
  seq [any, name, generics g, whereClause g, mark '=', g.type true, mark ';']

def invocationItem : Reading Source :=
  seq [wordPath, mark '!', given hasName any, group, given (hasMark ';') any]

def members (item : Reading Source) : Reading Source :=
  seq [mark '\x7b', innerAttributes,
    many (!closes ·) (seq [attributes, item <|> asWritten unknownItem]), mark '\x7d']

def boundsOfItem (g : Grammar) : Reading Source := given (hasMark ':') (afterColon g.bounds)

def associatedType (g : Grammar) : Reading Source :=
  seq [any, name, generics g, boundsOfItem g, given (hasMark '=') (seq [any, g.type true]),
    whereClause g, mark ';']

def traitItem (g : Grammar) : Reading Source := do
  let ts ← get
  if hasFunction ts then
    seq [functionHead g, do if hasMark ';' (← get) then any else g.block]
  else if hasWord "const" ts then
    seq [any, anyWord, mark ':', g.type true,
      given (hasMark '=') (seq [any, g.expression true]), mark ';']
  else if hasWord "type" ts then associatedType g
  else invocationItem

def trait (g : Grammar) : Reading Source := do
  let head ← seq [given (hasWord "unsafe") any, given (hasWord "auto") any, word "trait", name,
    generics g]
  if hasMark '=' (← get) then
    return head ++ (← seq [any, g.bounds, whereClause g, mark ';'])
  return head ++ (← seq [boundsOfItem g, whereClause g, members (traitItem g)])

def hasGenerics : Source → Bool
  | .mark '<' :: .mark c :: _ => c ∈ ['>', '#']
  | .mark '<' :: .lifetime _ :: .mark c :: _ => c ∈ [':', ',', '>', '=']
  | .mark '<' :: .word w :: ts =>
    w = "const".toList || (isName (.word w) &&
      (hasMark ':' ts || hasMark ',' ts || hasMark '>' ts || hasMark '=' ts))
  | _ => false

def implementedType (g : Grammar) : Reading Source :=
  seq [any, name, generics g, mark '=', g.type true, whereClause g, mark ';']

def implementedItem (g : Grammar) : Reading Source := do
  let before ← seq [visibility, given (hasWord "default") any]
  let ts ← get
  if hasFunction ts then return before ++ (← function g)
  if hasWord "const" ts then return before ++ (← constantItem g)
  if hasWord "type" ts then return before ++ (← implementedType g)
  if before.isEmpty then invocationItem else failure

def implementation (g : Grammar) : Reading Source :=
  seq [given (hasWord "default") any, given (hasWord "unsafe") any, word "impl",
    given hasGenerics (generics g), given (hasMark '!') any, g.type true,
    given (hasWord "for") (seq [any, g.type true]), whereClause g, members (implementedItem g)]

def foreignItem (g : Grammar) : Reading Source := do
  let before ← visibility
  let ts ← get
  if hasFunction ts then return before ++ (← seq [functionHead g, mark ';'])
  if hasWord "static" ts then
    return before ++ (← seq [any, given (hasWord "mut") any, name, mark ':', g.type true,
      mark ';'])
  if hasWord "type" ts then
    return before ++ (← seq [any, name, generics g, whereClause g, mark ';'])
  if before.isEmpty then invocationItem else failure

def foreignItems (g : Grammar) : Reading Source :=
  seq [given (hasWord "unsafe") any, abi, members (foreignItem g)]

def module (g : Grammar) : Reading Source := do
  let head ← seq [given (hasWord "unsafe") any, word "mod", name]
  if hasMark ';' (← get) then return head ++ (← any)
  return head ++ (← members g.item)

def afterQualifiers : Source → String
  | .word w :: ts =>
    if String.ofList w ∈ ["unsafe", "auto", "default"] then afterQualifiers ts
    else String.ofList w
  | _ => ""

def knownItem (g : Grammar) : Reading Source := do
  let before ← visibility
  let ts ← get
  if hasFunction ts then return before ++ (← function g)
  match afterQualifiers ts with
  | "use" => return before ++ (← throughSemicolon)
  | "static" | "const" => return before ++ (← constantItem g)
  | "type" => return before ++ (← abbreviation g)
  | "struct" => return before ++ (← structureItem g)
  | "enum" => return before ++ (← enumeration g)
  | "union" => return before ++ (← seq [any, name, generics g, whereClause g, namedMembers g])
  | "mod" => return before ++ (← module g)
  | "trait" => return before ++ (← trait g)
  | "extern" =>
    return before ++ (← if hasWord "crate" ts.tail then throughSemicolon else foreignItems g)
  | "impl" => if before.isEmpty then implementation g else failure
  | _ => if before.isEmpty then invocationItem else failure

def item (g : Grammar) : Reading Source := knownItem g <|> unknownItem

end SelectList.Source.Standard
