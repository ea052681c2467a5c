import SelectList.Source.Standard.Reading

namespace SelectList.Source

def separated : Listed Source → Source
  | [] => []
  | [p] => joined ',' [p]
  | (s, _) :: ps => s ++ .mark ',' :: separated ps

def lifetimesFirst (ps : Listed (Bool × Source)) : Source :=
  let kept (isLifetime : Bool) :=
    (ps.filter fun p => p.1.1 == isLifetime).map fun p => (p.1.2, p.2)
  separated (kept true ++ kept false)

namespace Standard

open Reading

def hasConstant : Source → Bool
  | .literal _ :: _ | .mark '-' :: .literal _ :: _ | .mark '\x7b' :: _ => true
  | ts => frontWord ts ∈ ["true", "false"]

def constant (g : Grammar) : Reading Source := do
  if hasMark '\x7b' (← get) then g.block else seq [given (hasMark '-') any, any]

def typeArgument (g : Grammar) : Reading Source := do
  let type ← g.type true
  let rest ← get
  if hasMark '=' rest then
    let _ ← any
    return type ++ .mark '=' :: (← if hasConstant (← get) then constant g else g.type true)
  else if hasMark ':' rest then
    let _ ← any
    return type ++ .mark ':' :: (← g.bounds)
  else return type

def argument (g : Grammar) : Reading (Bool × Source) := do
  match ← get with
  | .lifetime _ :: .mark '+' :: _ => return (false, ← g.type true)
  | .lifetime _ :: _ => return (true, ← any)
  | ts => return (false, ← if hasConstant ts then constant g else typeArgument g)

def hasSeparator (ts : Source) : Bool := ts.head? == some .separator

def hasArguments (inType : Bool) : Source → Bool
  | .mark '<' :: .mark '=' :: _ => false
  | .mark '<' :: _ => inType
  | .separator :: .mark '<' :: _ => true
  | _ => false

def arguments (g : Grammar) : Reading Source := do
  let separator ← given hasSeparator any
  let opening ← mark '<'
  let arguments ← listed ',' closes (argument g)
  let closing ← mark '>'
  return separator ++ opening ++ lifetimesFirst arguments ++ closing

def isPlace (w : String) : Bool := w ∈ ["super", "self", "crate", "try"]

def segment (g : Grammar) (inType : Bool) : Reading Source := do
  let w := frontWord (← get)
  if isPlace w then any
  else seq [if w == "Self" then any else name, given (hasArguments inType) (arguments g)]

def continues : Source → Bool
  | .separator :: .mark '(' :: _ => false
  | ts => hasSeparator ts

def path (g : Grammar) (inType : Bool) : Reading Source :=
  seq [given hasSeparator any, segment g inType, many continues (seq [any, segment g inType])]

def qualifiedPath (g : Grammar) (inType : Bool) : Reading Source :=
  seq [
    given (hasMark '<') (seq [any, g.type true, given (hasWord "as") (seq [any, path g true]),
      mark '>']),
    path g inType]

def wordPath : Reading Source :=
  seq [given hasSeparator any, anyWord, many hasSeparator (seq [any, anyWord])]

def hasInvocation : Source → Bool
  | .mark '!' :: .mark '=' :: _ => false
  | ts => hasMark '!' ts

def invocation : Reading Source := seq [mark '!', group]

def result (g : Grammar) (isSum : Bool) : Reading Source :=
  given (hasArrow '-') (seq [arrow '-', g.type isSum])

def hasSignature : Source → Bool
  | .mark '(' :: _ | .separator :: .mark '(' :: _ => true
  | _ => false

def signature (g : Grammar) : Reading Source := do
  if hasSeparator (← get) then
    let _ ← any
  seq [enclosed '(' ')' (g.type true), result g false]

def traitPath (g : Grammar) : Reading Source := do
  let p ← qualifiedPath g true
  if p.getLast? == some (.mark '>') then return p
  return p ++ (← given hasSignature (signature g))

def hasLifetime : Source → Bool
  | .lifetime _ :: _ => true
  | _ => false

def lifetimes : Reading Source := list '+' (fun ts => !hasLifetime ts) lifetime

def afterColon (p : Reading Source) : Reading Source := do
  let colon ← mark ':'
  let bounds ← p
  return if bounds.isEmpty then [] else colon ++ bounds

def param (g : Grammar) : Reading (Bool × Source) := do
  let attributes ← attributes
  let ts ← get
  let param ←
    if hasLifetime ts then seq [any, given (hasMark ':') (afterColon lifetimes)]
    else if hasWord "const" ts then
      seq [any, name, mark ':', g.type true, given (hasMark '=') (seq [any, constant g])]
    else
      seq [anyWord, given (hasMark ':') (afterColon g.bounds),
        given (hasMark '=') (seq [any, g.type true])]
  return (hasLifetime ts, attributes ++ param)

def binder (g : Grammar) : Reading Source :=
  seq [word "for", mark '<', list ',' closes (Prod.snd <$> param g), mark '>']

def captured : Reading Source := do
  let opening ← seq [word "use", mark '<']
  let params ← listed ',' closes do
    return (hasLifetime (← get), ← any)
  let closing ← mark '>'
  return opening ++ lifetimesFirst params ++ closing

def traitBound (g : Grammar) : Reading Source :=
  let binders := given (hasWord "for") (binder g)
  seq [binders, given (hasMark '[') group, given (hasMark '~') any, given (hasWord "const") any,
    given (hasMark '?') any, binders, traitPath g]

def hasCondition (g : Grammar) (ts : Source) : Bool :=
  match (seq [given (hasMark '(') any, given (hasWord "for") (binder g)]) ts with
  | some (_, rest) => hasMark '[' rest || hasMark '~' rest || hasWord "const" rest
  | none => false

/-- A bound, which is left as it is written if it has a condition. -/
def bound (g : Grammar) : Reading Source := do
  let ts ← get
  let traits :=
    if hasMark '(' ts then seq [any, traitBound g, mark ')'] else traitBound g
  if hasLifetime ts then any
  else if hasWord "use" ts then captured
  else if hasCondition g ts then asWritten traits
  else traits

def hasBound : Source → Bool
  | .lifetime _ :: _ | .separator :: _ => true
  | .mark c :: _ => c ∈ ['(', '[', '?', '~']
  | ts => frontWord ts ∉ ["", "where"]

def bounds (g : Grammar) : Reading Source := list '+' (fun ts => !hasBound ts) (bound g)

def generics (g : Grammar) : Reading Source :=
  given (hasMark '<') do
    let opening ← any
    let params ← listed ',' closes (param g)
    let closing ← mark '>'
    return if params.isEmpty then [] else opening ++ lifetimesFirst params ++ closing

def predicate (g : Grammar) : Reading Source := do
  match ← get with
  | .lifetime _ :: .mark ':' :: _ => seq [any, any, lifetimes]
  | _ => seq [given (hasWord "for") (binder g), g.type true, mark ':', g.bounds]

def endsWhere : Source → Bool
  | .mark c :: _ => c ∈ ['\x7b', ';', '=', ',', ':'] || closes [.mark c]
  | ts => ts.isEmpty

def whereClause (g : Grammar) : Reading Source :=
  given (hasWord "where") do
    let opening ← any
    let predicates ← list ',' endsWhere (predicate g)
    return if predicates.isEmpty then [] else opening ++ predicates

def hasDots : Source → Bool
  | .mark '.' :: .mark '.' :: _ => true
  | _ => false

def hasEllipsis : Source → Bool
  | .mark '.' :: .mark '.' :: .mark '.' :: _ => true
  | _ => false

def ellipsis : Reading Source := seq [mark '.', mark '.', mark '.']

def abi : Reading Source :=
  given (hasWord "extern") (seq [any, given (fun ts => ts.head?.any isLiteral) any])
where
  isLiteral : Token → Bool
    | .literal _ => true
    | _ => false

def hasLabel : Source → Bool
  | .word _ :: .mark ':' :: _ => true
  | _ => false

def functionParam (g : Grammar) : Reading Source := do
  let attributes ← attributes
  let labelled := seq [given hasLabel (seq [any, any]),
    do if hasEllipsis (← get) then ellipsis else g.type true]
  let changing := asWritten (seq [any, anyWord, given (hasMark ':') (seq [any, g.type true])])
  return attributes ++ (← if hasWord "mut" (← get) then changing else labelled)

def functionType (g : Grammar) : Reading Source :=
  seq [given (hasWord "unsafe") any, abi, word "fn", enclosed '(' ')' (functionParam g),
    result g false]

def boundsType (g : Grammar) (isSum : Bool) : Reading Source :=
  if isSum then bounds g else bound g

def furtherBounds (g : Grammar) : Reading Source :=
  given (hasMark '+') (seq [any, bounds g])

def parenthesizedType (g : Grammar) (isSum : Bool) : Reading Source := do
  let inner : Reading Source := do
    let ts ← get
    if hasLifetime ts || hasMark '?' ts then bounds g else g.type true
  let group ← enclosed '(' ')' inner
  return group ++ (← if isSum then furtherBounds g else pure [])

def pathType (g : Grammar) (isSum : Bool) : Reading Source := do
  let p ← traitPath g
  let ts ← get
  if hasInvocation ts then return p ++ (← invocation)
  if isSum && hasMark '+' ts then return p ++ (← furtherBounds g)
  return p

def boundType (g : Grammar) (isSum : Bool) : Reading Source := do
  let keyword ← any
  if hasMark '*' (← get) then return keyword ++ (← asWritten (seq [any, boundsType g isSum]))
  return keyword ++ (← boundsType g isSum)

def wordType (g : Grammar) (isSum : Bool) (w : String) : Reading Source :=
  if w ∈ ["fn", "unsafe", "extern"] then functionType g
  else if w ∈ ["dyn", "impl"] then boundType g isSum
  else if w = "_" then any
  else pathType g isSum

def type (g : Grammar) (isSum : Bool) : Reading Source := do
  let before ← given (hasWord "for") (binder g)
  let ts ← get
  let type ← match ts with
    | .mark '(' :: _ => parenthesizedType g isSum
    | .mark '[' :: _ =>
      seq [any, g.type true, given (hasMark ';') (seq [any, g.expression true]), mark ']']
    | .mark '*' :: _ => seq [any, anyWord, g.type false]
    | .mark '&' :: _ =>
      seq [any, given hasLifetime any, given (hasWord "mut") any, g.type false]
    | .mark '!' :: _ => any
    | .lifetime _ :: _ => boundsType g isSum
    | _ => wordType g isSum (frontWord ts)
  return before ++ type

end Standard

end SelectList.Source
