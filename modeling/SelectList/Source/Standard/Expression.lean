import SelectList.Source.Standard.Pattern

namespace SelectList.Source.Standard

open Reading

def operatorLength : Source → Nat
  | .mark '=' :: .mark '>' :: _ | .mark '-' :: .mark '>' :: _ => 0
  | .mark '.' :: .mark '.' :: _ => 2
  | .mark '<' :: .mark '<' :: .mark '=' :: _ | .mark '>' :: .mark '>' :: .mark '=' :: _ => 3
  | .mark '!' :: ts => if hasMark '=' ts then 2 else 0
  | .mark c :: .mark d :: _ =>
    if c ∉ "+-*/%^&|<>=".toList then 0
    else if d = '=' || (c = d && c ∈ "&|<>".toList) then 2
    else 1
  | .mark c :: _ => if c ∈ "+-*/%^&|<>=".toList then 1 else 0
  | _ => 0

def hasOperator (ts : Source) : Bool := operatorLength ts != 0 || hasWord "as" ts

def hasExpression (withBrace : Bool) (ts : Source) : Bool :=
  match ts with
  | .word _ :: _ => frontWord ts ∉ ["as", "else"]
  | .literal _ :: _ | .lifetime _ :: _ | .separator :: _ => true
  | .mark '\x7b' :: _ => withBrace
  | .mark '.' :: _ => hasDots ts
  | .mark c :: .mark '=' :: _ => c ∈ ['(', '[', '#']
  | .mark '-' :: .mark '>' :: _ => false
  | .mark c :: _ => c ∈ "([#!-*|&<".toList
  | [] => false

def hasReference : Source → Bool
  | .word w :: .word v :: _ => w = "raw".toList && (v = "const".toList || v = "mut".toList)
  | _ => false

def reference : Reading Source := do
  let mark ← any
  if hasReference (← get) then return mark ++ (← seq [any, any])
  return mark ++ (← given (hasWord "mut") any)

def hasSign (ts : Source) : Bool :=
  ts.head?.any (· ∈ [.mark '#', .mark '&', .mark '*', .mark '!', .mark '-']) || hasWord "let" ts

def sign (g : Grammar) : Reading Source := do
  let ts ← get
  if hasMark '#' ts then attributes
  else if hasMark '&' ts then reference
  else if hasWord "let" ts then seq [any, alternatives g, mark '=']
  else any

def callArguments (g : Grammar) : Reading Source := enclosed '(' ')' (g.expression true)

def memberValue (g : Grammar) : Reading Source := do
  let attributes ← attributes
  if hasDots (← get) then
    return attributes ++ (← seq [dots, given (!closes ·) (g.expression true)])
  return attributes ++ (← seq [member, given (hasMark ':') (seq [any, g.expression true])])

def pathExpression (g : Grammar) (withBrace : Bool) : Reading Source := do
  let p ← qualifiedPath g false
  let ts ← get
  if hasInvocation ts then return p ++ (← invocation)
  if withBrace && hasMark '\x7b' ts then
    return p ++ (← enclosed '\x7b' '\x7d' (memberValue g))
  return p

def closureParam (g : Grammar) : Reading Source :=
  seq [attributes, g.pattern, given (hasMark ':') (seq [any, g.type true])]

def hasModifier (ts : Source) : Bool := frontWord ts ∈ ["const", "static", "async", "move"]

def closure (g : Grammar) (withBrace : Bool) : Reading Source := do
  let before ← seq [given (hasWord "for") (binder g), many hasModifier any, mark '|',
    list ',' (fun ts => ts.isEmpty || hasMark '|' ts) (closureParam g), mark '|']
  if hasArrow '-' (← get) then
    return before ++ (← seq [arrow '-', g.type true, g.block])
  return before ++ (← g.expression withBrace)

def array (g : Grammar) : Reading Source :=
  seq [mark '[', list ',' (fun ts => closes ts || hasMark ';' ts) (g.expression true),
    given (hasMark ';') (seq [any, g.expression true]), mark ']']

def condition (g : Grammar) : Reading Source := g.expression false

def hasElseIf : Source → Bool
  | .word w :: .word v :: _ => w = "else".toList && v = "if".toList
  | _ => false

def branches (g : Grammar) : Reading Source :=
  seq [any, condition g, g.block, many hasElseIf (seq [any, any, condition g, g.block]),
    given (hasWord "else") (seq [any, g.block])]

def arm (g : Grammar) : Reading Source :=
  seq [attributes, alternatives g, given (hasWord "if") (seq [any, g.expression true]), arrow '=',
    g.standalone, given (hasMark ',') any]

def choice (g : Grammar) : Reading Source :=
  seq [any, condition g, mark '\x7b', innerAttributes, many (!closes ·) (arm g), mark '\x7d']

def jump (g : Grammar) (withBrace : Bool) : Reading Source :=
  seq [any, given (hasExpression withBrace) (g.expression withBrace)]

def labelledJump (g : Grammar) (withBrace : Bool) : Reading Source :=
  seq [any, given hasLifetime any, given (hasExpression withBrace) (g.expression withBrace)]

def bindsLifetimes : Source → Bool
  | .mark '<' :: ts => hasLifetime ts || hasMark '>' ts
  | _ => false

def startsClosure (w : String) (rest : Source) : Bool :=
  match w with
  | "move" | "static" => true
  | "for" => bindsLifetimes rest
  | "const" => !hasMark '\x7b' rest
  | "async" => hasMark '|' rest || (hasWord "move" rest && !hasMark '\x7b' rest.tail)
  | _ => false

def wordValue (g : Grammar) (withBrace : Bool) (w : String) (rest : Source) : Reading Source :=
  if startsClosure w rest then closure g withBrace
  else match w with
    | "true" | "false" | "_" => any
    | "if" => branches g
    | "while" => seq [any, condition g, g.block]
    | "for" => seq [any, alternatives g, word "in", condition g, g.block]
    | "match" => choice g
    | "loop" | "unsafe" | "const" => seq [any, g.block]
    | "async" => seq [any, given (hasWord "move") any, g.block]
    | "try" => if hasMark '\x7b' rest then seq [any, g.block] else pathExpression g withBrace
    | "return" | "yield" | "become" => jump g withBrace
    | "break" | "continue" => labelledJump g withBrace
    | _ => pathExpression g withBrace

def value (g : Grammar) (withBrace : Bool) : Reading Source := do
  match ← get with
  | .literal _ :: _ => any
  | .mark '(' :: _ => callArguments g
  | .mark '[' :: _ => array g
  | .mark '\x7b' :: _ => g.block
  | .mark '|' :: _ => closure g withBrace
  | .mark '.' :: _ => seq [dots, given (hasExpression withBrace) (g.expression withBrace)]
  | .lifetime _ :: _ => seq [any, mark ':', g.standalone]
  | .word w :: rest => wordValue g withBrace (String.ofList w) rest
  | _ => pathExpression g withBrace

def endsWithPoint : Source → Bool
  | .literal spelling :: _ => spelling.getLast? == some '.'
  | _ => false

def pointed : Reading Source := fun ts =>
  match ts with
  | .literal spelling :: ts => some (positions spelling, ts)
  | _ => none

def access (g : Grammar) : Reading Source := do
  let before ← many endsWithPoint pointed
  let ts ← get
  if hasPosition ts then return before ++ (← pointed)
  if hasWord "await" ts then return before ++ (← any)
  return before ++ (← seq [name, given (hasArguments false) (arguments g)])

def hasTrailer : Source → Bool
  | .mark '.' :: ts => !hasMark '.' ts
  | .mark c :: _ => c ∈ ['(', '[', '?']
  | _ => false

def trailer (g : Grammar) : Reading Source := do
  match ← get with
  | .mark '(' :: _ => callArguments g
  | .mark '[' :: _ => seq [any, g.expression true, mark ']']
  | .mark '?' :: _ => any
  | _ => seq [any, access g]

def operand (g : Grammar) (withBrace : Bool) : Reading Source :=
  seq [many hasSign (sign g), value g withBrace, many hasTrailer (trailer g)]

def operation (g : Grammar) (withBrace : Bool) : Reading Source := do
  let ts ← get
  if hasWord "as" ts then seq [any, g.type false]
  else if hasDots ts then seq [dots, given (hasExpression withBrace) (operand g withBrace)]
  else seq (List.replicate (operatorLength ts) any ++ [operand g withBrace])

def expression (g : Grammar) (withBrace : Bool) : Reading Source :=
  seq [operand g withBrace, many hasOperator (operation g withBrace)]

def hasBlock : Source → Bool
  | .mark '\x7b' :: _ | .lifetime _ :: .mark ':' :: _ => true
  | .word w :: rest =>
    match String.ofList w with
    | "if" | "while" | "loop" | "match" => true
    | "for" => !bindsLifetimes rest
    | "unsafe" | "const" | "try" => hasMark '\x7b' rest
    | _ => false
  | _ => false

def hasContinuation : Source → Bool
  | .mark '.' :: ts => !hasMark '.' ts
  | ts => hasMark '?' ts

def standalone (g : Grammar) : Reading Source := do
  let attributes ← attributes
  if hasBlock (← get) then
    let block ← value g true
    return attributes ++ block ++ (← given hasContinuation (seq [many hasTrailer (trailer g),
      many hasOperator (operation g true)]))
  return attributes ++ (← expression g true)

end SelectList.Source.Standard
