import SelectList.Text

namespace SelectList

inductive Token
  | word (w : List Char)
  | lifetime (name : List Char)
  | literal (spelling : List Char)
  | separator
  | mark (c : Char)
deriving DecidableEq, Repr

def Token.spelling : Token → List Char
  | .word w => w
  | .lifetime name => '\'' :: name
  | .literal spelling => spelling
  | .separator => [':', ':']
  | .mark c => [c]

abbrev Source := List Token

namespace Source

def ofWord (w : String) : Source := [.word w.toList]

/-- The spellings in order, without white space even where a literal holds it. -/
def compact (s : Source) : List Char :=
  s.flatMap fun t => t.spelling.filter fun c => !Text.isWhite c

def text (s : Source) : String := String.ofList s.compact

@[simp] theorem compact_append (s t : Source) : compact (s ++ t) = compact s ++ compact t := by
  simp [compact]

def isWordStart (c : Char) : Bool :=
  c.isAlpha || c == '_' || (c.toNat > 127 && !Text.isBlank c)

def isWordChar (c : Char) : Bool := isWordStart c || c.isDigit

def wordLength (s : List Char) : Nat :=
  if s.head?.any isWordStart then (s.takeWhile isWordChar).length else 0

def keywords : List String :=
  ["_", "abstract", "as", "async", "await", "become", "box", "break", "const", "continue", "crate",
    "do", "dyn", "else", "enum", "extern", "false", "final", "fn", "for", "if", "impl", "in", "let",
    "loop", "macro", "match", "mod", "move", "mut", "override", "priv", "pub", "ref", "return",
    "Self", "self", "static", "struct", "super", "trait", "true", "try", "type", "typeof", "unsafe",
    "unsized", "use", "virtual", "where", "while", "yield"]

end Source

end SelectList
