import SelectList.Source

namespace SelectList

inductive Arg
  | text (value : String)
  -- a backslash stands for itself
  | rawText (value : String)
  | bytes (value : String)
  | word (spelling : String)
  | number
  | nothing
  -- two of them without a comma in between
  | adjacent (first second : Arg)
deriving DecidableEq, Repr

inductive Delimiter
  | parens
  | brackets
  | braces
deriving DecidableEq, Repr

inductive AttrForm
  | bare
  | assigned (value : String)
  | listed (delimiter : Delimiter) (args : List Arg) (trailing : Bool)
deriving DecidableEq, Repr

structure Attr where
  path : Source
  form : AttrForm
deriving DecidableEq, Repr

structure Member where
  ident : String
  type : Source
  visibility : Source
  attrs : List Attr
deriving DecidableEq, Repr

inductive Param
  | lifetime (name : String)
  | type (attributes : Source) (name : String) (bounds : List Source)
      (default : Option Source := none)
  | const (name : String) (type : Source) (default : Option Source := none)
deriving DecidableEq, Repr

structure Predicate where
  type : Source
  bounds : List Source
deriving DecidableEq, Repr

inductive ItemKind
  | named
  | unit
  | tuple
  | enumeration
  | union
deriving DecidableEq, Repr

structure Item where
  kind : ItemKind
  name : String
  params : List Param := []
  predicates : List Predicate := []
  members : List Member := []
deriving DecidableEq, Repr

inductive Cause
  | lifetimeParam
  | notStructure
  | unnamedMembers
  | secondAttribute
  | missingArguments
  | missingDelimiters
  | unknownArgument
  | keyword (spelling : String)
  | notIdentifier
  | missingComma
  | secondTag
  | tagOfFlatten
deriving DecidableEq, Repr

def Cause.message : Cause → String
  | .lifetimeParam => "Shape types must be 'static, lifetime parameters are not supported"
  | .notStructure => "Only structs are supported"
  | .unnamedMembers => "Only structs with named fields are supported"
  | .secondAttribute => "only one #[db(...)] attribute per field"
  | .missingArguments => "expected attribute arguments in parentheses: #[db(...)]"
  | .missingDelimiters => "expected parentheses: #[db(...)]"
  | .unknownArgument => "expected a tag string or `flatten`"
  | .keyword spelling => "expected identifier, found keyword `" ++ spelling ++ "`"
  | .notIdentifier => "expected identifier"
  | .missingComma => "expected `,`"
  | .secondTag => "duplicate tag string"
  | .tagOfFlatten => "flatten fields take no column name or options (only \"-\")"

inductive Place
  | item
  | param (index : Nat)
  | member (index : Nat)
  | attr (member index : Nat)
  | arg (member attr index : Nat)
deriving DecidableEq, Repr

structure Violation where
  cause : Cause
  place : Place
deriving DecidableEq, Repr

end SelectList
