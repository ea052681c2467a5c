import SelectList.Definition.Attribute

namespace SelectList

/-- How the record behind a member is found: a flattened member must lead to one, and every other
member is asked whether it does. -/
inductive Lookup
  | direct
  | probe
deriving DecidableEq, Repr

structure DerivedField where
  ident : String
  exported : Bool
  tag : Option String
  embedded : Bool
  lookup : Lookup
  type : Source
deriving DecidableEq, Repr

structure Implementation where
  trait : String
  self : String
  params : List String
  predicates : List String
deriving DecidableEq, Repr

structure Derived where
  typeName : String
  fields : List DerivedField
  implementations : List Implementation
deriving DecidableEq, Repr

def DerivedField.typeText (f : DerivedField) : String := f.type.text

def plainIdent (ident : String) : String :=
  match ident.toList with
  | 'r' :: '#' :: rest => String.ofList rest
  | _ => ident

def Source.sum (bounds : List Source) : Source := [Token.mark '+'].intercalate bounds

def Source.withBound (bounds bound : Source) : Source :=
  -- a mark after the last bound is not written again
  if bounds.isEmpty || bounds.getLast? == some (.mark '+') then bounds ++ bound
  else bounds ++ .mark '+' :: bound

namespace Param

def name : Param → String
  | .lifetime name => name
  | .type _ name _ _ => name
  | .const name _ _ => name

def isLifetime : Param → Bool
  | .lifetime _ => true
  | _ => false

def text : Param → String
  | .lifetime name => "'" ++ name
  -- a type has to outlive everything, whatever else it has to do
  | .type attributes name bounds _ =>
    let bound := (Source.sum bounds).withBound [.lifetime "static".toList]
    attributes.text ++ name ++ ":" ++ bound.text
  | .const name ty _ => "const" ++ name ++ ":" ++ ty.text

end Param

def Predicate.text (p : Predicate) : String :=
  p.type.text ++ ":" ++ (Source.sum p.bounds).text

namespace Member

def isPublic (m : Member) : Bool := m.visibility == Source.ofWord "pub"

def derive (index : Nat) (m : Member) : Except Violation DerivedField := do
  let s ← Settings.ofAttrs index m.attrs
  return {
    ident := plainIdent m.ident
    exported := m.isPublic
    tag := s.tag.map (·.1)
    embedded := s.flatten
    lookup := if s.flatten then .direct else .probe
    type := m.type }

def deriveAll (index : Nat) : List Member → Except Violation (List DerivedField)
  | [] => .ok []
  | m :: ms => do
    let f ← m.derive index
    let fs ← deriveAll (index + 1) ms
    return f :: fs

end Member

namespace Item

def self (i : Item) : String :=
  if i.params.isEmpty then i.name
  else i.name ++ "<" ++ ",".intercalate (i.params.map Param.name) ++ ">"

def implementation (i : Item) (trait : String) : Implementation :=
  ⟨trait, i.self, i.params.map Param.text, i.predicates.map Predicate.text⟩

def traits : List String := ["::sqlshape::Shape", "::sqlshape::Record"]

def checkParams (i : Item) : Except Violation Unit :=
  match i.params.findIdx? Param.isLifetime with
  | some k => .error ⟨.lifetimeParam, .param k⟩
  | none => .ok ()

def membersOfKind (i : Item) : Except Violation (List Member) :=
  match i.kind with
  | .named => .ok i.members
  | .unit => .ok []
  | .tuple => .error ⟨.unnamedMembers, .item⟩
  | .enumeration | .union => .error ⟨.notStructure, .item⟩

def derive (i : Item) : Except Violation Derived := do
  i.checkParams
  let members ← i.membersOfKind
  let fields ← Member.deriveAll 0 members
  return ⟨i.name, fields, traits.map i.implementation⟩

end Item

end SelectList
