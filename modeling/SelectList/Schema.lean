import SelectList.Derivation
import SelectList.Record
import SelectList.Source

namespace SelectList

namespace Source

def transparent : List (List Char) :=
  ["Option".toList, "Box".toList, "Rc".toList, "Arc".toList]

def referent : Source → Source
  | .lifetime _ :: .word w :: ts => if w = "mut".toList then ts else .word w :: ts
  | .lifetime _ :: ts => ts
  | .word w :: ts => if w = "mut".toList then ts else .word w :: ts
  | ts => ts

theorem referent_length (ts : Source) : (referent ts).length ≤ ts.length := by
  unfold referent
  split
  · split
    · simp only [List.length_cons]
      omega
    · simp only [List.length_cons]
      omega
  · simp only [List.length_cons]
    omega
  · split
    · simp only [List.length_cons]
      omega
    · exact Nat.le_refl _
  · exact Nat.le_refl _

def held? : Source → Option Source
  | .word w :: .mark '<' :: ts =>
    if w ∈ transparent && ts.getLast? == some (.mark '>') then some ts.dropLast else none
  | _ => none

theorem held_length {ts inner : Source} (h : held? ts = some inner) :
    inner.length < ts.length := by
  unfold held? at h
  split at h
  · split at h
    · obtain rfl := Option.some.inj h
      simp only [List.length_dropLast, List.length_cons]
      omega
    · simp at h
  · simp at h

def target (named : List Char → Option Slot) (ts : Source) : Option (Option Slot) :=
  match _h : ts with
  -- the type without values
  | [.mark '(', .mark ')'] => some none
  | [.word w] => (named w).map some
  | .mark '&' :: rest => target named (referent rest)
  | other =>
    match _hp : held? other with
    | some inner => target named inner
    | none => none
termination_by ts.length
decreasing_by
  · have := referent_length rest
    simp only [List.length_cons]
    omega
  · exact held_length _hp

end Source

namespace Schema

inductive Problem
  | violation (v : Violation)
  | notARecord (type : String)
deriving DecidableEq, Repr

def Problem.message : Problem → String
  | .violation v => v.cause.message
  | .notARecord type => "flatten of " ++ type

def numbered? (count : Nat) (w : List Char) : Option Slot :=
  match w with
  | 'R' :: ds =>
    let k := Decimal.value ds
    if k < count && Decimal.digits k = ds then some k else none
  | _ => none

def visible (named : List Char → Option Slot) (params : List Param) (w : List Char) :
    Option Slot :=
  -- a parameter hides the record of its name
  if params.any fun p => p.name.toList == w then none else named w

/-- The field that a record declares. A type that is only asked leads to no record if it is not one;
a type that has to be one is refused. -/
def field (named : List Char → Option Slot) (f : DerivedField) : Except Problem Field :=
  let declared (nested : Option Slot) : Field := ⟨f.ident, f.exported, f.tag, f.embedded, nested⟩
  match f.lookup, f.type.target named with
  | _, some nested => .ok (declared nested)
  | .probe, none => .ok (declared none)
  | .direct, none => .error (.notARecord f.typeText)

def fields (named : List Char → Option Slot) : List DerivedField → Except Problem (List Field)
  | [] => .ok []
  | f :: fs => do
    let g ← field named f
    let gs ← fields named fs
    return g :: gs

def descriptor (named : List Char → Option Slot) (k : Slot) (i : Item) :
    Except Problem Descriptor := do
  let d ← i.derive.mapError .violation
  let fs ← fields (visible named i.params) d.fields
  return ⟨k, d.typeName, fs⟩

def descriptors (named : List Char → Option Slot) (k : Slot) :
    List Item → Except (Problem × Slot) (List Descriptor)
  | [] => .ok []
  | i :: is => do
    let d ← (descriptor named k i).mapError fun p => (p, k)
    let ds ← descriptors named (k + 1) is
    return d :: ds

def catalog (named : List Char → Option Slot) (items : List Item) :
    Except (Problem × Slot) Catalog :=
  (descriptors named 0 items).map .ofList

end Schema

end SelectList
