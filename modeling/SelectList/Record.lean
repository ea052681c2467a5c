import SelectList.Number
import SelectList.Text

/-!
Record descriptions: which fields a record declares, and which record each field leads to. Records
are known by number, and a catalog describes finitely many of them.
-/

namespace SelectList

abbrev Slot := Nat

def Slot.name (k : Slot) : String :=
  String.ofList ('R' :: Decimal.digits k)

def Slot.shown (k : Slot) : String :=
  "RecordType \x7b name: " ++ Text.shown k.name ++ ", .. \x7d"

structure Field where
  ident : String
  exported : Bool := true
  tag : Option String := none
  embedded : Bool := false
  nested : Option Slot := none
deriving DecidableEq, Repr

namespace Field

def ofIdent (ident : String) : Field := { ident }

def hide (f : Field) : Field := { f with exported := false }

def withTag (f : Field) (tag : String) : Field := { f with tag := some tag }

def leadingTo (f : Field) (record : Option Slot) : Field := { f with nested := record }

def embedding (f : Field) (record : Option Slot) : Field :=
  { f with embedded := true, nested := record }

end Field

/-- What a record tells of itself. The `id` is what a resolution that starts here calls open. -/
structure Descriptor where
  id : Slot
  typeName : String
  fields : List Field
deriving DecidableEq, Repr

def Descriptor.blank (k : Slot) : Descriptor := ⟨k, k.name, []⟩

/-- The described records; a later description of a number stands before the earlier ones. -/
abbrev Catalog := List (Slot × Descriptor)

namespace Catalog

def ofList (ds : List Descriptor) : Catalog :=
  ds.zipIdx.map fun (d, k) => (k, d)

def describe (t : Catalog) (k : Slot) : Descriptor :=
  (t.lookup k).getD (.blank k)

def define (t : Catalog) (k : Slot) (d : Descriptor) : Catalog :=
  (k, d) :: t

end Catalog

end SelectList
