import SelectList.Column
import SelectList.Role

/-!
Resolution: from a description to its numbered columns. The walk starts with the description's own
identity open.
-/

namespace SelectList

/-- What the walk does to a record: it asks for its description, or cuts it because it is open. -/
inductive Visit
  | opened (record : Slot)
  | cut (owner : String) (record : Slot)
deriving DecidableEq, Repr

@[ext] structure Walked where
  columns : List RawColumn := []
  visits : List Visit := []
deriving DecidableEq, Repr

namespace Walked

def append (a b : Walked) : Walked :=
  ⟨a.columns ++ b.columns, a.visits ++ b.visits⟩

instance : Append Walked := ⟨append⟩

@[simp] theorem columns_append (a b : Walked) : (a ++ b).columns = a.columns ++ b.columns := rfl

@[simp] theorem visits_append (a b : Walked) : (a ++ b).visits = a.visits ++ b.visits := rfl

theorem append_assoc (a b c : Walked) : a ++ b ++ c = a ++ (b ++ c) := by
  ext1 <;> simp

theorem nil_append (a : Walked) : {} ++ a = a := by
  ext1 <;> simp

theorem append_nil (a : Walked) : a ++ {} = a := by
  ext1 <;> simp

def column (c : RawColumn) : Walked := ⟨[c], []⟩

def visit (v : Visit) : Walked := ⟨[], [v]⟩

def under (outer : String) (w : Walked) : Walked :=
  { w with columns := w.columns.map (RawColumn.under outer) }

end Walked

namespace Catalog

def unwalked (t : Catalog) (trail : List Slot) : Nat :=
  match t with
  | [] => 0
  | (k, d) :: t => (if k ∈ trail then 0 else d.fields.length) + unwalked t trail

theorem unwalked_cons_le (t : Catalog) (k : Slot) (trail : List Slot) :
    t.unwalked (k :: trail) ≤ t.unwalked trail := by
  induction t with
  | nil => exact Nat.le_refl _
  | cons e t ih =>
    obtain ⟨j, d⟩ := e
    rw [unwalked, unwalked]
    by_cases hj : j ∈ trail
    · rw [if_pos hj, if_pos (List.mem_cons_of_mem k hj)]
      omega
    · rw [if_neg hj]
      split <;> omega

theorem unwalked_add_le {t : Catalog} {k : Slot} {trail : List Slot} (hk : k ∉ trail) :
    t.unwalked (k :: trail) + (t.describe k).fields.length ≤ t.unwalked trail := by
  induction t with
  | nil => exact Nat.le_refl _
  | cons e t ih =>
    obtain ⟨j, d⟩ := e
    rw [unwalked, unwalked, describe]
    by_cases hj : k = j
    · subst hj
      have hle := unwalked_cons_le t k trail
      rw [List.lookup_cons_self, if_pos List.mem_cons_self, if_neg hk, Option.getD_some]
      omega
    · have hm : j ∈ k :: trail ↔ j ∈ trail := by simp [Ne.symm hj]
      rw [List.lookup_cons, beq_eq_false_iff_ne.mpr hj]
      simp only [hm]
      rw [describe] at ih
      omega

theorem enter_decreases {t : Catalog} {k : Slot} {trail : List Slot} (hk : k ∉ trail) (f : Field)
    (fs : List Field) :
    t.unwalked (k :: trail) + (t.describe k).fields.length
      < t.unwalked trail + (f :: fs).length := by
  have hle := unwalked_add_le hk (t := t)
  rw [List.length_cons]
  omega

/-- Walks the fields of a record called `owner`; `trail` holds the open records. -/
def walk (t : Catalog) (trail : List Slot) (owner : String) : List Field → Walked
  | [] => {}
  | f :: fs =>
    match f.role with
    | .hidden => walk t trail owner fs
    | .json name => .column (.json name) ++ walk t trail owner fs
    | .plain name => .column (.plain name) ++ walk t trail owner fs
    | .promoted k =>
      (if k ∈ trail then .visit (.cut owner k)
       else .visit (.opened k) ++ walk t (k :: trail) (t.describe k).typeName (t.describe k).fields)
        ++ walk t trail owner fs
    | .expanded name k =>
      (if k ∈ trail then .visit (.cut owner k)
       else .visit (.opened k) ++
        (walk t (k :: trail) (t.describe k).typeName (t.describe k).fields).under name)
        ++ .column (.plain name) ++ walk t trail owner fs
termination_by fs => t.unwalked trail + fs.length
decreasing_by
  · simp
  · simp
  · simp
  · exact enter_decreases (by assumption) f fs
  · simp
  · exact enter_decreases (by assumption) f fs
  · simp

theorem walk_append (t : Catalog) (trail : List Slot) (owner : String) (xs ys : List Field) :
    t.walk trail owner (xs ++ ys) = t.walk trail owner xs ++ t.walk trail owner ys := by
  induction xs with
  | nil => rw [List.nil_append, walk, Walked.nil_append]
  | cons f fs ih =>
    rw [List.cons_append, walk, walk]
    cases f.role <;> simp only [ih, Walked.append_assoc]

end Catalog

structure Resolved where
  columns : List Column := []
  visits : List Visit := []
deriving DecidableEq, Repr

namespace Catalog

def collect (t : Catalog) (d : Descriptor) : Walked :=
  t.walk [d.id] d.typeName d.fields

def resolve (t : Catalog) (d : Descriptor) : Resolved :=
  let w := t.collect d
  ⟨Column.ofRaw w.columns, w.visits⟩

def resolveRecord (t : Catalog) : Option Slot → Resolved
  | none => {}
  | some k =>
    let r := t.resolve (t.describe k)
    { r with visits := .opened k :: r.visits }

end Catalog

end SelectList
