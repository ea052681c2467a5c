import SelectList.Resolve

/-!
What one field adds to a walk, whatever its role: the columns of the record that it leads to, then a
column of its own. Walks are reasoned about field by field, and into the records that are entered.
-/

namespace SelectList

namespace Field

def Live (f : Field) : Prop := f.tag ≠ some "-"

def isJson (f : Field) : Bool := (Tag.parse f.tag).json

def Expands (f : Field) (record : Slot) : Prop :=
  f.Live ∧ f.nested = some record ∧
    (f.embedded = true ∨ f.exported = true ∧ f.columnName ≠ "" ∧ f.isJson = false)

def Shows (f : Field) : Prop :=
  f.Live ∧ f.embedded = false ∧ f.exported = true ∧ f.columnName ≠ ""

instance (f : Field) : Decidable f.Shows := inferInstanceAs (Decidable (_ ≠ _ ∧ _))

def column (f : Field) : RawColumn :=
  if f.isJson then .json f.columnName else .plain f.columnName

def within (f : Field) (c : RawColumn) : RawColumn :=
  if f.embedded then c else c.under f.columnName

theorem Expands.unique {f : Field} {j k : Slot} (hj : f.Expands j) (hk : f.Expands k) : j = k :=
  Option.some.inj (hj.2.1.symm.trans hk.2.1)

theorem Expands.exists_iff {f : Field} {k : Slot} {P : Slot → Prop} (h : f.Expands k) :
    (∃ j, f.Expands j ∧ P j) ↔ P k := by
  constructor
  · rintro ⟨j, hj, hp⟩
    rwa [← hj.unique h]
  · exact fun hp => ⟨k, h, hp⟩

theorem live_iff {f : Field} : f.Live ↔ (Tag.parse f.tag).ignored = false := by
  unfold Live Tag.parse
  cases f.tag with
  | none => simp [Tag.untagged]
  | some raw =>
    have hraw : raw.toList = ['-'] ↔ raw = "-" := by
      rw [← String.toList_inj]
      rfl
    by_cases h : raw = "-" <;> simp [Tag.ofChars, hraw, h]

end Field

namespace Role

def target? : Role → Option Slot
  | .promoted k | .expanded _ k => some k
  | .hidden | .json _ | .plain _ => none

def column? : Role → Option RawColumn
  | .json name => some (.json name)
  | .plain name | .expanded name _ => some (.plain name)
  | .hidden | .promoted _ => none

def within : Role → RawColumn → RawColumn
  | .expanded name _, c => c.under name
  | _, c => c

@[simp] theorem within_promoted (k : Slot) : (promoted k).within = id := rfl

end Role

namespace Field

theorem role_of_embedded {f : Field} (hl : f.Live) (he : f.embedded = true) :
    f.role = (f.nested.map .promoted).getD .hidden := by
  simp [role, live_iff.mp hl, he]

theorem role_of_shows {f : Field} (h : f.Shows) :
    f.role = if f.isJson then .json f.columnName
      else (f.nested.map (.expanded f.columnName)).getD (.plain f.columnName) := by
  obtain ⟨hl, he, hx, hn⟩ := h
  have hj : (Tag.parse f.tag).json = f.isJson := rfl
  simp [role, live_iff.mp hl, he, hx, hn, hj]

theorem role_of_hidden {f : Field} (h : ¬(f.Live ∧ f.embedded = true)) (hs : ¬f.Shows) :
    f.role = .hidden := by
  unfold role
  by_cases hl : f.Live
  · have he : f.embedded = false := by simpa [hl] using h
    have hx : f.exported = true → f.columnName = "" := by simpa [Shows, hl, he] using hs
    simp only [he, Bool.false_eq_true, ↓reduceIte]
    by_cases hf : f.exported = true <;> simp [hf, hx]
  · have hi : (Tag.parse f.tag).ignored = true := by simpa [live_iff] using hl
    simp [hi]

theorem expands_iff {f : Field} {k : Slot} :
    f.Expands k ↔ f.nested = some k ∧
      (f.Live ∧ f.embedded = true ∨ f.Shows ∧ f.isJson = false) := by
  unfold Expands Shows
  cases f.embedded <;> grind

theorem target?_eq_some_iff {f : Field} {k : Slot} : f.role.target? = some k ↔ f.Expands k := by
  rw [expands_iff]
  by_cases hp : f.Live ∧ f.embedded = true
  · rw [role_of_embedded hp.1 hp.2]
    cases f.nested <;> simp [hp, Role.target?]
  by_cases hs : f.Shows
  · rw [role_of_shows hs]
    by_cases hj : f.isJson <;> cases f.nested <;> simp [hp, hs, hj, Role.target?]
  · simp [role_of_hidden hp hs, hp, hs, Role.target?]

theorem column?_eq (f : Field) : f.role.column? = if f.Shows then some f.column else none := by
  by_cases hp : f.Live ∧ f.embedded = true
  · have hs : ¬f.Shows := fun h => absurd hp.2 (by simp [h.2.1])
    rw [role_of_embedded hp.1 hp.2, if_neg hs]
    cases f.nested <;> rfl
  by_cases hs : f.Shows
  · rw [role_of_shows hs, if_pos hs, column]
    by_cases hj : f.isJson <;> cases f.nested <;> simp [hj, Role.column?]
  · rw [role_of_hidden hp hs, if_neg hs, Role.column?]

theorem role_within {f : Field} {k : Slot} (h : f.Expands k) : f.role.within = f.within := by
  funext c
  obtain ⟨hn, ⟨hl, he⟩ | ⟨hs, hj⟩⟩ := expands_iff.mp h
  · simp [role_of_embedded hl he, hn, within, he, Role.within]
  · simp [role_of_shows hs, hn, hj, within, hs.2.1, Role.within]

end Field

namespace Catalog

def entered (t : Catalog) (trail : List Slot) (owner : String) (f : Field) : Walked :=
  match f.role.target? with
  | none => {}
  | some k =>
    if k ∈ trail then .visit (.cut owner k)
    else
      let w := t.walk (k :: trail) (t.describe k).typeName (t.describe k).fields
      ⟨w.columns.map f.role.within, .opened k :: w.visits⟩

theorem walk_nil (t : Catalog) (trail : List Slot) (owner : String) :
    t.walk trail owner [] = {} := by
  rw [walk]

theorem walk_cons (t : Catalog) (trail : List Slot) (owner : String) (f : Field) (fs : List Field) :
    t.walk trail owner (f :: fs) =
      t.entered trail owner f ++ ⟨f.role.column?.toList, []⟩ ++ t.walk trail owner fs := by
  rw [walk, entered]
  cases f.role with
  | hidden => ext1 <;> simp [Role.target?, Role.column?]
  | promoted k =>
    by_cases hk : k ∈ trail <;> ext1 <;>
      simp [hk, Role.target?, Role.column?, Walked.visit]
  | json name => ext1 <;> simp [Role.target?, Role.column?, Walked.column]
  | plain name => ext1 <;> simp [Role.target?, Role.column?, Walked.column]
  | expanded name k =>
    by_cases hk : k ∈ trail <;> ext1 <;>
      simp [hk, Role.target?, Role.column?, Role.within, Walked.visit, Walked.column, Walked.under]

theorem columns_cons (t : Catalog) (trail : List Slot) (owner : String) (f : Field)
    (fs : List Field) :
    (t.walk trail owner (f :: fs)).columns = (t.entered trail owner f).columns ++
      (if f.Shows then [f.column] else []) ++ (t.walk trail owner fs).columns := by
  rw [walk_cons, Field.column?_eq]
  by_cases h : f.Shows <;> simp [h]

theorem entered_of_not_expands (t : Catalog) (trail : List Slot) (owner : String) {f : Field}
    (h : ∀ k, ¬f.Expands k) : t.entered trail owner f = {} := by
  rw [entered]
  split
  · rfl
  · next k hk => exact absurd (Field.target?_eq_some_iff.mp hk) (h k)

theorem entered_of_mem (t : Catalog) {trail : List Slot} (owner : String) {f : Field} {k : Slot}
    (h : f.Expands k) (hk : k ∈ trail) : t.entered trail owner f = .visit (.cut owner k) := by
  simp only [entered, Field.target?_eq_some_iff.mpr h, if_pos hk]

theorem entered_of_not_mem (t : Catalog) {trail : List Slot} (owner : String) {f : Field} {k : Slot}
    (h : f.Expands k) (hk : k ∉ trail) :
    t.entered trail owner f =
      let w := t.walk (k :: trail) (t.describe k).typeName (t.describe k).fields
      ⟨w.columns.map f.within, .opened k :: w.visits⟩ := by
  simp only [entered, Field.target?_eq_some_iff.mpr h, if_neg hk, Field.role_within h]

/-- A property of all walks, if a field may rely on it for the record that it enters. -/
theorem walk_induction (t : Catalog) {motive : List Slot → List Field → Prop}
    (nil : ∀ trail, motive trail [])
    (cons : ∀ trail f fs,
      (∀ k, f.Expands k → k ∉ trail → motive (k :: trail) (t.describe k).fields) →
      motive trail fs → motive trail (f :: fs))
    (trail : List Slot) : (fs : List Field) → motive trail fs
  | [] => nil trail
  | f :: fs => cons trail f fs
      (fun k _ _ => walk_induction t nil cons (k :: trail) (t.describe k).fields)
      (walk_induction t nil cons trail fs)
termination_by fs => t.unwalked trail + fs.length
decreasing_by
  · exact enter_decreases (by assumption) f fs
  · simp

end Catalog

end SelectList
