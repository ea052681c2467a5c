import SelectList.Proofs.Walk

namespace SelectList

namespace Field

instance (f : Field) : Decidable f.Live := inferInstanceAs (Decidable (_ ≠ _))

instance (f : Field) (k : Slot) : Decidable (f.Expands k) := inferInstanceAs (Decidable (_ ∧ _))

/-- The columns of the record that the field expands, under the name of the field unless it is
embedded, and then the column of the field itself, if it has one. -/
def spread (f : Field) (inner : Slot → List RawColumn) : List RawColumn :=
  ((f.nested.filter fun k => f.Expands k).elim [] fun k => (inner k).map f.within) ++
    if f.Shows then [f.column] else []

variable {f : Field} {k : Slot} {inner inner' : Slot → List RawColumn}

theorem spread_of_expands (h : f.Expands k) : f.spread inner =
    (inner k).map f.within ++ if f.Shows then [f.column] else [] := by
  have hf : (f.nested.filter fun k => f.Expands k) = some k := by
    simp [h.2.1, h]
  rw [spread, hf, Option.elim_some]

theorem spread_of_not_expands (h : ∀ k, ¬f.Expands k) :
    f.spread inner = if f.Shows then [f.column] else [] := by
  have hf : (f.nested.filter fun k => f.Expands k) = none := by
    simp [h]
  rw [spread, hf, Option.elim_none, List.nil_append]

theorem spread_congr (h : ∀ k, f.Expands k → inner k = inner' k) :
    f.spread inner = f.spread inner' := by
  by_cases he : ∃ k, f.Expands k
  · obtain ⟨k, he⟩ := he
    rw [spread_of_expands he, spread_of_expands he, h k he]
  · have hn := not_exists.mp he
    rw [spread_of_not_expands hn, spread_of_not_expands hn]

theorem spread_sublist (h : ∀ k, f.Expands k → (inner k).Sublist (inner' k)) :
    (f.spread inner).Sublist (f.spread inner') := by
  by_cases he : ∃ k, f.Expands k
  · obtain ⟨k, he⟩ := he
    rw [spread_of_expands he, spread_of_expands he]
    exact ((h k he).map f.within).append_right _
  · have heq : f.spread inner = f.spread inner' := spread_congr fun k hk => absurd ⟨k, hk⟩ he
    exact heq ▸ .refl _

theorem within_of_embedded (h : f.embedded = true) : f.within = id := by
  funext c
  simp [within, h]

theorem within_of_not_embedded (h : f.embedded = false) :
    f.within = RawColumn.under f.columnName := by
  funext c
  simp [within, h]

end Field

namespace Catalog

def gained (t : Catalog) (trail : List Slot) (k : Slot) : List RawColumn :=
  if k ∈ trail then []
  else (t.walk (k :: trail) (t.describe k).typeName (t.describe k).fields).columns

theorem entered_columns_eq (t : Catalog) (trail : List Slot) (owner : String) (f : Field) :
    (t.entered trail owner f).columns ++ (if f.Shows then [f.column] else []) =
      f.spread (t.gained trail) := by
  by_cases he : ∃ k, f.Expands k
  · obtain ⟨k, he⟩ := he
    rw [Field.spread_of_expands he]
    by_cases hk : k ∈ trail
    · rw [entered_of_mem t owner he hk, gained, if_pos hk]
      rfl
    · rw [entered_of_not_mem t owner he hk, gained, if_neg hk]
  · have hn := not_exists.mp he
    rw [Field.spread_of_not_expands hn, entered_of_not_expands t trail owner hn]
    rfl

theorem walk_columns_eq (t : Catalog) (trail : List Slot) (owner : String) (fs : List Field) :
    (t.walk trail owner fs).columns = fs.flatMap (·.spread (t.gained trail)) := by
  induction fs with
  | nil => rw [walk_nil, List.flatMap_nil]
  | cons f fs ih => rw [columns_cons, entered_columns_eq, ih, List.flatMap_cons]

theorem collect_columns_eq (t : Catalog) (d : Descriptor) :
    (t.collect d).columns = d.fields.flatMap (·.spread (t.gained [d.id])) :=
  walk_columns_eq t [d.id] d.typeName d.fields

end Catalog

end SelectList
