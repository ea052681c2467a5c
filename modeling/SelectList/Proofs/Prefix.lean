import SelectList.Proofs.KeepFirst
import SelectList.Proofs.Spread

namespace SelectList

theorem RawColumn.keepFirst_prefix {cs ds : List RawColumn} (h : cs <+: ds) :
    keepFirst [] cs <+: keepFirst [] ds := by
  obtain ⟨rest, rfl⟩ := h
  rw [keepFirst_append]
  apply List.prefix_append

theorem Rendering.items_prefix {ms ns : List (List Char)} (h : ms <+: ns) :
    items ms <+: items ns := by
  obtain ⟨rest, rfl⟩ := h
  induction ms with
  | nil => exact List.nil_prefix
  | cons m ms ih =>
    cases ms with
    | nil =>
      cases rest with
      | nil => exact List.prefix_rfl
      | cons n ns =>
        rw [List.singleton_append, items, items]
        apply List.prefix_append
    | cons m' ms =>
      rw [List.cons_append, List.cons_append, items, items]
      apply (List.prefix_append_right_inj _).mpr
      exact (List.prefix_cons_inj ',').mpr ih

namespace Column

theorem number_prefix {cs ds : List RawColumn} (h : cs <+: ds) : number cs <+: number ds := by
  obtain ⟨rest, rfl⟩ := h
  rw [number, number, List.zipIdx_append, List.map_append]
  apply List.prefix_append

theorem expression_prefix {cs ds : List Column} (h : cs <+: ds) :
    (expression cs).toList <+: (expression ds).toList := by
  rw [expression, expression, String.toList_ofList, String.toList_ofList]
  apply Rendering.items_prefix
  exact h.map _

end Column

namespace Catalog

theorem collect_columns_prefix (t : Catalog) (id : Slot) (name name' : String)
    (xs ys : List Field) :
    (t.collect ⟨id, name, xs⟩).columns <+: (t.collect ⟨id, name', xs ++ ys⟩).columns := by
  rw [collect_columns_eq, collect_columns_eq, List.flatMap_append]
  apply List.prefix_append

theorem resolve_append (t : Catalog) (id : Slot) (name name' : String) (xs ys : List Field) :
    let shorter := (t.resolve ⟨id, name, xs⟩).columns
    let longer := (t.resolve ⟨id, name', xs ++ ys⟩).columns
    shorter <+: longer ∧ Column.names shorter <+: Column.names longer ∧
      (Column.expression shorter).toList <+: (Column.expression longer).toList := by
  intro shorter longer
  have h : shorter <+: longer := by
    apply Column.number_prefix
    apply RawColumn.keepFirst_prefix
    exact t.collect_columns_prefix id name name' xs ys
  exact ⟨h, h.map _, Column.expression_prefix h⟩

-- the expanded column is the one left out: its name was there before
example :
    let named (n : String) : Field := (Field.ofIdent "").withTag n
    let t : Catalog := .ofList [⟨0, "R0", [named "b"]⟩]
    let xs := [named "a.b"]
    (t.resolve ⟨1, "R1", xs ++ [(named "a").leadingTo (some 0)]⟩).columns =
      [⟨.plain "a.b", 0⟩, ⟨.plain "a", 1⟩] := by
  decide +kernel

end Catalog

end SelectList
