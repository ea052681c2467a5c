import SelectList.Proofs.Selection

namespace SelectList

namespace Rendering

def outside (inside : Bool) : List Char → List Char
  | [] => []
  | c :: cs =>
    if c = '"' then outside (!inside) cs
    else if inside then outside inside cs else c :: outside inside cs

theorem outside_escaped (name rest : List Char) :
    outside true (escaped name ++ '"' :: rest) = outside false rest := by
  induction name with
  | nil => simp [escaped, outside]
  | cons c cs ih =>
    simp only [escaped, List.flatMap_cons, List.append_assoc] at ih ⊢
    -- A doubled quote leaves the quotes and enters them again.
    by_cases hc : c = '"'
    · simp [hc, outside, ih]
    · simp [hc, outside, ih]

theorem outside_quoted (name rest : List Char) :
    outside false (quoted name ++ rest) = outside false rest := by
  rw [quoted_append, outside, if_pos rfl, Bool.not_false, outside_escaped]

theorem outside_item (name rest : List Char) :
    outside false (item name ++ rest) =
      (if '.' ∈ name then " as ".toList else []) ++ outside false rest := by
  unfold item
  split
  · rw [List.append_assoc, List.append_assoc, outside_quoted]
    simp [outside, outside_quoted]
  · rw [outside_quoted, List.nil_append]

theorem outside_items (names : List (List Char)) :
    outside false (items names) =
      [','].intercalate (names.map fun n => if '.' ∈ n then " as ".toList else []) := by
  induction names with
  | nil => rfl
  | cons name rest ih =>
    cases rest with
    | nil =>
      have h := outside_item name []
      rw [List.append_nil] at h
      simp [items, h, outside]
    | cons next rest =>
      have hc : outside false (',' :: items (next :: rest)) =
          ',' :: outside false (items (next :: rest)) := by simp [outside]
      rw [items, outside_item, hc, ih]
      simp [List.intercalate_cons_cons]

end Rendering

namespace Column

open Rendering

def selection (c : Column) : Selection :=
  ⟨c.name, if '.' ∈ c.name.toList then some c.name else none⟩

theorem item_eq_text (c : Column) : item c.name.toList = c.selection.text := by
  unfold item selection Selection.text
  split <;> simp

theorem items_eq_listText (cs : List Column) :
    items (cs.map fun c => c.name.toList) = listText (cs.map selection) := by
  induction cs with
  | nil => rfl
  | cons c rest ih =>
    cases rest with
    | nil => exact item_eq_text c
    | cons next rest =>
      simp only [List.map_cons] at ih ⊢
      rw [items, listText, item_eq_text, ih]

theorem read_expression (cs : List Column) : read (expression cs) = some (cs.map selection) := by
  rw [read_eq_some_iff, expression, String.toList_ofList, items_eq_listText]

theorem names_eq_columns (cs : List Column) : (cs.map selection).map (·.column) = names cs := by
  simp [names, selection, Function.comp_def]

theorem expression_congr {a b : List Column} (h : names a = names b) :
    expression a = expression b := by
  have hn (cs : List Column) : cs.map (fun c => c.name.toList) = (names cs).map String.toList := by
    simp [names, Function.comp_def]
  rw [expression, expression, hn, hn, h]

theorem names_of_expression_eq {a b : List Column} (h : expression a = expression b) :
    names a = names b := by
  have hr := read_expression a
  rw [h, read_expression b, Option.some.injEq] at hr
  rw [← names_eq_columns a, ← names_eq_columns b, hr]

theorem expression_unambiguous :
    (∀ cs : List Column, ∃ ss, read (expression cs) = some ss ∧ ss.map (·.column) = names cs ∧
      ss.map (·.rename) = cs.map fun c => if '.' ∈ c.name.toList then some c.name else none) ∧
    (∀ text ss, read text = some ss ↔ text.toList = listText ss) ∧
    (∀ cs : List Column, outside false (expression cs).toList =
      [','].intercalate (cs.map fun c => if '.' ∈ c.name.toList then " as ".toList else [])) ∧
    ∀ a b : List Column, expression a = expression b ↔ names a = names b := by
  refine ⟨fun cs => ?_, fun _ _ => read_eq_some_iff, fun cs => ?_, fun a b => ?_⟩
  · exact ⟨cs.map selection, read_expression cs, names_eq_columns cs, by simp [selection]⟩
  · rw [expression, String.toList_ofList, outside_items, List.map_map]
    rfl
  · exact ⟨names_of_expression_eq, expression_congr⟩

end Column

end SelectList
