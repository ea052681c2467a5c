import Mathlib.Data.List.Basic
import SelectList.Column

/-!
Reading a select list. The reader knows quoted names, `as` and commas, and nothing of columns; it
accepts a text exactly if the text is written from what it reads.
-/

namespace SelectList.Rendering

structure Selection where
  column : String
  rename : Option String
deriving DecidableEq, Repr

def inQuotes : List Char → Option (List Char × List Char)
  | [] => none
  | '"' :: '"' :: cs => (inQuotes cs).map fun (name, rest) => ('"' :: name, rest)
  | '"' :: cs => some ([], cs)
  | c :: cs => (inQuotes cs).map fun (name, rest) => (c :: name, rest)

def name? : List Char → Option (String × List Char)
  | '"' :: cs => (inQuotes cs).map fun (name, rest) => (String.ofList name, rest)
  | _ => none

def rename? : List Char → Option (Option String × List Char)
  | ' ' :: 'a' :: 's' :: ' ' :: cs => (name? cs).map fun (name, rest) => (some name, rest)
  | cs => some (none, cs)

def selection? (cs : List Char) : Option (Selection × List Char) := do
  let (column, cs) ← name? cs
  let (rename, cs) ← rename? cs
  return (⟨column, rename⟩, cs)

def Selection.text (s : Selection) : List Char :=
  quoted s.column.toList ++ (s.rename.map fun n => " as ".toList ++ quoted n.toList).getD []

theorem quoted_append (name rest : List Char) :
    quoted name ++ rest = '"' :: (escaped name ++ '"' :: rest) := by
  simp [quoted]

theorem inQuotes_escaped (name : List Char) {rest : List Char} (h : rest.head? ≠ some '"') :
    inQuotes (escaped name ++ '"' :: rest) = some (name, rest) := by
  induction name with
  | nil =>
    cases rest with
    | nil => rfl
    | cons c cs =>
      have hc : c ≠ '"' := by simpa using h
      simp [escaped, inQuotes, hc]
  | cons c cs ih =>
    simp only [escaped, List.flatMap_cons, List.append_assoc] at ih ⊢
    by_cases hc : c = '"'
    · simp [hc, inQuotes, ih]
    · simp [hc, inQuotes, ih]

theorem eq_of_inQuotes {cs name rest : List Char} (h : inQuotes cs = some (name, rest)) :
    cs = escaped name ++ '"' :: rest := by
  induction cs using inQuotes.induct generalizing name rest with
  | case1 => simp [inQuotes] at h
  | case2 cs ih =>
    simp only [inQuotes, Option.map_eq_some_iff, Prod.mk.injEq, Prod.exists] at h
    obtain ⟨name, rest, h, rfl, rfl⟩ := h
    simp [ih h, escaped]
  | case3 cs hcs =>
    simp only [inQuotes, Option.some.injEq, Prod.mk.injEq] at h
    obtain ⟨rfl, rfl⟩ := h
    rfl
  | case4 c cs hcs hc ih =>
    simp only [inQuotes, Option.map_eq_some_iff, Prod.mk.injEq, Prod.exists] at h
    obtain ⟨name, rest, h, rfl, rfl⟩ := h
    simp only [escaped, List.flatMap_cons, if_neg hc, List.append_assoc]
    simp [ih h, escaped]

theorem name?_quoted (name : String) {rest : List Char} (h : rest.head? ≠ some '"') :
    name? (quoted name.toList ++ rest) = some (name, rest) := by
  rw [quoted_append, name?, inQuotes_escaped _ h]
  simp

theorem eq_of_name? {cs rest : List Char} {name : String} (h : name? cs = some (name, rest)) :
    cs = quoted name.toList ++ rest := by
  unfold name? at h
  split at h
  · simp only [Option.map_eq_some_iff, Prod.mk.injEq, Prod.exists] at h
    obtain ⟨name, rest, h, rfl, rfl⟩ := h
    rw [quoted_append, String.toList_ofList, eq_of_inQuotes h]
  · simp at h

def AtEnd (rest : List Char) : Prop := ∀ c ∈ rest.head?, c = ','

theorem AtEnd.rename? {rest : List Char} (h : AtEnd rest) : rename? rest = some (none, rest) := by
  cases rest with
  | nil => rfl
  | cons c cs =>
    obtain rfl : c = ',' := h c rfl
    rfl

theorem selection?_text (s : Selection) {rest : List Char} (h : AtEnd rest) :
    selection? (s.text ++ rest) = some (s, rest) := by
  obtain ⟨column, rename⟩ := s
  have hq : rest.head? ≠ some '"' := fun he => absurd (h _ he) (by decide)
  cases rename with
  | none => simp [selection?, Selection.text, name?_quoted column hq, h.rename?]
  | some new =>
    have ht : (⟨column, some new⟩ : Selection).text ++ rest =
        quoted column.toList ++ (' ' :: 'a' :: 's' :: ' ' :: (quoted new.toList ++ rest)) := by
      simp [Selection.text]
    rw [ht, selection?, name?_quoted column (by simp)]
    simp [rename?, name?_quoted new hq]

theorem eq_of_rename? {cs rest : List Char} {rename : Option String}
    (h : rename? cs = some (rename, rest)) :
    cs = (rename.map fun n => " as ".toList ++ quoted n.toList).getD [] ++ rest := by
  unfold Rendering.rename? at h
  split at h
  · simp only [Option.map_eq_some_iff, Prod.mk.injEq, Prod.exists] at h
    obtain ⟨new, rest, h, rfl, rfl⟩ := h
    simp [eq_of_name? h]
  · simp only [Option.some.injEq, Prod.mk.injEq] at h
    obtain ⟨rfl, rfl⟩ := h
    rfl

theorem eq_of_selection? {cs rest : List Char} {s : Selection}
    (h : selection? cs = some (s, rest)) : cs = s.text ++ rest := by
  simp only [selection?, Option.bind_eq_bind, Option.pure_def, Option.bind_eq_some_iff,
    Option.some.injEq, Prod.mk.injEq, Prod.exists] at h
  obtain ⟨column, mid, hn, rename, rest, hr, rfl, rfl⟩ := h
  rw [eq_of_name? hn, eq_of_rename? hr, Selection.text, List.append_assoc]

theorem selection?_length {cs rest : List Char} {s : Selection}
    (h : selection? cs = some (s, rest)) : rest.length < cs.length := by
  rw [eq_of_selection? h, Selection.text, quoted]
  simp
  omega

def selections? (cs : List Char) : Option (List Selection) :=
  match _h : selection? cs with
  | some (s, ',' :: rest) => (selections? rest).map (s :: ·)
  | some (s, []) => some [s]
  | _ => none
termination_by cs.length
decreasing_by
  have hl := selection?_length (by assumption)
  simp only [List.length_cons] at hl
  omega

def read (text : String) : Option (List Selection) :=
  if text.toList = [] then some [] else selections? text.toList

def listText : List Selection → List Char
  | [] => []
  | [s] => s.text
  | s :: next :: rest => s.text ++ ',' :: listText (next :: rest)

theorem selections?_last {cs : List Char} {s : Selection} (h : selection? cs = some (s, [])) :
    selections? cs = some [s] := by
  rw [selections?]
  split <;> simp_all

theorem selections?_next {cs rest : List Char} {s : Selection}
    (h : selection? cs = some (s, ',' :: rest)) :
    selections? cs = (selections? rest).map (s :: ·) := by
  rw [selections?]
  split <;> simp_all

theorem selections?_listText (s : Selection) (ss : List Selection) :
    selections? (listText (s :: ss)) = some (s :: ss) := by
  induction ss generalizing s with
  | nil =>
    have h : selection? (s.text ++ []) = some (s, []) := selection?_text s (by simp [AtEnd])
    rw [List.append_nil] at h
    exact selections?_last h
  | cons next rest ih =>
    have h : AtEnd (',' :: listText (next :: rest)) := by simp [AtEnd]
    rw [listText, selections?_next (selection?_text s h), ih, Option.map_some]

theorem eq_of_selections? {cs : List Char} {ss : List Selection} (h : selections? cs = some ss) :
    ss ≠ [] ∧ cs = listText ss := by
  induction cs using selections?.induct generalizing ss with
  | case1 cs s rest hs ih =>
    rw [selections?_next hs, Option.map_eq_some_iff] at h
    obtain ⟨ss, h, rfl⟩ := h
    obtain ⟨hne, rfl⟩ := ih h
    obtain ⟨next, rest, rfl⟩ := List.exists_cons_of_ne_nil hne
    exact ⟨by simp, eq_of_selection? hs⟩
  | case2 cs s hs =>
    rw [selections?_last hs, Option.some.injEq] at h
    subst h
    exact ⟨by simp, by simpa [listText] using eq_of_selection? hs⟩
  | case3 cs hnext hlast =>
    rw [selections?] at h
    split at h <;> simp_all

theorem read_eq_some_iff {text : String} {ss : List Selection} :
    read text = some ss ↔ text.toList = listText ss := by
  unfold read
  constructor
  · intro h
    split at h
    · next ht =>
      obtain rfl : [] = ss := by simpa using h
      exact ht
    · exact (eq_of_selections? h).2
  · intro h
    cases ss with
    | nil => simp [h, listText]
    | cons s ss =>
      have hne : listText (s :: ss) ≠ [] := by
        cases ss <;> simp [listText, Selection.text, quoted]
      rw [h, if_neg hne, selections?_listText]

end SelectList.Rendering
