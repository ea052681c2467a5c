import Mathlib.Data.List.Nodup
import SelectList.Column

namespace SelectList

namespace RawColumn

theorem keepFirst_sublist (seen : List String) (cs : List RawColumn) :
    (keepFirst seen cs).Sublist cs := by
  induction cs generalizing seen with
  | nil => exact .slnil
  | cons c cs ih =>
    unfold keepFirst
    split
    · exact (ih seen).cons c
    · exact (ih _).cons_cons c

theorem mem_names_keepFirst (seen : List String) (cs : List RawColumn) (n : String) :
    n ∈ (keepFirst seen cs).map (·.name) ↔ n ∈ cs.map (·.name) ∧ n ∉ seen := by
  induction cs generalizing seen with
  | nil => simp [keepFirst]
  | cons c cs ih =>
    unfold keepFirst
    split
    · next hc =>
      rw [ih, List.map_cons, List.mem_cons]
      constructor
      · rintro ⟨hn, hs⟩
        exact ⟨.inr hn, hs⟩
      · rintro ⟨rfl | hn, hs⟩
        · exact absurd hc hs
        · exact ⟨hn, hs⟩
    · next hc =>
      rw [List.map_cons, List.map_cons, List.mem_cons, List.mem_cons, ih, List.mem_cons, not_or]
      by_cases hn : n = c.name
      · simp [hn, hc]
      · simp [hn]

theorem nodup_names_keepFirst (seen : List String) (cs : List RawColumn) :
    ((keepFirst seen cs).map (·.name)).Nodup := by
  induction cs generalizing seen with
  | nil => exact .nil
  | cons c cs ih =>
    unfold keepFirst
    split
    · exact ih seen
    · rw [List.map_cons, List.nodup_cons, mem_names_keepFirst]
      exact ⟨by simp, ih _⟩

theorem keepFirst_congr {seen seen' : List String} (h : ∀ n, n ∈ seen ↔ n ∈ seen')
    (cs : List RawColumn) : keepFirst seen cs = keepFirst seen' cs := by
  induction cs generalizing seen seen' with
  | nil => rfl
  | cons c cs ih =>
    have hc : ∀ n, n ∈ c.name :: seen ↔ n ∈ c.name :: seen' := by
      intro n
      rw [List.mem_cons, List.mem_cons, h]
    simp only [keepFirst, h, ih h, ih hc]

theorem keepFirst_append (seen : List String) (xs ys : List RawColumn) :
    keepFirst seen (xs ++ ys) =
      keepFirst seen xs ++ keepFirst (xs.map (·.name) ++ seen) ys := by
  induction xs generalizing seen with
  | nil => rfl
  | cons c cs ih =>
    rw [List.cons_append, keepFirst, keepFirst, ih, ih]
    by_cases hc : c.name ∈ seen
    · have hs : ∀ n, n ∈ cs.map (·.name) ++ seen ↔ n ∈ (c :: cs).map (·.name) ++ seen := by
        intro n
        rw [List.map_cons, List.cons_append, List.mem_cons]
        refine ⟨.inr, ?_⟩
        rintro (rfl | hn)
        · exact List.mem_append_right _ hc
        · exact hn
      rw [if_pos hc, if_pos hc, keepFirst_congr hs]
    · have hs : ∀ n, n ∈ cs.map (·.name) ++ c.name :: seen ↔
          n ∈ (c :: cs).map (·.name) ++ seen := by
        intro n
        simp only [List.map_cons, List.cons_append, List.mem_append, List.mem_cons]
        exact or_left_comm
      rw [if_neg hc, if_neg hc, keepFirst_congr hs, List.cons_append]

theorem keepFirst_keepFirst {seen seen' : List String} (h : seen ⊆ seen')
    (cs : List RawColumn) : keepFirst seen' (keepFirst seen cs) = keepFirst seen' cs := by
  induction cs generalizing seen seen' with
  | nil => rfl
  | cons c cs ih =>
    by_cases hc : c.name ∈ seen
    · have hc' : c.name ∈ seen' := h hc
      rw [keepFirst, keepFirst, if_pos hc, if_pos hc', ih h]
    · rw [keepFirst, if_neg hc, keepFirst, keepFirst]
      by_cases hc' : c.name ∈ seen'
      · rw [if_pos hc', if_pos hc']
        apply ih
        exact List.cons_subset.mpr ⟨hc', h⟩
      · rw [if_neg hc', if_neg hc']
        congr 1
        exact ih (List.cons_subset_cons c.name h)

theorem keepFirst_append_congr {xs xs' ys ys' : List RawColumn}
    (hx : keepFirst [] xs = keepFirst [] xs') (hy : keepFirst [] ys = keepFirst [] ys') :
    keepFirst [] (xs ++ ys) = keepFirst [] (xs' ++ ys') := by
  have hn : ∀ n, n ∈ xs.map (·.name) ++ [] ↔ n ∈ xs'.map (·.name) ++ [] := by
    intro n
    have h := mem_names_keepFirst [] xs n
    rw [hx, mem_names_keepFirst] at h
    simpa using h.symm
  have hk (seen : List String) : keepFirst seen ys = keepFirst seen ys' := by
    rw [← keepFirst_keepFirst (List.nil_subset seen) ys, hy,
      keepFirst_keepFirst (List.nil_subset seen)]
  rw [keepFirst_append, keepFirst_append, hx, hk, keepFirst_congr hn]

theorem keepFirst_flatMap_congr {α : Type} {g g' : α → List RawColumn} (xs : List α)
    (h : ∀ x ∈ xs, keepFirst [] (g x) = keepFirst [] (g' x)) :
    keepFirst [] (xs.flatMap g) = keepFirst [] (xs.flatMap g') := by
  induction xs with
  | nil => rfl
  | cons x xs ih =>
    obtain ⟨hx, hxs⟩ := List.forall_mem_cons.mp h
    rw [List.flatMap_cons, List.flatMap_cons]
    exact keepFirst_append_congr hx (ih hxs)

theorem dotted_injective (outer : String) : Function.Injective (outer ++ "." ++ ·) := by
  intro a b hab
  exact (String.append_right_inj _).mp hab

theorem keepFirst_map_under (outer : String) (seen : List String) (cs : List RawColumn) :
    keepFirst (seen.map (outer ++ "." ++ ·)) (cs.map (under outer)) =
      (keepFirst seen cs).map (under outer) := by
  induction cs generalizing seen with
  | nil => rfl
  | cons c cs ih =>
    have hmem : (under outer c).name ∈ seen.map (outer ++ "." ++ ·) ↔ c.name ∈ seen :=
      List.mem_map_of_injective (dotted_injective outer)
    rw [List.map_cons, keepFirst, keepFirst]
    by_cases hc : c.name ∈ seen
    · rw [if_pos (hmem.mpr hc), if_pos hc, ih]
    · rw [if_neg (mt hmem.mp hc), if_neg hc, List.map_cons, ← ih, List.map_cons]
      rfl

theorem keepFirst_of_nodup {seen : List String} {cs : List RawColumn}
    (h : (cs.map (·.name)).Nodup) (hs : ∀ c ∈ cs, c.name ∉ seen) : keepFirst seen cs = cs := by
  induction cs generalizing seen with
  | nil => rfl
  | cons c cs ih =>
    obtain ⟨hc, hcs⟩ := List.forall_mem_cons.mp hs
    rw [List.map_cons, List.nodup_cons] at h
    rw [keepFirst, if_neg hc, ih h.2]
    intro d hd hm
    rcases List.mem_cons.mp hm with he | hm
    · apply h.1
      rw [← he]
      exact List.mem_map_of_mem hd
    · exact hcs d hd hm

end RawColumn

namespace Column

open RawColumn

theorem map_toRawColumn_number (cs : List RawColumn) : (number cs).map (·.toRawColumn) = cs := by
  rw [number, List.map_map]
  exact List.zipIdx_map_fst 0 cs

theorem map_toRawColumn_ofRaw (cs : List RawColumn) :
    (ofRaw cs).map (·.toRawColumn) = keepFirst [] cs :=
  map_toRawColumn_number _

theorem order_of_getElem?_number {cs : List RawColumn} {i : Nat} {c : Column}
    (h : (number cs)[i]? = some c) : c.order = i := by
  rw [number, List.getElem?_map, List.getElem?_zipIdx, Option.map_map,
    Option.map_eq_some_iff] at h
  obtain ⟨r, -, rfl⟩ := h
  exact Nat.zero_add i

theorem names_ofRaw (cs : List RawColumn) : names (ofRaw cs) = (keepFirst [] cs).map (·.name) := by
  rw [← map_toRawColumn_ofRaw, List.map_map]
  rfl

theorem mem_names_ofRaw (cs : List RawColumn) (n : String) :
    n ∈ names (ofRaw cs) ↔ n ∈ cs.map (·.name) := by
  rw [names_ofRaw, mem_names_keepFirst]
  simp

end Column

end SelectList
