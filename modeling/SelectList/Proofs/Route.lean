import Mathlib.Data.List.Basic
import SelectList.Proofs.Walk

namespace SelectList

abbrev Route := List (Nat × Field)

namespace Route

def records (r : Route) : List Slot := r.dropLast.filterMap (·.2.nested)

def name (r : Route) : String :=
  ".".intercalate ((r.filter (!·.2.embedded)).map (·.2.columnName))

def column (r : Route) : RawColumn :=
  if r.dropLast.any (!·.2.embedded) then ⟨r.name, r.name, .nestedExpanded⟩
  else ⟨r.name, "", if r.getLast?.any (·.2.isJson) then .jsonOpaque else .plain⟩

/-- Where two routes part the earlier field comes first, and what is inside a record comes before
the record's own column. -/
inductive Before : Route → Route → Prop
  | inside {r : Route} : r ≠ [] → Before r []
  | earlier {i j : Nat} {f g : Field} {r s : Route} : i < j → Before ((i, f) :: r) ((j, g) :: s)
  | common {h : Nat × Field} {r s : Route} : Before r s → Before (h :: r) (h :: s)

theorem Before.irrefl (r : Route) : ¬Before r r := by
  induction r with
  | nil => rintro ⟨h⟩; exact h rfl
  | cons h r ih =>
    rintro (_ | hij | hr)
    · exact Nat.lt_irrefl _ hij
    · exact ih hr

theorem records_cons {h : Nat × Field} {k : Slot} {r : Route} (hr : r ≠ [])
    (hk : h.2.nested = some k) : records (h :: r) = k :: records r := by
  simp [records, List.dropLast_cons_of_ne_nil hr, hk]

theorem column_singleton {i : Nat} {f : Field} (h : f.Shows) : column [(i, f)] = f.column := by
  unfold column Field.column name
  have he : f.embedded = false := h.2.1
  cases hj : f.isJson <;> simp [he, hj, RawColumn.plain, RawColumn.json]

theorem name_promoted {i : Nat} {f : Field} {r : Route} (h : f.embedded = true) :
    name ((i, f) :: r) = name r := by
  simp [name, h]

theorem name_under {i : Nat} {f : Field} {r : Route} (h : f.embedded = false)
    (hr : ∃ h ∈ r, h.2.embedded = false) : name ((i, f) :: r) = f.columnName ++ "." ++ name r := by
  obtain ⟨g, hg, he⟩ := hr
  have hne : (r.filter (!·.2.embedded)).map (·.2.columnName) ≠ [] := by
    simp only [ne_eq, List.map_eq_nil_iff, List.filter_eq_nil_iff]
    exact fun hr => hr g hg (by simp [he])
  simp only [name, List.filter_cons, h, Bool.not_false, ↓reduceIte, List.map_cons]
  exact String.intercalate_cons_of_ne_nil hne

theorem column_cons {i : Nat} {f : Field} {r : Route} (hr : ∃ h ∈ r, h.2.embedded = false) :
    column ((i, f) :: r) = f.within (column r) := by
  have hne : r ≠ [] := by
    rintro rfl
    simp at hr
  have hl : ((i, f) :: r).getLast? = r.getLast? := List.getLast?_cons_of_ne_nil hne
  have hd : ((i, f) :: r).dropLast.any (!·.2.embedded) =
      (!f.embedded || r.dropLast.any (!·.2.embedded)) := by
    rw [List.dropLast_cons_of_ne_nil hne, List.any_cons]
  cases he : f.embedded with
  | false =>
    simp only [column, hd, he, name_under he hr, Field.within, Bool.not_false, Bool.true_or,
      Bool.false_eq_true, ↓reduceIte, RawColumn.under]
    split <;> rfl
  | true =>
    simp only [column, hl, hd, he, name_promoted he, Field.within, Bool.not_true, Bool.false_or,
      ↓reduceIte]

def later : Route → Route
  | [] => []
  | (i, f) :: r => (i + 1, f) :: r

theorem zero_not_mem_later {rs : List Route} {g : Field} {s : Route} :
    (0, g) :: s ∉ rs.map later := by
  intro h
  obtain ⟨r, -, hr⟩ := List.mem_map.mp h
  cases r <;> simp [later] at hr

theorem succ_mem_later {rs : List Route} {i : Nat} {g : Field} {s : Route} :
    (i + 1, g) :: s ∈ rs.map later ↔ (i, g) :: s ∈ rs := by
  rw [List.mem_map]
  constructor
  · rintro ⟨_ | ⟨⟨j, f⟩, r⟩, hm, hr⟩
    · cases hr
    · cases hr
      exact hm
  · exact fun hm => ⟨_, hm, rfl⟩

theorem nil_mem_later {rs : List Route} : [] ∈ rs.map later ↔ [] ∈ rs := by
  rw [List.mem_map]
  constructor
  · rintro ⟨_ | ⟨_, _⟩, hm, hr⟩
    · exact hm
    · cases hr
  · exact fun hm => ⟨_, hm, rfl⟩

theorem Before.later {r s : Route} (h : Before r s) (hs : s ≠ []) :
    Before r.later s.later := by
  cases h with
  | inside hr => exact absurd rfl hs
  | earlier hij => exact .earlier (Nat.succ_lt_succ hij)
  | common hr => exact .common hr

theorem column_later : (r : Route) → column r.later = column r
  | [] => rfl
  | (i, f) :: r => by
    have hn : name ((i + 1, f) :: r) = name ((i, f) :: r) := by
      cases he : f.embedded <;> simp [name, he]
    cases r <;> simp only [later, column, hn] <;> rfl

end Route

namespace Catalog

inductive Follows (t : Catalog) : List Field → Route → Prop
  | last {fs : List Field} {i : Nat} {f : Field} : fs[i]? = some f → Follows t fs [(i, f)]
  | next {fs : List Field} {i : Nat} {f : Field} {k : Slot} {r : Route} : fs[i]? = some f →
      f.nested = some k → Follows t (t.describe k).fields r → Follows t fs ((i, f) :: r)

structure IsRoute (t : Catalog) (trail : List Slot) (fs : List Field) (r : Route) : Prop where
  follows : t.Follows fs r
  expands : ∀ h ∈ r.dropLast, ∃ k, h.2.Expands k
  nodup : r.records.Nodup
  fresh : ∀ k ∈ r.records, k ∉ trail
  shows : ∀ h ∈ r.getLast?, h.2.Shows

variable {t : Catalog} {trail : List Slot} {fs : List Field} {f : Field} {i : Nat} {r : Route}

theorem Follows.ne_nil (h : t.Follows fs r) : r ≠ [] := by
  cases h <;> simp

theorem isRoute_last : t.IsRoute trail fs [(i, f)] ↔ fs[i]? = some f ∧ f.Shows := by
  constructor
  · rintro ⟨hf, -, -, -, hs⟩
    cases hf with
    | last hi => exact ⟨hi, hs _ rfl⟩
    | next _ _ hf => exact absurd rfl hf.ne_nil
  · rintro ⟨hi, hs⟩
    exact ⟨.last hi, by simp, by simp [Route.records], by simp [Route.records], by simpa using hs⟩

theorem nodup_fresh_cons {k : Slot} {ks : List Slot} :
    (k :: ks).Nodup ∧ (∀ j ∈ k :: ks, j ∉ trail) ↔
      k ∉ trail ∧ ks.Nodup ∧ ∀ j ∈ ks, j ∉ k :: trail := by
  rw [List.nodup_cons, List.forall_mem_cons]
  constructor
  · rintro ⟨⟨hk, hn⟩, hkt, ht⟩
    refine ⟨hkt, hn, fun j hj hm => ?_⟩
    rcases List.mem_cons.mp hm with rfl | hm
    · exact hk hj
    · exact ht j hj hm
  · rintro ⟨hkt, hn, ht⟩
    exact ⟨⟨fun hk => ht k hk List.mem_cons_self, hn⟩, hkt,
      fun j hj hm => ht j hj (List.mem_cons_of_mem k hm)⟩

theorem isRoute_next (hr : r ≠ []) :
    t.IsRoute trail fs ((i, f) :: r) ↔ fs[i]? = some f ∧
      ∃ k, f.Expands k ∧ k ∉ trail ∧ t.IsRoute (k :: trail) (t.describe k).fields r := by
  constructor
  · rintro ⟨hf, he, hn, ht, hs⟩
    cases hf with
    | last hi => exact absurd rfl hr
    | @next _ _ _ k _ hi hk hf =>
      rw [List.dropLast_cons_of_ne_nil hr] at he
      rw [Route.records_cons hr hk] at hn ht
      rw [List.getLast?_cons_of_ne_nil hr] at hs
      obtain ⟨⟨j, hj⟩, hes⟩ := List.forall_mem_cons.mp he
      obtain rfl : k = j := Option.some.inj (hk.symm.trans hj.2.1)
      obtain ⟨hkt, hn, ht⟩ := nodup_fresh_cons.mp ⟨hn, ht⟩
      exact ⟨hi, k, hj, hkt, hf, hes, hn, ht, hs⟩
  · rintro ⟨hi, k, he, hk, hf, hes, hn, ht, hs⟩
    obtain ⟨hn, ht⟩ := nodup_fresh_cons.mpr ⟨hk, hn, ht⟩
    have hrec : Route.records ((i, f) :: r) = k :: r.records := Route.records_cons hr he.2.1
    rw [← hrec] at hn ht
    refine ⟨.next hi he.2.1 hf, ?_, hn, ht, ?_⟩
    · rw [List.dropLast_cons_of_ne_nil hr]
      exact List.forall_mem_cons.mpr ⟨⟨k, he⟩, hes⟩
    · rwa [List.getLast?_cons_of_ne_nil hr]

theorem IsRoute.ne_nil (h : t.IsRoute trail fs r) : r ≠ [] := h.follows.ne_nil

theorem IsRoute.exists_column (h : t.IsRoute trail fs r) : ∃ g ∈ r, g.2.embedded = false := by
  have hl := List.getLast?_eq_some_getLast h.ne_nil
  exact ⟨r.getLast h.ne_nil, List.getLast_mem _, (h.shows _ hl).2.1⟩

theorem isRoute_cons :
    t.IsRoute trail fs ((i, f) :: r) ↔ fs[i]? = some f ∧ (r = [] ∧ f.Shows ∨
      ∃ k, f.Expands k ∧ k ∉ trail ∧ t.IsRoute (k :: trail) (t.describe k).fields r) := by
  by_cases hr : r = []
  · subst hr
    rw [isRoute_last]
    exact and_congr_right fun _ => ⟨fun h => .inl ⟨rfl, h⟩,
      fun h => h.elim And.right fun ⟨_, _, _, h⟩ => absurd rfl h.ne_nil⟩
  · simp [isRoute_next hr, hr]

theorem not_isRoute_nil : ¬t.IsRoute trail [] r := by
  intro h
  obtain ⟨⟨i, f⟩, r, rfl⟩ := List.exists_cons_of_ne_nil h.ne_nil
  simp [isRoute_cons] at h

end Catalog

end SelectList
