import SelectList.Proofs.KeepFirst
import SelectList.Proofs.Reach

namespace SelectList

open RawColumn

theorem Field.keepFirst_spread (f : Field) (inner : Slot → List RawColumn) :
    keepFirst [] (f.spread fun k => keepFirst [] (inner k)) = keepFirst [] (f.spread inner) := by
  by_cases he : ∃ k, f.Expands k
  · obtain ⟨k, he⟩ := he
    rw [spread_of_expands he, spread_of_expands he]
    apply keepFirst_append_congr _ rfl
    cases hemb : f.embedded with
    | true =>
      rw [within_of_embedded hemb, List.map_id, List.map_id]
      exact keepFirst_keepFirst (List.nil_subset _) (inner k)
    | false =>
      have hu (cs : List RawColumn) : keepFirst [] (cs.map (under f.columnName)) =
          (keepFirst [] cs).map (under f.columnName) := keepFirst_map_under f.columnName [] cs
      rw [within_of_not_embedded hemb, hu, hu, keepFirst_keepFirst (List.nil_subset _)]
  · have hn := not_exists.mp he
    rw [spread_of_not_expands hn, spread_of_not_expands hn]

namespace Catalog

variable {t : Catalog} {a r : Slot}

theorem gained_sublist_collect (hr : (t.describe r).id = r) (h : r ≠ a) :
    (t.gained [a] r).Sublist (t.collect (t.describe r)).columns := by
  have hm : r ∉ [a] := by simpa using h
  rw [gained, if_neg hm, collect, hr]
  apply walk_columns_sublist
  simp

theorem gained_eq_collect (hr : (t.describe r).id = r) (h : r ≠ a)
    (hl : ¬t.Leads (t.describe r).fields a) :
    t.gained [a] r = (t.collect (t.describe r)).columns := by
  have hm : r ∉ [a] := by simpa using h
  rw [gained, if_neg hm, collect, hr]
  exact (walk_columns_of_not_leads hl (by simp [or_comm]) _ _).symm

theorem resolveRecord_map_toRawColumn (t : Catalog) (k : Slot) :
    (t.resolveRecord (some k)).columns.map (·.toRawColumn) =
      keepFirst [] (t.collect (t.describe k)).columns :=
  Column.map_toRawColumn_ofRaw _

theorem resolveRecord_eq_spread (hid : ∀ k, (t.describe k).id = k)
    (h : ∀ f ∈ (t.describe a).fields, ∀ r, f.Expands r →
      r ≠ a ∧ ¬t.Leads (t.describe r).fields a) :
    (t.resolveRecord (some a)).columns = Column.ofRaw ((t.describe a).fields.flatMap
      (·.spread fun r => (t.resolveRecord (some r)).columns.map (·.toRawColumn))) := by
  change Column.number (keepFirst [] (t.collect (t.describe a)).columns) =
    Column.number (keepFirst [] _)
  rw [collect_columns_eq, hid]
  congr 1
  apply keepFirst_flatMap_congr
  intro f hf
  have hg : f.spread (t.gained [a]) = f.spread fun r => (t.collect (t.describe r)).columns := by
    apply Field.spread_congr
    intro r he
    obtain ⟨hne, hl⟩ := h f hf r he
    exact gained_eq_collect (hid r) hne hl
  simp only [resolveRecord_map_toRawColumn]
  rw [hg, Field.keepFirst_spread]

/-- What a record gains from another one that its fields expand is part of what that one has when it
is resolved by itself, and all of it if there is no way back. Records without a way back to the
first one may be resolved before it, with the columns that this leaves out. -/
theorem resolve_compositional (t : Catalog) (hid : ∀ k, (t.describe k).id = k) (a : Slot) :
    (t.collect (t.describe a)).columns =
        (t.describe a).fields.flatMap (·.spread (t.gained [a])) ∧
    (∀ f ∈ (t.describe a).fields, ∀ r, f.Expands r → r ≠ a →
      (t.gained [a] r).Sublist (t.collect (t.describe r)).columns ∧
      (¬t.Leads (t.describe r).fields a →
        t.gained [a] r = (t.collect (t.describe r)).columns)) ∧
    ((∀ f ∈ (t.describe a).fields, ∀ r, f.Expands r →
        r ≠ a ∧ ¬t.Leads (t.describe r).fields a) →
      (t.resolveRecord (some a)).columns = Column.ofRaw ((t.describe a).fields.flatMap
        (·.spread fun r => (t.resolveRecord (some r)).columns.map (·.toRawColumn)))) := by
  refine ⟨?_, ?_, resolveRecord_eq_spread hid⟩
  · rw [collect_columns_eq, hid]
  · intro f _ r _ hne
    exact ⟨gained_sublist_collect (hid r) hne, gained_eq_collect (hid r) hne⟩

theorem resolve_compositional_beside_cycle :
    let named (n : String) : Field := (Field.ofIdent "").withTag n
    let t : Catalog := .ofList [
      ⟨0, "R0", [named "a", (named "n").leadingTo (some 1), (Field.ofIdent "").embedding (some 2)]⟩,
      ⟨1, "R1", [named "b", (named "to").leadingTo (some 2)]⟩,
      ⟨2, "R2", [named "c", (named "of").leadingTo (some 1)]⟩]
    (∀ k, (t.describe k).id = k) ∧
    (∀ f ∈ (t.describe 0).fields, ∀ r, f.Expands r →
      r ≠ 0 ∧ ¬t.Leads (t.describe r).fields 0) ∧
    t.gained [0] 1 = (t.collect (t.describe 1)).columns ∧
    Column.names (Column.ofRaw ((t.describe 0).fields.flatMap
      (·.spread fun r => (t.resolveRecord (some r)).columns.map (·.toRawColumn)))) =
      ["a", "n.b", "n.to.c", "n.to.of", "n.to", "n", "c", "of.b", "of.to", "of"] := by
  intro named t
  have hid : ∀ k, (t.describe k).id = k :=
    describe_of_forall (motive := fun k d => d.id = k) (fun _ => rfl) (by decide)
  have hnested : ∀ i, ∀ f ∈ (t.describe i).fields, ∀ j ∈ f.nested, j ∈ [1, 2] :=
    describe_of_forall (motive := fun _ d => ∀ f ∈ d.fields, ∀ j ∈ f.nested, j ∈ [1, 2])
      (fun _ _ h => by cases h) (by decide)
  have hback : ∀ f ∈ (t.describe 0).fields, ∀ r, f.Expands r →
      r ≠ 0 ∧ ¬t.Leads (t.describe r).fields 0 := by
    intro f hf r he
    have hr : r ∈ [1, 2] := hnested 0 f hf r he.2.1
    constructor
    · rintro rfl
      simp at hr
    · intro hl
      have h0 : 0 ∈ [1, 2] := hl.mem_of_closed (hnested r) fun i _ => hnested i
      simp at h0
  obtain ⟨-, hgained, hresolve⟩ := resolve_compositional t hid 0
  refine ⟨hid, hback, ?_, ?_⟩
  · have hf : (named "n").leadingTo (some 1) ∈ (t.describe 0).fields := by decide
    have he : ((named "n").leadingTo (some 1)).Expands 1 := by decide
    exact (hgained _ hf 1 he (by decide)).2 (hback _ hf 1 he).2
  · rw [← hresolve hback]
    decide +kernel

theorem spread_of_embedded {f : Field} {k : Slot} {trail : List Slot} (he : f.Expands k)
    (hemb : f.embedded = true) (hk : k ∉ trail) (hl : ¬t.Leads (t.describe k).fields k) :
    f.spread (t.gained trail) = (t.describe k).fields.flatMap (·.spread (t.gained trail)) := by
  have hs : ¬f.Shows := fun h => by simp [h.2.1] at hemb
  -- the record is open while its own fields are walked, and not if they are written out
  have hopen : (t.walk trail (t.describe k).typeName (t.describe k).fields).columns =
      (t.walk (k :: trail) (t.describe k).typeName (t.describe k).fields).columns :=
    walk_columns_of_not_leads hl (fun j => List.mem_cons) _ _
  rw [Field.spread_of_expands he, Field.within_of_embedded hemb, List.map_id, if_neg hs,
    List.append_nil, gained, if_neg hk, ← hopen, walk_columns_eq]

theorem promotion_inlines (t : Catalog) (id k : Slot) (name name' : String) (xs ys : List Field)
    (f : Field) (hlive : f.Live) (hemb : f.embedded = true) (hnested : f.nested = some k)
    (hk : k ≠ id) (hl : ¬t.Leads (t.describe k).fields k) :
    (t.resolve ⟨id, name, xs ++ [f] ++ ys⟩).columns =
      (t.resolve ⟨id, name', xs ++ (t.describe k).fields ++ ys⟩).columns := by
  have he : f.Expands k := ⟨hlive, hnested, .inl hemb⟩
  have hcollect : (t.collect ⟨id, name, xs ++ [f] ++ ys⟩).columns =
      (t.collect ⟨id, name', xs ++ (t.describe k).fields ++ ys⟩).columns := by
    rw [collect_columns_eq, collect_columns_eq]
    simp only [List.flatMap_append, List.flatMap_singleton]
    rw [spread_of_embedded he hemb (by simpa using hk) hl]
  exact congrArg Column.ofRaw hcollect

theorem promotion_inlines_nested :
    let named (n : String) : Field := (Field.ofIdent "").withTag n
    let f : Field := { ident := "E", exported := false, embedded := true, nested := some 1 }
    let t : Catalog := .ofList [⟨0, "R0", []⟩,
      ⟨1, "R1", [named "a", (Field.ofIdent "").embedding (some 2)]⟩,
      ⟨2, "R2", [named "b", (named "o").leadingTo (some 0)]⟩]
    f.Live ∧ f.embedded = true ∧ f.nested = some 1 ∧ 1 ≠ 0 ∧ ¬t.Leads (t.describe 1).fields 1 ∧
    Column.names (t.resolve ⟨0, "R0", [named "b"] ++ [f] ++ [named "o", named "c"]⟩).columns =
      ["b", "a", "o", "c"] := by
  intro named f t
  have hl : ¬t.Leads (t.describe 1).fields 1 := by
    intro hl
    have h1 : 1 ∈ [0, 2] := hl.mem_of_closed (by decide) (by decide)
    simp at h1
  refine ⟨by decide, rfl, rfl, by decide, hl, ?_⟩
  rw [promotion_inlines t 0 1 "R0" "R0" _ _ f (by decide) rfl rfl (by decide) hl]
  decide +kernel

end Catalog

end SelectList
