import SelectList.Proofs.KeepFirst
import SelectList.Proofs.Reach

namespace SelectList

open RawColumn

namespace Field

def promotes? (f : Field) : Option Slot :=
  f.nested.filter fun k => f.embedded ∧ f.Expands k

theorem promotes?_eq_some_iff {f : Field} {k : Slot} :
    f.promotes? = some k ↔ f.embedded = true ∧ f.Expands k := by
  rw [promotes?, Option.filter_eq_some_iff, decide_eq_true_iff]
  exact ⟨fun h => h.2, fun h => ⟨h.2.2.1, h⟩⟩

structure Apart (fs : List Field) : Prop where
  dotless : ∀ f ∈ fs, '.' ∉ f.columnName.toList
  nodup : (fs.map columnName).Nodup

theorem apart_of_names {fs : List Field} (ns : List String) (h : fs.map columnName = ns)
    (hd : ∀ n ∈ ns, '.' ∉ n.toList) (hn : ns.Nodup) : Apart fs := by
  subst h
  exact ⟨fun f hf => hd f.columnName (List.mem_map_of_mem hf), hn⟩

theorem Apart.sublist {fs gs : List Field} (h : Apart gs) (hs : fs.Sublist gs) : Apart fs :=
  ⟨fun f hf => h.dotless f (hs.subset hf), h.nodup.sublist (hs.map columnName)⟩

end Field

namespace Catalog

/-- The fields with columns of their own, those of an embedded record in place of the field that
leads to it. No record of `trail` is entered. -/
def level (t : Catalog) (trail : List Slot) : List Field → List Field
  | [] => []
  | f :: fs =>
    match f.promotes? with
    | some k =>
      (if k ∈ trail then [] else level t (k :: trail) (t.describe k).fields) ++ level t trail fs
    | none => (if f.Shows then [f] else []) ++ level t trail fs
termination_by fs => t.unwalked trail + fs.length
decreasing_by
  · exact enter_decreases (by assumption) f fs
  · simp
  · simp

variable {t : Catalog} {trail : List Slot} {f : Field} {fs : List Field} {k : Slot}

theorem level_cons_of_promotes (h : f.promotes? = some k) :
    t.level trail (f :: fs) =
      (if k ∈ trail then [] else t.level (k :: trail) (t.describe k).fields) ++
        t.level trail fs := by
  rw [level, h]

theorem level_cons_of_not_promotes (h : f.promotes? = none) :
    t.level trail (f :: fs) = (if f.Shows then [f] else []) ++ t.level trail fs := by
  rw [level, h]

theorem level_sublist (t : Catalog) (trail : List Slot) (fs : List Field) :
    ∀ trail', trail ⊆ trail' → (t.level trail' fs).Sublist (t.level trail fs) := by
  induction trail, fs using t.walk_induction with
  | nil trail =>
    intro trail' _
    rw [level, level]
  | cons trail f fs hinner hrest =>
    intro trail' h
    cases hf : f.promotes? with
    | none =>
      rw [level_cons_of_not_promotes hf, level_cons_of_not_promotes hf]
      exact (hrest trail' h).append_left _
    | some k =>
      rw [level_cons_of_promotes hf, level_cons_of_promotes hf]
      apply List.Sublist.append _ (hrest trail' h)
      by_cases hk : k ∈ trail'
      · rw [if_pos hk]
        exact List.nil_sublist _
      · have hk' : k ∉ trail := fun hm => hk (h hm)
        rw [if_neg hk, if_neg hk']
        apply hinner k (Field.promotes?_eq_some_iff.mp hf).2 hk'
        exact List.cons_subset_cons k h

end Catalog

namespace RawColumn

def firstPart (name : String) : List Char := name.toList.takeWhile (· ≠ '.')

theorem takeWhile_dotless {cs : List Char} (h : '.' ∉ cs) (rest : List Char) :
    (cs ++ rest).takeWhile (· ≠ '.') = cs ++ rest.takeWhile (· ≠ '.') := by
  apply List.takeWhile_append_of_pos
  intro c hc
  apply decide_eq_true
  rintro rfl
  exact h hc

theorem firstPart_of_dotless {name : String} (h : '.' ∉ name.toList) :
    firstPart name = name.toList := by
  have ht := takeWhile_dotless h []
  rwa [List.takeWhile_nil, List.append_nil] at ht

theorem toList_name_under (outer : String) (c : RawColumn) :
    (c.under outer).name.toList = outer.toList ++ '.' :: c.name.toList := by
  simp [under]

theorem firstPart_under {outer : String} (h : '.' ∉ outer.toList) (c : RawColumn) :
    firstPart (c.under outer).name = outer.toList := by
  rw [firstPart, toList_name_under, takeWhile_dotless h, List.takeWhile_cons_of_neg (by simp),
    List.append_nil]

theorem nodup_names_under {cs : List RawColumn} (outer : String) (h : (cs.map (·.name)).Nodup) :
    ((cs.map (under outer)).map (·.name)).Nodup := by
  have hn : (cs.map (under outer)).map (·.name) = (cs.map (·.name)).map (outer ++ "." ++ ·) := by
    rw [List.map_map, List.map_map]
    rfl
  rw [hn]
  exact h.map (dotted_injective outer)

structure Headed (fs : List Field) (cs : List RawColumn) : Prop where
  nodup : (cs.map (·.name)).Nodup
  firstPart : ∀ c ∈ cs, ∃ f ∈ fs, firstPart c.name = f.columnName.toList

theorem headed_nil (fs : List Field) : Headed fs [] := ⟨.nil, by simp⟩

theorem Headed.append {fs gs : List Field} {cs ds : List RawColumn} (hc : Headed fs cs)
    (hd : Headed gs ds) (h : ((fs ++ gs).map Field.columnName).Nodup) :
    Headed (fs ++ gs) (cs ++ ds) := by
  constructor
  · rw [List.map_append]
    apply List.Nodup.append hc.nodup hd.nodup
    intro n hnc hnd
    obtain ⟨c, hcm, rfl⟩ := List.mem_map.mp hnc
    obtain ⟨d, hdm, hn⟩ := List.mem_map.mp hnd
    obtain ⟨f, hf, hcf⟩ := hc.firstPart c hcm
    obtain ⟨g, hg, hdg⟩ := hd.firstPart d hdm
    have hfg : f.columnName = g.columnName := by
      rw [← String.toList_inj, ← hcf, ← hdg, hn]
    rw [List.map_append] at h
    apply List.disjoint_of_nodup_append h (List.mem_map_of_mem hf)
    rw [hfg]
    exact List.mem_map_of_mem hg
  · intro c hm
    rcases List.mem_append.mp hm with hm | hm
    · obtain ⟨f, hf, he⟩ := hc.firstPart c hm
      exact ⟨f, List.mem_append_left gs hf, he⟩
    · obtain ⟨g, hg, he⟩ := hd.firstPart c hm
      exact ⟨g, List.mem_append_right fs hg, he⟩

end RawColumn

namespace Field

variable {f : Field} {inner : Slot → List RawColumn}

theorem column_name (f : Field) : f.column.name = f.columnName := by
  unfold column
  split <;> rfl

theorem spread_of_promotes {k : Slot} (h : f.promotes? = some k) : f.spread inner = inner k := by
  obtain ⟨hemb, he⟩ := promotes?_eq_some_iff.mp h
  have hs : ¬f.Shows := fun hs => by simp [hs.2.1] at hemb
  rw [spread_of_expands he, within_of_embedded hemb, List.map_id, if_neg hs, List.append_nil]

theorem headed_expanded (cs : List RawColumn) (hd : '.' ∉ f.columnName.toList)
    (hc : (cs.map (·.name)).Nodup) : Headed [f] (cs.map (under f.columnName) ++ [f.column]) := by
  constructor
  · rw [List.map_append]
    apply List.Nodup.append (nodup_names_under _ hc) (List.nodup_singleton _)
    intro n hn hm
    obtain ⟨d, hd', rfl⟩ := List.mem_map.mp hn
    obtain ⟨c, -, rfl⟩ := List.mem_map.mp hd'
    -- what stands under the name has a dot behind it
    have hn : (under f.columnName c).name = f.columnName := by simpa [column_name] using hm
    apply hd
    rw [← hn, toList_name_under]
    simp
  · intro c hm
    refine ⟨f, List.mem_singleton_self f, ?_⟩
    rcases List.mem_append.mp hm with hm | hm
    · obtain ⟨c, -, rfl⟩ := List.mem_map.mp hm
      exact firstPart_under hd c
    · rw [List.mem_singleton.mp hm, column_name, firstPart_of_dotless hd]

theorem headed_spread (h : f.promotes? = none) (ha : Apart (if f.Shows then [f] else []))
    (hi : ∀ k, f.Expands k → ((inner k).map (·.name)).Nodup) :
    Headed (if f.Shows then [f] else []) (f.spread inner) := by
  by_cases hs : f.Shows
  · rw [if_pos hs] at ha ⊢
    have hd : '.' ∉ f.columnName.toList := ha.dotless f (List.mem_singleton_self f)
    by_cases he : ∃ k, f.Expands k
    · obtain ⟨k, he⟩ := he
      rw [spread_of_expands he, within_of_not_embedded hs.2.1, if_pos hs]
      exact headed_expanded (inner k) hd (hi k he)
    · rw [spread_of_not_expands (not_exists.mp he), if_pos hs]
      exact headed_expanded [] hd .nil
  · have hn : ∀ k, ¬f.Expands k := by
      intro k he
      obtain ⟨-, ⟨-, hemb⟩ | ⟨h', -⟩⟩ := expands_iff.mp he
      · rw [promotes?_eq_some_iff.mpr ⟨hemb, he⟩] at h
        cases h
      · exact hs h'
    rw [spread_of_not_expands hn, if_neg hs, if_neg hs]
    exact headed_nil _

end Field

namespace Catalog

theorem walk_headed (t : Catalog) (trail : List Slot) (fs : List Field) :
    ∀ owner, (∀ k, t.Leads fs k → Field.Apart (t.level [k] (t.describe k).fields)) →
      Field.Apart (t.level trail fs) →
      Headed (t.level trail fs) (t.walk trail owner fs).columns := by
  induction trail, fs using t.walk_induction with
  | nil trail =>
    intro owner _ _
    rw [walk_nil]
    exact headed_nil _
  | cons trail f fs hinner hrest =>
    intro owner ht hl
    have hgained : ∀ k, f.Expands k →
        Field.Apart (if k ∈ trail then [] else t.level (k :: trail) (t.describe k).fields) →
        Headed (if k ∈ trail then [] else t.level (k :: trail) (t.describe k).fields)
          (t.gained trail k) := by
      intro k he ha
      unfold gained
      by_cases hk : k ∈ trail
      · rw [if_pos hk, if_pos hk]
        exact headed_nil _
      · rw [if_neg hk] at ha ⊢
        rw [if_neg hk]
        exact hinner k he hk _ (fun j hj => ht j (.through List.mem_cons_self he hj)) ha
    have hfs := hrest owner fun k hk => ht k hk.cons
    rw [columns_cons, entered_columns_eq]
    cases hp : f.promotes? with
    | some k =>
      rw [level_cons_of_promotes hp] at hl ⊢
      rw [Field.spread_of_promotes hp]
      apply Headed.append _ (hfs (hl.sublist (List.sublist_append_right _ _))) hl.nodup
      apply hgained k (Field.promotes?_eq_some_iff.mp hp).2
      exact hl.sublist (List.sublist_append_left _ _)
    | none =>
      rw [level_cons_of_not_promotes hp] at hl ⊢
      apply Headed.append _ (hfs (hl.sublist (List.sublist_append_right _ _))) hl.nodup
      apply Field.headed_spread hp (hl.sublist (List.sublist_append_left _ _))
      intro k he
      apply Headed.nodup
      apply hgained k he
      split
      · exact ⟨by simp, .nil⟩
      · -- with more records open the level is part of the one that the record has by itself
        apply (ht k (.expands List.mem_cons_self he)).sublist
        apply level_sublist
        simp

/-- If no record that a description leads to, nor the description itself, has a name with a dot or
a name twice at its level, then all columns are kept. -/
theorem resolve_keeps_all (t : Catalog) (d : Descriptor)
    (hd : Field.Apart (t.level [d.id] d.fields))
    (ht : ∀ k, t.Leads d.fields k → Field.Apart (t.level [k] (t.describe k).fields)) :
    (t.resolve d).columns = Column.number (t.collect d).columns := by
  have hu : Headed (t.level [d.id] d.fields) (t.collect d).columns :=
    walk_headed t [d.id] d.fields d.typeName ht hd
  change Column.number (keepFirst [] (t.collect d).columns) = _
  rw [keepFirst_of_nodup hu.nodup (by simp)]

theorem resolve_keeps_all_on_cycle :
    let named (n : String) : Field := (Field.ofIdent "").withTag n
    let embed (k : Slot) : Field := (Field.ofIdent "").embedding (some k)
    let t : Catalog := .ofList [
      ⟨0, "R0", [named "a", (named "b").leadingTo (some 1)]⟩,
      ⟨1, "R1", [named "a", embed 2]⟩,
      ⟨2, "R2", [named "b", (named "up").leadingTo (some 0)]⟩]
    let d : Descriptor := ⟨5, "D", [(named "x").leadingTo (some 0), embed 2]⟩
    Field.Apart (t.level [d.id] d.fields) ∧
    (∀ k, t.Leads d.fields k → Field.Apart (t.level [k] (t.describe k).fields)) ∧
    (t.resolve d).columns = Column.number (t.collect d).columns ∧
    Column.names (t.resolve d).columns =
      ["x.a", "x.b.a", "x.b.b", "x.b.up", "x.b", "x", "b", "up.a", "up.b.a", "up.b", "up"] := by
  intro named embed t d
  have hd : Field.Apart (t.level [d.id] d.fields) :=
    Field.apart_of_names ["x", "b", "up"] (by decide +kernel) (by decide) (by decide)
  have ht : ∀ k, t.Leads d.fields k → Field.Apart (t.level [k] (t.describe k).fields) := by
    intro k hk
    have hm : k ∈ [0, 1, 2] := hk.mem_of_closed (by decide) (by decide)
    simp only [List.mem_cons, List.not_mem_nil, or_false] at hm
    rcases hm with rfl | rfl | rfl
    · exact Field.apart_of_names ["a", "b"] (by decide +kernel) (by decide) (by decide)
    · exact Field.apart_of_names ["a", "b", "up"] (by decide +kernel) (by decide) (by decide)
    · exact Field.apart_of_names ["b", "up"] (by decide +kernel) (by decide) (by decide)
  exact ⟨hd, ht, resolve_keeps_all t d hd ht, by decide +kernel⟩

end Catalog

end SelectList
