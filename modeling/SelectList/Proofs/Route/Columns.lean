import SelectList.Proofs.Route

namespace SelectList.Catalog

variable {t : Catalog} {trail : List Slot} {fs : List Field} {f : Field}

theorem mem_routes_cons {A : List Field → Route → Prop} {O : Field → Prop}
    {I : Field → Route → Prop} [Decidable (O f)] {inner rest : List Route}
    (hcons : ∀ fs i g s, A fs ((i, g) :: s) ↔ fs[i]? = some g ∧ (s = [] ∧ O g ∨ I g s))
    (hne : ∀ fs, ¬A fs []) (hi : ∀ r, r ∈ inner ↔ I f r) (hr : ∀ r, r ∈ rest ↔ A fs r)
    (r : Route) :
    r ∈ inner.map ((0, f) :: ·) ++ (if O f then [[(0, f)]] else []) ++ rest.map Route.later ↔
      A (f :: fs) r := by
  have hown (r : Route) : r ∈ (if O f then [[(0, f)]] else []) ↔ r = [(0, f)] ∧ O f := by
    split <;> simp [*]
  rw [List.mem_append, List.mem_append, hown]
  match r with
  | [] => simp [Route.nil_mem_later, hr, hne]
  | (0, g) :: s =>
    have hfirst : A (f :: fs) ((0, g) :: s) ↔ g = f ∧ (s = [] ∧ O f ∨ I f s) := by
      rw [hcons, List.getElem?_cons_zero, Option.some.injEq, eq_comm]
      exact and_congr_right fun hg => by rw [hg]
    rw [hfirst, or_iff_left Route.zero_not_mem_later]
    simp only [List.mem_map, List.cons.injEq, Prod.mk.injEq, true_and]
    constructor
    · rintro (⟨s, hs, rfl, rfl⟩ | ⟨⟨rfl, rfl⟩, ho⟩)
      · exact ⟨rfl, .inr ((hi s).mp hs)⟩
      · exact ⟨rfl, .inl ⟨rfl, ho⟩⟩
    · rintro ⟨rfl, ⟨rfl, ho⟩ | hs⟩
      · exact .inr ⟨⟨rfl, rfl⟩, ho⟩
      · exact .inl ⟨s, (hi s).mpr hs, rfl, rfl⟩
  | (i + 1, g) :: s =>
    have hlater : A (f :: fs) ((i + 1, g) :: s) ↔ A fs ((i, g) :: s) := by
      rw [hcons, List.getElem?_cons_succ, ← hcons]
    rw [hlater, Route.succ_mem_later, hr]
    simp

theorem pairwise_routes_cons {inner rest : List Route} {own : Prop} [Decidable own]
    (hi : ∀ r ∈ inner, r ≠ []) (hio : inner.Pairwise Route.Before) (hr : ∀ r ∈ rest, r ≠ [])
    (hro : rest.Pairwise Route.Before) :
    (inner.map ((0, f) :: ·) ++ (if own then [[(0, f)]] else []) ++
      rest.map Route.later).Pairwise Route.Before := by
  have hs : ∀ r ∈ (if own then [[(0, f)]] else []), r = [(0, f)] := by
    split <;> simp
  have hfront : ∀ r ∈ inner.map ((0, f) :: ·) ++ (if own then [[(0, f)]] else []),
      ∃ s, r = (0, f) :: s := by
    intro r h
    rcases List.mem_append.mp h with h | h
    · obtain ⟨s, -, rfl⟩ := List.mem_map.mp h
      exact ⟨s, rfl⟩
    · exact ⟨[], hs r h⟩
  refine List.pairwise_append.mpr ⟨List.pairwise_append.mpr ⟨?_, ?_, ?_⟩, ?_, ?_⟩
  · exact List.pairwise_map.mpr (hio.imp .common)
  · split <;> simp
  · intro r h s hs'
    obtain ⟨r, hm, rfl⟩ := List.mem_map.mp h
    rw [hs s hs']
    exact .common (.inside (hi r hm))
  · exact List.pairwise_map.mpr (hro.imp_of_mem fun _ hm h => h.later (hr _ hm))
  · intro r h s hs'
    obtain ⟨r, rfl⟩ := hfront r h
    obtain ⟨s, hm, rfl⟩ := List.mem_map.mp hs'
    obtain ⟨⟨i, g⟩, s, rfl⟩ := List.exists_cons_of_ne_nil (hr s hm)
    exact .earlier (Nat.succ_pos i)

theorem entered_columns (owner : String)
    (h : ∀ k, f.Expands k → k ∉ trail → ∃ routes : List Route,
      (∀ r, r ∈ routes ↔ t.IsRoute (k :: trail) (t.describe k).fields r) ∧
      routes.Pairwise Route.Before ∧
      (t.walk (k :: trail) (t.describe k).typeName (t.describe k).fields).columns =
        routes.map Route.column) :
    ∃ routes : List Route,
      (∀ r, r ∈ routes ↔
        ∃ k, f.Expands k ∧ k ∉ trail ∧ t.IsRoute (k :: trail) (t.describe k).fields r) ∧
      routes.Pairwise Route.Before ∧
      (t.entered trail owner f).columns = routes.map fun r => Route.column ((0, f) :: r) := by
  by_cases hf : ∃ k, f.Expands k ∧ k ∉ trail
  · obtain ⟨k, he, hk⟩ := hf
    obtain ⟨routes, hmem, hord, hcol⟩ := h k he hk
    refine ⟨routes, fun r => ?_, hord, ?_⟩
    · rw [hmem, he.exists_iff, and_iff_right hk]
    · rw [entered_of_not_mem t owner he hk]
      simp only [hcol, List.map_map]
      apply List.map_congr_left
      intro r hr
      exact (Route.column_cons ((hmem r).mp hr).exists_column).symm
  · refine ⟨[], fun r => ?_, .nil, ?_⟩
    · simp only [List.not_mem_nil, false_iff]
      exact fun ⟨k, he, hk, _⟩ => hf ⟨k, he, hk⟩
    · by_cases he : ∃ k, f.Expands k
      · obtain ⟨k, he⟩ := he
        rw [entered_of_mem t owner he (by_contra fun hk => hf ⟨k, he, hk⟩)]
        rfl
      · rw [entered_of_not_expands t trail owner (not_exists.mp he)]
        rfl

theorem walk_columns (t : Catalog) (trail : List Slot) (fs : List Field) :
    ∀ owner, ∃ routes : List Route, (∀ r, r ∈ routes ↔ t.IsRoute trail fs r) ∧
      routes.Pairwise Route.Before ∧ (t.walk trail owner fs).columns = routes.map Route.column := by
  induction trail, fs using t.walk_induction with
  | nil trail =>
    intro owner
    exact ⟨[], fun r => by simp [not_isRoute_nil], .nil, by rw [walk_nil]; rfl⟩
  | cons trail f fs hinner hrest =>
    intro owner
    obtain ⟨inner, hi, hio, hic⟩ := entered_columns owner fun k he hk => hinner k he hk _
    obtain ⟨rest, hr, hro, hrc⟩ := hrest owner
    refine ⟨_, mem_routes_cons (fun _ _ _ _ => isRoute_cons) (fun _ h => h.ne_nil rfl) hi hr,
      ?_, ?_⟩
    · apply pairwise_routes_cons _ hio _ hro
      · intro r h
        obtain ⟨k, -, -, hr⟩ := (hi r).mp h
        exact hr.ne_nil
      · exact fun r h => ((hr r).mp h).ne_nil
    · rw [columns_cons, hic, hrc]
      simp only [List.map_append, List.map_map, Function.comp_def, Route.column_later]
      split
      · next hs => simp [Route.column_singleton hs]
      · rfl

theorem collect_columns_eq_routes (t : Catalog) (d : Descriptor) :
    ∃ routes : List Route, (∀ r, r ∈ routes ↔ t.IsRoute [d.id] d.fields r) ∧ routes.Nodup ∧
      routes.Pairwise Route.Before ∧ (t.collect d).columns = routes.map Route.column := by
  obtain ⟨routes, hmem, hord, hcol⟩ := walk_columns t [d.id] d.fields d.typeName
  have hne : ∀ r s : Route, r.Before s → r ≠ s := by
    rintro r _ h rfl
    exact Route.Before.irrefl r h
  exact ⟨routes, hmem, hord.imp (hne _ _), hord, hcol⟩

end SelectList.Catalog
