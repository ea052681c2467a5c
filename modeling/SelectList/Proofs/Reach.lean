import SelectList.Proofs.Spread

namespace SelectList.Catalog

/-- The record is expanded by one of the fields or by a field of a record that they lead to. -/
inductive Leads (t : Catalog) : List Field → Slot → Prop
  | expands {fs : List Field} {f : Field} {k : Slot} : f ∈ fs → f.Expands k → Leads t fs k
  | through {fs : List Field} {f : Field} {j k : Slot} : f ∈ fs → f.Expands j →
      Leads t (t.describe j).fields k → Leads t fs k

variable {t : Catalog} {trail trail' : List Slot} {fs : List Field} {f : Field} {k : Slot}

theorem Leads.cons (h : t.Leads fs k) : t.Leads (f :: fs) k := by
  cases h with
  | expands hf he => exact .expands (List.mem_cons_of_mem f hf) he
  | through hf he hl => exact .through (List.mem_cons_of_mem f hf) he hl

theorem not_leads_nil : ¬t.Leads [] k := by
  intro h
  cases h with
  | expands hf _ => simp at hf
  | through hf _ _ => simp at hf

theorem leads_cons_iff : t.Leads (f :: fs) k ↔
    (∃ j, f.Expands j ∧ (k = j ∨ t.Leads (t.describe j).fields k)) ∨ t.Leads fs k := by
  constructor
  · intro h
    cases h with
    | @expands _ g _ hg he =>
      rcases List.mem_cons.mp hg with rfl | hg
      · exact .inl ⟨k, he, .inl rfl⟩
      · exact .inr (.expands hg he)
    | @through _ g j _ hg he hl =>
      rcases List.mem_cons.mp hg with rfl | hg
      · exact .inl ⟨j, he, .inr hl⟩
      · exact .inr (.through hg he hl)
  · rintro (⟨j, he, rfl | hl⟩ | hl)
    · exact .expands List.mem_cons_self he
    · exact .through List.mem_cons_self he hl
    · exact hl.cons

theorem leads_cons_of_expands {j : Slot} (h : f.Expands j) : t.Leads (f :: fs) k ↔
    (k = j ∨ t.Leads (t.describe j).fields k) ∨ t.Leads fs k := by
  rw [leads_cons_iff, h.exists_iff]

theorem leads_cons_of_not_expands (h : ∀ j, ¬f.Expands j) :
    t.Leads (f :: fs) k ↔ t.Leads fs k := by
  rw [leads_cons_iff]
  constructor
  · rintro (⟨j, hj, -⟩ | hl)
    · exact absurd hj (h j)
    · exact hl
  · exact .inr

theorem describe_of_forall {motive : Slot → Descriptor → Prop}
    (blank : ∀ k, motive k (.blank k)) (h : ∀ e ∈ t, motive e.1 e.2) (k : Slot) :
    motive k (t.describe k) := by
  unfold describe
  cases hk : t.lookup k with
  | none => exact blank k
  | some d =>
    obtain ⟨xs, ys, rfl, -⟩ := List.lookup_eq_some_iff.mp hk
    exact h (k, d) (by simp)

theorem walk_columns_congr (t : Catalog) (trail : List Slot) (fs : List Field) :
    ∀ (trail' : List Slot) (owner owner' : String),
      (∀ k, t.Leads fs k → (k ∈ trail ↔ k ∈ trail')) →
      (t.walk trail owner fs).columns = (t.walk trail' owner' fs).columns := by
  induction trail, fs using t.walk_induction with
  | nil trail =>
    intro trail' owner owner' _
    rw [walk_nil, walk_nil]
  | cons trail f fs hinner hrest =>
    intro trail' owner owner' h
    -- the records that became open on the way are the same in both trails
    have hgained : ∀ k, f.Expands k → t.gained trail k = t.gained trail' k := by
      intro k he
      have hk : k ∈ trail ↔ k ∈ trail' := h k (.expands List.mem_cons_self he)
      by_cases hm : k ∈ trail
      · rw [gained, gained, if_pos hm, if_pos (hk.mp hm)]
      · rw [gained, gained, if_neg hm, if_neg (mt hk.mpr hm)]
        apply hinner k he hm
        intro j hj
        rw [List.mem_cons, List.mem_cons, h j (.through List.mem_cons_self he hj)]
    have hfs := hrest trail' owner owner' fun k hk => h k hk.cons
    rw [columns_cons, columns_cons, entered_columns_eq, entered_columns_eq,
      Field.spread_congr hgained, hfs]

theorem walk_columns_sublist (t : Catalog) (trail : List Slot) (fs : List Field) :
    ∀ (trail' : List Slot) (owner owner' : String), trail ⊆ trail' →
      (t.walk trail' owner' fs).columns.Sublist (t.walk trail owner fs).columns := by
  induction trail, fs using t.walk_induction with
  | nil trail =>
    intro trail' owner owner' _
    simp only [walk_nil, List.Sublist.refl]
  | cons trail f fs hinner hrest =>
    intro trail' owner owner' h
    have hgained : ∀ k, f.Expands k → (t.gained trail' k).Sublist (t.gained trail k) := by
      intro k he
      by_cases hm : k ∈ trail'
      · rw [gained, if_pos hm]
        exact List.nil_sublist _
      · have hm' : k ∉ trail := fun hk => hm (h hk)
        rw [gained, gained, if_neg hm, if_neg hm']
        exact hinner k he hm' _ _ _ (List.cons_subset_cons k h)
    rw [columns_cons, columns_cons, entered_columns_eq, entered_columns_eq]
    exact (Field.spread_sublist hgained).append (hrest trail' owner owner' h)

theorem walk_columns_of_not_leads (hk : ¬t.Leads fs k)
    (ht : ∀ j, j ∈ trail' ↔ j = k ∨ j ∈ trail) (owner owner' : String) :
    (t.walk trail owner fs).columns = (t.walk trail' owner' fs).columns := by
  apply walk_columns_congr
  intro j hj
  have hne : j ≠ k := by
    rintro rfl
    exact hk hj
  rw [ht, or_iff_right hne]

theorem Leads.mem_of_expands {ks : List Slot} (h : t.Leads fs k)
    (hfs : ∀ f ∈ fs, ∀ j, f.Expands j → j ∈ ks)
    (hks : ∀ i ∈ ks, ∀ f ∈ (t.describe i).fields, ∀ j, f.Expands j → j ∈ ks) : k ∈ ks := by
  induction h with
  | expands hf he => exact hfs _ hf _ he
  | through hf he _ ih => exact ih (hks _ (hfs _ hf _ he))

theorem Leads.mem_of_closed {ks : List Slot} (h : t.Leads fs k)
    (hfs : ∀ f ∈ fs, ∀ j ∈ f.nested, j ∈ ks)
    (hks : ∀ i ∈ ks, ∀ f ∈ (t.describe i).fields, ∀ j ∈ f.nested, j ∈ ks) : k ∈ ks := by
  apply h.mem_of_expands
  · exact fun f hf j he => hfs f hf j he.2.1
  · exact fun i hi f hf j he => hks i hi f hf j he.2.1

end SelectList.Catalog
