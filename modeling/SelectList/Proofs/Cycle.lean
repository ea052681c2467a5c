import SelectList.Proofs.Reach
import SelectList.Proofs.Route.Cuts

namespace SelectList.Catalog

/-- The expansion that enters every record, also one that it is inside of. It comes to columns only
if it ends. -/
inductive Unfolds (t : Catalog) : List Field → List RawColumn → Prop
  | nil : Unfolds t [] []
  | pass {f : Field} {fs : List Field} {cs : List RawColumn} : (∀ k, ¬f.Expands k) →
      Unfolds t fs cs → Unfolds t (f :: fs) ((if f.Shows then [f.column] else []) ++ cs)
  | enter {f : Field} {fs : List Field} {k : Slot} {inner cs : List RawColumn} : f.Expands k →
      Unfolds t (t.describe k).fields inner → Unfolds t fs cs →
      Unfolds t (f :: fs) (inner.map f.within ++ (if f.Shows then [f.column] else []) ++ cs)

variable {t : Catalog} {trail : List Slot} {owner : String} {fs : List Field} {f : Field} {k : Slot}
  {cs : List RawColumn}

theorem free_cons_iff {j : Slot} (he : f.Expands j) (hj : j ∉ trail) :
    (∀ k, t.Leads (f :: fs) k → k ∉ trail ∧ ¬t.Leads (t.describe k).fields k) ↔
      (∀ k, t.Leads (t.describe j).fields k →
        k ∉ j :: trail ∧ ¬t.Leads (t.describe k).fields k) ∧
      ∀ k, t.Leads fs k → k ∉ trail ∧ ¬t.Leads (t.describe k).fields k := by
  simp only [leads_cons_of_expands he, List.mem_cons, not_or]
  constructor
  · intro h
    have hloop : ¬t.Leads (t.describe j).fields j := (h j (.inl (.inl rfl))).2
    constructor
    · intro k hk
      obtain ⟨hm, hc⟩ := h k (.inl (.inr hk))
      exact ⟨⟨fun hkj => hloop (hkj ▸ hk), hm⟩, hc⟩
    · exact fun k hk => h k (.inr hk)
  · rintro ⟨hin, hfs⟩ k ((rfl | hk) | hk)
    · -- the record is open inside of itself, so that it is not met there again
      exact ⟨hj, fun hl => (hin k hl).1.1 rfl⟩
    · exact ⟨(hin k hk).1.2, (hin k hk).2⟩
    · exact hfs k hk

theorem walk_log_eq_nil_iff (t : Catalog) (trail : List Slot) (fs : List Field) :
    ∀ owner, Visit.log (t.walk trail owner fs).visits = [] ↔
      ∀ k, t.Leads fs k → k ∉ trail ∧ ¬t.Leads (t.describe k).fields k := by
  induction trail, fs using t.walk_induction with
  | nil trail =>
    intro owner
    rw [walk_nil]
    exact iff_of_true rfl fun k h => absurd h not_leads_nil
  | cons trail f fs hinner hrest =>
    intro owner
    rw [visits_cons, Visit.log_append, List.append_eq_nil_iff, hrest owner]
    by_cases he : ∃ j, f.Expands j
    · obtain ⟨j, he⟩ := he
      by_cases hj : j ∈ trail
      · rw [entered_log_of_mem he hj]
        constructor
        · rintro ⟨h, -⟩
          simp at h
        · intro h
          exact absurd hj (h j (.expands List.mem_cons_self he)).1
      · rw [entered_log_of_not_mem he hj, hinner j he hj, free_cons_iff he hj]
    · have hn := not_exists.mp he
      simp only [entered_log_of_not_expands hn, leads_cons_of_not_expands hn, true_and]

theorem Unfolds.acyclic (h : t.Unfolds fs cs) :
    ∀ k, t.Leads fs k → ¬t.Leads (t.describe k).fields k := by
  induction h with
  | nil =>
    exact fun k hk => absurd hk not_leads_nil
  | pass hn _ ih =>
    intro k hk
    exact ih k ((leads_cons_of_not_expands hn).mp hk)
  | enter he _ _ ihi ih =>
    intro k hk
    rcases (leads_cons_of_expands he).mp hk with (rfl | hl) | hl
    · exact fun hl => ihi _ hl hl
    · exact ihi k hl
    · exact ih k hl

theorem Unfolds.eq_walk_columns (h : t.Unfolds fs cs) :
    ∀ trail owner, (∀ k, t.Leads fs k → k ∉ trail) → cs = (t.walk trail owner fs).columns := by
  induction h with
  | nil =>
    intro trail owner _
    rw [walk_nil]
  | pass hn _ ih =>
    intro trail owner ht
    rw [columns_cons, entered_of_not_expands t trail owner hn,
      ← ih trail owner fun k hk => ht k hk.cons]
    rfl
  | @enter f fs k inner cs he hi _ ihi ih =>
    intro trail owner ht
    have hk : k ∉ trail := ht k (.expands List.mem_cons_self he)
    have hinner : inner =
        (t.walk (k :: trail) (t.describe k).typeName (t.describe k).fields).columns := by
      apply ihi
      intro j hj hm
      rcases List.mem_cons.mp hm with rfl | hm
      · exact hi.acyclic j hj hj
      · exact ht j (.through List.mem_cons_self he hj) hm
    rw [columns_cons, entered_of_not_mem t owner he hk, hinner,
      ih trail owner fun k hk => ht k hk.cons]

theorem unfolds_of_log_eq_nil (t : Catalog) (trail : List Slot) (fs : List Field) :
    ∀ owner, Visit.log (t.walk trail owner fs).visits = [] →
      t.Unfolds fs (t.walk trail owner fs).columns := by
  induction trail, fs using t.walk_induction with
  | nil trail =>
    intro owner _
    rw [walk_nil]
    exact .nil
  | cons trail f fs hinner hrest =>
    intro owner h
    rw [visits_cons, Visit.log_append, List.append_eq_nil_iff] at h
    obtain ⟨hin, hfs⟩ := h
    have hfs' := hrest owner hfs
    rw [columns_cons]
    by_cases he : ∃ k, f.Expands k
    · obtain ⟨k, he⟩ := he
      by_cases hk : k ∈ trail
      · rw [entered_log_of_mem he hk] at hin
        simp at hin
      · rw [entered_log_of_not_mem he hk] at hin
        rw [entered_of_not_mem t owner he hk]
        exact .enter he (hinner k he hk _ hin) hfs'
    · have hn := not_exists.mp he
      rw [entered_of_not_expands t trail owner hn]
      exact .pass hn hfs'

theorem resolveRecord_log (hid : (t.describe k).id = k) :
    Visit.log (t.resolveRecord (some k)).visits =
      Visit.log (t.walk [k] (t.describe k).typeName (t.describe k).fields).visits := by
  rw [resolveRecord, Visit.log_opened]
  simp only [resolve, collect, hid]

theorem resolveRecord_log_eq_nil_iff (hid : (t.describe k).id = k) :
    Visit.log (t.resolveRecord (some k)).visits = [] ↔
      ¬∃ j, (j = k ∨ t.Leads (t.describe k).fields j) ∧ t.Leads (t.describe j).fields j := by
  rw [resolveRecord_log hid, walk_log_eq_nil_iff]
  constructor
  · rintro h ⟨j, rfl | hl, hc⟩
    · exact (h j hc).1 List.mem_cons_self
    · exact (h j hl).2 hc
  · intro h j hj
    refine ⟨fun hm => ?_, fun hc => h ⟨j, .inr hj, hc⟩⟩
    obtain rfl := List.mem_singleton.mp hm
    exact h ⟨j, .inl rfl, hj⟩

theorem unfolds_iff (hid : (t.describe k).id = k) :
    t.Unfolds (t.describe k).fields cs ↔
      Visit.log (t.resolveRecord (some k)).visits = [] ∧
        cs = (t.collect (t.describe k)).columns := by
  constructor
  · intro h
    have hc : ¬t.Leads (t.describe k).fields k := fun hl => h.acyclic k hl hl
    constructor
    · rw [resolveRecord_log_eq_nil_iff hid]
      rintro ⟨j, rfl | hl, hj⟩
      · exact hc hj
      · exact h.acyclic j hl hj
    · rw [collect, hid]
      apply h.eq_walk_columns
      intro j hj hm
      obtain rfl := List.mem_singleton.mp hm
      exact hc hj
  · rintro ⟨hlog, rfl⟩
    rw [resolveRecord_log hid] at hlog
    rw [collect, hid]
    exact unfolds_of_log_eq_nil t [k] _ _ hlog

/-- There is one line for each route that runs into its own way, in the order of the walk, hence a
line if and only if a cycle can be reached. Without one the columns are those of the expansion that
cuts nothing, which does not end otherwise. -/
theorem recursion_cut_on_cycles (t : Catalog) (a : Slot) (hid : (t.describe a).id = a) :
    let fields := (t.describe a).fields
    let log := Visit.log (t.resolveRecord (some a)).visits
    (∃ routes : List Route, (∀ r, r ∈ routes ↔ t.IsCut [a] fields r) ∧ routes.Nodup ∧
      routes.Pairwise Route.Before ∧ log = routes.map (Route.cutLine t (t.describe a).typeName)) ∧
    (log ≠ [] ↔ ∃ k, (k = a ∨ t.Leads fields k) ∧ t.Leads (t.describe k).fields k) ∧
    (∀ cs, t.Unfolds fields cs ↔ log = [] ∧ cs = (t.collect (t.describe a)).columns) := by
  intro fields log
  refine ⟨?_, ?_, fun cs => unfolds_iff hid⟩
  · obtain ⟨routes, hmem, hord, hlog⟩ := walk_log t [a] fields (t.describe a).typeName
    have hne : ∀ r s : Route, r.Before s → r ≠ s := by
      rintro r _ h rfl
      exact Route.Before.irrefl r h
    exact ⟨routes, hmem, hord.imp (hne _ _), hord, (resolveRecord_log hid).trans hlog⟩
  · rw [ne_eq, resolveRecord_log_eq_nil_iff hid, not_not]

theorem recursion_cut_on_cycles_twice :
    let named (n : String) : Field := (Field.ofIdent "").withTag n
    let t : Catalog := .ofList [
      ⟨0, "R0", [(named "a").leadingTo (some 1), (named "b").leadingTo (some 1)]⟩,
      ⟨1, "S", [(Field.ofIdent "").embedding (some 2)]⟩,
      ⟨2, "T", [(named "c").leadingTo (some 1)]⟩]
    (t.describe 0).id = 0 ∧
    Visit.log (t.resolveRecord (some 0)).visits =
      ["[resolve] T nests R1 recursively, not expanding",
        "[resolve] T nests R1 recursively, not expanding"] ∧
    (∃ k, (k = 0 ∨ t.Leads (t.describe 0).fields k) ∧ t.Leads (t.describe k).fields k) ∧
    ∀ cs, ¬t.Unfolds (t.describe 0).fields cs := by
  intro named t
  obtain ⟨-, hcycle, hunfolds⟩ := recursion_cut_on_cycles t 0 rfl
  have hlog : Visit.log (t.resolveRecord (some 0)).visits =
      ["[resolve] T nests R1 recursively, not expanding",
        "[resolve] T nests R1 recursively, not expanding"] := by decide +kernel
  have hne : Visit.log (t.resolveRecord (some 0)).visits ≠ [] := by simp [hlog]
  refine ⟨rfl, hlog, hcycle.mp hne, fun cs h => ?_⟩
  exact hne ((hunfolds cs).mp h).1

end SelectList.Catalog
