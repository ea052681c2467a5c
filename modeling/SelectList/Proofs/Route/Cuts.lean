import SelectList.Projector
import SelectList.Proofs.Route.Columns
import SelectList.Proofs.Spread

namespace SelectList

namespace Route

def target? (r : Route) : Option Slot := r.getLast?.bind (·.2.nested)

def cutLine (t : Catalog) (owner : String) (r : Route) : String :=
  "[resolve] " ++ r.records.getLast?.elim owner (fun k => (t.describe k).typeName) ++ " nests " ++
    r.target?.elim "" Slot.name ++ " recursively, not expanding"

variable {t : Catalog} {owner : String} {i : Nat} {f : Field} {k : Slot} {r : Route}

theorem cutLine_singleton (hk : f.nested = some k) :
    cutLine t owner [(i, f)] =
      "[resolve] " ++ owner ++ " nests " ++ k.name ++ " recursively, not expanding" := by
  simp [cutLine, target?, records, hk]

theorem cutLine_cons (hr : r ≠ []) (hk : f.nested = some k) :
    cutLine t owner ((i, f) :: r) = cutLine t (t.describe k).typeName r := by
  have hrec : records ((i, f) :: r) = k :: records r := records_cons hr hk
  have htarget : target? ((i, f) :: r) = target? r := by
    rw [target?, List.getLast?_cons_of_ne_nil hr]
    rfl
  rw [cutLine, cutLine, hrec, htarget, List.getLast?_cons]
  cases r.records.getLast? <;> rfl

theorem cutLine_later (r : Route) : cutLine t owner r.later = cutLine t owner r := by
  match r with
  | [] => rfl
  | [(i, f)] => rfl
  | (i, f) :: g :: r => rfl

end Route

namespace Visit

theorem log_append (vs ws : List Visit) : log (vs ++ ws) = log vs ++ log ws := by
  simp [log, Event.log]

theorem log_opened (k : Slot) (vs : List Visit) : log (.opened k :: vs) = log vs := rfl

end Visit

namespace Catalog

/-- Every field is one that expands, and the records on the way are new until the last field leads
to one of them, or to one that was open before. -/
structure IsCut (t : Catalog) (trail : List Slot) (fs : List Field) (r : Route) : Prop where
  follows : t.Follows fs r
  expands : ∀ h ∈ r, ∃ k, h.2.Expands k
  nodup : r.records.Nodup
  fresh : ∀ k ∈ r.records, k ∉ trail
  closes : ∀ k ∈ r.target?, k ∈ r.records ++ trail

variable {t : Catalog} {trail : List Slot} {owner : String} {fs : List Field} {f : Field} {i : Nat}
  {k : Slot} {r : Route}

theorem isCut_last :
    t.IsCut trail fs [(i, f)] ↔ fs[i]? = some f ∧ ∃ k ∈ trail, f.Expands k := by
  constructor
  · rintro ⟨hf, he, -, -, hc⟩
    obtain ⟨k, he⟩ := he (i, f) (by simp)
    cases hf with
    | last hi => exact ⟨hi, k, by simpa [Route.records] using hc k he.2.1, he⟩
    | next _ _ hf => exact absurd rfl hf.ne_nil
  · rintro ⟨hi, k, hk, he⟩
    refine ⟨.last hi, by simpa using ⟨k, he⟩, by simp [Route.records], by simp [Route.records], ?_⟩
    simpa [Route.target?, Route.records, he.2.1] using hk

theorem isCut_next (hr : r ≠ []) :
    t.IsCut trail fs ((i, f) :: r) ↔ fs[i]? = some f ∧
      ∃ k, f.Expands k ∧ k ∉ trail ∧ t.IsCut (k :: trail) (t.describe k).fields r := by
  have htarget : Route.target? ((i, f) :: r) = r.target? := by
    rw [Route.target?, List.getLast?_cons_of_ne_nil hr]
    rfl
  constructor
  · rintro ⟨hf, he, hn, ht, hc⟩
    cases hf with
    | last hi => exact absurd rfl hr
    | @next _ _ _ k _ hi hk hf =>
      rw [Route.records_cons hr hk] at hn ht hc
      rw [htarget] at hc
      obtain ⟨⟨j, hj⟩, hes⟩ := List.forall_mem_cons.mp he
      obtain rfl : k = j := Option.some.inj (hk.symm.trans hj.2.1)
      obtain ⟨hkt, hn, ht⟩ := nodup_fresh_cons.mp ⟨hn, ht⟩
      exact ⟨hi, k, hj, hkt, hf, hes, hn, ht, fun j hj => List.perm_middle.mem_iff.mpr (hc j hj)⟩
  · rintro ⟨hi, k, he, hk, hf, hes, hn, ht, hc⟩
    obtain ⟨hn, ht⟩ := nodup_fresh_cons.mpr ⟨hk, hn, ht⟩
    have hrec : Route.records ((i, f) :: r) = k :: r.records := Route.records_cons hr he.2.1
    rw [← hrec] at hn ht
    refine ⟨.next hi he.2.1 hf, List.forall_mem_cons.mpr ⟨⟨k, he⟩, hes⟩, hn, ht, ?_⟩
    rw [hrec, htarget]
    exact fun j hj => List.perm_middle.mem_iff.mp (hc j hj)

theorem IsCut.ne_nil (h : t.IsCut trail fs r) : r ≠ [] := h.follows.ne_nil

theorem isCut_cons :
    t.IsCut trail fs ((i, f) :: r) ↔ fs[i]? = some f ∧ (r = [] ∧ (∃ k ∈ trail, f.Expands k) ∨
      ∃ k, f.Expands k ∧ k ∉ trail ∧ t.IsCut (k :: trail) (t.describe k).fields r) := by
  by_cases hr : r = []
  · subst hr
    rw [isCut_last]
    exact and_congr_right fun _ => ⟨fun h => .inl ⟨rfl, h⟩,
      fun h => h.elim And.right fun ⟨_, _, _, h⟩ => absurd rfl h.ne_nil⟩
  · simp [isCut_next hr, hr]

theorem visits_cons (t : Catalog) (trail : List Slot) (owner : String) (f : Field)
    (fs : List Field) : (t.walk trail owner (f :: fs)).visits =
      (t.entered trail owner f).visits ++ (t.walk trail owner fs).visits := by
  simp [walk_cons]

theorem entered_log_of_mem (he : f.Expands k) (hk : k ∈ trail) :
    Visit.log (t.entered trail owner f).visits =
      ["[resolve] " ++ owner ++ " nests " ++ k.name ++ " recursively, not expanding"] := by
  rw [entered_of_mem t owner he hk]
  rfl

theorem entered_log_of_not_mem (he : f.Expands k) (hk : k ∉ trail) :
    Visit.log (t.entered trail owner f).visits =
      Visit.log (t.walk (k :: trail) (t.describe k).typeName (t.describe k).fields).visits := by
  rw [entered_of_not_mem t owner he hk]
  rfl

theorem entered_log_of_not_expands (h : ∀ k, ¬f.Expands k) :
    Visit.log (t.entered trail owner f).visits = [] := by
  rw [entered_of_not_expands t trail owner h]
  rfl

theorem entered_log (owner : String)
    (h : ∀ k, f.Expands k → k ∉ trail → ∃ routes : List Route,
      (∀ r, r ∈ routes ↔ t.IsCut (k :: trail) (t.describe k).fields r) ∧
      routes.Pairwise Route.Before ∧
      Visit.log (t.walk (k :: trail) (t.describe k).typeName (t.describe k).fields).visits =
        routes.map (Route.cutLine t (t.describe k).typeName)) :
    ∃ routes : List Route,
      (∀ r, r ∈ routes ↔
        ∃ k, f.Expands k ∧ k ∉ trail ∧ t.IsCut (k :: trail) (t.describe k).fields r) ∧
      routes.Pairwise Route.Before ∧
      Visit.log (t.entered trail owner f).visits =
        routes.map (fun r => Route.cutLine t owner ((0, f) :: r)) ++
          if ∃ k ∈ trail, f.Expands k then [Route.cutLine t owner [(0, f)]] else [] := by
  by_cases he : ∃ k, f.Expands k
  · obtain ⟨k, he⟩ := he
    by_cases hk : k ∈ trail
    · refine ⟨[], fun r => ?_, .nil, ?_⟩
      · simp [he.exists_iff, hk]
      · have hown : ∃ k ∈ trail, f.Expands k := ⟨k, hk, he⟩
        rw [entered_log_of_mem he hk, if_pos hown, Route.cutLine_singleton he.2.1]
        rfl
    · obtain ⟨routes, hmem, hord, hlog⟩ := h k he hk
      refine ⟨routes, fun r => ?_, hord, ?_⟩
      · rw [hmem, he.exists_iff, and_iff_right hk]
      · have hown : ¬∃ k ∈ trail, f.Expands k := by
          rintro ⟨j, hm, hj⟩
          exact hk (he.unique hj ▸ hm)
        rw [entered_log_of_not_mem he hk, hlog, if_neg hown, List.append_nil]
        apply List.map_congr_left
        intro r hr
        exact (Route.cutLine_cons ((hmem r).mp hr).ne_nil he.2.1).symm
  · have hn := not_exists.mp he
    refine ⟨[], fun r => ?_, .nil, ?_⟩
    · simp only [List.not_mem_nil, false_iff]
      exact fun ⟨k, hk, _⟩ => hn k hk
    · have hown : ¬∃ k ∈ trail, f.Expands k := fun ⟨k, _, hk⟩ => hn k hk
      rw [entered_log_of_not_expands hn, if_neg hown]
      rfl

theorem walk_log (t : Catalog) (trail : List Slot) (fs : List Field) :
    ∀ owner, ∃ routes : List Route, (∀ r, r ∈ routes ↔ t.IsCut trail fs r) ∧
      routes.Pairwise Route.Before ∧
      Visit.log (t.walk trail owner fs).visits = routes.map (Route.cutLine t owner) := by
  induction trail, fs using t.walk_induction with
  | nil trail =>
    intro owner
    refine ⟨[], fun r => ?_, .nil, by rw [walk_nil]; rfl⟩
    simp only [List.not_mem_nil, false_iff]
    intro h
    obtain ⟨⟨i, f⟩, r, rfl⟩ := List.exists_cons_of_ne_nil h.ne_nil
    simp [isCut_cons] at h
  | cons trail f fs hinner hrest =>
    intro owner
    obtain ⟨inner, hi, hio, hil⟩ := entered_log owner fun k he hk => hinner k he hk _
    obtain ⟨rest, hr, hro, hrl⟩ := hrest owner
    refine ⟨_, mem_routes_cons (fun _ _ _ _ => isCut_cons) (fun _ h => h.ne_nil rfl) hi hr,
      ?_, ?_⟩
    · apply pairwise_routes_cons _ hio _ hro
      · intro r h
        obtain ⟨k, -, -, hr⟩ := (hi r).mp h
        exact hr.ne_nil
      · exact fun r h => ((hr r).mp h).ne_nil
    · rw [visits_cons, Visit.log_append, hil, hrl]
      simp only [List.map_append, List.map_map, Function.comp_def, Route.cutLine_later]
      split <;> rfl

end Catalog

end SelectList
