import Mathlib.Data.List.Induction
import SelectList.Proofs.Projector

/-!
The chronicle of a run: everything that happened in its steps, with the catalog in force. What
visits and projections keep true of the chronicle and the cache is true after every run.
-/

namespace SelectList

def Catalog.afterStep (t : Catalog) : Step → Catalog
  | .define k d _ => t.define k d
  | _ => t

abbrev Chronicle := List (Catalog × Moment)

namespace Chronicle

def ofRun (t : Catalog) : List Step → List Answer → Chronicle
  | s :: ss, a :: as => a.history.map (t.afterStep s, ·) ++ ofRun (t.afterStep s) ss as
  | _, _ => []

/-- Of a chronicle read backwards: each moment stands so to those before it. -/
def Each (P : Catalog × Moment → Chronicle → Prop) : Chronicle → Prop
  | [] => True
  | m :: ms => P m ms ∧ Each P ms

theorem Each.of_append {P : Catalog × Moment → Chronicle → Prop} {m : Catalog × Moment}
    {ls ms : Chronicle} (h : Each P (ls ++ m :: ms)) : P m ms := by
  induction ls with
  | nil => exact h.1
  | cons l ls ih => exact ih h.2

theorem each_reverse_iff {P : Catalog × Moment → Chronicle → Prop} {c : Chronicle} :
    Each P c.reverse ↔ ∀ past m rest, c = past ++ m :: rest → P m past.reverse := by
  constructor
  · rintro h past m rest rfl
    rw [List.reverse_append, List.reverse_cons, List.append_assoc] at h
    exact h.of_append
  · intro h
    induction c using List.reverseRecOn with
    | nil => trivial
    | append_singleton c m ih =>
      rw [List.reverse_append]
      refine ⟨h c m [] rfl, ih fun past l rest hc => h past l (rest ++ [m]) ?_⟩
      rw [hc, List.append_assoc, List.cons_append]

theorem catalog_of_mem_ofRun {t : Catalog} {ss : List Step} {as : List Answer}
    (h : ∀ s ∈ ss, t.afterStep s = t) : ∀ m ∈ ofRun t ss as, m.1 = t := by
  induction ss generalizing as with
  | nil => simp [ofRun]
  | cons s ss ih =>
    obtain ⟨hs, h⟩ := List.forall_mem_cons.mp h
    cases as with
    | nil => simp [ofRun]
    | cons a as =>
      intro m hm
      rw [ofRun, hs] at hm
      rcases List.mem_append.mp hm with hm | hm
      · obtain ⟨_, -, rfl⟩ := List.mem_map.mp hm
        rfl
      · exact ih h m hm

end Chronicle

namespace Projector

def after (p : Projector) (ss : List Step) : Projector :=
  ss.foldl (fun p s => (p.answer s).1) p

theorem run_getElem? (p : Projector) (ss : List Step) (i : Nat) :
    (p.run ss)[i]? = ss[i]?.map fun s => ((p.after (ss.take i)).answer s).2 := by
  induction ss generalizing p i with
  | nil => rfl
  | cons s ss ih =>
    cases i with
    | zero => rfl
    | succ i => exact ih _ i

theorem after_take_succ {p : Projector} {ss : List Step} {i : Nat} {s : Step}
    (hs : ss[i]? = some s) : p.after (ss.take (i + 1)) = ((p.after (ss.take i)).answer s).1 := by
  rw [List.take_add_one, hs, after, List.foldl_append]
  rfl

theorem run_cache {p : Projector} {ss : List Step} {i : Nat} {a : Answer}
    (ha : (p.run ss)[i]? = some a) : a.cache = (p.after (ss.take (i + 1))).cache := by
  rw [run_getElem?, Option.map_eq_some_iff] at ha
  obtain ⟨s, hs, rfl⟩ := ha
  rw [after_take_succ hs]
  rfl

theorem run_stats {p : Projector} {ss : List Step} {i : Nat} {a : Answer}
    (ha : (p.run ss)[i]? = some a) : a.stats = (p.after (ss.take (i + 1))).stats := by
  rw [run_getElem?, Option.map_eq_some_iff] at ha
  obtain ⟨s, hs, rfl⟩ := ha
  rw [after_take_succ hs]
  rfl

def record (p : Projector) (past : Chronicle) : Chronicle :=
  p.history.map (p.catalog, ·) ++ past

theorem record_settle_of_none {p : Projector} {k : Slot} {cs : List Column} {past : Chronicle}
    (h : (p.cache.store ⟨k, k.name, cs⟩).2 = none) :
    (p.settle k cs).record past = (p.catalog, ⟨.stored k, (p.settle k cs).cache⟩) ::
      (p.catalog, ⟨.resolved k cs, p.cache⟩) :: p.record past := by
  rw [record, settle_history, settle_catalog, h]
  rfl

theorem record_settle_of_some {p : Projector} {k : Slot} {cs : List Column} {past : Chronicle}
    {old : Entry} (h : (p.cache.store ⟨k, k.name, cs⟩).2 = some old) :
    (p.settle k cs).record past =
      (p.catalog, ⟨.evicted old.key old.name, (p.settle k cs).cache⟩) ::
        (p.catalog, ⟨.stored k, (p.settle k cs).cache⟩) ::
        (p.catalog, ⟨.resolved k cs, p.cache⟩) :: p.record past := by
  rw [record, settle_history, settle_catalog, h]
  rfl

theorem settle_record {J : Chronicle → Cache → Prop} {p : Projector} {k : Slot}
    {cs : List Column} {past : Chronicle}
    (hs : J ((p.catalog, ⟨.stored k, (p.settle k cs).cache⟩) ::
      (p.catalog, ⟨.resolved k cs, p.cache⟩) :: p.record past) (p.settle k cs).cache)
    (he : ∀ (j : Slot) (name : String) (ms : Chronicle), J ms (p.settle k cs).cache →
      J ((p.catalog, ⟨.evicted j name, (p.settle k cs).cache⟩) :: ms) (p.settle k cs).cache) :
    J ((p.settle k cs).record past) (p.settle k cs).cache := by
  cases ho : (p.cache.store ⟨k, k.name, cs⟩).2 with
  | none =>
    rw [record_settle_of_none ho]
    exact hs
  | some old =>
    rw [record_settle_of_some ho]
    exact he old.key old.name _ hs

def KeptWith (J : Chronicle → Cache → Stats → Prop) : Prop :=
  ∀ {p q : Projector} {past : Chronicle}, Becomes p q → J (p.record past) p.cache p.stats →
    J (q.record past) q.cache q.stats

/-- What visits and projections keep true. -/
def Kept (J : Chronicle → Cache → Prop) : Prop :=
  ∀ {p q : Projector} {past : Chronicle}, Becomes p q → J (p.record past) p.cache →
    J (q.record past) q.cache

theorem KeptWith.answer {J : Chronicle → Cache → Stats → Prop} (hJ : KeptWith J) {p : Projector}
    {past : Chronicle} (h : J past p.cache p.stats) (s : Step) :
    J ((p.answer s).1.record past) (p.answer s).1.cache (p.answer s).1.stats := by
  apply hJ (becomes_step { p with history := [] } s)
  cases s <;> exact h

theorem Kept.answer {J : Chronicle → Cache → Prop} (hJ : Kept J) {p : Projector} {past : Chronicle}
    (h : J past p.cache) (s : Step) :
    J ((p.answer s).1.record past) (p.answer s).1.cache :=
  KeptWith.answer (J := fun ms c _ => J ms c) hJ h s

theorem answer_catalog (p : Projector) (s : Step) :
    (p.answer s).1.catalog = p.catalog.afterStep s := by
  have h := (becomes_step { p with history := [] } s).catalog_eq
  cases s <;> exact h

def chronicle (p : Projector) (ss : List Step) : Chronicle := .ofRun p.catalog ss (p.run ss)

theorem chronicle_cons (p : Projector) (s : Step) (ss : List Step) :
    p.chronicle (s :: ss) =
      ((p.answer s).1.record []).reverse ++ (p.answer s).1.chronicle ss := by
  have ha : (p.answer s).2.history = (p.answer s).1.history.reverse := rfl
  rw [chronicle, run, Chronicle.ofRun, ha, chronicle, record, answer_catalog, List.append_nil,
    List.map_reverse]

theorem KeptWith.after {J : Chronicle → Cache → Stats → Prop} (hJ : KeptWith J) {p : Projector}
    {past : Chronicle} (h : J past p.cache p.stats) (ss : List Step) :
    J ((p.chronicle ss).reverse ++ past) (p.after ss).cache (p.after ss).stats := by
  induction ss generalizing p past with
  | nil => exact h
  | cons s ss ih =>
    have hs := ih (hJ.answer h s)
    change J _ ((p.answer s).1.after ss).cache ((p.answer s).1.after ss).stats
    rw [chronicle_cons, List.reverse_append, List.reverse_reverse, List.append_assoc]
    simpa only [record, List.append_nil] using hs

theorem Kept.after {J : Chronicle → Cache → Prop} (hJ : Kept J) {p : Projector} {past : Chronicle}
    (h : J past p.cache) (ss : List Step) :
    J ((p.chronicle ss).reverse ++ past) (p.after ss).cache :=
  KeptWith.after (J := fun ms c _ => J ms c) hJ h ss

end Projector

end SelectList
