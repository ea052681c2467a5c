import SelectList.Proofs.Cache
import SelectList.Proofs.Chronicle

namespace SelectList

namespace Event

def isMissOf (k : Slot) : Event → Bool
  | .resolved j _ => j == k
  | _ => false

def given? : Event → Option (Slot × List Column)
  | .resolved k cs | .hit k cs => some (k, cs)
  | _ => none

end Event

namespace Chronicle

def missedIn? (k : Slot) (ms : Chronicle) : Option Catalog :=
  (ms.find? (·.2.event.isMissOf k)).map (·.1)

def lastMiss? (k : Slot) (c : Chronicle) : Option Catalog := missedIn? k c.reverse

def Resolves (ms : Chronicle) (k : Slot) (cs : List Column) : Prop :=
  ∃ t, missedIn? k ms = some t ∧ cs = (t.resolveRecord (some k)).columns

def Truthful (m : Catalog × Moment) (ms : Chronicle) : Prop :=
  ∀ k cs, m.2.event.given? = some (k, cs) → Resolves (m :: ms) k cs

structure Fresh (ms : Chronicle) (c : Cache) : Prop where
  entries : ∀ e ∈ c.entries, Resolves ms e.key e.columns
  moments : Each Truthful ms

variable {ms : Chronicle} {m : Catalog × Moment} {k : Slot} {cs : List Column} {c d : Cache}
  {t : Catalog} {e : Entry}

theorem Resolves.cons (h : Resolves ms k cs) (hm : m.2.event.isMissOf k = false) :
    Resolves (m :: ms) k cs := by
  obtain ⟨t, ht, hcs⟩ := h
  exact ⟨t, by rwa [missedIn?, List.find?_cons_of_neg (by simp [hm])], hcs⟩

theorem resolves_resolved : Resolves ((t, ⟨.resolved k cs, c⟩) :: ms) k
    (t.resolveRecord (some k)).columns :=
  ⟨t, by simp [missedIn?, Event.isMissOf], rfl⟩

theorem Fresh.cons (h : Fresh ms c) (hm : ∀ k, m.2.event.isMissOf k = false)
    (hg : m.2.event.given? = none) : Fresh (m :: ms) c :=
  ⟨fun e he => (h.entries e he).cons (hm _), fun k cs hk => by simp [hg] at hk, h.moments⟩

theorem Fresh.serve (h : Fresh ms c) (hl : c.lookup k = some (e, d)) :
    Fresh ((t, ⟨.hit k e.columns, d⟩) :: (t, ⟨.asked k, c⟩) :: ms) d := by
  obtain ⟨he, rfl, rfl⟩ := Cache.eq_of_lookup hl
  have ha : Fresh ((t, ⟨.asked e.key, c⟩) :: ms) c := h.cons (fun _ => rfl) rfl
  refine ⟨fun e' he' => ?_, fun k cs hk => ?_, ha.moments⟩
  · rcases Cache.mem_toFront.mp he' with rfl | ⟨hm, -⟩
    · exact (ha.entries _ he).cons rfl
    · exact (ha.entries e' hm).cons rfl
  · obtain ⟨rfl, rfl⟩ : e.key = k ∧ e.columns = cs := by simpa [Event.given?] using hk
    exact (ha.entries e he).cons rfl

theorem Fresh.settle (h : Fresh ms c) (hcs : cs = (t.resolveRecord (some k)).columns) :
    Fresh ((t, ⟨.stored k, d⟩) :: (t, ⟨.resolved k cs, c⟩) :: ms)
      (c.store ⟨k, k.name, cs⟩).1 := by
  subst hcs
  refine ⟨fun e he => ?_, fun j cs hj => by simp [Event.given?] at hj, fun j cs hj => ?_, h.moments⟩
  · rcases Cache.mem_of_mem_store he with rfl | ⟨hm, hk⟩
    · exact resolves_resolved.cons rfl
    · have hne (cs : List Column) : (Event.resolved k cs).isMissOf e.key = false := by
        simpa [Event.isMissOf] using Ne.symm hk
      exact ((h.entries e hm).cons (hne _)).cons rfl
  · obtain ⟨rfl, rfl⟩ : k = j ∧ _ = cs := by simpa [Event.given?] using hj
    exact resolves_resolved

end Chronicle

namespace Projector

open Chronicle

theorem kept_fresh : Kept Fresh := by
  intro p q past h hp
  induction h with
  | refl => exact hp
  | visit v _ ih => exact (ih hp).cons (fun _ => rfl) rfl
  | spend k _ ih => exact ih hp
  | serve _ hl ih => exact (ih hp).serve hl
  | @settle p q r k _ hl _ ih ihr =>
    have hr := ihr ((ih hp).cons (fun _ => rfl) rfl)
    have hs := hr.settle (t := r.catalog) (k := k)
      (d := (r.settle k (r.catalog.resolveRecord (some k)).columns).cache) rfl
    rw [← settle_cache] at hs
    exact settle_record hs fun j name ms h => h.cons (fun _ => rfl) rfl

theorem fetch_mem_entries (p : Projector) (k : Slot) :
    ∃ e ∈ (p.fetch k).1.cache.entries, e.key = k ∧ e.columns = (p.fetch k).2 := by
  unfold fetch fetchWith
  dsimp only
  split
  · next e d hl =>
    obtain ⟨he, hk, rfl⟩ := Cache.eq_of_lookup hl
    exact ⟨e, Cache.mem_toFront.mpr (.inl rfl), hk, rfl⟩
  · dsimp only
    rw [settle_cache]
    exact ⟨_, Cache.mem_store_self, rfl, rfl⟩

theorem fresh_chronicle (capacity : Nat) (h : 0 < capacity)
    (records : List (Descriptor × List (List Slot))) (ss : List Step) :
    let p := start (.empty capacity h) records
    Fresh (p.chronicle ss).reverse (p.after ss).cache := by
  intro p
  have hp : Fresh [] p.cache := ⟨by simp [p, start, Cache.empty], trivial⟩
  simpa using kept_fresh.after hp ss

theorem output_project {p : Projector} {ss : List Step} {i : Nat} {view : View} {subject : Subject}
    {byValue : Bool} {k : Slot} (hs : ss[i]? = some (.project view subject byValue))
    (hk : subject.record? = some k) :
    ∃ a, (p.run ss)[i]? = some a ∧ ∃ e ∈ (p.after (ss.take (i + 1))).cache.entries,
      e.key = k ∧ a.output = view.render e.columns := by
  let q := { p.after (ss.take i) with history := [] }
  have hc : q.columns subject = q.fetch k := by
    rw [columns, hk]
  have hq : (p.after (ss.take (i + 1))) = (q.fetch k).1 := by
    rw [after_take_succ hs, ← hc]
    rfl
  obtain ⟨e, he, hke, hcs⟩ := fetch_mem_entries q k
  refine ⟨_, by rw [run_getElem?, hs]; rfl, e, hq ▸ he, hke, ?_⟩
  rw [hcs, ← hc]
  rfl

theorem lastMiss?_eq_of_not_redefined {p : Projector} {ss : List Step} {c : Chronicle} {k : Slot}
    {t : Catalog} (h : ∀ s ∈ ss, ∀ k d callbacks, s ≠ .define k d callbacks)
    (hc : c ⊆ p.chronicle ss) (ht : lastMiss? k c = some t) : t = p.catalog := by
  have hs : ∀ s ∈ ss, p.catalog.afterStep s = p.catalog := by
    intro s hs
    cases s with
    | define k d callbacks => exact absurd rfl (h _ hs k d callbacks)
    | _ => rfl
  simp only [lastMiss?, missedIn?, Option.map_eq_some_iff] at ht
  obtain ⟨m, hm, rfl⟩ := ht
  have hmem := List.mem_reverse.mp (List.mem_of_find?_eq_some hm)
  exact catalog_of_mem_ofRun hs m (hc hmem)

theorem project_eq_last_miss {capacity : Nat} {h : 0 < capacity}
    {records : List (Descriptor × List (List Slot))} {ss : List Step} {i : Nat} {view : View}
    {subject : Subject} {byValue : Bool} {k : Slot}
    (hs : ss[i]? = some (.project view subject byValue)) (hk : subject.record? = some k) :
    let p := start (.empty capacity h) records
    ∃ a t, (p.run ss)[i]? = some a ∧ lastMiss? k (p.chronicle (ss.take (i + 1))) = some t ∧
      a.output = view.render (t.resolveRecord (some k)).columns := by
  intro p
  obtain ⟨a, ha, e, he, rfl, ho⟩ := output_project (p := p) hs hk
  obtain ⟨t, ht, hcs⟩ := (fresh_chronicle capacity h records (ss.take (i + 1))).entries e he
  exact ⟨a, t, ha, ht, by rw [ho, hcs]⟩

theorem given_eq_last_miss {capacity : Nat} {h : 0 < capacity}
    {records : List (Descriptor × List (List Slot))} {ss : List Step} {past rest : Chronicle}
    {m : Catalog × Moment} {k : Slot} {cs : List Column}
    (hc : (start (.empty capacity h) records).chronicle ss = past ++ m :: rest)
    (hg : m.2.event.given? = some (k, cs)) :
    ∃ t, lastMiss? k (past ++ [m]) = some t ∧ cs = (t.resolveRecord (some k)).columns := by
  have hm := each_reverse_iff.mp (fresh_chronicle capacity h records ss).moments past m rest hc
  simpa [lastMiss?, Resolves] using hm k cs hg

/-- A projection gives what the uncached resolution gives with the catalog in force when the record
was last missed. This is so for the output of a step and, in the chronicle, for every projection
that a sweep or a callback makes. -/
theorem projections_transparent (capacity : Nat) (h : 0 < capacity)
    (records : List (Descriptor × List (List Slot))) (ss : List Step) :
    let p := start (.empty capacity h) records
    (∀ (i : Nat) (view : View) (subject : Subject) (byValue : Bool) (k : Slot),
      ss[i]? = some (.project view subject byValue) → subject.record? = some k →
      ∃ a t, (p.run ss)[i]? = some a ∧ lastMiss? k (p.chronicle (ss.take (i + 1))) = some t ∧
        a.output = view.render (t.resolveRecord (some k)).columns ∧
        ((∀ s ∈ ss, ∀ k d callbacks, s ≠ .define k d callbacks) → t = p.catalog)) ∧
    ∀ (past rest : Chronicle) (m : Catalog × Moment) (k : Slot) (cs : List Column),
      p.chronicle ss = past ++ m :: rest → m.2.event.given? = some (k, cs) →
      ∃ t, lastMiss? k (past ++ [m]) = some t ∧ cs = (t.resolveRecord (some k)).columns ∧
        ((∀ s ∈ ss, ∀ k d callbacks, s ≠ .define k d callbacks) → t = p.catalog) := by
  intro p
  constructor
  · intro i view subject byValue k hs hk
    obtain ⟨a, t, ha, ht, ho⟩ := project_eq_last_miss hs hk
    refine ⟨a, t, ha, ht, ho, fun hd => ?_⟩
    exact lastMiss?_eq_of_not_redefined (fun s hs => hd s (List.mem_of_mem_take hs))
      (List.Subset.refl _) ht
  · intro past rest m k cs hc hg
    obtain ⟨t, ht, hcs⟩ := given_eq_last_miss hc hg
    have hsub : past ++ [m] ⊆ p.chronicle ss := by
      rw [show p.chronicle ss = _ from hc]
      simp
    exact ⟨t, ht, hcs, fun hd => lastMiss?_eq_of_not_redefined hd hsub ht⟩

theorem projections_transparent_redefined :
    0 < 1 ∧ ∃ a, ((start (.empty 1 Nat.one_pos) [(⟨0, "R0", [.ofIdent "A"]⟩, [[0]])]).run
      [.project .expression (.record 0) false, .define 0 ⟨0, "R0", [.ofIdent "B"]⟩ [],
        .project .names (.record 0) true])[2]? = some a ∧ a.output = .list ["a"] := by
  refine ⟨Nat.one_pos, ?_⟩
  obtain ⟨a, t, ha, ht, ho, -⟩ := (projections_transparent 1 Nat.one_pos
    [(⟨0, "R0", [.ofIdent "A"]⟩, [[0]])] [.project .expression (.record 0) false,
      .define 0 ⟨0, "R0", [.ofIdent "B"]⟩ [], .project .names (.record 0) true]).1 2 .names
    (.record 0) true 0 rfl rfl
  have hm : t = .ofList [⟨0, "R0", [.ofIdent "A"]⟩] :=
    Option.some.inj (ht.symm.trans (by decide +kernel))
  exact ⟨a, ha, ho.trans (by rw [hm]; decide +kernel)⟩

end Projector

end SelectList
