import SelectList.Proofs.Recency.Sequence

namespace SelectList

namespace Chronicle

structure Served (n : Nat) (ms : Chronicle) : Prop where
  le : n ≤ (asks ms).length
  idle : (asks ms).length = n → Each Idle ms

variable {n : Nat} {ms : Chronicle} {m : Catalog × Moment} {k : Slot} {c : Cache}

theorem asks_append (ls ms : Chronicle) : asks (ls ++ ms) = asks ls ++ asks ms :=
  List.filterMap_append

theorem Served.append (h : Served n ms) (ls : Chronicle) : Served n (ls ++ ms) := by
  induction ls with
  | nil => exact h
  | cons l ls ih =>
    have hle := ih.le
    rw [List.cons_append]
    cases ha : l.2.event.asked? with
    | none =>
      refine ⟨?_, fun he => ⟨idle_of_none ha, ih.idle ?_⟩⟩
      · rwa [asks_cons_of_none ha]
      · rwa [asks_cons_of_none ha] at he
    | some k =>
      constructor
      · rw [asks_cons_of_some ha, List.length_cons]
        omega
      · intro he
        rw [asks_cons_of_some ha, List.length_cons] at he
        omega

theorem Served.ask (h : Served n ms) (hp : Pending [] ms c) (ha : m.2.event.asked? = some k) :
    Served (n + 1) (m :: ms) := by
  have hle := h.le
  constructor
  · rw [asks_cons_of_some ha, List.length_cons]
    omega
  · intro he
    rw [asks_cons_of_some ha, List.length_cons] at he
    have hi : Each Idle ms := h.idle (by omega)
    exact ⟨fun _ => congrArg List.length (hp hi).asks_eq, hi⟩

end Chronicle

namespace Projector

open Chronicle

variable {p q : Projector} {past : Chronicle} {n : Nat}

theorem Becomes.history_suffix (h : Becomes p q) : p.history <:+ q.history := by
  induction h with
  | refl => exact List.suffix_rfl
  | visit v _ ih => exact ih.trans (List.suffix_cons _ _)
  | spend k _ ih => exact ih
  | serve _ _ ih => exact ih.trans ((List.suffix_cons _ _).trans (List.suffix_cons _ _))
  | settle _ _ _ ih ihr =>
    rw [settle_history]
    have hr := ih.trans ((List.suffix_cons _ _).trans ihr)
    exact hr.trans (((List.suffix_cons _ _).trans (List.suffix_cons _ _)).trans
      (List.suffix_append _ _))

theorem fetchWith_history_suffix {again : Slot → Projector → Projector}
    (h : ∀ k p, Becomes p (again k p)) (k : Slot) (p : Projector) :
    (p.emit (.asked k)).history <:+ (fetchWith again k p).1.history := by
  unfold fetchWith
  dsimp only
  split
  · exact List.suffix_cons _ _
  · have hr := becomes_foldl (becomes_visit h) (p.emit (.asked k))
      (p.catalog.resolveRecord (some k)).visits
    rw [settle_history]
    exact hr.history_suffix.trans (((List.suffix_cons _ _).trans (List.suffix_cons _ _)).trans
      (List.suffix_append _ _))

theorem record_of_suffix (hc : q.catalog = p.catalog) (hs : p.history <:+ q.history)
    (past : Chronicle) : ∃ ls, q.record past = ls ++ p.record past := by
  obtain ⟨new, hn⟩ := hs
  refine ⟨new.map (q.catalog, ·), ?_⟩
  rw [record, record, ← hn, List.map_append, List.append_assoc, hc]

theorem served_fetch (h : Served n (p.record past)) (hp : Pending [] (p.record past) p.cache)
    (k : Slot) : Served (n + 1) ((p.fetch k).1.record past) := by
  have hc : (p.fetch k).1.catalog = (p.emit (.asked k)).catalog := (becomes_fetch p k).catalog_eq
  obtain ⟨ls, hl⟩ := record_of_suffix hc (fetchWith_history_suffix (becomes_again _) k p) past
  have ha : Served (n + 1) ((p.emit (.asked k)).record past) := h.ask hp rfl
  rw [hl]
  exact ha.append ls

theorem served_fetches (h : Served n (p.record past)) (hp : Pending [] (p.record past) p.cache)
    (js : List Slot) :
    Served (n + js.length) ((js.foldl (fun p k => (p.fetch k).1) p).record past) := by
  induction js generalizing p n with
  | nil => exact h
  | cons j js ih =>
    have hj := ih (served_fetch h hp j) (kept_pending [] (becomes_fetch p j) hp)
    rwa [Nat.add_assoc, Nat.add_comm 1] at hj

theorem served_step (h : Served n past) (hp : Pending [] past p.cache) (s : Step) :
    Served (n + s.requests.length) ((p.answer s).1.record past) := by
  have h0 : Served n ({ p with history := [] }.record past) := h
  cases s with
  | project view subject byValue =>
    change Served (n + subject.record?.toList.length)
      ((columns { p with history := [] } subject).1.record past)
    unfold columns
    cases subject.record? with
    | none => exact h0
    | some k => exact served_fetch h0 hp k
  | contains k => exact h
  | resolve record =>
    have hb := becomes_step { p with history := [] } (.resolve record)
    obtain ⟨ls, hl⟩ := record_of_suffix hb.catalog_eq hb.history_suffix past
    change Served n ((Projector.step { p with history := [] } (.resolve record)).1.record past)
    rw [hl]
    exact h0.append ls
  | define k d callbacks => exact h
  | sweep first last => exact served_fetches h0 hp _

theorem served_after (h : Served n past) (hp : Pending [] past p.cache) (ss : List Step) :
    Served (n + (ss.flatMap Step.requests).length) ((p.chronicle ss).reverse ++ past) := by
  induction ss generalizing p past n with
  | nil => exact h
  | cons s ss ih =>
    have hs := ih (served_step h hp s) (Kept.answer (kept_pending []) hp s)
    rw [chronicle_cons, List.reverse_append, List.reverse_reverse, List.append_assoc,
      List.flatMap_cons, List.length_append, ← Nat.add_assoc]
    simpa only [record, List.append_nil] using hs

theorem served_chronicle (p : Projector) (ss : List Step) :
    Served (ss.flatMap Step.requests).length (p.chronicle ss).reverse := by
  have h0 : Served 0 [] := ⟨Nat.zero_le _, fun _ => trivial⟩
  have hs := served_after h0 (pending_nil p.cache) ss
  rwa [Nat.zero_add, List.append_nil] at hs

/-- The projections that are made are those that the steps ask for: no callback makes any. -/
def Direct (p : Projector) (ss : List Step) : Prop :=
  asks (p.chronicle ss) = ss.flatMap Step.requests

instance (p : Projector) (ss : List Step) : Decidable (p.Direct ss) :=
  inferInstanceAs (Decidable (asks (p.chronicle ss) = ss.flatMap Step.requests))

theorem Direct.idle {ss : List Step} (h : p.Direct ss) : Each Idle (p.chronicle ss).reverse := by
  apply (served_chronicle p ss).idle
  rw [asks_reverse, List.length_reverse, show asks (p.chronicle ss) = _ from h]

theorem chronicle_append (p : Projector) (ss ts : List Step) :
    p.chronicle (ss ++ ts) = p.chronicle ss ++ (p.after ss).chronicle ts := by
  induction ss generalizing p with
  | nil => rfl
  | cons s ss ih =>
    rw [List.cons_append, chronicle_cons, chronicle_cons, ih, List.append_assoc]
    rfl

theorem Direct.append {ss ts : List Step} (h : p.Direct (ss ++ ts)) :
    p.Direct ss ∧ (p.after ss).Direct ts := by
  unfold Direct at h
  rw [chronicle_append, asks_append, List.flatMap_append] at h
  have hfront := (served_chronicle p ss).le
  have hback := (served_chronicle (p.after ss) ts).le
  rw [asks_reverse, List.length_reverse] at hfront hback
  have hlen := congrArg List.length h
  rw [List.length_append, List.length_append] at hlen
  exact List.append_inj h (by omega)

theorem Direct.take {ss : List Step} (h : p.Direct ss) (i : Nat) : p.Direct (ss.take i) := by
  rw [← List.take_append_drop i ss] at h
  exact h.append.1

theorem Direct.single {ss : List Step} {i : Nat} {s : Step} (h : p.Direct ss)
    (hs : ss[i]? = some s) : (p.after (ss.take i)).Direct [s] := by
  obtain ⟨hlt, rfl⟩ := List.getElem?_eq_some_iff.mp hs
  rw [← List.take_append_drop i ss, List.drop_eq_getElem_cons hlt] at h
  have hrest : (p.after (ss.take i)).Direct ([ss[i]] ++ ss.drop (i + 1)) := h.append.2
  exact hrest.append.1

end Projector

end SelectList
