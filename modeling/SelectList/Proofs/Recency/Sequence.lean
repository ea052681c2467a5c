import SelectList.Proofs.Recency

namespace SelectList

def Event.asked? : Event → Option Slot
  | .asked k => some k
  | _ => none

namespace Chronicle

def asks (ms : Chronicle) : List Slot := ms.filterMap (·.2.event.asked?)

def Idle (m : Catalog × Moment) (ms : Chronicle) : Prop :=
  m.2.event.asked?.isSome → (asks ms).length = (uses ms).length

/-- No projection begins while another one is being made. -/
def Unnested (c : Chronicle) : Prop :=
  ∀ past m rest, c = past ++ m :: rest → Idle m past

structure Matched (pending : List Slot) (ms : Chronicle) : Prop where
  asks_eq : asks ms = pending ++ uses ms
  pending_le : pending.length ≤ 1
  moments : Each (fun m ms => m.2.event.asked?.isSome → asks ms = uses ms) ms

def Pending (pending : List Slot) (ms : Chronicle) (_ : Cache) : Prop :=
  Each Idle ms → Matched pending ms

variable {ms : Chronicle} {m : Catalog × Moment} {k : Slot} {ks : List Slot}

theorem asks_reverse (ms : Chronicle) : asks ms.reverse = (asks ms).reverse :=
  List.filterMap_reverse

theorem asks_cons_of_none (h : m.2.event.asked? = none) : asks (m :: ms) = asks ms := by
  simp [asks, h]

theorem asks_cons_of_some (h : m.2.event.asked? = some k) : asks (m :: ms) = k :: asks ms := by
  simp [asks, h]

theorem idle_of_none (h : m.2.event.asked? = none) : Idle m ms := by
  simp [Idle, h]

theorem pending_nil (c : Cache) : Pending [] [] c :=
  fun _ => ⟨rfl, Nat.zero_le 1, trivial⟩

theorem Matched.cons (h : Matched ks ms) (ha : m.2.event.asked? = none)
    (hu : m.2.event.used? = none) : Matched ks (m :: ms) := by
  refine ⟨?_, h.pending_le, by simp [ha], h.moments⟩
  rw [asks_cons_of_none ha, uses_cons_of_none hu, h.asks_eq]

theorem Matched.ask (h : Matched ks ms) (hi : Idle m ms) (ha : m.2.event.asked? = some k)
    (hu : m.2.event.used? = none) : Matched (k :: ks) (m :: ms) := by
  have hlen := hi (by simp [ha])
  rw [h.asks_eq, List.length_append] at hlen
  obtain rfl : ks = [] := List.eq_nil_of_length_eq_zero (by omega)
  refine ⟨?_, Nat.le_refl 1, fun _ => h.asks_eq, h.moments⟩
  rw [asks_cons_of_some ha, uses_cons_of_none hu, h.asks_eq]
  rfl

theorem Matched.use (h : Matched (k :: ks) ms) (ha : m.2.event.asked? = none)
    (hu : m.2.event.used? = some k) : Matched ks (m :: ms) := by
  have hle : ks.length + 1 ≤ 1 := h.pending_le
  obtain rfl : ks = [] := List.eq_nil_of_length_eq_zero (by omega)
  refine ⟨?_, Nat.zero_le 1, by simp [ha], h.moments⟩
  rw [asks_cons_of_none ha, uses_cons_of_some hu, h.asks_eq]
  rfl

theorem Pending.ask {c d : Cache} (h : Pending ks ms c) (ha : m.2.event.asked? = some k)
    (hu : m.2.event.used? = none) : Pending (k :: ks) (m :: ms) d :=
  fun hi => (h hi.2).ask hi.1 ha hu

end Chronicle

def Step.requests : Step → List Slot
  | .project _ subject _ => subject.record?.toList
  | .sweep first last => List.range' first (last - first)
  | _ => []

def Step.Quiet (s : Step) : Prop :=
  ∀ k d callbacks, s = .define k d callbacks → callbacks = []

namespace Projector

open Chronicle

theorem kept_pending (ks : List Slot) : Kept (Pending ks) := by
  intro p q past h hp
  induction h generalizing ks with
  | refl => exact hp
  | visit v _ ih => exact fun hi => (ih ks hp hi.2).cons rfl rfl
  | spend k _ ih => exact ih ks hp
  | serve _ hl ih => exact fun hi => ((ih ks hp hi.2.2).ask hi.2.1 rfl rfl).use rfl rfl
  | @settle p q r k _ hl _ ih ihr =>
    have hr := ihr (k :: ks) ((ih ks hp).ask rfl rfl)
    refine settle_record (fun hi => ?_) fun j name ms h hi => (h hi.2).cons rfl rfl
    exact ((hr hi.2.2).cons rfl rfl).use rfl rfl

structure Calm (ks : List Slot) (p : Projector) (past : Chronicle) : Prop where
  callbacks : p.callbacks = []
  idle : Each Idle (p.record past)
  asks : asks (p.record past) = ks

section Calm

variable {p : Projector} {past : Chronicle} {ks : List Slot} {k : Slot}

theorem Calm.emit {e : Event} (h : Calm ks p past) (he : e.asked? = none) :
    Calm ks (p.emit e) past :=
  ⟨h.callbacks, ⟨idle_of_none he, h.idle⟩, (asks_cons_of_none he).trans h.asks⟩

theorem Calm.ask (h : Calm ks p past) (hp : Pending [] (p.record past) p.cache) :
    Calm (k :: ks) (p.emit (.asked k)) past := by
  refine ⟨h.callbacks, ⟨fun _ => ?_, h.idle⟩, congrArg (k :: ·) h.asks⟩
  exact congrArg List.length (hp h.idle).asks_eq

theorem Calm.settle {cs : List Column} (h : Calm ks p past) : Calm ks (p.settle k cs) past := by
  have hr : Calm ks (p.emit (.resolved k cs)) past := h.emit rfl
  unfold Projector.settle store
  dsimp only
  split
  · exact ⟨hr.callbacks, ⟨idle_of_none rfl, hr.idle⟩, hr.asks⟩
  · exact ⟨hr.callbacks, ⟨idle_of_none rfl, idle_of_none rfl, hr.idle⟩, hr.asks⟩

theorem Calm.visits {again : Slot → Projector → Projector} (h : Calm ks p past) (vs : List Visit) :
    Calm ks (vs.foldl (visit again) p) past := by
  induction vs generalizing p with
  | nil => exact h
  | cons v vs ih =>
    apply ih
    have hv : Calm ks (p.emit (.visit v)) past := h.emit rfl
    cases v with
    | cut owner k => exact hv
    | opened k =>
      have hn : (p.emit (.visit (.opened k))).next k = [] := by
        rw [next, hv.callbacks]
        rfl
      have hs : (p.emit (.visit (.opened k))).spend k = p.emit (.visit (.opened k)) := by
        rw [spend, hv.callbacks, List.eraseP_nil, ← hv.callbacks]
      simpa only [visit, hn, hs, List.foldl_nil] using hv

theorem Calm.fetch (h : Calm ks p past) (hp : Pending [] (p.record past) p.cache) (k : Slot) :
    Calm (k :: ks) (p.fetch k).1 past := by
  have ha : Calm (k :: ks) (p.emit (.asked k)) past := h.ask hp
  unfold Projector.fetch fetchWith
  dsimp only
  split
  · exact ⟨ha.callbacks, ⟨idle_of_none rfl, ha.idle⟩, ha.asks⟩
  · exact (ha.visits _).settle

theorem Calm.fetches (h : Calm ks p past) (hp : Pending [] (p.record past) p.cache)
    (js : List Slot) : Calm (js.reverse ++ ks) (js.foldl (fun p k => (p.fetch k).1) p) past := by
  induction js generalizing p ks with
  | nil => exact h
  | cons j js ih =>
    rw [List.reverse_cons, List.append_assoc]
    exact ih (h.fetch hp j) (kept_pending [] (becomes_fetch p j) hp)

theorem Calm.step {past : Chronicle} {p : Projector} (h : Calm ks { p with history := [] } past)
    (hp : Pending [] past p.cache) {s : Step} (hs : s.Quiet) :
    Calm (s.requests.reverse ++ ks) (p.answer s).1 past := by
  cases s with
  | project view subject byValue =>
    change Calm (subject.record?.toList.reverse ++ ks)
      (columns { p with history := [] } subject).1 past
    unfold columns
    cases subject.record? with
    | none => exact h
    | some k => exact h.fetch hp k
  | contains k => exact h
  | resolve record => exact h.visits _
  | define k d callbacks =>
    obtain rfl := hs k d callbacks rfl
    have hc : p.callbacks = [] := h.callbacks
    exact ⟨by simp [Projector.answer, Projector.step, define, hc], h.idle, h.asks⟩
  | sweep first last => exact h.fetches hp _

theorem Calm.after {past : Chronicle} {p : Projector} (h : Calm ks { p with history := [] } past)
    (hp : Pending [] past p.cache) {ss : List Step} (hs : ∀ s ∈ ss, s.Quiet) :
    Calm ((ss.flatMap Step.requests).reverse ++ ks) { p.after ss with history := [] }
      ((p.chronicle ss).reverse ++ past) := by
  induction ss generalizing p past ks with
  | nil => exact h
  | cons s ss ih =>
    obtain ⟨hq, hs⟩ := List.forall_mem_cons.mp hs
    have ha : Calm (s.requests.reverse ++ ks) (p.answer s).1 past := h.step hp hq
    have hb : Calm (s.requests.reverse ++ ks) { (p.answer s).1 with history := [] }
        ((p.answer s).1.record past) := ⟨ha.callbacks, ha.idle, ha.asks⟩
    have hi := ih hb (Kept.answer (kept_pending []) hp s) hs
    change Calm _ { (p.answer s).1.after ss with history := [] } _
    rw [chronicle_cons, List.reverse_append, List.reverse_reverse, List.append_assoc,
      List.flatMap_cons, List.reverse_append, List.append_assoc]
    simpa only [record, List.append_nil] using hi

end Calm

theorem start_callbacks {cache : Cache} {records : List (Descriptor × List (List Slot))}
    (h : ∀ r ∈ records, r.2 = []) : (start cache records).callbacks = [] := by
  apply List.flatMap_eq_nil_iff.mpr
  rintro ⟨r, k⟩ hr
  change r.2.map (k, ·) = []
  rw [h r (List.fst_mem_of_mem_zipIdx hr), List.map_nil]

end Projector

end SelectList
