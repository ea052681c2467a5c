import SelectList.Proofs.Recency.Sequence

namespace SelectList

def Event.isHitOf (k : Slot) : Event → Bool
  | .hit j _ => j == k
  | _ => false

namespace Chronicle

def Decided (m : Catalog × Moment) (ms : Chronicle) : Prop :=
  ∀ l ∈ ms.head?, ∀ k, l.2.event.asked? = some k →
    (m.2.event.isHitOf k ↔ k ∈ l.2.cache.keys)

structure Answered (ms : Chronicle) (_ : Cache) : Prop where
  moments : Each Decided ms
  last : ∀ l ∈ ms.head?, ∀ k, l.2.event.asked? = some k → k ∉ l.2.cache.keys

variable {ms : Chronicle} {m : Catalog × Moment} {k : Slot} {c d : Cache} {t : Catalog}

theorem Answered.decided (h : Answered ms c) (hm : ∀ k, m.2.event.isHitOf k = false) :
    Decided m ms := by
  intro l hl k hk
  constructor
  · intro hh
    exact absurd hh (by simp [hm k])
  · intro hh
    exact absurd hh (h.last l hl k hk)

theorem Answered.cons (h : Answered ms c) (hm : ∀ k, m.2.event.isHitOf k = false)
    (ha : m.2.event.asked? = none) : Answered (m :: ms) d := by
  refine ⟨⟨h.decided hm, h.moments⟩, fun l hl k hk => ?_⟩
  obtain rfl : m = l := by simpa using hl
  simp [ha] at hk

theorem Answered.ask (h : Answered ms c) (hk : k ∉ c.keys) :
    Answered ((t, ⟨.asked k, c⟩) :: ms) c := by
  refine ⟨⟨h.decided fun _ => rfl, h.moments⟩, fun l hl j hj => ?_⟩
  obtain rfl : (t, ⟨.asked k, c⟩) = l := by simpa using hl
  obtain rfl : k = j := by simpa [Event.asked?] using hj
  exact hk

theorem Answered.serve {e : Entry} (h : Answered ms c) (hl : c.lookup k = some (e, d)) :
    Answered ((t, ⟨.hit k e.columns, d⟩) :: (t, ⟨.asked k, c⟩) :: ms) d := by
  refine ⟨⟨?_, h.decided fun _ => rfl, h.moments⟩, by simp [Event.asked?]⟩
  rintro l hm j hj
  obtain rfl : (t, ⟨.asked k, c⟩) = l := by simpa using hm
  obtain rfl : k = j := by simpa [Event.asked?] using hj
  simpa [Event.isHitOf] using Cache.mem_keys_of_lookup hl

end Chronicle

namespace Projector

open Chronicle

theorem kept_answered : Kept Answered := by
  intro p q past h hp
  induction h with
  | refl => exact hp
  | visit v _ ih => exact (ih hp).cons (fun _ => rfl) rfl
  | spend k _ ih => exact ih hp
  | serve _ hl ih => exact (ih hp).serve hl
  | @settle p q r k _ hl _ ih ihr =>
    have hr := ihr ((ih hp).ask (Cache.lookup_eq_none_iff.mp hl))
    have hs (cs : List Column) :
        Answered ((r.catalog, ⟨.resolved k cs, r.cache⟩) :: r.record past) r.cache :=
      hr.cons (fun _ => rfl) rfl
    refine settle_record ?_ fun j name ms h => h.cons (fun _ => rfl) rfl
    exact (hs _).cons (fun _ => rfl) rfl

variable {capacity : Nat} {h : 0 < capacity} {records : List (Descriptor × List (List Slot))}
  {ss : List Step}

theorem keys_at {past rest : Chronicle} {m : Catalog × Moment}
    (hc : (start (.empty capacity h) records).chronicle ss = past ++ m :: rest) :
    m.2.cache.keys = (uses (past ++ [m])).reverse.eraseDups.take capacity ∧
      m.2.cache.size = min capacity (stores (past ++ [m])).toFinset.card := by
  have hm := each_reverse_iff.mp (recent_chronicle capacity h records ss).moments past m rest hc
  rw [← List.reverse_concat] at hm
  exact hm.of_reverse

theorem unnested_iff {c : Chronicle} : Unnested c ↔ Each Idle c.reverse := by
  rw [each_reverse_iff]
  simp only [Unnested, Idle, asks_reverse, uses_reverse, List.length_reverse]

theorem asks_eq_uses {past rest : Chronicle} {m : Catalog × Moment} {k : Slot}
    (hs : Unnested ((start (.empty capacity h) records).chronicle ss))
    (hc : (start (.empty capacity h) records).chronicle ss = past ++ m :: rest)
    (hm : m.2.event = .asked k) : asks past = uses past := by
  have hk := Kept.after (kept_pending []) (pending_nil (.empty capacity h)) ss
    (p := start (.empty capacity h) records)
  rw [List.append_nil] at hk
  have hj := each_reverse_iff.mp (hk (unnested_iff.mp hs)).moments past m rest hc
  simpa [asks_reverse, uses_reverse, hm, Event.asked?] using hj

theorem hit_iff_mem_keys {past rest : Chronicle} {m : Catalog × Moment} {k : Slot}
    (hc : (start (.empty capacity h) records).chronicle ss = past ++ m :: rest)
    (hm : m.2.event = .asked k) :
    (∃ l ∈ rest.head?, l.2.event.isHitOf k) ↔ k ∈ m.2.cache.keys := by
  let p := start (.empty capacity h) records
  have hp : Answered [] p.cache := ⟨trivial, by simp⟩
  have ha := Kept.after kept_answered hp ss
  rw [List.append_nil, show p.chronicle ss = _ from hc] at ha
  cases rest with
  | nil =>
    have hk : k ∉ m.2.cache.keys := ha.last m (by simp) k (by simp [hm, Event.asked?])
    simp [hk]
  | cons l rest =>
    have hd := each_reverse_iff.mp ha.moments (past ++ [m]) l rest (by simp)
    simpa using hd m (by simp) k (by simp [hm, Event.asked?])

theorem hit_iff_asked_recently {past rest : Chronicle} {m : Catalog × Moment} {k : Slot}
    (hs : Unnested ((start (.empty capacity h) records).chronicle ss))
    (hc : (start (.empty capacity h) records).chronicle ss = past ++ m :: rest)
    (hm : m.2.event = .asked k) :
    (∃ l ∈ rest.head?, l.2.event.isHitOf k) ↔
      ∃ xs ys, asks past = xs ++ k :: ys ∧ k ∉ ys ∧ ys.toFinset.card < capacity := by
  have hu : uses (past ++ [m]) = asks past := by
    simp [asks_eq_uses hs hc hm, uses, hm, Event.used?]
  rw [hit_iff_mem_keys hc hm, (keys_at hc).1, hu, mem_take_eraseDups]
  constructor
  · rintro ⟨ys, xs, ha, hy, hn⟩
    refine ⟨xs.reverse, ys.reverse, ?_, by simpa using hy, by simpa using hn⟩
    rw [← List.reverse_reverse (asks past), ha]
    simp
  · rintro ⟨xs, ys, ha, hy, hn⟩
    refine ⟨ys.reverse, xs.reverse, ?_, by simpa using hy, by simpa using hn⟩
    rw [ha]
    simp

theorem unnested_of_quiet (hr : ∀ r ∈ records, r.2 = []) (hs : ∀ s ∈ ss, s.Quiet) :
    let c := (start (.empty capacity h) records).chronicle ss
    Unnested c ∧ asks c = ss.flatMap Step.requests := by
  intro c
  let p := start (.empty capacity h) records
  have h0 : Calm [] { p with history := [] } [] := ⟨start_callbacks hr, trivial, rfl⟩
  obtain ⟨-, hi, ha⟩ := h0.after (pending_nil p.cache) hs
  have hc (q : Projector) : { q with history := [] }.record (c.reverse ++ []) = c.reverse :=
    List.append_nil _
  rw [hc] at hi ha
  rw [asks_reverse, List.append_nil] at ha
  exact ⟨unnested_iff.mpr hi, List.reverse_injective ha⟩

/-- The cache keeps the records that were used last, after every step and at every moment in one.
Its size counts the records that were ever stored. Where no projection is made inside another one,
the uses are the projections, and so these decide about hits. -/
theorem keys_least_recently_used (capacity : Nat) (h : 0 < capacity)
    (records : List (Descriptor × List (List Slot))) (ss : List Step) :
    let p := start (.empty capacity h) records
    let c := p.chronicle ss
    (∀ i a, (p.run ss)[i]? = some a →
      let past := p.chronicle (ss.take (i + 1))
      a.cache.keys = (uses past).reverse.eraseDups.take capacity ∧
        a.cache.size = min capacity (stores past).toFinset.card) ∧
    (∀ past m rest, c = past ++ m :: rest →
      m.2.cache.keys = (uses (past ++ [m])).reverse.eraseDups.take capacity ∧
        m.2.cache.size = min capacity (stores (past ++ [m])).toFinset.card) ∧
    (Unnested c → ∀ past m rest k, c = past ++ m :: rest → m.2.event = .asked k →
      ((∃ l ∈ rest.head?, l.2.event.isHitOf k) ↔
        ∃ xs ys, asks past = xs ++ k :: ys ∧ k ∉ ys ∧ ys.toFinset.card < capacity)) ∧
    ((∀ r ∈ records, r.2 = []) → (∀ s ∈ ss, s.Quiet) →
      Unnested c ∧ asks c = ss.flatMap Step.requests) := by
  intro p c
  refine ⟨?_, ?_, ?_, unnested_of_quiet⟩
  · intro i a ha past
    rw [run_cache ha]
    have hr := recent_chronicle capacity h records (ss.take (i + 1))
    exact hr.latest.of_reverse
  · intro past m rest hc
    exact keys_at hc
  · intro hs past m rest k hc hm
    exact hit_iff_asked_recently hs hc hm

theorem keys_least_recently_used_again :
    let p := start (.empty 2 Nat.two_pos) [(⟨0, "R0", [.ofIdent "A"]⟩, []), (⟨1, "R1", []⟩, [])]
    let ss := [.project .names (.record 0) false, .sweep 1 2, .project .expression (.record 0) true]
    0 < 2 ∧ ∃ a, (p.run ss)[2]? = some a ∧ a.cache.keys = [0, 1] ∧
      ∃ past m rest, p.chronicle ss = past ++ m :: rest ∧ m.2.event = .asked 0 ∧
        ∃ l ∈ rest.head?, l.2.event.isHitOf 0 := by
  intro p ss
  obtain ⟨hrun, -, hhit, hq⟩ := keys_least_recently_used 2 Nat.two_pos
    [(⟨0, "R0", [.ofIdent "A"]⟩, []), (⟨1, "R1", []⟩, [])] ss
  obtain ⟨hs, -⟩ := hq (by simp) (by simp [ss, Step.Quiet])
  have hlen : 8 < (p.chronicle ss).length := by decide +kernel
  have hc : p.chronicle ss = (p.chronicle ss).take 8 ++ (p.chronicle ss).drop 8 :=
    (List.take_append_drop 8 _).symm
  rw [List.drop_eq_getElem_cons hlen] at hc
  have hm : (p.chronicle ss)[8]?.map (·.2.event) = some (.asked 0) := by decide +kernel
  rw [List.getElem?_eq_getElem hlen, Option.map_some, Option.some.injEq] at hm
  have ha : asks ((p.chronicle ss).take 8) = [0, 1] := by decide +kernel
  have hk := (hhit hs _ _ _ 0 hc hm).mpr ⟨[], [1], ha, by decide, by decide⟩
  have hlast : 2 < (p.run ss).length := by decide +kernel
  refine ⟨Nat.two_pos, (p.run ss)[2], List.getElem?_eq_getElem _, ?_, _, _, _, hc, hm, hk⟩
  rw [(hrun 2 _ (List.getElem?_eq_getElem _)).1]
  decide +kernel

end Projector

end SelectList
