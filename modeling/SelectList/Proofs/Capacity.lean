import SelectList.Proofs.Accounts.Run
import SelectList.Proofs.Recency.Direct

namespace SelectList

namespace Chronicle

/-- How many projections find their record among the `n` records that were used last. The
projections are read backwards. -/
def found (n : Nat) : List Slot → Nat
  | [] => 0
  | k :: ks => found n ks + if k ∈ ks.eraseDups.take n then 1 else 0

theorem found_mono {n m : Nat} (h : n ≤ m) (ks : List Slot) : found n ks ≤ found m ks := by
  induction ks with
  | nil => exact Nat.le_refl _
  | cons k ks ih =>
    have hmem : k ∈ ks.eraseDups.take n → k ∈ ks.eraseDups.take m := by
      intro hk
      exact (List.take_prefix_take_left h).subset hk
    rw [found, found]
    by_cases hk : k ∈ ks.eraseDups.take n
    · rw [if_pos hk, if_pos (hmem hk)]
      omega
    · rw [if_neg hk]
      omega

def driven (n : Nat) (ks : List Slot) : Nat :=
  ks.length - found n ks - (ks.eraseDups.take n).length

theorem driven_anti {n m : Nat} (h : n ≤ m) (ks : List Slot) : driven m ks ≤ driven n ks := by
  have hfound : found n ks ≤ found m ks := found_mono h ks
  have hkept : (ks.eraseDups.take n).length ≤ (ks.eraseDups.take m).length :=
    (List.take_prefix_take_left h).length_le
  rw [driven, driven]
  omega

def expected (n : Nat) (ks : List Slot) : Stats :=
  ⟨min (found n ks) Stats.maxCount, min (ks.length - found n ks) Stats.maxCount,
    driven n ks % UInt64.size⟩

theorem expected_mono {n m : Nat} (h : n ≤ m) (ks : List Slot) :
    (expected n ks).hits ≤ (expected m ks).hits ∧
      (expected m ks).misses ≤ (expected n ks).misses := by
  have hfound : found n ks ≤ found m ks := found_mono h ks
  simp only [expected]
  omega

theorem expected_evictions_anti {n m : Nat} (h : n ≤ m) {ks : List Slot}
    (hn : driven n ks < UInt64.size) : (expected m ks).evictions ≤ (expected n ks).evictions := by
  have hle : driven m ks ≤ driven n ks := driven_anti h ks
  rw [expected, expected, Nat.mod_eq_of_lt hn, Nat.mod_eq_of_lt (Nat.lt_of_le_of_lt hle hn)]
  exact hle

def Hits (n : Nat) (ms : Chronicle) : Prop :=
  Each Idle ms → times Event.isHit ms = found n (uses ms)

variable {n : Nat} {ms : Chronicle} {m : Catalog × Moment} {k : Slot} {c : Cache}

theorem Hits.cons (h : Hits n ms) (hu : m.2.event.used? = none) : Hits n (m :: ms) := by
  intro hi
  have hh : m.2.event.isHit = false := by
    cases hm : m.2.event with
    | hit k cs => simp [hm, Event.used?] at hu
    | _ => rfl
  rw [times_cons, hh, uses_cons_of_none hu, h hi.2]
  rfl

theorem Hits.use (h : Hits n ms) (hu : m.2.event.used? = some k)
    (hh : Each Idle ms → (m.2.event.isHit = true ↔ k ∈ (uses ms).eraseDups.take n)) :
    Hits n (m :: ms) := by
  intro hi
  rw [times_cons, uses_cons_of_some hu, found, h hi.2]
  simp only [hh hi.2]

end Chronicle

namespace Projector

open Chronicle

theorem kept_hits (n : Nat) (ks : List Slot) :
    Kept fun ms c => (Recent n ms c ∧ Pending ks ms c ∧ Clean ks ms c) ∧ Hits n ms := by
  intro p q past h hp
  refine ⟨⟨kept_recent n h hp.1.1, kept_clean ks h hp.1.2⟩, ?_⟩
  induction h generalizing ks with
  | refl => exact hp.2
  | visit v _ ih => exact (ih ks hp).cons rfl
  | spend k _ ih => exact ih ks hp
  | @serve p q k e cache hq hl ih =>
    have hr : Recent n (q.record past) q.cache := kept_recent n hq hp.1.1
    have ha : Hits n ((q.emit (.asked k)).record past) := (ih ks hp).cons rfl
    refine ha.use rfl fun _ => iff_of_true rfl ?_
    change k ∈ (uses (q.record past)).eraseDups.take n
    rw [← hr.latest.keys]
    exact Cache.mem_keys_of_lookup hl
  | @settle p q r k hq hl hr ih ihr =>
    have hq1 : Recent n (q.record past) q.cache := kept_recent n hq hp.1.1
    obtain ⟨hpend, hclean⟩ := kept_clean ks hq hp.1.2
    have hask : Pending (k :: ks) ((q.emit (.asked k)).record past) q.cache := hpend.ask rfl rfl
    have hclean' : Clean (k :: ks) ((q.emit (.asked k)).record past) q.cache :=
      hclean.ask hask (Cache.lookup_eq_none_iff.mp hl)
    have hr1 : Recent n (r.record past) r.cache := kept_recent n hr (hq1.cons rfl rfl)
    have hr2 : Clean (k :: ks) (r.record past) r.cache := (kept_clean _ hr ⟨hask, hclean'⟩).2
    have hh : Hits n (r.record past) :=
      ihr (k :: ks) ⟨⟨hq1.cons rfl rfl, hask, hclean'⟩, (ih ks hp).cons rfl⟩
    apply settle_record (J := fun ms _ => Hits n ms)
    · apply (hh.cons rfl).use rfl
      intro hi
      -- the record was not cached at the store, as nothing was projected since the question
      have hk : k ∉ r.cache.keys := (hr2 hi.2).1 k List.mem_cons_self
      rw [hr1.latest.keys] at hk
      exact iff_of_false (by simp [Event.isHit]) hk
    · exact fun j name ms h => h.cons rfl

variable {capacity : Nat} {h : 0 < capacity} {records : List (Descriptor × List (List Slot))}
  {ss : List Step}

theorem hits_of_direct (hd : (start (.empty capacity h) records).Direct ss) :
    let c := (start (.empty capacity h) records).chronicle ss
    uses c = ss.flatMap Step.requests ∧
      times Event.isHit c = found capacity (ss.flatMap Step.requests).reverse := by
  intro c
  let p := start (.empty capacity h) records
  have hp : (Recent capacity [] p.cache ∧ Pending [] [] p.cache ∧ Clean [] [] p.cache) ∧
      Hits capacity [] := by
    refine ⟨⟨?_, pending_nil _, fun _ => ⟨by simp, rfl⟩⟩, fun _ => rfl⟩
    exact recent_chronicle capacity h records []
  have hk := Kept.after (J := fun ms c => (Recent capacity ms c ∧ Pending [] ms c ∧ Clean [] ms c) ∧
    Hits capacity ms) (kept_hits capacity []) hp ss
  rw [List.append_nil] at hk
  obtain ⟨⟨-, hpend, -⟩, hh⟩ := hk
  have ha : asks c = ss.flatMap Step.requests := hd
  have hu : asks c.reverse = uses c.reverse := (hpend hd.idle).asks_eq
  constructor
  · rw [asks_reverse, uses_reverse, ha] at hu
    exact (List.reverse_injective hu).symm
  · rw [← times_reverse, hh hd.idle, ← hu, asks_reverse, ha]

theorem after_direct (hd : (start (.empty capacity h) records).Direct ss) :
    let p := start (.empty capacity h) records
    let ks := (ss.flatMap Step.requests).reverse
    (p.after ss).cache.keys = ks.eraseDups.take capacity ∧
      times Event.isEviction (p.chronicle ss) = driven capacity ks ∧
      (p.after ss).stats = expected capacity ks := by
  intro p ks
  let q := p.after ss
  obtain ⟨huses, hhits⟩ : uses (p.chronicle ss) = ss.flatMap Step.requests ∧
    times Event.isHit (p.chronicle ss) = found capacity ks := hits_of_direct hd
  have ho := orderly_chronicle capacity h records ss
  have hkeys : q.cache.keys = ks.eraseDups.take capacity := by
    rw [ho.recent.latest.keys, uses_reverse, huses]
  have hp : Chronicle.Balanced 0 [] := rfl
  have hb : Chronicle.Balanced 0 ((p.chronicle ss).reverse ++ []) :=
    Kept.after (J := fun ms _ => Chronicle.Balanced 0 ms) (kept_balanced 0) hp ss
  have hmiss : times Event.isMiss (p.chronicle ss) = ks.length - found capacity ks := by
    have ha : asks (p.chronicle ss) = ss.flatMap Step.requests := hd
    have hl : ks.length = (ss.flatMap Step.requests).length := List.length_reverse
    rw [List.append_nil, Chronicle.Balanced, asks_reverse, ha, times_reverse, times_reverse,
      List.length_reverse] at hb
    omega
  have hev : times Event.isMiss (p.chronicle ss) = times Event.isEviction (p.chronicle ss) +
      (ks.eraseDups.take capacity).length := by
    have hc := ho.conserved
    rw [times_reverse, times_reverse, List.reverse_reverse,
      overwrites_of_unnested capacity h records ss (unnested_iff.mpr hd.idle),
      Cache.size_eq_length_keys] at hc
    rw [← hkeys]
    exact hc
  have hdriven : times Event.isEviction (p.chronicle ss) = driven capacity ks := by
    rw [driven, ← hmiss, hev, Nat.add_sub_cancel]
  have ha : Accounted capacity (p.chronicle ss) q.cache q.stats :=
    after_accounted capacity h records ss
  refine ⟨hkeys, hdriven, ?_⟩
  rw [ha.stats_eq, expected, hhits, hmiss, hdriven]

/-- After every step a larger cache holds the records that a smaller one holds, and others that were
used before them; it has found no fewer, and resolved and driven out no more. The counter of what
was driven out shows it until it begins anew. -/
theorem larger_cache_no_worse (n m : Nat) (hn : 0 < n) (hnm : n ≤ m)
    (records : List (Descriptor × List (List Slot))) (ss : List Step) :
    let p := start (.empty n hn) records
    let q := start (.empty m (Nat.lt_of_lt_of_le hn hnm)) records
    (p.Direct ss → q.Direct ss → ∀ (i : Nat) (a b : Answer),
      (p.run ss)[i]? = some a → (q.run ss)[i]? = some b →
      a.cache.keys <+: b.cache.keys ∧ a.cache.size ≤ b.cache.size ∧
      a.stats.hits ≤ b.stats.hits ∧ b.stats.misses ≤ a.stats.misses ∧
      times Event.isEviction (q.chronicle (ss.take (i + 1))) ≤
        times Event.isEviction (p.chronicle (ss.take (i + 1))) ∧
      (times Event.isEviction (p.chronicle (ss.take (i + 1))) < UInt64.size →
        b.stats.evictions ≤ a.stats.evictions)) ∧
    ((∀ r ∈ records, r.2 = []) → (∀ s ∈ ss, s.Quiet) → p.Direct ss ∧ q.Direct ss) := by
  intro p q
  refine ⟨fun hp hq i a b ha hb => ?_, fun hr hs => ?_⟩
  · rw [run_cache ha, run_stats ha, run_cache hb, run_stats hb]
    obtain ⟨hkp, hep, hsp⟩ := after_direct (hp.take (i + 1))
    obtain ⟨hkq, heq, hsq⟩ := after_direct (hq.take (i + 1))
    have hkeys : (p.after (ss.take (i + 1))).cache.keys <+:
        (q.after (ss.take (i + 1))).cache.keys := by
      rw [hkp, hkq]
      exact List.take_prefix_take_left hnm
    obtain ⟨hhits, hmisses⟩ := expected_mono hnm ((ss.take (i + 1)).flatMap Step.requests).reverse
    refine ⟨hkeys, ?_, ?_, ?_, ?_, ?_⟩
    · rw [Cache.size_eq_length_keys, Cache.size_eq_length_keys]
      exact hkeys.length_le
    · rw [hsp, hsq]
      exact hhits
    · rw [hsp, hsq]
      exact hmisses
    · rw [hep, heq]
      exact driven_anti hnm _
    · intro hbound
      rw [hep] at hbound
      rw [hsp, hsq]
      exact expected_evictions_anti hnm hbound
  · exact ⟨(unnested_of_quiet hr hs).2, (unnested_of_quiet hr hs).2⟩

theorem larger_cache_no_worse_by_one :
    let records : List (Descriptor × List (List Slot)) :=
      [(⟨0, "R0", [.ofIdent "A"]⟩, []), (⟨1, "R1", []⟩, []), (⟨2, "R2", []⟩, [[0]])]
    let p := start (.empty 1 Nat.one_pos) records
    let q := start (.empty 2 Nat.two_pos) records
    let ss : List Step := [.project .names (.record 0) false, .project .expression (.record 1) true,
      .contains 0, .project .names (.record 0) true]
    0 < 1 ∧ 1 ≤ 2 ∧ p.Direct ss ∧ q.Direct ss ∧
    ∃ a b : Answer, (p.run ss)[3]? = some a ∧ (q.run ss)[3]? = some b ∧
      a.cache.keys <+: b.cache.keys ∧ a.cache.keys = [0] ∧ b.cache.keys = [0, 1] ∧
      b.stats.misses ≤ a.stats.misses ∧ b.stats.evictions ≤ a.stats.evictions ∧
      a.stats = ⟨0, 3, 2⟩ ∧ b.stats = ⟨1, 2, 0⟩ := by
  intro records p q ss
  have hp : p.Direct ss := by decide +kernel
  have hq : q.Direct ss := by decide +kernel
  have hbound : times Event.isEviction (p.chronicle (ss.take 4)) < UInt64.size := by
    decide +kernel
  obtain ⟨a, ha⟩ : ∃ a, (p.run ss)[3]? = some a := ⟨_, rfl⟩
  obtain ⟨b, hb⟩ : ∃ b, (q.run ss)[3]? = some b := ⟨_, rfl⟩
  obtain ⟨hkeys, -, -, hmisses, -, hevictions⟩ :=
    (larger_cache_no_worse 1 2 Nat.one_pos (by decide) records ss).1 hp hq 3 a b ha hb
  have hpa : (p.run ss)[3]?.map (fun a => (a.cache.keys, a.stats)) = some ([0], ⟨0, 3, 2⟩) := by
    decide +kernel
  have hqb : (q.run ss)[3]?.map (fun b => (b.cache.keys, b.stats)) =
      some ([0, 1], ⟨1, 2, 0⟩) := by
    decide +kernel
  rw [ha, Option.map_some, Option.some.injEq, Prod.mk.injEq] at hpa
  rw [hb, Option.map_some, Option.some.injEq, Prod.mk.injEq] at hqb
  exact ⟨Nat.one_pos, by decide, hp, hq, a, b, ha, hb, hkeys, hpa.1, hqb.1, hmisses,
    hevictions hbound, hpa.2, hqb.2⟩

end Projector

end SelectList
