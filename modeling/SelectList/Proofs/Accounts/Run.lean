import SelectList.Proofs.Accounts.Departures
import SelectList.Proofs.Recency.Hits

namespace SelectList

namespace Chronicle

def Clean (waiting : List Slot) (ms : Chronicle) (c : Cache) : Prop :=
  Each Idle ms → (∀ k ∈ waiting, k ∉ c.keys) ∧ overwrites ms.reverse = 0

variable {ms : Chronicle} {m : Catalog × Moment} {k : Slot} {ks : List Slot} {c d : Cache}
  {t : Catalog} {cs : List Column}

theorem Matched.eq_nil (h : Matched (k :: ks) ms) : ks = [] := by
  have hle : ks.length + 1 ≤ 1 := h.pending_le
  exact List.eq_nil_of_length_eq_zero (by omega)

theorem Clean.cons (h : Clean ks ms c) (hm : m.2.event.stored? = none) : Clean ks (m :: ms) c := by
  intro hi
  rw [overwrites_of_none ms hm]
  exact h hi.2

theorem Clean.ask (h : Clean ks ms c) (hp : Pending (k :: ks) ((t, ⟨.asked k, d⟩) :: ms) c)
    (hk : k ∉ c.keys) : Clean (k :: ks) ((t, ⟨.asked k, d⟩) :: ms) c := by
  intro hi
  obtain rfl : ks = [] := (hp hi).eq_nil
  rw [overwrites_of_none ms rfl]
  exact ⟨by simpa using hk, (h hi.2).2⟩

theorem Clean.serve (h : Clean ks ms c) (hp : Pending (k :: ks) ((t, ⟨.asked k, c⟩) :: ms) c) :
    Clean ks ((t, ⟨.hit k cs, d⟩) :: (t, ⟨.asked k, c⟩) :: ms) d := by
  intro hi
  obtain rfl : ks = [] := (hp hi.2).eq_nil
  rw [overwrites_of_none _ rfl, overwrites_of_none _ rfl]
  exact ⟨by simp, (h hi.2.2).2⟩

theorem Clean.settle (h : Clean (k :: ks) ms c) (hp : Pending (k :: ks) ms c) :
    Clean ks ((t, ⟨.stored k, d⟩) :: (t, ⟨.resolved k cs, c⟩) :: ms) d := by
  intro hi
  obtain rfl : ks = [] := (hp hi.2.2).eq_nil
  obtain ⟨hk, ho⟩ := h hi.2.2
  have hnew : k ∉ c.keys := hk k (by simp)
  rw [overwrites_stored _ rfl, overwrites_of_none _ rfl, if_neg hnew]
  exact ⟨by simp, ho⟩

structure Accounted (capacity : Nat) (past : Chronicle) (c : Cache) (s : Stats) : Prop where
  capacity_eq : c.capacity = capacity
  size_le : c.size ≤ capacity
  keys_nodup : c.keys.Nodup
  named : ∀ e ∈ c.entries, e.name = e.key.name
  current : ∀ m ∈ past.getLast?, m.2.cache = c
  stats_eq : s = ⟨min (times Event.isHit past) Stats.maxCount,
    min (times Event.isMiss past) Stats.maxCount, times Event.isEviction past % UInt64.size⟩

end Chronicle

namespace Projector

open Chronicle

theorem kept_clean (ks : List Slot) : Kept fun ms c => Pending ks ms c ∧ Clean ks ms c := by
  intro p q past h hp
  refine ⟨kept_pending ks h hp.1, ?_⟩
  induction h generalizing ks with
  | refl => exact hp.2
  | visit v _ ih => exact (ih ks hp).cons rfl
  | spend k _ ih => exact ih ks hp
  | @serve p q k e cache hq hl ih =>
    have hpend : Pending ks (q.record past) q.cache := kept_pending ks hq hp.1
    exact (ih ks hp).serve (hpend.ask rfl rfl)
  | @settle p q r k hq hl hr ih ihr =>
    have hpend : Pending ks (q.record past) q.cache := kept_pending ks hq hp.1
    have hask : Pending (k :: ks) ((q.emit (.asked k)).record past) q.cache :=
      hpend.ask rfl rfl
    have hclean : Clean (k :: ks) (r.record past) r.cache :=
      ihr (k :: ks) ⟨hask, (ih ks hp).ask hask (Cache.lookup_eq_none_iff.mp hl)⟩
    exact settle_record (hclean.settle (kept_pending (k :: ks) hr hask))
      fun j name ms h => h.cons rfl

variable {capacity : Nat} {h : 0 < capacity} {records : List (Descriptor × List (List Slot))}
  {ss : List Step}

theorem after_accounted (capacity : Nat) (h : 0 < capacity)
    (records : List (Descriptor × List (List Slot))) (ss : List Step) :
    let p := start (.empty capacity h) records
    Accounted capacity (p.chronicle ss) (p.after ss).cache (p.after ss).stats := by
  intro p
  have ho := orderly_chronicle capacity h records ss
  have hp : p.stats = tally [] := rfl
  have ht : (p.after ss).stats = tally ((p.chronicle ss).reverse ++ []) := kept_tally.after hp ss
  refine ⟨ho.recent.capacity, ?_, ho.recent.keys_nodup, ho.named, ?_, ?_⟩
  · have hle := ho.recent.size_le
    rwa [ho.recent.capacity] at hle
  · intro m hm
    exact ho.current m (by simpa using hm)
  · rw [ht, List.append_nil, tally_eq, times_reverse, times_reverse, times_reverse]

theorem overwrites_of_unnested (capacity : Nat) (h : 0 < capacity)
    (records : List (Descriptor × List (List Slot))) (ss : List Step) :
    let c := (start (.empty capacity h) records).chronicle ss
    Unnested c → overwrites c = 0 := by
  intro c hc
  let p := start (.empty capacity h) records
  have hp : Pending [] [] p.cache ∧ Clean [] [] p.cache :=
    ⟨pending_nil _, fun _ => ⟨by simp, rfl⟩⟩
  have hk := (Kept.after (J := fun ms c => Pending [] ms c ∧ Clean [] ms c) (kept_clean []) hp ss).2
  rw [List.append_nil] at hk
  have ho := (hk (unnested_iff.mp hc)).2
  rwa [List.reverse_reverse] at ho

end Projector

end SelectList
