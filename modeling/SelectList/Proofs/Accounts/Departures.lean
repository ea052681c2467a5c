import SelectList.Proofs.Accounts

namespace SelectList

namespace Chronicle

def overwrites : Chronicle → Nat
  | l :: m :: c =>
    overwrites (m :: c) + if m.2.event.stored?.any l.2.cache.contains then 1 else 0
  | _ => 0

def Departed (k : Slot) : Chronicle → Prop
  | m :: l :: _ => k ∈ l.2.cache.keys ∧ k ∉ m.2.cache.keys
  | _ => False

/-- Of a moment and what was before it, read backwards. A hit follows its question. Only the store
of a new record in a full cache takes another one out, and the next event is to tell which. -/
structure Lawful (n : Nat) (m : Catalog × Moment) (ms : Chronicle) : Prop where
  hit : ∀ k cs, m.2.event = .hit k cs → ∃ l ∈ ms.head?, l.2.event = .asked k
  stored : ∀ l ∈ ms.head?, ∀ k ∈ l.2.cache.keys, k ∉ m.2.cache.keys →
    ∃ j, m.2.event = .stored j ∧ j ∉ l.2.cache.keys ∧ l.2.cache.size = n ∧
      m.2.cache.keys = j :: l.2.cache.keys.filter (· != k)
  told : ∀ k, Departed k ms → m.2.event = .evicted k k.name
  evicted : ∀ k name, m.2.event = .evicted k name → name = k.name ∧ Departed k ms

structure Orderly (n : Nat) (ms : Chronicle) (c : Cache) : Prop where
  recent : Recent n ms c
  named : ∀ e ∈ c.entries, e.name = e.key.name
  current : ∀ l ∈ ms.head?, l.2.cache = c
  settled : ∀ k, ¬Departed k ms
  conserved : times Event.isMiss ms = times Event.isEviction ms + c.size + overwrites ms.reverse
  moments : Each (Lawful n) ms

variable {n : Nat} {ms : Chronicle} {l m : Catalog × Moment} {k : Slot} {c d : Cache} {t : Catalog}
  {cs : List Column} {e : Entry}

theorem overwrites_concat (ms : Chronicle) : overwrites (ms ++ [l, m]) =
    overwrites (ms ++ [l]) + if m.2.event.stored?.any l.2.cache.contains then 1 else 0 := by
  induction ms with
  | nil => rfl
  | cons i ms ih =>
    cases ms with
    | nil => simp only [List.cons_append, List.nil_append, overwrites]; omega
    | cons j ms =>
      simp only [List.cons_append, overwrites] at ih ⊢
      omega

theorem overwrites_stored (ms : Chronicle) (h : m.2.event = .stored k) :
    overwrites (m :: l :: ms).reverse =
      overwrites (l :: ms).reverse + if k ∈ l.2.cache.keys then 1 else 0 := by
  rw [List.reverse_cons, List.reverse_cons, List.append_assoc]
  have hc : (m.2.event.stored?.any l.2.cache.contains) = l.2.cache.contains k := by
    rw [h]
    rfl
  rw [List.singleton_append, overwrites_concat, hc]
  simp only [Cache.contains_iff]

theorem overwrites_of_none (ms : Chronicle) (h : m.2.event.stored? = none) :
    overwrites (m :: ms).reverse = overwrites ms.reverse := by
  cases ms with
  | nil => rfl
  | cons l ms =>
    rw [List.reverse_cons, List.reverse_cons, List.append_assoc, List.singleton_append,
      overwrites_concat, h]
    rfl

theorem not_departed (hc : ∀ l ∈ ms.head?, l.2.cache = m.2.cache) : ¬Departed k (m :: ms) := by
  cases ms with
  | nil => exact id
  | cons l ms =>
    rintro ⟨hl, hm⟩
    rw [hc l rfl] at hl
    exact hm hl

theorem Orderly.lawful (h : Orderly n ms c) (hc : m.2.cache = c)
    (hh : ∀ k cs, m.2.event ≠ .hit k cs) (he : ∀ k name, m.2.event ≠ .evicted k name) :
    Lawful n m ms := by
  constructor
  · intro k cs hk
    exact absurd hk (hh k cs)
  · intro l hl k hk hm
    rw [hc, ← h.current l hl] at hm
    exact absurd hk hm
  · intro k hk
    exact absurd hk (h.settled k)
  · intro k name hk
    exact absurd hk (he k name)

theorem Orderly.cons (h : Orderly n ms c) (hc : m.2.cache = c) (hu : m.2.event.used? = none)
    (hm : m.2.event.isMiss = false) (he : ∀ k name, m.2.event ≠ .evicted k name) :
    Orderly n (m :: ms) c := by
  have hh : ∀ k cs, m.2.event ≠ .hit k cs := by
    intro k cs hk
    simp [hk, Event.used?] at hu
  have hev : m.2.event.isEviction = false := by
    cases hk : m.2.event with
    | evicted k name => exact absurd hk (he k name)
    | _ => rfl
  have hs : m.2.event.stored? = none := by
    cases hk : m.2.event with
    | stored k => simp [hk, Event.used?] at hu
    | _ => rfl
  refine ⟨h.recent.cons hu hc, h.named, ?_, ?_, ?_, h.lawful hc hh he, h.moments⟩
  · rintro l ⟨⟩
    exact hc
  · intro k
    apply not_departed
    rw [hc]
    exact h.current
  · rw [times_cons, times_cons, overwrites_of_none ms hs, hm, hev]
    exact h.conserved

theorem Orderly.serve (h : Orderly n ms c) (hl : c.lookup k = some (e, d)) :
    Orderly n ((t, ⟨.hit k e.columns, d⟩) :: (t, ⟨.asked k, c⟩) :: ms) d := by
  have ha : Orderly n ((t, ⟨.asked k, c⟩) :: ms) c := h.cons rfl rfl rfl nofun
  have hr := h.recent.serve (t := t) hl
  have hk : k ∈ c.keys := Cache.mem_keys_of_lookup hl
  obtain ⟨he, rfl, rfl⟩ := Cache.eq_of_lookup hl
  have hkeep : ∀ j ∈ c.keys, j ∈ (c.toFront e).keys :=
    fun j hj => Cache.mem_keys_toFront.mpr (.inr hj)
  refine ⟨hr, ?_, ?_, ?_, ?_, ⟨?_, ?_, ?_, nofun⟩, ha.moments⟩
  · intro e' he'
    rcases Cache.mem_toFront.mp he' with rfl | ⟨hm, -⟩
    · exact h.named _ he
    · exact h.named _ hm
  · rintro l ⟨⟩
    rfl
  · rintro j ⟨hj, hn⟩
    exact hn (hkeep j hj)
  · rw [times_cons, times_cons, overwrites_of_none _ rfl,
      Cache.size_toFront_of_mem h.recent.keys_nodup hk]
    exact ha.conserved
  · rintro j cs ⟨⟩
    exact ⟨_, rfl, rfl⟩
  · rintro l ⟨⟩ j hj hn
    exact absurd (hkeep j hj) hn
  · intro j hj
    exact absurd hj (ha.settled j)

theorem Orderly.named_store (h : Orderly n ms c) (k : Slot) (cs : List Column) :
    ∀ e ∈ (c.store ⟨k, k.name, cs⟩).1.entries, e.name = e.key.name := by
  intro e he
  rcases Cache.mem_of_mem_store he with rfl | ⟨hm, -⟩
  · rfl
  · exact h.named e hm

theorem Orderly.settle_of_mem (h : Orderly n ms c) (hk : k ∈ c.keys ∨ c.size < c.capacity)
    (hd : (c.store ⟨k, k.name, cs⟩).1 = d) :
    Orderly n ((t, ⟨.stored k, d⟩) :: (t, ⟨.resolved k cs, c⟩) :: ms) d := by
  have hr := h.recent.settle (t := t) hd
  have hnamed := h.named_store k cs
  rw [hd] at hnamed
  have hfront : d = c.toFront ⟨k, k.name, cs⟩ := by
    rw [← hd, Cache.store_of_mem hk]
  have hkeep : ∀ j ∈ c.keys, j ∈ d.keys := by
    intro j hj
    rw [hfront]
    exact Cache.mem_keys_toFront.mpr (.inr hj)
  refine ⟨hr, hnamed, ?_, ?_, ?_, ⟨nofun, ?_, ?_, nofun⟩, h.lawful rfl nofun nofun, h.moments⟩
  · rintro l ⟨⟩
    rfl
  · rintro j ⟨hj, hn⟩
    exact hn (hkeep j hj)
  · -- either the store is of a record that is cached by now, or the cache grows by one
    have hc := h.conserved
    rw [times_cons, times_cons, times_cons, times_cons, overwrites_stored _ rfl,
      overwrites_of_none _ rfl, hfront]
    simp only [Event.isMiss, Event.isEviction, Bool.false_eq_true, ↓reduceIte]
    by_cases hm : k ∈ c.keys
    · rw [Cache.size_toFront_of_mem h.recent.keys_nodup hm, if_pos hm]
      omega
    · rw [Cache.size_toFront_of_not_mem hm, if_neg hm]
      omega
  · rintro l ⟨⟩ j hj hn
    exact absurd (hkeep j hj) hn
  · intro j hj
    exact absurd hj (not_departed h.current)

theorem Orderly.settle_of_full (h : Orderly n ms c) (hk : k ∉ c.keys) (hf : c.capacity ≤ c.size)
    (hd : (c.store ⟨k, k.name, cs⟩).1 = d) :
    ∃ old, (c.store ⟨k, k.name, cs⟩).2 = some old ∧
      Orderly n ((t, ⟨.evicted old.key old.name, d⟩) :: (t, ⟨.stored k, d⟩) ::
        (t, ⟨.resolved k cs, c⟩) :: ms) d := by
  have hsize := Nat.le_antisymm h.recent.size_le hf
  obtain ⟨old, hold, hsome, hkeys, hsize⟩ := Cache.store_of_full_eq
    (e := ⟨k, k.name, cs⟩) h.recent.keys_nodup hk hsize
  have hr := h.recent.settle (t := t) hd
  have hnamed := h.named_store k cs
  rw [hd] at hkeys hsize hnamed
  have hout : ∀ j ∈ c.keys, j ∉ d.keys ↔ j = old.key := by
    rw [hkeys]
    exact fun j hj => not_mem_cons_filter_iff hk hj
  have hmem : old.key ∈ c.keys := List.mem_map_of_mem hold
  have hdep : Departed old.key ((t, ⟨.stored k, d⟩) :: (t, ⟨.resolved k cs, c⟩) :: ms) :=
    ⟨hmem, (hout _ hmem).mpr rfl⟩
  have hfull : c.size = n := by
    have hle := h.recent.size_le
    rw [h.recent.capacity] at hle hf
    exact Nat.le_antisymm hle hf
  refine ⟨old, hsome, hr.cons rfl rfl, hnamed, ?_, ?_, ?_, ⟨nofun, ?_, ?_, ?_⟩,
    ⟨nofun, ?_, ?_, nofun⟩, h.lawful rfl nofun nofun, h.moments⟩
  · rintro l ⟨⟩
    rfl
  · intro j
    apply not_departed
    rintro l ⟨⟩
    rfl
  · have hc := h.conserved
    rw [times_cons, times_cons, times_cons, times_cons, times_cons, times_cons,
      overwrites_of_none _ rfl, overwrites_stored _ rfl, overwrites_of_none _ rfl, hsize,
      if_neg hk]
    simp only [Event.isMiss, Event.isEviction, Bool.false_eq_true, ↓reduceIte]
    omega
  · rintro l ⟨⟩ j hj hn
    exact absurd hj hn
  · rintro j ⟨hj, hn⟩
    rw [(hout j hj).mp hn, h.named old hold]
  · rintro j name ⟨⟩
    exact ⟨h.named old hold, hdep⟩
  · rintro l ⟨⟩ j hj hn
    refine ⟨k, rfl, hk, hfull, ?_⟩
    rw [hkeys, (hout j hj).mp hn]
  · intro j hj
    exact absurd hj (not_departed h.current)

end Chronicle

namespace Projector

open Chronicle

theorem kept_orderly (n : Nat) : Kept (Orderly n) := by
  intro p q past h hp
  induction h with
  | refl => exact hp
  | visit v _ ih => exact (ih hp).cons rfl rfl rfl nofun
  | spend k _ ih => exact ih hp
  | serve _ hl ih => exact (ih hp).serve hl
  | @settle p q r k _ hl _ ih ihr =>
    have hr : Orderly n (r.record past) r.cache := ihr ((ih hp).cons rfl rfl rfl nofun)
    have hd := (settle_cache r k (r.catalog.resolveRecord (some k)).columns).symm
    by_cases hk : k ∈ r.cache.keys ∨ r.cache.size < r.cache.capacity
    · rw [record_settle_of_none (by rw [Cache.store_of_mem hk])]
      exact hr.settle_of_mem hk hd
    · obtain ⟨hk, hf⟩ := not_or.mp hk
      obtain ⟨old, hold, hs⟩ := hr.settle_of_full (t := r.catalog) hk (Nat.le_of_not_lt hf) hd
      rw [record_settle_of_some hold]
      exact hs

theorem orderly_chronicle (capacity : Nat) (h : 0 < capacity)
    (records : List (Descriptor × List (List Slot))) (ss : List Step) :
    let p := start (.empty capacity h) records
    Orderly capacity (p.chronicle ss).reverse (p.after ss).cache := by
  intro p
  have hr : Recent capacity [] p.cache := recent_chronicle capacity h records []
  have hp : Orderly capacity [] p.cache :=
    ⟨hr, by simp [p, start, Cache.empty], by simp, fun _ => id, rfl, trivial⟩
  simpa using Kept.after (kept_orderly capacity) hp ss

end Projector

end SelectList
