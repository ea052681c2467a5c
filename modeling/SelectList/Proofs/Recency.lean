import SelectList.Proofs.Cache
import SelectList.Proofs.Chronicle

/-!
The keys of the cache as the chronicle tells them: the first different records of all uses read
backwards, as many as the capacity allows.
-/

namespace SelectList

namespace Event

def used? : Event → Option Slot
  | .hit k _ | .stored k => some k
  | _ => none

def stored? : Event → Option Slot
  | .stored k => some k
  | _ => none

end Event

namespace Chronicle

def uses (ms : Chronicle) : List Slot := ms.filterMap (·.2.event.used?)

def stores (ms : Chronicle) : List Slot := ms.filterMap (·.2.event.stored?)

structure Latest (n : Nat) (ms : Chronicle) (c : Cache) : Prop where
  keys : c.keys = (uses ms).eraseDups.take n
  stored : uses ms ⊆ stores ms

structure Recent (n : Nat) (ms : Chronicle) (c : Cache) : Prop where
  capacity : c.capacity = n
  latest : Latest n ms c
  moments : Each (fun m ms => Latest n (m :: ms) m.2.cache) ms

variable {n : Nat} {ms : Chronicle} {m : Catalog × Moment} {k : Slot} {c d : Cache}

theorem uses_cons_of_none (h : m.2.event.used? = none) : uses (m :: ms) = uses ms := by
  simp [uses, h]

theorem uses_cons_of_some (h : m.2.event.used? = some k) : uses (m :: ms) = k :: uses ms := by
  simp [uses, h]

theorem uses_reverse (ms : Chronicle) : uses ms.reverse = (uses ms).reverse :=
  List.filterMap_reverse

theorem stores_subset_cons : stores ms ⊆ stores (m :: ms) :=
  List.filterMap_subset _ (List.subset_cons_self m ms)

theorem stores_subset_uses : stores ms ⊆ uses ms := by
  intro k hk
  obtain ⟨⟨t, e, c⟩, hm, hk⟩ := List.mem_filterMap.mp hk
  refine List.mem_filterMap.mpr ⟨_, hm, ?_⟩
  cases e with
  | stored j => exact hk
  | _ => cases hk

theorem Latest.size_eq (h : Latest n ms c) : c.size = min n (stores ms).toFinset.card := by
  have hs : (uses ms).toFinset = (stores ms).toFinset := by
    ext k
    simpa using ⟨fun hk => h.stored hk, fun hk => stores_subset_uses hk⟩
  rw [Cache.size_eq_length_keys, h.keys, List.length_take, length_eraseDups, hs]

theorem Latest.of_reverse (h : Latest n ms.reverse c) :
    c.keys = (uses ms).reverse.eraseDups.take n ∧ c.size = min n (stores ms).toFinset.card := by
  constructor
  · rw [h.keys, uses_reverse]
  · rw [h.size_eq, stores, List.filterMap_reverse, List.toFinset_reverse]
    rfl

theorem Recent.size_le (h : Recent n ms c) : c.size ≤ c.capacity := by
  rw [h.latest.size_eq, h.capacity]
  exact Nat.min_le_left _ _

theorem Recent.keys_nodup (h : Recent n ms c) : c.keys.Nodup := by
  rw [h.latest.keys]
  exact (nodup_eraseDups (uses ms)).sublist (List.take_sublist n _)

theorem Recent.cons (h : Recent n ms c) (hm : m.2.event.used? = none) (hc : m.2.cache = c) :
    Recent n (m :: ms) c := by
  subst hc
  have hl : Latest n (m :: ms) m.2.cache := by
    constructor
    · rw [uses_cons_of_none hm, h.latest.keys]
    · rw [uses_cons_of_none hm]
      exact List.Subset.trans h.latest.stored stores_subset_cons
  exact ⟨h.capacity, hl, hl, h.moments⟩

theorem Recent.use (h : Recent n ms c) (hm : m.2.event.used? = some k) (hd : m.2.cache = d)
    (hcap : d.capacity = c.capacity)
    (hkeys : d.keys = (k :: c.keys.filter (· != k)).take c.capacity)
    (hs : k ∈ stores (m :: ms)) : Recent n (m :: ms) d := by
  subst hd
  have hl : Latest n (m :: ms) m.2.cache := by
    constructor
    · rw [uses_cons_of_some hm, take_eraseDups_cons, ← h.latest.keys, hkeys, h.capacity]
    · rw [uses_cons_of_some hm]
      exact List.cons_subset.mpr ⟨hs, List.Subset.trans h.latest.stored stores_subset_cons⟩
  exact ⟨hcap.trans h.capacity, hl, hl, h.moments⟩

theorem Recent.serve {t : Catalog} {e : Entry} (h : Recent n ms c)
    (hl : c.lookup k = some (e, d)) :
    Recent n ((t, ⟨.hit k e.columns, d⟩) :: (t, ⟨.asked k, c⟩) :: ms) d := by
  have ha : Recent n ((t, ⟨.asked k, c⟩) :: ms) c := h.cons rfl rfl
  refine ha.use rfl rfl (Cache.capacity_lookup hl) (Cache.keys_lookup hl h.size_le) ?_
  -- The record is among the keys, so it was used, and a used record was stored.
  have hk : k ∈ c.keys := Cache.mem_keys_of_lookup hl
  rw [ha.latest.keys] at hk
  exact stores_subset_cons (ha.latest.stored (List.mem_eraseDups.mp (List.mem_of_mem_take hk)))

theorem Recent.settle {t : Catalog} {cs : List Column} (h : Recent n ms c)
    (hd : (c.store ⟨k, k.name, cs⟩).1 = d) :
    Recent n ((t, ⟨.stored k, d⟩) :: (t, ⟨.resolved k cs, c⟩) :: ms) d := by
  subst hd
  have hr : Recent n ((t, ⟨.resolved k cs, c⟩) :: ms) c := h.cons rfl rfl
  refine hr.use rfl rfl Cache.capacity_store (Cache.keys_store h.size_le) ?_
  simp [stores, Event.stored?]

end Chronicle

namespace Projector

open Chronicle

theorem kept_recent (n : Nat) : Kept (Recent n) := by
  intro p q past h hp
  induction h with
  | refl => exact hp
  | visit v _ ih => exact (ih hp).cons rfl rfl
  | spend k _ ih => exact ih hp
  | serve _ hl ih => exact (ih hp).serve hl
  | @settle p q r k _ hl _ ih ihr =>
    have hr := ihr ((ih hp).cons rfl rfl)
    have hs := hr.settle (t := r.catalog) (k := k)
      (settle_cache r k (r.catalog.resolveRecord (some k)).columns).symm
    exact settle_record hs fun j name ms h => h.cons rfl rfl

theorem recent_chronicle (capacity : Nat) (h : 0 < capacity)
    (records : List (Descriptor × List (List Slot))) (ss : List Step) :
    let p := start (.empty capacity h) records
    Recent capacity (p.chronicle ss).reverse (p.after ss).cache := by
  intro p
  have hp : Recent capacity [] p.cache :=
    ⟨rfl, ⟨by simp [p, start, Cache.empty, Cache.keys, uses], by simp [uses]⟩, trivial⟩
  simpa using Kept.after (kept_recent capacity) hp ss

end Projector

end SelectList
