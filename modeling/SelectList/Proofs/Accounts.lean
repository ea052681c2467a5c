import SelectList.Proofs.Recency.Sequence

namespace SelectList

namespace Event

def isHit : Event → Bool
  | .hit _ _ => true
  | _ => false

def isMiss : Event → Bool
  | .resolved _ _ => true
  | _ => false

def isEviction : Event → Bool
  | .evicted _ _ => true
  | _ => false

def count : Event → Stats → Stats
  | .hit _ _, s => s.hit
  | .resolved _ _, s => s.miss
  | .evicted _ _, s => s.eviction
  | _, s => s

end Event

namespace Chronicle

def times (kind : Event → Bool) (ms : Chronicle) : Nat := ms.countP (kind ·.2.event)

def log (ms : Chronicle) : List String := Event.log (ms.map (·.2.event))

def tally (ms : Chronicle) : Stats := ms.foldr (fun m s => m.2.event.count s) {}

variable {ms : Chronicle} {m : Catalog × Moment}

theorem times_cons (kind : Event → Bool) :
    times kind (m :: ms) = times kind ms + if kind m.2.event then 1 else 0 :=
  List.countP_cons

theorem times_reverse (kind : Event → Bool) (ms : Chronicle) :
    times kind ms.reverse = times kind ms :=
  List.countP_reverse

theorem tally_eq (ms : Chronicle) :
    tally ms = ⟨min (times Event.isHit ms) Stats.maxCount,
      min (times Event.isMiss ms) Stats.maxCount, times Event.isEviction ms % UInt64.size⟩ := by
  induction ms with
  | nil => simp [tally, times]
  | cons m ms ih =>
    have hcons : tally (m :: ms) = m.2.event.count (tally ms) := rfl
    have hmin (n : Nat) : min (min n Stats.maxCount + 1) Stats.maxCount =
        min (n + 1) Stats.maxCount := by omega
    rw [hcons, ih, times_cons, times_cons, times_cons]
    cases m.2.event <;>
      simp only [Event.count, Event.isHit, Event.isMiss, Event.isEviction, Stats.hit, Stats.miss,
        Stats.eviction, hmin, Nat.mod_add_mod, Nat.add_zero, Bool.false_eq_true, ↓reduceIte]

def Balanced (waiting : Nat) (ms : Chronicle) : Prop :=
  (asks ms).length = waiting + times Event.isHit ms + times Event.isMiss ms

variable {n : Nat} {t : Catalog} {k : Slot} {cs : List Column} {c : Cache}

theorem Balanced.cons (h : Balanced n ms) (ha : m.2.event.asked? = none)
    (hh : m.2.event.isHit = false) (hm : m.2.event.isMiss = false) : Balanced n (m :: ms) := by
  rw [Balanced, asks_cons_of_none ha, times_cons, times_cons, hh, hm]
  exact h

theorem Balanced.ask (h : Balanced n ms) : Balanced (n + 1) ((t, ⟨.asked k, c⟩) :: ms) := by
  have hn : (asks ms).length = n + times Event.isHit ms + times Event.isMiss ms := h
  rw [Balanced, asks_cons_of_some rfl, List.length_cons, hn, times_cons, times_cons]
  simp only [Event.isHit, Event.isMiss, Bool.false_eq_true, ↓reduceIte]
  omega

theorem Balanced.answer (h : Balanced (n + 1) ms) (ha : m.2.event.asked? = none)
    (hone : m.2.event.isMiss = !m.2.event.isHit) : Balanced n (m :: ms) := by
  have hn : (asks ms).length = n + 1 + times Event.isHit ms + times Event.isMiss ms := h
  rw [Balanced, asks_cons_of_none ha, hn, times_cons, times_cons, hone]
  cases m.2.event.isHit with
  | true =>
    simp only [Bool.not_true, Bool.false_eq_true, ↓reduceIte]
    omega
  | false =>
    simp only [Bool.not_false, Bool.false_eq_true, ↓reduceIte]
    omega

end Chronicle

namespace Projector

open Chronicle

theorem settle_stats (p : Projector) (k : Slot) (cs : List Column) :
    (p.settle k cs).stats = match (p.cache.store ⟨k, k.name, cs⟩).2 with
      | none => p.stats.miss
      | some _ => p.stats.miss.eviction := by
  unfold settle store
  dsimp only
  split <;> next h => rw [show p.cache.store ⟨k, k.name, cs⟩ = _ from h]; rfl

theorem kept_tally : KeptWith fun ms _ s => s = tally ms := by
  intro p q past h hp
  induction h with
  | refl => exact hp
  | visit v _ ih => exact ih hp
  | spend k _ ih => exact ih hp
  | serve _ hl ih => exact congrArg Stats.hit (ih hp)
  | @settle p q r k _ hl _ ih ihr =>
    have hr : r.stats = tally (r.record past) := ihr (ih hp)
    -- the miss is counted last of all, but told first; the counters do not depend on each other
    rw [settle_stats, hr]
    cases ho : (r.cache.store ⟨k, k.name, (r.catalog.resolveRecord (some k)).columns⟩).2 with
    | none =>
      rw [record_settle_of_none ho]
      rfl
    | some old =>
      rw [record_settle_of_some ho]
      rfl

theorem kept_balanced (n : Nat) : Kept fun ms _ => Balanced n ms := by
  intro p q past h hp
  induction h generalizing n with
  | refl => exact hp
  | visit v _ ih => exact (ih n hp).cons rfl rfl rfl
  | spend k _ ih => exact ih n hp
  | serve _ hl ih => exact (ih n hp).ask.answer rfl rfl
  | @settle p q r k _ hl _ ih ihr =>
    have hr : Balanced (n + 1) (r.record past) := ihr (n + 1) (ih n hp).ask
    exact settle_record (J := fun ms _ => Balanced n ms) ((hr.answer rfl rfl).cons rfl rfl rfl)
      fun j name ms h => h.cons rfl rfl rfl

end Projector

end SelectList
