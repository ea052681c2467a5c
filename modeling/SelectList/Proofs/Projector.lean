import SelectList.Projector

namespace SelectList.Projector

theorem settle_catalog (p : Projector) (k : Slot) (cs : List Column) :
    (p.settle k cs).catalog = p.catalog := by
  unfold settle store
  dsimp only
  split <;> rfl

theorem settle_cache (p : Projector) (k : Slot) (cs : List Column) :
    (p.settle k cs).cache = (p.cache.store ⟨k, k.name, cs⟩).1 := by
  unfold settle store
  dsimp only
  split <;> next h => rw [show p.cache.store ⟨k, k.name, cs⟩ = _ from h]; rfl

theorem settle_history (p : Projector) (k : Slot) (cs : List Column) :
    (p.settle k cs).history =
      (p.cache.store ⟨k, k.name, cs⟩).2.toList.map
          (fun old => ⟨.evicted old.key old.name, (p.settle k cs).cache⟩) ++
        ⟨.stored k, (p.settle k cs).cache⟩ :: ⟨.resolved k cs, p.cache⟩ :: p.history := by
  unfold settle store
  dsimp only
  split <;> next h => rw [show p.cache.store ⟨k, k.name, cs⟩ = _ from h]; rfl

inductive Becomes : Projector → Projector → Prop
  | refl (p : Projector) : Becomes p p
  | visit {p q : Projector} (v : Visit) : Becomes p q → Becomes p (q.emit (.visit v))
  | spend {p q : Projector} (k : Slot) : Becomes p q → Becomes p (q.spend k)
  | serve {p q : Projector} {k : Slot} {e : Entry} {cache : Cache} : Becomes p q →
      q.cache.lookup k = some (e, cache) → Becomes p ((q.emit (.asked k)).serve k e cache)
  | settle {p q r : Projector} {k : Slot} : Becomes p q → q.cache.lookup k = none →
      Becomes (q.emit (.asked k)) r →
      Becomes p (r.settle k (r.catalog.resolveRecord (some k)).columns)

theorem Becomes.trans {p q r : Projector} (h : Becomes p q) (h' : Becomes q r) : Becomes p r := by
  induction h' with
  | refl => exact h
  | visit v _ ih => exact .visit v (ih h)
  | spend k _ ih => exact .spend k (ih h)
  | serve _ hl ih => exact .serve (ih h) hl
  | settle _ hl hr ih _ => exact .settle (ih h) hl hr

theorem Becomes.catalog_eq {p q : Projector} (h : Becomes p q) : q.catalog = p.catalog := by
  induction h with
  | refl => rfl
  | visit _ _ ih => exact ih
  | spend _ _ ih => exact ih
  | serve _ _ ih => exact ih
  | settle _ _ _ ih ihr => rw [settle_catalog, ihr]; exact ih

theorem becomes_foldl {α : Type} {f : Projector → α → Projector} (h : ∀ p x, Becomes p (f p x))
    (p : Projector) (xs : List α) : Becomes p (xs.foldl f p) := by
  induction xs generalizing p with
  | nil => exact .refl p
  | cons x xs ih => exact (h p x).trans (ih _)

section Reentry

variable {again : Slot → Projector → Projector} (h : ∀ k p, Becomes p (again k p))
include h

theorem becomes_visit (p : Projector) (v : Visit) : Becomes p (visit again p v) := by
  have hv : Becomes p (p.emit (.visit v)) := .visit v (.refl p)
  unfold visit
  cases v with
  | cut owner k => exact hv
  | opened k =>
    exact (hv.spend k).trans (becomes_foldl (fun p k => h k p) _ _)

theorem becomes_fetchWith (k : Slot) (p : Projector) : Becomes p (fetchWith again k p).1 := by
  unfold fetchWith
  dsimp only
  split
  · next hl => exact .serve (.refl p) hl
  · next hl =>
    have hr := becomes_foldl (becomes_visit h) (p.emit (.asked k))
      (p.catalog.resolveRecord (some k)).visits
    have hs := Becomes.settle (.refl p) hl hr
    rwa [hr.catalog_eq] at hs

end Reentry

theorem becomes_again (depth : Nat) : ∀ k p, Becomes p (again depth k p) := by
  induction depth with
  | zero => exact fun _ p => .refl p
  | succ depth ih => exact becomes_fetchWith ih

theorem becomes_fetch (p : Projector) (k : Slot) : Becomes p (p.fetch k).1 :=
  becomes_fetchWith (becomes_again _) k p

def redefine (p : Projector) : Step → Projector
  | .define k d callbacks => p.define k d callbacks
  | _ => p

theorem becomes_step (p : Projector) (s : Step) : Becomes (p.redefine s) (p.step s).1 := by
  cases s with
  | project view subject byValue =>
    change Becomes p (p.columns subject).1
    unfold columns
    split
    · exact .refl p
    · exact becomes_fetch p _
  | contains k => exact .refl p
  | resolve record => exact becomes_foldl (becomes_visit (becomes_again _)) p _
  | define k d callbacks => exact .refl _
  | sweep first last => exact becomes_foldl (fun p k => becomes_fetch p k) p _

end SelectList.Projector
