import Mathlib.Data.Finset.Card
import Mathlib.Data.List.Basic
import SelectList.Record

namespace SelectList

variable {k : Slot} {n : Nat} {ks : List Slot}

theorem eraseDups_filter (p : Slot → Bool) (ks : List Slot) :
    (ks.filter p).eraseDups = ks.eraseDups.filter p := by
  induction hn : ks.length using Nat.strong_induction_on generalizing ks with
  | _ n ih =>
    cases ks with
    | nil => rfl
    | cons k ks =>
      have hlt : (ks.filter fun b => !b == k).length < n := by
        rw [← hn]
        exact Nat.lt_succ_of_le (List.length_filter_le _ _)
      have hf := ih _ hlt (ks.filter fun b => !b == k) rfl
      rw [List.eraseDups_cons, List.filter_cons, List.filter_cons, ← hf]
      split
      · rw [List.eraseDups_cons, List.filter_filter, List.filter_filter]
        simp only [Bool.and_comm]
      · next hk =>
        rw [List.filter_filter]
        congr 1
        apply List.filter_congr
        intro b _
        by_cases hb : b = k <;> simp [hb, hk]

theorem eraseDups_cons_eq (k : Slot) (ks : List Slot) :
    (k :: ks).eraseDups = k :: ks.eraseDups.filter (· != k) := by
  rw [List.eraseDups_cons, eraseDups_filter]
  rfl

theorem nodup_eraseDups (ks : List Slot) : ks.eraseDups.Nodup := by
  induction ks with
  | nil => exact .nil
  | cons k ks ih =>
    rw [eraseDups_cons_eq]
    exact List.nodup_cons.mpr ⟨by simp, ih.filter _⟩

theorem length_eraseDups (ks : List Slot) : ks.eraseDups.length = ks.toFinset.card := by
  rw [← List.toFinset_card_of_nodup (nodup_eraseDups ks)]
  congr 1
  ext k
  simp

theorem filter_of_not_mem (hk : k ∉ ks) : ks.filter (· != k) = ks := by
  apply List.filter_eq_self.mpr
  intro j hj
  simpa using ne_of_mem_of_not_mem hj hk

theorem not_mem_cons_filter_iff {a j o : Slot} (ha : a ∉ ks) (hj : j ∈ ks) :
    j ∉ a :: ks.filter (· != o) ↔ j = o := by
  have hja : j ≠ a := fun h => ha (h ▸ hj)
  simp [hja, hj]

theorem take_filter_take (hks : ks.Nodup) :
    ((ks.take (n + 1)).filter (· != k)).take n = (ks.filter (· != k)).take n := by
  induction ks generalizing n with
  | nil => rfl
  | cons j ks ih =>
    obtain ⟨hj, hks⟩ := List.nodup_cons.mp hks
    rw [List.take_succ_cons]
    by_cases hjk : j = k
    · subst hjk
      have ht : j ∉ ks.take n := fun h => hj (List.mem_of_mem_take h)
      simp [filter_of_not_mem hj, filter_of_not_mem ht]
    · cases n with
      | zero => rfl
      | succ n => simp [hjk, ih hks]

theorem take_eraseDups_cons (k : Slot) (ks : List Slot) (n : Nat) :
    (k :: ks).eraseDups.take n = (k :: (ks.eraseDups.take n).filter (· != k)).take n := by
  cases n with
  | zero => rfl
  | succ n =>
    rw [eraseDups_cons_eq, List.take_succ_cons, List.take_succ_cons,
      take_filter_take (nodup_eraseDups ks)]

theorem mem_take_append_cons {ys xs : List Slot} (hy : k ∉ ys) :
    k ∈ (ys ++ k :: xs).take n ↔ ys.length < n := by
  rw [List.take_append, List.mem_append]
  constructor
  · rintro (h | h)
    · exact absurd (List.mem_of_mem_take h) hy
    · by_contra hn
      rw [Nat.sub_eq_zero_of_le (Nat.le_of_not_lt hn)] at h
      simp at h
  · intro h
    obtain ⟨m, hm⟩ := Nat.exists_eq_succ_of_ne_zero (Nat.sub_ne_zero_of_lt h)
    exact .inr (by simp [hm])

theorem mem_take_eraseDups :
    k ∈ ks.eraseDups.take n ↔ ∃ ys xs, ks = ys ++ k :: xs ∧ k ∉ ys ∧ ys.toFinset.card < n := by
  have hsplit (ys xs : List Slot) (hy : k ∉ ys) :
      k ∈ (ys ++ k :: xs).eraseDups.take n ↔ ys.toFinset.card < n := by
    have hk : k ∉ ys.eraseDups := by simpa using hy
    rw [List.eraseDups_append, List.cons_removeAll, if_pos (by simpa using hy),
      eraseDups_cons_eq, mem_take_append_cons hk, length_eraseDups]
  constructor
  · intro h
    have hk : k ∈ ks := List.mem_eraseDups.mp (List.mem_of_mem_take h)
    obtain ⟨ys, xs, rfl, hy⟩ := List.eq_append_cons_of_mem hk
    exact ⟨ys, xs, rfl, hy, (hsplit ys xs hy).mp h⟩
  · rintro ⟨ys, xs, rfl, hy, hn⟩
    exact (hsplit ys xs hy).mpr hn

end SelectList
