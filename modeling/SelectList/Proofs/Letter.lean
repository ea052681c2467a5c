import Mathlib.Data.List.Pairwise
import Mathlib.Data.List.TakeWhile
import SelectList.Letter

namespace SelectList.Letter

variable {q r : Run} {n : Nat} {c : Char}

namespace Run

theorem covers_iff :
    r.covers n = true ↔ r.first ≤ n ∧ n ≤ r.last ∧ (n - r.first) % r.stride = 0 := by
  simp [covers, and_assoc]

def alternates (r : Run) : Bool :=
  r.stride == 2 || r.first == r.last

def apart (r q : Run) : Bool :=
  r.last < q.first || q.last < r.first ||
    (r.alternates && q.alternates && r.first % 2 != q.first % 2)

theorem mod_two_of_covers (h : r.alternates = true) (hn : r.covers n = true) :
    n % 2 = r.first % 2 := by
  obtain ⟨hfirst, hlast, hstride⟩ := covers_iff.mp hn
  simp only [alternates, Bool.or_eq_true, beq_iff_eq] at h
  obtain h | h := h
  · rw [h] at hstride
    omega
  · omega

theorem not_covers_of_apart (h : r.apart q = true) (hr : r.covers n = true) :
    q.covers n = false := by
  rw [Bool.eq_false_iff]
  intro hq
  have hr' := covers_iff.mp hr
  have hq' := covers_iff.mp hq
  simp only [apart, Bool.or_eq_true, decide_eq_true_eq, Bool.and_eq_true, bne_iff_ne] at h
  obtain (h | h) | ⟨⟨har, haq⟩, h⟩ := h
  · omega
  · omega
  · exact h ((mod_two_of_covers har hr).symm.trans (mod_two_of_covers haq hq))

/-- One sweep over two tables in code point order: each run meets those it overlaps with. -/
def sweep : List Run → List Run → Bool
  | [], _ => true
  | r :: rs, qs =>
    let qs := qs.dropWhile fun q => q.last < r.first
    (qs.takeWhile fun q => q.first ≤ r.last).all r.apart && sweep rs qs

def Ordered (rs : List Run) : Prop :=
  rs.Pairwise fun r s => r.first < s.first

theorem mem_takeWhile_of_le {qs : List Run} (hqs : Ordered qs) (hq : q ∈ qs) (hn : q.first ≤ n) :
    q ∈ qs.takeWhile fun q => q.first ≤ n := by
  induction qs with
  | nil => exact absurd hq List.not_mem_nil
  | cons p qs ih =>
    obtain ⟨hp, hqs⟩ := List.pairwise_cons.mp hqs
    obtain rfl | hq := List.mem_cons.mp hq
    · simp [hn]
    · have hpn : p.first ≤ n := Nat.le_trans (Nat.le_of_lt (hp q hq)) hn
      simp [hpn, ih hqs hq]

theorem apart_of_sweep {rs qs : List Run} (hrs : Ordered rs) (hqs : Ordered qs)
    (h : sweep rs qs = true) (hr : r ∈ rs) (hq : q ∈ qs) : r.apart q = true := by
  induction rs generalizing qs with
  | nil => exact absurd hr List.not_mem_nil
  | cons s rs ih =>
    obtain ⟨hs, hrs⟩ := List.pairwise_cons.mp hrs
    rw [sweep, Bool.and_eq_true, List.all_eq_true] at h
    have hsr : s.first ≤ r.first := by
      obtain rfl | hr := List.mem_cons.mp hr
      · exact Nat.le_refl _
      · exact Nat.le_of_lt (hs r hr)
    rw [← List.takeWhile_append_dropWhile (p := fun q => q.last < s.first) (l := qs),
      List.mem_append] at hq
    obtain hq | hq := hq
    · -- the runs that are left behind end before every run still to come
      have hlt : q.last < s.first := by simpa using List.mem_takeWhile_imp hq
      simp [apart, Nat.lt_of_lt_of_le hlt hsr]
    · have hqs' := hqs.sublist (List.dropWhile_sublist fun q => q.last < s.first)
      obtain rfl | hr := List.mem_cons.mp hr
      · by_cases hle : q.first ≤ r.last
        · exact h.1 q (mem_takeWhile_of_le hqs' hq hle)
        · simp [apart, Nat.lt_of_not_le hle]
      · exact ih hrs hqs' h.2 hr hq

end Run

theorem uppercaseRuns_ordered : Run.Ordered (uppercaseRuns.map (·.toRun)) := by
  rw [Run.Ordered, ← List.isChain_iff_pairwise]
  decide +kernel

theorem lowercaseRuns_ordered : Run.Ordered lowercaseRuns := by
  rw [Run.Ordered, ← List.isChain_iff_pairwise]
  decide +kernel

theorem runs_sweep : Run.sweep (uppercaseRuns.map (·.toRun)) lowercaseRuns = true := by
  decide +kernel

namespace MappedRun

variable {r : MappedRun}

def within (r : MappedRun) (q : Run) : Bool :=
  r.apply r.last ≤ q.last && q.first ≤ r.image && (r.image - q.first) % q.stride == 0 &&
    (q.stride == 1 || q.stride == r.stride || r.first == r.last)

theorem covers_apply (h : r.within q = true) (hn : r.covers n = true) :
    q.covers (r.apply n) = true := by
  obtain ⟨hfirst, hlast, hstride⟩ := Run.covers_iff.mp hn
  simp only [within, Bool.and_eq_true, Bool.or_eq_true, beq_iff_eq, decide_eq_true_eq] at h
  obtain ⟨⟨⟨hql, hqf⟩, hqs⟩, h⟩ := h
  have hle : r.apply n ≤ q.last := by
    rw [apply] at hql ⊢
    omega
  refine Run.covers_iff.mpr ⟨Nat.le_add_right_of_le hqf, hle, ?_⟩
  have hd : r.apply n - q.first = (r.image - q.first) + (n - r.first) := by
    rw [apply]
    omega
  obtain (h | h) | h := h
  · rw [h, Nat.mod_one]
  · rw [hd, Nat.add_mod, hqs, h, hstride, Nat.zero_add, Nat.zero_mod]
  · have hn : n - r.first = 0 := by omega
    rw [hd, hn, Nat.add_zero, hqs]

end MappedRun

theorem uppercaseRuns_within :
    (uppercaseRuns.all fun r => r.image == r.first || lowercaseRuns.any r.within) = true := by
  decide +kernel

theorem exists_run_of_isUppercase (h : isUppercase c = true) :
    c = 'İ' ∨ ∃ r ∈ uppercaseRuns, capitalRun? c = some r ∧ r.covers c.toNat = true := by
  simp only [isUppercase, Bool.or_eq_true, beq_iff_eq] at h
  obtain rfl | h := h
  · exact .inl rfl
  · obtain ⟨r, hr⟩ := Option.isSome_iff_exists.mp h
    rw [capitalRun?] at hr
    have hc := List.find?_some hr
    exact .inr ⟨r, List.mem_of_find?_eq_some hr, hr, hc⟩

theorem not_isLowercase_of_isUppercase (h : isUppercase c = true) : isLowercase c = false := by
  obtain rfl | ⟨r, hr, -, hc⟩ := exists_run_of_isUppercase h
  · decide
  · apply List.any_eq_false.mpr
    intro q hq
    rw [Bool.not_eq_true]
    apply Run.not_covers_of_apart _ hc
    apply Run.apart_of_sweep uppercaseRuns_ordered lowercaseRuns_ordered runs_sweep _ hq
    exact List.mem_map_of_mem hr

theorem not_isDigit_of_isUppercase (h : isUppercase c = true) : c.isDigit = false := by
  have h65 : 65 ≤ c.toNat := by
    obtain rfl | ⟨r, hr, -, hc⟩ := exists_run_of_isUppercase h
    · decide
    · have hf : (uppercaseRuns.all fun r => 65 ≤ r.first) = true := by decide +kernel
      have hr65 := List.all_eq_true.mp hf r hr
      exact (of_decide_eq_true hr65).trans (Run.covers_iff.mp hc).1
  rw [Bool.eq_false_iff]
  intro hd
  simp only [Char.isDigit, Bool.and_eq_true, decide_eq_true_eq] at hd
  have h57 : c.toNat ≤ 57 := UInt32.le_iff_toNat_le.mp hd.2
  omega

theorem lowercaseRuns_valid :
    (lowercaseRuns.all fun q =>
      q.last < 0xD800 || 0xDFFF < q.first && q.last < 0x110000) = true := by
  decide +kernel

theorem isLowercase_ofNat {q : Run} (hq : q ∈ lowercaseRuns) (hn : q.covers n = true) :
    isLowercase (Char.ofNat n) = true := by
  obtain ⟨hfirst, hlast, -⟩ := Run.covers_iff.mp hn
  have h := List.all_eq_true.mp lowercaseRuns_valid q hq
  simp only [Bool.or_eq_true, Bool.and_eq_true, decide_eq_true_eq] at h
  have hv : n.isValidChar := by
    rw [Nat.isValidChar]
    omega
  have hc : (Char.ofNat n).toNat = n := by
    rw [Char.ofNat, dif_pos hv]
    rfl
  rw [isLowercase, List.any_eq_true]
  exact ⟨q, hq, by rw [hc, hn]⟩

theorem lowercase_of_isUppercase (h : isUppercase c = true) :
    lowercase c = [c] ∨
      ∃ d, isLowercase d = true ∧ (lowercase c = [d] ∨ lowercase c = [d, '\u0307']) := by
  by_cases hi : c = 'İ'
  · exact .inr ⟨'i', by decide, .inr (if_pos hi)⟩
  obtain rfl | ⟨r, hr, hrun, hc⟩ := exists_run_of_isUppercase h
  · exact absurd rfl hi
  have hl : lowercase c = [Char.ofNat (r.apply c.toNat)] := by simp [lowercase, hi, hrun]
  have hw := List.all_eq_true.mp uppercaseRuns_within r hr
  simp only [Bool.or_eq_true, beq_iff_eq, List.any_eq_true] at hw
  obtain hw | ⟨q, hq, hw⟩ := hw
  · have happly : r.apply c.toNat = c.toNat := by
      rw [MappedRun.apply, hw]
      exact Nat.add_sub_of_le (Run.covers_iff.mp hc).1
    exact .inl (by rw [hl, happly, Char.ofNat_toNat])
  · exact .inr ⟨_, isLowercase_ofNat hq (MappedRun.covers_apply hw hc), .inl hl⟩

structure Mark (c : Char) : Prop where
  notUppercase : isUppercase c = false
  notLowercase : isLowercase c = false
  notDigit : c.isDigit = false

theorem mark_underscore : Mark '_' := ⟨by decide, by decide, by decide⟩

theorem mark_dotAbove : Mark '\u0307' := ⟨by decide, by decide, by decide⟩

theorem Mark.ne_of_isUppercase {m : Char} (hm : Mark m) (h : isUppercase c = true) : c ≠ m := by
  rintro rfl
  simp [hm.notUppercase] at h

theorem Mark.ne_of_isLowercase {m : Char} (hm : Mark m) (h : isLowercase c = true) : c ≠ m := by
  rintro rfl
  simp [hm.notLowercase] at h

end SelectList.Letter
