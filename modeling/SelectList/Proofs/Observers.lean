import SelectList.Proofs.Callbacks
import SelectList.Proofs.Recency.Direct

namespace SelectList

def without {α : Type} (D : Nat → Bool) (xs : List α) : List α :=
  (xs.zipIdx.filter fun x => !D x.2).map Prod.fst

section Without

variable {α : Type} {D : Nat → Bool}

theorem without_tail (D : Nat → Bool) (xs : List α) :
    ((xs.zipIdx 1).filter fun x => !D x.2).map Prod.fst = without (fun i => D (i + 1)) xs := by
  rw [without, List.zipIdx_succ, List.filter_map, List.map_map]
  rfl

theorem without_cons_of_pos (h : D 0 = true) (x : α) (xs : List α) :
    without D (x :: xs) = without (fun i => D (i + 1)) xs := by
  rw [← without_tail, without, List.zipIdx_cons, List.filter_cons_of_neg (by simp [h])]

theorem without_cons_of_neg (h : D 0 = false) (x : α) (xs : List α) :
    without D (x :: xs) = x :: without (fun i => D (i + 1)) xs := by
  rw [← without_tail, without, List.zipIdx_cons, List.filter_cons_of_pos (by simp [h]),
    List.map_cons]

end Without

inductive Step.Looks : Step → Prop
  | contains (k : Slot) : Looks (.contains k)
  | project {view : View} {subject : Subject} {byValue : Bool} :
    subject.record? = none → Looks (.project view subject byValue)

inductive Step.Reviewed : Step → Step → Prop
  | refl (s : Step) : Reviewed s s
  | project {v w : View} {x y : Subject} {b c : Bool} :
    x.record? = y.record? → Reviewed (.project v x b) (.project w y c)

namespace Projector

open Chronicle

variable {p q r : Projector} {d : Nat} {k : Slot}

def rested (p : Projector) : Projector := { p with history := [] }

theorem answer_rested (p : Projector) (s : Step) : p.rested.answer s = p.answer s := rfl

theorem answer_congr (h : q.rested = p.rested) (s : Step) : q.answer s = p.answer s := by
  rw [← answer_rested, h, answer_rested]

/-- What is left out goes unnoticed where the two projectors stay alike: after a step that both
make, with the same answer, and after one that only the second makes. -/
theorem run_without {R : Projector → Projector → Prop} {D : Nat → Bool} {ss : List Step}
    (hkeep : ∀ i s q, D i = false → ss[i]? = some s → R q (p.after (ss.take i)) →
      (q.answer s).2 = ((p.after (ss.take i)).answer s).2 ∧
        R (q.answer s).1 ((p.after (ss.take i)).answer s).1)
    (hdrop : ∀ i s q, D i = true → ss[i]? = some s → R q (p.after (ss.take i)) →
      R q ((p.after (ss.take i)).answer s).1)
    (h : R q p) : q.run (without D ss) = without D (p.run ss) := by
  induction ss generalizing p q D with
  | nil => rfl
  | cons s ss ih =>
    have hrest (q : Projector) (h : R q (p.answer s).1) :
        q.run (without (fun i => D (i + 1)) ss) =
          without (fun i => D (i + 1)) ((p.answer s).1.run ss) :=
      ih (fun i => hkeep (i + 1)) (fun i => hdrop (i + 1)) h
    rw [run]
    cases hD : D 0 with
    | true =>
      rw [without_cons_of_pos hD, without_cons_of_pos hD]
      exact hrest q (hdrop 0 s q hD rfl h)
    | false =>
      obtain ⟨hanswer, hnext⟩ := hkeep 0 s q hD rfl h
      rw [without_cons_of_neg hD, without_cons_of_neg hD, run]
      exact congrArg₂ List.cons hanswer (hrest _ hnext)

theorem rested_of_looks {s : Step} (h : s.Looks) : (p.answer s).1.rested = p.rested := by
  cases h with
  | contains k => rfl
  | @project view subject byValue hs =>
    change (columns p.rested subject).1.rested = p.rested
    rw [columns, hs]
    rfl

def begun (p : Projector) : Nat := (asks (p.record [])).length

theorem begun_le_of_suffix (hc : q.catalog = p.catalog) (hs : p.history <:+ q.history) :
    p.begun ≤ q.begun := by
  obtain ⟨ls, hl⟩ := record_of_suffix hc hs []
  rw [begun, begun, hl, asks_append, List.length_append]
  exact Nat.le_add_left _ _

theorem Becomes.begun_le (h : Becomes p q) : p.begun ≤ q.begun :=
  begun_le_of_suffix h.catalog_eq h.history_suffix

theorem begun_fetchWith {again : Slot → Projector → Projector} (h : ∀ k p, Becomes p (again k p))
    (k : Slot) (p : Projector) : p.begun < (fetchWith again k p).1.begun := by
  have hasked : (p.emit (.asked k)).begun = p.begun + 1 := rfl
  have hc : (fetchWith again k p).1.catalog = (p.emit (.asked k)).catalog :=
    (becomes_fetchWith h k p).catalog_eq
  have hle := begun_le_of_suffix hc (fetchWith_history_suffix h k p)
  omega

theorem begun_visit (hd : p.callbacks.length ≤ d) (hk : p.next k ≠ []) :
    p.begun < (visit (again d) p (.opened k)).begun := by
  obtain ⟨c, hc, -⟩ := exists_callback hk
  have hpos := List.length_pos_of_mem hc
  obtain ⟨e, rfl⟩ : ∃ e, d = e + 1 := ⟨d - 1, by omega⟩
  obtain ⟨j, js, hj⟩ := List.exists_cons_of_ne_nil hk
  let r := (p.emit (.visit (.opened k))).spend k
  have hfirst : r.begun < (again (e + 1) j r).begun := begun_fetchWith (becomes_again e) j r
  have hrest := becomes_foldl (fun p k => becomes_again (e + 1) k p) (again (e + 1) j r) js
  change r.begun < ((p.next k).foldl (fun p k => again (e + 1) k p) r).begun
  rw [hj]
  exact Nat.lt_of_lt_of_le hfirst hrest.begun_le

def passed (p : Projector) : Visit → Projector
  | .cut owner k => p.emit (.visit (.cut owner k))
  | .opened k => (p.emit (.visit (.opened k))).spend k

def Passes (p : Projector) (v : Visit) : Prop := ∀ k, v = .opened k → p.next k = []

theorem visit_of_passes {v : Visit} (h : p.Passes v) (again : Slot → Projector → Projector) :
    visit again p v = p.passed v := by
  cases v with
  | cut owner k => rfl
  | opened k =>
    have hk : (p.emit (.visit (.opened k))).next k = [] := h k rfl
    simp only [visit, hk, List.foldl_nil, passed]

theorem passes_of_begun {v : Visit} (hd : p.callbacks.length ≤ d)
    (hb : (visit (again d) p v).begun ≤ p.begun) : p.Passes v := by
  rintro k rfl
  by_contra hk
  exact absurd (begun_visit hd hk) (Nat.not_lt_of_le hb)

theorem Lags.passed {v : Visit} (h : Lags q p) (hv : p.Passes v) :
    Lags (q.passed v) (p.passed v) := by
  cases v with
  | cut owner k => exact h.emit _
  | opened k =>
    apply (h.emit (.visit (.opened k))).spend
    exact hv k rfl

theorem Lags.rested (h : Lags q p) : Lags q.rested p.rested :=
  ⟨by rw [h.eq]; rfl, h.callbacks⟩

theorem lags_passed {v : Visit} (hv : p.Passes v) : Lags p.rested (p.passed v).rested := by
  cases v with
  | cut owner k => exact .refl _
  | opened k =>
    have hk : p.rested.next k = [] := hv k rfl
    exact lags_spend hk

theorem begun_passed (p : Projector) (v : Visit) : (p.passed v).begun = p.begun := by
  cases v <;> exact congrArg List.length (asks_cons_of_none rfl)

theorem callbacks_passed_le (p : Projector) (v : Visit) :
    (p.passed v).callbacks.length ≤ p.callbacks.length := by
  cases v with
  | cut owner k => exact Nat.le_refl _
  | opened k => exact List.length_eraseP_le

theorem passes_of_visits {v : Visit} {vs : List Visit} (hd : p.callbacks.length ≤ d)
    (hb : ((v :: vs).foldl (visit (again d)) p).begun ≤ p.begun) : p.Passes v := by
  have hvs := becomes_foldl (becomes_visit (becomes_again d)) (visit (again d) p v) vs
  exact passes_of_begun hd (Nat.le_trans hvs.begun_le hb)

theorem Lags.visits (h : Lags q p) (hd : p.callbacks.length ≤ d) (e : Nat) (vs : List Visit)
    (hb : (vs.foldl (visit (again d)) p).begun ≤ p.begun) :
    Lags (vs.foldl (visit (again e)) q) (vs.foldl (visit (again d)) p) := by
  induction vs generalizing p q with
  | nil => exact h
  | cons v vs ih =>
    have hv : p.Passes v := passes_of_visits hd hb
    have hq : q.Passes v := fun k hk => h.next_eq_nil (hv k hk)
    rw [List.foldl_cons, visit_of_passes hv, ← begun_passed p v] at hb
    rw [List.foldl_cons, List.foldl_cons, visit_of_passes hv, visit_of_passes hq]
    exact ih (h.passed hv) (Nat.le_trans (callbacks_passed_le p v) hd) hb

theorem lags_visits (hd : p.callbacks.length ≤ d) (vs : List Visit)
    (hb : (vs.foldl (visit (again d)) p).begun ≤ p.begun) :
    Lags p.rested (vs.foldl (visit (again d)) p).rested := by
  induction vs generalizing p with
  | nil => exact .refl _
  | cons v vs ih =>
    have hv : p.Passes v := passes_of_visits hd hb
    rw [List.foldl_cons, visit_of_passes hv, ← begun_passed p v] at hb
    rw [List.foldl_cons, visit_of_passes hv]
    exact (lags_passed hv).trans (ih (Nat.le_trans (callbacks_passed_le p v) hd) hb)

theorem begun_le_settle (p : Projector) (k : Slot) (cs : List Column) :
    p.begun ≤ (p.settle k cs).begun := by
  apply begun_le_of_suffix (settle_catalog p k cs)
  rw [settle_history]
  exact ((List.suffix_cons _ _).trans (List.suffix_cons _ _)).trans (List.suffix_append _ _)

theorem Lags.fetch (h : Lags q p) (k : Slot) (hb : (p.fetch k).1.begun ≤ p.begun + 1) :
    Lags (q.fetch k).1 (p.fetch k).1 ∧ (q.fetch k).2 = (p.fetch k).2 := by
  have ha : Lags (q.emit (.asked k)) (p.emit (.asked k)) := h.emit _
  have hcache : (q.emit (.asked k)).cache = (p.emit (.asked k)).cache := by
    rw [ha.eq]
  have hcatalog : (q.emit (.asked k)).catalog = (p.emit (.asked k)).catalog := by
    rw [ha.eq]
  have hasked : (p.emit (.asked k)).begun = p.begun + 1 := rfl
  revert hb
  unfold Projector.fetch fetchWith
  dsimp only
  rw [hcache, hcatalog, ← hasked]
  split
  · exact fun _ => ⟨ha.serve _ _ _, rfl⟩
  · intro hb
    refine ⟨(ha.visits (Nat.le_refl _) _ _ ?_).settle _ _, rfl⟩
    exact Nat.le_trans (begun_le_settle _ _ _) hb

theorem begun_fetches (p : Projector) (js : List Slot) :
    p.begun + js.length ≤ (js.foldl (fun p k => (p.fetch k).1) p).begun := by
  induction js generalizing p with
  | nil => exact Nat.le_refl _
  | cons j js ih =>
    have hj : p.begun < (p.fetch j).1.begun := begun_fetchWith (becomes_again _) j p
    have hjs := ih (p.fetch j).1
    rw [List.length_cons, List.foldl_cons]
    omega

theorem Lags.fetches (h : Lags q p) (js : List Slot)
    (hb : (js.foldl (fun p k => (p.fetch k).1) p).begun ≤ p.begun + js.length) :
    Lags (js.foldl (fun p k => (p.fetch k).1) q) (js.foldl (fun p k => (p.fetch k).1) p) := by
  induction js generalizing p q with
  | nil => exact h
  | cons j js ih =>
    have hj : p.begun < (p.fetch j).1.begun := begun_fetchWith (becomes_again _) j p
    have hjs := begun_fetches (p.fetch j).1 js
    rw [List.length_cons] at hb
    change (js.foldl (fun p k => (p.fetch k).1) (p.fetch j).1).begun ≤ _ at hb
    apply ih (h.fetch j ?_).1
    · omega
    · omega

theorem begun_of_direct {s : Step} (hd : p.Direct [s]) :
    (p.answer s).1.begun = s.requests.length := by
  have ha : asks (p.chronicle [s]) = [s].flatMap Step.requests := hd
  rw [chronicle_cons, asks_append, asks_reverse, List.flatMap_cons, List.flatMap_nil,
    List.append_nil] at ha
  have hlen := congrArg List.length ha
  rwa [List.length_append, List.length_reverse] at hlen

theorem Lags.step (h : Lags q.rested p.rested) {s : Step} (hd : p.Direct [s]) :
    Lags (q.rested.step s).1 (p.rested.step s).1 ∧ (q.rested.step s).2 = (p.rested.step s).2 := by
  have hb : (p.rested.step s).1.begun = s.requests.length := begun_of_direct hd
  have hcatalog : q.rested.catalog = p.rested.catalog := by
    rw [h.eq]
  cases s with
  | project view subject byValue =>
    change (columns p.rested subject).1.begun = subject.record?.toList.length at hb
    change Lags (columns q.rested subject).1 (columns p.rested subject).1 ∧
      view.render (columns q.rested subject).2 = view.render (columns p.rested subject).2
    unfold columns at hb ⊢
    cases hs : subject.record? with
    | none => exact ⟨h, rfl⟩
    | some k =>
      rw [hs] at hb
      obtain ⟨hlag, hcolumns⟩ := h.fetch k (Nat.le_of_eq hb)
      exact ⟨hlag, congrArg view.render hcolumns⟩
  | contains k =>
    refine ⟨h, ?_⟩
    change Output.flag (q.rested.cache.contains k) = Output.flag (p.rested.cache.contains k)
    rw [h.eq]
  | resolve record =>
    change Lags (q.rested.resolve record).1 (p.rested.resolve record).1 ∧
      Output.list (Column.names (q.rested.resolve record).2) =
        Output.list (Column.names (p.rested.resolve record).2)
    unfold resolve
    rw [hcatalog]
    exact ⟨h.visits (Nat.le_refl _) _ _ (Nat.le_of_eq hb), rfl⟩
  | define k d callbacks => exact ⟨h.define k d callbacks, rfl⟩
  | sweep first last =>
    have hlen : (p.rested.step (.sweep first last)).1.begun ≤
        p.rested.begun + (Step.sweep first last).requests.length := by
      rw [hb]
      exact Nat.le_add_left _ _
    exact ⟨h.fetches _ hlen, rfl⟩

theorem answer_snd (p : Projector) (s : Step) : (p.answer s).2 =
    ⟨(p.rested.step s).2, (p.rested.step s).1.cache, (p.rested.step s).1.stats,
      (p.rested.step s).1.history.reverse, (match s with
        | .sweep _ _ => []
        | _ => Event.log ((p.rested.step s).1.history.reverse.map (·.event)))⟩ := rfl

theorem Lags.answer (h : Lags q.rested p.rested) {s : Step} (hd : p.Direct [s]) :
    (q.answer s).2 = (p.answer s).2 ∧ Lags (q.answer s).1.rested (p.answer s).1.rested := by
  obtain ⟨hlag, hout⟩ := h.step hd
  refine ⟨?_, hlag.rested⟩
  rw [answer_snd, answer_snd, hout, hlag.eq]

theorem lags_resolve {record : Option Slot} (hd : p.Direct [.resolve record]) :
    Lags p.rested (p.answer (.resolve record)).1.rested := by
  have hb : (p.answer (.resolve record)).1.begun = 0 := begun_of_direct hd
  have hzero : (p.answer (.resolve record)).1.begun ≤ p.rested.begun :=
    Nat.le_trans (Nat.le_of_eq hb) (Nat.zero_le _)
  exact lags_visits (p := p.rested) (Nat.le_refl _) _ hzero

theorem answer_reviewed {s t : Step} (h : s.Reviewed t) (p : Projector) :
    (p.answer t).1 = (p.answer s).1 ∧
      (p.answer t).2 = { (p.answer s).2 with output := (p.answer t).2.output } := by
  cases h with
  | refl s => exact ⟨rfl, rfl⟩
  | @project v w x y b c hr =>
    have hc : columns { p with history := [] } y = columns { p with history := [] } x := by
      rw [columns, columns, hr]
    rw [answer, answer, step, step, hc]
    exact ⟨rfl, rfl⟩

theorem after_reviewed {ss ts : List Step} (h : List.Forall₂ Step.Reviewed ss ts) (p : Projector) :
    p.after ts = p.after ss := by
  induction h generalizing p with
  | nil => rfl
  | @cons s t ss ts hs _ ih =>
    change (p.answer t).1.after ts = (p.answer s).1.after ss
    rw [(answer_reviewed hs p).1]
    exact ih _

theorem run_reviewed {ss ts : List Step} (h : List.Forall₂ Step.Reviewed ss ts) {i : Nat}
    {s t : Step} (hs : ss[i]? = some s) (ht : ts[i]? = some t) : ∃ a b : Answer,
      (p.run ss)[i]? = some a ∧ (p.run ts)[i]? = some b ∧
      b = { a with output := b.output } ∧ (s = t → a = b) := by
  have hst : s.Reviewed t := by
    obtain ⟨hls, rfl⟩ := List.getElem?_eq_some_iff.mp hs
    obtain ⟨hlt, rfl⟩ := List.getElem?_eq_some_iff.mp ht
    exact h.get hls hlt
  have hafter := after_reviewed (List.forall₂_take i h) p
  rw [run_getElem?, run_getElem?, hs, ht, hafter]
  refine ⟨_, _, rfl, rfl, (answer_reviewed hst _).2, ?_⟩
  rintro rfl
  rfl

/-- A run without steps that only look goes on as the run with them. Where no projection is made but
those that steps ask for, resolutions past the cache can be left out as well. How a projection is
shown makes a difference to what it gives, and to nothing else. -/
theorem observers_leave_no_trace (capacity : Nat) (h : 0 < capacity)
    (records : List (Descriptor × List (List Slot))) (ss : List Step) :
    let p := start (.empty capacity h) records
    (∀ D : Nat → Bool, (∀ i s, D i = true → ss[i]? = some s → s.Looks) →
      p.run (without D ss) = without D (p.run ss)) ∧
    (p.Direct ss → ∀ D : Nat → Bool,
      (∀ i s, D i = true → ss[i]? = some s → s.Looks ∨ ∃ record, s = .resolve record) →
      p.run (without D ss) = without D (p.run ss)) ∧
    ∀ ts : List Step, List.Forall₂ Step.Reviewed ss ts →
      ∀ (i : Nat) (s t : Step), ss[i]? = some s → ts[i]? = some t → ∃ a b : Answer,
        (p.run ss)[i]? = some a ∧ (p.run ts)[i]? = some b ∧
        b = { a with output := b.output } ∧ (s = t → a = b) := by
  intro p
  refine ⟨fun D hD => ?_, fun hd D hD => ?_, fun ts hts i s t hs ht => run_reviewed hts hs ht⟩
  · apply run_without (R := fun q p => q.rested = p.rested)
    · intro i s q _ _ hq
      rw [answer_congr hq s]
      exact ⟨rfl, rfl⟩
    · intro i s q hi hs hq
      exact hq.trans (rested_of_looks (hD i s hi hs)).symm
    · rfl
  · apply run_without (R := fun q p => Lags q.rested p.rested)
    · intro i s q _ hs hq
      exact hq.answer (hd.single hs)
    · intro i s q hi hs hq
      rcases hD i s hi hs with hlook | ⟨record, rfl⟩
      · rwa [rested_of_looks hlook]
      · exact hq.trans (lags_resolve (hd.single hs))
    · exact .refl _

theorem observers_leave_no_trace_between :
    let records : List (Descriptor × List (List Slot)) :=
      [(⟨0, "R0", [.ofIdent "A"]⟩, []), (⟨1, "R1", [.ofIdent "B"]⟩, [[], [0]])]
    let p := start (.empty 1 Nat.one_pos) records
    let ss : List Step := [.project .names (.record 0) false, .contains 1, .resolve (some 1),
      .project .expression .nothing true, .project .names (.behind .option (.record 0)) true]
    let ts : List Step := [.project .expression (.record 0) false, .contains 1, .resolve (some 1),
      .project .expression .nothing true, .project .names (.record 0) false]
    let looks : Nat → Bool := fun i => i == 1 || i == 3
    let past : Nat → Bool := fun i => i == 1 || i == 2 || i == 3
    0 < 1 ∧ p.Direct ss ∧
    (∀ i s, looks i = true → ss[i]? = some s → s.Looks) ∧
    (∀ i s, past i = true → ss[i]? = some s → s.Looks ∨ ∃ record, s = .resolve record) ∧
    List.Forall₂ Step.Reviewed ss ts ∧
    p.run (without looks ss) = without looks (p.run ss) ∧
    p.run (without past ss) = without past (p.run ss) ∧
    ∃ a b : Answer, (p.run ss)[4]? = some a ∧ (p.run ts)[4]? = some b ∧
      b = { a with output := b.output } ∧ a.output = .list ["a"] ∧ a.stats = ⟨1, 1, 0⟩ := by
  intro records p ss ts looks past
  have hdirect : p.Direct ss := by decide +kernel
  have hlooks : ∀ i s, looks i = true → ss[i]? = some s → s.Looks := by
    intro i s hi hs
    rcases (by simpa [looks] using hi : i = 1 ∨ i = 3) with rfl | rfl
    · cases hs
      exact .contains 1
    · cases hs
      exact .project rfl
  have hpast : ∀ i s, past i = true → ss[i]? = some s →
      s.Looks ∨ ∃ record, s = .resolve record := by
    intro i s hi hs
    rcases (by simpa [past, or_assoc] using hi : i = 1 ∨ i = 2 ∨ i = 3) with rfl | rfl | rfl
    · exact .inl (hlooks 1 s rfl hs)
    · cases hs
      exact .inr ⟨some 1, rfl⟩
    · exact .inl (hlooks 3 s rfl hs)
  have hts : List.Forall₂ Step.Reviewed ss ts :=
    .cons (.project rfl) (.cons (.refl _) (.cons (.refl _) (.cons (.refl _)
      (.cons (.project rfl) .nil))))
  obtain ⟨h₁, h₂, h₃⟩ := observers_leave_no_trace 1 Nat.one_pos records ss
  obtain ⟨a, b, ha, hb, hab, -⟩ := h₃ ts hts 4 _ _ rfl rfl
  have hout : (p.run ss)[4]?.map (fun a => (a.output, a.stats)) =
      some (.list ["a"], ⟨1, 1, 0⟩) := by decide +kernel
  rw [ha, Option.map_some, Option.some.injEq, Prod.mk.injEq] at hout
  exact ⟨Nat.one_pos, hdirect, hlooks, hpast, hts, h₁ looks hlooks, h₂ hdirect past hpast,
    a, b, ha, hb, hab, hout⟩

end Projector

end SelectList
