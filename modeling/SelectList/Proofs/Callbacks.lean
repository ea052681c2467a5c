import SelectList.Proofs.Projector

namespace SelectList.Projector

variable {p q r : Projector} {k : Slot} {n : Nat}

theorem exists_callback (h : p.next k ≠ []) : ∃ c ∈ p.callbacks, c.1 = k := by
  have hl : p.callbacks.lookup k ≠ none := by
    intro hn
    exact h (by rw [next, hn]; rfl)
  obtain ⟨ks, hk⟩ := Option.ne_none_iff_exists'.mp hl
  obtain ⟨xs, ys, hc, -⟩ := List.lookup_eq_some_iff.mp hk
  exact ⟨(k, ks), by simp [hc], rfl⟩

theorem spend_callbacks_lt (h : p.next k ≠ []) :
    (p.spend k).callbacks.length < p.callbacks.length := by
  obtain ⟨c, hc, hk⟩ := exists_callback h
  have hlen : (p.spend k).callbacks.length = p.callbacks.length - 1 :=
    List.length_eraseP_of_mem hc (by simp [hk])
  have hpos := List.length_pos_of_mem hc
  omega

theorem settle_callbacks (p : Projector) (k : Slot) (cs : List Column) :
    (p.settle k cs).callbacks = p.callbacks := by
  unfold settle store
  dsimp only
  split <;> rfl

theorem Becomes.callbacks_le (h : Becomes p q) : q.callbacks.length ≤ p.callbacks.length := by
  induction h with
  | refl => exact Nat.le_refl _
  | visit _ _ ih => exact ih
  | spend _ _ ih => exact Nat.le_trans (List.length_eraseP_le) ih
  | serve _ _ ih => exact ih
  | settle _ _ _ ih ihr =>
    rw [settle_callbacks]
    exact Nat.le_trans ihr ih

theorem foldl_congr {α : Type} {f g : Projector → α → Projector} (hf : ∀ p x, Becomes p (f p x))
    (hfg : ∀ p x, p.callbacks.length < n → f p x = g p x) (hp : p.callbacks.length < n)
    (xs : List α) : xs.foldl f p = xs.foldl g p := by
  induction xs generalizing p with
  | nil => rfl
  | cons x xs ih =>
    rw [List.foldl_cons, List.foldl_cons, ← hfg p x hp]
    exact ih (Nat.lt_of_le_of_lt (hf p x).callbacks_le hp)

section Reentry

variable {a b : Slot → Projector → Projector} (ha : ∀ k p, Becomes p (a k p))
  (hab : ∀ k p, p.callbacks.length < n → a k p = b k p)
include ha hab

theorem visit_congr (hp : p.callbacks.length < n + 1) (v : Visit) : visit a p v = visit b p v := by
  cases v with
  | cut owner k => rfl
  | opened k =>
    unfold visit
    dsimp only
    by_cases hk : (p.emit (.visit (.opened k))).next k = []
    · rw [hk]
      rfl
    · have hs : ((p.emit (.visit (.opened k))).spend k).callbacks.length < n :=
        Nat.lt_of_lt_of_le (spend_callbacks_lt hk) (Nat.le_of_lt_succ hp)
      exact foldl_congr (fun p k => ha k p) (fun p k => hab k p) hs _

theorem fetchWith_congr (hp : p.callbacks.length < n + 1) (k : Slot) :
    fetchWith a k p = fetchWith b k p := by
  unfold fetchWith
  dsimp only
  split
  · rfl
  · have he : (p.emit (.asked k)).callbacks.length < n + 1 := hp
    rw [foldl_congr (becomes_visit ha) (fun p v hp => visit_congr ha hab hp v) he]

end Reentry

theorem again_congr {m : Nat} (hm : p.callbacks.length < m) (hn : p.callbacks.length < n)
    (k : Slot) : again m k p = again n k p := by
  induction m generalizing n k p with
  | zero => exact absurd hm (Nat.not_lt_zero _)
  | succ m ih =>
    cases n with
    | zero => exact absurd hn (Nat.not_lt_zero _)
    | succ n =>
      have hmin : p.callbacks.length < min m n + 1 := by omega
      have h (k : Slot) (p : Projector) (hp : p.callbacks.length < min m n) :
          again m k p = again n k p := by
        apply ih <;> omega
      rw [again, again, fetchWith_congr (becomes_again m) h hmin]

theorem fetch_eq_of_le (h : p.callbacks.length ≤ n) (k : Slot) :
    fetchWith (again n) k p = p.fetch k := by
  apply fetchWith_congr (becomes_again n) _ (Nat.lt_succ_self _)
  intro j q hq
  exact again_congr (Nat.lt_of_lt_of_le hq h) hq j

def callbacksOf (p : Projector) (k : Slot) : List (List Slot) :=
  (p.callbacks.filter (·.1 == k)).map (·.2)

theorem next_eq (p : Projector) (k : Slot) : p.next k = (p.callbacksOf k).head?.getD [] := by
  have hl (cs : List (Slot × List Slot)) :
      cs.lookup k = ((cs.filter (·.1 == k)).map (·.2)).head? := by
    induction cs with
    | nil => rfl
    | cons c cs ih =>
      obtain ⟨j, ks⟩ := c
      by_cases hj : k = j
      · simp [hj]
      · have hkj : (k == j) = false := by simp [hj]
        rw [List.lookup_cons, hkj, List.filter_cons_of_neg (by simp [Ne.symm hj])]
        exact ih
  rw [next, hl, callbacksOf]

theorem callbacksOf_spend_self (p : Projector) (k : Slot) :
    (p.spend k).callbacksOf k = (p.callbacksOf k).tail := by
  have hl (cs : List (Slot × List Slot)) :
      (cs.eraseP (·.1 == k)).filter (·.1 == k) = (cs.filter (·.1 == k)).tail := by
    induction cs with
    | nil => rfl
    | cons c cs ih =>
      by_cases hc : c.1 = k
      · simp [hc]
      · simpa [hc] using ih
  rw [callbacksOf, callbacksOf, ← List.map_tail]
  exact congrArg (List.map (·.2)) (hl p.callbacks)

theorem callbacksOf_spend_of_ne {j : Slot} (h : j ≠ k) (p : Projector) :
    (p.spend k).callbacksOf j = p.callbacksOf j := by
  have hl (cs : List (Slot × List Slot)) :
      (cs.eraseP (·.1 == k)).filter (·.1 == j) = cs.filter (·.1 == j) := by
    induction cs with
    | nil => rfl
    | cons c cs ih =>
      by_cases hc : c.1 = k
      · simp [hc, Ne.symm h]
      · simp [hc, List.filter_cons, ih]
  exact congrArg (List.map (·.2)) (hl p.callbacks)

/-- The first projector has callbacks yet to run that the second one has run or lost, all of which
project nothing. Nothing else tells them apart. -/
structure Lags (q p : Projector) : Prop where
  eq : q = { p with callbacks := q.callbacks }
  callbacks : ∀ k, ∃ es, (∀ ks ∈ es, ks = []) ∧ q.callbacksOf k = es ++ p.callbacksOf k

theorem Lags.refl (p : Projector) : Lags p p :=
  ⟨rfl, fun _ => ⟨[], nofun, rfl⟩⟩

theorem Lags.trans (h : Lags r q) (h' : Lags q p) : Lags r p := by
  constructor
  · rw [h.eq, h'.eq]
  · intro k
    obtain ⟨es, hes, hr⟩ := h.callbacks k
    obtain ⟨fs, hfs, hq⟩ := h'.callbacks k
    refine ⟨es ++ fs, ?_, by rw [hr, hq, List.append_assoc]⟩
    intro ks hks
    rcases List.mem_append.mp hks with hks | hks
    · exact hes ks hks
    · exact hfs ks hks

theorem Lags.next_eq_nil (h : Lags q p) (hk : p.next k = []) : q.next k = [] := by
  obtain ⟨es, hes, hq⟩ := h.callbacks k
  rw [next_eq, hq]
  cases es with
  | nil => exact (next_eq p k).symm.trans hk
  | cons ks es => exact hes ks List.mem_cons_self

theorem lags_spend (hk : p.next k = []) : Lags p (p.spend k) := by
  refine ⟨rfl, fun j => ?_⟩
  by_cases hj : j = k
  · subst hj
    rw [callbacksOf_spend_self]
    rw [next_eq] at hk
    cases hc : p.callbacksOf j with
    | nil => exact ⟨[], nofun, rfl⟩
    | cons ks rest =>
      rw [hc] at hk
      exact ⟨[ks], by simpa using hk, rfl⟩
  · exact ⟨[], nofun, (callbacksOf_spend_of_ne hj p).symm⟩

theorem Lags.spend (h : Lags q p) (hk : p.next k = []) : Lags (q.spend k) (p.spend k) := by
  refine ⟨by rw [h.eq]; rfl, fun j => ?_⟩
  obtain ⟨es, hes, hq⟩ := h.callbacks j
  by_cases hj : j = k
  · subst hj
    rw [callbacksOf_spend_self, callbacksOf_spend_self, hq]
    cases es with
    | nil => exact ⟨[], nofun, rfl⟩
    | cons ks es =>
      have htail : ∀ ks ∈ es, ks = [] := fun ks hks => hes ks (List.mem_cons_of_mem _ hks)
      obtain ⟨fs, hfs, hp⟩ := (lags_spend hk).callbacks j
      rw [callbacksOf_spend_self] at hp
      refine ⟨es ++ fs, ?_, by rw [List.append_assoc, ← hp]; rfl⟩
      intro ks hks
      rcases List.mem_append.mp hks with hks | hks
      · exact htail ks hks
      · exact hfs ks hks
  · rw [callbacksOf_spend_of_ne hj, callbacksOf_spend_of_ne hj]
    exact ⟨es, hes, hq⟩

theorem Lags.emit (h : Lags q p) (e : Event) : Lags (q.emit e) (p.emit e) :=
  ⟨by rw [h.eq]; rfl, h.callbacks⟩

theorem Lags.serve (h : Lags q p) (k : Slot) (e : Entry) (c : Cache) :
    Lags (q.serve k e c) (p.serve k e c) :=
  ⟨by rw [h.eq]; rfl, h.callbacks⟩

theorem Lags.settle (h : Lags q p) (k : Slot) (cs : List Column) :
    Lags (q.settle k cs) (p.settle k cs) := by
  constructor
  · rw [settle_callbacks, h.eq]
    rcases hs : p.cache.store ⟨k, k.name, cs⟩ with ⟨c, _ | old⟩ <;>
      simp only [Projector.settle, store, Projector.emit, hs]
  · intro j
    rw [callbacksOf, callbacksOf, settle_callbacks, settle_callbacks]
    exact h.callbacks j

theorem callbacksOf_define (p : Projector) (e : Descriptor) (cs : List (List Slot)) (j : Slot) :
    (p.define k e cs).callbacksOf j = if j = k then cs else p.callbacksOf j := by
  rw [callbacksOf, define, List.filter_append, List.map_append, List.filter_filter]
  by_cases hj : j = k
  · have hothers : (p.callbacks.filter fun c => c.1 == j && c.1 != k) = [] := by
      simp [hj]
    have hown : ((cs.map (k, ·)).filter (·.1 == j)).map (·.2) = cs := by
      simp [List.filter_map, Function.comp_def, hj]
    rw [hothers, hown, if_pos hj, List.map_nil, List.append_nil]
  · have hothers : (p.callbacks.filter fun c => c.1 == j && c.1 != k) =
        p.callbacks.filter (·.1 == j) := by
      apply List.filter_congr
      intro c _
      by_cases hc : c.1 = j <;> simp [hc, hj]
    have hown : (cs.map (k, ·)).filter (·.1 == j) = [] := by
      simp [Ne.symm hj]
    rw [hothers, hown, if_neg hj]
    rfl

theorem Lags.define (h : Lags q p) (k : Slot) (e : Descriptor) (cs : List (List Slot)) :
    Lags (q.define k e cs) (p.define k e cs) := by
  refine ⟨by rw [h.eq]; rfl, fun j => ?_⟩
  rw [callbacksOf_define, callbacksOf_define]
  split
  · exact ⟨[], nofun, rfl⟩
  · exact h.callbacks j

end SelectList.Projector
