import Mathlib.Data.Finset.Card
import SelectList.Proofs.Reach

/-!
The walk with the open records on a stack that is handed on, and with a bound on how deep it goes.
The stack comes back from every record as it was, so that this is the walk over again, and a bound
above the number of records is never reached.
-/

namespace SelectList

structure Call where
  before : List Slot
  after : List Slot
deriving DecidableEq, Repr

structure Progress where
  walked : Walked := {}
  calls : List Call := []
  stack : List Slot

namespace Progress

def add (w : Walked) (p : Progress) : Progress := { p with walked := p.walked ++ w }

def enter (t : Catalog) (deeper : List Slot → String → List Field → Option Progress)
    (owner : String) (k : Slot) (within : RawColumn → RawColumn) (p : Progress) : Option Progress :=
  if k ∈ p.stack then some (p.add (.visit (.cut owner k)))
  else
    (deeper (k :: p.stack) (t.describe k).typeName (t.describe k).fields).map fun q => {
      walked := p.walked ++ ⟨q.walked.columns.map within, .opened k :: q.walked.visits⟩
      calls := p.calls ++ ⟨k :: p.stack, q.stack⟩ :: q.calls
      stack := q.stack.tail }

def field (t : Catalog) (deeper : List Slot → String → List Field → Option Progress)
    (owner : String) (p : Progress) (f : Field) : Option Progress :=
  match f.role with
  | .hidden => some p
  | .json name => some (p.add (.column (.json name)))
  | .plain name => some (p.add (.column (.plain name)))
  | .promoted k => p.enter t deeper owner k id
  | .expanded name k =>
    (p.enter t deeper owner k (.under name)).map (add (.column (.plain name)))

end Progress

/-- Walks on no more than `levels` levels, the first one included. Below that it gives up. -/
def Catalog.walkWithin (t : Catalog) :
    (levels : Nat) → List Slot → String → List Field → Option Progress
  | 0, _, _, _ => none
  | levels + 1, stack, owner, fs =>
    fs.foldlM (Progress.field t (walkWithin t levels) owner) { stack }

structure Call.Orderly (records : Finset Slot) (stack : List Slot) (c : Call) : Prop where
  restored : c.after = c.before
  pushed : ∃ ks, c.before = ks ++ stack ∧ ks.Nodup ∧ ∀ k ∈ ks, k ∈ records ∧ k ∉ stack

def Progress.Grows (records : Finset Slot) (p : Progress) (w : Walked) (r : Option Progress) :
    Prop :=
  ∃ calls, r = some ⟨p.walked ++ w, p.calls ++ calls, p.stack⟩ ∧
    ∀ c ∈ calls, c.Orderly records p.stack

def Progress.Deepens (t : Catalog) (records : Finset Slot)
    (deeper : List Slot → String → List Field → Option Progress) (stack : List Slot) (k : Slot) :
    Prop :=
  k ∈ records ∧
    Grows records { stack := k :: stack }
      (t.walk (k :: stack) (t.describe k).typeName (t.describe k).fields)
      (deeper (k :: stack) (t.describe k).typeName (t.describe k).fields)

variable {t : Catalog} {records : Finset Slot} {stack : List Slot} {owner : String} {k : Slot}
  {c : Call} {deeper : List Slot → String → List Field → Option Progress} {p : Progress}
  {w w' : Walked} {r : Option Progress} {fs : List Field}

theorem Call.orderly_self (hk : k ∈ records) (hm : k ∉ stack) :
    Orderly records stack ⟨k :: stack, k :: stack⟩ :=
  ⟨rfl, [k], rfl, List.nodup_singleton k, by simp [hk, hm]⟩

theorem Call.Orderly.below (h : Orderly records (k :: stack) c) (hk : k ∈ records)
    (hm : k ∉ stack) : Orderly records stack c := by
  obtain ⟨ks, hb, hn, hks⟩ := h.pushed
  refine ⟨h.restored, ks ++ [k], by simp [hb], ?_, ?_⟩
  · apply List.Nodup.append hn (List.nodup_singleton k)
    intro j hj hjk
    apply (hks j hj).2
    exact List.mem_cons.mpr (.inl (List.mem_singleton.mp hjk))
  · intro j hj
    rcases List.mem_append.mp hj with hj | hj
    · obtain ⟨hr, hs⟩ := hks j hj
      exact ⟨hr, fun h => hs (List.mem_cons_of_mem k h)⟩
    · rw [List.mem_singleton.mp hj]
      exact ⟨hk, hm⟩

namespace Progress

theorem grows_some : Grows records p {} (some p) :=
  ⟨[], by simp only [Walked.append_nil, List.append_nil], by simp⟩

theorem grows_add (p : Progress) (w : Walked) : Grows records p w (some (p.add w)) :=
  ⟨[], by rw [List.append_nil, add], by simp⟩

theorem Grows.bind {g : Progress → Option Progress} (h : Grows records p w r)
    (hg : ∀ q : Progress, q.stack = p.stack → Grows records q w' (g q)) :
    Grows records p (w ++ w') (r.bind g) := by
  obtain ⟨calls, rfl, hc⟩ := h
  obtain ⟨calls', hr, hc'⟩ := hg ⟨p.walked ++ w, p.calls ++ calls, p.stack⟩ rfl
  refine ⟨calls ++ calls', ?_, ?_⟩
  · rw [Option.bind_some, hr, Walked.append_assoc, List.append_assoc]
  · intro c hm
    rcases List.mem_append.mp hm with hm | hm
    · exact hc c hm
    · exact hc' c hm

theorem Grows.add (h : Grows records p w r) (w' : Walked) :
    Grows records p (w ++ w') (r.map (Progress.add w')) := by
  rw [Option.map_eq_bind]
  exact h.bind fun q _ => grows_add q w'

theorem grows_enter (within : RawColumn → RawColumn)
    (h : k ∉ p.stack → Deepens t records deeper p.stack k) :
    Grows records p
      (if k ∈ p.stack then .visit (.cut owner k)
       else
        let w := t.walk (k :: p.stack) (t.describe k).typeName (t.describe k).fields
        ⟨w.columns.map within, .opened k :: w.visits⟩)
      (p.enter t deeper owner k within) := by
  unfold enter
  by_cases hk : k ∈ p.stack
  · rw [if_pos hk, if_pos hk]
    exact grows_add p _
  · obtain ⟨hr, calls, hq, hc⟩ := h hk
    rw [if_neg hk, if_neg hk, hq]
    -- the record is left with the stack it was entered with, so that the pop undoes the push
    refine ⟨⟨k :: p.stack, k :: p.stack⟩ :: calls, ?_, ?_⟩
    · simp only [Option.map_some, Walked.nil_append, List.nil_append, List.tail_cons]
    · intro c hm
      rcases List.mem_cons.mp hm with rfl | hm
      · exact Call.orderly_self hr hk
      · exact (hc c hm).below hr hk

theorem grows_field (f : Field)
    (h : ∀ k, f.Expands k → k ∉ p.stack → Deepens t records deeper p.stack k) :
    Grows records p (t.entered p.stack owner f ++ ⟨f.role.column?.toList, []⟩)
      (p.field t deeper owner f) := by
  unfold field Catalog.entered
  cases hr : f.role with
  | hidden => exact grows_some
  | json name => exact grows_add p _
  | plain name => exact grows_add p _
  | promoted k =>
    have he : f.Expands k := Field.target?_eq_some_iff.mp (by rw [hr]; rfl)
    apply Eq.subst (motive := fun w => Grows records p w _) (Walked.append_nil _).symm
    exact grows_enter (Role.promoted k).within (h k he)
  | expanded name k =>
    have he : f.Expands k := Field.target?_eq_some_iff.mp (by rw [hr]; rfl)
    exact (grows_enter (Role.expanded name k).within (h k he)).add (.column (.plain name))

theorem grows_foldlM
    (h : ∀ f ∈ fs, ∀ k, f.Expands k → k ∉ stack → Deepens t records deeper stack k)
    (hp : p.stack = stack) :
    Grows records p (t.walk stack owner fs) (fs.foldlM (field t deeper owner) p) := by
  induction fs generalizing p with
  | nil =>
    rw [Catalog.walk_nil]
    exact grows_some
  | cons f fs ih =>
    obtain ⟨hf, hfs⟩ := List.forall_mem_cons.mp h
    rw [Catalog.walk_cons, List.foldlM_cons]
    subst hp
    exact (grows_field f hf).bind fun q hq => ih hfs hq

end Progress

namespace Catalog

theorem grows_walkWithin (levels : Nat) (hr : ∀ k, t.Leads fs k → k ∈ records)
    (hl : (records \ stack.toFinset).card < levels) :
    Progress.Grows records { stack } (t.walk stack owner fs)
      (t.walkWithin levels stack owner fs) := by
  induction levels generalizing stack owner fs with
  | zero => omega
  | succ levels ih =>
    apply Progress.grows_foldlM _ rfl
    intro f hf k he hk
    have hm : k ∈ records := hr k (.expands hf he)
    -- the records that are not open yet bound the levels that are left
    have hlt : (records \ (k :: stack).toFinset).card < (records \ stack.toFinset).card := by
      rw [List.toFinset_cons, Finset.sdiff_insert]
      apply Finset.card_erase_lt_of_mem
      exact Finset.mem_sdiff.mpr ⟨hm, by rwa [List.mem_toFinset]⟩
    have hl' : (records \ (k :: stack).toFinset).card < levels := by omega
    exact ⟨hm, ih (fun j hj => hr j (.through hf he hj)) hl'⟩

/-- Inside of a description no more records are open at a time than it leads to, none of them twice
and none of them its own. Each is left with the stack with which it was entered, and a walk that may
go deeper by a level than there are records comes to what the walk without bounds comes to. -/
theorem nesting_bounded (t : Catalog) (d : Descriptor) (records : Finset Slot) (levels : Nat)
    (hr : ∀ k, t.Leads d.fields k → k ∈ records) (hl : records.card + 1 ≤ levels) :
    ∃ calls, t.walkWithin levels [d.id] d.typeName d.fields = some ⟨t.collect d, calls, [d.id]⟩ ∧
      ∀ c ∈ calls, c.after = c.before ∧ ∃ pushed, c.before = pushed ++ [d.id] ∧ pushed.Nodup ∧
        d.id ∉ pushed ∧ pushed.length ≤ records.card := by
  have hlt : (records \ [d.id].toFinset).card < levels :=
    Nat.lt_of_le_of_lt (Finset.card_le_card Finset.sdiff_subset) hl
  have hg : Progress.Grows records { stack := [d.id] } (t.walk [d.id] d.typeName d.fields)
      (t.walkWithin levels [d.id] d.typeName d.fields) := grows_walkWithin levels hr hlt
  obtain ⟨calls, hw, hc⟩ := hg
  refine ⟨calls, ?_, fun c hm => ?_⟩
  · rw [hw, Walked.nil_append, List.nil_append, collect]
  · obtain ⟨hrestored, ks, hb, hn, hks⟩ := hc c hm
    refine ⟨hrestored, ks, hb, hn, ?_, ?_⟩
    · exact fun h => (hks d.id h).2 (List.mem_singleton_self d.id)
    · rw [← List.toFinset_card_of_nodup hn]
      apply Finset.card_le_card
      intro k hk
      exact (hks k (List.mem_toFinset.mp hk)).1

theorem nesting_bounded_on_cycles :
    let named (n : String) : Field := (Field.ofIdent "").withTag n
    let t : Catalog := .ofList [
      ⟨0, "R0", [(named "a").leadingTo (some 0), (named "b").leadingTo (some 1)]⟩,
      ⟨1, "R1", [(named "c").leadingTo (some 1), (Field.ofIdent "").embedding (some 0)]⟩]
    let d : Descriptor := ⟨7, "D", [(named "x").leadingTo (some 0), (named "y").leadingTo (some 1)]⟩
    (∀ k, t.Leads d.fields k → k ∈ ({0, 1} : Finset Slot)) ∧
    ({0, 1} : Finset Slot).card + 1 ≤ 3 ∧
    (t.walkWithin 2 [d.id] d.typeName d.fields).isNone ∧
    ∃ calls, t.walkWithin 3 [d.id] d.typeName d.fields = some ⟨t.collect d, calls, [d.id]⟩ ∧
      calls.map (·.before) = [[0, 7], [1, 0, 7], [1, 7], [0, 1, 7]] ∧
      calls.map (·.after) = calls.map (·.before) := by
  intro named t d
  have hr : ∀ k, t.Leads d.fields k → k ∈ ({0, 1} : Finset Slot) := by
    intro k hk
    have hm : k ∈ [0, 1] := hk.mem_of_closed (by decide) (by decide)
    simpa using hm
  obtain ⟨calls, hw, hc⟩ := nesting_bounded t d {0, 1} 3 hr (by decide)
  refine ⟨hr, by decide, by decide +kernel, calls, hw, ?_,
    List.map_congr_left fun c hm => (hc c hm).1⟩
  have hb : (t.walkWithin 3 [d.id] d.typeName d.fields).map (·.calls.map (·.before)) =
      some [[0, 7], [1, 0, 7], [1, 7], [0, 1, 7]] := by decide +kernel
  rw [hw] at hb
  exact Option.some.inj hb

end Catalog

end SelectList
