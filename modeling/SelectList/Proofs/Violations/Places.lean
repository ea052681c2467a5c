import SelectList.Proofs.Violations

namespace SelectList

def Place.member? : Place → Option Nat
  | .member k | .attr k _ | .arg k _ _ => some k
  | .item | .param _ => none

namespace Attribute

theorem member?_of_mem_placed {member attr k : Nat} {args : List Arg} :
    ∀ p ∈ placed member attr k args, p.2.member? = some member := by
  fun_induction placed member attr k args with
  | case1 => simp
  | case2 k a => simp [Place.member?]
  | case3 k a b rest ih =>
    intro p hp
    rcases List.mem_append.mp hp with hp | hp
    · obtain ⟨q, -, rfl⟩ := List.mem_map.mp hp
      rfl
    · rcases List.mem_cons.mp hp with rfl | hp
      · rfl
      · exact ih p hp

theorem member?_of_mem_arguments {member attr : Nat} {form : AttrForm} :
    ∀ p ∈ arguments member attr form, p.2.member? = some member := by
  intro p hp
  cases form with
  | bare => cases hp
  | assigned value => cases hp
  | listed delimiter args trailing =>
    rcases List.mem_append.mp hp with hp | hp
    · exact member?_of_mem_placed p hp
    · cases trailing with
      | false => cases hp
      | true =>
        rw [List.mem_singleton.mp hp]
        rfl

theorem place_of_mem_argFaults {p : Piece × Place} : ∀ v ∈ argFaults p, v.place = p.2 := by
  obtain ⟨piece, place⟩ := p
  intro v hv
  cases piece with
  | text value => cases hv
  | comma => rw [List.mem_singleton.mp hv]
  | other => rw [List.mem_singleton.mp hv]
  | word spelling =>
    rw [argFaults] at hv
    split at hv
    · cases hv
    · split at hv <;> rw [List.mem_singleton.mp hv]

theorem place_of_mem_commaFaults {p : Piece × Place} : ∀ v ∈ commaFaults p, v.place = p.2 := by
  obtain ⟨piece, place⟩ := p
  intro v hv
  cases piece with
  | comma => cases hv
  | _ => rw [List.mem_singleton.mp hv]

theorem place_of_mem_listFaults {ps : Placed} :
    ∀ v ∈ listFaults ps, ∃ p ∈ ps, v.place = p.2 := by
  fun_induction listFaults ps with
  | case1 => simp
  | case2 p => exact fun v hv => ⟨p, List.mem_singleton.mpr rfl, place_of_mem_argFaults v hv⟩
  | case3 p q rest ih =>
    intro v hv
    rcases List.mem_append.mp hv with hv | hv
    · rcases List.mem_append.mp hv with hv | hv
      · exact ⟨p, by simp, place_of_mem_argFaults v hv⟩
      · exact ⟨q, by simp, place_of_mem_commaFaults v hv⟩
    · obtain ⟨r, hr, hv⟩ := ih v hv
      exact ⟨r, by simp [hr], hv⟩

theorem place_of_mem_texts {ps : Placed} : ∀ t ∈ texts ps, ∃ p ∈ ps, t.2 = p.2 := by
  intro t ht
  obtain ⟨p, hp, ht⟩ := List.mem_filterMap.mp ht
  obtain ⟨value, -, rfl⟩ := Option.map_eq_some_iff.mp ht
  exact ⟨p, hp, rfl⟩

theorem member?_of_mem_violations {member : Nat} {attrs : List (Attr × Nat)} :
    ∀ v ∈ violations member attrs, v.place.member? = some member := by
  cases attrs with
  | nil => simp [violations]
  | cons first others =>
    obtain ⟨a, j⟩ := first
    intro v hv
    rw [violations] at hv
    have htext : ∀ t ∈ texts (arguments member j a.form), t.2.member? = some member := by
      intro t ht
      obtain ⟨p, hp, hpt⟩ := place_of_mem_texts t ht
      rw [hpt]
      exact member?_of_mem_arguments p hp
    simp only [ownViolations, List.mem_append] at hv
    rcases hv with (((hv | hv) | hv) | hv) | hv
    · cases hf : a.form with
      | listed delimiter args trailing => rw [hf] at hv; cases hv
      | _ => rw [hf] at hv; rw [List.mem_singleton.mp hv]; rfl
    · obtain ⟨p, hp, hpv⟩ := place_of_mem_listFaults v hv
      rw [hpv]
      exact member?_of_mem_arguments p hp
    · obtain ⟨t, ht, rfl⟩ := List.mem_map.mp hv
      exact htext t (List.mem_of_mem_tail ht)
    · obtain ⟨b, -, rfl⟩ := List.mem_map.mp hv
      rfl
    · rw [flattenViolations] at hv
      split at hv
      · obtain ⟨t, ht, rfl⟩ := List.mem_map.mp hv
        exact htext t (List.mem_filter.mp ht).1
      · cases hv

end Attribute

namespace Member

theorem allViolations_cons (index : Nat) (m : Member) (ms : List Member) :
    allViolations index (m :: ms) = m.violations index ++ allViolations (index + 1) ms := by
  rw [allViolations, List.zipIdx_cons, List.flatMap_cons]
  rfl

theorem member?_of_mem_allViolations {index : Nat} {ms : List Member} :
    ∀ v ∈ allViolations index ms, ∃ k, index ≤ k ∧ v.place.member? = some k := by
  intro v hv
  obtain ⟨⟨m, k⟩, hm, hv⟩ := List.mem_flatMap.mp hv
  exact ⟨k, List.le_snd_of_mem_zipIdx hm, Attribute.member?_of_mem_violations v hv⟩

theorem allViolations_take {index k : Nat} {ms later : List Member} {v : Violation}
    (hv : (allViolations index ms).head? = some v) (hk : v.place.member? = some k) :
    (allViolations index (ms.take (k + 1 - index) ++ later)).head? = some v := by
  induction ms generalizing index with
  | nil => cases hv
  | cons m ms ih =>
    rw [allViolations_cons] at hv
    cases hm : m.violations index with
    | nil =>
      -- the violation is in a later member, so that this one is among those that are kept
      rw [hm, List.nil_append] at hv
      obtain ⟨k', hle, hk'⟩ := member?_of_mem_allViolations v (List.mem_of_mem_head? hv)
      have hkk : k' = k := Option.some.inj (hk'.symm.trans hk)
      have hn : k + 1 - index = (k + 1 - (index + 1)) + 1 := by omega
      rw [hn, List.take_succ_cons, List.cons_append, allViolations_cons, hm]
      exact ih hv
    | cons w ws =>
      rw [hm] at hv
      cases hv
      have hi : v.place.member? = some index :=
        Attribute.member?_of_mem_violations v (hm ▸ List.mem_cons_self)
      have hkk : index = k := Option.some.inj (hi.symm.trans hk)
      have hn : k + 1 - index = 1 := by omega
      rw [hn, List.take_succ_cons, List.cons_append, allViolations_cons, hm]
      rfl

end Member

namespace Item

theorem member?_of_mem_outerViolations (i : Item) :
    ∀ v ∈ i.paramViolations ++ i.kindViolations, v.place.member? = none := by
  intro v hv
  rcases List.mem_append.mp hv with hv | hv
  · obtain ⟨p, -, rfl⟩ := List.mem_map.mp hv
    rfl
  · rw [kindViolations] at hv
    split at hv
    · cases hv
    · cases hv
    · rw [List.mem_singleton.mp hv]
      rfl
    · rw [List.mem_singleton.mp hv]
      rfl
    · rw [List.mem_singleton.mp hv]
      rfl

theorem violations_take {i : Item} {v : Violation} {k : Nat}
    (hv : i.violations.head? = some v) (hk : v.place.member? = some k) (later : List Member) :
    { i with members := i.members.take (k + 1) ++ later }.violations.head? = some v := by
  rw [violations, ← List.append_assoc] at hv ⊢
  cases ho : i.paramViolations ++ i.kindViolations with
  | cons w ws =>
    rw [ho] at hv
    cases hv
    have hn : v.place.member? = none := member?_of_mem_outerViolations i v (by simp [ho])
    rw [hn] at hk
    cases hk
  | nil =>
    rw [ho, List.nil_append, memberViolations] at hv
    change (i.paramViolations ++ i.kindViolations ++
      { i with members := i.members.take (k + 1) ++ later }.memberViolations).head? = some v
    rw [ho, List.nil_append, memberViolations]
    split at hv
    case isTrue hnamed =>
      rw [if_pos hnamed]
      exact Member.allViolations_take hv hk
    case isFalse => cases hv

end Item

end SelectList
