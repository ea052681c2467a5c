import SelectList.Proofs.Violations.Places

namespace SelectList

namespace Attribute

inductive IsArgument : Piece → Prop
  | text (value : String) : IsArgument (.text value)
  | flatten : IsArgument (.word "flatten")

inductive IsList : List Piece → Prop
  | nil : IsList []
  | last {p : Piece} : IsArgument p → IsList [p]
  | cons {p : Piece} {ps : List Piece} : IsArgument p → IsList ps → IsList (p :: .comma :: ps)

def written (args : List Arg) (trailing : Bool) : List Piece :=
  [.comma].intercalate (args.map pieces) ++ if trailing then [.comma] else []

def Allowed (form : AttrForm) : Prop :=
  ∃ delimiter args trailing, form = .listed delimiter args trailing ∧
    IsList (written args trailing) ∧
    ((written args trailing).filterMap Piece.text?).length ≤ 1 ∧
    (.word "flatten" ∈ written args trailing →
      ∀ value ∈ (written args trailing).filterMap Piece.text?, value = "-")

end Attribute

structure Member.Allowed (m : Member) : Prop where
  single : (m.attrs.filter (·.path == Source.ofWord "db")).length ≤ 1
  forms : ∀ a ∈ m.attrs, a.path = Source.ofWord "db" → Attribute.Allowed a.form

structure Item.Derivable (i : Item) : Prop where
  params : ∀ p ∈ i.params, ¬p.isLifetime
  kind : i.kind = .named ∨ i.kind = .unit
  members : i.kind = .named → ∀ m ∈ i.members, m.Allowed

namespace Attribute

theorem map_fst_placed (member attr k : Nat) (args : List Arg) :
    (placed member attr k args).map Prod.fst = [.comma].intercalate (args.map pieces) := by
  fun_induction placed member attr k args with
  | case1 => rfl
  | case2 => simp [Function.comp_def]
  | case3 k a b rest ih =>
    rw [List.map_append, List.map_cons, ih]
    simp [List.intercalate, Function.comp_def]

theorem map_fst_placedList (member attr : Nat) (args : List Arg) (trailing : Bool) :
    (placedList member attr args trailing).map Prod.fst = written args trailing := by
  rw [placedList, written, List.map_append, map_fst_placed]
  cases trailing <;> rfl

theorem argFaults_eq_nil_iff (p : Piece × Place) : argFaults p = [] ↔ IsArgument p.1 := by
  obtain ⟨piece, place⟩ := p
  constructor
  · intro h
    cases piece with
    | text value => exact .text value
    | comma => cases h
    | other => cases h
    | word spelling =>
      by_cases hf : spelling = "flatten"
      · rw [hf]
        exact .flatten
      · rw [argFaults, if_neg hf] at h
        split at h <;> cases h
  · rintro (_ | _) <;> rfl

theorem commaFaults_eq_nil_iff (p : Piece × Place) : commaFaults p = [] ↔ p.1 = .comma := by
  obtain ⟨piece, place⟩ := p
  cases piece <;> simp [commaFaults]

theorem listFaults_eq_nil_iff (ps : Placed) : listFaults ps = [] ↔ IsList (ps.map Prod.fst) := by
  fun_induction listFaults ps with
  | case1 => exact ⟨fun _ => .nil, fun _ => rfl⟩
  | case2 p =>
    rw [argFaults_eq_nil_iff]
    exact ⟨.last, fun h => by cases h; assumption⟩
  | case3 p q rest ih =>
    rw [List.append_eq_nil_iff, List.append_eq_nil_iff, argFaults_eq_nil_iff,
      commaFaults_eq_nil_iff, ih, List.map_cons, List.map_cons]
    constructor
    · rintro ⟨⟨hp, hq⟩, hr⟩
      rw [hq]
      exact .cons hp hr
    · intro h
      generalize hq : q.1 = c at h
      cases h with
      | cons hp hr => exact ⟨⟨hp, rfl⟩, hr⟩

theorem map_fst_texts (ps : Placed) :
    (texts ps).map Prod.fst = (ps.map Prod.fst).filterMap Piece.text? := by
  rw [texts, List.map_filterMap, List.filterMap_map]
  congr 1
  funext p
  cases h : p.1.text? <;> simp [h]

theorem flattens_iff (ps : Placed) : flattens ps = true ↔ .word "flatten" ∈ ps.map Prod.fst := by
  simp [flattens]

theorem flattenViolations_eq_nil_iff (ps : Placed) :
    flattenViolations ps = [] ↔ (.word "flatten" ∈ ps.map Prod.fst →
      ∀ value ∈ (ps.map Prod.fst).filterMap Piece.text?, value = "-") := by
  rw [flattenViolations, ← flattens_iff, ← map_fst_texts]
  cases flattens ps <;> simp

theorem allowed_listed_iff {delimiter : Delimiter} {args : List Arg} {trailing : Bool} :
    Allowed (.listed delimiter args trailing) ↔ IsList (written args trailing) ∧
      ((written args trailing).filterMap Piece.text?).length ≤ 1 ∧
      (.word "flatten" ∈ written args trailing →
        ∀ value ∈ (written args trailing).filterMap Piece.text?, value = "-") := by
  constructor
  · rintro ⟨_, _, _, h, hlist, hone, hflat⟩
    cases h
    exact ⟨hlist, hone, hflat⟩
  · rintro ⟨hlist, hone, hflat⟩
    exact ⟨_, _, _, rfl, hlist, hone, hflat⟩

theorem allowed_iff (member attr : Nat) (form : AttrForm) :
    Allowed form ↔ ownViolations member attr form = [] ∧
      flattenViolations (arguments member attr form) = [] := by
  cases form with
  | bare => simp [Allowed, ownViolations, formFaults]
  | assigned value => simp [Allowed, ownViolations, formFaults]
  | listed delimiter args trailing =>
    have hw : (arguments member attr (.listed delimiter args trailing)).map Prod.fst =
        written args trailing := map_fst_placedList member attr args trailing
    have hl : (texts (arguments member attr (.listed delimiter args trailing))).tail = [] ↔
        ((written args trailing).filterMap Piece.text?).length ≤ 1 := by
      rw [← hw, ← map_fst_texts, List.length_map, ← List.length_eq_zero_iff, List.length_tail]
      omega
    rw [allowed_listed_iff, ownViolations, formFaults, List.nil_append, List.append_eq_nil_iff,
      listFaults_eq_nil_iff, List.map_eq_nil_iff, hl, flattenViolations_eq_nil_iff, hw, and_assoc]

theorem map_fst_relevant (attrs : List Attr) :
    (relevant attrs).map Prod.fst = attrs.filter (·.path == Source.ofWord "db") := by
  rw [relevant]
  conv => rhs; rw [← List.zipIdx_map_fst 0 attrs]
  rw [List.filter_map]
  rfl

end Attribute

open Attribute

theorem Member.allowed_iff_filter (m : Member) :
    m.Allowed ↔ (m.attrs.filter (·.path == Source.ofWord "db")).length ≤ 1 ∧
      ∀ a ∈ m.attrs.filter (·.path == Source.ofWord "db"), Attribute.Allowed a.form := by
  simp only [List.mem_filter, beq_iff_eq, and_imp]
  exact ⟨fun h => ⟨h.single, h.forms⟩, fun h => ⟨h.1, h.2⟩⟩

theorem Member.violations_eq_nil_iff (index : Nat) (m : Member) :
    m.violations index = [] ↔ m.Allowed := by
  rw [m.allowed_iff_filter, ← map_fst_relevant, List.length_map, Member.violations]
  cases relevant m.attrs with
  | nil => simp [Attribute.violations]
  | cons first others =>
    cases others with
    | nil => simp [Attribute.violations, allowed_iff index first.2]
    | cons second others => simp [Attribute.violations]

theorem Member.exists_derive_iff (index : Nat) (m : Member) :
    (∃ f, m.derive index = .ok f) ↔ m.Allowed := by
  obtain ⟨f, hf⟩ := m.derive_eq index
  rw [hf, exists_report_eq_ok, violations_eq_nil_iff]

theorem forall_mem_zipIdx {α : Type} {P : α → Prop} (l : List α) (k : Nat) :
    (∀ p ∈ l.zipIdx k, P p.1) ↔ ∀ a ∈ l, P a := by
  conv => rhs; rw [← List.zipIdx_map_fst k l]
  exact List.forall_mem_map.symm

namespace Item

variable (i : Item)

theorem paramViolations_eq_nil_iff : i.paramViolations = [] ↔ ∀ p ∈ i.params, ¬p.isLifetime := by
  rw [paramViolations, List.map_eq_nil_iff, List.filter_eq_nil_iff]
  exact forall_mem_zipIdx (P := fun p => ¬p.isLifetime) i.params 0

theorem kindViolations_eq_nil_iff : i.kindViolations = [] ↔ i.kind = .named ∨ i.kind = .unit := by
  rw [kindViolations]
  cases i.kind <;> simp

theorem memberViolations_eq_nil_iff :
    i.memberViolations = [] ↔ (i.kind = .named → ∀ m ∈ i.members, m.Allowed) := by
  rw [memberViolations]
  by_cases hk : i.kind = .named
  · rw [if_pos hk, Member.allViolations, List.flatMap_eq_nil_iff, ← forall_mem_zipIdx i.members 0]
    simp [hk, Member.violations_eq_nil_iff]
  · simp [hk]

theorem violations_eq_nil_iff : i.violations = [] ↔ i.Derivable := by
  rw [violations, List.append_eq_nil_iff, List.append_eq_nil_iff, paramViolations_eq_nil_iff,
    kindViolations_eq_nil_iff, memberViolations_eq_nil_iff]
  exact ⟨fun h => ⟨h.1, h.2.1, h.2.2⟩, fun h => ⟨h.params, h.kind, h.members⟩⟩

theorem derive_eq_error_iff (v : Violation) :
    i.derive = .error v ↔ i.violations.head? = some v := by
  obtain ⟨d, hd⟩ := i.derive_eq
  rw [hd, report_eq_error]

/-- A derivation succeeds on the definitions of the language and on no others, and it reports the
first violation of any other one. No member after the one that this is in has any influence. -/
theorem derive_reports_first_violation (i : Item) :
    ((∃ d, i.derive = .ok d) ↔ i.Derivable) ∧
    (∀ v, i.derive = .error v ↔ i.violations.head? = some v) ∧
    ∀ v k later, i.derive = .error v → v.place.member? = some k →
      { i with members := i.members.take (k + 1) ++ later }.derive = .error v := by
  refine ⟨?_, i.derive_eq_error_iff, fun v k later hv hk => ?_⟩
  · obtain ⟨d, hd⟩ := i.derive_eq
    rw [hd, exists_report_eq_ok, violations_eq_nil_iff]
  · rw [derive_eq_error_iff] at hv ⊢
    exact violations_take hv hk later

theorem derive_reports_first_violation_later :
    let first : Member := ⟨"a", Source.ofWord "A", Source.ofWord "pub",
      [⟨Source.ofWord "doc", .assigned "A"⟩,
        ⟨Source.ofWord "db", .listed .parens [.text "x", .text "y", .word "type"] true⟩,
        ⟨Source.ofWord "db", .bare⟩]⟩
    let second : Member := ⟨"b", Source.ofWord "B", [], [⟨Source.ofWord "db", .bare⟩]⟩
    let i : Item := { kind := .named, name := "R", members := [first, second] }
    let v : Violation := ⟨.keyword "type", .arg 0 1 2⟩
    i.derive = .error v ∧ v.place.member? = some 0 ∧
      { i with members := [first] }.derive = .error v := by
  intro first second i v
  have hv : i.derive = .error v := by rfl
  exact ⟨hv, rfl, (derive_reports_first_violation i).2.2 v 0 [] hv rfl⟩

end Item

end SelectList
