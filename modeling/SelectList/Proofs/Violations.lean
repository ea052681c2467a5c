import SelectList.Derivation

/-!
All that is wrong with a definition, in the order in which it is looked for and whatever else is
wrong before it. A derivation that fails reports the first of these violations.
-/

namespace SelectList

def report {α : Type} (vs : List Violation) (a : α) : Except Violation α :=
  match vs with
  | [] => .ok a
  | v :: _ => .error v

section

variable {α β : Type} {vs ws : List Violation} {a : α} {b : β} {f : α → Except Violation β}

theorem report_eq_error {v : Violation} : report vs a = .error v ↔ vs.head? = some v := by
  cases vs <;> simp [report]

theorem report_eq_ok {a' : α} : report vs a = .ok a' ↔ vs = [] ∧ a = a' := by
  cases vs <;> simp [report]

theorem exists_report_eq_ok : (∃ b, report vs a = .ok b) ↔ vs = [] := by
  cases vs <;> simp [report]

theorem exists_of_bind_eq_ok {ε : Type} {x : Except ε α} {f : α → Except ε β}
    (h : x.bind f = .ok b) : ∃ a, x = .ok a ∧ f a = .ok b := by
  cases x with
  | error e => cases h
  | ok a => exact ⟨a, rfl, h⟩

theorem report_bind (h : vs = [] → f a = report ws b) :
    (report vs a).bind f = report (vs ++ ws) b := by
  cases vs with
  | nil => exact h rfl
  | cons v vs => rfl

theorem report_bind_ok (h : vs = [] → f a = .ok b) : (report vs a).bind f = report vs b := by
  cases vs with
  | nil => exact h rfl
  | cons v vs => rfl

end

namespace Attribute

def argFaults : Piece × Place → List Violation
  | (.text _, _) => []
  | (.word spelling, place) =>
    if spelling = "flatten" then []
    else if spelling ∈ Source.keywords then [⟨.keyword spelling, place⟩]
    else [⟨.unknownArgument, place⟩]
  | (_, place) => [⟨.notIdentifier, place⟩]

def commaFaults : Piece × Place → List Violation
  | (.comma, _) => []
  | (_, place) => [⟨.missingComma, place⟩]

def listFaults : Placed → List Violation
  | [] => []
  | [p] => argFaults p
  | p :: q :: rest => argFaults p ++ commaFaults q ++ listFaults rest

def Piece.text? : Piece → Option String
  | .text value => some value
  | _ => none

def texts (ps : Placed) : List (String × Place) :=
  ps.filterMap fun p => p.1.text?.map (·, p.2)

def flattens (ps : Placed) : Bool := ps.any (·.1 == .word "flatten")

def arguments (member attr : Nat) : AttrForm → Placed
  | .listed _ args trailing => placedList member attr args trailing
  | _ => []

def formFaults (member attr : Nat) : AttrForm → List Violation
  | .bare => [⟨.missingArguments, .attr member attr⟩]
  | .assigned _ => [⟨.missingDelimiters, .attr member attr⟩]
  | .listed .. => []

def ownViolations (member attr : Nat) (form : AttrForm) : List Violation :=
  let ps := arguments member attr form
  formFaults member attr form ++ listFaults ps ++
    (texts ps).tail.map fun t => ⟨.secondTag, t.2⟩

def flattenViolations (ps : Placed) : List Violation :=
  if flattens ps then
    ((texts ps).filter (·.1 ≠ "-")).map fun t => ⟨.tagOfFlatten, t.2⟩
  else []

def violations (member : Nat) : List (Attr × Nat) → List Violation
  | [] => []
  | (a, j) :: others =>
    ownViolations member j a.form ++
      others.map (fun b => ⟨.secondAttribute, .attr member b.2⟩) ++
      flattenViolations (arguments member j a.form)

end Attribute

def Member.violations (index : Nat) (m : Member) : List Violation :=
  Attribute.violations index (Attribute.relevant m.attrs)

def Member.allViolations (index : Nat) (ms : List Member) : List Violation :=
  (ms.zipIdx index).flatMap fun m => m.1.violations m.2

namespace Item

def paramViolations (i : Item) : List Violation :=
  (i.params.zipIdx.filter (·.1.isLifetime)).map fun p => ⟨.lifetimeParam, .param p.2⟩

def kindViolations (i : Item) : List Violation :=
  match i.kind with
  | .named | .unit => []
  | .tuple => [⟨.unnamedMembers, .item⟩]
  | .enumeration | .union => [⟨.notStructure, .item⟩]

def memberViolations (i : Item) : List Violation :=
  if i.kind = .named then Member.allViolations 0 i.members else []

def violations (i : Item) : List Violation :=
  i.paramViolations ++ (i.kindViolations ++ i.memberViolations)

end Item

namespace Attribute

def reading? : Piece × Place → Option Reading
  | (.text value, place) => some (.tag value place)
  | (.word spelling, _) => if spelling = "flatten" then some .flatten else none
  | _ => none

def Reading.text? : Reading → Option (String × Place)
  | .tag value place => some (value, place)
  | .flatten => none

theorem readPiece_bind {α : Type} {p : Piece × Place} {f : Reading → Except Violation α}
    {ws : List Violation} {a : α} (h : ∀ r, reading? p = some r → f r = report ws a) :
    (readPiece p).bind f = report (argFaults p ++ ws) a := by
  obtain ⟨piece, place⟩ := p
  cases piece with
  | text value => exact h _ rfl
  | comma => rfl
  | other => rfl
  | word spelling =>
    rw [readPiece, argFaults]
    by_cases hf : spelling = "flatten"
    · have hk : spelling ∉ Source.keywords := by
        rw [hf]
        decide
      rw [if_neg hk, if_pos hf, if_pos hf]
      exact h _ (if_pos hf)
    · rw [if_neg hf, if_neg hf]
      by_cases hk : spelling ∈ Source.keywords
      · rw [if_pos hk, if_pos hk]
        rfl
      · rw [if_neg hk, if_neg hk]
        rfl

theorem readAll_eq (ps : Placed) : readAll ps = report (listFaults ps) (ps.filterMap reading?) := by
  fun_induction readAll ps with
  | case1 => rfl
  | case2 p =>
    have hb : (readPiece p).map (fun r => [r]) = (readPiece p).bind fun r => .ok [r] := by
      cases readPiece p <;> rfl
    rw [hb, listFaults, ← List.append_nil (argFaults p)]
    refine readPiece_bind fun r hr => ?_
    rw [List.filterMap_cons_some hr]
    rfl
  | case3 p place rest ih =>
    rw [listFaults, commaFaults, List.append_nil]
    refine readPiece_bind fun r hr => ?_
    rw [ih, List.filterMap_cons_some hr, List.filterMap_cons_none rfl]
    exact report_bind_ok fun _ => rfl
  | case4 p piece place rest hc =>
    have hq : commaFaults (piece, place) = [⟨.missingComma, place⟩] := by
      cases piece with
      | comma => exact (hc rfl).elim
      | _ => rfl
    rw [listFaults, hq, List.append_assoc]
    exact readPiece_bind fun _ _ => rfl

theorem readings_text? (ps : Placed) :
    (ps.filterMap reading?).filterMap Reading.text? = texts ps := by
  have hp : (fun p => (reading? p).bind Reading.text?) = fun p => p.1.text?.map (·, p.2) := by
    funext ⟨piece, place⟩
    cases piece with
    | word spelling =>
      by_cases hf : spelling = "flatten" <;> simp [reading?, hf, Reading.text?, Piece.text?]
    | _ => rfl
  rw [List.filterMap_filterMap, hp]
  rfl

theorem readings_contains_flatten (ps : Placed) :
    (ps.filterMap reading?).contains .flatten = flattens ps := by
  rw [List.contains_eq_any_beq, List.any_filterMap, flattens]
  congr 1
  funext ⟨piece, place⟩
  cases piece with
  | word spelling => by_cases hf : spelling = "flatten" <;> simp [reading?, hf]
  | _ => rfl

def settings (ps : Placed) : Settings := ⟨(texts ps).head?, flattens ps⟩

theorem collect_eq (s : Settings) (rs : List Reading) :
    collect s rs =
      report ((s.tag.toList ++ rs.filterMap Reading.text?).tail.map fun t => ⟨.secondTag, t.2⟩)
        ⟨s.tag.or (rs.filterMap Reading.text?).head?, s.flatten || rs.contains .flatten⟩ := by
  induction rs generalizing s with
  | nil =>
    obtain ⟨tag, flatten⟩ := s
    cases tag <;> simp [collect, report]
  | cons r rs ih =>
    cases r with
    | flatten =>
      rw [collect, ih, List.filterMap_cons_none rfl]
      simp
    | tag value place =>
      have hr : (Reading.tag value place :: rs).filterMap Reading.text? =
          (value, place) :: rs.filterMap Reading.text? := rfl
      rw [collect, hr]
      cases ht : s.tag with
      | some t => rfl
      | none =>
        rw [Option.isSome_none, if_neg Bool.false_ne_true, ih]
        simp

theorem readForm_eq (member attr : Nat) (form : AttrForm) :
    readForm member attr form =
      report (ownViolations member attr form) (settings (arguments member attr form)) := by
  cases form with
  | bare => rfl
  | assigned value => rfl
  | listed delimiter args trailing =>
    rw [readForm, readAll_eq]
    refine report_bind fun _ => ?_
    rw [collect_eq, readings_text?, readings_contains_flatten]
    rfl

theorem checkTag_settings (ps : Placed) (ht : (texts ps).tail = []) :
    checkTag (settings ps) = report (flattenViolations ps) (settings ps) := by
  rw [checkTag, flattenViolations]
  cases hf : flattens ps with
  | false => simp [settings, hf, report]
  | true =>
    cases hp : texts ps with
    | nil => simp [settings, hf, hp, report]
    | cons t ts =>
      have hts : ts = [] := by rwa [hp] at ht
      obtain ⟨value, place⟩ := t
      by_cases hv : value = "-" <;> simp [settings, hf, hp, hts, hv, report]

def firstSettings (member : Nat) : List (Attr × Nat) → Settings
  | [] => {}
  | (a, j) :: _ => settings (arguments member j a.form)

theorem readFirst_checkTag_eq (member : Nat) (attrs : List (Attr × Nat)) :
    (readFirst member attrs).bind checkTag =
      report (violations member attrs) (firstSettings member attrs) := by
  cases attrs with
  | nil => rfl
  | cons first others =>
    obtain ⟨a, j⟩ := first
    have hown : ownViolations member j a.form = [] →
        (texts (arguments member j a.form)).tail = [] := by
      intro h
      exact List.map_eq_nil_iff.mp (List.append_eq_nil_iff.mp h).2
    cases others with
    | nil =>
      rw [readFirst, readForm_eq, violations, List.map_nil, List.append_nil]
      exact report_bind fun h => checkTag_settings _ (hown h)
    | cons second others =>
      -- which settings are passed on does not matter, as there is a violation ahead of them
      have hr : readFirst member ((a, j) :: second :: others) =
          report (ownViolations member j a.form ++
            (second :: others).map fun b => ⟨.secondAttribute, .attr member b.2⟩) {} := by
        rw [readFirst, readForm_eq]
        exact report_bind fun _ => rfl
      rw [hr]
      exact report_bind fun h => by simp at h

end Attribute

theorem Settings.ofAttrs_eq (index : Nat) (m : Member) :
    Settings.ofAttrs index m.attrs = report (m.violations index)
      (Attribute.firstSettings index (Attribute.relevant m.attrs)) :=
  Attribute.readFirst_checkTag_eq index _

theorem Member.derive_eq (index : Nat) (m : Member) :
    ∃ f, m.derive index = report (m.violations index) f := by
  rw [Member.derive, Settings.ofAttrs_eq]
  exact ⟨_, report_bind_ok fun _ => rfl⟩

theorem Member.deriveAll_eq (index : Nat) (ms : List Member) :
    ∃ fs, Member.deriveAll index ms = report (Member.allViolations index ms) fs := by
  induction ms generalizing index with
  | nil => exact ⟨[], rfl⟩
  | cons m ms ih =>
    obtain ⟨fs, hfs⟩ := ih (index + 1)
    obtain ⟨f, hf⟩ := m.derive_eq index
    refine ⟨f :: fs, ?_⟩
    rw [Member.deriveAll, hf, Member.allViolations, List.zipIdx_cons, List.flatMap_cons]
    refine report_bind fun _ => ?_
    rw [hfs]
    exact report_bind_ok fun _ => rfl

namespace Item

variable (i : Item)

theorem checkParams_eq : i.checkParams = report i.paramViolations () := by
  rw [checkParams, List.findIdx?_eq_fst_find?_zipIdx, paramViolations]
  rw [← List.head?_filter]
  cases (i.params.zipIdx.filter (·.1.isLifetime)) <;> rfl

theorem membersOfKind_eq :
    ∃ ms, i.membersOfKind = report i.kindViolations ms ∧
      i.memberViolations = Member.allViolations 0 ms := by
  rw [membersOfKind, kindViolations, memberViolations]
  cases i.kind with
  | named => exact ⟨i.members, rfl, rfl⟩
  | _ => exact ⟨[], rfl, rfl⟩

theorem membersOfKind_eq_ok_iff {ms : List Member} :
    i.membersOfKind = .ok ms ↔ i.kind = .named ∧ ms = i.members ∨ i.kind = .unit ∧ ms = [] := by
  rw [membersOfKind]
  cases i.kind <;> simp [eq_comm]

theorem derive_eq : ∃ d, i.derive = report i.violations d := by
  obtain ⟨ms, hms, hm⟩ := i.membersOfKind_eq
  obtain ⟨fs, hfs⟩ := Member.deriveAll_eq 0 ms
  refine ⟨⟨i.name, fs, traits.map i.implementation⟩, ?_⟩
  rw [derive, checkParams_eq, violations]
  refine report_bind fun _ => ?_
  rw [hms]
  refine report_bind fun _ => ?_
  rw [hfs, hm]
  exact report_bind_ok fun _ => rfl

end Item

end SelectList
