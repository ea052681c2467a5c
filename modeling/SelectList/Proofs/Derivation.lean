import Mathlib.Data.List.Forall2
import SelectList.Proofs.Derivable
import SelectList.Proofs.Walk
import SelectList.Schema

namespace SelectList

section

variable {R : Member → Member → Prop} {S : DerivedField → DerivedField → Prop}

theorem Item.membersOfKind_forall₂ {i : Item} {members ms : List Member}
    (h : List.Forall₂ R i.members members) (hms : i.membersOfKind = .ok ms) :
    ∃ ns, { i with members }.membersOfKind = .ok ns ∧ List.Forall₂ R ms ns := by
  rcases i.membersOfKind_eq_ok_iff.mp hms with ⟨hk, rfl⟩ | ⟨hk, rfl⟩
  · exact ⟨members, (membersOfKind_eq_ok_iff _).mpr (.inl ⟨hk, rfl⟩), h⟩
  · exact ⟨[], (membersOfKind_eq_ok_iff _).mpr (.inr ⟨hk, rfl⟩), .nil⟩

variable (hRS : ∀ m n k f, R m n → m.derive k = .ok f → ∃ g, n.derive k = .ok g ∧ S f g)
include hRS

theorem Member.deriveAll_forall₂ {ms ns : List Member} {k : Nat} {fs : List DerivedField}
    (h : List.Forall₂ R ms ns) (hfs : deriveAll k ms = .ok fs) :
    ∃ gs, deriveAll k ns = .ok gs ∧ List.Forall₂ S fs gs := by
  induction h generalizing k fs with
  | nil =>
    cases hfs
    exact ⟨[], rfl, .nil⟩
  | @cons m n ms ns hm _ ih =>
    obtain ⟨f, hf, hfs⟩ := exists_of_bind_eq_ok hfs
    obtain ⟨fs, hrest, hfs⟩ := exists_of_bind_eq_ok hfs
    cases hfs
    obtain ⟨g, hg, hfg⟩ := hRS m n k f hm hf
    obtain ⟨gs, hgs, hfgs⟩ := ih hrest
    exact ⟨g :: gs, by rw [deriveAll, hg, hgs]; rfl, .cons hfg hfgs⟩

theorem Item.derive_forall₂ {i : Item} {members : List Member} {d : Derived}
    (h : List.Forall₂ R i.members members) (hd : i.derive = .ok d) :
    ∃ gs, { i with members }.derive = .ok { d with fields := gs } ∧
      List.Forall₂ S d.fields gs := by
  obtain ⟨_, hp, hd⟩ := exists_of_bind_eq_ok hd
  obtain ⟨ms, hms, hd⟩ := exists_of_bind_eq_ok hd
  obtain ⟨fs, hfs, hd⟩ := exists_of_bind_eq_ok hd
  cases hd
  obtain ⟨ns, hns, hmn⟩ := membersOfKind_forall₂ h hms
  obtain ⟨gs, hgs, hfg⟩ := Member.deriveAll_forall₂ hRS hmn hfs
  have hq : { i with members }.checkParams = .ok () := hp
  refine ⟨gs, ?_, hfg⟩
  rw [derive, hq, hns]
  change (Member.deriveAll 0 ns).bind _ = _
  rw [hgs]
  rfl

end

namespace Source

def summands (s : Source) : List Source := (s.splitOn (.mark '+')).filter (!·.isEmpty)

end Source

/-- The text of an implementation's parameter: what is written before the default. A type has one
more bound behind its own, with a mark between them unless there is one. -/
inductive Param.Written : Param → String → Prop
  | type {attributes : Source} {name : String} {bounds : List Source} {default : Option Source}
      {mark : Source} :
      mark = [] ∨ mark = [.mark '+'] ∧ (∃ a ∈ (Source.sum bounds).getLast?, a ≠ .mark '+') →
      (Source.sum bounds ++ mark ++ [Token.lifetime "static".toList]).summands =
        bounds.flatMap Source.summands ++ [[Token.lifetime "static".toList]] →
      Written (.type attributes name bounds default) (attributes.text ++ name ++ ":" ++
        (Source.sum bounds ++ mark ++ [Token.lifetime "static".toList]).text)
  | const {name : String} {ty : Source} {default : Option Source} :
      Written (.const name ty default) ("const" ++ name ++ ":" ++ ty.text)

def AttrForm.written : AttrForm → List Attribute.Piece
  | .listed _ args trailing => Attribute.written args trailing
  | _ => []

def Member.written (m : Member) : List Attribute.Piece :=
  (m.attrs.filter (·.path == Source.ofWord "db")).flatMap (·.form.written)

structure Member.Described (m : Member) (f : DerivedField) : Prop where
  marked : ∀ plain, m.ident = "r#" ++ plain → f.ident = plain
  unmarked : (∀ plain, m.ident ≠ "r#" ++ plain) → f.ident = m.ident
  exported : f.exported = true ↔ m.visibility = Source.ofWord "pub"
  tag : f.tag.toList = m.written.filterMap Attribute.Piece.text?
  embedded : f.embedded = true ↔ .word "flatten" ∈ m.written
  lookup : f.lookup = .direct ↔ f.embedded = true
  type : f.type = m.type
  parsed : f.embedded = true → (f.tag = none ∨ f.tag = some "-") ∧
    Tag.parse f.tag = { name := none, json := false, ignored := f.tag.isSome }
  role : ∀ named g, f.embedded = true → Schema.field named f = .ok g →
    g.role = if f.tag.isSome then .hidden else (g.nested.map .promoted).getD .hidden

structure Item.Described (i : Item) (d : Derived) : Prop where
  typeName : d.typeName = i.name
  fields : List.Forall₂ Member.Described (if i.kind = .named then i.members else []) d.fields
  implementations : ∃ params, List.Forall₂ Param.Written i.params params ∧
    d.implementations = ["::sqlshape::Shape", "::sqlshape::Record"].map fun trait =>
      ⟨trait, i.self, params,
        i.predicates.map fun p => p.type.text ++ ":" ++ "+".intercalate (p.bounds.map Source.text)⟩

namespace Source

theorem summands_nil : summands [] = [] := rfl

theorem summands_append_mark (s t : Source) :
    summands (s ++ .mark '+' :: t) = s.summands ++ t.summands := by
  rw [summands, List.splitOn_append_cons_self, List.filter_append, summands, summands]

theorem summands_singleton {a : Token} (h : a ≠ .mark '+') : summands [a] = [[a]] := by
  have hm : Token.mark '+' ∉ [a] := fun hm => h (List.mem_singleton.mp hm).symm
  rw [summands, List.splitOn_eq_singleton hm]
  rfl

theorem summands_sum (bounds : List Source) : (sum bounds).summands = bounds.flatMap summands := by
  induction bounds with
  | nil => rfl
  | cons b bounds ih =>
    cases bounds with
    | nil => simp [sum]
    | cons c bounds =>
      rw [sum, List.intercalate_cons_cons, List.append_assoc, List.singleton_append,
        summands_append_mark, List.flatMap_cons]
      exact congrArg (b.summands ++ ·) ih

theorem summands_withBound {a : Token} (h : a ≠ .mark '+') (s : Source) :
    (s.withBound [a]).summands = s.summands ++ [[a]] := by
  rw [← summands_singleton h, withBound]
  split
  case isTrue hs =>
    rw [Bool.or_eq_true, List.isEmpty_iff, beq_iff_eq, List.getLast?_eq_some_iff] at hs
    rcases hs with rfl | ⟨s, rfl⟩
    · rfl
    · -- the mark is there already, with nothing behind it
      rw [List.append_assoc, List.singleton_append, summands_append_mark, summands_append_mark,
        summands_nil, List.append_nil]
  case isFalse => exact summands_append_mark s [a]

theorem exists_withBound_eq (s bound : Source) :
    ∃ mark, s.withBound bound = s ++ mark ++ bound ∧
      (mark = [] ∨ mark = [.mark '+'] ∧ ∃ a ∈ s.getLast?, a ≠ .mark '+') := by
  unfold withBound
  split
  case isTrue => exact ⟨[], by rw [List.append_nil], .inl rfl⟩
  case isFalse hs =>
    rw [Bool.or_eq_true, List.isEmpty_iff, beq_iff_eq, not_or] at hs
    obtain ⟨hne, hlast⟩ := hs
    refine ⟨[.mark '+'], by simp, .inr ⟨rfl, s.getLast hne, List.getLast?_eq_some_getLast hne, ?_⟩⟩
    intro h
    rw [List.getLast?_eq_some_getLast hne, h] at hlast
    exact hlast rfl

theorem text_append (s t : Source) : text (s ++ t) = s.text ++ t.text := by
  rw [text, compact_append, String.ofList_append, text, text]

theorem text_sum (bounds : List Source) :
    (sum bounds).text = "+".intercalate (bounds.map text) := by
  induction bounds with
  | nil => rfl
  | cons b bounds ih =>
    cases bounds with
    | nil => simp [sum]
    | cons c bounds =>
      rw [sum, List.intercalate_cons_cons, text_append, text_append, List.map_cons,
        String.intercalate_cons_of_ne_nil (by simp)]
      exact congrArg (b.text ++ "+" ++ ·) ih

end Source

theorem Param.written_text {p : Param} (h : ¬p.isLifetime) : p.Written p.text := by
  cases p with
  | lifetime name => exact absurd rfl h
  | type attributes name bounds default =>
    obtain ⟨mark, hm, hmark⟩ :=
      Source.exists_withBound_eq (Source.sum bounds) [.lifetime "static".toList]
    have hs : ((Source.sum bounds).withBound [.lifetime "static".toList]).summands =
        (Source.sum bounds).summands ++ [[.lifetime "static".toList]] :=
      Source.summands_withBound (by simp) _
    rw [Source.summands_sum, hm] at hs
    rw [text, hm]
    exact .type hmark hs
  | const name ty default => exact .const

theorem plainIdent_marked (plain : String) : plainIdent ("r#" ++ plain) = plain := by
  simp [plainIdent]

theorem plainIdent_unmarked {ident : String} (h : ∀ plain, ident ≠ "r#" ++ plain) :
    plainIdent ident = ident := by
  unfold plainIdent
  split
  case h_1 rest hr =>
    refine absurd ?_ (h (String.ofList rest))
    rw [← String.toList_inj, hr]
    simp
  case h_2 => rfl

theorem Tag.parse_of_dash {tag : Option String} (h : tag = none ∨ tag = some "-") :
    Tag.parse tag = { name := none, json := false, ignored := tag.isSome } := by
  rcases h with rfl | rfl <;> rfl

theorem Field.role_of_dash {g : Field} (he : g.embedded = true)
    (h : g.tag = none ∨ g.tag = some "-") :
    g.role = if g.tag.isSome then .hidden else (g.nested.map .promoted).getD .hidden := by
  rw [role, Tag.parse_of_dash h, he]
  rfl

theorem Schema.exists_of_field_eq_ok {named : List Char → Option Slot} {f : DerivedField}
    {g : Field} (h : Schema.field named f = .ok g) :
    ∃ nested, g = ⟨f.ident, f.exported, f.tag, f.embedded, nested⟩ := by
  unfold Schema.field at h
  split at h
  · cases h
    exact ⟨_, rfl⟩
  · cases h
    exact ⟨_, rfl⟩
  · cases h

namespace Attribute

theorem map_fst_arguments (member attr : Nat) (form : AttrForm) :
    (arguments member attr form).map Prod.fst = form.written := by
  cases form with
  | listed delimiter args trailing => exact map_fst_placedList member attr args trailing
  | _ => rfl

theorem exists_firstSettings_eq {member : Nat} {attrs : List (Attr × Nat)}
    (h : violations member attrs = []) :
    ∃ ps, firstSettings member attrs = settings ps ∧
      ps.map Prod.fst = (attrs.map Prod.fst).flatMap (·.form.written) ∧
      (texts ps).tail = [] ∧ flattenViolations ps = [] := by
  cases attrs with
  | nil => exact ⟨[], rfl, rfl, rfl, rfl⟩
  | cons first others =>
    obtain ⟨a, j⟩ := first
    rw [violations, List.append_eq_nil_iff, List.append_eq_nil_iff, List.map_eq_nil_iff] at h
    obtain ⟨⟨hown, rfl⟩, hflat⟩ := h
    refine ⟨arguments member j a.form, rfl, ?_, ?_, hflat⟩
    · rw [map_fst_arguments]
      simp
    · exact List.map_eq_nil_iff.mp (List.append_eq_nil_iff.mp hown).2

theorem toList_settings_tag {ps : Placed} (h : (texts ps).tail = []) :
    ((settings ps).tag.map Prod.fst).toList = (ps.map Prod.fst).filterMap Piece.text? := by
  rw [← map_fst_texts, settings]
  cases ht : texts ps with
  | nil => rfl
  | cons t ts =>
    rw [ht, List.tail_cons] at h
    rw [h]
    rfl

theorem settings_tag_of_flatten {ps : Placed} (ht : (texts ps).tail = [])
    (h : flattenViolations ps = []) (he : (settings ps).flatten = true) :
    (settings ps).tag.map Prod.fst = none ∨ (settings ps).tag.map Prod.fst = some "-" := by
  have hf : .word "flatten" ∈ ps.map Prod.fst := (flattens_iff ps).mp he
  have hdash := (flattenViolations_eq_nil_iff ps).mp h hf
  rw [← toList_settings_tag ht] at hdash
  cases htag : (settings ps).tag.map Prod.fst with
  | none => exact .inl rfl
  | some value =>
    rw [htag] at hdash
    have hv : value = "-" := hdash value (by simp)
    rw [hv]
    exact .inr rfl

end Attribute

namespace Member

open Attribute

variable {index : Nat} {m : Member} {f : DerivedField}

theorem described_of_derive (h : m.derive index = .ok f) : m.Described f := by
  obtain ⟨s, hs, hf⟩ := exists_of_bind_eq_ok h
  rw [Settings.ofAttrs_eq, report_eq_ok] at hs
  obtain ⟨hv, rfl⟩ := hs
  obtain ⟨ps, hps, hw, ht, hflat⟩ := exists_firstSettings_eq hv
  rw [map_fst_relevant] at hw
  rw [hps] at hf
  cases hf
  have hdash := settings_tag_of_flatten ht hflat
  exact {
    marked := by
      intro plain hm
      rw [← plainIdent_marked plain, ← hm]
    unmarked := plainIdent_unmarked
    exported := beq_iff_eq
    tag := by rw [toList_settings_tag ht, hw, written]
    embedded := by rw [written, ← hw, ← flattens_iff, settings]
    lookup := by cases (settings ps).flatten <;> simp
    type := rfl
    parsed := fun he => ⟨hdash he, Tag.parse_of_dash (hdash he)⟩
    role := by
      intro named g he hg
      obtain ⟨nested, rfl⟩ := Schema.exists_of_field_eq_ok hg
      exact Field.role_of_dash he (hdash he) }

theorem forall₂_described {ms : List Member} {fs : List DerivedField}
    (h : deriveAll index ms = .ok fs) : List.Forall₂ Described ms fs := by
  induction ms generalizing index fs with
  | nil =>
    cases h
    exact .nil
  | cons m ms ih =>
    obtain ⟨f, hf, h⟩ := exists_of_bind_eq_ok h
    obtain ⟨gs, hgs, h⟩ := exists_of_bind_eq_ok h
    cases h
    exact .cons (described_of_derive hf) (ih hgs)

end Member

namespace Item

variable {i : Item} {d : Derived}

theorem forall₂_written (h : ∀ p ∈ i.params, ¬p.isLifetime) :
    List.Forall₂ Param.Written i.params (i.params.map Param.text) := by
  rw [List.forall₂_map_right_iff, List.forall₂_same]
  exact fun p hp => Param.written_text (h p hp)

theorem membersOfKind_eq_ok {ms : List Member} (h : i.membersOfKind = .ok ms) :
    ms = if i.kind = .named then i.members else [] := by
  rcases i.membersOfKind_eq_ok_iff.mp h with ⟨hk, rfl⟩ | ⟨hk, rfl⟩ <;> simp [hk]

theorem derive_describes (h : i.derive = .ok d) : i.Described d := by
  obtain ⟨_, hp, h⟩ := exists_of_bind_eq_ok h
  obtain ⟨ms, hms, h⟩ := exists_of_bind_eq_ok h
  obtain ⟨fs, hfs, h⟩ := exists_of_bind_eq_ok h
  cases h
  rw [checkParams_eq, report_eq_ok, paramViolations_eq_nil_iff] at hp
  refine ⟨rfl, ?_, i.params.map Param.text, forall₂_written hp.1, ?_⟩
  · rw [← membersOfKind_eq_ok hms]
    exact Member.forall₂_described hfs
  · have hps : i.predicates.map Predicate.text = i.predicates.map fun p =>
        p.type.text ++ ":" ++ "+".intercalate (p.bounds.map Source.text) := by
      apply List.map_congr_left
      intro p _
      rw [Predicate.text, Source.text_sum]
    rw [← hps]
    rfl

theorem derive_describes_generic :
    let clone : Source := .ofWord "Clone"
    let debug : Source := .ofWord "Debug"
    let attr (args : List Arg) : Attr := ⟨.ofWord "db", .listed .parens args false⟩
    let i : Item := {
      kind := .named
      name := "R"
      params := [.type [] "T" [clone, debug ++ [.mark '+']] (some (.ofWord "u8")),
        .const "N" (.ofWord "usize") (some [.literal ['3']])]
      predicates := [⟨.ofWord "T", [debug, .ofWord "Send"]⟩]
      members := [⟨"r#type", .ofWord "T", .ofWord "pub", [⟨.ofWord "doc", .bare⟩, attr []]⟩,
        ⟨"theme", .ofWord "Theme", [], [attr [.text "theme,json"]]⟩,
        ⟨"base", .ofWord "Base", [.word "pub".toList, .mark '(', .word "crate".toList, .mark ')'],
          [attr [.text "-", .word "flatten"]]⟩] }
    let d : Derived := ⟨"R",
      [⟨"type", true, none, false, .probe, .ofWord "T"⟩,
        ⟨"theme", false, some "theme,json", false, .probe, .ofWord "Theme"⟩,
        ⟨"base", false, some "-", true, .direct, .ofWord "Base"⟩],
      ["::sqlshape::Shape", "::sqlshape::Record"].map fun trait =>
        ⟨trait, "R<T,N>", ["T:Clone+Debug+'static", "constN:usize"], ["T:Debug+Send"]⟩⟩
    i.derive = .ok d ∧ i.Described d := by
  intro clone debug attr i d
  have h : i.derive = .ok d := by decide +kernel
  exact ⟨h, derive_describes h⟩

end Item

end SelectList
