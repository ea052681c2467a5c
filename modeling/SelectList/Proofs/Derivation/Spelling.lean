import Mathlib.Logic.Relation
import SelectList.Proofs.Derivation

namespace SelectList

def Arg.isSimple : Arg → Bool
  | .text _ | .rawText _ | .word _ => true
  | _ => false

namespace Attribute

def Simple (args : List Arg) : Prop := args ≠ [] ∧ ∀ a ∈ args, a.isSimple

instance (args : List Arg) : Decidable (Simple args) := inferInstanceAs (Decidable (_ ∧ _))

end Attribute

open Attribute

inductive AttrForm.Respelled : AttrForm → AttrForm → Prop
  | delimiter (d e : Delimiter) (args : List Arg) (trailing : Bool) :
    Respelled (.listed d args trailing) (.listed e args trailing)
  | order {d : Delimiter} {xs ys : List Arg} {trailing : Bool} : Simple xs → xs.Perm ys →
    Respelled (.listed d xs trailing) (.listed d ys trailing)
  | comma {d : Delimiter} {args : List Arg} : Simple args →
    Respelled (.listed d args false) (.listed d args true)
  | raw {d : Delimiter} {xs ys : List Arg} {value : String} {trailing : Bool} :
    Simple (xs ++ .text value :: ys) →
    Respelled (.listed d (xs ++ .text value :: ys) trailing)
      (.listed d (xs ++ .rawText value :: ys) trailing)
  | again {d : Delimiter} {xs ys : List Arg} {trailing : Bool} :
    Simple (xs ++ ys) → .word "flatten" ∈ xs ++ ys →
    Respelled (.listed d (xs ++ ys) trailing) (.listed d (xs ++ .word "flatten" :: ys) trailing)

inductive Member.Respelled (m : Member) : Member → Prop
  | insert {xs ys : List Attr} {a : Attr} : m.attrs = xs ++ ys → a.path ≠ Source.ofWord "db" →
    Respelled m { m with attrs := xs ++ a :: ys }
  | respell {xs ys : List Attr} {a : Attr} {form : AttrForm} : m.attrs = xs ++ a :: ys →
    a.path = Source.ofWord "db" → a.form.Respelled form →
    Respelled m { m with attrs := xs ++ { a with form } :: ys }

inductive Item.Respelled (i : Item) : Item → Prop
  | member {ms ns : List Member} {m n : Member} : i.members = ms ++ m :: ns → m.Respelled n →
    Respelled i { i with members := ms ++ n :: ns }

theorem Arg.exists_pieces {a : Arg} (h : a.isSimple) : ∃ p, pieces a = [p] := by
  cases a with
  | text value => exact ⟨.text value, rfl⟩
  | rawText value => exact ⟨.text value, rfl⟩
  | word spelling => exact ⟨.word spelling, rfl⟩
  | _ => cases h

namespace Attribute

variable {args xs ys : List Arg} {trailing : Bool}

theorem written_cons_cons (a b : Arg) (rest : List Arg) (trailing : Bool) :
    written (a :: b :: rest) trailing = pieces a ++ .comma :: written (b :: rest) trailing := by
  rw [written, List.map_cons, List.map_cons, List.intercalate_cons_cons]
  simp [written]

theorem comma_not_mem_pieces (a : Arg) : .comma ∉ pieces a := by
  induction a with
  | adjacent a b iha ihb => simp [pieces, iha, ihb]
  | _ => simp [pieces]

theorem filter_written (args : List Arg) (trailing : Bool) :
    (written args trailing).filter (· ≠ .comma) = args.flatMap pieces := by
  have hkeep (a : Arg) : (pieces a).filter (· ≠ .comma) = pieces a := by
    apply List.filter_eq_self.mpr
    intro p hp
    have hc : p ≠ .comma := fun h => comma_not_mem_pieces a (h ▸ hp)
    simpa using hc
  induction args with
  | nil => cases trailing <;> rfl
  | cons a rest ih =>
    cases rest with
    | nil =>
      rw [written, List.map_singleton, List.intercalate_singleton, List.filter_append, hkeep]
      cases trailing <;> simp
    | cons b rest =>
      rw [written_cons_cons, List.filter_append, hkeep, List.filter_cons_of_neg (by simp), ih]
      rfl

theorem texts_written (args : List Arg) (trailing : Bool) :
    (written args trailing).filterMap Piece.text? =
      (args.flatMap pieces).filterMap Piece.text? := by
  rw [← filter_written args trailing, List.filterMap_filter]
  congr 1
  funext p
  cases p <;> simp [Piece.text?]

theorem word_mem_written (args : List Arg) (trailing : Bool) (w : String) :
    .word w ∈ written args trailing ↔ .word w ∈ args.flatMap pieces := by
  rw [← filter_written args trailing]
  simp

theorem isList_comma_iff {p : Piece} {ps : List Piece} :
    IsList (p :: .comma :: ps) ↔ IsArgument p ∧ IsList ps := by
  constructor
  · intro h
    cases h with
    | cons hp hps => exact ⟨hp, hps⟩
  · exact fun h => .cons h.1 h.2

theorem isList_singleton_iff {p : Piece} : IsList [p] ↔ IsArgument p := by
  constructor
  · intro h
    cases h with
    | last hp => exact hp
  · exact .last

theorem isList_written (h : Simple args) (trailing : Bool) :
    IsList (written args trailing) ↔ ∀ p ∈ args.flatMap pieces, IsArgument p := by
  obtain ⟨hne, hs⟩ := h
  induction args with
  | nil => exact absurd rfl hne
  | cons a rest ih =>
    obtain ⟨p, hp⟩ := Arg.exists_pieces (hs a (by simp))
    cases rest with
    | nil =>
      -- the last argument may have a comma behind it or not
      have hw : IsList (written [a] trailing) ↔ IsArgument p := by
        rw [written, List.map_singleton, List.intercalate_singleton, hp]
        cases trailing with
        | false => exact isList_singleton_iff
        | true => simpa using isList_comma_iff.trans (and_iff_left .nil)
      rw [hw]
      simp [hp]
    | cons b rest =>
      have hrest := ih (by simp) fun c hc => hs c (List.mem_cons_of_mem a hc)
      rw [written_cons_cons, hp, List.singleton_append, isList_comma_iff, hrest]
      simp [hp]

theorem simple_middle_iff {a : Arg} :
    Simple (xs ++ a :: ys) ↔ a.isSimple ∧ ∀ b ∈ xs ++ ys, b.isSimple := by
  have hmem (b : Arg) : b ∈ xs ++ a :: ys ↔ b = a ∨ b ∈ xs ++ ys := by
    rw [List.perm_middle.mem_iff, List.mem_cons]
  simp only [Simple, hmem, forall_eq_or_imp]
  exact and_iff_right (by simp)

theorem Simple.perm (h : Simple xs) (hp : xs.Perm ys) : Simple ys := by
  refine ⟨fun hy => h.1 ?_, fun a ha => h.2 a (hp.mem_iff.mpr ha)⟩
  rw [hy] at hp
  exact hp.eq_nil

end Attribute

structure AttrForm.Synonymous (f g : AttrForm) : Prop where
  allowed : Attribute.Allowed f ↔ Attribute.Allowed g
  texts : (f.written.filterMap Piece.text?).Perm (g.written.filterMap Piece.text?)
  flatten : .word "flatten" ∈ f.written ↔ .word "flatten" ∈ g.written

structure Member.Synonymous (m n : Member) : Prop where
  allowed : m.Allowed ↔ n.Allowed
  texts : (m.written.filterMap Piece.text?).Perm (n.written.filterMap Piece.text?)
  flatten : .word "flatten" ∈ m.written ↔ .word "flatten" ∈ n.written
  rest : n = { m with attrs := n.attrs }

namespace Attribute

variable {xs ys : List Arg} {d e : Delimiter} {a b : Bool}

section

variable (hmem : ∀ p, p ∈ xs.flatMap pieces ↔ p ∈ ys.flatMap pieces)
  (htexts : ((xs.flatMap pieces).filterMap Piece.text?).Perm
    ((ys.flatMap pieces).filterMap Piece.text?))
include hmem htexts

theorem synonymous_listed (hlist : IsList (written xs a) ↔ IsList (written ys b)) :
    AttrForm.Synonymous (.listed d xs a) (.listed e ys b) where
  allowed := by
    rw [allowed_listed_iff, allowed_listed_iff, hlist, texts_written, texts_written,
      word_mem_written, word_mem_written, htexts.length_eq, hmem]
    simp only [htexts.mem_iff]
  texts := by
    rw [AttrForm.written, AttrForm.written, texts_written, texts_written]
    exact htexts
  flatten := by
    rw [AttrForm.written, AttrForm.written, word_mem_written, word_mem_written]
    exact hmem _

theorem synonymous_of_simple (hx : Simple xs) (hy : Simple ys) :
    AttrForm.Synonymous (.listed d xs a) (.listed e ys b) := by
  apply synonymous_listed hmem htexts
  rw [isList_written hx, isList_written hy]
  simp only [hmem]

end

end Attribute

theorem AttrForm.Respelled.synonymous {f g : AttrForm} (h : f.Respelled g) : f.Synonymous g := by
  cases h with
  | delimiter => exact synonymous_listed (fun _ => Iff.rfl) (.refl _) Iff.rfl
  | order hx hp =>
    have hpieces := hp.flatMap_right pieces
    exact synonymous_of_simple (fun _ => hpieces.mem_iff) (hpieces.filterMap _) hx (hx.perm hp)
  | comma hx => exact synonymous_of_simple (fun _ => Iff.rfl) (.refl _) hx hx
  | @raw d xs ys value trailing hx =>
    have hpieces : (xs ++ .rawText value :: ys).flatMap pieces =
        (xs ++ .text value :: ys).flatMap pieces := by
      simp [pieces]
    have hy : Simple (xs ++ .rawText value :: ys) :=
      simple_middle_iff.mpr ⟨rfl, (simple_middle_iff.mp hx).2⟩
    exact synonymous_of_simple (fun _ => by rw [hpieces]) (by rw [hpieces]) hx hy
  | @again d xs ys trailing hx hmem =>
    have hin : .word "flatten" ∈ (xs ++ ys).flatMap pieces :=
      List.mem_flatMap.mpr ⟨_, hmem, List.mem_singleton_self _⟩
    have hpieces : ((xs ++ .word "flatten" :: ys).flatMap pieces).Perm
        (.word "flatten" :: (xs ++ ys).flatMap pieces) :=
      List.perm_middle.flatMap_right pieces
    have hy : Simple (xs ++ .word "flatten" :: ys) := simple_middle_iff.mpr ⟨rfl, hx.2⟩
    refine synonymous_of_simple (fun p => ?_) (hpieces.filterMap Piece.text?).symm hx hy
    rw [hpieces.mem_iff, List.mem_cons]
    exact ⟨.inr, fun h => h.elim (fun he => he ▸ hin) id⟩

theorem forall₂_middle {α : Type} {R : α → α → Prop} (hR : ∀ a, R a a) {a b : α} (h : R a b)
    (xs ys : List α) : List.Forall₂ R (xs ++ a :: ys) (xs ++ b :: ys) := by
  have hsame (zs : List α) : List.Forall₂ R zs zs := List.forall₂_same.mpr fun c _ => hR c
  exact List.rel_append (hsame xs) (.cons h (hsame ys))

theorem AttrForm.Synonymous.refl (f : AttrForm) : f.Synonymous f := ⟨Iff.rfl, .refl _, Iff.rfl⟩

namespace Member

variable {m n : Member} {f g : DerivedField} {k : Nat}

theorem Synonymous.refl (m : Member) : m.Synonymous m := ⟨Iff.rfl, .refl _, Iff.rfl, rfl⟩

theorem Synonymous.symm (h : m.Synonymous n) : n.Synonymous m := by
  refine ⟨h.allowed.symm, h.texts.symm, h.flatten.symm, ?_⟩
  rw [h.rest]

theorem written_synonymous {as bs : List Attr}
    (h : List.Forall₂ (fun a b => a.form.Synonymous b.form) as bs) :
    ((as.flatMap (·.form.written)).filterMap Piece.text?).Perm
        ((bs.flatMap (·.form.written)).filterMap Piece.text?) ∧
      (.word "flatten" ∈ as.flatMap (·.form.written) ↔
        .word "flatten" ∈ bs.flatMap (·.form.written)) ∧
      ((∀ a ∈ as, Attribute.Allowed a.form) ↔ ∀ b ∈ bs, Attribute.Allowed b.form) := by
  induction h with
  | nil => exact ⟨.refl _, Iff.rfl, by simp⟩
  | cons h _ ih =>
    obtain ⟨htexts, hflat, hall⟩ := ih
    refine ⟨?_, ?_, ?_⟩
    · rw [List.flatMap_cons, List.flatMap_cons, List.filterMap_append, List.filterMap_append]
      exact h.texts.append htexts
    · rw [List.flatMap_cons, List.flatMap_cons, List.mem_append, List.mem_append, h.flatten, hflat]
    · rw [List.forall_mem_cons, List.forall_mem_cons, h.allowed, hall]

theorem synonymous_of_filter (h : List.Forall₂ (fun a b => a.form.Synonymous b.form)
    (m.attrs.filter (·.path == Source.ofWord "db"))
    (n.attrs.filter (·.path == Source.ofWord "db")))
    (hn : n = { m with attrs := n.attrs }) : m.Synonymous n := by
  obtain ⟨htexts, hflat, hall⟩ := written_synonymous h
  refine ⟨?_, htexts, hflat, hn⟩
  rw [allowed_iff_filter, allowed_iff_filter, h.length_eq, hall]

theorem Respelled.synonymous (h : m.Respelled n) : m.Synonymous n := by
  cases h with
  | @insert xs ys a ha hpath =>
    apply synonymous_of_filter _ rfl
    have hf : (xs ++ a :: ys).filter (·.path == Source.ofWord "db") =
        (xs ++ ys).filter (·.path == Source.ofWord "db") := by
      simp [List.filter_append, hpath]
    rw [ha, hf]
    exact List.forall₂_same.mpr fun b _ => .refl b.form
  | @respell xs ys a form ha hpath h =>
    apply synonymous_of_filter _ rfl
    rw [ha, List.filter_append, List.filter_append, List.filter_cons_of_pos (by simpa using hpath),
      List.filter_cons_of_pos (by simpa using hpath)]
    exact forall₂_middle (R := fun a b : Attr => a.form.Synonymous b.form) (fun b => .refl b.form)
      h.synonymous _ _

theorem Described.unique (hf : m.Described f) (hg : m.Described g) : f = g := by
  have hident : f.ident = g.ident := by
    by_cases hm : ∃ plain, m.ident = "r#" ++ plain
    · obtain ⟨plain, hm⟩ := hm
      rw [hf.marked plain hm, hg.marked plain hm]
    · have hm' : ∀ plain, m.ident ≠ "r#" ++ plain := fun plain h => hm ⟨plain, h⟩
      rw [hf.unmarked hm', hg.unmarked hm']
  have hexported := Bool.eq_iff_iff.mpr (hf.exported.trans hg.exported.symm)
  have htag : f.tag = g.tag := by
    simpa using congrArg List.head? (hf.tag.trans hg.tag.symm)
  have hembedded := Bool.eq_iff_iff.mpr (hf.embedded.trans hg.embedded.symm)
  have hlookup : f.lookup = g.lookup := by
    have hdirect : f.lookup = .direct ↔ g.lookup = .direct := by
      rw [hf.lookup, hg.lookup, hembedded]
    cases hl : f.lookup <;> cases hl' : g.lookup <;> simp_all
  have htype := hf.type.trans hg.type.symm
  cases f
  cases g
  congr

theorem Described.synonymous (hf : m.Described f) (h : m.Synonymous n) : n.Described f := by
  have hn := h.rest
  have htexts : f.tag.toList = n.written.filterMap Piece.text? := by
    have hp := h.texts
    rw [← hf.tag] at hp
    -- there is one text at most, so that their order is no matter
    cases ht : f.tag with
    | none =>
      rw [ht] at hp
      exact hp.nil_eq
    | some value =>
      rw [ht] at hp
      exact hp.singleton_eq
  exact {
    marked := by rw [hn]; exact hf.marked
    unmarked := by rw [hn]; exact hf.unmarked
    exported := by rw [hn]; exact hf.exported
    tag := htexts
    embedded := hf.embedded.trans h.flatten
    lookup := hf.lookup
    type := by rw [hn]; exact hf.type
    parsed := hf.parsed
    role := hf.role }

theorem derive_eq_of_synonymous (h : m.Synonymous n) (hf : m.derive k = .ok f) :
    n.derive k = .ok f := by
  have hm : m.Allowed := (m.exists_derive_iff k).mp ⟨f, hf⟩
  obtain ⟨g, hg⟩ := (n.exists_derive_iff k).mpr (h.allowed.mp hm)
  have hfg := (described_of_derive hg).unique ((described_of_derive hf).synonymous h)
  rw [hg, hfg]

end Member

namespace Item

variable {i j : Item} {d : Derived}

theorem derive_of_synonymous {members : List Member}
    (h : List.Forall₂ Member.Synonymous i.members members) (hd : i.derive = .ok d) :
    { i with members }.derive = .ok d := by
  have hmember (m n : Member) (k : Nat) (f : DerivedField) (h : m.Synonymous n)
      (hf : m.derive k = .ok f) : ∃ g, n.derive k = .ok g ∧ f = g :=
    ⟨f, Member.derive_eq_of_synonymous h hf, rfl⟩
  obtain ⟨fs, hfs, heq⟩ := derive_forall₂ hmember h hd
  rw [List.forall₂_eq_eq_eq] at heq
  rw [hfs, ← heq]

theorem derive_of_respelled (h : i.Respelled j) : i.derive = .ok d ↔ j.derive = .ok d := by
  obtain ⟨hi, h⟩ := h
  constructor
  · apply derive_of_synonymous
    rw [hi]
    exact forall₂_middle .refl h.synonymous _ _
  · apply derive_of_synonymous
    rw [hi]
    exact forall₂_middle .refl h.synonymous.symm _ _

/-- However the attributes of its members are spelled, a definition is accepted or not, and the same
is derived from it. -/
theorem spelling_irrelevant {i j : Item} (h : Relation.EqvGen Respelled i j) (d : Derived) :
    i.derive = .ok d ↔ j.derive = .ok d := by
  induction h with
  | rel i j h => exact derive_of_respelled h
  | refl i => exact Iff.rfl
  | symm i j _ ih => exact ih.symm
  | trans i j k _ _ ih ih' => exact ih.trans ih'

theorem spelling_irrelevant_flatten :
    let doc : Attr := ⟨.ofWord "doc", .bare⟩
    let db (delimiter : Delimiter) (args : List Arg) (trailing : Bool) : Attr :=
      ⟨.ofWord "db", .listed delimiter args trailing⟩
    let item (xs ys : List Attr) : Item := { kind := .named, name := "R", members :=
      [⟨"base", .ofWord "Base", [], xs⟩, ⟨"ID", .ofWord "i64", .ofWord "pub", ys⟩] }
    let i := item [db .parens [.text "-", .word "flatten"] false] [doc]
    let j := item [doc, db .braces [.word "flatten", .rawText "-", .word "flatten"] true] []
    let d : Derived := ⟨"R", [⟨"base", false, some "-", true, .direct, .ofWord "Base"⟩,
      ⟨"ID", true, none, false, .probe, .ofWord "i64"⟩],
      ["::sqlshape::Shape", "::sqlshape::Record"].map fun trait => ⟨trait, "R", [], []⟩⟩
    Relation.EqvGen Respelled i j ∧ i.derive = .ok d ∧ j.derive = .ok d := by
  intro doc db item i j d
  have first {xs zs ys : List Attr}
      (h : Member.Respelled ⟨"base", .ofWord "Base", [], xs⟩ ⟨"base", .ofWord "Base", [], zs⟩) :
      Relation.EqvGen Respelled (item xs ys) (item zs ys) :=
    .rel _ _ (@Respelled.member _ [] _ _ _ rfl h)
  have list {f g : AttrForm} (h : f.Respelled g) :
      Relation.EqvGen Respelled (item [doc, ⟨.ofWord "db", f⟩] [doc])
        (item [doc, ⟨.ofWord "db", g⟩] [doc]) :=
    first (@Member.Respelled.respell _ [doc] [] ⟨.ofWord "db", f⟩ g rfl rfl h)
  have hij : Relation.EqvGen Respelled i j := by
    refine .trans _ _ _ (first (@Member.Respelled.insert _ [] _ doc rfl (by decide))) ?_
    refine .trans _ _ _ (list (.delimiter .parens .braces _ _)) ?_
    refine .trans _ _ _ (list (.order (by decide) (.swap _ _ _))) ?_
    refine .trans _ _ _ (list (@AttrForm.Respelled.raw _ [_] [] "-" _ (by decide))) ?_
    refine .trans _ _ _ (list (@AttrForm.Respelled.again _ [_, _] [] _ (by decide) (by decide))) ?_
    refine .trans _ _ _ (list (.comma (by decide))) ?_
    have second := @Member.Respelled.insert ⟨"ID", .ofWord "i64", .ofWord "pub", []⟩ [] [] doc rfl
      (by decide)
    exact .symm _ _ (.rel _ _ (@Respelled.member _ [_] [] _ _ rfl second))
  have hd : i.derive = .ok d := by decide +kernel
  exact ⟨hij, hd, (spelling_irrelevant hij d).mp hd⟩

end Item

end SelectList
