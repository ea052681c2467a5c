import SelectList.Proofs.Derivation
import SelectList.Proofs.Freshness
import SelectList.Proofs.Recency
import SelectList.Schema
import SelectList.Source.Standard

namespace SelectList

def Subject.bare : Subject → Subject
  | .behind _ s => s.bare
  | s => s

def Step.bare : Step → Step
  | .project view subject _ => .project view subject.bare false
  | s => s

namespace Source

def applied (name : String) (ts : Source) : Source :=
  .word name.toList :: .mark '<' :: (ts ++ [.mark '>'])

def behind (ts : Source) : Indirection → Source
  | .option => applied "Option" ts
  | .box => applied "Box" ts
  | .rc => applied "Rc" ts
  | .arc => applied "Arc" ts
  | .ref => .mark '&' :: .lifetime "static".toList :: ts
  | .refMut => .mark '&' :: .lifetime "static".toList :: .word "mut".toList :: ts

def wrap (is : List Indirection) (ts : Source) : Source :=
  is.foldr (fun i ts => ts.behind i) ts

def Alike (s t : Source) : Prop := ∀ named, s.target named = t.target named

end Source

inductive Member.Wrapped (m : Member) : Member → Prop
  | wrap (is : List Indirection) : m.type.head? ≠ some (.word "mut".toList) →
    Wrapped m { m with type := m.type.wrap is }

def Item.Wrapped (i j : Item) : Prop :=
  ∃ ms, List.Forall₂ Member.Wrapped i.members ms ∧ j = { i with members := ms }

theorem Subject.record?_bare (s : Subject) : s.bare.record? = s.record? := by
  induction s with
  | behind i s ih => exact ih
  | _ => rfl

namespace Projector

theorem answer_bare (p : Projector) (s : Step) : p.answer s.bare = p.answer s := by
  cases s with
  | project view subject byValue =>
    have hc : columns { p with history := [] } subject.bare =
        columns { p with history := [] } subject := by
      rw [columns, columns, subject.record?_bare]
    rw [Step.bare, answer, answer, step, step, hc]
  | _ => rfl

theorem run_bare (p : Projector) (ss : List Step) : p.run (ss.map Step.bare) = p.run ss := by
  induction ss generalizing p with
  | nil => rfl
  | cons s ss ih =>
    rw [List.map_cons, run, run, answer_bare]
    exact congrArg (_ :: ·) (ih _)

theorem count_keys_project {capacity : Nat} {h : 0 < capacity}
    {records : List (Descriptor × List (List Slot))} {ss : List Step} {i : Nat} {view : View}
    {subject : Subject} {byValue : Bool} {k : Slot}
    (hs : ss[i]? = some (.project view subject byValue)) (hk : subject.record? = some k) :
    ∃ a, ((start (.empty capacity h) records).run ss)[i]? = some a ∧ a.cache.keys.count k = 1 := by
  obtain ⟨a, ha, e, he, rfl, -⟩ := output_project (p := start (.empty capacity h) records) hs hk
  have hc := run_cache ha
  have hn := (recent_chronicle capacity h records (ss.take (i + 1))).keys_nodup
  refine ⟨a, ha, ?_⟩
  rw [hc]
  exact List.count_eq_one_of_mem hn (List.mem_map_of_mem he)

end Projector

namespace Source

variable {s t : Source}

theorem Alike.symm (h : s.Alike t) : t.Alike s := fun named => (h named).symm

theorem held?_applied {name : String} (h : name.toList ∈ transparent) (ts : Source) :
    held? (applied name ts) = some ts := by
  have hlast : (ts ++ [Token.mark '>']).getLast? = some (.mark '>') := List.getLast?_concat
  have hw : (name.toList ∈ transparent && (ts ++ [Token.mark '>']).getLast? == some (.mark '>')) =
      true := by
    rw [hlast]
    simp [h]
  rw [applied, held?, if_pos hw, List.dropLast_concat]

theorem target_applied (named : List Char → Option Slot) {name : String}
    (h : name.toList ∈ transparent) (ts : Source) :
    (applied name ts).target named = ts.target named := by
  rw [target, held?_applied h] <;> simp [applied]

theorem referent_lifetime {name : List Char} (h : s.head? ≠ some (.word "mut".toList)) :
    referent (.lifetime name :: s) = s := by
  unfold referent
  split
  case h_1 heq =>
    cases heq
    exact if_neg fun hw => h (by rw [hw, List.head?_cons])
  case h_2 heq =>
    cases heq
    rfl
  case h_3 heq => cases heq
  case h_4 hl _ => exact (hl name s rfl).elim

theorem head?_behind (ts : Source) (i : Indirection) :
    (ts.behind i).head? ≠ some (.word "mut".toList) := by
  cases i <;> simp [behind, applied]

theorem target_behind (named : List Char → Option Slot) {ts : Source}
    (h : ts.head? ≠ some (.word "mut".toList)) (i : Indirection) :
    (ts.behind i).target named = ts.target named := by
  cases i with
  | ref => rw [behind, target, referent_lifetime h]
  | refMut =>
    rw [behind, target]
    rfl
  | _ => exact target_applied named (by decide) ts

theorem alike_wrap (h : s.head? ≠ some (.word "mut".toList)) (is : List Indirection) :
    s.Alike (s.wrap is) := by
  -- a reference has to stand before a type, not before the rest of one
  have hw : (s.wrap is).head? ≠ some (.word "mut".toList) ∧ s.Alike (s.wrap is) := by
    induction is with
    | nil => exact ⟨h, fun _ => rfl⟩
    | cons i is ih =>
      refine ⟨head?_behind _ i, fun named => ?_⟩
      exact (ih.2 named).trans (target_behind named ih.1 i).symm
  exact hw.2

example : ofType "Option<&'static mut R1>" = (ofWord "R1").wrap [.option, .refMut] := by
  decide +kernel

end Source

inductive DerivedField.Alike (f : DerivedField) : DerivedField → Prop
  | retype {type : Source} : f.type.Alike type → Alike f { f with type }

inductive Member.Alike (m : Member) : Member → Prop
  | retype {type : Source} : m.type.Alike type → Alike m { m with type }

inductive Item.Alike (i : Item) : Item → Prop
  | retype {members : List Member} : List.Forall₂ Member.Alike i.members members →
    Alike i { i with members }

namespace Member

variable {m n : Member}

theorem Alike.symm (h : m.Alike n) : n.Alike m := by
  obtain ⟨h⟩ := h
  exact .retype h.symm

theorem Wrapped.alike (h : m.Wrapped n) : m.Alike n := by
  obtain ⟨is, h⟩ := h
  exact .retype (Source.alike_wrap h is)

theorem derive_alike (k : Nat) (f : DerivedField) (h : m.Alike n) (hf : m.derive k = .ok f) :
    ∃ g, n.derive k = .ok g ∧ f.Alike g := by
  obtain ⟨h⟩ := h
  obtain ⟨s, hs, hf⟩ := exists_of_bind_eq_ok hf
  cases hf
  refine ⟨_, ?_, .retype h⟩
  rw [derive, hs]
  rfl

end Member

namespace Item

variable {i j : Item} {is js : List Item}

theorem Alike.symm (h : i.Alike j) : j.Alike i := by
  obtain ⟨h⟩ := h
  exact .retype (h.flip.imp fun _ _ => Member.Alike.symm)

theorem Wrapped.alike (h : i.Wrapped j) : i.Alike j := by
  obtain ⟨ms, hms, rfl⟩ := h
  exact .retype (hms.imp fun _ _ => Member.Wrapped.alike)

end Item

namespace Schema

variable {named : List Char → Option Slot}

theorem field_alike {f g : DerivedField} (h : f.Alike g) {r : Field}
    (hr : field named f = .ok r) : field named g = .ok r := by
  obtain ⟨h⟩ := h
  unfold field at hr ⊢
  dsimp only at hr ⊢
  rw [← h named]
  cases ht : f.type.target named with
  | some nested =>
    rw [ht] at hr
    exact hr
  | none =>
    rw [ht] at hr
    cases hl : f.lookup with
    | probe =>
      rw [hl] at hr
      exact hr
    | direct =>
      rw [hl] at hr
      cases hr

theorem fields_alike {fs gs : List DerivedField} (h : List.Forall₂ DerivedField.Alike fs gs)
    {rs : List Field} (hr : fields named fs = .ok rs) : fields named gs = .ok rs := by
  induction h generalizing rs with
  | nil => exact hr
  | cons h _ ih =>
    obtain ⟨r, hf, hr⟩ := exists_of_bind_eq_ok hr
    obtain ⟨rs, hfs, hr⟩ := exists_of_bind_eq_ok hr
    rw [fields, field_alike h hf, ih hfs]
    exact hr

theorem mapError_eq_ok {α ε ε' : Type} {x : Except ε α} {f : ε → ε'} {a : α} :
    x.mapError f = .ok a ↔ x = .ok a := by
  cases x <;> simp [Except.mapError]

theorem descriptor_alike {i j : Item} (h : i.Alike j) {k : Slot} {d : Descriptor}
    (hd : descriptor named k i = .ok d) : descriptor named k j = .ok d := by
  obtain ⟨h⟩ := h
  obtain ⟨e, he, hd⟩ := exists_of_bind_eq_ok hd
  obtain ⟨fs, hfs, hd⟩ := exists_of_bind_eq_ok hd
  cases hd
  obtain ⟨gs, hgs, hfg⟩ :=
    Item.derive_forall₂ (fun _ _ => Member.derive_alike) h (mapError_eq_ok.mp he)
  rw [descriptor, mapError_eq_ok.mpr hgs]
  change (fields _ gs).bind _ = _
  rw [fields_alike hfg hfs]
  rfl

theorem descriptors_alike {is js : List Item} (h : List.Forall₂ Item.Alike is js) {k : Slot}
    {ds : List Descriptor} (hd : descriptors named k is = .ok ds) :
    descriptors named k js = .ok ds := by
  induction h generalizing k ds with
  | nil => exact hd
  | cons h _ ih =>
    obtain ⟨d, hfirst, hd⟩ := exists_of_bind_eq_ok hd
    obtain ⟨ds, hrest, hd⟩ := exists_of_bind_eq_ok hd
    rw [descriptors, mapError_eq_ok.mpr (descriptor_alike h (mapError_eq_ok.mp hfirst)), ih hrest]
    exact hd

theorem catalog_alike {is js : List Item} (h : List.Forall₂ Item.Alike is js) {t : Catalog}
    (ht : catalog named is = .ok t) : catalog named js = .ok t := by
  rw [catalog] at ht ⊢
  cases hds : descriptors named 0 is with
  | error e =>
    rw [hds] at ht
    cases ht
  | ok ds =>
    rw [hds] at ht
    rw [descriptors_alike h hds]
    exact ht

end Schema

/-- A run is the run of the bare projections, so that all forms of a record share one entry. A list
of definitions with any of its types behind indirections makes the same catalog, and so the same
columns and lines for every record. -/
theorem indirections_transparent (capacity : Nat) (h : 0 < capacity)
    (records : List (Descriptor × List (List Slot))) (ss : List Step)
    (named : List Char → Option Slot) (is js : List Item) (t : Catalog) :
    let p := Projector.start (.empty capacity h) records
    p.run ss = p.run (ss.map Step.bare) ∧
    (∀ (i : Nat) (view : View) (subject : Subject) (byValue : Bool) (k : Slot),
      ss[i]? = some (.project view subject byValue) → subject.record? = some k →
      ∃ a, (p.run ss)[i]? = some a ∧ a.cache.keys.count k = 1) ∧
    (List.Forall₂ Item.Wrapped is js →
      (Schema.catalog named js = .ok t ↔ Schema.catalog named is = .ok t)) := by
  intro p
  refine ⟨(p.run_bare ss).symm, ?_, fun hw => ?_⟩
  · intro i view subject byValue k hs hk
    exact Projector.count_keys_project hs hk
  · have ha : List.Forall₂ Item.Alike is js := hw.imp fun _ _ => Item.Wrapped.alike
    constructor
    · exact Schema.catalog_alike (ha.flip.imp fun _ _ => Item.Alike.symm)
    · exact Schema.catalog_alike ha

theorem indirections_transparent_members :
    let records : List (Descriptor × List (List Slot)) := [(⟨0, "R0", [.ofIdent "A"]⟩, [])]
    let p := Projector.start (.empty 2 Nat.two_pos) records
    let ss : List Step := [.project .expression (.behind .refMut (.behind .rc (.record 0))) true,
      .project .names (.record 0) false]
    let member (ident : String) (attrs : List Attr) (type : Source) : Member :=
      ⟨ident, type, .ofWord "pub", attrs⟩
    let flatten : List Attr := [⟨.ofWord "db", .listed .parens [.word "flatten"] false⟩]
    let unit : Source := [.mark '(', .mark ')']
    let bare : List Item := [
      { kind := .named, name := "R", members := [member "A" [] (.ofWord "R1"),
        member "B" flatten (.ofWord "R1"), member "C" [] (.ofWord "String"),
        member "D" flatten unit] },
      { kind := .unit, name := "S" }]
    let wrapped : List Item := [
      { kind := .named, name := "R", members := [
        member "A" [] ((Source.ofWord "R1").wrap [.option, .refMut]),
        member "B" flatten ((Source.ofWord "R1").wrap [.ref, .box, .rc]),
        member "C" [] ((Source.ofWord "String").wrap [.arc]),
        member "D" flatten (unit.wrap [.ref])] },
      { kind := .unit, name := "S" }]
    let fields : List Field := [⟨"A", true, none, false, some 1⟩, ⟨"B", true, none, true, some 1⟩,
      ⟨"C", true, none, false, none⟩, ⟨"D", true, none, true, none⟩]
    let t : Catalog := .ofList [⟨0, "R", fields⟩, ⟨1, "S", []⟩]
    List.Forall₂ Item.Wrapped bare wrapped ∧
    p.run ss = p.run [.project .expression (.record 0) false, .project .names (.record 0) false] ∧
    (∃ a, (p.run ss)[1]? = some a ∧ a.cache.keys.count 0 = 1) ∧
    Schema.catalog (Schema.numbered? 2) bare = .ok t ∧
    Schema.catalog (Schema.numbered? 2) wrapped = .ok t := by
  intro records p ss member flatten unit bare wrapped fields t
  have hbare : Schema.catalog (Schema.numbered? 2) bare = .ok t := by decide +kernel
  have hw : List.Forall₂ Item.Wrapped bare wrapped := by
    refine .cons ⟨_, ?_, rfl⟩ (.cons ⟨_, .nil, rfl⟩ .nil)
    exact .cons (.wrap _ (by decide)) (.cons (.wrap _ (by decide))
      (.cons (.wrap _ (by decide)) (.cons (.wrap _ (by decide)) .nil)))
  obtain ⟨hrun, hcount, hcatalog⟩ := indirections_transparent 2 Nat.two_pos records ss
    (Schema.numbered? 2) bare wrapped t
  exact ⟨hw, hrun, hcount 1 _ _ _ 0 rfl rfl, hbare, (hcatalog hw).mpr hbare⟩

end SelectList
