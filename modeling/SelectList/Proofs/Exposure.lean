import SelectList.Projector
import SelectList.Proofs.Reach

namespace SelectList

inductive Exposure
  | embedded (record : Slot)
  | column (name : String) (json : Bool) (record : Option Slot)
deriving DecidableEq

def Exposure.role : Exposure → Role
  | .embedded k => .promoted k
  | .column name true _ => .json name
  | .column name false none => .plain name
  | .column name false (some k) => .expanded name k

namespace Field

/-- Of an embedded field only its record shows. Of any other one that is exported and has a name
the name and the choice of one column show, and the record unless that choice was made. -/
def exposed? (f : Field) : Option Exposure :=
  if f.tag = some "-" then none
  else if f.embedded then f.nested.map .embedded
  else if f.exported = false ∨ f.columnName = "" then none
  else some (.column f.columnName f.isJson (if f.isJson then none else f.nested))

theorem role_eq_of_exposed? (f : Field) : f.role = (f.exposed?.map Exposure.role).getD .hidden := by
  by_cases hl : f.Live
  · have ht : f.tag ≠ some "-" := hl
    cases he : f.embedded with
    | true =>
      rw [role_of_embedded hl he, exposed?, if_neg ht, if_pos he]
      cases f.nested <;> rfl
    | false =>
      have hne : ¬f.embedded = true := by simp [he]
      rw [exposed?, if_neg ht, if_neg hne]
      by_cases hh : f.exported = false ∨ f.columnName = ""
      · have hs : ¬f.Shows := by
          rintro ⟨-, -, hx, hn⟩
          rcases hh with hh | hh
          · simp [hx] at hh
          · exact hn hh
        rw [role_of_hidden (fun h => hne h.2) hs, if_pos hh]
        rfl
      · obtain ⟨hx, hn⟩ := not_or.mp hh
        have hs : f.Shows := ⟨hl, he, by simpa using hx, hn⟩
        rw [role_of_shows hs, if_neg hh]
        cases f.isJson <;> cases f.nested <;> rfl
  · have ht : f.tag = some "-" := by simpa [Live] using hl
    rw [role_of_hidden (fun h => hl h.1) (fun h => hl h.1), exposed?, if_pos ht]
    rfl

theorem role_congr {f g : Field} (h : f.exposed? = g.exposed?) : f.role = g.role := by
  rw [role_eq_of_exposed?, role_eq_of_exposed?, h]

theorem role_eq_hidden {f : Field} (h : f.exposed? = none) : f.role = .hidden := by
  rw [role_eq_of_exposed?, h]
  rfl

end Field

namespace Descriptor

def exposures (d : Descriptor) : List Exposure := d.fields.filterMap Field.exposed?

structure Alike (d d' : Descriptor) : Prop where
  typeName : d.typeName = d'.typeName
  exposures : d.exposures = d'.exposures

end Descriptor

namespace Catalog

variable {t t' : Catalog} {trail : List Slot} {owner : String} {f g : Field} {fs : List Field}

theorem walk_cons_of_hidden (h : f.exposed? = none) :
    t.walk trail owner (f :: fs) = t.walk trail owner fs := by
  rw [walk, Field.role_eq_hidden h]

theorem walk_of_hidden (h : ∀ f ∈ fs, f.exposed? = none) : t.walk trail owner fs = {} := by
  induction fs with
  | nil => exact walk_nil t trail owner
  | cons f fs ih =>
    obtain ⟨hf, hfs⟩ := List.forall_mem_cons.mp h
    rw [walk_cons_of_hidden hf, ih hfs]

theorem entered_congr (hr : f.role = g.role)
    (h : ∀ k, f.Expands k → k ∉ trail →
      t.walk (k :: trail) (t.describe k).typeName (t.describe k).fields =
        t'.walk (k :: trail) (t'.describe k).typeName (t'.describe k).fields) :
    t.entered trail owner f = t'.entered trail owner g := by
  by_cases he : ∃ k, f.Expands k
  · obtain ⟨k, he⟩ := he
    have hg : g.Expands k := by
      rw [← Field.target?_eq_some_iff, ← hr, Field.target?_eq_some_iff]
      exact he
    by_cases hk : k ∈ trail
    · rw [entered_of_mem t owner he hk, entered_of_mem t' owner hg hk]
    · have hw : f.within = g.within := by
        rw [← Field.role_within he, ← Field.role_within hg, hr]
      rw [entered_of_not_mem t owner he hk, entered_of_not_mem t' owner hg hk, h k he hk, hw]
  · have hf := not_exists.mp he
    have hg : ∀ k, ¬g.Expands k := by
      intro k hk
      apply hf k
      rw [← Field.target?_eq_some_iff, hr, Field.target?_eq_some_iff]
      exact hk
    rw [entered_of_not_expands t trail owner hf, entered_of_not_expands t' trail owner hg]

theorem walk_of_exposed (t t' : Catalog) (trail : List Slot) (fs : List Field) :
    ∀ (owner : String) (gs : List Field),
      fs.filterMap Field.exposed? = gs.filterMap Field.exposed? →
      (∀ k, t.Leads fs k → (t.describe k).Alike (t'.describe k)) →
      t.walk trail owner fs = t'.walk trail owner gs := by
  induction trail, fs using t.walk_induction with
  | nil trail =>
    intro owner gs hgs _
    rw [walk_nil, walk_of_hidden]
    exact List.filterMap_eq_nil_iff.mp hgs.symm
  | cons trail f fs hinner hrest =>
    intro owner gs hgs ht
    have hrest' := fun gs hgs => hrest owner gs hgs fun k hk => ht k hk.cons
    cases he : f.exposed? with
    | none =>
      rw [List.filterMap_cons_none he] at hgs
      rw [walk_cons_of_hidden he]
      exact hrest' gs hgs
    | some e =>
      -- what the other side shows next may stand behind fields of which nothing shows
      rw [List.filterMap_cons_some he] at hgs
      obtain ⟨before, g, after, rfl, hbefore, hg, hafter⟩ :=
        List.filterMap_eq_cons_iff.mp hgs.symm
      have hr : f.role = g.role := Field.role_congr (he.trans hg.symm)
      have hentered : t.entered trail owner f = t'.entered trail owner g := by
        apply entered_congr hr
        intro k hk hm
        obtain ⟨hname, hshown⟩ := ht k (.expands List.mem_cons_self hk)
        rw [← hname]
        apply hinner k hk hm _ _ hshown
        exact fun j hj => ht j (.through List.mem_cons_self hk hj)
      rw [walk_append, walk_of_hidden hbefore, Walked.nil_append, walk_cons, walk_cons, hentered,
        hr, hrest' after hafter.symm]

theorem collect_of_exposed {d d' : Descriptor} (hid : d.id = d'.id) (hd : d.Alike d')
    (ht : ∀ k, t.Leads d.fields k → (t.describe k).Alike (t'.describe k)) :
    t.collect d = t'.collect d' := by
  rw [collect, collect, ← hid, ← hd.typeName]
  exact walk_of_exposed t t' [d.id] d.fields d.typeName d'.fields hd.exposures ht

/-- Columns and log depend on what shows of a description and of the records that it leads to, which
no hidden field counts for. -/
theorem resolve_of_exposed (t t' : Catalog) (d d' : Descriptor) (hid : d.id = d'.id)
    (hd : d.Alike d') (ht : ∀ k, t.Leads d.fields k → (t.describe k).Alike (t'.describe k)) :
    (t.resolve d).columns = (t'.resolve d').columns ∧
      Visit.log (t.resolve d).visits = Visit.log (t'.resolve d').visits := by
  have hc : t.collect d = t'.collect d' := collect_of_exposed hid hd ht
  constructor
  · exact congrArg (fun w => Column.ofRaw w.columns) hc
  · exact congrArg (fun w => Visit.log w.visits) hc

theorem resolve_of_exposed_private :
    let t : Catalog := .ofList [⟨0, "R0", []⟩,
      ⟨1, "R1", [{ ident := "A", tag := some "a" }, { ident := "UpLink", nested := some 1 }]⟩,
      ⟨2, "R2", [{ ident := "A" }]⟩]
    let t' : Catalog := .ofList [⟨0, "R0", []⟩,
      ⟨1, "R1", [{ ident := "id", tag := some "-" }, { ident := "a" },
        { ident := "b", tag := some "up_link", nested := some 1 }]⟩]
    let d : Descriptor := ⟨0, "D", [{ ident := "secret", exported := false, nested := some 2 },
      { ident := "Base", embedded := true, nested := some 1 },
      { ident := "Doc", tag := some ",json", nested := some 2 }]⟩
    let d' : Descriptor := ⟨0, "D", [
      { ident := "b", exported := false, tag := some "a,json", embedded := true, nested := some 1 },
      { ident := "A", exported := false }, { ident := "a", tag := some "doc,x,json" }]⟩
    d.id = d'.id ∧ d.Alike d' ∧
      (∀ k, t.Leads d.fields k → (t.describe k).Alike (t'.describe k)) ∧
      d.exposures = [.embedded 1, .column "doc" true none] ∧
      (t.describe 1).exposures = [.column "a" false none, .column "up_link" false (some 1)] ∧
      (t.resolve d).columns = (t'.resolve d').columns ∧
      Visit.log (t.resolve d).visits = Visit.log (t'.resolve d').visits := by
  intro t t' d d'
  have hd : d.Alike d' := ⟨rfl, by decide +kernel⟩
  have ht : ∀ k, t.Leads d.fields k → (t.describe k).Alike (t'.describe k) := by
    intro k hk
    have hfs : ∀ f ∈ d.fields, ∀ j ∈ f.nested, f.Expands j → j ∈ [1] := by decide
    have hks : ∀ f ∈ (t.describe 1).fields, ∀ j ∈ f.nested, f.Expands j → j ∈ [1] := by decide
    have h1 : k ∈ [1] := by
      apply hk.mem_of_expands
      · exact fun f hf j he => hfs f hf j he.2.1 he
      · intro i hi f hf j he
        obtain rfl : i = 1 := by simpa using hi
        exact hks f hf j he.2.1 he
    obtain rfl : k = 1 := by simpa using h1
    exact ⟨rfl, by decide +kernel⟩
  exact ⟨rfl, hd, ht, by decide +kernel, by decide +kernel, resolve_of_exposed t t' d d' rfl hd ht⟩

end Catalog

end SelectList
