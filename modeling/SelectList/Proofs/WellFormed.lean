import SelectList.Proofs.KeepFirst
import SelectList.Proofs.Spread

namespace SelectList

structure Column.WellFormed (cs : List Column) : Prop where
  name_ne_empty : ∀ c ∈ cs, c.name ≠ ""
  names_nodup : (names cs).Nodup
  order_eq : ∀ (i : Nat) (c : Column), cs[i]? = some c → c.order = i
  path_ne_empty_iff : ∀ c ∈ cs, c.path ≠ "" ↔ c.kind = .nestedExpanded
  expanded : ∀ c ∈ cs, c.kind = .nestedExpanded → c.path = c.name ∧ c.needsAlias = true ∧
    ∃ n m : String, n ≠ "" ∧ m ≠ "" ∧ c.name = n ++ "." ++ m ∧ ∃ o ∈ cs, o.name = n

namespace RawColumn

structure Sound (names : List String) (c : RawColumn) : Prop where
  name_ne_empty : c.name ≠ ""
  path_eq : c.path = if c.kind = .nestedExpanded then c.name else ""
  outer : c.kind = .nestedExpanded →
    ∃ n m : String, n ≠ "" ∧ m ≠ "" ∧ c.name = n ++ "." ++ m ∧ n ∈ names

variable {ns ms : List String} {c : RawColumn}

theorem Sound.mono (h : Sound ns c) (hsub : ns ⊆ ms) : Sound ms c := by
  refine ⟨h.name_ne_empty, h.path_eq, fun hk => ?_⟩
  obtain ⟨n, m, hn, hm, he, hmem⟩ := h.outer hk
  exact ⟨n, m, hn, hm, he, hsub hmem⟩

theorem Sound.under {outer : String} (h : Sound ms c) (ho : outer ≠ "") (hmem : outer ∈ ns) :
    Sound ns (c.under outer) := by
  refine ⟨?_, rfl, fun _ => ⟨outer, c.name, ho, h.name_ne_empty, rfl, hmem⟩⟩
  simp [RawColumn.under, ho]

theorem Sound.path_ne_empty_iff (h : Sound ns c) : c.path ≠ "" ↔ c.kind = .nestedExpanded := by
  have hn : c.name ≠ "" := h.name_ne_empty
  rw [h.path_eq]
  split <;> simp [*]

end RawColumn

open RawColumn

theorem Field.sound_column {f : Field} {ns : List String} (h : f.Shows) : Sound ns f.column := by
  have hn : f.columnName ≠ "" := h.2.2.2
  unfold Field.column
  split
  · exact ⟨hn, rfl, nofun⟩
  · exact ⟨hn, rfl, nofun⟩

theorem Field.sound_spread {f : Field} {inner : Slot → List RawColumn}
    (h : ∀ k, f.Expands k → ∀ c ∈ inner k, Sound ((inner k).map (·.name)) c) :
    ∀ c ∈ f.spread inner, Sound ((f.spread inner).map (·.name)) c := by
  have hown : ∀ ns, ∀ c ∈ (if f.Shows then [f.column] else []), Sound ns c := by
    intro ns c hc
    have hf : f.Shows := by_contra fun hf => by simp [hf] at hc
    obtain rfl : c = f.column := by simpa [hf] using hc
    exact sound_column hf
  by_cases he : ∃ k, f.Expands k
  · obtain ⟨k, he⟩ := he
    rw [spread_of_expands he, List.map_append]
    intro c hc
    rcases List.mem_append.mp hc with hm | hm
    · obtain ⟨i, hi, rfl⟩ := List.mem_map.mp hm
      have hs : Sound ((inner k).map (·.name)) i := h k he i hi
      obtain ⟨-, ⟨-, hemb⟩ | ⟨hf, -⟩⟩ := expands_iff.mp he
      · rw [within_of_embedded hemb, List.map_id]
        exact hs.mono (List.subset_append_left _ _)
      · -- the column of the field itself follows those that it expands
        rw [within_of_not_embedded hf.2.1, if_pos hf]
        have hname : f.column.name = f.columnName := by
          unfold column
          split <;> rfl
        apply hs.under hf.2.2.2
        simp [hname]
    · exact hown _ c hm
  · rw [spread_of_not_expands (not_exists.mp he)]
    exact hown _

namespace Catalog

theorem walk_sound (t : Catalog) (trail : List Slot) (fs : List Field) : ∀ owner,
    ∀ c ∈ (t.walk trail owner fs).columns,
      Sound ((t.walk trail owner fs).columns.map (·.name)) c := by
  induction trail, fs using t.walk_induction with
  | nil trail =>
    intro owner c hc
    rw [walk_nil] at hc
    cases hc
  | cons trail f fs hinner hrest =>
    intro owner c hc
    have hgained : ∀ k, f.Expands k →
        ∀ c ∈ t.gained trail k, Sound ((t.gained trail k).map (·.name)) c := by
      intro k he
      unfold gained
      split
      · nofun
      · next hk => exact hinner k he hk _
    rw [columns_cons, entered_columns_eq, List.map_append] at *
    rcases List.mem_append.mp hc with hc | hc
    · exact (Field.sound_spread hgained c hc).mono (List.subset_append_left _ _)
    · exact (hrest owner c hc).mono (List.subset_append_right _ _)

/-- Keeping the first column of each name takes no name away, so the outer column that an expanded
one stands under is still there, if only as an earlier column of its name. -/
theorem resolve_wellFormed (t : Catalog) (d : Descriptor) :
    Column.WellFormed (t.resolve d).columns := by
  have hraw : ∀ c ∈ (t.resolve d).columns,
      Sound (Column.names (t.resolve d).columns) c.toRawColumn := by
    intro c hc
    have hk : c.toRawColumn ∈ keepFirst [] (t.collect d).columns := by
      rw [← Column.map_toRawColumn_ofRaw]
      exact List.mem_map_of_mem hc
    have hs := walk_sound t [d.id] d.fields d.typeName _ ((keepFirst_sublist _ _).subset hk)
    exact hs.mono fun n hn => (Column.mem_names_ofRaw _ n).mpr hn
  constructor
  · intro c hc
    exact (hraw c hc).name_ne_empty
  · change (Column.names (Column.ofRaw _)).Nodup
    rw [Column.names_ofRaw]
    exact nodup_names_keepFirst _ _
  · intro i c hc
    exact Column.order_of_getElem?_number hc
  · intro c hc
    exact (hraw c hc).path_ne_empty_iff
  · intro c hc hk
    have hp : c.path = c.name := by rw [(hraw c hc).path_eq, if_pos hk]
    obtain ⟨n, m, hn, hm, he, hmem⟩ := (hraw c hc).outer hk
    refine ⟨hp, ?_, n, m, hn, hm, he, List.mem_map.mp hmem⟩
    simp [Column.needsAlias, he]

-- the column that `x.n.n` stands under is not the one that `x.n` has of its own
example :
    let named (n : String) : Field := (Field.ofIdent "").withTag n
    let t : Catalog := .ofList [⟨0, "R0", [named "n"]⟩]
    let d : Descriptor :=
      ⟨1, "R1", [(named "x").leadingTo (some 0), (named "x.n").leadingTo (some 0)]⟩
    (t.resolve d).columns.map (fun c => (c.name, c.kind)) =
      [("x.n", .nestedExpanded), ("x", .plain), ("x.n.n", .nestedExpanded)] := by
  decide +kernel

end Catalog

end SelectList
