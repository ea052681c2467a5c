import Mathlib.Data.List.Basic
import SelectList.Role

namespace SelectList.Tag

/-- What a tag is written from. Only the name and the options themselves have no comma. -/
@[ext]
structure Parts where
  name : String
  options : List String
  commaless : ∀ part ∈ name :: options, ',' ∉ part.toList

namespace Parts

def text (p : Parts) : String :=
  ",".intercalate (p.name :: p.options)

def tag (p : Parts) : Tag :=
  if p.name = "-" ∧ p.options = [] then { name := none, json := false, ignored := true }
  else
    { name := if p.name = "" then none else some p.name
      json := p.options.getLast? = some "json"
      ignored := false }

theorem intercalate_concat (name : String) (options : List String) (last : String) :
    ",".intercalate (name :: (options ++ [last])) =
      ",".intercalate (name :: options) ++ "," ++ last := by
  rw [← List.cons_append,
    String.intercalate_append_of_ne_nil (List.cons_ne_nil _ _) (List.cons_ne_nil _ _),
    String.intercalate_singleton]

def withOption (p : Parts) (option : String) (h : ',' ∉ option.toList) : Parts where
  name := p.name
  options := p.options ++ [option]
  commaless part hpart := by
    rw [← List.cons_append, List.mem_append, List.mem_singleton] at hpart
    obtain hpart | rfl := hpart
    · exact p.commaless part hpart
    · exact h

theorem text_withOption (p : Parts) (option : String) (h : ',' ∉ option.toList) :
    (p.withOption option h).text = p.text ++ "," ++ option :=
  intercalate_concat p.name p.options option

end Parts

theorem splitOn_eq_split (raw : List Char) : raw.splitOn ',' = (split raw).1 :: (split raw).2 := by
  induction raw with
  | nil => rfl
  | cons c cs ih =>
    rw [List.splitOn_cons_eq_if_modifyHead, ih, split]
    by_cases hc : c = ','
    · simp [hc]
    · simp [hc]

theorem comma_not_mem_split (raw : List Char) :
    ∀ part ∈ (split raw).1 :: (split raw).2, ',' ∉ part := by
  induction raw with
  | nil => simp [split]
  | cons c cs ih =>
    rw [List.forall_mem_cons] at ih
    rw [split]
    by_cases hc : c = ','
    · simpa [hc] using ih
    · simpa [hc, Ne.symm hc] using ih

theorem split_text (p : Parts) :
    split p.text.toList = (p.name.toList, p.options.map String.toList) := by
  have hl : ∀ part ∈ (p.name :: p.options).map String.toList, ',' ∉ part := by
    simpa using p.commaless
  have hs := List.splitOn_intercalate ',' hl (List.cons_ne_nil _ _)
  have ht : p.text.toList = [','].intercalate ((p.name :: p.options).map String.toList) := by
    rw [Parts.text, String.toList_intercalate]
    rfl
  rw [← ht, splitOn_eq_split, List.map_cons, List.cons.injEq] at hs
  exact Prod.ext hs.1 hs.2

theorem Parts.text_injective : Function.Injective text := by
  intro p q h
  have hs := split_text p
  rw [h, split_text, Prod.mk.injEq] at hs
  have ho := List.map_injective_iff.mpr (fun _ _ => String.toList_inj.mp) hs.2
  exact Parts.ext (String.toList_inj.mp hs.1).symm ho.symm

theorem Parts.exists_text (raw : String) : ∃ p : Parts, p.text = raw := by
  have hraw : [','].intercalate (raw.toList.splitOn ',') = raw.toList :=
    List.intercalate_splitOn ','
  rw [splitOn_eq_split] at hraw
  have hc := comma_not_mem_split raw.toList
  rw [List.forall_mem_cons] at hc
  refine ⟨⟨.ofList (split raw.toList).1, (split raw.toList).2.map .ofList, ?_⟩, ?_⟩
  · simpa using hc
  · rw [← String.toList_inj, text, String.toList_intercalate]
    simpa using hraw

theorem text_eq_dash_iff (p : Parts) : p.text = "-" ↔ p.name = "-" ∧ p.options = [] := by
  constructor
  · intro h
    have hs := split_text p
    have hd : split "-".toList = (['-'], []) := by decide
    rw [h, hd, Prod.mk.injEq] at hs
    exact ⟨String.toList_inj.mp hs.1.symm, List.map_eq_nil_iff.mp hs.2.symm⟩
  · rintro ⟨hn, ho⟩
    rw [Parts.text, hn, ho, String.intercalate_singleton]

theorem parse_text (p : Parts) : parse (some p.text) = p.tag := by
  have hd : p.text.toList = ['-'] ↔ p.name = "-" ∧ p.options = [] := by
    rw [← text_eq_dash_iff, ← String.toList_inj]
    rfl
  have hj : ((p.options.map String.toList).getLast? == some ['j', 's', 'o', 'n']) =
      decide (p.options.getLast? = some "json") := by
    have hjson : some ['j', 's', 'o', 'n'] = (some "json").map String.toList := rfl
    rw [List.getLast?_map, Bool.eq_iff_iff, beq_iff_eq, decide_eq_true_iff, hjson]
    exact (Option.map_injective fun _ _ => String.toList_inj.mp).eq_iff
  rw [parse, Option.map_some, Option.getD_some, ofChars, split_text, Parts.tag]
  simp only [hd, hj, String.ofList_toList, String.toList_eq_nil_iff]
  rfl

theorem suffix_text_iff (p : Parts) :
    ",json".toList <:+ p.text.toList ↔ p.options.getLast? = some "json" := by
  have hj : ',' ∉ "json".toList := by decide
  constructor
  · rintro ⟨front, h⟩
    obtain ⟨q, hq⟩ := Parts.exists_text (.ofList front)
    have ht : (q.withOption "json" hj).text = p.text := by
      rw [Parts.text_withOption, hq, ← String.toList_inj, ← h]
      simp
    rw [← Parts.text_injective ht]
    simp [Parts.withOption]
  · intro h
    obtain ⟨options, ho⟩ := List.getLast?_eq_some_iff.mp h
    rw [Parts.text, ho, Parts.intercalate_concat, String.toList_append, String.toList_append,
      List.append_assoc]
    exact List.suffix_append _ _

theorem json_parse_iff (raw : String) :
    (parse (some raw)).json = true ↔ ",json".toList <:+ raw.toList := by
  obtain ⟨p, rfl⟩ := Parts.exists_text raw
  rw [suffix_text_iff, parse_text, Parts.tag]
  by_cases hd : p.name = "-" ∧ p.options = []
  · simp [hd]
  · simp [hd]

/-- Reading gives what the written parts mean. Every text was written from one name and one list of
options, so this says what each tag is read as. -/
theorem parse_inverts_text :
    (∀ p : Parts, parse (some p.text) = p.tag) ∧
      (∀ raw : String, ∃! p : Parts, p.text = raw) ∧
      ∀ raw : Option String, (parse raw).json = true ↔
        ∃ text, raw = some text ∧ ",json".toList <:+ text.toList := by
  refine ⟨parse_text, fun raw => ?_, fun raw => ?_⟩
  · obtain ⟨p, hp⟩ := Parts.exists_text raw
    exact ⟨p, hp, fun q hq => Parts.text_injective (hq.trans hp.symm)⟩
  · cases raw with
    | none => simp [parse, untagged]
    | some raw => simp [json_parse_iff]

-- a dash with an option, even an empty one, is a name
example : parse (some "-,") = { name := some "-", json := false, ignored := false } := by decide

end SelectList.Tag
