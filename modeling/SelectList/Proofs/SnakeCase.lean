import Mathlib.Data.List.Basic
import SelectList.Proofs.Letter
import SelectList.Role

namespace SelectList

open Letter

namespace SnakeCase

variable {b c : Char} {before after : Option Char} {cs rest : List Char} {i : Nat}

def letters (c : Char) : List Char :=
  if isUppercase c then lowercase c else [c]

theorem letters_of_isUppercase (h : isUppercase c = true) : letters c = lowercase c := by
  rw [letters, if_pos h]

theorem letters_of_not_isUppercase (h : isUppercase c = false) : letters c = [c] := by
  simp [letters, h]

theorem letters_cases (c : Char) :
    letters c = [c] ∨
      isUppercase c = true ∧
        ∃ d, isLowercase d = true ∧ (letters c = [d] ∨ letters c = [d, '\u0307']) := by
  by_cases hc : isUppercase c = true
  · rw [letters_of_isUppercase hc]
    obtain h | h := lowercase_of_isUppercase hc
    · exact .inl h
    · exact .inr ⟨hc, h⟩
  · exact .inl (letters_of_not_isUppercase (Bool.not_eq_true _ ▸ hc))

theorem letters_ne_nil (c : Char) : letters c ≠ [] := by
  obtain h | ⟨-, d, -, h | h⟩ := letters_cases c <;> simp [h]

theorem underscore_mem_letters : '_' ∈ letters c ↔ c = '_' := by
  obtain h | ⟨hc, d, hd, h⟩ := letters_cases c
  · simp [h, eq_comm]
  · have hc' : c ≠ '_' := mark_underscore.ne_of_isUppercase hc
    have hd' : d ≠ '_' := mark_underscore.ne_of_isLowercase hd
    obtain h | h := h <;> simp [h, hc', Ne.symm hd']

theorem startsWord_of_mark (h : Mark b) : startsWord b after = false := by
  simp [startsWord, h.notUppercase, h.notLowercase, h.notDigit]

theorem ne_underscore_of_startsWord (h : startsWord b after = true) : b ≠ '_' := by
  rintro rfl
  simp [startsWord_of_mark mark_underscore] at h

def opens (before : Option Char) (c : Char) (after : Option Char) : Bool :=
  isUppercase c && before.any fun b => startsWord b after

theorem opens_of_not_isUppercase (h : isUppercase c = false) : opens before c after = false := by
  simp [opens, h]

theorem opens_underscore : opens (some '_') c after = false := by
  simp [opens, startsWord_of_mark mark_underscore]

def spelled (before : Option Char) : List Char → List Char
  | [] => []
  | c :: rest =>
    (if opens before c rest.head? then ['_'] else []) ++ letters c ++ spelled (some c) rest

def Last.ofRead (c : Char) : Last :=
  ⟨c, (letters c).getLast?.getD c⟩

theorem Last.written_ofRead : (ofRead c).written = '_' ↔ c = '_' := by
  have hl := letters_ne_nil c
  constructor
  · intro h
    rw [ofRead, List.getLast?_eq_some_getLast hl, Option.getD_some] at h
    exact underscore_mem_letters.mp (h ▸ List.getLast_mem hl)
  · rintro rfl
    rfl

theorem gap_ofRead (before after : Option Char) :
    gap (before.map .ofRead) after =
      if before.any fun b => startsWord b after then ['_'] else [] := by
  cases before with
  | none => rfl
  | some b =>
    by_cases hb : b = '_'
    · subst hb
      simp [gap, startsWord_of_mark mark_underscore, Last.ofRead]
    · have hw : (Last.ofRead b).written ≠ '_' := fun h => hb (Last.written_ofRead.mp h)
      have hr : (Last.ofRead b).read = b := rfl
      simp [gap, hw, hr]

theorem words_ofRead (before : Option Char) (cs : List Char) :
    words (before.map .ofRead) cs = spelled before cs := by
  induction cs generalizing before with
  | nil => rfl
  | cons c rest ih =>
    have hrest := ih (some c)
    rw [Option.map_some] at hrest
    by_cases hc : isUppercase c = true
    · have hl : Last.ofLetter c = .ofRead c := by simp [Last.ofLetter, Last.ofRead, letters, hc]
      rw [words, if_pos hc, gap_ofRead, hl, hrest, spelled]
      simp [opens, letters, hc]
    · have hl : (⟨c, c⟩ : Last) = .ofRead c := by simp [Last.ofRead, letters, hc]
      rw [words, if_neg hc, hl, hrest, spelled]
      simp [opens, letters, hc]

theorem toList_snakeCase (ident : String) :
    (snakeCase ident).toList = spelled none ident.toList := by
  rw [snakeCase, String.toList_ofList, ← words_ofRead, Option.map_none]

def startsAt (cs : List Char) (i : Nat) : Bool :=
  0 < i && cs[i]?.any isUppercase &&
    (cs[i - 1]?.any isLowercase || cs[i - 1]?.any Char.isDigit ||
      cs[i - 1]?.any isUppercase && cs[i + 1]?.any isLowercase)

def piece (cs : List Char) (i : Nat) : List Char :=
  (if startsAt cs i then ['_'] else []) ++ cs[i]?.elim [] letters

def written (cs : List Char) (i : Nat) : List Char :=
  (List.range i).flatMap (piece cs)

theorem startsAt_succ :
    startsAt cs (i + 1) = cs[i + 1]?.any fun c => opens cs[i]? c cs[i + 2]? := by
  cases hb : cs[i]? <;> cases hc : cs[i + 1]? <;> simp [startsAt, opens, startsWord, hb, hc]

theorem piece_cons_succ (b : Char) (cs : List Char) (i : Nat) :
    piece (b :: cs) (i + 2) = piece cs (i + 1) := by
  rw [piece, piece, startsAt_succ, startsAt_succ]
  rfl

theorem spelled_some (b : Char) (cs : List Char) :
    spelled (some b) cs = (List.range cs.length).flatMap fun i => piece (b :: cs) (i + 1) := by
  induction cs generalizing b with
  | nil => rfl
  | cons c rest ih =>
    have h1 : piece (b :: c :: rest) 1 =
        (if opens (some b) c rest.head? then ['_'] else []) ++ letters c := by
      rw [piece, startsAt_succ, List.head?_eq_getElem?]
      rfl
    rw [List.length_cons, List.range_succ_eq_map, List.flatMap_cons, List.flatMap_map, spelled, ih,
      h1]
    simp only [Nat.succ_eq_add_one, piece_cons_succ]

theorem spelled_none (cs : List Char) : spelled none cs = written cs cs.length := by
  cases cs with
  | nil => rfl
  | cons c rest =>
    have h0 : piece (c :: rest) 0 = letters c := rfl
    have hn : opens none c rest.head? = false := by simp [opens]
    rw [written, List.length_cons, List.range_succ_eq_map, List.flatMap_cons, List.flatMap_map,
      spelled, spelled_some, h0, hn]
    rfl

theorem written_succ (cs : List Char) (i : Nat) :
    written cs (i + 1) = written cs i ++ piece cs i := by
  simp [written, List.range_succ]

theorem written_prefix {n : Nat} (h : i ≤ n) : written cs i <+: written cs n := by
  obtain ⟨k, rfl⟩ := Nat.exists_eq_add_of_le h
  induction k with
  | zero => exact List.prefix_rfl
  | succ k ih =>
    rw [← Nat.add_assoc, written_succ]
    exact (ih (Nat.le_add_right i k)).trans (List.prefix_append _ _)

theorem piece_of_underscore (h : cs[i]? = some '_') : piece cs i = ['_'] := by
  have hs : startsAt cs i = false := by simp [startsAt, h, mark_underscore.notUppercase]
  simp [piece, hs, h, letters_of_not_isUppercase mark_underscore.notUppercase]

theorem exists_of_startsAt (h : startsAt cs i = true) :
    ∃ j b c, i = j + 1 ∧ cs[j]? = some b ∧ cs[j + 1]? = some c ∧ isUppercase c = true ∧
      startsWord b cs[j + 2]? = true := by
  cases i with
  | zero => simp [startsAt] at h
  | succ j =>
    rw [startsAt_succ, Option.any_eq_true] at h
    obtain ⟨c, hc, h⟩ := h
    rw [opens, Bool.and_eq_true, Option.any_eq_true] at h
    obtain ⟨hu, b, hb, hs⟩ := h
    exact ⟨j, b, c, rfl, hb, hc, hu, hs⟩

theorem piece_of_startsAt (h : startsAt cs i = true) :
    ∃ b ys, piece cs i = '_' :: b :: ys ∧ b ≠ '_' := by
  obtain ⟨j, -, c, rfl, -, hc, hu, -⟩ := exists_of_startsAt h
  obtain ⟨b, ys, hl⟩ := List.exists_cons_of_ne_nil (letters_ne_nil c)
  refine ⟨b, ys, by simp [piece, h, hc, hl], ?_⟩
  rintro rfl
  have hmem : '_' ∈ letters c := by simp [hl]
  exact mark_underscore.ne_of_isUppercase hu (underscore_mem_letters.mp hmem)

theorem written_of_startsAt (h : startsAt cs i = true) :
    ∃ xs a, written cs i = xs ++ [a] ∧ a ≠ '_' := by
  obtain ⟨j, b, -, rfl, hb, -, -, hs⟩ := exists_of_startsAt h
  have hp : piece cs j = (if startsAt cs j then ['_'] else []) ++ letters b := by
    rw [piece, hb, Option.elim_some]
  rw [written_succ, hp, ← List.dropLast_append_getLast (letters_ne_nil b), ← List.append_assoc,
    ← List.append_assoc]
  refine ⟨_, _, rfl, ?_⟩
  intro ha
  have hmem : '_' ∈ letters b := ha ▸ List.getLast_mem (letters_ne_nil b)
  exact ne_underscore_of_startsWord hs (underscore_mem_letters.mp hmem)

theorem lt_length_of_startsAt (h : startsAt cs i = true) : i < cs.length := by
  obtain ⟨j, -, c, rfl, -, hc, -, -⟩ := exists_of_startsAt h
  exact (List.getElem?_eq_some_iff.mp hc).1

def Doubled (cs : List Char) : Prop := ['_', '_'] <:+: cs

theorem doubled_cons : Doubled (c :: rest) ↔ c = '_' ∧ rest.head? = some '_' ∨ Doubled rest := by
  rw [Doubled, List.infix_cons_iff, List.cons_prefix_cons, eq_comm, Doubled]
  cases rest with
  | nil => simp
  | cons d rest => simp [eq_comm]

theorem doubled_cons_of_ne (h : c ≠ '_') : Doubled (c :: rest) ↔ Doubled rest := by
  simp [doubled_cons, h]

theorem doubled_append {xs : List Char} (h : '_' ∉ xs) : Doubled (xs ++ rest) ↔ Doubled rest := by
  induction xs with
  | nil => rfl
  | cons x xs ih =>
    rw [List.mem_cons, not_or] at h
    rw [List.cons_append, doubled_cons_of_ne (Ne.symm h.1), ih h.2]

theorem head?_letters : (letters c ++ rest).head? = some '_' ↔ c = '_' := by
  constructor
  · intro h
    rw [List.head?_append_of_ne_nil _ (letters_ne_nil c)] at h
    exact underscore_mem_letters.mp (List.mem_of_head? h)
  · rintro rfl
    rfl

theorem head?_spelled : (spelled (some '_') cs).head? = some '_' ↔ cs.head? = some '_' := by
  cases cs with
  | nil => rfl
  | cons c rest =>
    rw [spelled, opens_underscore, if_neg Bool.false_ne_true, List.nil_append, head?_letters,
      List.head?_cons, Option.some_inj]

theorem doubled_spelled (before : Option Char) (cs : List Char) :
    Doubled (spelled before cs) ↔ Doubled cs := by
  induction cs generalizing before with
  | nil => rfl
  | cons c rest ih =>
    by_cases hc : c = '_'
    · subst hc
      have hs : spelled before ('_' :: rest) = '_' :: spelled (some '_') rest := by
        simp [spelled, opens_of_not_isUppercase mark_underscore.notUppercase,
          letters_of_not_isUppercase mark_underscore.notUppercase]
      rw [hs, doubled_cons, doubled_cons, head?_spelled, ih]
    · have hl : '_' ∉ letters c := fun h => hc (underscore_mem_letters.mp h)
      have hd : Doubled (letters c ++ spelled (some c) rest) ↔ Doubled (c :: rest) := by
        rw [doubled_append hl, ih, doubled_cons_of_ne hc]
      rw [spelled, List.append_assoc]
      split
      · -- the new underscore comes before a letter
        rw [List.singleton_append, doubled_cons, head?_letters, hd]
        simp [hc]
      · exact hd

end SnakeCase

open SnakeCase

/-- Each character adds its piece, which only its neighbours decide. An underscore of the identifier
adds itself, one of the rule's own comes between two other characters, and so none is doubled. -/
theorem snakeCase_by_neighbours (ident : String) :
    (snakeCase ident).toList = (List.range ident.toList.length).flatMap (piece ident.toList) ∧
      words none ident.toList = spelled none ident.toList ∧
      (∀ i, ident.toList[i]? = some '_' → piece ident.toList i = ['_']) ∧
      (∀ i, startsAt ident.toList i = true → ∃ xs a b ys,
        (List.range i).flatMap (piece ident.toList) = xs ++ [a] ∧
          (snakeCase ident).toList = xs ++ a :: '_' :: b :: ys ∧ a ≠ '_' ∧ b ≠ '_') ∧
      (['_', '_'] <:+: (snakeCase ident).toList ↔ ['_', '_'] <:+: ident.toList) := by
  have hout : (snakeCase ident).toList = written ident.toList ident.toList.length := by
    rw [← spelled_none, ← toList_snakeCase]
  refine ⟨hout, words_ofRead none _, fun i h => piece_of_underscore h, fun i h => ?_, ?_⟩
  · obtain ⟨xs, a, hw, ha⟩ := written_of_startsAt h
    obtain ⟨b, ys, hp, hb⟩ := piece_of_startsAt h
    have hlt : i + 1 ≤ ident.toList.length := lt_length_of_startsAt h
    obtain ⟨zs, hz⟩ := written_prefix hlt
    refine ⟨xs, a, b, ys ++ zs, hw, ?_, ha, hb⟩
    rw [hout, ← hz, written_succ, hw, hp]
    simp
  · have hd := doubled_spelled none ident.toList
    rwa [← toList_snakeCase] at hd

theorem snakeCase_by_neighbours_dotted :
    let cs := "Stra\u00DFe_\u0130Ds".toList
    let out := (snakeCase "Stra\u00DFe_\u0130Ds").toList
    cs[6]? = some '_' ∧ startsAt cs 8 = true ∧ out = "stra\u00DFe_i\u0307_ds".toList ∧
      piece cs 6 = ['_'] ∧
      ∃ xs a b ys, (List.range 8).flatMap (piece cs) = xs ++ [a] ∧
        out = xs ++ a :: '_' :: b :: ys ∧ a ≠ '_' ∧ b ≠ '_' := by
  intro cs out
  have h6 : cs[6]? = some '_' := by decide
  have h8 : startsAt cs 8 = true := by decide
  obtain ⟨-, -, hkept, hbetween, -⟩ := snakeCase_by_neighbours "Stra\u00DFe_\u0130Ds"
  exact ⟨h6, h8, by decide, hkept 6 h6, hbetween 8 h8⟩

end SelectList
