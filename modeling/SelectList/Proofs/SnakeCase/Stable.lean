import SelectList.Proofs.SnakeCase

namespace SelectList

open Letter

namespace SnakeCase

variable {a b c : Char} {before next afterNext : Option Char} {cs rest : List Char}

def Stuck (c : Char) : Prop :=
  isUppercase c = true ∧ lowercase c = [c]

instance : DecidablePred Stuck := fun c =>
  inferInstanceAs (Decidable (isUppercase c = true ∧ lowercase c = [c]))

theorem Stuck.letters_eq (h : Stuck c) : letters c = [c] := by
  rw [letters_of_isUppercase h.1, h.2]

theorem not_isUppercase_of_mem_letters (hc : ¬Stuck c) (ha : a ∈ letters c) :
    isUppercase a = false := by
  rw [Bool.eq_false_iff]
  intro hu
  obtain h | ⟨-, d, hd, h⟩ := letters_cases c
  · obtain rfl : a = c := by simpa [h] using ha
    rw [letters_of_isUppercase hu] at h
    exact hc ⟨hu, h⟩
  · have hd' : a ≠ d := by
      rintro rfl
      simp [not_isLowercase_of_isUppercase hu] at hd
    have hm : a ≠ '\u0307' := mark_dotAbove.ne_of_isUppercase hu
    obtain h | h := h <;> simp [h, hd', hm] at ha

def Settled (before : Option Char) : List Char → Prop
  | [] => True
  | c :: rest => opens before c rest.head? = false ∧ Settled (some c) rest

theorem spelled_eq_self_iff (h : ∀ c ∈ cs, isUppercase c = true → Stuck c) :
    spelled before cs = cs ↔ Settled before cs := by
  induction cs generalizing before with
  | nil => exact ⟨fun _ => trivial, fun _ => rfl⟩
  | cons c rest ih =>
    have hc : letters c = [c] := by
      by_cases hu : isUppercase c = true
      · exact (h c List.mem_cons_self hu).letters_eq
      · exact letters_of_not_isUppercase (Bool.eq_false_iff.mpr hu)
    have hrest : spelled (some c) rest = rest ↔ Settled (some c) rest :=
      ih fun d hd => h d (List.mem_cons_of_mem c hd)
    rw [spelled, Settled, hc, ← hrest]
    by_cases ho : opens before c rest.head? = true
    · have hne : c ≠ '_' := by
        rintro rfl
        simp [opens_of_not_isUppercase mark_underscore.notUppercase] at ho
      simp [ho, Ne.symm hne]
    · rw [Bool.not_eq_true] at ho
      simp [ho]

theorem stuck_of_mem_spelled (h : c ∈ spelled before cs) (hc : isUppercase c = true) :
    Stuck c := by
  induction cs generalizing before with
  | nil => exact absurd h List.not_mem_nil
  | cons b rest ih =>
    rw [spelled, List.append_assoc, List.mem_append, List.mem_append] at h
    obtain h | h | h := h
    · have hu : c = '_' := by
        split at h <;> simp_all
      simp [hu, mark_underscore.notUppercase] at hc
    · by_cases hb : Stuck b
      · rw [hb.letters_eq, List.mem_singleton] at h
        exact h ▸ hb
      · simp [not_isUppercase_of_mem_letters hb h] at hc
    · exact ih h

theorem settled_append {xs : List Char} (hxs : xs ≠ []) (h : ∀ x ∈ xs, isUppercase x = false) :
    Settled before (xs ++ rest) ↔ Settled xs.getLast? rest := by
  induction xs generalizing before with
  | nil => exact absurd rfl hxs
  | cons x xs ih =>
    have hx : opens before x (xs ++ rest).head? = false :=
      opens_of_not_isUppercase (h x List.mem_cons_self)
    rw [List.cons_append, Settled, hx, eq_self, true_and]
    cases xs with
    | nil => rfl
    | cons y ys =>
      rw [ih (List.cons_ne_nil y ys) fun z hz => h z (List.mem_cons_of_mem x hz),
        List.getLast?_cons_cons]

theorem settled_letters :
    Settled before (letters c ++ rest) ↔
      (Stuck c → opens before c rest.head? = false) ∧ Settled (letters c).getLast? rest := by
  by_cases hc : Stuck c
  · simp [hc.letters_eq, Settled, hc]
  · rw [settled_append (letters_ne_nil c) fun a => not_isUppercase_of_mem_letters hc]
    simp [hc]

/-- A stuck capital after another one: the first pass writes no underscore before it, since no
small letter follows, and the second one does, since one stands beside it by then. -/
structure Unsettled (b c : Char) (next afterNext : Option Char) : Prop where
  stuck : Stuck c
  capital : isUppercase b = true
  unfollowed : next.any isLowercase = false
  beside : (lowercase b).getLast?.any isLowercase = true ∨
    Stuck b ∧ next.any (fun a => isUppercase a && (lowercase a).head?.any isLowercase) = true ∧
      afterNext.any isLowercase = false

theorem startsWord_of_isUppercase (h : isUppercase b = true) :
    startsWord b next = next.any isLowercase := by
  simp [startsWord, not_isLowercase_of_isUppercase h, not_isDigit_of_isUppercase h, h]

theorem head?_spelled_of_isUppercase (hc : isUppercase c = true)
    (hn : rest[0]?.any isLowercase = false) :
    (spelled (some c) rest).head?.any isLowercase = true ↔
      rest[0]?.any (fun a => isUppercase a && (lowercase a).head?.any isLowercase) = true ∧
        rest[1]?.any isLowercase = false := by
  cases rest with
  | nil => simp [spelled]
  | cons a rest =>
    have ha : isLowercase a = false := by simpa using hn
    rw [List.getElem?_cons_zero, Option.any_some, List.getElem?_cons_succ, spelled,
      List.append_assoc]
    by_cases hu : isUppercase a = true
    · have ho : opens (some c) a rest.head? = rest[0]?.any isLowercase := by
        rw [opens, hu, Bool.true_and, Option.any_some, startsWord_of_isUppercase hc,
          List.head?_eq_getElem?]
      rw [ho, hu, Bool.true_and, ← letters_of_isUppercase hu]
      by_cases hb : rest[0]?.any isLowercase = true
      · simp [hb, mark_underscore.notLowercase]
      · rw [if_neg hb, List.nil_append, List.head?_append_of_ne_nil _ (letters_ne_nil a)]
        simp [hb]
    · rw [Bool.not_eq_true] at hu
      simp [opens_of_not_isUppercase hu, letters_of_not_isUppercase hu, ha, hu]

theorem Unsettled.not_opens (h : Unsettled b c rest[0]? rest[1]?) :
    opens (some b) c rest.head? = false := by
  rw [opens, Option.any_some, startsWord_of_isUppercase h.capital, List.head?_eq_getElem?,
    h.unfollowed, Bool.and_false]

theorem startsWord_last (hb : isUppercase b = true) :
    ((letters b).getLast?.any fun p => startsWord p next) = true ↔
      (lowercase b).getLast?.any isLowercase = true ∨ Stuck b ∧ next.any isLowercase = true := by
  rw [letters_of_isUppercase hb]
  obtain h | ⟨d, hd, h | h⟩ := lowercase_of_isUppercase hb
  · have hs : Stuck b := ⟨hb, h⟩
    simp [h, startsWord_of_isUppercase hb, not_isLowercase_of_isUppercase hb, hs]
  · simp [h, startsWord, hd]
  · -- a small form that ends in a mark
    have hs : ¬Stuck b := fun hs => by simpa [h] using hs.2
    simp [h, startsWord_of_mark mark_dotAbove, mark_dotAbove.notLowercase, hs]

theorem unsettled_iff (ho : opens (some b) c rest.head? = false) :
    Unsettled b c rest[0]? rest[1]? ↔
      Stuck c ∧ opens (letters b).getLast? c (spelled (some c) rest).head? = true := by
  by_cases hc : Stuck c
  case neg => exact ⟨fun h => absurd h.stuck hc, fun h => absurd h.1 hc⟩
  rw [opens, hc.1, Bool.true_and, Option.any_some, List.head?_eq_getElem?] at ho
  rw [opens, hc.1, Bool.true_and]
  by_cases hb : isUppercase b = true
  · have hn : rest[0]?.any isLowercase = false := by rwa [startsWord_of_isUppercase hb] at ho
    rw [startsWord_last hb, head?_spelled_of_isUppercase hc.1 hn]
    exact ⟨fun h => ⟨hc, h.beside⟩, fun h => ⟨hc, hb, hn, h.2⟩⟩
  · -- such a character is written as it is, and what follows it does not matter
    rw [Bool.not_eq_true] at hb
    have hs : startsWord b (spelled (some c) rest).head? = false := by
      simpa [startsWord, hb] using ho
    rw [letters_of_not_isUppercase hb, List.getLast?_singleton, Option.any_some, hs]
    refine ⟨fun h => ?_, fun h => ?_⟩
    · simp [h.capital] at hb
    · cases h.2

def UnsettledAt (cs : List Char) (i : Nat) : Prop :=
  ∃ b c, cs[i]? = some b ∧ cs[i + 1]? = some c ∧ Unsettled b c cs[i + 2]? cs[i + 3]?

theorem exists_unsettledAt_cons :
    (∃ i, UnsettledAt (b :: c :: rest) i) ↔
      Unsettled b c rest[0]? rest[1]? ∨ ∃ i, UnsettledAt (c :: rest) i := by
  constructor
  · rintro ⟨i, h⟩
    cases i with
    | zero =>
      obtain ⟨b', c', hb, hc, h⟩ := h
      obtain rfl : b = b' := by simpa using hb
      obtain rfl : c = c' := by simpa using hc
      exact .inl h
    | succ i => exact .inr ⟨i, h⟩
  · rintro (h | ⟨i, h⟩)
    · exact ⟨0, b, c, rfl, rfl, h⟩
    · exact ⟨i + 1, h⟩

theorem settled_spelled (b : Char) (cs : List Char) :
    Settled (letters b).getLast? (spelled (some b) cs) ↔ ¬∃ i, UnsettledAt (b :: cs) i := by
  induction cs generalizing b with
  | nil => simp [spelled, Settled, UnsettledAt]
  | cons c rest ih =>
    rw [exists_unsettledAt_cons, not_or, ← ih, spelled, List.append_assoc]
    by_cases ho : opens (some b) c rest.head? = true
    · have hu : ¬Unsettled b c rest[0]? rest[1]? := fun hu => by simp [hu.not_opens] at ho
      rw [if_pos ho, List.singleton_append, Settled, settled_letters,
        opens_of_not_isUppercase mark_underscore.notUppercase]
      simp [opens_underscore, hu]
    · rw [Bool.not_eq_true] at ho
      rw [ho, if_neg Bool.false_ne_true, List.nil_append, settled_letters, unsettled_iff ho,
        not_and, Bool.not_eq_true]

theorem settled_of_spelled (cs : List Char) :
    Settled none (spelled none cs) ↔ ¬∃ i, UnsettledAt cs i := by
  cases cs with
  | nil => simp [spelled, Settled, UnsettledAt]
  | cons c rest =>
    have ho (next : Option Char) : opens none c next = false := by simp [opens]
    rw [spelled, ho, if_neg Bool.false_ne_true, List.nil_append, settled_letters, settled_spelled]
    simp [ho]

end SnakeCase

open SnakeCase

/-- A name is its own default name exactly if no place of the identifier is unsettled, and so always
if each of its capitals has a small form. -/
theorem snakeCase_stable_iff (ident : String) :
    (snakeCase (snakeCase ident) = snakeCase ident ↔ ¬∃ i, UnsettledAt ident.toList i) ∧
      ((∀ c ∈ ident.toList, ¬Stuck c) → snakeCase (snakeCase ident) = snakeCase ident) := by
  have hiff : snakeCase (snakeCase ident) = snakeCase ident ↔ ¬∃ i, UnsettledAt ident.toList i := by
    rw [← String.toList_inj, toList_snakeCase, toList_snakeCase,
      spelled_eq_self_iff fun c => stuck_of_mem_spelled, settled_of_spelled]
  refine ⟨hiff, fun h => hiff.mpr ?_⟩
  rintro ⟨i, b, c, -, hc, hu⟩
  exact h c (List.mem_of_getElem? hc) hu.stuck

theorem snakeCase_stable_iff_mathematical :
    (∀ c ∈ "HTTPServer".toList, ¬Stuck c) ∧ UnsettledAt "𝐀𝐁C".toList 0 ∧
      snakeCase (snakeCase "HTTPServer") = snakeCase "HTTPServer" ∧
      snakeCase (snakeCase "𝐀𝐁C") ≠ snakeCase "𝐀𝐁C" := by
  have hall : ("HTTPServer".toList.all fun c => ¬Stuck c) = true := by decide
  have hc : ∀ c ∈ "HTTPServer".toList, ¬Stuck c := fun c h =>
    of_decide_eq_true (List.all_eq_true.mp hall c h)
  have hu : Unsettled '𝐀' '𝐁' (some 'C') none :=
    ⟨by decide, by decide, by decide, .inr (by decide)⟩
  have h0 : UnsettledAt "𝐀𝐁C".toList 0 := ⟨'𝐀', '𝐁', rfl, rfl, hu⟩
  refine ⟨hc, h0, (snakeCase_stable_iff "HTTPServer").2 hc, fun h => ?_⟩
  exact (snakeCase_stable_iff "𝐀𝐁C").1.mp h ⟨0, h0⟩

end SelectList
