import SelectList.Json.Settings

namespace SelectList

namespace Decimal

theorem isDigit_digitChar {d : Nat} (h : d < 10) : (digitChar d).isDigit = true := by
  revert h
  revert d
  decide

theorem digits_ne_nil (n : Nat) : digits n ≠ [] := by
  rw [digits]
  split <;> simp

theorem isDigit_of_mem_digits {n : Nat} {c : Char} (h : c ∈ digits n) : c.isDigit = true := by
  fun_induction digits n with
  | case1 n hn =>
    rw [List.mem_singleton.mp h]
    exact isDigit_digitChar hn
  | case2 n _ ih =>
    rcases List.mem_append.mp h with h | h
    · exact ih h
    · rw [List.mem_singleton.mp h]
      exact isDigit_digitChar (by omega)

theorem head?_digits_ne {n : Nat} (h : 0 < n) : (digits n).head? ≠ some '0' := by
  fun_induction digits n with
  | case1 n hn =>
    revert hn h
    revert n
    decide
  | case2 n _ ih =>
    have hne := digits_ne_nil (n / 10)
    rw [List.head?_append, List.head?_eq_some_head hne, Option.some_or,
      ← List.head?_eq_some_head hne]
    exact ih (by omega)

theorem length_digits_of_head? {n : Nat} (h : (digits n).head? = some '0') :
    (digits n).length = 1 := by
  rcases Nat.eq_zero_or_pos n with rfl | hn
  · rw [digits]
    rfl
  · exact absurd h (head?_digits_ne hn)

end Decimal

namespace Json

open Lexeme

def Ends (rest : List Char) : Prop := ∀ c ∈ rest.head?, c ∈ [',', ']', '\x7d']

theorem Ends.goes_no_further {c : Char} {rest : List Char} (h : Ends (c :: rest)) :
    c.isDigit = false ∧ c ≠ '.' ∧ c ≠ 'e' ∧ c ≠ 'E' := by
  have hc : c ∈ [',', ']', '\x7d'] := h c rfl
  simp only [List.mem_cons, List.not_mem_nil, or_false] at hc
  rcases hc with rfl | rfl | rfl <;> decide

theorem ends_cons {c : Char} (h : c ∈ [',', ']', '\x7d']) (rest : List Char) :
    Ends (c :: rest) := by
  simpa [Ends] using h

namespace Numeral

theorem leadingDigits_digits (n : Nat) {rest : List Char} (h : Ends rest) :
    leadingDigits (Decimal.digits n ++ rest) = Decimal.digits n := by
  have hr : rest.takeWhile Char.isDigit = [] := by
    cases rest with
    | nil => rfl
    | cons c rest => exact List.takeWhile_cons_of_neg (by simp [h.goes_no_further.1])
  rw [leadingDigits, List.takeWhile_append_of_pos fun c hc => Decimal.isDigit_of_mem_digits hc, hr,
    List.append_nil]

theorem afterDigits_digits (n : Nat) {rest : List Char} (h : Ends rest) :
    afterDigits (Decimal.digits n ++ rest) = rest := by
  have hd := List.takeWhile_append_dropWhile (p := Char.isDigit) (l := Decimal.digits n ++ rest)
  rw [show List.takeWhile Char.isDigit _ = _ from leadingDigits_digits n h] at hd
  exact List.append_cancel_left hd

theorem scan_digits (n : Nat) {rest : List Char} (h : Ends rest) :
    scan false (Decimal.digits n ++ rest) =
      .ok (⟨false, Decimal.digits n, none, none⟩, rest) := by
  have hs : someDigits (Decimal.digits n ++ rest) = .ok (Decimal.digits n, rest) := by
    rw [someDigits, leadingDigits_digits n h, afterDigits_digits n h,
      if_neg (Decimal.digits_ne_nil n)]
  have hw : scanWhole (Decimal.digits n ++ rest) = .ok (Decimal.digits n, rest) := by
    have hz : ¬((Decimal.digits n).head? = some '0' && (Decimal.digits n).length > 1) := by
      rw [Bool.and_eq_true, decide_eq_true_iff, decide_eq_true_iff]
      rintro ⟨hz, hl⟩
      rw [Decimal.length_digits_of_head? hz] at hl
      exact absurd hl (Nat.lt_irrefl 1)
    rw [scanWhole, hs]
    exact if_neg hz
  have hf : scanFraction rest = .ok (none, rest) := by
    unfold scanFraction
    split
    · exact absurd rfl h.goes_no_further.2.1
    · rfl
  have he : scanExponent rest = .ok (none, rest) := by
    unfold scanExponent
    split
    · rw [if_neg (by simp [h.goes_no_further])]
    · rfl
  rw [scan, hw]
  change Except.bind (scanFraction rest) _ = _
  rw [hf]
  change Except.bind (scanExponent rest) _ = _
  rw [he]
  rfl

theorem le_foldl_digits (n : Nat) (ds : List Char) :
    n ≤ ds.foldl (fun n c => n * 10 + Decimal.digitValue c) n := by
  induction ds generalizing n with
  | nil => exact Nat.le_refl n
  | cons d ds ih =>
    have h := ih (n * 10 + Decimal.digitValue d)
    rw [List.foldl_cons]
    omega

theorem appendDigits_eq {n : Nat} {ds : List Char}
    (h : ds.foldl (fun n c => n * 10 + Decimal.digitValue c) n ≤ maxNatural) :
    appendDigits n ds = (ds.foldl (fun n c => n * 10 + Decimal.digitValue c) n, []) := by
  induction ds generalizing n with
  | nil => rfl
  | cons d ds ih =>
    rw [List.foldl_cons] at h ⊢
    rw [appendDigits, if_pos (Nat.le_trans (le_foldl_digits _ ds) h)]
    exact ih h

theorem number_digits {n : Nat} (h : n < UInt64.size) :
    number ⟨false, Decimal.digits n, none, none⟩ = .ok (.natural n) := by
  have hv : (Decimal.digits n).foldl (fun n c => n * 10 + Decimal.digitValue c) 0 = n :=
    Decimal.value_digits n
  have ha : appendDigits 0 (Decimal.digits n) = (n, []) := by
    rw [appendDigits_eq (by rw [hv]; exact Nat.le_sub_one_of_lt h), hv]
  rw [number, ha]
  rfl

end Numeral

theorem unitValue?_hexDigit : ∀ n < 32,
    unitValue? '0' '0' (Text.hexDigit (n / 16)) (Text.hexDigit (n % 16)) = some n := by
  decide

theorem surrogate_of_lt : ∀ n < 32, isLowSurrogate n = false ∧ isHighSurrogate n = false := by
  decide

theorem exists_piece (c : Char) : ∃ p,
    (∀ rest, scanText (escapedChar c ++ rest) = (scanText rest).cons p) ∧
      ∀ ending ps, decode ending (p :: ps) = (c :: ·) <$> decode ending ps := by
  unfold escapedChar
  split
  case isTrue h =>
    refine ⟨.char c, fun rest => ?_, fun _ _ => rfl⟩
    rcases (by simpa using h : c = '"' ∨ c = '\\') with rfl | rfl <;> rfl
  case isFalse hq =>
  split
  case isTrue h => exact ⟨.char c, fun rest => by rw [h]; rfl, fun _ _ => rfl⟩
  split
  case isTrue h => exact ⟨.char c, fun rest => by rw [h]; rfl, fun _ _ => rfl⟩
  split
  case isTrue h => exact ⟨.char c, fun rest => by rw [h]; rfl, fun _ _ => rfl⟩
  split
  case isTrue h => exact ⟨.char c, fun rest => by rw [h]; rfl, fun _ _ => rfl⟩
  split
  case isTrue h => exact ⟨.char c, fun rest => by rw [h]; rfl, fun _ _ => rfl⟩
  split
  case isTrue h =>
    have hn : c.toNat < 32 := h
    obtain ⟨hlow, hhigh⟩ := surrogate_of_lt c.toNat hn
    refine ⟨.unit c.toNat, fun rest => ?_, fun ending ps => ?_⟩
    · have hu := unitValue?_hexDigit c.toNat hn
      simp only [List.cons_append, List.nil_append]
      rw [scanText.eq_def]
      simp [hu]
    · rw [decode.eq_def]
      simp [hlow, hhigh, Char.ofNat_toNat]
  case isFalse h =>
    refine ⟨.char c, fun rest => ?_, fun _ _ => rfl⟩
    have hq' : c ≠ '"' ∧ c ≠ '\\' := by simpa using hq
    rw [List.singleton_append, scanText.eq_def]
    simp [hq', h]

theorem scanText_quote (rest : List Char) : scanText ('"' :: rest) = ⟨[], .ok rest⟩ := by
  rw [scanText.eq_def]
  rfl

theorem scanText_written (cs rest : List Char) :
    (scanText (cs.flatMap escapedChar ++ '"' :: rest)).rest = .ok rest ∧
      decode (.ok ()) (scanText (cs.flatMap escapedChar ++ '"' :: rest)).pieces = .ok cs := by
  induction cs with
  | nil =>
    rw [List.flatMap_nil, List.nil_append, scanText_quote]
    exact ⟨rfl, rfl⟩
  | cons c cs ih =>
    obtain ⟨p, hs, hd⟩ := exists_piece c
    obtain ⟨hr, hp⟩ := ih
    rw [List.flatMap_cons, List.append_assoc, hs]
    refine ⟨hr, ?_⟩
    rw [show (Scanned.cons p _).pieces = p :: _ from rfl, hd, hp]
    rfl

namespace Lexeme

theorem lex_cons {c : Char} (h : isBlank c = false) (cs : List Char) :
    lex (c :: cs) = (next c cs).1 :: lex (next c cs).2 := by
  have hd : (c :: cs).dropWhile isBlank = c :: cs := List.dropWhile_cons_of_neg (by simp [h])
  rw [lex]
  split
  · next hn => simp [hd] at hn
  · next d ds hc =>
    obtain ⟨rfl, rfl⟩ : c = d ∧ cs = ds := by simpa [hd] using hc
    rfl

theorem lex_nil : lex [] = [] := by
  rw [lex]
  rfl

theorem lex_mark {c : Char} (h : c ∈ ['[', ']', '\x7b', '\x7d', ',', ':']) (cs : List Char) :
    lex (c :: cs) = .mark c :: lex cs := by
  obtain ⟨hb, hn⟩ : isBlank c = false ∧ next c cs = (.mark c, cs) := by
    simp only [List.mem_cons, List.not_mem_nil, or_false] at h
    rcases h with rfl | rfl | rfl | rfl | rfl | rfl <;> exact ⟨rfl, rfl⟩
  rw [lex_cons hb, hn]

def ofText (s : String) : Lexeme := .text (.ok s) (.ok ())

def ofNatural (n : Nat) : Lexeme := .number (.ok (.natural n)) (.ok ())

theorem lex_writeText (s : String) (rest : List Char) :
    lex (writeText s ++ rest) = ofText s :: lex rest := by
  obtain ⟨hr, hp⟩ := scanText_written s.toList rest
  have hn : next '"' (s.toList.flatMap escapedChar ++ '"' :: rest) = (ofText s, rest) := by
    change ofScanned (scanText _) = _
    rw [ofScanned, hr]
    simp [Except.map, hp, ofText, Except.toOption]
  have hw : writeText s ++ rest = '"' :: (s.toList.flatMap escapedChar ++ '"' :: rest) := by
    simp [writeText]
  rw [hw, lex_cons rfl, hn]

theorem lex_digits {n : Nat} (hn : n < UInt64.size) {rest : List Char} (h : Ends rest) :
    lex (Decimal.digits n ++ rest) = ofNatural n :: lex rest := by
  obtain ⟨d, ds, hd⟩ := List.exists_cons_of_ne_nil (Decimal.digits_ne_nil n)
  have hs := Numeral.scan_digits n h
  have hv := Numeral.number_digits hn
  have hdigit : d.isDigit = true := Decimal.isDigit_of_mem_digits (by rw [hd]; simp)
  have hne : d ≠ 'n' ∧ d ≠ 't' ∧ d ≠ 'f' ∧ d ≠ '-' ∧ isBlank d = false := by
    simp only [isBlank, Bool.or_eq_false_iff, beq_eq_false_iff_ne]
    refine ⟨?_, ?_, ?_, ?_, ⟨⟨?_, ?_⟩, ?_⟩, ?_⟩ <;> rintro rfl <;> cases hdigit
  obtain ⟨hnull, htrue, hfalse, hminus, hb⟩ := hne
  rw [hd] at hv
  rw [hd, List.cons_append] at hs ⊢
  have hnext : next d (ds ++ rest) = (ofNatural n, rest) := by
    rw [next, if_neg hnull, if_neg htrue, if_neg hfalse, if_neg hminus, if_pos hdigit, hs,
      ofNumeral, hv]
    rfl
  rw [lex_cons hb, hnext]

end Lexeme

def separated (isFirst : Bool) : List (List Lexeme) → List Lexeme
  | [] => []
  | part :: parts =>
    (if isFirst then [] else [.mark ',']) ++ part ++ separated false parts

structure WrittenMember where
  name : String
  value : List Char
  lexeme : Lexeme

namespace WrittenMember

def ofText (name s : String) : WrittenMember := ⟨name, writeText s, .ofText s⟩

def ofNatural (name : String) (n : Nat) : WrittenMember :=
  ⟨name, Decimal.digits n, .ofNatural n⟩

def Spelled (m : WrittenMember) : Prop :=
  ∀ rest, Ends rest → lex (m.value ++ rest) = m.lexeme :: lex rest

theorem spelled_ofText (name s : String) : (ofText name s).Spelled :=
  fun rest _ => lex_writeText s rest

theorem spelled_ofNatural (name : String) {n : Nat} (h : n < UInt64.size) :
    (ofNatural name n).Spelled :=
  fun _ hr => lex_digits h hr

def text (m : WrittenMember) : String × List Char := (m.name, m.value)

def lexemes (m : WrittenMember) : List Lexeme := [.ofText m.name, .mark ':', m.lexeme]

theorem lex_writeMembers {ms : List WrittenMember} (hs : ∀ m ∈ ms, m.Spelled) {rest : List Char}
    (h : Ends rest) :
    lex (writeMembers (ms.map text) ++ rest) = separated true (ms.map lexemes) ++ lex rest := by
  induction ms with
  | nil => rfl
  | cons m ms ih =>
    obtain ⟨hm, hs⟩ := List.forall_mem_cons.mp hs
    cases ms with
    | nil =>
      have hw : writeMembers [m.text] ++ rest = writeText m.name ++ ':' :: (m.value ++ rest) := by
        simp [writeMembers, text]
      rw [List.map_cons, List.map_nil, hw, lex_writeText, lex_mark (by simp), hm rest h]
      rfl
    | cons m' ms =>
      have hw : writeMembers ((m :: m' :: ms).map text) ++ rest =
          writeText m.name ++
            ':' :: (m.value ++ ',' :: (writeMembers ((m' :: ms).map text) ++ rest)) := by
        simp [writeMembers, text]
      rw [hw, lex_writeText, lex_mark (by simp), hm _ (ends_cons (by simp) _), lex_mark (by simp),
        ih hs]
      rfl

def structureLexemes (ms : List WrittenMember) : List Lexeme :=
  .mark '\x7b' :: (separated true (ms.map lexemes) ++ [.mark '\x7d'])

theorem lex_writeStructure {ms : List WrittenMember} (hs : ∀ m ∈ ms, m.Spelled)
    (rest : List Char) :
    lex (writeStructure (ms.map text) ++ rest) = structureLexemes ms ++ lex rest := by
  have hw : writeStructure (ms.map text) ++ rest =
      '\x7b' :: (writeMembers (ms.map text) ++ '\x7d' :: rest) := by
    simp [writeStructure]
  rw [hw, lex_mark (by simp), lex_writeMembers hs (ends_cons (by simp) rest), lex_mark (by simp),
    structureLexemes]
  simp

end WrittenMember

end Json

end SelectList
