import SelectList.Schema
import SelectList.Source.Standard

namespace SelectList.Source

def Yields {α : Type} (p : Reading α) (s : Source) (a : α) (rest : Source) : Prop :=
  ∀ out, p s = some out → out = (a, rest)

def Keeps (p : Reading Source) (ts rest : Source) : Prop := Yields p (ts ++ rest) ts rest

section Yields

variable {α β : Type} {p : Reading α} {f : α → Reading β} {s u rest : Source} {a : α} {b : β}

theorem yields_of_none (h : p s = none) : Yields p s a rest := by
  intro out hout
  rw [h] at hout
  cases hout

theorem yields_pure (a : α) (s : Source) : Yields (pure a) s a s := by
  rintro out ⟨⟩
  rfl

theorem Yields.bind (h : Yields p s a u) (h' : Yields (f a) u b rest) :
    Yields (p >>= f) s b rest := by
  intro out hout
  change (p s).bind (fun x => f x.1 x.2) = some out at hout
  obtain ⟨x, hx, hf⟩ := Option.bind_eq_some_iff.mp hout
  obtain rfl := h x hx
  exact h' out hf

theorem Yields.map (h : Yields p s a u) (g : α → β) : Yields (g <$> p) s (g a) u :=
  h.bind (f := fun a => pure (g a)) (yields_pure (g a) u)

theorem Yields.get {f : Source → Reading β} (h : Yields (f s) s b rest) :
    Yields (get >>= f) s b rest := by
  apply Yields.bind (a := s) (u := s)
  · rintro out ⟨⟩
    rfl
  · exact h

end Yields

namespace Reading

variable {p : Reading Source} {ps : List (Reading Source)} {s t rest : Source}
  {test : Source → Bool}

theorem keeps_token (test : Token → Bool) (x : Token) (rest : Source) :
    Keeps (token test) [x] rest := by
  intro out hout
  simp only [token, List.singleton_append] at hout
  split at hout
  · exact (Option.some.inj hout).symm
  · cases hout

theorem keeps_seq_nil (rest : Source) : Keeps (seq []) [] rest :=
  yields_pure [] rest

theorem keeps_seq_cons (h : Keeps p s (t ++ rest)) (hs : Keeps (seq ps) t rest) :
    Keeps (seq (p :: ps)) (s ++ t) rest := by
  unfold Keeps
  rw [List.append_assoc]
  apply h.bind
  apply hs.bind
  exact yields_pure _ _

theorem keeps_seq_singleton (h : Keeps p s rest) : Keeps (seq [p]) s rest := by
  rw [← List.append_nil s]
  exact keeps_seq_cons h (keeps_seq_nil rest)

theorem keeps_given_of_false (h : test rest = false) : Keeps (given test p) [] rest := by
  apply Yields.get
  rw [List.nil_append, h]
  exact yields_pure [] rest

theorem keeps_given_of_true (h : test (s ++ rest) = true) (hp : Keeps p s rest) :
    Keeps (given test p) s rest := by
  apply Yields.get
  rw [h]
  exact hp

theorem keeps_many_of_false (h : test rest = false) : Keeps (many test p) [] rest := by
  apply Yields.get
  cases rest with
  | nil => exact yields_pure [] []
  | cons x rest =>
    apply Yields.get
    rw [List.nil_append, h]
    exact yields_pure [] _

variable {α : Type} {q : Reading α} {a : α} {c : Char}

theorem yields_listed_nil (h : test rest = true) : Yields (listed c test q) rest [] rest := by
  apply Yields.get
  cases rest with
  | nil => exact yields_pure [] []
  | cons x rest =>
    apply Yields.get
    rw [h]
    exact yields_pure [] _

theorem yields_listed_singleton (hs : s ≠ []) (hends : test s = false)
    (hq : Yields q s a rest) (hc : hasMark c rest = false) :
    Yields (listed c test q) s [(a, false)] rest := by
  apply Yields.get
  cases s with
  | nil => exact absurd rfl hs
  | cons x s =>
    apply Yields.get
    rw [hends]
    apply hq.bind
    apply Yields.get
    rw [hc]
    exact yields_pure _ _

theorem keeps_list_nil (h : test rest = true) : Keeps (list c test p) [] rest :=
  (yields_listed_nil h).map (joined c)

end Reading

inductive Closed : Source → Prop
  | done : Closed []
  | mark (rest : Source) : Closed (.mark '>' :: rest)

theorem Closed.hasMark {rest : Source} (h : Closed rest) {c : Char} (hc : c ≠ '>') :
    hasMark c rest = false := by
  cases h with
  | done => rfl
  | mark rest => simpa [Source.hasMark] using hc.symm

/-- The types that lead to a record or to nothing, whatever their names stand for. -/
inductive Plain : Source → Prop
  | unit : Plain [.mark '(', .mark ')']
  | name (w : List Char) : Plain [.word w]
  | reference {ts : Source} (lifetime : Option (List Char)) (isMut : Bool)
      (hmut : hasWord "mut" ts = true → isMut = true) (h : Plain ts) :
      Plain (.mark '&' :: ((lifetime.map Token.lifetime).toList ++
        ((if isMut then ofWord "mut" else []) ++ ts)))
  | held {w : List Char} {ts : Source} (hw : w ∈ transparent) (h : Plain ts) :
      Plain (.word w :: .mark '<' :: (ts ++ [.mark '>']))

theorem exists_of_hasWord {w : String} {ts : Source} (h : hasWord w ts = true) :
    ∃ us, ts = .word w.toList :: us := by
  simpa [hasWord, List.head?_eq_some_iff] using h

theorem notKeyword_of_transparent {w : List Char} (hw : w ∈ transparent) :
    String.ofList w ∉ keywords := by
  revert w
  decide

theorem referent_spec (ts : Source) : ∃ (lifetime : Option (List Char)) (isMut : Bool),
    ts = (lifetime.map Token.lifetime).toList ++
      ((if isMut then ofWord "mut" else []) ++ referent ts) ∧
      (hasWord "mut" (referent ts) = true → isMut = true) := by
  fun_cases referent ts with
  | case1 l ts => exact ⟨some l, true, rfl, fun _ => rfl⟩
  | case2 l w ts hw => exact ⟨some l, false, rfl, by simpa [hasWord] using hw⟩
  | case3 l ts h =>
    refine ⟨some l, false, rfl, fun hmut => ?_⟩
    obtain ⟨us, hus⟩ := exists_of_hasWord hmut
    exact (h _ _ hus).elim
  | case4 ts => exact ⟨none, true, rfl, fun _ => rfl⟩
  | case5 w ts hw => exact ⟨none, false, rfl, by simpa [hasWord] using hw⟩
  | case6 ts _ _ h =>
    refine ⟨none, false, rfl, fun hmut => ?_⟩
    obtain ⟨us, hus⟩ := exists_of_hasWord hmut
    exact (h _ _ hus).elim

theorem held_spec {ts inner : Source} (h : held? ts = some inner) :
    ∃ w ∈ transparent, ts = .word w :: .mark '<' :: (inner ++ [.mark '>']) := by
  unfold held? at h
  split at h
  · next w ts =>
    split at h
    · next hw =>
      simp only [Bool.and_eq_true, decide_eq_true_eq, beq_iff_eq] at hw
      obtain ⟨us, rfl⟩ := List.getLast?_eq_some_iff.mp hw.2
      rw [List.dropLast_concat] at h
      obtain rfl := Option.some.inj h
      exact ⟨w, hw.1, rfl⟩
    · cases h
  · cases h

theorem plain_of_target {named : List Char → Option Slot} {ts : Source} {r : Option Slot}
    (h : ts.target named = some r) : Plain ts := by
  fun_induction target named ts with
  | case1 => exact .unit
  | case2 w => exact .name w
  | case3 rest ih =>
    obtain ⟨lifetime, isMut, hrest, hmut⟩ := referent_spec rest
    rw [hrest]
    exact .reference lifetime isMut hmut (ih h)
  | case4 other hunit hname href inner hinner ih =>
    obtain ⟨w, hw, rfl⟩ := held_spec hinner
    exact .held hw (ih h)
  | case5 => cases h

namespace Standard

open Reading

variable {g : Grammar} {isSum : Bool} {ts rest : Source} {w : List Char}

theorem keeps_unit (h : Closed rest) :
    Keeps (parenthesizedType g isSum) [.mark '(', .mark ')'] rest := by
  apply Yields.bind (a := [.mark '(', .mark ')']) (u := rest)
  · apply keeps_seq_cons (s := [.mark '(']) (keeps_token _ _ _)
    apply keeps_seq_cons (s := []) (keeps_list_nil rfl)
    exact keeps_seq_singleton (keeps_token _ _ _)
  · cases isSum with
    | false => exact yields_pure _ _
    | true => exact (keeps_given_of_false (h.hasMark (by decide))).bind (yields_pure _ _)

theorem keeps_reference (lifetime : Option (List Char)) (isMut : Bool)
    (hlifetime : hasLifetime (ts ++ rest) = false)
    (hmut : hasWord "mut" (ts ++ rest) = true → isMut = true) (h : Keeps (g.type false) ts rest) :
    Keeps (seq [any, given hasLifetime any, given (hasWord "mut") any, g.type false])
      (.mark '&' :: ((lifetime.map Token.lifetime).toList ++
        ((if isMut then ofWord "mut" else []) ++ ts))) rest := by
  apply keeps_seq_cons (s := [.mark '&']) (keeps_token _ _ _)
  apply keeps_seq_cons
  · cases lifetime with
    | some l => exact keeps_given_of_true rfl (keeps_token _ _ _)
    | none =>
      apply keeps_given_of_false
      cases isMut with
      | true => rfl
      | false => exact hlifetime
  apply keeps_seq_cons _ (keeps_seq_singleton h)
  cases isMut with
  | true => exact keeps_given_of_true rfl (keeps_token _ _ _)
  | false =>
    apply keeps_given_of_false
    rw [Bool.eq_false_iff]
    intro h
    cases hmut h

theorem keeps_segment (hplace : isPlace (String.ofList w) = true → ts = [])
    (h : Keeps (given (hasArguments true) (arguments g)) ts rest) :
    Keeps (segment g true) (.word w :: ts) rest := by
  apply Yields.get
  dsimp only
  split
  · next hw =>
    obtain rfl := hplace hw
    exact keeps_token _ _ _
  apply keeps_seq_cons (s := [.word w]) _ (keeps_seq_singleton h)
  split
  · exact keeps_token _ _ _
  · exact keeps_token _ _ _

theorem keeps_qualifiedPath (hts : Keeps (segment g true) (.word w :: ts) rest) (h : Closed rest) :
    Keeps (qualifiedPath g true) (.word w :: ts) rest := by
  apply keeps_seq_cons (s := []) (keeps_given_of_false rfl)
  apply keeps_seq_singleton
  apply keeps_seq_cons (s := []) (keeps_given_of_false rfl)
  rw [← List.append_nil (.word w :: ts)]
  apply keeps_seq_cons hts
  apply keeps_seq_singleton
  apply keeps_many_of_false
  cases h <;> rfl

theorem keeps_traitPath (hts : Keeps (segment g true) (.word w :: ts) rest) (h : Closed rest) :
    Keeps (traitPath g) (.word w :: ts) rest := by
  apply (keeps_qualifiedPath hts h).bind
  split
  · exact yields_pure _ _
  · apply Yields.bind (a := []) (u := rest)
    · apply keeps_given_of_false
      cases h <;> rfl
    · rw [List.append_nil]
      exact yields_pure _ _

theorem keeps_pathType (hts : Keeps (segment g true) (.word w :: ts) rest) (h : Closed rest) :
    Keeps (pathType g isSum) (.word w :: ts) rest := by
  have hinvocation : hasInvocation rest = false := by cases h <;> rfl
  apply (keeps_traitPath hts h).bind
  apply Yields.get
  rw [hinvocation, h.hasMark (by decide), Bool.and_false]
  exact yields_pure _ _

theorem keeps_typeArgument (hts : Keeps (g.type true) ts (.mark '>' :: rest)) :
    Keeps (typeArgument g) ts (.mark '>' :: rest) := by
  apply hts.bind
  exact Yields.get (yields_pure _ _)

theorem keeps_constant : Keeps (constant g) [.word w] rest := by
  apply Yields.get
  apply keeps_seq_cons (s := []) (keeps_given_of_false rfl)
  exact keeps_seq_singleton (keeps_token _ _ _)

theorem yields_argument (hts : Keeps (g.type true) ts (.mark '>' :: rest)) (h : Plain ts) :
    Yields (argument g) (ts ++ .mark '>' :: rest) (false, ts) (.mark '>' :: rest) := by
  have htype : Keeps (typeArgument g) ts (.mark '>' :: rest) := keeps_typeArgument hts
  apply Yields.get
  cases h with
  | unit => exact htype.bind (yields_pure _ _)
  | reference => exact htype.bind (yields_pure _ _)
  | name w =>
    dsimp only [List.singleton_append]
    split
    · exact keeps_constant.bind (yields_pure _ _)
    · exact htype.bind (yields_pure _ _)
  | @held w ts hw h =>
    have hconstant : String.ofList w ∉ ["true", "false"] := fun h =>
      notKeyword_of_transparent hw ((by decide : ["true", "false"] ⊆ keywords) h)
    dsimp only [List.cons_append]
    split
    · next h' => exact (hconstant (of_decide_eq_true h')).elim
    · exact htype.bind (yields_pure _ _)

theorem lifetimesFirst_singleton (ts : Source) : lifetimesFirst [((false, ts), false)] = ts := by
  simp [lifetimesFirst, separated, joined]

theorem keeps_arguments (hts : Keeps (g.type true) ts (.mark '>' :: rest)) (h : Plain ts) :
    Keeps (arguments g) (.mark '<' :: (ts ++ [.mark '>'])) rest := by
  unfold Keeps
  rw [List.cons_append, List.append_assoc]
  apply Yields.bind (a := []) (keeps_given_of_false rfl)
  apply Yields.bind (keeps_token _ _ _)
  apply Yields.bind (yields_listed_singleton _ _ (yields_argument hts h) rfl)
  · apply Yields.bind (keeps_token _ (.mark '>') rest)
    rw [lifetimesFirst_singleton]
    exact yields_pure _ _
  · cases h <;> simp
  · cases h <;> rfl

theorem bound_of_closed (h : Closed rest) : bound g rest = none := by
  cases h <;> rfl

theorem keeps_boundType (h : Closed rest) : Keeps (boundType g isSum) [.word w] rest := by
  apply Yields.bind (keeps_token _ _ _)
  apply Yields.get
  rw [h.hasMark (by decide)]
  apply Yields.bind (a := []) (u := rest)
  · cases isSum with
    | false => exact yields_of_none (bound_of_closed h)
    | true =>
      apply keeps_list_nil
      cases h <;> rfl
  · exact yields_pure _ _

theorem functionType_of_closed (hw : String.ofList w ∈ ["fn", "unsafe", "extern"])
    (h : Closed rest) : functionType g (.word w :: rest) = none := by
  simp only [List.mem_cons, List.not_mem_nil, or_false, ← String.toList_inj,
    String.toList_ofList] at hw
  rcases hw with rfl | rfl | rfl <;> cases h <;> rfl

theorem keeps_wordType (h : Closed rest) :
    Keeps (wordType g isSum (String.ofList w)) [.word w] rest := by
  unfold wordType
  split
  · next hw => exact yields_of_none (functionType_of_closed hw h)
  split
  · exact keeps_boundType h
  split
  · exact keeps_token _ _ _
  · apply keeps_pathType _ h
    apply keeps_segment
    · exact fun _ => rfl
    · apply keeps_given_of_false
      cases h <;> rfl

theorem keeps_wordType_held (hw : w ∈ transparent)
    (hts : Keeps (g.type true) ts (.mark '>' :: rest)) (hplain : Plain ts) (h : Closed rest) :
    Keeps (wordType g isSum (String.ofList w)) (.word w :: .mark '<' :: (ts ++ [.mark '>']))
      rest := by
  have hother {ws : List String} (hws : ws ⊆ keywords) : String.ofList w ∉ ws :=
    fun h => notKeyword_of_transparent hw (hws h)
  unfold wordType
  rw [if_neg (hother (by decide)), if_neg (hother (by decide)), if_neg]
  · apply keeps_pathType _ h
    apply keeps_segment
    · intro hplace
      exact (hother (by decide) (of_decide_eq_true hplace)).elim
    · apply keeps_given_of_true _ (keeps_arguments hts hplain)
      cases hplain <;> rfl
  · intro h
    rw [h] at hother
    exact hother (by decide : ["_"] ⊆ keywords) (by decide)

theorem keeps_type_name (h : Closed rest) : Keeps (type g isSum) [.word w] rest := by
  by_cases hfor : hasWord "for" ([.word w] ++ rest) = true
  · obtain ⟨us, hus⟩ := exists_of_hasWord hfor
    cases hus
    apply yields_of_none
    cases h <;> rfl
  · apply Yields.bind (a := []) (keeps_given_of_false (Bool.eq_false_iff.mpr hfor))
    apply Yields.get
    exact (keeps_wordType h).bind (yields_pure _ _)

theorem keeps_type (h : Plain ts) (hrest : Closed rest) (n : Nat) (isSum : Bool) :
    Keeps ((grammar n).type isSum) ts rest := by
  induction n generalizing ts rest isSum with
  | zero => exact yields_of_none rfl
  | succ n ih =>
    cases h with
    | unit =>
      apply Yields.bind (a := []) (keeps_given_of_false rfl)
      apply Yields.get
      exact (keeps_unit hrest).bind (yields_pure _ _)
    | name w => exact keeps_type_name hrest
    | @reference ts lifetime isMut hmut h =>
      have hlifetime : hasLifetime (ts ++ rest) = false := by cases h <;> rfl
      have hword : hasWord "mut" (ts ++ rest) = hasWord "mut" ts := by cases h <;> rfl
      apply Yields.bind (a := []) (keeps_given_of_false rfl)
      apply Yields.get
      rw [← hword] at hmut
      exact (keeps_reference lifetime isMut hlifetime hmut (ih h hrest false)).bind
        (yields_pure _ _)
    | @held w ts hw h =>
      have hfor : hasWord "for" (.word w :: .mark '<' :: (ts ++ [.mark '>']) ++ rest) = false := by
        rw [Bool.eq_false_iff]
        intro hfor
        obtain ⟨us, hus⟩ := exists_of_hasWord hfor
        cases hus
        exact notKeyword_of_transparent hw (by decide)
      apply Yields.bind (a := []) (keeps_given_of_false hfor)
      apply Yields.get
      exact (keeps_wordType_held hw (ih h (.mark rest) true) h hrest).bind (yields_pure _ _)

end Standard

theorem ofType_of_plain {s : String} (h : Plain (ofString s)) : ofType s = ofString s := by
  have hkeeps := Standard.keeps_type h .done (Standard.depth (ofString s)) true
  unfold Keeps at hkeeps
  rw [List.append_nil] at hkeeps
  unfold ofType Standard.whole
  split
  · next t ht => exact congrArg Prod.fst (hkeeps _ ht)
  · rfl

/-- The standard form of a type that leads to a record leads to the same record. -/
theorem target_ofType {named : List Char → Option Slot} {s : String} {r : Option Slot}
    (h : (ofString s).target named = some r) : (ofType s).target named = some r := by
  rw [ofType_of_plain (plain_of_target h)]
  exact h

end SelectList.Source
