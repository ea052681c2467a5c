import SelectList.Json.Reader

namespace SelectList.Json.Reader

/-- How a structure with members is read into a draft `δ`. -/
structure Layout (δ : Type) where
  name : String
  member : δ → String → Except Fault (Reader δ)
  inOrder : List (δ → Reader δ)
  short : Nat → δ → Except Fault δ

def nextMember (isFirst : Bool) :
    List Lexeme → Except Fault (Option String × List Lexeme)
  | [] => .error .endOfText
  | .mark '\x7d' :: ls => .ok (none, ls)
  | l :: ls =>
    match isFirst, l, ls with
    | true, .text value _, ls => value.map fun name => (some name, ls)
    | false, .mark ',', [] => .error .endOfText
    | false, .mark ',', .text value _ :: ls => value.map fun name => (some name, ls)
    | _, _, _ => .error .malformed

theorem nextMember_length {isFirst : Bool} {ls rest : List Lexeme} {name : Option String}
    (h : nextMember isFirst ls = .ok (name, rest)) : rest.length < ls.length := by
  unfold nextMember at h
  split at h
  · simp at h
  · simp_all
  · split at h
    · rw [rest_of_map h]
      simp
    · simp at h
    · rw [rest_of_map h, List.length_cons, List.length_cons]
      omega
    · simp at h

def members {δ : Type} (y : Layout δ) (isFirst : Bool) (d : δ) (ls : List Lexeme) :
    Except Fault (δ × List Lexeme) :=
  match _hn : nextMember isFirst ls with
  | .error f => .error f
  | .ok (none, rest) => .ok (d, rest)
  | .ok (some name, after) =>
    match y.member d name with
    | .error f => .error f
    | .ok r =>
      match _hc : takeMark ':' after with
      | .error f => .error f
      | .ok start =>
        match _hr : r.read start with
        | .error f => .error f
        | .ok (d, rest) => members y false d rest
termination_by ls.length
decreasing_by
  have := nextMember_length _hn
  have := takeMark_length _hc
  have := r.consumes _hr
  omega

theorem members_consumes {δ : Type} {y : Layout δ} {isFirst : Bool} {d e : δ}
    {ls rest : List Lexeme} (h : members y isFirst d ls = .ok (e, rest)) :
    rest.length < ls.length := by
  fun_induction members y isFirst d ls with
  | case1 | case3 | case4 | case5 => simp at h
  | case2 _ _ _ _ hn =>
    obtain ⟨rfl, rfl⟩ : _ ∧ _ := by simpa using h
    exact nextMember_length hn
  | case6 _ _ _ _ _ hn r _ _ hc _ _ hr ih =>
    have := ih h
    have := nextMember_length hn
    have := takeMark_length hc
    have := r.consumes hr
    omega

def ordered {δ : Type} (y : Layout δ) (done : Nat) :
    List (δ → Reader δ) → δ → List Lexeme → Except Fault (δ × List Lexeme)
  | [], d, ls => (takeMark ']' ls).map fun rest => (d, rest)
  | r :: rs, d, ls =>
    match nextItem? (done == 0) ls with
    | .error f => .error f
    | .ok none =>
      match y.short done d with
      | .error f => .error f
      | .ok d => (takeMark ']' ls).map fun rest => (d, rest)
    | .ok (some start) =>
      match (r d).read start with
      | .error f => .error f
      | .ok (d, rest) => ordered y (done + 1) rs d rest

theorem closed_length {δ : Type} {d e : δ} {ls rest : List Lexeme}
    (h : ((takeMark ']' ls).map fun rest => (d, rest)) = .ok (e, rest)) :
    rest.length < ls.length := by
  cases hc : takeMark ']' ls with
  | error => simp [hc, Except.map] at h
  | ok x =>
    obtain ⟨-, rfl⟩ : d = e ∧ x = rest := by simpa [hc, Except.map] using h
    exact takeMark_length hc

theorem ordered_consumes {δ : Type} {y : Layout δ} {done : Nat} {rs : List (δ → Reader δ)}
    {d e : δ} {ls rest : List Lexeme} (h : ordered y done rs d ls = .ok (e, rest)) :
    rest.length < ls.length := by
  fun_induction ordered y done rs d ls with
  | case1 => exact closed_length h
  | case2 | case3 | case5 => simp at h
  | case4 => exact closed_length h
  | case6 _ r _ d _ _ hn _ _ hr ih =>
    have := ih h
    have := nextItem_length hn
    have := (r d).consumes hr
    omega

def structured {δ : Type} (y : Layout δ) (d : δ) : Reader δ where
  read
    | [] => .error .endOfText
    | .mark '[' :: ls => ordered y 0 y.inOrder d ls
    | .mark '\x7b' :: ls => members y true d ls
    | l :: _ => .error (l.instead (.structure y.name))
  consumes := by
    intro ls e rest h
    split at h
    · simp at h
    · exact Nat.lt_succ_of_lt (ordered_consumes h)
    · exact Nat.lt_succ_of_lt (members_consumes h)
    · simp at h

def caseNamed {α : Type} (cases : List (String × α)) (name : String) : Except Fault α :=
  match cases.lookup name with
  | some a => .ok a
  | none => .error (.mismatch (.unknownVariant name (cases.map (·.1))))

def variantName {α : Type} (cases : List (String × α)) : Reader α :=
  ofFirst fun
    | .text value _ => value.bind (caseNamed cases)
    | _ => .error .malformed

def variantMember {α : Type} (cases : List (String × α)) (ls : List Lexeme) :
    Except Fault (α × List Lexeme) :=
  ((variantName cases).read ls).bind fun (a, ls) =>
    (takeMark ':' ls).bind fun ls =>
      (unit.read ls).bind fun (_, ls) =>
        (takeMark '\x7d' ls).bind fun ls => .ok (a, ls)

def variant {α : Type} (cases : List (String × α)) : Reader α where
  read
    | .mark '\x7b' :: ls => variantMember cases ls
    | ls => (variantName cases).read ls
  consumes := by
    intro ls a rest h
    split at h
    · obtain ⟨⟨a, ls₁⟩, h₁, h⟩ := bind_eq_ok h
      obtain ⟨ls₂, h₂, h⟩ := bind_eq_ok h
      obtain ⟨⟨_, ls₃⟩, h₃, h⟩ := bind_eq_ok h
      obtain ⟨ls₄, h₄, h⟩ := bind_eq_ok h
      obtain ⟨-, rfl⟩ : _ ∧ ls₄ = rest := by simpa using h
      have := (variantName cases).consumes h₁
      have := takeMark_length h₂
      have := unit.consumes h₃
      have := takeMark_length h₄
      simp only [List.length_cons]
      omega
    · exact (variantName cases).consumes h

end SelectList.Json.Reader
