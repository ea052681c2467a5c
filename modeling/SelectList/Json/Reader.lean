import SelectList.Json.Lexeme

namespace SelectList.Json

structure Reader (α : Type) where
  read : List Lexeme → Except Fault (α × List Lexeme)
  consumes : ∀ {ls a rest}, read ls = .ok (a, rest) → rest.length < ls.length

def Lexeme.instead (l : Lexeme) (expected : Expected) : Fault :=
  let wrong (found : Found) : Fault := .mismatch (.wrongType found expected)
  match l with
  | .word (.ok w) => wrong w.found
  | .number (.ok n) _ => wrong n.found
  | .text (.ok s) _ => wrong (.text s)
  | .word (.error f) | .number (.error f) _ | .text (.error f) _ => f
  | .mark c => if c = '[' then wrong .sequence else if c = '\x7b' then wrong .map else .malformed

namespace Reader

def ofFirst {α : Type} (value : Lexeme → Except Fault α) : Reader α where
  read
    | [] => .error .endOfText
    | l :: ls => (value l).map fun a => (a, ls)
  consumes := by
    intro ls a rest h
    cases ls with
    | nil => simp at h
    | cons l ls => cases hv : value l <;> simp_all [Except.map]

def map {α β : Type} (f : α → β) (r : Reader α) : Reader β where
  read ls := (r.read ls).map fun (a, rest) => (f a, rest)
  consumes := by
    intro ls b rest h
    cases hr : r.read ls with
    | error => simp [hr, Except.map] at h
    | ok x =>
      obtain ⟨-, rfl⟩ : f x.1 = b ∧ x.2 = rest := by simpa [hr, Except.map] using h
      exact r.consumes hr

def text : Reader String :=
  ofFirst fun
    | .text value _ => value
    | l => .error (l.instead .text)

def natural : Reader Nat :=
  ofFirst fun
    | .number (.ok (.natural n)) _ => .ok n
    | .number (.ok (.negative n)) _ => .error (.mismatch (.wrongValue (.negative n) .natural))
    | l => .error (l.instead .natural)

def unit : Reader Unit :=
  ofFirst fun
    | .word (.ok .null) => .ok ()
    | l => .error (l.instead .unit)

theorem rest_of_map {α β : Type} {value : Except Fault α} {f : α → β} {b : β}
    {ls rest : List Lexeme} (h : (value.map fun a => (f a, ls)) = .ok (b, rest)) : rest = ls := by
  cases value <;> simp_all [Except.map]

def checked {α β : Type} (f : α → Except Fault β) (r : Reader α) : Reader β where
  read ls := (r.read ls).bind fun (a, rest) => (f a).map fun b => (b, rest)
  consumes := by
    intro ls b rest h
    obtain ⟨⟨a, rest'⟩, hr, h⟩ := bind_eq_ok h
    rw [rest_of_map h]
    exact r.consumes hr

def takeMark (c : Char) : List Lexeme → Except Fault (List Lexeme)
  | [] => .error .endOfText
  | .mark d :: ls => if d = c then .ok ls else .error .malformed
  | _ :: _ => .error .malformed

theorem takeMark_length {c : Char} {ls rest : List Lexeme} (h : takeMark c ls = .ok rest) :
    rest.length < ls.length := by
  unfold takeMark at h
  split at h
  · simp at h
  · split at h <;> simp_all
  · simp at h

def whole {α : Type} (r : Reader α) (s : String) : Except Fault α :=
  match r.read (Lexeme.lex s.toList) with
  | .error f => .error f
  | .ok (a, []) => .ok a
  | .ok (_, _ :: _) => .error .malformed

inductive Awaiting
  | value
  | valueOrClose
  | key
  | keyOrClose
  | colon
  | commaOrClose
deriving DecidableEq, Repr

def skipOne (opened : List Char) (awaiting : Awaiting) (l : Lexeme) :
    Except Fault (List Char × Awaiting) :=
  let close : Except Fault (List Char × Awaiting) := .ok (opened.tail, .commaOrClose)
  match awaiting, l with
  | .valueOrClose, .mark ']' => close
  | .keyOrClose, .mark '\x7d' => close
  | .value, .mark '[' | .valueOrClose, .mark '[' => .ok ('[' :: opened, .valueOrClose)
  | .value, .mark '\x7b' | .valueOrClose, .mark '\x7b' => .ok ('\x7b' :: opened, .keyOrClose)
  | .value, .word w | .valueOrClose, .word w => w.map fun _ => (opened, .commaOrClose)
  | .value, .number _ shape | .valueOrClose, .number _ shape
  | .value, .text _ shape | .valueOrClose, .text _ shape =>
    shape.map fun _ => (opened, .commaOrClose)
  | .key, .text _ shape | .keyOrClose, .text _ shape => shape.map fun _ => (opened, .colon)
  | .colon, .mark ':' => .ok (opened, .value)
  | .commaOrClose, .mark c =>
    if c = ',' then .ok (opened, if opened.head? = some '[' then .value else .key)
    else if opened.head? = some '[' && c = ']' then close
    else if opened.head? = some '\x7b' && c = '\x7d' then close
    else .error .malformed
  | _, _ => .error .malformed

def skipFrom (opened : List Char) (awaiting : Awaiting) :
    List Lexeme → Except Fault (Unit × List Lexeme)
  | [] => .error .endOfText
  | l :: ls =>
    match skipOne opened awaiting l with
    | .error f => .error f
    | .ok ([], .commaOrClose) => .ok ((), ls)
    | .ok (opened, awaiting) => skipFrom opened awaiting ls

theorem skipFrom_consumes {opened : List Char} {awaiting : Awaiting} {ls rest : List Lexeme}
    (h : skipFrom opened awaiting ls = .ok ((), rest)) : rest.length < ls.length := by
  fun_induction skipFrom opened awaiting ls with
  | case1 | case2 => simp at h
  | case3 => simp_all
  | case4 _ _ _ _ _ _ _ _ ih =>
    have := ih h
    simp only [List.length_cons]
    omega

def skip : Reader Unit := ⟨skipFrom [] .value, skipFrom_consumes⟩

def nextItem? (isFirst : Bool) : List Lexeme → Except Fault (Option (List Lexeme))
  | [] => .error .endOfText
  | .mark ']' :: _ => .ok none
  | l :: ls =>
    if isFirst then .ok (some (l :: ls))
    else match l, ls with
      | .mark ',', [] => .error .endOfText
      | .mark ',', .mark ']' :: _ => .error .malformed
      | .mark ',', ls => .ok (some ls)
      | _, _ => .error .malformed

theorem nextItem_length {isFirst : Bool} {ls rest : List Lexeme}
    (h : nextItem? isFirst ls = .ok (some rest)) : rest.length ≤ ls.length := by
  unfold nextItem? at h
  split at h <;> try simp at h
  split at h
  · simp_all
  · split at h <;> simp_all

def items {α : Type} (r : Reader α) (isFirst : Bool) (ls : List Lexeme) :
    Except Fault (List α × List Lexeme) :=
  match _h : nextItem? isFirst ls with
  | .error f => .error f
  | .ok none => (takeMark ']' ls).map fun rest => ([], rest)
  | .ok (some start) =>
    match _hr : r.read start with
    | .error f => .error f
    | .ok (a, rest) => (items r false rest).map fun (as, rest) => (a :: as, rest)
termination_by ls.length
decreasing_by
  have := nextItem_length _h
  have := r.consumes _hr
  omega

theorem items_consumes {α : Type} {r : Reader α} {isFirst : Bool} {ls rest : List Lexeme}
    {as : List α} (h : items r isFirst ls = .ok (as, rest)) : rest.length < ls.length := by
  fun_induction items r isFirst ls generalizing as rest with
  | case1 | case3 => simp at h
  | case2 _ ls =>
    cases hc : takeMark ']' ls with
    | error => simp [hc, Except.map] at h
    | ok x =>
      obtain ⟨-, rfl⟩ : [] = as ∧ x = rest := by simpa [hc, Except.map] using h
      exact takeMark_length hc
  | case4 _ ls start hn a rest' hr ih =>
    cases hi : items r false rest' with
    | error => simp [hi, Except.map] at h
    | ok x =>
      obtain ⟨-, rfl⟩ : a :: x.1 = as ∧ x.2 = rest := by simpa [hi, Except.map] using h
      have := ih hi
      have := r.consumes hr
      have := nextItem_length hn
      omega

def list {α : Type} (r : Reader α) : Reader (List α) where
  read
    | [] => .error .endOfText
    | .mark '[' :: ls => items r true ls
    | l :: _ => .error (l.instead .sequence)
  consumes := by
    intro ls as rest h
    split at h
    · simp at h
    · exact Nat.lt_succ_of_lt (items_consumes h)
    · simp at h

end Reader

end SelectList.Json
