import SelectList.Column
import SelectList.Json.Settings
import SelectList.Proofs.Json.Lexing

namespace SelectList

namespace Json

open Lexeme

namespace Reader

variable {α β δ : Type}

/-- The reader takes these lexemes for this value, whatever follows them. -/
def Reads (r : Reader α) (ls : List Lexeme) (a : α) : Prop :=
  ∀ rest, r.read (ls ++ rest) = .ok (a, rest)

variable {r : Reader α} {ls : List Lexeme} {a : α}

theorem reads_text (s : String) : text.Reads [ofText s] s := fun _ => rfl

theorem reads_natural (n : Nat) : natural.Reads [ofNatural n] n := fun _ => rfl

theorem reads_variant {cases : List (String × α)} {name : String} (h : cases.lookup name = some a) :
    (variant cases).Reads [ofText name] a := by
  intro rest
  have hc : caseNamed cases name = .ok a := by rw [caseNamed, h]
  change (Except.map _ (caseNamed cases name)) = _
  rw [hc]
  rfl

theorem Reads.map (h : r.Reads ls a) (f : α → β) : (r.map f).Reads ls (f a) := by
  intro rest
  change Except.map _ (r.read (ls ++ rest)) = _
  rw [h rest]
  rfl

theorem Reads.checked (h : r.Reads ls a) {f : α → Except Fault β} {b : β} (hf : f a = .ok b) :
    (r.checked f).Reads ls b := by
  intro rest
  change Except.bind (r.read (ls ++ rest)) _ = _
  rw [h rest]
  change Except.map _ (f a) = _
  rw [hf]
  rfl

inductive Fills (y : Layout δ) : δ → List WrittenMember → δ → Prop
  | nil (d : δ) : Fills y d [] d
  | cons {d d' e : δ} {m : WrittenMember} {ms : List WrittenMember} {r : Reader δ} :
    y.member d m.name = .ok r → r.Reads [m.lexeme] d' → Fills y d' ms e → Fills y d (m :: ms) e

variable {y : Layout δ} {d d' e : δ}

theorem members_close (isFirst : Bool) (rest : List Lexeme) :
    members y isFirst d (.mark '\x7d' :: rest) = .ok (d, rest) := by
  rw [members]
  split <;> simp_all [nextMember]

theorem members_next {isFirst : Bool} {name : String} {start rest : List Lexeme} {r : Reader δ}
    (hn : nextMember isFirst ls = .ok (some name, .mark ':' :: start))
    (hm : y.member d name = .ok r) (hr : r.read start = .ok (d', rest)) :
    members y isFirst d ls = members y false d' rest := by
  have hc : takeMark ':' (.mark ':' :: start) = .ok start := rfl
  rw [members]
  split
  · next hf => simp [hn] at hf
  · next hf => simp [hn] at hf
  · next hf =>
    obtain ⟨rfl, rfl⟩ : _ ∧ _ := by simpa [hn] using hf
    rw [hm]
    dsimp only
    split
    · next hf => simp [hc] at hf
    · next hs =>
      obtain rfl : start = _ := by simpa [hc] using hs
      split
      · next hf => simp [hr] at hf
      · next hs =>
        obtain ⟨rfl, rfl⟩ : d' = _ ∧ rest = _ := by simpa [hr] using hs
        rfl

theorem members_of_fills {ms : List WrittenMember} (h : Fills y d ms e) (isFirst : Bool)
    (rest : List Lexeme) :
    members y isFirst d
      (separated isFirst (ms.map WrittenMember.lexemes) ++ .mark '\x7d' :: rest) =
        .ok (e, rest) := by
  induction h generalizing isFirst with
  | nil d => exact members_close isFirst rest
  | @cons d d' e m ms r hm hr h ih =>
    rw [← ih false]
    refine members_next ?_ hm (hr _)
    cases isFirst <;> rfl

theorem reads_structured {ms : List WrittenMember} (h : Fills y d ms e) :
    (structured y d).Reads (WrittenMember.structureLexemes ms) e := by
  intro rest
  have hm := members_of_fills h true rest
  change members y true d (separated true (ms.map WrittenMember.lexemes) ++ _ ++ rest) = _
  rwa [List.append_assoc]

theorem items_close (isFirst : Bool) (rest : List Lexeme) :
    items r isFirst (.mark ']' :: rest) = .ok ([], rest) := by
  have hn : nextItem? isFirst (.mark ']' :: rest) = .ok none := rfl
  rw [items]
  split
  · next hf => simp [hn] at hf
  · rfl
  · next hf => simp [hn] at hf

theorem items_next {isFirst : Bool} {start rest rest' : List Lexeme} {as : List α}
    (hn : nextItem? isFirst ls = .ok (some start)) (hr : r.read start = .ok (a, rest))
    (hi : items r false rest = .ok (as, rest')) :
    items r isFirst ls = .ok (a :: as, rest') := by
  rw [items]
  split
  · next hf => simp [hn] at hf
  · next hf => simp [hn] at hf
  · next hs =>
    obtain rfl : start = _ := by simpa [hn] using hs
    split
    · next hf => simp [hr] at hf
    · next hs =>
      obtain ⟨rfl, rfl⟩ : a = _ ∧ rest = _ := by simpa [hr] using hs
      rw [hi]
      rfl

theorem reads_list {lexemes : α → List Lexeme} {as : List α} (hr : ∀ a ∈ as, r.Reads (lexemes a) a)
    (hb : ∀ a ∈ as, (lexemes a).head? = some (.mark '\x7b')) :
    (list r).Reads (.mark '[' :: (separated true (as.map lexemes) ++ [.mark ']'])) as := by
  have hi (isFirst : Bool) (rest : List Lexeme) :
      items r isFirst (separated isFirst (as.map lexemes) ++ .mark ']' :: rest) =
        .ok (as, rest) := by
    induction as generalizing isFirst with
    | nil => exact items_close isFirst rest
    | cons a as ih =>
      obtain ⟨ha, hr⟩ := List.forall_mem_cons.mp hr
      obtain ⟨hba, hb⟩ := List.forall_mem_cons.mp hb
      refine items_next ?_ (ha _) (ih hr hb false)
      obtain ⟨ls, hl⟩ := List.head?_eq_some_iff.mp hba
      rw [List.map_cons, separated, List.append_assoc, List.append_assoc, hl]
      cases isFirst <;> rfl
  intro rest
  have h := hi true rest
  change items r true (separated true _ ++ _ ++ rest) = _
  rwa [List.append_assoc]

end Reader

open Reader WrittenMember

def columnMembers (c : Column) : List WrittenMember :=
  [.ofText "name" c.name, .ofText "path" c.path, .ofText "kind" c.kind.name,
    .ofNatural "declaration_order" c.order]

def columnLexemes (c : Column) : List Lexeme := structureLexemes (columnMembers c)

theorem lex_writeColumn {c : Column} (h : c.order < UInt64.size) (rest : List Char) :
    lex (writeColumn c ++ rest) = columnLexemes c ++ lex rest := by
  have hs : ∀ m ∈ columnMembers c, m.Spelled := by
    simp [columnMembers, spelled_ofText, spelled_ofNatural _ h]
  exact lex_writeStructure hs rest

theorem lex_writeItems {cs : List Column} (h : ∀ c ∈ cs, c.order < UInt64.size)
    (rest : List Char) :
    lex (writeItems cs ++ rest) = separated true (cs.map columnLexemes) ++ lex rest := by
  induction cs with
  | nil => rfl
  | cons c cs ih =>
    obtain ⟨hc, h⟩ := List.forall_mem_cons.mp h
    cases cs with
    | nil =>
      rw [writeItems, lex_writeColumn hc]
      simp [separated]
    | cons c' cs =>
      rw [writeItems.eq_3 c (c' :: cs) nofun, List.append_assoc, List.cons_append,
        lex_writeColumn hc, lex_mark (by simp), ih h]
      simp [separated]

theorem lookup_kind (k : Kind) : (Kind.all.map fun k => (k.name, k)).lookup k.name = some k := by
  cases k <;> decide

theorem fills_column (c : Column) :
    Fills ColumnDraft.layout {} (columnMembers c)
      ⟨some c.name, some c.path, some c.kind, some c.order⟩ := by
  apply Fills.cons rfl ((reads_text c.name).map _)
  apply Fills.cons rfl ((reads_text c.path).map _)
  apply Fills.cons rfl ((reads_variant (lookup_kind c.kind)).map _)
  apply Fills.cons rfl ((reads_natural c.order).map _)
  exact .nil _

theorem reads_column (c : Column) : column.Reads (columnLexemes c) c :=
  (reads_structured (fills_column c)).checked rfl

theorem Reader.Reads.whole {α : Type} {r : Reader α} {ls : List Lexeme} {a : α}
    (h : r.Reads ls a) {s : List Char} (hs : lex s = ls) : r.whole (String.ofList s) = .ok a := by
  have hr := h []
  rw [List.append_nil, ← hs] at hr
  rw [Reader.whole, String.toList_ofList, hr]

theorem readColumns_writeColumns {cs : List Column} (h : ∀ c ∈ cs, c.order < UInt64.size) :
    readColumns (writeColumns cs) = .ok cs := by
  have hl : lex ('[' :: writeItems cs ++ [']']) =
      .mark '[' :: (separated true (cs.map columnLexemes) ++ [.mark ']']) := by
    rw [List.cons_append, lex_mark (by simp), lex_writeItems h, lex_mark (by simp), lex_nil]
  exact (reads_list (fun c _ => reads_column c) fun _ _ => rfl).whole hl

theorem readConfig_writeConfig {c : Config} (h : c.cacheCapacity < UInt64.size) :
    readConfig (writeConfig c) = .ok c := by
  let ms : List WrittenMember := [.ofNatural "cache_capacity" c.cacheCapacity]
  have hs : ∀ m ∈ ms, m.Spelled := by simp [ms, spelled_ofNatural _ h]
  have hl : lex (writeStructure (ms.map text) ++ []) = structureLexemes ms := by
    rw [lex_writeStructure hs, lex_nil, List.append_nil]
  rw [List.append_nil] at hl
  have hf : Fills ConfigDraft.layout {} ms ⟨some c.cacheCapacity⟩ :=
    .cons rfl ((reads_natural c.cacheCapacity).map _) (.nil _)
  exact ((reads_structured hf).map ConfigDraft.complete).whole hl

end Json

namespace Config

variable {m : Cache.Memory} {c : Config}

theorem cache_of_holds (h : c.cacheCapacity ≠ 0) (hm : m.holds c.cacheCapacity = true) :
    c.cache m = .opened (.empty c.cacheCapacity (Nat.pos_of_ne_zero h)) := by
  rw [cache, dif_pos (Nat.pos_of_ne_zero h), Cache.allocate, if_pos hm]

theorem cache_of_not_holds (h : c.cacheCapacity ≠ 0) (hm : m.holds c.cacheCapacity = false) :
    c.cache m = .stopped := by
  rw [cache, dif_pos (Nat.pos_of_ne_zero h), Cache.allocate, hm]
  rfl

theorem cache_eq_refused_iff (m : Cache.Memory) (c : Config) :
    c.cache m = .refused .zeroCapacity ↔ c.cacheCapacity = 0 := by
  by_cases hc : c.cacheCapacity = 0
  · simp [cache, hc]
  · cases hm : m.holds c.cacheCapacity with
    | true => simp [cache_of_holds hc hm, hc]
    | false => simp [cache_of_not_holds hc hm, hc]

theorem cache_eq_stopped_iff (m : Cache.Memory) (c : Config) :
    c.cache m = .stopped ↔ c.cacheCapacity ≠ 0 ∧ m.holds c.cacheCapacity = false := by
  by_cases hc : c.cacheCapacity = 0
  · simp [(cache_eq_refused_iff m c).mpr hc, hc]
  · cases hm : m.holds c.cacheCapacity with
    | true => simp [cache_of_holds hc hm]
    | false => simp [cache_of_not_holds hc hm, hc]

theorem cache_stopped_of_lt (m : Cache.Memory) (h : Cache.largestBlock < c.cacheCapacity) :
    c.cache m = .stopped := by
  apply (cache_eq_stopped_iff m c).mpr
  refine ⟨Nat.ne_of_gt (Nat.lt_of_le_of_lt (Nat.zero_le _) h), ?_⟩
  cases hm : m.holds c.cacheCapacity with
  | true => exact absurd (m.le_of_holds _ hm) (Nat.not_le_of_lt h)
  | false => rfl

end Config

namespace Json

/-- What is written is read as what it was, so that columns are rendered as before and a
configuration makes the cache that it made before: an empty one of its capacity, if that is not
zero and memory is found for so many entries. Without the memory there is no result. -/
theorem written_reads_back (m : Cache.Memory) :
    (∀ cs : List Column, (∀ c ∈ cs, c.order < UInt64.size) →
      readColumns (writeColumns cs) = .ok cs ∧
      (readColumns (writeColumns cs)).map Column.expression = .ok (Column.expression cs) ∧
      (readColumns (writeColumns cs)).map Column.names = .ok (Column.names cs)) ∧
    ∀ c : Config, c.cacheCapacity < UInt64.size →
      ∃ d, readConfig (writeConfig c) = .ok d ∧ d = c ∧
        (d.cache m = .refused .zeroCapacity ↔ c.cacheCapacity = 0) ∧
        (c.cacheCapacity ≠ 0 → m.holds c.cacheCapacity = true →
          ∃ cache, d.cache m = .opened cache ∧
            cache.capacity = c.cacheCapacity ∧ cache.isEmpty = true) ∧
        (d.cache m = .stopped ↔ c.cacheCapacity ≠ 0 ∧ m.holds c.cacheCapacity = false) := by
  constructor
  · intro cs h
    rw [readColumns_writeColumns h]
    exact ⟨rfl, rfl, rfl⟩
  · intro c h
    refine ⟨c, readConfig_writeConfig h, rfl, c.cache_eq_refused_iff m, ?_,
      c.cache_eq_stopped_iff m⟩
    intro hc hm
    exact ⟨_, Config.cache_of_holds hc hm, rfl, rfl⟩

theorem written_reads_back_escapes :
    let cs : List Column := [⟨⟨"a\"b\\c", "\x00\x1f\n/", .nestedExpanded⟩, UInt64.size - 1⟩,
      ⟨⟨"", "\x7f\u2028😀", .jsonOpaque⟩, 0⟩]
    let m : Cache.Memory := .ofRoom 100000 (by decide)
    readColumns (writeColumns cs) = .ok cs ∧
      readConfig (writeConfig ⟨UInt64.size - 1⟩) = .ok ⟨UInt64.size - 1⟩ ∧
      ∃ cache, Config.cache m ⟨1024⟩ = .opened cache ∧ cache.capacity = 1024 := by
  intro cs m
  have hc : ∀ c ∈ cs, c.order < UInt64.size := by decide
  obtain ⟨d, hd, rfl, -⟩ := (written_reads_back m).2 ⟨UInt64.size - 1⟩ (by decide)
  obtain ⟨e, -, rfl, -, hopened, -⟩ := (written_reads_back m).2 ⟨1024⟩ (by decide)
  obtain ⟨cache, hcache, hcapacity, -⟩ := hopened (by decide) (by decide)
  exact ⟨((written_reads_back m).1 cs hc).1, hd, cache, hcache, hcapacity⟩

theorem no_cache_of_greatest_capacity :
    readConfig (writeConfig ⟨UInt64.size - 1⟩) = .ok ⟨UInt64.size - 1⟩ ∧ UInt64.size - 1 ≠ 0 ∧
      ¬ ∃ (m : Cache.Memory) (c : Cache), Config.cache m ⟨UInt64.size - 1⟩ = .opened c := by
  refine ⟨readConfig_writeConfig (by decide), by decide, ?_⟩
  rintro ⟨m, c, hc⟩
  rw [Config.cache_stopped_of_lt m (by decide)] at hc
  cases hc

end Json

end SelectList
