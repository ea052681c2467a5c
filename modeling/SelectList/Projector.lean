import SelectList.Cache
import SelectList.Column
import SelectList.Record
import SelectList.Resolve

/-!
Projection through a cache. A record may have callbacks: when it is asked for its description, the
records that its next callback names are projected through the same projector before the answer is
given, so that the cache can change between a miss and the store that follows it.
-/

namespace SelectList

inductive Event
  | asked (record : Slot)
  | visit (v : Visit)
  | hit (record : Slot) (columns : List Column)
  | resolved (record : Slot) (columns : List Column)
  | stored (record : Slot)
  | evicted (record : Slot) (name : String)
deriving DecidableEq, Repr

namespace Event

def line? : Event → Option String
  | .visit (.cut owner k) =>
    some ("[resolve] " ++ owner ++ " nests " ++ k.name ++ " recursively, not expanding")
  | .resolved k cs =>
    some ("[ShapeCache::get_or_build] resolved " ++ k.name ++ " (" ++
      String.ofList (Decimal.digits cs.length) ++ " columns)")
  | .evicted _ name => some ("[ShapeCache::insert] evicted " ++ name)
  | .asked _ | .visit (.opened _) | .hit _ _ | .stored _ => none

def log (es : List Event) : List String :=
  es.filterMap line?

end Event

structure Moment where
  event : Event
  cache : Cache

def Visit.log (vs : List Visit) : List String :=
  Event.log (vs.map .visit)

inductive Indirection
  | option
  | box
  | rc
  | arc
  | ref
  | refMut
deriving DecidableEq, Repr

inductive Subject
  | nothing
  | record (k : Slot)
  | behind (i : Indirection) (s : Subject)
deriving DecidableEq, Repr

namespace Subject

def record? : Subject → Option Slot
  | .nothing => none
  | .record k => some k
  | .behind _ s => s.record?

end Subject

structure Projector where
  catalog : Catalog
  -- what each record projects the next time that it is asked for its description, the time after
  -- that, and so on; when nothing is left it projects nothing
  callbacks : List (Slot × List Slot)
  cache : Cache
  stats : Stats := {}
  -- what happened since the step began, the latest first
  history : List Moment := []

namespace Projector

def start (cache : Cache) (records : List (Descriptor × List (List Slot))) : Projector where
  catalog := .ofList (records.map (·.1))
  callbacks := records.zipIdx.flatMap fun (r, k) => r.2.map (k, ·)
  cache := cache

def define (p : Projector) (k : Slot) (d : Descriptor) (callbacks : List (List Slot)) :
    Projector :=
  { p with
    catalog := p.catalog.define k d
    callbacks := callbacks.map (k, ·) ++ p.callbacks.filter (·.1 != k) }

def emit (p : Projector) (e : Event) : Projector :=
  { p with history := ⟨e, p.cache⟩ :: p.history }

def next (p : Projector) (k : Slot) : List Slot := (p.callbacks.lookup k).getD []

def spend (p : Projector) (k : Slot) : Projector :=
  { p with callbacks := p.callbacks.eraseP (·.1 == k) }

/-- A visit that asks for a description runs the next callback of the record, which is then
spent. -/
def visit (again : Slot → Projector → Projector) (p : Projector) (v : Visit) : Projector :=
  let p := p.emit (.visit v)
  match v with
  | .cut _ _ => p
  | .opened k => (p.next k).foldl (fun p k => again k p) (p.spend k)

def store (p : Projector) (e : Entry) : Projector :=
  match p.cache.store e with
  | (cache, none) => { p with cache }.emit (.stored e.key)
  | (cache, some old) =>
    ({ p with cache, stats := p.stats.eviction }.emit (.stored e.key)).emit
      (.evicted old.key old.name)

def serve (p : Projector) (k : Slot) (e : Entry) (cache : Cache) : Projector :=
  { p with cache, stats := p.stats.hit }.emit (.hit k e.columns)

def settle (p : Projector) (k : Slot) (cs : List Column) : Projector :=
  let p := (p.emit (.resolved k cs)).store ⟨k, k.name, cs⟩
  -- the miss is counted once its columns are stored
  { p with stats := p.stats.miss }

def fetchWith (again : Slot → Projector → Projector) (k : Slot) (p : Projector) :
    Projector × List Column :=
  let p := p.emit (.asked k)
  match p.cache.lookup k with
  | some (e, cache) => (p.serve k e cache, e.columns)
  | none =>
    let r := p.catalog.resolveRecord (some k)
    ((r.visits.foldl (visit again) p).settle k r.columns, r.columns)

def again : (depth : Nat) → Slot → Projector → Projector
  | 0, _, p => p
  | depth + 1, k, p => (fetchWith (again depth) k p).1

/-- A callback is spent when it runs, so they nest no deeper than there are callbacks. -/
def fetch (p : Projector) (k : Slot) : Projector × List Column :=
  fetchWith (again p.callbacks.length) k p

def resolve (p : Projector) (record : Option Slot) : Projector × List Column :=
  let r := p.catalog.resolveRecord record
  (r.visits.foldl (visit (again p.callbacks.length)) p, r.columns)

def columns (p : Projector) (s : Subject) : Projector × List Column :=
  match s.record? with
  | none => (p, [])
  | some k => p.fetch k

end Projector

inductive View
  | expression
  | names
deriving DecidableEq, Repr

inductive Output
  | text (s : String)
  | list (ss : List String)
  | flag (b : Bool)
  | nothing
deriving DecidableEq, Repr

def View.render : View → List Column → Output
  | .expression, cs => .text (Column.expression cs)
  | .names, cs => .list (Column.names cs)

/-- Projecting by value passes an absent value of the subject's type, which is never looked at. -/
inductive Step
  | project (view : View) (subject : Subject) (byValue : Bool)
  | contains (record : Slot)
  | resolve (record : Option Slot)
  | define (record : Slot) (d : Descriptor) (callbacks : List (List Slot))
  | sweep (first last : Slot)
deriving DecidableEq, Repr

structure Answer where
  output : Output
  cache : Cache
  stats : Stats
  history : List Moment
  log : List String

namespace Projector

def step (p : Projector) : Step → Projector × Output
  | .project view subject _ =>
    let (p, cs) := p.columns subject
    (p, view.render cs)
  | .contains k => (p, .flag (p.cache.contains k))
  | .resolve record =>
    let (p, cs) := p.resolve record
    (p, .list (Column.names cs))
  | .define k d callbacks => (p.define k d callbacks, .nothing)
  | .sweep first last =>
    ((List.range' first (last - first)).foldl (fun p k => (p.fetch k).1) p, .nothing)

def answer (p : Projector) (s : Step) : Projector × Answer :=
  let (q, output) := step { p with history := [] } s
  let history := q.history.reverse
  let log := match s with
    -- nobody looks at what a sweep logs
    | .sweep _ _ => []
    | _ => Event.log (history.map (·.event))
  (q, ⟨output, q.cache, q.stats, history, log⟩)

def run (p : Projector) : List Step → List Answer
  | [] => []
  | s :: ss =>
    let (q, a) := p.answer s
    a :: q.run ss

end Projector

end SelectList
