import SelectList.Column
import SelectList.Record

namespace SelectList

structure Entry where
  key : Slot
  name : String
  columns : List Column
deriving DecidableEq, Repr

structure Cache where
  capacity : Nat
  capacity_pos : 0 < capacity
  entries : List Entry

namespace Cache

def empty (capacity : Nat) (h : 0 < capacity) : Cache := ⟨capacity, h, []⟩

def largestBlock : Nat := UInt64.size / 2 - 1

/-- For how many entries a cache finds memory. All of it is one block, in which each of them takes a
byte or more. -/
structure Memory where
  holds : Nat → Bool
  le_of_holds : ∀ n, holds n = true → n ≤ largestBlock

def Memory.ofRoom (room : Nat) (h : room ≤ largestBlock) : Memory where
  holds n := n ≤ room
  le_of_holds _ hn := Nat.le_trans (of_decide_eq_true hn) h

/-- Memory is taken for all entries at once, and without it the program stops. -/
def allocate (m : Memory) (capacity : Nat) (h : 0 < capacity) : Option Cache :=
  if m.holds capacity then some (.empty capacity h) else none

def size (c : Cache) : Nat := c.entries.length

def isEmpty (c : Cache) : Bool := c.size == 0

def keys (c : Cache) : List Slot := c.entries.map (·.key)

def contains (c : Cache) (k : Slot) : Bool := c.entries.any (·.key == k)

def isFull (c : Cache) : Bool := c.capacity ≤ c.size

def toFront (c : Cache) (e : Entry) : Cache :=
  { c with entries := e :: c.entries.filter (·.key != e.key) }

theorem contains_iff {c : Cache} {k : Slot} : c.contains k = true ↔ k ∈ c.keys := by
  simp [contains, keys]

theorem keys_toFront (c : Cache) (e : Entry) :
    (c.toFront e).keys = e.key :: c.keys.filter (· != e.key) := by
  simp [keys, toFront, List.filter_map, Function.comp_def]

def get (c : Cache) (k : Slot) : Option (Entry × Cache) :=
  (c.entries.find? (·.key == k)).map fun e => (e, c.toFront e)

def popOldest (c : Cache) : Cache × Option Entry :=
  ({ c with entries := c.entries.dropLast }, c.entries.getLast?)

def put (c : Cache) (e : Entry) : Cache :=
  if !c.contains e.key && c.size == c.capacity then c.popOldest.1.toFront e else c.toFront e

def lookup (c : Cache) (k : Slot) : Option (Entry × Cache) := c.get k

/-- Room is made before the entry is put, so that the entry that goes can be told. -/
def store (c : Cache) (e : Entry) : Cache × Option Entry :=
  let (d, old) := if !c.contains e.key && c.isFull then c.popOldest else (c, none)
  (d.put e, old)

end Cache

structure Stats where
  hits : Nat := 0
  misses : Nat := 0
  evictions : Nat := 0
deriving DecidableEq, Repr

namespace Stats

def maxCount : Nat := UInt64.size - 1

/-- Hits and misses stay at the greatest count once they reach it; evictions begin anew. -/
def hit (s : Stats) : Stats := { s with hits := min (s.hits + 1) maxCount }

def miss (s : Stats) : Stats := { s with misses := min (s.misses + 1) maxCount }

def eviction (s : Stats) : Stats := { s with evictions := (s.evictions + 1) % UInt64.size }

end Stats

structure Config where
  cacheCapacity : Nat
deriving DecidableEq, Repr

namespace Config

def default : Config := ⟨1024⟩

structure Builder where
  cacheCapacity : Option Nat := none

namespace Builder

def withCapacity (b : Builder) (n : Nat) : Builder := { b with cacheCapacity := some n }

def build (b : Builder) : Config := ⟨b.cacheCapacity.getD default.cacheCapacity⟩

end Builder

inductive Error
  | zeroCapacity
deriving DecidableEq, Repr

def Error.message : Error → String
  | .zeroCapacity => "Invalid cache capacity: 0 (must be at least 1)"

inductive Outcome
  | refused (e : Error)
  | stopped
  | opened (c : Cache)

def cache (m : Cache.Memory) (c : Config) : Outcome :=
  if h : 0 < c.cacheCapacity then
    match Cache.allocate m c.cacheCapacity h with
    | some cache => .opened cache
    | none => .stopped
  else .refused .zeroCapacity

end Config

end SelectList
