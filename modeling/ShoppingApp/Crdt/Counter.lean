import ShoppingApp.Lib.SortedMap

/-!
# Counters with deltas

`BaseCounter` and `Counter` of `src/crdt/counter.h`. `inc` and `dec` give the delta they return
beside the new counter. Sums and maxima do not depend on the order in which a hash map is walked, so
`m` is sorted; values are integers.
-/

namespace ShoppingApp

structure BaseCounter (K : Type*) [LinearOrder K] where
  m : SortedMap K Int
  deriving DecidableEq

namespace BaseCounter

variable {K : Type*} [LinearOrder K]

instance : EmptyCollection (BaseCounter K) := ⟨⟨∅⟩⟩

/-- What `m[k]` reads: 0 where there was no entry. -/
def entry (m : SortedMap K Int) (k : K) : Int := (m.find? k).getD 0

def inc (c : BaseCounter K) (replica_id : K) (value : Int) : BaseCounter K × BaseCounter K :=
  let m := c.m.set replica_id (entry c.m replica_id + value)
  (⟨SortedMap.set ∅ replica_id (entry m replica_id)⟩, ⟨m⟩)

def localValue (c : BaseCounter K) (replica_id : K) : Int :=
  match c.m.find? replica_id with
  | some v => 0 + v
  | none => 0

def read (c : BaseCounter K) : Int := c.m.entries.foldl (fun res kv => res + kv.2) 0

def join (c o : BaseCounter K) : BaseCounter K :=
  ⟨o.m.entries.foldl (fun m okv => m.set okv.1 (max okv.2 (entry m okv.1))) c.m⟩

end BaseCounter

/-- Increases and decreases. -/
structure Counter (K : Type*) [LinearOrder K] where
  i : BaseCounter K
  d : BaseCounter K
  deriving DecidableEq

namespace Counter

variable {K : Type*} [LinearOrder K]

instance : EmptyCollection (Counter K) := ⟨⟨∅, ∅⟩⟩

def inc (c : Counter K) (replica_id : K) (value : Int) : Counter K × Counter K :=
  let r := c.i.inc replica_id value
  (⟨r.1, ∅⟩, ⟨r.2, c.d⟩)

def dec (c : Counter K) (replica_id : K) (value : Int) : Counter K × Counter K :=
  let r := c.d.inc replica_id value
  (⟨∅, r.1⟩, ⟨c.i, r.2⟩)

def localValue (c : Counter K) (replica_id : K) : Int :=
  c.i.localValue replica_id - c.d.localValue replica_id

def read (c : Counter K) : Int := c.i.read - c.d.read

def join (c o : Counter K) : Counter K := ⟨c.i.join o.i, c.d.join o.d⟩

end Counter

end ShoppingApp
