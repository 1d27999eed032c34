import ShoppingApp.Crdt.DotContext
import ShoppingApp.Lib.Iterator
import ShoppingApp.Lib.Outcome

/-!
# Dot kernels, causal counters and the observed-remove map

The rest of `src/crdt/ormap.h`. A `DotKernel` holds its values by dot and a *reference* to a
`DotContext`. All counters of an `ORMap` made by `operator[]` refer to the map's own context, so a
merge of one counter also writes the context of all others, and `ORMap::join` restores it between
items. A counter built outside the map refers to a context of its own.

* `DotKernel` and `CausalCounter` are the objects with the reference followed: operations take the
  context in and give the new one back.
* `Cell` is a counter as a map stores it: `own = none` says that it refers to the map's context.
  `Cell.counter` follows the reference and `Cell.write` writes through it.

`int` quantities are integers.
-/

namespace ShoppingApp

/-- `join::join` on integers. -/
def Join.join (l r : Int) : Int :=
  let l := max l r
  l

/-! ## DotKernel -/

structure DotKernel (T : Type*) where
  context : DotContext
  values : SortedMap Dot T
  deriving DecidableEq

namespace DotKernel

variable {T : Type*}

/-- What the three loops of `join` make. On different values of one dot the source calls `join::join`
(`Join.join`), which takes them by value, and drops the result: the value on this side stays. -/
def joinValues (k o : DotKernel T) : SortedMap Dot T :=
  (SortedMap.merge
    (fun _ d v => (if o.context.contains d then none else some v, ()))
    (fun _ d w => (if k.context.contains d then none else some w, ()))
    (fun _ _ v _ => (some v, ()))
    () k.values o.values).1

def join (k o : DotKernel T) : DotKernel T :=
  ⟨k.context.join o.context, joinValues k o⟩

/-- Where the loops of `join` are: the map that they change, and the iterators `it` in it and `oit`
in the values of the other side. -/
structure JoinState (T : Type) where
  values : SortedMap Dot T
  it : Option Dot
  oit : Option Dot

/-- `values.erase(it++)` if the other side has seen the dot, `it++` if not. -/
def eraseSeen {T : Type} (o : DotKernel T) (s : JoinState T) :
    Except IteratorFault (JoinState T) := do
  let e ← s.values.deref s.it
  let it ← s.values.advance s.it
  let values ← if o.context.contains e.1 then s.values.eraseAt s.it else .ok s.values
  return { s with values, it }

/-- `values.insert(*oit)` unless this side has seen the dot, and `oit++`. -/
def insertUnseen {T : Type} (k o : DotKernel T) (s : JoinState T) :
    Except IteratorFault (JoinState T) := do
  let e ← o.values.deref s.oit
  let oit ← o.values.advance s.oit
  let values := if k.context.contains e.1 then s.values else s.values.insert e.1 e.2
  return { s with values, oit }

/-- One round of the first loop. -/
def joinRound {T : Type} (k o : DotKernel T) (s : JoinState T) :
    Except IteratorFault (JoinState T) := do
  let e ← s.values.deref s.it
  let x ← o.values.deref s.oit
  if e.1 < x.1 then eraseSeen o s
  else if x.1 < e.1 then insertUnseen k o s
  else
    let it ← s.values.advance s.it
    let oit ← o.values.advance s.oit
    return { s with it, oit }

/-- The three loops of `join` with their iterators, each for as many looks at its condition as it
can need (`joinLoops_eq`). The last two take what the first leaves of either side. -/
def joinLoops {T : Type} (k o : DotKernel T) : Except IteratorFault (SortedMap Dot T) := do
  let looks := k.values.entries.length + o.values.entries.length + 1
  let s : JoinState T := ⟨k.values, k.values.begin, o.values.begin⟩
  let s ← (whileLoop (fun s => s.it.isSome && s.oit.isSome) (joinRound k o) looks s).getD (.ok s)
  let s ← (whileLoop (fun s => s.it.isSome) (eraseSeen o) looks s).getD (.ok s)
  let s ← (whileLoop (fun s => s.oit.isSome) (insertUnseen k o) looks s).getD (.ok s)
  return s.values

def add (k : DotKernel T) (replicaId : String) (v : T) : DotKernel T :=
  let r := k.context.nextDot replicaId
  ⟨r.2, k.values.insert r.1 v⟩

/-- One round of the loop of `remove(v)`, with the `it++` that comes after its body. -/
def removeRound {T : Type} [BEq T] (v : T) (s : SortedMap Dot T × Option Dot) :
    Except IteratorFault (SortedMap Dot T × Option Dot) := do
  let (values, it) := s
  let e ← values.deref it
  let values ← if e.2 == v then values.eraseAt it else .ok values
  let it ← values.advance it
  return (values, it)

/-- The loop of `remove(v)`, for at most the given number of looks at `it != values.end()`. -/
def removeLoop {T : Type} [BEq T] (v : T) :
    Nat → SortedMap Dot T × Option Dot →
      Option (Except IteratorFault (SortedMap Dot T × Option Dot)) :=
  whileLoop (fun s => s.2.isSome) (removeRound v)

/-- `remove(v)`: one look for every value and one more at the end are enough (`removeLoop_ends`). -/
def removeValue {T : Type} [BEq T] (k : DotKernel T) (v : T) :
    Except IteratorFault (DotKernel T) := do
  let start := (k.values, k.values.begin)
  let r ← (removeLoop v (k.values.entries.length + 1) start).getD (.ok start)
  return { k with values := r.1 }

/-- `remove(d)` -/
def removeDot (k : DotKernel T) (d : Dot) : DotKernel T := { k with values := k.values.erase d }

/-- `remove()` -/
def removeAll (k : DotKernel T) : DotKernel T := { k with values := ∅ }

end DotKernel

/-! ## CausalCounter -/

structure CausalCounter where
  core : DotKernel Int
  deriving DecidableEq

namespace CausalCounter

/-- The sum of the values whose dots `replicaId` made. -/
def localValue (c : CausalCounter) (replicaId : String) : Int :=
  c.core.values.entries.foldl (fun res e => if e.1.first = replicaId then res + e.2 else res) 0

def read (c : CausalCounter) : Int := c.core.values.entries.foldl (fun res e => res + e.2) 0

/-- The largest value under a dot of `replicaId`, and at least 0. -/
def ownMax (c : CausalCounter) (replicaId : String) : Int :=
  c.core.values.entries.foldl (fun v e => if e.1.first = replicaId then max v e.2 else v) 0

/-- The dots of `replicaId`. -/
def ownDots (c : CausalCounter) (replicaId : String) : List Dot :=
  c.core.values.keys.filter fun d => d.first = replicaId

/-- Replace the dots of `replicaId` by one new dot, with a value made from the old ones. -/
def rewrite (c : CausalCounter) (replicaId : String) (f : Int → Int) : CausalCounter :=
  let value := c.ownMax replicaId
  let core := (c.ownDots replicaId).foldl DotKernel.removeDot c.core
  ⟨core.add replicaId (f value)⟩

def inc (c : CausalCounter) (replicaId : String) (v : Int) : CausalCounter :=
  c.rewrite replicaId (· + v)

def dec (c : CausalCounter) (replicaId : String) (v : Int) : CausalCounter :=
  c.rewrite replicaId (· - v)

def join (c o : CausalCounter) : CausalCounter := ⟨c.core.join o.core⟩

def reset (c : CausalCounter) : CausalCounter := ⟨c.core.removeAll⟩

end CausalCounter

/-! ## ORMap -/

/-- A counter in a map: its values, and its own context unless it refers to the map's. -/
structure Cell where
  own : Option DotContext
  values : SortedMap Dot Int
  deriving DecidableEq

namespace Cell

/-- `V(context)`: a new counter that refers to the map's context. -/
def fresh : Cell := ⟨none, ∅⟩

/-- The counter, with the reference followed. -/
def counter (cell : Cell) (context : DotContext) : CausalCounter :=
  ⟨⟨cell.own.getD context, cell.values⟩⟩

/-- Write a counter back: its context goes where the cell's reference points. -/
def write (cell : Cell) (context : DotContext) (c : CausalCounter) : Cell × DotContext :=
  match cell.own with
  | none => (⟨none, c.core.values⟩, c.core.context)
  | some _ => (⟨some c.core.context, c.core.values⟩, context)

/-- `cell.join(o)`, with the map's context before and after. -/
def join (cell : Cell) (context : DotContext) (o : CausalCounter) : Cell × DotContext :=
  cell.write context ((cell.counter context).join o)

end Cell

structure ORMap (K : Type*) [LinearOrder K] where
  map : SortedMap K Cell
  context : DotContext
  deriving DecidableEq

namespace ORMap

variable {K : Type*} [LinearOrder K]

instance : EmptyCollection (ORMap K) := ⟨⟨∅, ∅⟩⟩

@[simp] theorem map_empty : (∅ : ORMap K).map = ∅ := rfl
@[simp] theorem context_empty : (∅ : ORMap K).context = ∅ := rfl

/-- The counter `operator[]` finds or makes at `k`. -/
def cellAt (m : ORMap K) (k : K) : Cell := (m.map.find? k).getD Cell.fresh

/-- `(*this)[k].f()` -/
def modify (m : ORMap K) (k : K) (f : CausalCounter → CausalCounter) : ORMap K :=
  let cell := m.cellAt k
  let r := cell.write m.context (f (cell.counter m.context))
  ⟨m.map.set k r.1, r.2⟩

/-- The counter at `k` is reset and then erased, so nothing of it is left. -/
def remove (m : ORMap K) (k : K) : ORMap K := ⟨m.map.erase k, m.context⟩

/-- The loops walk both maps with the shared context as state: every inner `join` overwrites it,
and `context = initial_context` at the end of each iteration puts the initial one back. -/
def join (m o : ORMap K) : ORMap K :=
  let initialContext := m.context
  let r := SortedMap.merge
    (fun context _ cell =>
      (some (cell.join context ⟨⟨o.context, ∅⟩⟩).1, initialContext))
    (fun context _ ocell =>
      (some (Cell.fresh.join context (ocell.counter o.context)).1, initialContext))
    (fun context _ cell ocell =>
      (some (cell.join context (ocell.counter o.context)).1, initialContext))
    m.context m.map o.map
  ⟨r.1, r.2.join o.context⟩

/-- `operator==`: equal keys, equal counters (each with the context it refers to), equal contexts. -/
def Eqv (m o : ORMap K) : Prop :=
  (m.map.mapVal fun _ cell => cell.counter m.context) =
    (o.map.mapVal fun _ cell => cell.counter o.context) ∧ m.context = o.context

instance (m o : ORMap K) : Decidable (Eqv m o) := inferInstanceAs (Decidable (_ ∧ _))

end ORMap

end ShoppingApp
