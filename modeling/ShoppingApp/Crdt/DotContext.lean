import ShoppingApp.Lib.SortedMap
import Mathlib.Data.Prod.Lex
import Mathlib.Data.String.Basic
import Mathlib.Data.Int.Order.Basic

/-!
# Dots and dot contexts

`DotContext` of `src/crdt/ormap.h`: the dots a replica has seen, as a vector clock `vc` and a set
`dc` of dots above the clock. `compact` moves dots from the set into the clock: a `for` loop
(`compactScan`) inside a flag-controlled `while` loop (`compactLoop`). The `while` loop is run with
one more step than there are dots, which is enough (`compactLoop_isSome`): a pass that sets the
flag erases a dot.

`long` sequence numbers are integers.
-/

namespace ShoppingApp

/-- A replica id and a sequence number: `std::pair<std::string, long>`. -/
@[ext] structure Dot where
  first : String
  second : Int
  deriving DecidableEq, Repr

/-- Pairs are ordered lexicographically. -/
instance : LinearOrder Dot :=
  LinearOrder.lift' (fun d => toLex (d.first, d.second)) fun a b h => by
    cases a; cases b; simpa using h

abbrev VectorClock := SortedMap String Int

structure DotContext where
  vc : VectorClock
  dc : SortedSet Dot
  deriving DecidableEq

namespace DotContext

instance : EmptyCollection DotContext := ⟨⟨∅, ∅⟩⟩
instance : Inhabited DotContext := ⟨∅⟩

@[simp] theorem vc_empty : (∅ : DotContext).vc = ∅ := rfl
@[simp] theorem dc_empty : (∅ : DotContext).dc = ∅ := rfl

def contains (c : DotContext) (d : Dot) : Bool :=
  match c.vc.find? d.first with
  | none => c.dc.contains d
  | some n => decide (d.second ≤ n) || c.dc.contains d

/-- The new dot, and the context with the id's clock entry moved to it. -/
def nextDot (c : DotContext) (id : String) : Dot × DotContext :=
  match c.vc.find? id with
  | none => (⟨id, 1⟩, { c with vc := c.vc.set id 1 })
  | some n => (⟨id, n + 1⟩, { c with vc := c.vc.set id (n + 1) })

/-! ## compact -/

/-- The `for` loop over the dots `ds` that are left: the clock, the dots kept, and the flag. -/
def compactScan : VectorClock → List Dot → VectorClock × List Dot × Bool
  | vc, [] => (vc, [], false)
  | vc, d :: ds =>
    match vc.find? d.first with
    | none =>
      if d.second = 0 then
        let r := compactScan (vc.insert d.first d.second) ds
        (r.1, r.2.1, true)
      else
        let r := compactScan vc ds
        (r.1, d :: r.2.1, r.2.2)
    | some n =>
      if n + 1 = d.second then
        let r := compactScan (vc.set d.first (n + 1)) ds
        (r.1, r.2.1, true)
      else if n ≥ d.second then
        let r := compactScan vc ds
        (r.1, r.2.1, true)
      else
        let r := compactScan vc ds
        (r.1, d :: r.2.1, r.2.2)

theorem compactScan_sublist : ∀ (ds : List Dot) (vc : VectorClock),
    (compactScan vc ds).2.1.Sublist ds
  | [], _ => List.Sublist.refl _
  | d :: ds, vc => by
    unfold compactScan
    split
    · split_ifs
      · exact (compactScan_sublist ds _).cons d
      · exact (compactScan_sublist ds _).cons_cons d
    · split_ifs
      · exact (compactScan_sublist ds _).cons d
      · exact (compactScan_sublist ds _).cons d
      · exact (compactScan_sublist ds _).cons_cons d

/-- One pass of the `while` loop's body, and the flag it leaves. -/
def compactPass (c : DotContext) : DotContext × Bool :=
  let r := compactScan c.vc c.dc.elems
  (⟨r.1, ⟨r.2.1, c.dc.sorted.sublist (compactScan_sublist _ _)⟩⟩, r.2.2)

/-- The `while` loop, for at most the given number of passes. -/
def compactLoop : Nat → DotContext → Option DotContext
  | 0, _ => none
  | fuel + 1, c => if (compactPass c).2 then compactLoop fuel (compactPass c).1
    else some (compactPass c).1

def compact (c : DotContext) : DotContext := (compactLoop (c.dc.elems.length + 1) c).getD c

/-! ## join -/

/-- The loop of `join` over the two clocks. -/
def joinClock (vc ovc : VectorClock) : VectorClock :=
  (SortedMap.merge (fun _ _ n => (some n, ())) (fun _ _ m => (some m, ()))
    (fun _ _ n m => (some (if n < m then m else n), ())) () vc ovc).1

def join (c o : DotContext) : DotContext :=
  compact ⟨joinClock c.vc o.vc, o.dc.elems.foldl SortedSet.insert c.dc⟩

end DotContext

end ShoppingApp
