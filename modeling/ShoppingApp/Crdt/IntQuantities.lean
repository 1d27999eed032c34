import ShoppingApp.Crdt.ShoppingList
import ShoppingApp.Lib.Cin
import Mathlib.Data.Int.Basic

/-!
# Quantities as the code adds them

`CausalCounter` and `ShoppingList` calculate with exact integers; the code's quantities are `int`.
Here every addition and subtraction of `read`, `local`, `inc` and `dec` wraps around at 32 bits, as
compiled code does where the language leaves an overflow undefined. A list whose quantities fit
(`Fits`) does what the exact one does (`intPerform_eq`).
-/

namespace ShoppingApp

/-- The sum or difference that is left in an `int`. -/
def wrapInt (n : Int) : Int := n.bmod (2 ^ 32)

def IsInt (n : Int) : Prop := Cin.INT_MIN ≤ n ∧ n ≤ Cin.INT_MAX

theorem wrapInt_of_isInt {n : Int} (h : IsInt n) : wrapInt n = n :=
  Int.bmod_eq_of_le h.1 (Int.lt_add_one_of_le h.2)

theorem foldl_wrapInt {α : Type} (f : α → Int) : ∀ (xs : List α) (n : Int),
    xs.foldl (fun res x => wrapInt (res + f x)) (wrapInt n) =
      wrapInt (xs.foldl (fun res x => res + f x) n)
  | [], _ => rfl
  | x :: xs, n => by
    have hadd : wrapInt (wrapInt n + f x) = wrapInt (n + f x) := Int.bmod_add_bmod
    rw [List.foldl_cons, List.foldl_cons, hadd]
    exact foldl_wrapInt f xs (n + f x)

namespace CausalCounter

def intLocal (c : CausalCounter) (replicaId : String) : Int :=
  c.core.values.entries.foldl
    (fun res e => if e.1.first = replicaId then wrapInt (res + e.2) else res) 0

def intRead (c : CausalCounter) : Int :=
  c.core.values.entries.foldl (fun res e => wrapInt (res + e.2)) 0

def intInc (c : CausalCounter) (replicaId : String) (v : Int) : CausalCounter :=
  c.rewrite replicaId fun value => wrapInt (value + v)

def intDec (c : CausalCounter) (replicaId : String) (v : Int) : CausalCounter :=
  c.rewrite replicaId fun value => wrapInt (value - v)

theorem rewrite_wrapInt {c : CausalCounter} {replicaId : String} {f : Int → Int}
    (h : IsInt (f (c.ownMax replicaId))) :
    c.rewrite replicaId (fun value => wrapInt (f value)) = c.rewrite replicaId f := by
  unfold rewrite
  dsimp only
  rw [wrapInt_of_isInt h]

theorem intRead_eq (c : CausalCounter) : c.intRead = wrapInt c.read :=
  foldl_wrapInt Prod.snd c.core.values.entries 0

theorem intLocal_eq (c : CausalCounter) (replicaId : String) :
    c.intLocal replicaId = wrapInt (c.localValue replicaId) := by
  have hfilter : ∀ (f : Int → Int) (es : List (Dot × Int)) (n : Int),
      es.foldl (fun res e => if e.1.first = replicaId then f (res + e.2) else res) n =
        (es.filter fun e => e.1.first = replicaId).foldl (fun res e => f (res + e.2)) n := by
    intro f es n
    rw [List.foldl_filter]
    simp only [decide_eq_true_eq]
  unfold intLocal localValue
  rw [hfilter wrapInt]
  exact (foldl_wrapInt Prod.snd _ 0).trans (congrArg wrapInt (hfilter id _ 0).symm)

end CausalCounter

namespace ShoppingList

def intQuantity (l : ShoppingList) (name : String) : Int :=
  match l.items.map.find? name with
  | some cell => (cell.counter l.items.context).intRead
  | none => 0

def intContains (l : ShoppingList) (name : String) : Bool :=
  match l.items.map.find? name with
  | some cell => decide ((cell.counter l.items.context).intRead > 0)
  | none => false

/-- The list after an operation, and what the operation returned. -/
def intPerform (l : ShoppingList) : Op → Bool × ShoppingList
  | .createItem name quantity =>
    if l.intContains name then (false, l)
    else (true, l.modifyItem name fun c => c.intInc l.id quantity)
  | .removeItem name =>
    if !l.intContains name then (false, l)
    else (true, { l with items := l.items.remove name })
  | .increaseItem name quantity =>
    if !l.intContains name then (false, l)
    else (true, l.modifyItem name fun c => c.intInc l.id quantity)
  | .buyItem name quantity =>
    if !l.intContains name then (false, l)
    else (true, l.modifyItem name fun c => c.intDec l.id quantity)

theorem intQuantity_eq (l : ShoppingList) (name : String) :
    l.intQuantity name = wrapInt (l.getQuantity name) := by
  unfold intQuantity getQuantity
  cases l.items.map.find? name with
  | none => rfl
  | some cell => exact CausalCounter.intRead_eq _

theorem intContains_eq {l : ShoppingList} {name : String} (h : IsInt (l.getQuantity name)) :
    l.intContains name = l.contains name := by
  unfold getQuantity at h
  unfold intContains contains
  cases hfind : l.items.map.find? name with
  | none => rfl
  | some cell =>
    rw [hfind] at h
    dsimp only
    rw [CausalCounter.intRead_eq, wrapInt_of_isInt h]

/-- The counter under a name. -/
def counterAt (l : ShoppingList) (name : String) : CausalCounter :=
  (l.items.cellAt name).counter l.items.context

/-- Whether what an operation reads and writes fits in an `int`. -/
def Fits (l : ShoppingList) : Op → Prop
  | .createItem name quantity | .increaseItem name quantity =>
    IsInt (l.getQuantity name) ∧ IsInt ((l.counterAt name).ownMax l.id + quantity)
  | .buyItem name quantity =>
    IsInt (l.getQuantity name) ∧ IsInt ((l.counterAt name).localValue l.id) ∧
      IsInt ((l.counterAt name).ownMax l.id - quantity)
  | .removeItem name => IsInt (l.getQuantity name)

theorem modifyItem_congr (l : ShoppingList) (name : String) {f g : CausalCounter → CausalCounter}
    (h : f (l.counterAt name) = g (l.counterAt name)) :
    l.modifyItem name f = l.modifyItem name g := by
  have hcell : f ((l.items.cellAt name).counter l.items.context) =
      g ((l.items.cellAt name).counter l.items.context) := h
  unfold modifyItem ORMap.modify
  simp only [hcell]

/-- **Without an overflow the quantities are exact.** -/
theorem intPerform_eq {l : ShoppingList} {op : Op} (h : l.Fits op) :
    l.intPerform op = l.perform op := by
  cases op with
  | createItem name quantity =>
    simp only [intPerform, perform, createItem, intContains_eq h.1]
    rw [l.modifyItem_congr name (g := fun c => c.inc l.id quantity)
      (CausalCounter.rewrite_wrapInt h.2)]
  | removeItem name => simp only [intPerform, perform, removeItem, intContains_eq h]
  | increaseItem name quantity =>
    simp only [intPerform, perform, increaseItem, intContains_eq h.1]
    rw [l.modifyItem_congr name (g := fun c => c.inc l.id quantity)
      (CausalCounter.rewrite_wrapInt h.2)]
  | buyItem name quantity =>
    simp only [intPerform, perform, buyItem, intContains_eq h.1]
    rw [l.modifyItem_congr name (g := fun c => c.dec l.id quantity)
      (CausalCounter.rewrite_wrapInt h.2.2)]

end ShoppingList

end ShoppingApp
