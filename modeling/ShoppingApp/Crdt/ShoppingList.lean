import ShoppingApp.Crdt.ORMap
import Mathlib.Data.Finset.Image
import Mathlib.Data.Finset.Dedup

/-!
# Shopping lists

`ShoppingList` of `src/crdt/shopping_list.h`: an id (the replica's name in the dots it makes), a
title, a url, and an `ORMap` from item names to counters. Operations that return `bool` give the
result beside the new list.
-/

namespace ShoppingApp

structure ShoppingList where
  id : String
  title : String
  url : String
  items : ORMap String
  deriving DecidableEq

namespace ShoppingList

/-- `ShoppingList{id, title, url}` -/
def new (id title url : String) : ShoppingList := ⟨id, title, url, ∅⟩

/-- `ShoppingList()` -/
def blank : ShoppingList := new "" "" ""

def setId (l : ShoppingList) (id : String) : ShoppingList := { l with id := id }

def getQuantity (l : ShoppingList) (name : String) : Int :=
  match l.items.map.find? name with
  | some cell => (cell.counter l.items.context).read
  | none => 0

def contains (l : ShoppingList) (name : String) : Bool :=
  match l.items.map.find? name with
  | some cell => decide ((cell.counter l.items.context).read > 0)
  | none => false

/-- The items with a positive quantity. -/
def getItemsSet (l : ShoppingList) : Finset (String × Int) :=
  ((l.items.map.entries.map fun e => (e.1, (e.2.counter l.items.context).read)).filter
    fun i => i.2 > 0).toFinset

/-- `items[name].f()` -/
def modifyItem (l : ShoppingList) (name : String) (f : CausalCounter → CausalCounter) :
    ShoppingList :=
  { l with items := l.items.modify name f }

def createItem (l : ShoppingList) (name : String) (quantity : Int) : Bool × ShoppingList :=
  if l.contains name then (false, l)
  else (true, l.modifyItem name fun c => c.inc l.id quantity)

def removeItem (l : ShoppingList) (name : String) : Bool × ShoppingList :=
  if !l.contains name then (false, l)
  else (true, { l with items := l.items.remove name })

def increaseItem (l : ShoppingList) (name : String) (quantity : Int) : Bool × ShoppingList :=
  if !l.contains name then (false, l)
  else (true, l.modifyItem name fun c => c.inc l.id quantity)

def buyItem (l : ShoppingList) (name : String) (quantity : Int) : Bool × ShoppingList :=
  if !l.contains name then (false, l)
  else (true, l.modifyItem name fun c => c.dec l.id quantity)

/-- A list without url and title takes the other's; then lists of one title and url merge. -/
def join (l o : ShoppingList) : Bool × ShoppingList :=
  let l := if l.url = "" ∧ l.title = "" then { l with url := o.url, title := o.title } else l
  if l.title ≠ o.title ∨ l.url ≠ o.url then (false, l)
  else (true, { l with items := l.items.join o.items })

/-- `operator==`: the id is not compared. -/
def Eqv (l o : ShoppingList) : Prop := l.title = o.title ∧ l.url = o.url ∧ l.items.Eqv o.items

instance (l o : ShoppingList) : Decidable (Eqv l o) := inferInstanceAs (Decidable (_ ∧ _))

/-- The operations a user makes on a list. -/
inductive Op
  | createItem (name : String) (quantity : Int)
  | removeItem (name : String)
  | increaseItem (name : String) (quantity : Int)
  | buyItem (name : String) (quantity : Int)
  deriving DecidableEq, Repr

/-- The list after an operation, and what the operation returned. -/
def perform (l : ShoppingList) : Op → Bool × ShoppingList
  | .createItem name quantity => l.createItem name quantity
  | .removeItem name => l.removeItem name
  | .increaseItem name quantity => l.increaseItem name quantity
  | .buyItem name quantity => l.buyItem name quantity

end ShoppingList

end ShoppingApp
