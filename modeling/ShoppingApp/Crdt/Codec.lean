import ShoppingApp.Lib.Json
import ShoppingApp.Crdt.ShoppingList

/-!
# Lists as JSON

`toJson` and `fromJson` of `DotContext` and `to_json` and `from_json` of `ShoppingList`. Decoding
fills a temporary list whose counters have contexts of their own, all empty, and joins it into the
list it was called on.
-/

namespace ShoppingApp

namespace Dot

def toJson (d : Dot) : Json := .arr [.str d.first, .int d.second]

/-- `get<Dot>()` -/
def ofJson (j : Json) : Decode Dot := do
  let first ← (← j.elemAt 0).getString
  let second ← (← j.elemAt 1).getLong
  return ⟨first, second⟩

end Dot

namespace DotContext

def toJson (c : DotContext) : Json :=
  .obj [("dc", .arr (c.dc.elems.map Dot.toJson)), ("vc", .ofMap .int c.vc)]

/-- `dc.insert({d[0], d[1]})` is the overload that takes a list of dots, since a JSON value converts
to a dot: both parts of an element are read as dots themselves. -/
def insertElem (dc : SortedSet Dot) (d : Json) : Decode (SortedSet Dot) := do
  let d0 ← Dot.ofJson (← d.elem 0)
  let d1 ← Dot.ofJson (← d.elem 1)
  return (dc.insert d0).insert d1

def fromJson (c : DotContext) (j : Json) : Decode DotContext := do
  let vc ← (← j.member "vc").getMap Json.getLong
  let dc ← (← j.member "dc").elements.foldlM insertElem c.dc
  return ⟨vc, dc⟩

end DotContext

namespace ShoppingList

def toJson (l : ShoppingList) : Json :=
  .obj [("id", .str l.id),
    ("items", .obj [("context", l.items.context.toJson),
      ("map", .ofMap (fun cell => .ofPairMap Dot.toJson .int cell.values) l.items.map)]),
    ("title", .str l.title),
    ("url", .str l.url)]

/-- One iteration of the loop over the encoded items. -/
def readItem (map : SortedMap String Cell) (item : String × Json) :
    Decode (SortedMap String Cell) := do
  let values ← item.2.getPairMap Dot.ofJson Json.getInt
  return map.set item.1 ⟨some ∅, values⟩

/-- `temp.items` after the items of `j` have been read. -/
def readItems (j : Json) : Decode (ORMap String) :=
  match j.objectAt "items" with
  | none => return ∅
  | some items => do
    let context ← match items.objectAt "context" with
      | none => pure ∅
      | some c => DotContext.fromJson ∅ c
    let map ← match items.objectAt "map" with
      | none => pure ∅
      | some m => m.members.foldlM readItem ∅
    return ⟨map, context⟩

/-- `from_json(j, u)`: the list `u` afterwards, or none where the behaviour is undefined. The id,
title and url are assigned before the items are read, and stay when an exception ends the reading. -/
def fromJson (j : Json) (u : ShoppingList) : Option ShoppingList :=
  if j.empty then some u
  else match j with
  | .str "" => some u
  | j =>
    let id := (j.stringAt "id").getD ""
    let title := (j.stringAt "title").getD ""
    let url := (j.stringAt "url").getD ""
    match readItems j with
    | .ok items => some (ShoppingList.join ⟨id, title, url, u.items⟩ ⟨id, title, url, items⟩).2
    | .error .exception => some ⟨id, title, url, u.items⟩
    | .error .undefined => none

end ShoppingList

end ShoppingApp
