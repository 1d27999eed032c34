import ShoppingApp.Verify.ShoppingList
import ShoppingApp.Crdt.Codec

/-!
# The codec is exact

Decoding the JSON of a well-formed list into a new list gives that list back (`fromJson_toJson`):
the join into the empty list keeps every dot, since the contexts of the decoded counters are empty,
and merges the decoded context last. Every list that operations and joins can make is well formed
(`Reachable.wf`), so it survives the round trip (`json_round_trip`).
-/

namespace ShoppingApp

theorem Dot.ofJson_toJson (d : Dot) : Dot.ofJson d.toJson = .ok d := rfl

theorem DotContext.getMap_vc (c : DotContext) :
    (Json.ofMap .int c.vc).getMap Json.getLong = .ok c.vc :=
  Json.getMap_ofMap .int Json.getLong (fun _ => rfl) c.vc

theorem DotContext.fromJson_toJson {c : DotContext} (h : c.dc = ∅) :
    DotContext.fromJson ∅ c.toJson = .ok c := by
  have hvc := c.getMap_vc
  obtain ⟨vc, dc⟩ := c
  subst h
  change (do
    let vc ← (Json.ofMap .int vc).getMap Json.getLong
    return (⟨vc, ∅⟩ : DotContext) : Decode DotContext) = _
  rw [hvc]
  rfl

/-- A dot cloud is written as dots and read as pairs of dots. -/
theorem DotContext.fromJson_toJson_cloud {c : DotContext} (h : c.dc ≠ ∅) :
    DotContext.fromJson ∅ c.toJson = .error .exception := by
  have hvc := c.getMap_vc
  obtain ⟨vc, ⟨elems, sorted⟩⟩ := c
  cases elems with
  | nil => exact absurd rfl h
  | cons d ds =>
    have hfold : (((d :: ds).map Dot.toJson).foldlM insertElem (∅ : SortedSet Dot)) =
        .error .exception := by
      rw [List.map_cons, List.foldlM_cons]
      rfl
    change (do
      let vc ← (Json.ofMap .int vc).getMap Json.getLong
      let dc ← ((d :: ds).map Dot.toJson).foldlM insertElem (∅ : SortedSet Dot)
      return (⟨vc, dc⟩ : DotContext) : Decode DotContext) = _
    rw [hvc, hfold]
    rfl

namespace ShoppingList

/-- The items of the temporary list: each counter has its own empty context. -/
def detach (items : ORMap String) : ORMap String :=
  ⟨items.map.mapVal fun _ cell => ⟨some ∅, cell.values⟩, items.context⟩

theorem foldlM_readItem (es : List (String × Cell)) : ∀ map : SortedMap String Cell,
    (es.map fun e => (e.1, Json.ofPairMap Dot.toJson .int e.2.values)).foldlM readItem map =
      .ok (es.foldl (fun map e => map.set e.1 ⟨some ∅, e.2.values⟩) map) := by
  induction es with
  | nil => intro map; rfl
  | cons e es ih =>
    intro map
    have hvalues : (Json.ofPairMap Dot.toJson .int e.2.values).getPairMap Dot.ofJson Json.getInt =
        .ok e.2.values :=
      Json.getPairMap_ofPairMap _ _ .int Json.getInt Dot.ofJson_toJson (fun _ => rfl) _
    have hitem : readItem map (e.1, Json.ofPairMap Dot.toJson .int e.2.values) =
        .ok (map.set e.1 ⟨some ∅, e.2.values⟩) := by
      unfold readItem
      rw [hvalues]
      rfl
    rw [List.map_cons, List.foldlM_cons, hitem]
    exact ih _

theorem readItems_toJson_eq (l : ShoppingList) :
    readItems l.toJson = (do
      let context ← DotContext.fromJson ∅ l.items.context.toJson
      return ⟨l.items.map.mapVal fun _ cell => ⟨some ∅, cell.values⟩, context⟩) := by
  have hmap : (l.items.map.entries.map fun e => (e.1, Json.ofPairMap Dot.toJson .int e.2.values)
      ).foldlM readItem ∅ = .ok (l.items.map.mapVal fun _ cell => ⟨some ∅, cell.values⟩) := by
    rw [foldlM_readItem]
    exact congrArg Except.ok
      (SortedMap.foldl_set_entries (fun _ (cell : Cell) => Cell.mk (some ∅) cell.values) _)
  change (do
    let context ← DotContext.fromJson ∅ l.items.context.toJson
    let map ← (l.items.map.entries.map fun e => (e.1, Json.ofPairMap Dot.toJson .int e.2.values)
      ).foldlM readItem ∅
    pure (⟨map, context⟩ : ORMap String) : Decode (ORMap String)) = _
  rw [hmap]
  rfl

theorem readItems_toJson {l : ShoppingList} (h : l.WF) :
    readItems l.toJson = .ok (detach l.items) := by
  rw [readItems_toJson_eq, DotContext.fromJson_toJson h.cloud]
  rfl

/-- Reading what was written throws at worst. -/
theorem readItems_toJson_ne_undefined (l : ShoppingList) :
    readItems l.toJson ≠ .error .undefined := by
  intro h
  rw [readItems_toJson_eq] at h
  by_cases hdc : l.items.context.dc = ∅
  · rw [DotContext.fromJson_toJson hdc] at h
    cases h
  · rw [DotContext.fromJson_toJson_cloud hdc] at h
    cases h

theorem find?_detach (items : ORMap String) (name : String) : (detach items).map.find? name =
    (items.map.find? name).map fun cell => ⟨some ∅, cell.values⟩ :=
  SortedMap.find?_mapVal _ _ _

theorem live_detach (items : ORMap String) (name : String) (d : Dot) :
    (detach items).live name d = items.live name d := by
  unfold ORMap.live ORMap.cellAt
  rw [find?_detach]
  cases items.map.find? name <;> rfl

theorem empty_join_detach {m : ORMap String} (h : m.WF) (hc : DotContext.Compacted m.context) :
    (∅ : ORMap String).join (detach m) = m :=
  h.empty_join_eq hc (fun name => by rw [find?_detach, Option.isSome_map]) (live_detach m) rfl

/-- The temporary list always merges: it has the header just read. -/
theorem join_read (id title url : String) (items read : ORMap String) :
    ShoppingList.join ⟨id, title, url, items⟩ ⟨id, title, url, read⟩ =
      (true, ⟨id, title, url, items.join read⟩) :=
  join_of_header_eq rfl rfl

/-- Decoding an encoded list: its header, and its items joined in unless reading them throws. -/
theorem fromJson_toJson_eq (l u : ShoppingList) :
    fromJson l.toJson u = match readItems l.toJson with
      | .ok items => some ⟨l.id, l.title, l.url, u.items.join items⟩
      | .error .exception => some ⟨l.id, l.title, l.url, u.items⟩
      | .error .undefined => none := by
  change (match readItems l.toJson with
    | .ok items => some (ShoppingList.join ⟨l.id, l.title, l.url, u.items⟩
        ⟨l.id, l.title, l.url, items⟩).2
    | .error .exception => some ⟨l.id, l.title, l.url, u.items⟩
    | .error .undefined => none) = _
  simp only [join_read]

/-- **Decoding undoes encoding**, on any list that was constructed and not yet used. -/
theorem WF.fromJson_toJson {l : ShoppingList} (h : l.WF) (id title url : String) :
    fromJson l.toJson (ShoppingList.new id title url) = some l := by
  have hitems : (ShoppingList.new id title url).items.join (detach l.items) = l.items :=
    empty_join_detach h.items h.compacted
  rw [fromJson_toJson_eq, readItems_toJson h]
  dsimp only
  rw [hitems]

/-! ## Decoding anything -/

/-- `from_json` leaves the list alone. -/
def Skipped (j : Json) : Prop := j.empty = true ∨ j = .str ""

theorem fromJson_of_skipped {j : Json} (h : Skipped j) (u : ShoppingList) :
    fromJson j u = some u := by
  unfold fromJson
  rcases h with hempty | rfl
  · exact if_pos hempty
  · rfl

theorem fromJson_of_read {j : Json} (h : ¬ Skipped j) (u : ShoppingList) :
    fromJson j u = match readItems j with
      | .ok items => some (ShoppingList.join
          ⟨(j.stringAt "id").getD "", (j.stringAt "title").getD "", (j.stringAt "url").getD "",
            u.items⟩
          ⟨(j.stringAt "id").getD "", (j.stringAt "title").getD "", (j.stringAt "url").getD "",
            items⟩).2
      | .error .exception => some ⟨(j.stringAt "id").getD "", (j.stringAt "title").getD "",
          (j.stringAt "url").getD "", u.items⟩
      | .error .undefined => none := by
  unfold fromJson
  rw [if_neg fun hempty => h (.inl hempty)]
  split
  · exact absurd (.inr rfl) h
  · rfl

theorem readItems_of_skipped {j : Json} (h : Skipped j) : readItems j = .ok ∅ := by
  rcases h with h | rfl
  · cases j with
    | null => rfl
    | arr elems => rfl
    | obj members =>
      cases members with
      | nil => rfl
      | cons e members => cases h
    | _ => cases h
  · rfl

/-- Decoding ends unless reading the items is undefined. -/
theorem fromJson_isSome_iff (j : Json) (u : ShoppingList) :
    (fromJson j u).isSome = true ↔ readItems j ≠ .error .undefined := by
  by_cases hskip : Skipped j
  · rw [readItems_of_skipped hskip, fromJson_of_skipped hskip]
    exact ⟨fun _ => nofun, fun _ => rfl⟩
  · rw [fromJson_of_read hskip]
    cases readItems j with
    | ok items => exact ⟨fun _ => nofun, fun _ => rfl⟩
    | error e =>
      cases e with
      | exception => exact ⟨fun _ => nofun, fun _ => rfl⟩
      | undefined => exact ⟨nofun, fun h => absurd rfl h⟩

/-- What decoding makes of a list: nothing of a value it skips; else the header is read, and the
items are joined in unless reading them throws. -/
theorem fromJson_cases {j : Json} {u l : ShoppingList} (h : fromJson j u = some l) :
    (Skipped j ∧ l = u) ∨
    (¬ Skipped j ∧ (l.title = (j.stringAt "title").getD "" ∧ l.url = (j.stringAt "url").getD "") ∧
      ((∃ items, readItems j = .ok items ∧ l.items = u.items.join items) ∨
        readItems j = .error .exception ∧ l.items = u.items)) := by
  by_cases hskip : Skipped j
  · rw [fromJson_of_skipped hskip] at h
    cases h
    exact .inl ⟨hskip, rfl⟩
  · refine .inr ⟨hskip, ?_⟩
    rw [fromJson_of_read hskip] at h
    split at h
    · rename_i items hitems
      rw [join_read] at h
      cases h
      exact ⟨⟨rfl, rfl⟩, .inl ⟨items, hitems, rfl⟩⟩
    · rename_i hitems
      cases h
      exact ⟨⟨rfl, rfl⟩, .inr ⟨hitems, rfl⟩⟩
    · cases h

/-- The counters of a decoded list refer to its context, whatever was decoded. -/
theorem fromJson_shared {j : Json} {u l : ShoppingList} (h : fromJson j u = some l)
    (hu : u.items.Shared) : l.items.Shared := by
  rcases fromJson_cases h with ⟨-, rfl⟩ | ⟨-, -, ⟨items, -, hitems⟩ | ⟨-, hitems⟩⟩
  · exact hu
  · rw [hitems]
    exact ORMap.Shared.join hu items
  · rw [hitems]
    exact hu

/-- An encoded list decodes with its title and url, whatever its items. -/
theorem exists_fromJson_toJson (l u : ShoppingList) :
    ∃ o, fromJson l.toJson u = some o ∧ o.title = l.title ∧ o.url = l.url := by
  rw [fromJson_toJson_eq]
  split
  · exact ⟨_, rfl, rfl, rfl⟩
  · exact ⟨_, rfl, rfl, rfl⟩
  · rename_i hundefined
    exact absurd hundefined (readItems_toJson_ne_undefined l)

/-! ## Reachable lists -/

/-- The lists that operations and joins make from lists without items. -/
inductive Reachable : ShoppingList → Prop
  | new (id title url : String) : Reachable (ShoppingList.new id title url)
  | perform {l : ShoppingList} (op : Op) (h : Reachable l) : Reachable (l.perform op).2
  | join {l o : ShoppingList} (h : Reachable l) (h' : Reachable o) : Reachable (l.join o).2

theorem Reachable.wf {l : ShoppingList} (h : Reachable l) : l.WF := by
  induction h with
  | new id title url => exact WF.new id title url
  | perform op _ ih => exact ih.perform op
  | join _ _ ihl iho => exact ihl.join iho

/-- An operation or a join with another list. -/
inductive Action
  | perform (op : Op)
  | join (o : ShoppingList)

/-- The list after a sequence of actions, with what each of them returned. -/
def act : List Action → ShoppingList → List Bool × ShoppingList
  | [], l => ([], l)
  | .perform op :: actions, l =>
    let r := l.perform op
    let rest := act actions r.2
    (r.1 :: rest.1, rest.2)
  | .join o :: actions, l =>
    let r := l.join o
    let rest := act actions r.2
    (r.1 :: rest.1, rest.2)

/-- **JSON round trip.** A reachable list, encoded and decoded into a new list, is the same list
with the same id; its counters refer to its own context; and whatever is done with it later gives
what it gives on the original. -/
theorem json_round_trip {l : ShoppingList} (h : Reachable l) (id title url : String) :
    ∃ u, fromJson l.toJson (ShoppingList.new id title url) = some u ∧
      u.Eqv l ∧ u.id = l.id ∧
      (∀ name cell, u.items.map.find? name = some cell → cell.own = none) ∧
      ∀ actions, act actions u = act actions l := by
  have hwf := h.wf
  refine ⟨l, hwf.fromJson_toJson id title url, ⟨rfl, rfl, ORMap.eqv_refl _⟩, rfl, ?_, ?_⟩
  · intro name cell hcell
    exact hwf.items.shared hcell
  · intro actions
    rfl

/-- A list that keeps an item whose dots a join has removed. -/
theorem json_round_trip_removed :
    let other := ((ShoppingList.new "user2" "title" "url").perform (.createItem "apple" 20)).2
    let emptied := (other.perform (.removeItem "apple")).2
    let l := ((((ShoppingList.new "user1" "title" "url").join other).2).join emptied).2
    (l.items.map.find? "apple" = some ⟨none, ∅⟩) ∧
      ∃ u, fromJson l.toJson ShoppingList.blank = some u ∧ u.Eqv l ∧ u.id = l.id ∧
        (∀ name cell, u.items.map.find? name = some cell → cell.own = none) ∧
        ∀ actions, act actions u = act actions l := by
  have hother := (Reachable.new "user2" "title" "url").perform (.createItem "apple" 20)
  have hl := ((Reachable.new "user1" "title" "url").join hother).join
    (hother.perform (.removeItem "apple"))
  exact ⟨by decide, json_round_trip hl "" "" ""⟩

end ShoppingList

end ShoppingApp
