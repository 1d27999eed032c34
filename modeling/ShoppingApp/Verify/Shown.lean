import ShoppingApp.Database

/-!
# What a stored value shows

`from_json` refuses a value as a whole if one part of it cannot be read, and what `to_json` writes
of a dot cloud is refused. `ShoppingList.shown` says what is stored in a JSON value whether
`from_json` takes it or not: every entry of a clock, of a dot cloud and of an item's values that can
be read by itself. An encoded list shows itself (`shown_toJson`), and a value that `from_json` takes
shows what it reads (`readItems_eq_detach`).
-/

namespace ShoppingApp

namespace DotContext

/-- The dots in an element of a dot cloud: itself, as `toJson` writes it, or its first two elements,
as `fromJson` reads it. -/
def shownDots (j : Json) : List Dot :=
  match Dot.ofJson j with
  | .ok d => [d]
  | .error _ =>
    match j with
    | .arr elems => Json.readable Dot.ofJson (elems.take 2)
    | _ => []

def shown (j : Json) : DotContext :=
  ⟨((j.find? "vc").getD .null).showMap Json.getLong,
    (((j.find? "dc").getD .null).elements.flatMap shownDots).foldl SortedSet.insert ∅⟩

/-- What `insertElem` reads of an element are the dots it shows. -/
theorem insertElem_eq {dc dc' : SortedSet Dot} {j : Json} (h : insertElem dc j = .ok dc') :
    dc' = (shownDots j).foldl SortedSet.insert dc := by
  obtain ⟨j0, hj0, h⟩ := Decode.bind_eq_ok h
  obtain ⟨d0, hd0, h⟩ := Decode.bind_eq_ok h
  obtain ⟨j1, hj1, h⟩ := Decode.bind_eq_ok h
  obtain ⟨d1, hd1, h⟩ := Decode.bind_eq_ok h
  cases h
  cases j with
  | arr elems =>
    match elems, hj0, hj1 with
    | _ :: _ :: rest, rfl, rfl =>
      -- an element that begins with a dot is no dot
      have hno : Dot.ofJson (.arr (j0 :: j1 :: rest)) = .error .exception := by
        cases j0 <;> first | rfl | cases hd0
      have hreadable : Json.readable Dot.ofJson [j0, j1] = [d0, d1] := by
        unfold Json.readable
        rw [List.filterMap_cons, hd0, List.filterMap_cons, hd1]
        rfl
      simp only [shownDots, hno, List.take_succ_cons, List.take_zero, hreadable]
      rfl
  | _ => cases hj0

theorem foldlM_insertElem : ∀ {js : List Json} {dc dc' : SortedSet Dot},
    js.foldlM insertElem dc = .ok dc' → dc' = (js.flatMap shownDots).foldl SortedSet.insert dc
  | [], dc, dc', h => by cases h; rfl
  | j :: js, dc, dc', h => by
    rw [List.foldlM_cons] at h
    obtain ⟨dc₁, hj, h⟩ := Decode.bind_eq_ok h
    rw [List.flatMap_cons, List.foldl_append, ← insertElem_eq hj]
    exact foldlM_insertElem h

/-- A context that can be read is the one shown. -/
theorem shown_of_fromJson {j : Json} {c : DotContext} (h : fromJson ∅ j = .ok c) : shown j = c := by
  have hmember : ∀ {key v}, j.member key = .ok v → j.find? key = some v := by
    intro key v hv
    cases j with
    | obj members =>
      unfold Json.member at hv
      unfold Json.find?
      dsimp only [Json.members] at hv ⊢
      split at hv
      · rename_i hfind
        cases hv
        exact hfind
      · cases hv
    | _ => cases hv
  obtain ⟨jvc, hvc, h⟩ := Decode.bind_eq_ok h
  obtain ⟨vc, hmap, h⟩ := Decode.bind_eq_ok h
  obtain ⟨jdc, hdc, h⟩ := Decode.bind_eq_ok h
  obtain ⟨dc, hfold, h⟩ := Decode.bind_eq_ok h
  cases h
  rw [shown, hmember hvc, hmember hdc, Option.getD_some, Option.getD_some,
    Json.showMap_of_getMap hmap, foldlM_insertElem hfold]
  rfl

theorem shown_toJson (c : DotContext) : shown c.toJson = c := by
  have hvc : (Json.ofMap .int c.vc).showMap Json.getLong = c.vc :=
    Json.showMap_of_getMap c.getMap_vc
  have hdots : (c.dc.elems.map Dot.toJson).flatMap shownDots = c.dc.elems := by
    rw [List.flatMap_map]
    exact List.flatMap_singleton' c.dc.elems
  have hdc : c.dc.elems.foldl SortedSet.insert ∅ = c.dc := by
    refine SortedSet.ext_mem fun d => ?_
    rw [SortedSet.mem_foldl_insert]
    exact or_iff_right (List.not_mem_nil)
  change (⟨(Json.ofMap .int c.vc).showMap Json.getLong,
    ((c.dc.elems.map Dot.toJson).flatMap shownDots).foldl SortedSet.insert ∅⟩ : DotContext) = c
  rw [hvc, hdots, hdc]

end DotContext

namespace ShoppingList

def showItem (map : SortedMap String Cell) (item : String × Json) : SortedMap String Cell :=
  map.set item.1 ⟨none, item.2.showPairMap Dot.ofJson Json.getInt⟩

def shownItems (j : Json) : ORMap String :=
  match j.objectAt "items" with
  | none => ∅
  | some items =>
    ⟨((items.objectAt "map").getD .null).members.foldl showItem ∅,
      DotContext.shown ((items.objectAt "context").getD .null)⟩

/-- The list that is stored in a value. -/
def shown (j : Json) : ShoppingList :=
  ⟨(j.stringAt "id").getD "", (j.stringAt "title").getD "", (j.stringAt "url").getD "",
    shownItems j⟩

theorem shownItems_of_skipped {j : Json} (h : Skipped j) : shownItems j = ∅ := by
  rcases h with h | rfl
  · cases j with
    | obj members =>
      cases members with
      | nil => rfl
      | cons e members => cases h
    | _ => rfl
  · rfl

theorem foldlM_readItem_eq : ∀ {es : List (String × Json)} {shown read map : SortedMap String Cell},
    es.foldlM readItem read = .ok map →
      (read = shown.mapVal fun _ cell => ⟨some ∅, cell.values⟩) →
      map = (es.foldl showItem shown).mapVal fun _ cell => ⟨some ∅, cell.values⟩
  | [], shown, read, map, h, hread => by cases h; exact hread
  | e :: es, shown, read, map, h, hread => by
    rw [List.foldlM_cons] at h
    cases hvalues : e.2.getPairMap Dot.ofJson Json.getInt with
    | error err =>
      rw [readItem, hvalues] at h
      cases h
    | ok values =>
      rw [readItem, hvalues] at h
      refine @foldlM_readItem_eq es _ _ _ h (SortedMap.ext_find fun name => ?_)
      rw [SortedMap.find?_mapVal, showItem, SortedMap.find?_set, SortedMap.find?_set,
        Json.showPairMap_of_getPairMap hvalues, hread, SortedMap.find?_mapVal]
      split_ifs <;> rfl

/-- What is read of the items and their context, if that goes well. -/
theorem readItems_eq_ok {j jitems : Json} {items : ORMap String} (h : readItems j = .ok items)
    (hitems : j.objectAt "items" = some jitems) :
    items.context = DotContext.shown ((jitems.objectAt "context").getD .null) ∧
    ((jitems.objectAt "map").getD .null).members.foldlM readItem ∅ = .ok items.map := by
  unfold readItems at h
  cases hc : jitems.objectAt "context" with
  | none =>
    cases hm : jitems.objectAt "map" with
    | none =>
      simp only [hitems, hc, hm, pure_bind] at h
      cases h
      exact ⟨rfl, rfl⟩
    | some m =>
      simp only [hitems, hc, hm, pure_bind] at h
      obtain ⟨map, hmap, h⟩ := Decode.bind_eq_ok h
      cases h
      exact ⟨rfl, hmap⟩
  | some c =>
    cases hm : jitems.objectAt "map" with
    | none =>
      simp only [hitems, hc, hm, pure_bind] at h
      obtain ⟨context, hcontext, h⟩ := Decode.bind_eq_ok h
      cases h
      exact ⟨(DotContext.shown_of_fromJson hcontext).symm, rfl⟩
    | some m =>
      simp only [hitems, hc, hm] at h
      obtain ⟨context, hcontext, h⟩ := Decode.bind_eq_ok h
      obtain ⟨map, hmap, h⟩ := Decode.bind_eq_ok h
      cases h
      exact ⟨(DotContext.shown_of_fromJson hcontext).symm, hmap⟩

/-- **A value that can be read shows what is read**, but for the contexts of the counters. -/
theorem readItems_eq_detach {j : Json} {items : ORMap String} (h : readItems j = .ok items) :
    items = detach (shownItems j) := by
  cases hitems : j.objectAt "items" with
  | none =>
    unfold readItems at h
    rw [hitems] at h
    cases h
    rw [shownItems, hitems]
    rfl
  | some jitems =>
    obtain ⟨hcontext, hmap⟩ := readItems_eq_ok h hitems
    have hmap : items.map = (((jitems.objectAt "map").getD .null).members.foldl showItem ∅).mapVal
        fun _ cell => ⟨some ∅, cell.values⟩ := foldlM_readItem_eq hmap rfl
    unfold detach shownItems
    simp only [hitems]
    rw [← hmap, ← hcontext]

/-- **An encoded list shows itself**, its dot cloud too. -/
theorem shown_toJson {l : ShoppingList} (h : l.items.Shared) : shown l.toJson = l := by
  have hcell : ∀ (map : SortedMap String Cell) (e : String × Cell),
      showItem map (e.1, .ofPairMap Dot.toJson .int e.2.values) =
        map.set e.1 ⟨none, e.2.values⟩ := by
    intro map e
    have hvalues : (Json.ofPairMap Dot.toJson .int e.2.values).showPairMap Dot.ofJson Json.getInt =
        e.2.values :=
      Json.showPairMap_of_getPairMap
        (Json.getPairMap_ofPairMap _ _ .int Json.getInt Dot.ofJson_toJson (fun _ => rfl) _)
    rw [showItem, hvalues]
  have hmap : (l.items.map.entries.map fun e => (e.1, Json.ofPairMap Dot.toJson .int e.2.values)
      ).foldl showItem ∅ = l.items.map := by
    rw [List.foldl_map]
    simp only [hcell]
    rw [SortedMap.foldl_set_entries (fun _ (cell : Cell) => Cell.mk none cell.values)]
    refine SortedMap.ext_find fun name => ?_
    rw [SortedMap.find?_mapVal]
    cases hfind : l.items.map.find? name with
    | none => rfl
    | some cell =>
      obtain ⟨own, values⟩ := cell
      obtain rfl : own = none := h hfind
      rfl
  change (⟨l.id, l.title, l.url, ⟨(l.items.map.entries.map fun e =>
    (e.1, Json.ofPairMap Dot.toJson .int e.2.values)).foldl showItem ∅,
      DotContext.shown l.items.context.toJson⟩⟩ : ShoppingList) = l
  rw [hmap, DotContext.shown_toJson]

/-- Decoding keeps all that a value shows, if its items can be read. -/
theorem keeps_of_fromJson {j : Json} {l : ShoppingList} {items : ORMap String}
    (hread : readItems j = .ok items) (h : fromJson j blank = some l) (r : ShoppingList) :
    Keeps r (shown j) l := by
  rcases fromJson_cases h with ⟨hskip, rfl⟩ | ⟨-, -, ⟨items', hread', hitems⟩ | ⟨hread', -⟩⟩
  · exact (Keeps.refl r (shown j)).congr (shownItems_of_skipped hskip).symm
  · have hjoin : l.items = (∅ : ORMap String).join (detach (shownItems j)) := by
      rw [hitems, readItems_eq_detach hread']
      rfl
    refine ⟨fun d hd => ?_, fun name d v hv => .inl ?_⟩
    · rw [hjoin, ORMap.join_context]
      exact DotContext.contains_join_of_or (.inr hd)
    · have hv : (detach (shownItems j)).live name d = some v := (live_detach _ _ _).trans hv
      rw [hjoin, ORMap.Shared.empty.live_join_contextAt, hv]
      rfl
  · rw [hread] at hread'
    cases hread'

/-- Nothing is left of a value whose items cannot be read, but its title and url. -/
theorem fromJson_of_throws {j : Json} {l : ShoppingList} (hread : readItems j = .error .exception)
    (h : fromJson j blank = some l) :
    l.title = (shown j).title ∧ l.url = (shown j).url ∧ l.items = ∅ := by
  rcases fromJson_cases h with ⟨hskip, -⟩ | ⟨-, ⟨htitle, hurl⟩, ⟨items, hread', -⟩ | ⟨-, hitems⟩⟩
  · rw [readItems_of_skipped hskip] at hread
    cases hread
  · rw [hread] at hread'
    cases hread'
  · exact ⟨htitle, hurl, hitems⟩

end ShoppingList

namespace Database

/-- The list that is stored under a url, whether it can be decoded or not. -/
def shown (db : Database) (url : String) : ShoppingList := ShoppingList.shown (get db url)

theorem shown_set_self (db : Database) (url : String) {l : ShoppingList} (hl : l.items.Shared) :
    shown (db.set url l.toJson) url = l := by
  rw [shown, get_set_self, ShoppingList.shown_toJson hl]

theorem shown_set_ne (db : Database) {url url' : String} (j : Json) (h : url' ≠ url) :
    shown (db.set url j) url' = shown db url' := by
  unfold shown get
  rw [SortedMap.find?_set_ne _ _ h]

end Database

end ShoppingApp
