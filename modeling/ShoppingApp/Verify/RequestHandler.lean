import ShoppingApp.Worker.RequestHandler
import ShoppingApp.Verify.Shown

/-!
# What the worker's store keeps

`handleRequest_store` is what a request that brings a well-formed list does to any store; on a store
of encoded lists it is answered and changes the store as `storeAfter` says. An update keeps what is
stored if `from_json` can read it, and puts the list it brings in its place if not; CREATE_LIST
always does the latter (`handleRequest_keeps_iff`).
-/

namespace ShoppingApp

open DotContext

namespace RequestHandler

/-- A request of the given type whose frames bring list `r`. -/
def Carries (text : JsonText) (request : String) (msg : ZMsg) (r : ShoppingList) : Prop :=
  (request = "CREATE_LIST" → ∃ list_name body rest, msg = list_name :: body :: rest ∧
    text.getJsonFromUString body = some r.toJson) ∧
  (request = "UPDATE_LIST" → ∃ body rest, msg = body :: rest ∧
    text.getJsonFromUString body = some r.toJson)

/-- The list an update stores. -/
def merged (db : Database) (url_list : String) (r : ShoppingList) : ShoppingList :=
  ((Database.list db url_list).join r).2

/-- The store after a request that brings list `r`. -/
def storeAfter (url_list request : String) (r : ShoppingList) (db : Database) : Database :=
  if request = "CREATE_LIST" then db.set r.url (r.setId "").toJson
  else if request = "UPDATE_LIST" then db.set url_list (merged db url_list r).toJson
  else db

theorem createList_toJson {r : ShoppingList} (hr : r.WF) (db : Database) :
    createList r.toJson db = some ((r.setId "").toJson, db.set r.url (r.setId "").toJson) := by
  unfold createList ShoppingList.blank
  rw [hr.fromJson_toJson]
  rfl

/-- An update stores the join of what the stored value and the received one decode to. -/
theorem updateList_eq {r : ShoppingList} (hr : r.WF) (url_list : String) (db : Database) :
    updateList url_list r.toJson db =
      (ShoppingList.fromJson (Database.get db url_list) ShoppingList.blank).map fun l =>
        ((l.join r).2.toJson, db.set url_list (l.join r).2.toJson) := by
  have hreceived : ShoppingList.fromJson r.toJson ShoppingList.blank = some r :=
    hr.fromJson_toJson "" "" ""
  unfold updateList
  rw [hreceived]
  cases ShoppingList.fromJson (Database.get db url_list) ShoppingList.blank <;> rfl

/-- **What a request does to a store**, whatever is stored. -/
theorem handleRequest_store {text : JsonText} (url_list : String) {request : String} {msg : ZMsg}
    {r : ShoppingList} (db : Database) (hr : r.WF) (hc : Carries text request msg r) :
    (handleRequest text url_list request msg db).map Prod.snd =
      if request = "CREATE_LIST" then some (db.set r.url (r.setId "").toJson)
      else if request = "UPDATE_LIST" then
        (ShoppingList.fromJson (Database.get db url_list) ShoppingList.blank).map fun l =>
          db.set url_list (l.join r).2.toJson
      else some db := by
  unfold handleRequest
  by_cases hcreate : request = "CREATE_LIST"
  · obtain ⟨list_name, body, rest, rfl, hbody⟩ := hc.1 hcreate
    simp only [hcreate, if_true, hbody]
    rw [Option.bind_eq_bind, Option.bind_some, createList_toJson hr]
    rfl
  · rw [if_neg hcreate, if_neg hcreate]
    by_cases hget : request = "GET_LIST"
    · have hupdate : request ≠ "UPDATE_LIST" := by rw [hget]; decide
      rw [if_pos hget, if_neg hupdate]
      rfl
    · rw [if_neg hget]
      by_cases hupdate : request = "UPDATE_LIST"
      · obtain ⟨body, rest, rfl, hbody⟩ := hc.2 hupdate
        rw [if_pos hupdate, if_pos hupdate]
        simp only [hbody]
        rw [Option.bind_eq_bind, Option.bind_some, updateList_eq hr]
        cases ShoppingList.fromJson (Database.get db url_list) ShoppingList.blank <;> rfl
      · rw [if_neg hupdate, if_neg hupdate]
        rfl

theorem updateList_of_get {r l : ShoppingList} (hr : r.WF) {db : Database} {url_list : String}
    (hget : ShoppingList.fromJson (Database.get db url_list) ShoppingList.blank = some l) :
    updateList url_list r.toJson db =
      some ((l.join r).2.toJson, db.set url_list (l.join r).2.toJson) := by
  rw [updateList_eq hr, hget]
  rfl

theorem updateList_toJson {r : ShoppingList} (hr : r.WF) {db : Database} (hdb : db.WF)
    (url_list : String) :
    updateList url_list r.toJson db =
      some ((merged db url_list r).toJson, db.set url_list (merged db url_list r).toJson) :=
  updateList_of_get hr (hdb.fromJson_get url_list)

/-- **Requests that carry well-formed lists are answered.** -/
theorem handleRequest_carries {text : JsonText} (url_list : String) {request : String} {msg : ZMsg}
    {r : ShoppingList} {db : Database} (hdb : db.WF) (hr : r.WF)
    (hc : Carries text request msg r) :
    ∃ res, handleRequest text url_list request msg db =
      some (res, storeAfter url_list request r db) := by
  have hstore : (handleRequest text url_list request msg db).map Prod.snd =
      some (storeAfter url_list request r db) := by
    rw [handleRequest_store url_list db hr hc, hdb.fromJson_get]
    unfold storeAfter
    split_ifs <;> rfl
  obtain ⟨⟨res, db'⟩, hres, rfl⟩ := Option.map_eq_some_iff.1 hstore
  exact ⟨res, hres⟩

/-- What a request publishes is the text of what is stored under its url afterwards. -/
theorem handleRequest_shows {text : JsonText} {url_list request : String} {msg : ZMsg}
    {r : ShoppingList} {db db' : Database} {res : Response} (hdb : db.WF) (hr : r.WF)
    (hc : Carries text request msg r) (hurl : request = "CREATE_LIST" → r.url = url_list)
    (h : handleRequest text url_list request msg db = some (res, db')) :
    db' = storeAfter url_list request r db ∧ (res.shopping_list ≠ "" →
      ∃ j, db'.find? url_list = some j ∧ res.shopping_list = text.getStringFromJson j) := by
  unfold handleRequest at h
  unfold storeAfter
  by_cases hcreate : request = "CREATE_LIST"
  · obtain ⟨list_name, body, rest, rfl, hbody⟩ := hc.1 hcreate
    rw [if_pos hcreate] at h ⊢
    simp only [hbody] at h
    rw [Option.bind_eq_bind, Option.bind_some, createList_toJson hr] at h
    cases h
    refine ⟨rfl, fun _ => ⟨_, ?_, rfl⟩⟩
    rw [← hurl hcreate]
    exact SortedMap.find?_set_self _ _ _
  · rw [if_neg hcreate] at h ⊢
    by_cases hget : request = "GET_LIST"
    · have hupdate : request ≠ "UPDATE_LIST" := by rw [hget]; decide
      rw [if_pos hget] at h
      rw [if_neg hupdate]
      cases h
      refine ⟨rfl, fun hne => ?_⟩
      unfold Database.get at hne ⊢
      cases hfind : db.find? url_list with
      | none =>
        rw [hfind] at hne
        exact absurd rfl hne
      | some j =>
        refine ⟨j, rfl, ?_⟩
        rw [hfind] at hne
        cases j <;> first | rfl | exact absurd rfl hne
    · rw [if_neg hget] at h
      by_cases hupdate : request = "UPDATE_LIST"
      · obtain ⟨body, rest, rfl, hbody⟩ := hc.2 hupdate
        rw [if_pos hupdate] at h ⊢
        simp only [hbody] at h
        rw [Option.bind_eq_bind, Option.bind_some, updateList_toJson hr hdb] at h
        cases h
        exact ⟨rfl, fun _ => ⟨_, SortedMap.find?_set_self _ _ _, rfl⟩⟩
      · rw [if_neg hupdate] at h ⊢
        cases h
        exact ⟨rfl, fun hne => absurd rfl hne⟩

/-! ## Nothing is lost, but by CREATE_LIST -/

theorem merged_wf {db : Database} (hdb : db.WF) (url_list : String) {r : ShoppingList}
    (hr : r.WF) : (merged db url_list r).WF :=
  (hdb.list url_list).join hr

theorem storeAfter_wf {db : Database} (hdb : db.WF) {r : ShoppingList} (hr : r.WF)
    (url_list request : String) : (storeAfter url_list request r db).WF := by
  unfold storeAfter
  split_ifs
  · exact hdb.set _ (hr.setId "")
  · exact hdb.set _ (merged_wf hdb url_list hr)
  · exact hdb

/-- What an update leaves of a value: all that it shows, if its items can be read; if not, the list
that the update brings, or none if the join refuses that. -/
theorem update_keeps_iff {r l : ShoppingList} {j : Json} (hr : r.WF)
    (hl : ShoppingList.fromJson j ShoppingList.blank = some l) :
    ShoppingList.Keeps r (ShoppingList.shown j) (l.join r).2 ↔
      (ShoppingList.readItems j = .error .exception →
        ShoppingList.Seen r (ShoppingList.shown j) ∧ ((ShoppingList.shown j).Matches r ∨
          ∀ d, (ShoppingList.shown j).items.context.contains d = false)) := by
  cases hread : ShoppingList.readItems j with
  | ok items =>
    have hshared : l.items.Shared := ShoppingList.fromJson_shared hl ORMap.Shared.empty
    exact ⟨fun _ => nofun, fun _ => (ShoppingList.keeps_of_fromJson hread hl r).trans
      (ShoppingList.keeps_join hshared hr.items.shared)⟩
  | error e =>
    cases e with
    | undefined =>
      exact absurd hread ((ShoppingList.fromJson_isSome_iff j _).1 (Option.isSome_of_eq_some hl))
    | exception =>
      obtain ⟨htitle, hurl, hitems⟩ := ShoppingList.fromJson_of_throws hread hl
      have hmatches : (ShoppingList.shown j).Matches r ↔ (l.join r).1 = true := by
        rw [ShoppingList.join_fst_iff, ShoppingList.Matches, ShoppingList.Matches, htitle, hurl]
      rw [hmatches]
      rcases ShoppingList.join_cases l r with ⟨hjoin, -⟩ | ⟨hjoin, -⟩
      · -- the join takes the list that the update brings as it is
        have hafter : (l.join r).2.items = r.items := by
          rw [hjoin, hitems]
          exact hr.items.empty_join hr.compacted
        rw [hjoin] at hafter ⊢
        refine ⟨fun h _ => ⟨hr.keeps_self_iff.1 (h.congr hafter.symm), .inl rfl⟩, fun h => ?_⟩
        exact (hr.keeps_self_iff.2 (h rfl).1).congr hafter
      · rw [hjoin]
        have hseen : ∀ d, ¬ l.items.context.contains d = true := by
          intro d
          rw [hitems]
          simp
        constructor
        · intro h _
          have hnone : ∀ d, (ShoppingList.shown j).items.context.contains d = false := fun d =>
            Bool.eq_false_iff.2 fun hd => hseen d (h.contains d hd)
          refine ⟨⟨fun d hd => absurd (h.contains d hd) (hseen d), fun name d v hv => ?_⟩,
            .inr hnone⟩
          rcases h.live name d v hv with hlive | hr'
          · rw [hitems] at hlive
            cases hlive
          · exact hr'
        · intro h
          obtain ⟨hr', hnone⟩ := h rfl
          have hnone := hnone.resolve_left Bool.false_ne_true
          refine ⟨fun d hd => ?_, fun name d v hv => .inr (hr'.live name d v hv)⟩
          rw [hnone d] at hd
          cases hd

theorem createList_keeps_iff {r : ShoppingList} (hr : r.WF) (db : Database) (u : String) :
    ShoppingList.Keeps r (Database.shown db u)
        (Database.shown (db.set r.url (r.setId "").toJson) u) ↔
      (r.url = u → ShoppingList.Seen r (Database.shown db u)) := by
  by_cases hu : u = r.url
  · subst hu
    rw [Database.shown_set_self db _ (hr.setId "").items.shared]
    exact ⟨fun h _ => hr.keeps_self_iff.1 (h.congr rfl), fun h =>
      (hr.keeps_self_iff.2 (h rfl)).congr rfl⟩
  · rw [Database.shown_set_ne db _ hu]
    exact ⟨fun _ hru => absurd hru.symm hu, fun _ => .refl r _⟩

theorem updateList_keeps_iff {r l : ShoppingList} {db : Database} {url_list : String} (hr : r.WF)
    (hl : ShoppingList.fromJson (Database.get db url_list) ShoppingList.blank = some l)
    (u : String) :
    ShoppingList.Keeps r (Database.shown db u)
        (Database.shown (db.set url_list (l.join r).2.toJson) u) ↔
      (url_list = u → ShoppingList.readItems (Database.get db u) = .error .exception →
        ShoppingList.Seen r (Database.shown db u) ∧ ((Database.shown db u).Matches r ∨
          ∀ d, (Database.shown db u).items.context.contains d = false)) := by
  by_cases hu : u = url_list
  · subst hu
    have hjoin : (l.join r).2.items.Shared :=
      ShoppingList.join_shared (ShoppingList.fromJson_shared hl ORMap.Shared.empty) r
    rw [Database.shown_set_self db _ hjoin]
    exact (update_keeps_iff hr hl).trans ⟨fun h _ => h, fun h => h rfl⟩
  · rw [Database.shown_set_ne db _ hu]
    exact ⟨fun _ h => absurd h.symm hu, fun _ => .refl r _⟩

/-- When a request keeps what is stored under url `u`: the update can read the value it is for as
far as that is defined; a CREATE_LIST for `u`, or an update of a value there whose items throw when
they are read, brings a list that has seen all that the value shows, and such an update matches the
value's title and url or finds an empty context. -/
structure KeepsStored (url_list request : String) (r : ShoppingList) (db : Database)
    (u : String) : Prop where
  defined : request = "UPDATE_LIST" →
    ShoppingList.readItems (Database.get db url_list) ≠ .error .undefined
  create : request = "CREATE_LIST" → r.url = u → ShoppingList.Seen r (Database.shown db u)
  update : request = "UPDATE_LIST" → url_list = u →
    ShoppingList.readItems (Database.get db u) = .error .exception →
      ShoppingList.Seen r (Database.shown db u) ∧ ((Database.shown db u).Matches r ∨
        ∀ d, (Database.shown db u).items.context.contains d = false)

/-- **A request is answered and keeps what is stored under a url**, on any store, exactly if it is
no CREATE_LIST for that url and no update of a value there that cannot be decoded, or the list it
brings has seen all that is stored (`KeepsStored`): both put that list in the place of what was
there, where any other update merges. -/
theorem handleRequest_keeps_iff {text : JsonText} {url_list request : String} {msg : ZMsg}
    {r : ShoppingList} {db : Database} (hr : r.WF) (hc : Carries text request msg r) (u : String) :
    (∃ res db', handleRequest text url_list request msg db = some (res, db') ∧
      ShoppingList.Keeps r (Database.shown db u) (Database.shown db' u)) ↔
    KeepsStored url_list request r db u := by
  have hstore := handleRequest_store url_list db hr hc
  have hrun : (∃ res db', handleRequest text url_list request msg db = some (res, db') ∧
      ShoppingList.Keeps r (Database.shown db u) (Database.shown db' u)) ↔
      ∃ db', (handleRequest text url_list request msg db).map Prod.snd = some db' ∧
        ShoppingList.Keeps r (Database.shown db u) (Database.shown db' u) := by
    constructor
    · rintro ⟨res, db', hres, hkeeps⟩
      exact ⟨db', by rw [hres]; rfl, hkeeps⟩
    · rintro ⟨db', hmap, hkeeps⟩
      obtain ⟨⟨res, db''⟩, hres, rfl⟩ := Option.map_eq_some_iff.1 hmap
      exact ⟨res, db'', hres, hkeeps⟩
  rw [hrun, hstore]
  by_cases hcreate : request = "CREATE_LIST"
  · have hupdate : request ≠ "UPDATE_LIST" := by rw [hcreate]; decide
    rw [if_pos hcreate]
    simp only [Option.some.injEq, exists_eq_left', createList_keeps_iff hr]
    exact ⟨fun h => ⟨fun hq => absurd hq hupdate, fun _ => h, fun hq => absurd hq hupdate⟩,
      fun h => h.create hcreate⟩
  · rw [if_neg hcreate]
    by_cases hupdate : request = "UPDATE_LIST"
    · rw [if_pos hupdate]
      cases hl : ShoppingList.fromJson (Database.get db url_list) ShoppingList.blank with
      | none =>
        have hundefined := (ShoppingList.fromJson_isSome_iff (Database.get db url_list)
          ShoppingList.blank).2
        rw [hl] at hundefined
        refine ⟨fun h => ?_, fun h => nomatch hundefined (h.defined hupdate)⟩
        obtain ⟨db', hnone, -⟩ := h
        cases hnone
      | some l =>
        have hdefined := (ShoppingList.fromJson_isSome_iff _ _).1 (Option.isSome_of_eq_some hl)
        simp only [Option.map_some, Option.some.injEq, exists_eq_left', updateList_keeps_iff hr hl]
        exact ⟨fun h => ⟨fun _ => hdefined, fun h => absurd h hcreate, fun _ => h⟩,
          fun h => h.update hupdate⟩
    · rw [if_neg hupdate]
      exact ⟨fun _ => ⟨fun h => absurd h hupdate, fun h => absurd h hcreate,
        fun h => absurd h hupdate⟩, fun _ => ⟨db, rfl, .refl r _⟩⟩

/-- A replica of a list without items, one with an item, and the texts of their JSON. -/
def newList : ShoppingList := .new "user1" "party" "msla-user1"

def newListText (id : String) : String :=
  "\x7b\"id\":\"" ++ id ++ "\",\"items\":\x7b\"context\":\x7b\"dc\":[],\"vc\":\x7b\x7d\x7d," ++
    "\"map\":\x7b\x7d\x7d,\"title\":\"party\",\"url\":\"msla-user1\"\x7d"

def appleList : ShoppingList :=
  ((ShoppingList.new "user2" "party" "msla-user1").perform (.createItem "apple" 3)).2

def appleListText (id : String) : String :=
  "\x7b\"id\":\"" ++ id ++ "\",\"items\":\x7b\"context\":\x7b\"dc\":[],\"vc\":\x7b\"user2\":1\x7d\x7d," ++
    "\"map\":\x7b\"apple\":[[[\"user2\",1],3]]\x7d\x7d," ++
    "\"title\":\"party\",\"url\":\"msla-user1\"\x7d"

/-- The text form of JSON, as far as these lists go. -/
def sampleText : JsonText where
  parse s :=
    if s = newListText "user1" then some newList.toJson
    else if s = appleListText "user2" then some appleList.toJson
    else none
  dump j :=
    match j with
    | .obj [_, ("items", .obj [_, ("map", .obj [])]), _, _] => newListText ""
    | _ => appleListText ""

theorem parse_newListText :
    sampleText.getJsonFromUString (newListText "user1") = some newList.toJson := by
  have hframe : cStr (newListText "user1") = newListText "user1" := by decide +kernel
  simp only [JsonText.getJsonFromUString, sampleText, hframe, if_true]

set_option maxRecDepth 2000 in
theorem parse_appleListText :
    sampleText.getJsonFromUString (appleListText "user2") = some appleList.toJson := by
  have hframe : cStr (appleListText "user2") = appleListText "user2" := by decide +kernel
  have hne : appleListText "user2" ≠ newListText "user1" := by decide +kernel
  simp only [JsonText.getJsonFromUString, sampleText, hframe, if_neg hne, if_true]

theorem appleList_wf : appleList.WF := (ShoppingList.WF.new _ _ _).perform (.createItem "apple" 3)

/-- A store to which an update has brought the item. -/
def updatedStore : Database := storeAfter "msla-user1" "UPDATE_LIST" appleList ∅

theorem updatedStore_wf : Database.WF updatedStore :=
  Database.WF.empty.set _ (merged_wf Database.WF.empty _ appleList_wf)

theorem carries_newList :
    Carries sampleText "CREATE_LIST" ["party", newListText "user1"] newList :=
  ⟨fun _ => ⟨_, _, _, rfl, parse_newListText⟩, fun h => absurd h (by decide)⟩

/-- A list with a dot above its clock, as a body with a pair of dots decodes to, and its store. -/
def cloudedList : ShoppingList :=
  ⟨"", "party", "msla-user1", ⟨∅, ⟨∅, (∅ : SortedSet Dot).insert ⟨"user3", 3⟩⟩⟩⟩

def cloudedStore : Database := (∅ : Database).set "msla-user1" cloudedList.toJson

theorem carries_appleList : Carries sampleText "UPDATE_LIST" [appleListText "user2"] appleList :=
  ⟨fun h => absurd h (by decide), fun _ => ⟨_, _, rfl, parse_appleListText⟩⟩

/-- A CREATE_LIST after an update, and an update of a list that cannot be decoded. -/
theorem handleRequest_keeps_iff_late :
    ((∃ res db', handleRequest sampleText "msla-user1" "CREATE_LIST"
        ["party", newListText "user1"] updatedStore = some (res, db') ∧
      ShoppingList.Keeps newList (Database.shown updatedStore "msla-user1")
        (Database.shown db' "msla-user1")) ↔
      KeepsStored "msla-user1" "CREATE_LIST" newList updatedStore "msla-user1") ∧
    ((∃ res db', handleRequest sampleText "msla-user1" "UPDATE_LIST" [appleListText "user2"]
        cloudedStore = some (res, db') ∧
      ShoppingList.Keeps appleList (Database.shown cloudedStore "msla-user1")
        (Database.shown db' "msla-user1")) ↔
      KeepsStored "msla-user1" "UPDATE_LIST" appleList cloudedStore "msla-user1") :=
  ⟨handleRequest_keeps_iff (ShoppingList.WF.new _ _ _) carries_newList _,
    handleRequest_keeps_iff appleList_wf carries_appleList _⟩

/-- A CREATE_LIST that arrives after an update of its list drops the item stored, and so does an
update of a list that is stored with a dot above its clock. -/
theorem late_create_loses :
    (∃ res db', handleRequest sampleText "msla-user1" "CREATE_LIST"
        ["party", newListText "user1"] updatedStore = some (res, db') ∧
      ¬ ShoppingList.Keeps newList (Database.shown updatedStore "msla-user1")
        (Database.shown db' "msla-user1")) ∧
    (∃ res db', handleRequest sampleText "msla-user1" "UPDATE_LIST" [appleListText "user2"]
        cloudedStore = some (res, db') ∧
      ¬ ShoppingList.Keeps appleList (Database.shown cloudedStore "msla-user1")
        (Database.shown db' "msla-user1")) ∧
    ¬ ∀ (text : JsonText) (url_list request : String) (msg : ZMsg) (r : ShoppingList)
        (db : Database), r.WF → Carries text request msg r →
        ∀ u, ∃ res db', handleRequest text url_list request msg db = some (res, db') ∧
          ShoppingList.Keeps r (Database.shown db u) (Database.shown db' u) := by
  have hnew : newList.WF := ShoppingList.WF.new _ _ _
  have hcreate : ∃ res db', handleRequest sampleText "msla-user1" "CREATE_LIST"
      ["party", newListText "user1"] updatedStore = some (res, db') ∧
      ¬ ShoppingList.Keeps newList (Database.shown updatedStore "msla-user1")
        (Database.shown db' "msla-user1") := by
    have hstore := handleRequest_store "msla-user1" updatedStore hnew carries_newList
    obtain ⟨⟨res, db'⟩, hres, rfl⟩ := Option.map_eq_some_iff.1 hstore
    refine ⟨res, _, hres, fun hkeeps => ?_⟩
    have hlost := hkeeps.contains ⟨"user2", 1⟩ (by decide)
    have hafter : Database.shown (updatedStore.set newList.url (newList.setId "").toJson)
        "msla-user1" = newList.setId "" :=
      Database.shown_set_self _ "msla-user1" (hnew.setId "").items.shared
    rw [hafter] at hlost
    exact absurd hlost (by decide)
  have hupdate : ∃ res db', handleRequest sampleText "msla-user1" "UPDATE_LIST"
      [appleListText "user2"] cloudedStore = some (res, db') ∧
      ¬ ShoppingList.Keeps appleList (Database.shown cloudedStore "msla-user1")
        (Database.shown db' "msla-user1") := by
    have hget : Database.get cloudedStore "msla-user1" = cloudedList.toJson :=
      Database.get_set_self _ _ _
    have hread : ShoppingList.readItems cloudedList.toJson = .error .exception := rfl
    obtain ⟨l, hl, -⟩ := ShoppingList.exists_fromJson_toJson cloudedList ShoppingList.blank
    have hstore := handleRequest_store "msla-user1" cloudedStore appleList_wf carries_appleList
    rw [if_neg (by decide), if_pos rfl, hget, hl] at hstore
    obtain ⟨⟨res, db'⟩, hres, rfl⟩ := Option.map_eq_some_iff.1 hstore
    refine ⟨res, _, hres, fun hkeeps => ?_⟩
    have hshared : (l.join appleList).2.items.Shared :=
      ShoppingList.join_shared (ShoppingList.fromJson_shared hl ORMap.Shared.empty) _
    rw [Database.shown_set_self _ "msla-user1" hshared, Database.shown, hget] at hkeeps
    have hseen := ((update_keeps_iff appleList_wf hl).1 hkeeps hread).1
    exact absurd (hseen.contains ⟨"user3", 3⟩ (by decide)) (by decide)
  refine ⟨hcreate, hupdate, fun h => ?_⟩
  obtain ⟨res, db', hres, hlost⟩ := hcreate
  obtain ⟨res', db'', hres', hkeeps⟩ := h sampleText "msla-user1" "CREATE_LIST"
    ["party", newListText "user1"] newList updatedStore hnew carries_newList "msla-user1"
  rw [hres] at hres'
  cases hres'
  exact hlost hkeeps

/-! ## Stores converge on updates -/

/-- The store after a sequence of UPDATE_LIST requests for one url. -/
def processUpdates (text : JsonText) (url_list : String) (msgs : List ZMsg)
    (db : Database) : Option Database :=
  msgs.foldlM (fun db msg => (handleRequest text url_list "UPDATE_LIST" msg db).map Prod.snd) db

theorem handleRequest_of_updateList {text : JsonText} {url_list body : String} {j : Json}
    {db : Database} {r : Json × Database} (hbody : text.getJsonFromUString body = some j)
    (hupdate : updateList url_list j db = some r) (rest : ZMsg) :
    handleRequest text url_list "UPDATE_LIST" (body :: rest) db =
      some (⟨"Updated shopping list with success!", text.getStringFromJson r.1⟩, r.2) := by
  have hcreate : ¬ "UPDATE_LIST" = "CREATE_LIST" := by decide
  have hGET : ¬ "UPDATE_LIST" = "GET_LIST" := by decide
  unfold handleRequest
  rw [if_neg hcreate, if_neg hGET, if_pos rfl]
  simp only [hbody, Option.bind_eq_bind, Option.bind_some, hupdate]
  rfl

theorem handleRequest_update {text : JsonText} {url_list : String} {msg : ZMsg}
    {r l : ShoppingList} {db : Database} (hr : r.WF) (hc : Carries text "UPDATE_LIST" msg r)
    (hget : ShoppingList.fromJson (Database.get db url_list) ShoppingList.blank = some l) :
    (handleRequest text url_list "UPDATE_LIST" msg db).map Prod.snd =
      some (db.set url_list (l.join r).2.toJson) := by
  rw [handleRequest_store url_list db hr hc, if_neg (by decide), if_pos rfl, hget]
  rfl

/-- A sequence of updates stores the join of the stored list and all lists received. -/
theorem processUpdates_eq {text : JsonText} {url_list : String} {msgs : List ZMsg}
    {ls : List ShoppingList} (hc : List.Forall₂ (Carries text "UPDATE_LIST") msgs ls)
    (hwf : ∀ r ∈ ls, r.WF) : ∀ {db : Database} {l : ShoppingList}, l.WF →
      ShoppingList.fromJson (Database.get db url_list) ShoppingList.blank = some l →
      ∃ db', processUpdates text url_list msgs db = some db' ∧
        Database.get db' url_list = if ls = [] then Database.get db url_list
          else (ls.foldl (fun l o => (l.join o).2) l).toJson := by
  induction hc with
  | nil =>
    intro db l _ _
    exact ⟨db, rfl, rfl⟩
  | @cons msg r msgs ls hmsg _ ih =>
    intro db l hl hget
    have hr : r.WF := hwf r List.mem_cons_self
    have hjoin : (l.join r).2.WF := hl.join hr
    have hstored : Database.get (db.set url_list (l.join r).2.toJson) url_list =
        (l.join r).2.toJson := Database.get_set_self _ _ _
    obtain ⟨db', hrun, hfinal⟩ := ih (fun o ho => hwf o (List.mem_cons_of_mem _ ho)) hjoin
      (hstored ▸ hjoin.fromJson_toJson "" "" "")
    refine ⟨db', ?_, ?_⟩
    · unfold processUpdates at hrun ⊢
      rw [List.foldlM_cons, handleRequest_update hr hmsg hget]
      exact hrun
    · rw [hfinal, hstored, if_neg (List.cons_ne_nil r ls), List.foldl_cons]
      split_ifs with hnil
      · rw [hnil]
        rfl
      · rfl

/-- **Worker stores converge on updates.** Stores without an entry for a url that process updates
bringing the same lists of that url and one title, in any orders and with any repetitions, hold
equal JSON: the encoding, with empty id, of the join of the lists. -/
theorem updates_converge {text : JsonText} (url title : String) {db₁ db₂ : Database}
    {msgs₁ msgs₂ : List ZMsg} {ls₁ ls₂ : List ShoppingList}
    (h₁ : db₁.find? url = none) (h₂ : db₂.find? url = none)
    (hc₁ : List.Forall₂ (Carries text "UPDATE_LIST") msgs₁ ls₁)
    (hc₂ : List.Forall₂ (Carries text "UPDATE_LIST") msgs₂ ls₂)
    (hsame : ∀ l, l ∈ ls₁ ↔ l ∈ ls₂)
    (hlists : ∀ l ∈ ls₁, ShoppingList.Reachable l ∧ l.title = title ∧ l.url = url)
    (hagree : ∀ l ∈ ls₁, ∀ o ∈ ls₁, ORMap.Agree l.items o.items) :
    ∃ db₁' db₂', processUpdates text url msgs₁ db₁ = some db₁' ∧
      processUpdates text url msgs₂ db₂ = some db₂' ∧
      Database.get db₁' url = Database.get db₂' url ∧
      (ls₁ ≠ [] → Database.get db₁' url = (ShoppingList.joinAll ls₁).toJson ∧
        (ShoppingList.joinAll ls₁).id = "") := by
  have hblank : ∀ {db : Database}, db.find? url = none →
      Database.get db url = .null ∧
        ShoppingList.fromJson (Database.get db url) ShoppingList.blank =
          some ShoppingList.blank := by
    intro db h
    unfold Database.get
    rw [h]
    exact ⟨rfl, rfl⟩
  have hwf₁ : ∀ l ∈ ls₁, l.WF := fun l hl => (hlists l hl).1.wf
  have hwf₂ : ∀ l ∈ ls₂, l.WF := fun l hl => hwf₁ l ((hsame l).2 hl)
  obtain ⟨db₁', hrun₁, hget₁⟩ :=
    processUpdates_eq hc₁ hwf₁ ShoppingList.WF.blank (hblank h₁).2
  obtain ⟨db₂', hrun₂, hget₂⟩ :=
    processUpdates_eq hc₂ hwf₂ ShoppingList.WF.blank (hblank h₂).2
  have hjoin : ShoppingList.joinAll ls₁ = ShoppingList.joinAll ls₂ :=
    ShoppingList.joinAll_congr hsame (fun l hl => (hlists l hl).2) hwf₁ hagree
  have hnil : ls₁ = [] ↔ ls₂ = [] := by
    rw [List.eq_nil_iff_forall_not_mem, List.eq_nil_iff_forall_not_mem]
    simp only [hsame]
  refine ⟨db₁', db₂', hrun₁, hrun₂, ?_, fun hne => ⟨?_, ?_⟩⟩
  · rw [hget₁, hget₂, (hblank h₁).1, (hblank h₂).1]
    by_cases h : ls₁ = []
    · rw [if_pos h, if_pos (hnil.1 h)]
    · rw [if_neg h, if_neg fun h' => h (hnil.2 h')]
      exact congrArg ShoppingList.toJson hjoin
  · rw [hget₁, if_neg hne]
    rfl
  · rw [ShoppingList.joinAll_eq hne fun l hl => (hlists l hl).2]

/-- Two replicas' lists, in two orders and with a repetition. -/
theorem updates_converge_two :
    ∃ db₁' db₂', processUpdates sampleText "msla-user1"
        [[newListText "user1"], [appleListText "user2"]] ∅ = some db₁' ∧
      processUpdates sampleText "msla-user1"
        [[appleListText "user2"], [newListText "user1"], [appleListText "user2"]] ∅ = some db₂' ∧
      Database.get db₁' "msla-user1" = Database.get db₂' "msla-user1" ∧
      ([newList, appleList] ≠ [] → Database.get db₁' "msla-user1" =
          (ShoppingList.joinAll [newList, appleList]).toJson ∧
        (ShoppingList.joinAll [newList, appleList]).id = "") := by
  have hno : ¬ "UPDATE_LIST" = "CREATE_LIST" := by decide
  have hnew : Carries sampleText "UPDATE_LIST" [newListText "user1"] newList :=
    ⟨fun h => absurd h hno, fun _ => ⟨_, _, rfl, parse_newListText⟩⟩
  have happle : Carries sampleText "UPDATE_LIST" [appleListText "user2"] appleList :=
    ⟨fun h => absurd h hno, fun _ => ⟨_, _, rfl, parse_appleListText⟩⟩
  have hnone : ∀ {name d v}, newList.items.live name d = some v → False := by
    intro name d v hv
    rw [ORMap.live_of_find?_none rfl] at hv
    cases hv
  refine updates_converge "msla-user1" "party" rfl rfl (.cons hnew (.cons happle .nil))
    (.cons happle (.cons hnew (.cons happle .nil))) ?_ ?_ ?_
  · intro l
    simp only [List.mem_cons, List.not_mem_nil, or_false]
    tauto
  · intro l hl
    simp only [List.mem_cons, List.not_mem_nil, or_false] at hl
    rcases hl with rfl | rfl
    · exact ⟨.new _ _ _, rfl, rfl⟩
    · exact ⟨.perform _ (.new _ _ _), rfl, rfl⟩
  · intro l hl o ho
    simp only [List.mem_cons, List.not_mem_nil, or_false] at hl ho
    rcases hl with rfl | rfl
    · exact fun name d v w hv _ => (hnone hv).elim
    · rcases ho with rfl | rfl
      · exact fun name d v w _ hw => (hnone hw).elim
      · exact ORMap.Agree.refl _

end RequestHandler

end ShoppingApp
