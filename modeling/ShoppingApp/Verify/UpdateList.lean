import ShoppingApp.Verify.RequestHandler
import Mathlib.Data.List.Induction

/-!
# Under which url an update is stored, and what its reply says

An UPDATE_LIST stores under the url of its frame whatever the url of the list it brings, and a
stored list without title and url takes those of the list it is joined with. So lists are under
their own urls exactly as long as every update that meets no list, or a blank one, brings a list of
its own url (`stored_under_url_iff`). The reply is always the success reply, which is right exactly
if the received items could be read and the join was accepted (`update_reply_iff`).
-/

namespace ShoppingApp

namespace ShoppingList

theorem stringAt_url_toJson (l : ShoppingList) : l.toJson.stringAt "url" = some l.url := rfl

end ShoppingList

namespace RequestHandler

open ShoppingList (blank fromJson Skipped)

variable {text : JsonText} {db db' : Database}

/-- An update whose texts can be read stores the join of what they decode to, and is a success. -/
theorem handleRequest_update_eq {url_list body : String} {j : Json} {received stored : ShoppingList}
    (hbody : text.getJsonFromUString body = some j) (hreceived : fromJson j blank = some received)
    (hstored : fromJson (Database.get db url_list) blank = some stored) (rest : ZMsg) :
    handleRequest text url_list "UPDATE_LIST" (body :: rest) db =
      some (⟨"Updated shopping list with success!",
          text.getStringFromJson (stored.join received).2.toJson⟩,
        db.set url_list (stored.join received).2.toJson) := by
  have hupdate : updateList url_list j db = some ((stored.join received).2.toJson,
      db.set url_list (stored.join received).2.toJson) := by
    simp only [updateList, Option.bind_eq_bind, Option.bind_some, hreceived, hstored]
    rfl
  exact handleRequest_of_updateList hbody hupdate rest

/-- What a request does to the store. -/
theorem handleRequest_cases {url_list request : String} {msg : ZMsg} {res : Response}
    (h : handleRequest text url_list request msg db = some (res, db')) :
    db' = db ∨
    (∃ new_list : ShoppingList, db' = db.set new_list.url (new_list.setId "").toJson) ∨
    (request = "UPDATE_LIST" ∧ ∃ body rest j received stored, msg = body :: rest ∧
      text.getJsonFromUString body = some j ∧ fromJson j blank = some received ∧
      fromJson (Database.get db url_list) blank = some stored ∧
      db' = db.set url_list (stored.join received).2.toJson) := by
  unfold handleRequest at h
  split_ifs at h with hcreate hget hupdate
  · split at h
    · rename_i shopping_list_str _
      simp only [Option.bind_eq_bind, Option.bind_eq_some_iff, createList] at h
      obtain ⟨j, -, r, ⟨new_list, -, hr⟩, hres⟩ := h
      cases hr
      cases hres
      exact .inr (.inl ⟨new_list, rfl⟩)
    · cases h
  · cases h
    exact .inl rfl
  · split at h
    · rename_i body rest
      simp only [Option.bind_eq_bind, Option.bind_eq_some_iff, updateList] at h
      obtain ⟨j, hj, r, ⟨received, hreceived, stored, hstored, hr⟩, hres⟩ := h
      cases hr
      cases hres
      exact .inr (.inr ⟨hupdate, body, rest, j, received, stored, rfl, hj, hreceived, hstored,
        rfl⟩)
    · cases h
  · cases h
    exact .inl rfl

/-! ## Lists under their urls -/

/-- A request as it arrives at a worker. -/
structure Request where
  url_list : String
  request : String
  msg : ZMsg

def processRequests (text : JsonText) (requests : List Request) (db : Database) :
    Option Database :=
  requests.foldlM (fun db q => (handleRequest text q.url_list q.request q.msg db).map Prod.snd) db

theorem processRequests_snoc {requests : List Request} {q : Request} :
    processRequests text (requests ++ [q]) ∅ = some db' ↔
      ∃ db res, processRequests text requests ∅ = some db ∧
        handleRequest text q.url_list q.request q.msg db = some (res, db') := by
  unfold processRequests
  rw [List.foldlM_append, Option.bind_eq_bind, Option.bind_eq_some_iff]
  refine exists_congr fun db => ?_
  rw [List.foldlM_cons, Option.bind_eq_bind, Option.bind_eq_some_iff]
  constructor
  · rintro ⟨hpast, after, hafter, hpure⟩
    obtain ⟨⟨res, _⟩, hres, rfl⟩ := Option.map_eq_some_iff.1 hafter
    cases hpure
    exact ⟨res, hpast, hres⟩
  · rintro ⟨res, hpast, hq⟩
    exact ⟨hpast, db', by rw [hq]; rfl, rfl⟩

/-- Every key has a list of that url. -/
def Keyed (db : Database) : Prop :=
  ∀ key j, db.find? key = some j → ∃ l : ShoppingList, j = l.toJson ∧ l.url = key

/-- Every key has a list of that url, and an update that brings a list of that url with the stored
title is merged. -/
structure UnderUrl (text : JsonText) (db : Database) : Prop where
  keyed : Keyed db
  merges : ∀ key j, db.find? key = some j → ∃ stored, fromJson j blank = some stored ∧
    ∀ body rest j' received, text.getJsonFromUString body = some j' →
      fromJson j' blank = some received → received.url = key → received.title = stored.title →
      ∃ res, handleRequest text key "UPDATE_LIST" (body :: rest) db = some (res,
        db.set key { stored with items := stored.items.join received.items }.toJson)

/-- An update that finds a blank list, or none, brings a list of the url it is for. -/
def NamesItsUrl (text : JsonText) (db : Database) (q : Request) : Prop :=
  q.request = "UPDATE_LIST" → ∀ body rest j received stored, q.msg = body :: rest →
    text.getJsonFromUString body = some j → fromJson j blank = some received →
    fromJson (Database.get db q.url_list) blank = some stored →
    stored.title = "" → stored.url = "" → received.url = q.url_list

theorem Keyed.empty : Keyed ∅ := fun key j h => by simp at h

theorem Keyed.set (h : Keyed db) (l : ShoppingList) : Keyed (db.set l.url l.toJson) := by
  intro key j hj
  rw [SortedMap.find?_set] at hj
  split_ifs at hj with hkey
  · cases hj
    exact ⟨l, rfl, hkey.symm⟩
  · exact h key j hj

/-- What is decoded from a store is a blank list, if nothing is there, or has its key as url. -/
theorem Keyed.decoded (h : Keyed db) {key : String} {stored : ShoppingList}
    (hstored : fromJson (Database.get db key) blank = some stored) :
    stored = blank ∨ stored.url = key := by
  unfold Database.get at hstored
  cases hfind : db.find? key with
  | none =>
    rw [hfind] at hstored
    cases hstored
    exact .inl rfl
  | some j =>
    obtain ⟨l, rfl, hurl⟩ := h key j hfind
    obtain ⟨o, ho, -, hou⟩ := ShoppingList.exists_fromJson_toJson l blank
    rw [hfind] at hstored
    obtain rfl : o = stored := Option.some.inj (ho.symm.trans hstored)
    exact .inr (hou.trans hurl)

theorem Keyed.underUrl (h : Keyed db) : UnderUrl text db := by
  refine ⟨h, fun key j hfind => ?_⟩
  obtain ⟨l, rfl, hurl⟩ := h key j hfind
  obtain ⟨stored, hstored, -, hsurl⟩ := ShoppingList.exists_fromJson_toJson l blank
  refine ⟨stored, hstored, fun body rest j' received hbody hreceived hrurl htitle => ?_⟩
  have hget : fromJson (Database.get db key) blank = some stored := by
    unfold Database.get
    rw [hfind]
    exact hstored
  have hjoin := ShoppingList.join_of_header_eq htitle.symm
    ((hsurl.trans hurl).trans hrurl.symm)
  rw [handleRequest_update_eq hbody hreceived hget rest, hjoin]
  exact ⟨_, rfl⟩

/-- A request keeps lists under their urls if it names the url of what it brings. -/
theorem Keyed.handleRequest (h : Keyed db) {q : Request} {res : Response}
    (hq : NamesItsUrl text db q)
    (hres : handleRequest text q.url_list q.request q.msg db = some (res, db')) : Keyed db' := by
  rcases handleRequest_cases hres with rfl | ⟨new_list, rfl⟩ |
    ⟨hupdate, body, rest, j, received, stored, hmsg, hj, hreceived, hstored, rfl⟩
  · exact h
  · exact h.set (new_list.setId "")
  · have hurl : (stored.join received).2.url = q.url_list := by
      have hnames := hq hupdate body rest j received stored hmsg hj hreceived hstored
      rcases h.decoded hstored with rfl | hkey
      · rw [ShoppingList.join_of_blank rfl rfl]
        exact hnames rfl rfl
      · rcases ShoppingList.join_cases stored received with
          ⟨hjoin, ⟨-, hsame⟩ | ⟨htitle, hblank⟩⟩ | ⟨hjoin, -⟩
        · rw [hjoin]
          exact hsame.symm.trans hkey
        · rw [hjoin]
          exact hnames htitle hblank
        · rw [hjoin]
          exact hkey
    rw [← hurl]
    exact h.set _

/-- An update that finds a blank list and brings one of another url puts it under the wrong key. -/
theorem names_of_keyed {q : Request} (hafter : ∀ res db',
      handleRequest text q.url_list q.request q.msg db = some (res, db') → Keyed db') :
    NamesItsUrl text db q := by
  obtain ⟨url_list, request, msg⟩ := q
  rintro rfl body rest j received stored rfl hj hreceived hstored htitle hurl
  obtain ⟨l, hl, hkey⟩ := hafter _ _ (handleRequest_update_eq hj hreceived hstored rest) url_list _
    (SortedMap.find?_set_self _ _ _)
  have hsame := congrArg (fun j => j.stringAt "url") hl
  rw [ShoppingList.stringAt_url_toJson, ShoppingList.stringAt_url_toJson,
    ShoppingList.join_of_blank htitle hurl] at hsame
  exact (Option.some.inj hsame).trans hkey

/-- **Lists are stored under their own urls** after every request exactly if every update that
meets no list, or one without title and url, brings a list of the url it is for. -/
theorem stored_under_url_iff (text : JsonText) (requests : List Request) :
    (∀ past rest db, requests = past ++ rest → processRequests text past ∅ = some db →
      UnderUrl text db) ↔
    ∀ past q rest db, requests = (past ++ [q]) ++ rest → processRequests text past ∅ = some db →
      NamesItsUrl text db q := by
  constructor
  · intro h past q rest db hrequests hpast
    exact names_of_keyed fun res db' hres =>
      (h _ rest db' hrequests (processRequests_snoc.2 ⟨db, res, hpast, hres⟩)).keyed
  · intro h past
    suffices hkeyed : ∀ rest db, requests = past ++ rest →
        processRequests text past ∅ = some db → Keyed db from
      fun rest db hrequests hrun => (hkeyed rest db hrequests hrun).underUrl
    induction past using List.reverseRecOn with
    | nil =>
      intro rest db _ hrun
      cases hrun
      exact Keyed.empty
    | append_singleton past q ih =>
      intro rest db' hrequests hrun
      obtain ⟨db, res, hpast, hres⟩ := processRequests_snoc.1 hrun
      exact (ih (q :: rest) db (by rw [hrequests, List.append_assoc]; rfl) hpast).handleRequest
        (h past q rest db hrequests hpast) hres

/-- The first update for one url brings a list of another. -/
theorem first_update_stores_elsewhere :
    ¬ ∀ (text : JsonText) (requests past rest : List Request) (db : Database),
      requests = past ++ rest → processRequests text past ∅ = some db → UnderUrl text db := by
  intro h
  have hnames : NamesItsUrl sampleText ∅
      ⟨"msla-user2", "UPDATE_LIST", [appleListText "user2"]⟩ :=
    names_of_keyed fun res db' hres =>
      (h sampleText _ ([] ++ [_]) [] db' rfl (processRequests_snoc.2 ⟨∅, res, rfl, hres⟩)).keyed
  have hurl := hnames rfl _ _ _ _ _ rfl parse_appleListText
    (appleList_wf.fromJson_toJson "" "" "") rfl rfl rfl
  exact absurd hurl (by decide)

/-! ## What the reply says -/

/-- The received items can be read, and the join is accepted: both lists have one title and url, or
the stored one has neither. -/
def Mergeable (j : Json) (received stored : ShoppingList) : Prop :=
  (Skipped j ∨ ∃ items, ShoppingList.readItems j = .ok items) ∧
    (stored.title = received.title ∧ stored.url = received.url ∨
      stored.title = "" ∧ stored.url = "")

/-- The list stored under a url has seen what the received list has, keeps each of its live dots
that the list stored before had not seen, and is the list published. -/
structure Merged (text : JsonText) (url_list : String) (received stored : ShoppingList)
    (res : Response) (db : Database) (l : ShoppingList) : Prop where
  kept : db.find? url_list = some l.toJson
  seen : ∀ d, received.items.context.contains d = true → l.items.context.contains d = true
  live : ∀ name d v, received.items.live name d = some v →
    stored.items.context.contains d = false →
    l.items.live name d = (stored.items.live name d).or (some v)
  published : res.shopping_list = text.getStringFromJson l.toJson

/-- What is claimed of an update: success is only replied to what has been stored, and what cannot
be merged is refused and changes nothing. -/
structure Answered (text : JsonText) (url_list : String) (msg : ZMsg) (db : Database) (j : Json)
    (received stored : ShoppingList) : Prop where
  success : ∀ res db', handleRequest text url_list "UPDATE_LIST" msg db = some (res, db') →
    res.reply = "Updated shopping list with success!" →
    ∃ l, Merged text url_list received stored res db' l
  refused : ∀ res db', handleRequest text url_list "UPDATE_LIST" msg db = some (res, db') →
    ¬ Mergeable j received stored → res.reply ≠ "Updated shopping list with success!" ∧ db' = db

theorem merged_join {url_list : String} {received stored : ShoppingList}
    (hreceived : received.items.Shared) (hstored : stored.items.Shared)
    (hjoin : (stored.join received).2.items = stored.items.join received.items) :
    Merged text url_list received stored
      ⟨"Updated shopping list with success!",
        text.getStringFromJson (stored.join received).2.toJson⟩
      (db.set url_list (stored.join received).2.toJson) (stored.join received).2 := by
  refine ⟨SortedMap.find?_set_self _ _ _, fun d hd => ?_, fun name d v hv hd => ?_, rfl⟩
  · rw [hjoin, ORMap.join_context]
    exact DotContext.contains_join_of_or (.inr hd)
  · rw [hjoin, ORMap.Shared.live_join hstored hreceived, hv, hd]
    cases stored.items.live name d <;> rfl

/-- **A success reply means that the update is stored** exactly if the received list can be merged:
the reply does not depend on whether it was. -/
theorem update_reply_iff {url_list : String} {body : String} {rest : ZMsg} {j : Json}
    {received stored : ShoppingList} (hbody : text.getJsonFromUString body = some j)
    (hreceived : fromJson j blank = some received)
    (hstored : fromJson (Database.get db url_list) blank = some stored) :
    Answered text url_list (body :: rest) db j received stored ↔ Mergeable j received stored := by
  have hrun := handleRequest_update_eq hbody hreceived hstored rest
  constructor
  · intro h
    by_contra hnot
    exact (h.refused _ _ hrun hnot).1 rfl
  · intro h
    refine ⟨fun res db' hres _ => ?_, fun res db' _ hnot => absurd h hnot⟩
    rw [hrun] at hres
    cases hres
    refine ⟨_, merged_join (ShoppingList.fromJson_shared hreceived ORMap.Shared.empty)
      (ShoppingList.fromJson_shared hstored ORMap.Shared.empty) ?_⟩
    rcases h.2 with ⟨htitle, hurl⟩ | ⟨htitle, hurl⟩
    · rw [ShoppingList.join_of_header_eq htitle hurl]
    · rw [ShoppingList.join_of_blank htitle hurl]

theorem update_reply_iff_party :
    let stored := Database.list updatedStore "msla-user1"
    Answered sampleText "msla-user1" [newListText "user1"] updatedStore newList.toJson newList
        stored ↔ Mergeable newList.toJson newList stored :=
  update_reply_iff parse_newListText ((ShoppingList.WF.new _ _ _).fromJson_toJson "" "" "")
    (updatedStore_wf.fromJson_get _)

/-- A list under another title, and a store with it. -/
def picnicList : ShoppingList := .new "" "picnic" "msla-user1"

def picnicStore : Database := (∅ : Database).set "msla-user1" picnicList.toJson

/-- An update whose title differs is dropped with a success reply. -/
theorem refused_update_succeeds :
    (∃ shopping_list, handleRequest sampleText "msla-user1" "UPDATE_LIST"
        [appleListText "user2"] picnicStore =
      some (⟨"Updated shopping list with success!", shopping_list⟩, picnicStore)) ∧
    fromJson (Database.get picnicStore "msla-user1") blank = some picnicList ∧
    ¬ Mergeable appleList.toJson appleList picnicList ∧
    ¬ Answered sampleText "msla-user1" [appleListText "user2"] picnicStore appleList.toJson
        appleList picnicList := by
  have hreceived : fromJson appleList.toJson blank = some appleList :=
    appleList_wf.fromJson_toJson "" "" ""
  have hstored : fromJson (Database.get picnicStore "msla-user1") blank = some picnicList := by
    rw [picnicStore, Database.get_set_self]
    exact (ShoppingList.WF.new _ _ _).fromJson_toJson "" "" ""
  have hjoin : picnicList.join appleList = (false, picnicList) := by decide
  have hrun := handleRequest_update_eq parse_appleListText hreceived hstored []
  have hsame : picnicStore.set "msla-user1" picnicList.toJson = picnicStore := by
    refine SortedMap.ext_find fun key => ?_
    simp only [picnicStore, SortedMap.find?_set]
    split_ifs <;> rfl
  have hnot : ¬ Mergeable appleList.toJson appleList picnicList := by
    rintro ⟨-, ⟨htitle, -⟩ | ⟨htitle, -⟩⟩
    · exact absurd htitle (by decide)
    · exact absurd htitle (by decide)
  rw [hjoin, hsame] at hrun
  exact ⟨⟨_, hrun⟩, hstored, hnot, fun h => (h.refused _ _ hrun hnot).1 rfl⟩

end RequestHandler

end ShoppingApp
