import ShoppingApp.Client.LocalStore
import ShoppingApp.Worker.RequestHandler

/-!
# Clients and workers

The whole system as far as lists go: clients that make lists, edit them, keep them in their
databases and send them; workers that store and publish them. Requests and publications stay
available once sent, to any party and any number of times, so messages may be delayed, reordered,
repeated or lost. Lists travel as text, which reads back as what was written.

A session and its saving are separate steps, so that updates may arrive between them; a session, a
call of `saveListToLocal`, one of `updateList` and one of `handleRequest` is one step each. In the
program the two calls are several requests to a database that both threads use: `LocalStore.run` has
them one by one for a client, and `Consoles` says which runs of the threads these steps show. A
session for a url that is not in the database changes nothing and sends nothing.
-/

namespace ShoppingApp

/-- The text of a value reads back as the value. -/
def JsonText.Reads (text : JsonText) (j : Json) : Prop :=
  text.getJsonFromUString (text.getStringFromJson j) = some j

/-- A client's database, and the list of a session that the main thread has not saved yet. -/
structure ClientState where
  db : Database
  currentShoppingList : Option ShoppingList

/-- A request as `handleRequest` gets it. -/
structure ListRequest where
  request_type : String
  url_list : String
  body : ZMsg

/-- The value that a request brings. -/
def ListRequest.json (text : JsonText) (q : ListRequest) : Option Json :=
  if q.request_type = "CREATE_LIST" then
    match q.body with
    | _list_name :: shopping_list_str :: _ => text.getJsonFromUString shopping_list_str
    | _ => none
  else if q.request_type = "UPDATE_LIST" then
    match q.body with
    | received_shopping_list_str :: _ => text.getJsonFromUString received_shopping_list_str
    | [] => none
  else none

/-- All parties, the url each client has last picked for a session, what has been sent and published
so far, each publication with its topic, and the identifiers `generateUUID` has given out, each with
the client that got it. -/
structure World (κ ω : Type*) where
  clients : κ → ClientState
  update_list_list_url : κ → String
  workers : ω → Database
  requests : List ListRequest
  published : List (String × String)
  uuids : List (κ × String)

namespace World

variable {κ ω : Type*} [DecidableEq κ] [DecidableEq ω]

def init : World κ ω := ⟨fun _ => ⟨∅, none⟩, fun _ => "", fun _ => ∅, [], [], []⟩

/-- Nobody has the identifier yet. -/
def Fresh (s : World κ ω) (uuid : String) : Prop := ∀ i, (i, uuid) ∉ s.uuids

def setClient (s : World κ ω) (i : κ) (c : ClientState) : World κ ω :=
  { s with clients := Function.update s.clients i c }

/-- The client picks a url for a session. -/
def pick (s : World κ ω) (i : κ) (url : String) : World κ ω :=
  { s with update_list_list_url := Function.update s.update_list_list_url i url }

def createRequest (text : JsonText) (l : ShoppingList) : ListRequest :=
  ⟨"CREATE_LIST", l.url, [l.title, text.getStringFromJson l.toJson]⟩

def updateRequest (text : JsonText) (update_list_list_url : String) (l : ShoppingList) :
    ListRequest :=
  ⟨"UPDATE_LIST", update_list_list_url, [text.getStringFromJson l.toJson]⟩

/-- What a client sends if it is in cloud mode. -/
def sendIf (s : World κ ω) (cloud_mode : Bool) (q : ListRequest) : World κ ω :=
  if cloud_mode then { s with requests := q :: s.requests } else s

/-- The main thread makes a list, asks for one, edits one, saves what it has edited and deletes one;
the listener thread takes an update; a worker handles a request: each as a whole. -/
inductive Step (text : JsonText) : World κ ω → World κ ω → Prop
  | create (s : World κ ω) (i : κ) (list_id list_name : String) (cloud_mode : Bool)
      (hidle : (s.clients i).currentShoppingList = none) (hfresh : s.Fresh list_id)
      (hreads : cloud_mode = true →
        text.Reads (ShoppingList.new list_id list_name ("msla-" ++ list_id)).toJson) :
      Step text s (sendIf
        { s.setClient i ⟨(s.clients i).db.set ("msla-" ++ list_id)
            (ShoppingList.new list_id list_name ("msla-" ++ list_id)).toJson, none⟩ with
          uuids := (i, list_id) :: s.uuids }
        cloud_mode
        (createRequest text (ShoppingList.new list_id list_name ("msla-" ++ list_id))))
  | get (s : World κ ω) (get_list_url : String) :
      Step text s { s with requests := ⟨"GET_LIST", get_list_url, []⟩ :: s.requests }
  | edit (s : World κ ω) (i : κ) (update_list_list_url : String) (j : Json) (l : ShoppingList)
      (ops : List ShoppingList.Op) (hidle : (s.clients i).currentShoppingList = none)
      (hj : (s.clients i).db.find? update_list_list_url = some j)
      (hl : ShoppingList.fromJson j ShoppingList.blank = some l) :
      Step text s ((s.pick i update_list_list_url).setClient i
        ⟨(s.clients i).db, some (ops.foldl (fun l op => (l.perform op).2) l)⟩)
  | save (s : World κ ω) (i : κ) (l : ShoppingList) (db : Database) (cloud_mode : Bool)
      (hl : (s.clients i).currentShoppingList = some l)
      (hdb : LocalStore.saveListToLocal (s.clients i).db l = some db)
      (hreads : cloud_mode = true → text.Reads l.toJson) :
      Step text s (sendIf (s.setClient i ⟨db, none⟩) cloud_mode
        (updateRequest text (s.update_list_list_url i) l))
  | delete (s : World κ ω) (i : κ) (update_list_list_url : String)
      (hidle : (s.clients i).currentShoppingList = none) :
      Step text s (s.setClient i ⟨(s.clients i).db.del update_list_list_url, none⟩)
  | listen (s : World κ ω) (i : κ) (list_url shopping_list uuid : String) (j : Json) (db : Database)
      (hp : (list_url, shopping_list) ∈ s.published)
      (hj : text.getJsonFromUString shopping_list = some j) (hfresh : s.Fresh uuid)
      (hdb : LocalStore.updateList (s.clients i).db list_url uuid j = some db) :
      Step text s { s.setClient i ⟨db, (s.clients i).currentShoppingList⟩ with
        uuids := (i, uuid) :: s.uuids }
  | handle (s : World κ ω) (w : ω) (q : ListRequest) (res : Response) (db : Database)
      (hq : q ∈ s.requests)
      (hres : RequestHandler.handleRequest text q.url_list q.request_type q.body (s.workers w) =
        some (res, db))
      (hreads : res.shopping_list ≠ "" → text.Reads (db.get q.url_list)) :
      Step text s { s with
        workers := Function.update s.workers w db
        published := if res.shopping_list ≠ "" then
          (q.url_list, res.shopping_list) :: s.published else s.published }

/-- A list is in a client's database or session, in a worker's store, or in a message. -/
inductive Occurs (text : JsonText) (s : World κ ω) (l : ShoppingList) : Prop
  | entry (i : κ) (url : String) (j : Json) (hj : (s.clients i).db.find? url = some j)
      (hl : ShoppingList.fromJson j ShoppingList.blank = some l)
  | session (i : κ) (hl : (s.clients i).currentShoppingList = some l)
  | stored (w : ω) (url : String) (j : Json) (hj : (s.workers w).find? url = some j)
      (hl : ShoppingList.fromJson j ShoppingList.blank = some l)
  | request (q : ListRequest) (j : Json) (hq : q ∈ s.requests) (hj : q.json text = some j)
      (hl : ShoppingList.fromJson j ShoppingList.blank = some l)
  | publication (list_url shopping_list : String) (j : Json)
      (hp : (list_url, shopping_list) ∈ s.published)
      (hj : text.getJsonFromUString shopping_list = some j)
      (hl : ShoppingList.fromJson j ShoppingList.blank = some l)

end World

end ShoppingApp
