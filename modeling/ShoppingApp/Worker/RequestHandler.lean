import ShoppingApp.Crdt.Codec
import ShoppingApp.Database
import ShoppingApp.Zmq.ZMsg

/-!
# The worker's request handler

`handleRequest` of `src/worker/request_handler.cpp`. The JSON library's text form is a parameter:
`parse` and `dump`. A message is the list of its remaining frames; what reads it as a C string
stops at the first NUL. An uncaught exception or undefined behaviour ends the worker: none.
-/

namespace ShoppingApp

/-- The text form of JSON values. -/
structure JsonText where
  parse : String → Option Json
  dump : Json → String

structure Response where
  reply : String
  shopping_list : String
  deriving DecidableEq, Repr

namespace JsonText

/-- `getJsonFromUString` -/
def getJsonFromUString (text : JsonText) (frame : String) : Option Json := text.parse (cStr frame)

/-- `getStringFromJson` -/
def getStringFromJson (text : JsonText) (j : Json) : String := text.dump j

end JsonText

namespace RequestHandler

/-- The branch for CREATE_LIST, with the list read: what is stored and under which url. -/
def createList (j : Json) (db : Database) : Option (Json × Database) := do
  let new_list ← ShoppingList.fromJson j ShoppingList.blank
  let new_list := new_list.setId ""
  let shopping_list := new_list.toJson
  return (shopping_list, db.set new_list.url shopping_list)

/-- The branch for UPDATE_LIST, with the received list read. -/
def updateList (url_list : String) (j : Json) (db : Database) : Option (Json × Database) := do
  let new_list ← ShoppingList.fromJson j ShoppingList.blank
  let stored_list ← ShoppingList.fromJson (Database.get db url_list) ShoppingList.blank
  let stored_list := (stored_list.join new_list).2
  let stored_shopping_list := stored_list.toJson
  return (stored_shopping_list, db.set url_list stored_shopping_list)

def handleRequest (text : JsonText) (url_list request : String) (msg : ZMsg)
    (db : Database) : Option (Response × Database) :=
  if request = "CREATE_LIST" then
    match msg with
    | _list_name :: shopping_list_str :: _ => do
      let j ← text.getJsonFromUString shopping_list_str
      let r ← createList j db
      return (⟨"Created shopping list with success!", text.getStringFromJson r.1⟩, r.2)
    | _ => none
  else if request = "GET_LIST" then
    let shopping_list := match Database.get db url_list with
      | .null => ""
      | j => text.getStringFromJson j
    some (⟨"Retrieved shopping list with success!", shopping_list⟩, db)
  else if request = "UPDATE_LIST" then
    match msg with
    | received_shopping_list_str :: _ => do
      let j ← text.getJsonFromUString received_shopping_list_str
      let r ← updateList url_list j db
      return (⟨"Updated shopping list with success!", text.getStringFromJson r.1⟩, r.2)
    | [] => none
  else some (⟨"unknown request", ""⟩, db)

end RequestHandler

end ShoppingApp
