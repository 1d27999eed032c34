import ShoppingApp.Client.LocalStore
import ShoppingApp.Lib.Cin

/-!
# The client's console

`main` of `src/client/main.cpp` with the functions that read from `std::cin`. The result of a loop
is `none` if it has not ended after the given number of rounds, or if it reads a variable that
nothing has been written to.
-/

namespace ShoppingApp

namespace Console

/-! ## Products -/

/-- The loop for a quantity. -/
def readQuantity : ℕ → Option Int → Cin → Option (Int × Cin)
  | 0, _, _ => none
  | fuel + 1, quantity, cin =>
    let r := cin.readInt
    match r.1.or quantity with
    | none => none
    | some quantity =>
      if quantity ≤ 0 then readQuantity fuel (some quantity) r.2 else some (quantity, r.2)

/-- The outer loop ends in its first round. -/
def addProductsToList (fuel : ℕ) (cin : Cin) (shoppingList : ShoppingList) :
    Option (Cin × ShoppingList) :=
  let r := cin.readWord
  let product_name := r.1.getD ""
  if product_name = "q" then some (r.2, shoppingList)
  else do
    let (quantity, cin) ← readQuantity fuel none r.2
    let created := shoppingList.createItem product_name quantity
    return (cin, if created.1 then created.2
      else (shoppingList.increaseItem product_name quantity).2)

/-- The outer loop asks again for a product that is not on the list. -/
def buyProductsFromList : ℕ → String → Cin → ShoppingList → Option (Cin × ShoppingList)
  | 0, _, _, _ => none
  | fuel + 1, product_name, cin, shoppingList =>
    let r := cin.readWord
    let product_name := r.1.getD product_name
    if product_name = "q" then some (r.2, shoppingList)
    else if !shoppingList.contains product_name then
      buyProductsFromList fuel product_name r.2 shoppingList
    else do
      let (quantity, cin) ← readQuantity (fuel + 1) none r.2
      return (cin, (shoppingList.buyItem product_name quantity).2)

/-- The loop on the list that the user has picked. -/
def updateLoop : ℕ → Int → Cin → ShoppingList → Option (Cin × ShoppingList)
  | 0, _, _, _ => none
  | fuel + 1, update_choice, cin, shoppingList =>
    if update_choice = 0 then some (cin, shoppingList)
    else
      let r := cin.readInt
      let update_choice := r.1.getD update_choice
      if update_choice = 1 then do
        let (cin, shoppingList) ← addProductsToList fuel r.2 shoppingList
        updateLoop fuel update_choice cin shoppingList
      else if update_choice = 2 then do
        let (cin, shoppingList) ← buyProductsFromList fuel "" r.2 shoppingList
        updateLoop fuel update_choice cin shoppingList
      else updateLoop fuel update_choice r.2 shoppingList

/-- The loop for the choice in the menu, which skips a line that does not begin with a number. -/
def readChoice : ℕ → Cin → Option (Int × Cin)
  | 0, _ => none
  | fuel + 1, cin =>
    let r := cin.readInt
    if r.2.fail then readChoice fuel r.2.clear.ignoreLine
    else r.1.map fun choice => (choice, r.2)

/-! ## The main loop -/

/-- Where the main thread is: at the top of the loop; with an answer that it looks for in its
database, or has found there; with a list that has been worked on, before and after
`saveListToLocal` has read the entry that it writes over; after the `switch`, with what it may send;
or behind the loop. -/
inductive Position
  | menu
  | picked
  | found (update_list_list_url : String)
  | edited (update_list_list_url : String) (currentShoppingList : ShoppingList)
  | saving (update_list_list_url : String) (currentShoppingList : ShoppingList)
      (databaseShoppingList : Json)
  | picked_to_delete
  | found_to_delete (update_list_list_url : String)
  | create_list (newShoppingList : ShoppingList)
  | get_list (get_list_url : String)
  | update_list (update_list_list_url : String) (currentShoppingList : ShoppingList)
  | delete_list
  | stopped

structure Main where
  cin : Cin
  position : Position

/-- From the top of the loop, with the identifier that `generateUUID` gives, to a look at the
database. -/
def menu (fuel : ℕ) (list_id : String) (cin : Cin) (db : Database) : Option (Main × Database) := do
  let (choice, cin) ← readChoice fuel cin
  if choice = 1 then
    let r := cin.readWord
    let newShoppingList := ShoppingList.new list_id (r.1.getD "") ("msla-" ++ list_id)
    return (⟨r.2, .create_list newShoppingList⟩, db.set newShoppingList.url newShoppingList.toJson)
  else if choice = 2 then
    let r := cin.readWord
    return (⟨r.2, .get_list (r.1.getD "")⟩, db)
  else if choice = 3 then
    return (⟨cin, if db.keys = [] then .update_list "" ShoppingList.blank else .picked⟩, db)
  else if choice = 4 then
    return (⟨cin, if db.keys = [] then .delete_list else .picked_to_delete⟩, db)
  else if choice = 0 then return (⟨cin, .stopped⟩, db)
  else return (⟨cin, .menu⟩, db)

/-- The look-up of a url that the user gives, with the positions for one that is there and for one
that is not. -/
def lookUp (cin : Cin) (db : Database) (there absent : String → Position) : Main :=
  let r := cin.readWord
  let update_list_list_url := r.1.getD ""
  ⟨r.2, if db.exist update_list_list_url then there update_list_list_url
    else absent update_list_list_url⟩

/-- The list that the user has picked, and the work on it. -/
def edit (fuel : ℕ) (cin : Cin) (update_list_list_url : String) (currentShoppingListJson : Json) :
    Option Main :=
  if currentShoppingListJson.empty then
    some ⟨cin, .update_list update_list_list_url ShoppingList.blank⟩
  else do
    let currentShoppingList ← ShoppingList.fromJson currentShoppingListJson ShoppingList.blank
    let (cin, currentShoppingList) ← updateLoop fuel (-1) cin currentShoppingList
    return ⟨cin, .edited update_list_list_url currentShoppingList⟩

/-- What the main thread does up to and with its next request to the database, if it makes one, and
from there to where it waits for its user or makes another: other threads may use the database
between any two of these. -/
def step (fuel : ℕ) (list_id : String) (m : Main) (db : Database) : Option (Main × Database) :=
  match m.position with
  | .menu => menu fuel list_id m.cin db
  | .picked => some (lookUp m.cin db .found fun url => .update_list url ShoppingList.blank, db)
  | .found url => (edit fuel m.cin url (db.get url)).map fun m => (m, db)
  | .edited url l => some (⟨m.cin, .saving url l (db.get l.url)⟩, db)
  | .saving url l j =>
    (LocalStore.savedValue l j).map fun value => (⟨m.cin, .update_list url l⟩, db.set l.url value)
  | .picked_to_delete => some (lookUp m.cin db .found_to_delete fun _ => .delete_list, db)
  | .found_to_delete url => some (⟨m.cin, .delete_list⟩, db.del url)
  | .create_list _ | .get_list _ | .update_list _ _ | .delete_list => some (⟨m.cin, .menu⟩, db)
  | .stopped => none

/-- Whether a message goes to the broker at the end of a round. -/
def sends (cloud_mode : Bool) (db : Database) : Position → Bool
  | .create_list _ | .get_list _ => cloud_mode
  | .update_list url _ => cloud_mode && db.exist url
  | _ => false

end Console

end ShoppingApp
