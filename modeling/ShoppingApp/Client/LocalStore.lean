import ShoppingApp.Database

/-!
# The client's two writers

`saveListToLocal` and `updateList` of `src/client/main.cpp`. Each reads the database, works on what
it has read, and writes; the database's lock is held for single requests only. The main thread runs
the first and the listener thread the second, so they are also given as machines that issue one
database request at a time (`Writers`, `step`).
-/

namespace ShoppingApp

namespace LocalStore

/-- What `saveListToLocal` writes, given what it has read. -/
def savedValue (shoppingList : ShoppingList) (databaseShoppingList : Json) : Option Json :=
  if databaseShoppingList.empty then some shoppingList.toJson
  else do
    let databaseList ← ShoppingList.fromJson databaseShoppingList ShoppingList.blank
    return (databaseList.join shoppingList).2.toJson

/-- What `updateList` writes over an entry it has read; `join` decodes the list that was sent. -/
def updatedValue (shoppingList databaseShoppingList : Json) : Option Json := do
  let databaseList ← ShoppingList.fromJson databaseShoppingList ShoppingList.blank
  let received ← ShoppingList.fromJson shoppingList ShoppingList.blank
  return (databaseList.join received).2.toJson

/-- What `updateList` writes where there is no entry: the list sent, under an id of its own. -/
def createdValue (uuid : String) (shoppingList : Json) : Option Json :=
  match shoppingList.set "id" (.str uuid) with
  | .ok j => some j
  | .error _ => none

def saveListToLocal (db : Database) (shoppingList : ShoppingList) : Option Database := do
  let value ← savedValue shoppingList (db.get shoppingList.url)
  return db.set shoppingList.url value

def updateList (db : Database) (list_url : String) (uuid : String) (shoppingList : Json) :
    Option Database :=
  if db.exist list_url then do
    let value ← updatedValue shoppingList (db.get list_url)
    return db.set list_url value
  else do
    let value ← createdValue uuid shoppingList
    return db.set list_url value

/-! ## One request at a time -/

/-- Where the main thread is in `saveListToLocal`. -/
inductive Saver
  | start
  | read (databaseShoppingList : Json)
  | done

/-- Where the listener thread is in `updateList`. -/
inductive Updater
  | start
  | found
  | absent
  | read (databaseShoppingList : Json)
  | done

inductive Thread
  | main
  | listener
  deriving DecidableEq, Repr

structure Writers where
  saver : Saver
  updater : Updater
  db : Database

/-- The arguments of the two calls: one list each, and the id for a new entry. -/
structure Calls where
  list_url : String
  saved : ShoppingList
  received : Json
  uuid : String

/-- The next database request of a thread; none when it has finished. -/
def step (c : Calls) (w : Writers) : Thread → Option Writers
  | .main =>
    match w.saver with
    | .start => some { w with saver := .read (w.db.get c.saved.url) }
    | .read j => do
      let value ← savedValue c.saved j
      return { w with saver := .done, db := w.db.set c.saved.url value }
    | .done => none
  | .listener =>
    match w.updater with
    | .start => some { w with updater := if w.db.exist c.list_url then .found else .absent }
    | .found => some { w with updater := .read (w.db.get c.list_url) }
    | .read j => do
      let value ← updatedValue c.received j
      return { w with updater := .done, db := w.db.set c.list_url value }
    | .absent => do
      let value ← createdValue c.uuid c.received
      return { w with updater := .done, db := w.db.set c.list_url value }
    | .done => none

/-- The threads' requests in the order of a schedule. -/
def run (c : Calls) (schedule : List Thread) (w : Writers) : Option Writers :=
  schedule.foldlM (step c) w

def begin (db : Database) : Writers := ⟨.start, .start, db⟩

/-- The position of a thread's request with the given number in a schedule. -/
def position (thread : Thread) : Nat → List Thread → Nat
  | _, [] => 0
  | n, t :: ts =>
    if t = thread then
      match n with
      | 0 => 0
      | n + 1 => position thread n ts + 1
    else position thread n ts + 1

/-- Each thread reads before the other one writes. The listener's last look at the database is its
second request if the first has found an entry, and else the first. -/
def Overlaps (entry : Bool) (schedule : List Thread) : Prop :=
  let found := entry || decide (position .main 1 schedule < position .listener 0 schedule)
  let look := if found then 1 else 0
  position .main 0 schedule < position .listener (look + 1) schedule ∧
    position .listener look schedule < position .main 1 schedule

instance (entry : Bool) (schedule : List Thread) : Decidable (Overlaps entry schedule) :=
  inferInstanceAs (Decidable (_ ∧ _))

end LocalStore

end ShoppingApp
