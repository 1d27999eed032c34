import ShoppingApp.Verify.Codec

/-!
# The database

`Database` of `src/database.h`: JSON values under string keys. Client and worker databases hold
encoded lists (`Database.WF`), and `Database.list` is the list that decoding gives.
-/

namespace ShoppingApp

abbrev Database := SortedMap String Json

namespace Database

/-- A missing key reads as null. -/
def get (db : Database) (key : String) : Json := (db.find? key).getD .null

def exist (db : Database) (key : String) : Bool := (db.find? key).isSome

def del (db : Database) (key : String) : Database := db.erase key

theorem get_set_self (db : Database) (key : String) (j : Json) : get (db.set key j) key = j := by
  unfold get
  rw [SortedMap.find?_set_self]
  rfl

theorem exist_set_self (db : Database) (key : String) (j : Json) :
    exist (db.set key j) key = true := by
  unfold exist
  rw [SortedMap.find?_set_self]
  rfl

/-- Every value is the encoding of a well-formed list. -/
def WF (db : Database) : Prop :=
  ∀ url j, db.find? url = some j → ∃ l : ShoppingList, l.WF ∧ j = l.toJson

/-- The list that decoding the value under `url` gives; without items if there is none. -/
def list (db : Database) (url : String) : ShoppingList :=
  (ShoppingList.fromJson (get db url) ShoppingList.blank).getD ShoppingList.blank

theorem list_of_find?_none {db : Database} {url : String} (h : db.find? url = none) :
    list db url = ShoppingList.blank := by
  unfold list get
  rw [h]
  rfl

theorem list_of_find? {db : Database} {url : String} {l : ShoppingList} (hl : l.WF)
    (h : db.find? url = some l.toJson) : list db url = l := by
  unfold list get
  rw [h]
  exact congrArg (fun o => Option.getD o ShoppingList.blank) (hl.fromJson_toJson "" "" "")

theorem list_of_get {db : Database} {url : String} {l : ShoppingList} (hl : l.WF)
    (h : get db url = l.toJson) : list db url = l := by
  unfold list
  rw [h]
  exact congrArg (fun o => Option.getD o ShoppingList.blank) (hl.fromJson_toJson "" "" "")

theorem list_set_self (db : Database) (url : String) {l : ShoppingList} (hl : l.WF) :
    list (db.set url l.toJson) url = l :=
  list_of_find? hl (by simp)

theorem WF.empty : WF (∅ : Database) := by
  intro url j h
  simp at h

theorem WF.set {db : Database} (h : WF db) (url : String) {l : ShoppingList} (hl : l.WF) :
    WF (db.set url l.toJson) := by
  intro url' j hj
  rw [SortedMap.find?_set] at hj
  split_ifs at hj
  · cases hj
    exact ⟨l, hl, rfl⟩
  · exact h url' j hj

/-- What is under a url of a well-formed database. -/
theorem WF.cases {db : Database} (h : WF db) (url : String) :
    (db.find? url = none ∧ list db url = ShoppingList.blank) ∨
    (db.find? url = some (list db url).toJson ∧ (list db url).WF) := by
  cases hurl : db.find? url with
  | none => exact .inl ⟨rfl, list_of_find?_none hurl⟩
  | some j =>
    obtain ⟨l, hl, rfl⟩ := h url j hurl
    rw [list_of_find? hl hurl]
    exact .inr ⟨rfl, hl⟩

theorem WF.list {db : Database} (h : WF db) (url : String) : (list db url).WF := by
  rcases h.cases url with ⟨-, hlist⟩ | ⟨-, hwf⟩
  · rw [hlist]
    exact ShoppingList.WF.blank
  · exact hwf

theorem WF.fromJson_get {db : Database} (h : WF db) (url : String) :
    ShoppingList.fromJson (get db url) ShoppingList.blank = some (Database.list db url) := by
  unfold get
  rcases h.cases url with ⟨hnone, hlist⟩ | ⟨hsome, hwf⟩
  · rw [hnone, hlist]
    rfl
  · rw [hsome]
    exact hwf.fromJson_toJson "" "" ""

end Database

end ShoppingApp
