import ShoppingApp.Lib.SortedMap
import Mathlib.Data.Rat.Init
import Mathlib.Data.String.Basic

/-!
# JSON values and how they are read

JSON values with the accessors of a JSON library for C++: checked ones, which throw, and unchecked
ones, which are undefined on a missing key or index. Reading a container reads its elements one by
one (`getMap`, `getPairMap`), and reads back what was written (`getMap_ofMap`,
`getPairMap_ofPairMap`).
-/

/-- Objects are lists of members with increasing keys. -/
inductive Json
  | null
  | bool (b : Bool)
  | int (n : Int)
  | float (x : Rat)
  | str (s : String)
  | arr (elems : List Json)
  | obj (members : List (String × Json))

/-- How reading fails: an exception is thrown, or the behaviour is undefined. -/
inductive Fault
  | exception
  | undefined
  deriving DecidableEq, Repr

abbrev Decode (α : Type) := Except Fault α

theorem Decode.bind_eq_ok {α β : Type} {x : Decode α} {f : α → Decode β} {b : β}
    (h : x >>= f = .ok b) : ∃ a, x = .ok a ∧ f a = .ok b := by
  cases x with
  | error e => cases h
  | ok a => exact ⟨a, rfl, h⟩

theorem Decode.mapM_ok {α β : Type} {f : α → Decode β} {g : α → β} : ∀ {xs : List α},
    (∀ x ∈ xs, f x = .ok (g x)) → xs.mapM f = .ok (xs.map g)
  | [], _ => rfl
  | x :: xs, h => by
    have hx := h x List.mem_cons_self
    have hxs := Decode.mapM_ok fun y hy => h y (List.mem_cons_of_mem _ hy)
    rw [List.mapM_cons, hx, hxs]
    rfl

/-- A loop whose body never fails. -/
theorem Decode.foldlM_ok {α σ : Type} {f : σ → α → Decode σ} {g : σ → α → σ} : ∀ {xs : List α} {s : σ},
    (∀ x ∈ xs, ∀ s, f s x = .ok (g s x)) → xs.foldlM f s = .ok (xs.foldl g s)
  | [], _, _ => rfl
  | x :: xs, s, h => by
    have hx := h x List.mem_cons_self s
    have hxs := Decode.foldlM_ok (s := g s x) fun y hy => h y (List.mem_cons_of_mem _ hy)
    rw [List.foldlM_cons, hx]
    exact hxs

namespace Json

/-! ## Accessors -/

def isObject : Json → Bool
  | obj _ => true
  | _ => false

/-- `empty()`: strings and numbers never are. -/
def empty : Json → Bool
  | null => true
  | arr elems => elems.isEmpty
  | obj members => members.isEmpty
  | _ => false

/-- The members that a loop over the items of an object visits. -/
def members : Json → List (String × Json)
  | obj members => members
  | _ => []

/-- The keys and values that a loop over `items()` visits: of an array the indices and elements, of
a value without parts the value itself. -/
def items : Json → List (String × Json)
  | null => []
  | arr elems => elems.mapIdx fun index j => (toString index, j)
  | obj members => members
  | j => [("", j)]

/-- The elements that a range-based loop visits. -/
def elements : Json → List Json
  | null => []
  | arr elems => elems
  | obj members => members.map Prod.snd
  | j => [j]

def find? (j : Json) (key : String) : Option Json := SortedMap.findEntry key j.members

/-- The member under `key`, if it is an object. -/
def objectAt (j : Json) (key : String) : Option Json := (j.find? key).filter isObject

/-- The member under `key`, if it is a string. -/
def stringAt (j : Json) (key : String) : Option String :=
  match j.find? key with
  | some (str s) => some s
  | _ => none

/-- `operator[](key)` on a constant: unchecked. -/
def member (j : Json) (key : String) : Decode Json :=
  match j with
  | obj members =>
    match SortedMap.findEntry key members with
    | some v => .ok v
    | none => .error .undefined
  | _ => .error .exception

/-- `operator[](index)` on a constant: unchecked. -/
def elem (j : Json) (index : Nat) : Decode Json :=
  match j with
  | arr elems =>
    match elems[index]? with
    | some v => .ok v
    | none => .error .undefined
  | _ => .error .exception

/-- `at(index)`: checked. -/
def elemAt (j : Json) (index : Nat) : Decode Json :=
  match j with
  | arr elems =>
    match elems[index]? with
    | some v => .ok v
    | none => .error .exception
  | _ => .error .exception

/-- `j[key] = v`: null becomes an object, other values throw. -/
def set (j : Json) (key : String) (v : Json) : Decode Json :=
  match j with
  | null => .ok (obj [(key, v)])
  | obj members => .ok (obj (SortedMap.upsertEntry key (fun _ => v) members))
  | _ => .error .exception

theorem foldlM_set_obj {α : Type} (key : α → String) (value : α → Json) : ∀ (xs : List α)
    (m : SortedMap String Json), xs.foldlM (fun j x => j.set (key x) (value x)) (obj m.entries) =
      .ok (obj ((xs.map fun x => (key x, value x)).foldl (fun m e => m.set e.1 e.2) m).entries)
  | [], _ => rfl
  | x :: xs, m => foldlM_set_obj key value xs (m.set (key x) (value x))

/-- What a loop that starts from null and sets members makes, as a later loop visits it. -/
theorem foldlM_set {α : Type} (key : α → String) (value : α → Json) : ∀ xs : List α,
    ∃ j, xs.foldlM (fun j x => j.set (key x) (value x)) null = .ok j ∧
      j.items = ((xs.map fun x => (key x, value x)).foldl
        (fun (m : SortedMap String Json) e => m.set e.1 e.2) ∅).entries
  | [] => ⟨null, rfl, rfl⟩
  | x :: xs => ⟨_, foldlM_set_obj key value xs ((∅ : SortedMap String Json).set (key x) (value x)), rfl⟩

/-! ## Reading -/

def getString : Json → Decode String
  | str s => .ok s
  | _ => .error .exception

/-- A `long`: numbers only, cut off towards zero. -/
def getLong : Json → Decode Int
  | int n => .ok n
  | float x => .ok (x.num.tdiv x.den)
  | _ => .error .exception

/-- An `int`: also from a boolean. -/
def getInt : Json → Decode Int
  | bool b => .ok (if b then 1 else 0)
  | j => j.getLong

variable {α κ : Type}

def getEntry (get : Json → Decode α) (e : String × Json) : Decode (String × α) := do
  return (e.1, ← get e.2)

/-- A `std::map` with string keys, from an object. -/
def getMap (get : Json → Decode α) (j : Json) : Decode (SortedMap String α) :=
  match j with
  | obj members => do
    let es ← members.mapM (getEntry get)
    return SortedMap.ofList es
  | _ => .error .exception

def getPair (getKey : Json → Decode κ) (get : Json → Decode α) (p : Json) : Decode (κ × α) :=
  match p with
  | arr _ => do
    let k ← getKey (← p.elemAt 0)
    let v ← get (← p.elemAt 1)
    return (k, v)
  | _ => .error .exception

/-- A `std::map` with other keys, from an array of pairs. -/
def getPairMap [LinearOrder κ] (getKey : Json → Decode κ) (get : Json → Decode α) (j : Json) :
    Decode (SortedMap κ α) :=
  match j with
  | arr elems => do
    let es ← elems.mapM (getPair getKey get)
    return SortedMap.ofList es
  | _ => .error .exception

/-! ## What a value shows

Reading a map fails on the first entry that cannot be read. What the map shows is what can be read
of its entries one by one; the two are the same where reading succeeds. -/

/-- The elements that can be read. -/
def readable {β γ : Type} (f : β → Decode γ) (xs : List β) : List γ :=
  xs.filterMap fun x => (f x).toOption

def showMap (get : Json → Decode α) (j : Json) : SortedMap String α :=
  SortedMap.ofList (readable (getEntry get) j.members)

def showPairMap [LinearOrder κ] (getKey : Json → Decode κ) (get : Json → Decode α) (j : Json) :
    SortedMap κ α :=
  match j with
  | arr elems => SortedMap.ofList (readable (getPair getKey get) elems)
  | _ => ∅

theorem readable_of_mapM {β γ : Type} {f : β → Decode γ} : ∀ {xs : List β} {ys : List γ},
    xs.mapM f = .ok ys → readable f xs = ys
  | [], ys, h => by cases h; rfl
  | x :: xs, ys, h => by
    rw [List.mapM_cons] at h
    obtain ⟨y, hx, h⟩ := Decode.bind_eq_ok h
    obtain ⟨zs, hxs, h⟩ := Decode.bind_eq_ok h
    cases h
    have hrest : readable f xs = zs := readable_of_mapM hxs
    unfold readable at hrest ⊢
    rw [List.filterMap_cons, hx, hrest]
    rfl

theorem showMap_of_getMap {get : Json → Decode α} {j : Json} {m : SortedMap String α}
    (h : j.getMap get = .ok m) : j.showMap get = m := by
  cases j with
  | obj members =>
    obtain ⟨es, hes, h⟩ := Decode.bind_eq_ok h
    cases h
    exact congrArg SortedMap.ofList (readable_of_mapM hes)
  | _ => cases h

theorem showPairMap_of_getPairMap [LinearOrder κ] {getKey : Json → Decode κ}
    {get : Json → Decode α} {j : Json} {m : SortedMap κ α} (h : j.getPairMap getKey get = .ok m) :
    j.showPairMap getKey get = m := by
  cases j with
  | arr elems =>
    obtain ⟨es, hes, h⟩ := Decode.bind_eq_ok h
    cases h
    exact congrArg SortedMap.ofList (readable_of_mapM hes)
  | _ => cases h

/-! ## Writing -/

def ofMap (put : α → Json) (m : SortedMap String α) : Json :=
  obj (m.entries.map fun e => (e.1, put e.2))

def ofPairMap [LinearOrder κ] (putKey : κ → Json) (put : α → Json) (m : SortedMap κ α) : Json :=
  arr (m.entries.map fun e => arr [putKey e.1, put e.2])

theorem getMap_ofMap (put : α → Json) (get : Json → Decode α) (h : ∀ a, get (put a) = .ok a)
    (m : SortedMap String α) : (ofMap put m).getMap get = .ok m := by
  have hmembers : (m.entries.map fun e => (e.1, put e.2)).mapM
      (getEntry get) = .ok m.entries := by
    rw [List.mapM_map, Decode.mapM_ok (g := id), List.map_id]
    intro e _
    simp only [Function.comp_apply, getEntry, h]
    rfl
  unfold ofMap getMap
  dsimp only
  rw [hmembers]
  exact congrArg Except.ok m.ofList_entries

theorem getPairMap_ofPairMap [LinearOrder κ] (putKey : κ → Json) (getKey : Json → Decode κ)
    (put : α → Json) (get : Json → Decode α) (hkey : ∀ k, getKey (putKey k) = .ok k)
    (h : ∀ a, get (put a) = .ok a) (m : SortedMap κ α) :
    (ofPairMap putKey put m).getPairMap getKey get = .ok m := by
  unfold ofPairMap getPairMap
  dsimp only
  rw [List.mapM_map, Decode.mapM_ok (g := id), List.map_id]
  · exact congrArg Except.ok m.ofList_entries
  · intro e _
    have hk : getKey (putKey e.1) = .ok e.1 := hkey e.1
    have hv : get (put e.2) = .ok e.2 := h e.2
    simp only [Function.comp_apply, getPair, elemAt, List.getElem?_cons_zero,
      List.getElem?_cons_succ]
    simp only [bind, Except.bind, hk, hv]
    rfl

end Json
