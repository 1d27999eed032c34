import Mathlib.Data.List.Perm.Basic
import Mathlib.Data.List.Sort
import Mathlib.Order.Lattice

/-!
# Sorted finite maps and sets

A finite map kept as the strictly increasing list of its entries, and a finite set kept as the
strictly increasing list of its elements: the meaning of an ordered associative container whose
iterators walk the keys in order. The order is a field of the structure, so two containers that
answer every lookup alike are equal (`SortedMap.ext_find`, `SortedSet.ext_mem`).

* `upsert` covers both ways of writing one key: `set` overwrites, `insert` keeps what is there.
* `mergeLoop` is the walk of two iterators over two containers in key order, with a state that
  every step may change; `find?_merge` says what it computes when each step restores the state.
-/

/-- A finite map as the strictly increasing list of its entries. -/
structure SortedMap (K V : Type*) [LT K] where
  entries : List (K × V)
  sorted : entries.Pairwise fun a b => a.1 < b.1

/-- A finite set as the strictly increasing list of its elements. -/
structure SortedSet (K : Type*) [LT K] where
  elems : List K
  sorted : elems.Pairwise (· < ·)

namespace SortedMap

variable {K V W U : Type*} [LinearOrder K]

/-! ## Lookup -/

/-- The value of the first entry with key `k`. -/
def findEntry (k : K) : List (K × V) → Option V
  | [] => none
  | e :: es => if e.1 = k then some e.2 else findEntry k es

/-- The value stored at `k`. -/
def find? (m : SortedMap K V) (k : K) : Option V := findEntry k m.entries

/-- Whether `k` is a key. -/
def contains (m : SortedMap K V) (k : K) : Bool := (m.find? k).isSome

/-- The keys, in order. -/
def keys (m : SortedMap K V) : List K := m.entries.map Prod.fst

theorem findEntry_of_forall_ne {k : K} : ∀ {es : List (K × V)}, (∀ e ∈ es, e.1 ≠ k) →
    findEntry k es = none
  | [], _ => rfl
  | e :: es, h => by
    simp only [findEntry, h e List.mem_cons_self, if_false]
    exact findEntry_of_forall_ne fun e' he' => h e' (List.mem_cons_of_mem _ he')

theorem findEntry_none_of_lt {k : K} {es : List (K × V)} (h : ∀ e ∈ es, k < e.1) :
    findEntry k es = none :=
  findEntry_of_forall_ne fun e he => (h e he).ne'

/-- Among entries with different keys. -/
theorem findEntry_eq_some {k : K} {v : V} : ∀ {es : List (K × V)},
    es.Pairwise (fun a b => a.1 ≠ b.1) → (findEntry k es = some v ↔ (k, v) ∈ es)
  | [], _ => by simp [findEntry]
  | e :: es, h => by
    obtain ⟨hne, hes⟩ := List.pairwise_cons.1 h
    simp only [findEntry, List.mem_cons]
    by_cases hk : e.1 = k
    · have hno : (k, v) ∉ es := fun hm => hne _ hm hk
      simp only [hk, if_true, Option.some.injEq, hno, or_false]
      constructor
      · rintro rfl; exact Prod.ext hk.symm rfl
      · rintro rfl; rfl
    · have hne : (k, v) ≠ e := fun h' => hk (by rw [← h'])
      simp only [hk, if_false, hne, false_or, findEntry_eq_some hes]

/-- The entries have different keys. -/
theorem distinct (m : SortedMap K V) : m.entries.Pairwise fun a b => a.1 ≠ b.1 :=
  m.sorted.imp ne_of_lt

theorem find?_eq_some (m : SortedMap K V) {k : K} {v : V} :
    m.find? k = some v ↔ (k, v) ∈ m.entries :=
  findEntry_eq_some m.distinct

theorem mem_keys (m : SortedMap K V) {k : K} : k ∈ m.keys ↔ ∃ v, m.find? k = some v := by
  simp [keys, find?_eq_some]

/-- Maps with the same lookups are equal. -/
theorem ext_find {m n : SortedMap K V} (h : ∀ k, m.find? k = n.find? k) : m = n := by
  have hmem : ∀ e : K × V, e ∈ m.entries ↔ e ∈ n.entries := by
    rintro ⟨k, v⟩
    rw [← find?_eq_some, ← find?_eq_some, h k]
  have hirr : Std.Irrefl fun a b : K × V => a.1 < b.1 := ⟨fun a => lt_irrefl a.1⟩
  have hasym : Std.Antisymm fun a b : K × V => a.1 < b.1 :=
    ⟨fun a b hab hba => absurd hab hba.asymm⟩
  have heq : m.entries = n.entries := m.sorted.eq_of_mem_iff n.sorted hmem
  cases m; cases n; cases heq; rfl

instance [DecidableEq V] : DecidableEq (SortedMap K V) := fun m n =>
  decidable_of_iff (m.entries = n.entries)
    ⟨fun h => by cases m; cases n; cases h; rfl, fun h => h ▸ rfl⟩

/-! ## Empty, filter, map -/

/-- The map with no entries. -/
def empty : SortedMap K V := ⟨[], List.Pairwise.nil⟩

instance : EmptyCollection (SortedMap K V) := ⟨empty⟩
instance : Inhabited (SortedMap K V) := ⟨empty⟩

@[simp] theorem find?_empty (k : K) : (∅ : SortedMap K V).find? k = none := rfl

@[simp] theorem entries_empty : (∅ : SortedMap K V).entries = [] := rfl

/-- The entries that satisfy `p`. -/
def filter (p : K → V → Bool) (m : SortedMap K V) : SortedMap K V :=
  ⟨m.entries.filter fun e => p e.1 e.2, m.sorted.filter _⟩

theorem find?_filter (p : K → V → Bool) (m : SortedMap K V) (k : K) :
    (m.filter p).find? k = (m.find? k).filter (p k) := by
  refine Option.ext fun v => ?_
  rw [find?_eq_some, Option.filter_eq_some_iff, find?_eq_some]
  simp [filter]

/-- Drop the entry at `k`. -/
def erase (m : SortedMap K V) (k : K) : SortedMap K V := m.filter fun k' _ => decide (k' ≠ k)

theorem find?_erase (m : SortedMap K V) (k k' : K) :
    (m.erase k).find? k' = if k' = k then none else m.find? k' := by
  rw [erase, find?_filter]
  by_cases h : k' = k <;> cases m.find? k' <;> simp [h]

/-- Dropping the entries at several keys. -/
theorem find?_foldl_erase {α : Type*} (key : α → K) (k : K) : ∀ (xs : List α) (m : SortedMap K V),
    (xs.foldl (fun m x => m.erase (key x)) m).find? k =
      if k ∈ xs.map key then none else m.find? k
  | [], _ => rfl
  | x :: xs, m => by
    rw [List.foldl_cons, find?_foldl_erase key k xs, find?_erase, List.map_cons]
    by_cases hx : k = key x <;> simp [hx]

theorem foldl_erase_entries (m : SortedMap K V) :
    m.entries.foldl (fun m e => m.erase e.1) m = ∅ := by
  refine ext_find fun k => ?_
  rw [find?_foldl_erase, find?_empty]
  split_ifs with hk
  · rfl
  · exact Option.eq_none_iff_forall_ne_some.2 fun v hv => hk (m.mem_keys.2 ⟨v, hv⟩)

/-- Change every value, keeping the keys. -/
def mapVal (f : K → V → W) (m : SortedMap K V) : SortedMap K W :=
  ⟨m.entries.map fun e => (e.1, f e.1 e.2), List.pairwise_map.2 m.sorted⟩

theorem find?_mapVal (f : K → V → W) (m : SortedMap K V) (k : K) :
    (m.mapVal f).find? k = (m.find? k).map (f k) := by
  obtain ⟨es, hs⟩ := m
  simp only [mapVal, find?]
  clear hs
  induction es with
  | nil => rfl
  | cons e es ih =>
    by_cases h : e.1 = k
    · subst h; simp [findEntry]
    · simp [findEntry, h, ih]

/-! ## Writing one key -/

/-- Write `f old` at `k` in a list of entries sorted by key. -/
def upsertEntry (k : K) (f : Option V → V) : List (K × V) → List (K × V)
  | [] => [(k, f none)]
  | e :: es =>
    if k < e.1 then (k, f none) :: e :: es
    else if e.1 < k then e :: upsertEntry k f es
    else (k, f (some e.2)) :: es

theorem mem_upsertEntry_key {k : K} {f : Option V → V} {x : K × V} : ∀ {es : List (K × V)},
    x ∈ upsertEntry k f es → x.1 = k ∨ x ∈ es
  | [], h => by simp [upsertEntry] at h; exact .inl (by rw [h])
  | e :: es, h => by
    simp only [upsertEntry] at h
    split_ifs at h
    · rcases List.mem_cons.1 h with rfl | h
      · exact .inl rfl
      · exact .inr h
    · rcases List.mem_cons.1 h with rfl | h
      · exact .inr List.mem_cons_self
      · exact (mem_upsertEntry_key h).imp_right (List.mem_cons_of_mem _)
    · rcases List.mem_cons.1 h with rfl | h
      · exact .inl rfl
      · exact .inr (List.mem_cons_of_mem _ h)

theorem lt_of_lt_head {k : K} {e : K × V} {es : List (K × V)} (hk : k < e.1)
    (hlt : ∀ x ∈ es, e.1 < x.1) : ∀ x ∈ e :: es, k < x.1 := by
  intro x hx
  rcases List.mem_cons.1 hx with rfl | hx
  · exact hk
  · exact hk.trans (hlt x hx)

theorem upsertEntry_sorted (k : K) (f : Option V → V) : ∀ {es : List (K × V)},
    es.Pairwise (fun a b => a.1 < b.1) → (upsertEntry k f es).Pairwise fun a b => a.1 < b.1
  | [], _ => by simp [upsertEntry]
  | e :: es, h => by
    obtain ⟨hlt, hes⟩ := List.pairwise_cons.1 h
    simp only [upsertEntry]
    split_ifs with h1 h2
    · exact List.pairwise_cons.2 ⟨lt_of_lt_head h1 hlt, h⟩
    · refine List.pairwise_cons.2 ⟨fun x hx => ?_, upsertEntry_sorted k f hes⟩
      rcases mem_upsertEntry_key hx with hk | hx
      · rw [hk]; exact h2
      · exact hlt x hx
    · have hk : k = e.1 := le_antisymm (not_lt.1 h2) (not_lt.1 h1)
      exact List.pairwise_cons.2 ⟨fun x hx => hk ▸ hlt x hx, hes⟩

/-- Write `f old` at `k`, where `old` is the value stored there, if any. -/
def upsert (m : SortedMap K V) (k : K) (f : Option V → V) : SortedMap K V :=
  ⟨upsertEntry k f m.entries, upsertEntry_sorted k f m.sorted⟩

theorem find?_upsert (m : SortedMap K V) (k : K) (f : Option V → V) (k' : K) :
    (m.upsert k f).find? k' = if k' = k then some (f (m.find? k)) else m.find? k' := by
  obtain ⟨es, hs⟩ := m
  simp only [upsert, find?]
  induction es with
  | nil => by_cases h : k = k' <;> simp [upsertEntry, findEntry, h, Ne.symm]
  | cons e es ih =>
    obtain ⟨hlt, hes⟩ := List.pairwise_cons.1 hs
    simp only [upsertEntry]
    split_ifs with h1 h2 h3 h4 h5
    · have hno : findEntry k (e :: es) = none := findEntry_none_of_lt (lt_of_lt_head h1 hlt)
      subst h2; simp [findEntry] at hno ⊢; simp [hno]
    · have : k ≠ k' := fun h => h2 h.symm
      simp [findEntry, this]
    · have hne : e.1 ≠ k' := h4 ▸ h3.ne
      have := ih hes
      simp only [h4, if_true] at this hne ⊢
      simp [findEntry, hne, this]
    · have := ih hes
      simp only [h4, if_false] at this
      simp [findEntry, this]
    · have hk : e.1 = k := le_antisymm (not_lt.1 h1) (not_lt.1 h3)
      subst h5; simp [findEntry, hk]
    · have hk : e.1 = k := le_antisymm (not_lt.1 h1) (not_lt.1 h3)
      have : k ≠ k' := fun h => h5 h.symm
      simp [findEntry, hk, this]

/-- Overwrite the value at `k`. -/
def set (m : SortedMap K V) (k : K) (v : V) : SortedMap K V := m.upsert k fun _ => v

/-- Add `v` at `k` unless `k` is a key already. -/
def insert (m : SortedMap K V) (k : K) (v : V) : SortedMap K V := m.upsert k fun o => o.getD v

theorem find?_set (m : SortedMap K V) (k : K) (v : V) (k' : K) :
    (m.set k v).find? k' = if k' = k then some v else m.find? k' :=
  find?_upsert m k _ k'

@[simp] theorem find?_set_self (m : SortedMap K V) (k : K) (v : V) :
    (m.set k v).find? k = some v := by simp [find?_set]

theorem find?_set_ne (m : SortedMap K V) {k k' : K} (v : V) (h : k' ≠ k) :
    (m.set k v).find? k' = m.find? k' := by simp [find?_set, h]

theorem find?_insert (m : SortedMap K V) (k : K) (v : V) (k' : K) :
    (m.insert k v).find? k' = if k' = k then some ((m.find? k).getD v) else m.find? k' :=
  find?_upsert m k _ k'

theorem upsert_eq_set (m : SortedMap K V) (k : K) (f : Option V → V) :
    m.upsert k f = m.set k (f (m.find? k)) := by
  refine ext_find fun k' => ?_
  rw [find?_upsert, find?_set]

/-- Insert the entries of a list one after another. -/
def ofList (es : List (K × V)) : SortedMap K V := es.foldl (fun m e => m.insert e.1 e.2) ∅

/-- Inserting entries whose keys lie above a map's keys, in order, appends them. -/
theorem find?_foldl_insert (es : List (K × V)) : ∀ (m : SortedMap K V) (k : K),
    (es.foldl (fun m e => m.insert e.1 e.2) m).find? k = (m.find? k).or (findEntry k es) := by
  induction es with
  | nil => intro m k; simp [findEntry]
  | cons e es ih =>
    intro m k
    rw [List.foldl_cons, ih, find?_insert]
    by_cases h : k = e.1
    · subst h; cases hm : m.find? e.1 <;> simp [findEntry]
    · have h' : e.1 ≠ k := fun h' => h h'.symm
      simp [findEntry, h, h']

/-- Reading a map's own entries back gives the map. -/
theorem ofList_entries (m : SortedMap K V) : ofList m.entries = m :=
  ext_find fun k => by rw [ofList, find?_foldl_insert]; simp [find?, findEntry]

/-- Updating a map at every key of a list of different keys, in order. -/
theorem find?_foldl_upsert (f : K → V → Option W → W) (k : K) :
    ∀ {es : List (K × V)} (n : SortedMap K W), es.Pairwise (fun a b => a.1 ≠ b.1) →
    (es.foldl (fun n e => n.upsert e.1 (f e.1 e.2)) n).find? k =
      ((findEntry k es).map fun v => f k v (n.find? k)).or (n.find? k)
  | [], n, _ => by simp [findEntry]
  | e :: es, n, h => by
    obtain ⟨hne, hes⟩ := List.pairwise_cons.1 h
    rw [List.foldl_cons, find?_foldl_upsert f k _ hes, find?_upsert]
    by_cases hk : k = e.1
    · subst hk
      rw [findEntry_of_forall_ne fun x hx => (hne x hx).symm]
      simp [findEntry]
    · have hk' : e.1 ≠ k := fun h' => hk h'.symm
      simp [findEntry, hk, hk']

/-- Setting every entry of a list of different keys, in order. -/
theorem find?_foldl_set (f : K → V → W) (k : K) {es : List (K × V)} (n : SortedMap K W)
    (h : es.Pairwise fun a b => a.1 ≠ b.1) :
    (es.foldl (fun n e => n.set e.1 (f e.1 e.2)) n).find? k =
      ((findEntry k es).map (f k)).or (n.find? k) :=
  find?_foldl_upsert (fun k v _ => f k v) k n h

/-- The entries of a list of different keys make up a map, whatever their order. -/
theorem find?_foldl_set_eq_some {es : List (K × V)} (h : es.Pairwise fun a b => a.1 ≠ b.1) {k : K}
    {v : V} : (es.foldl (fun (m : SortedMap K V) e => m.set e.1 e.2) ∅).find? k = some v ↔
      (k, v) ∈ es := by
  rw [find?_foldl_set (fun _ v => v) k ∅ h, find?_empty, Option.or_none, ← findEntry_eq_some h]
  simp

/-- What is found after setting several keys was there or has been set. -/
theorem of_find?_foldl_set {k : K} {v : V} {es : List (K × V)} : ∀ {m : SortedMap K V},
    (es.foldl (fun (m : SortedMap K V) e => m.set e.1 e.2) m).find? k = some v →
      m.find? k = some v ∨ (k, v) ∈ es := by
  induction es with
  | nil => exact fun h => .inl h
  | cons e es ih =>
    intro m h
    rcases ih h with hset | hmem
    · rw [find?_set] at hset
      split_ifs at hset with hk
      · cases hset
        exact .inr (List.mem_cons.2 (.inl (Prod.ext hk rfl)))
      · exact .inl hset
    · exact .inr (List.mem_cons_of_mem e hmem)

theorem entries_foldl_set_perm {es : List (K × V)} (h : es.Pairwise fun a b => a.1 ≠ b.1) :
    (es.foldl (fun (m : SortedMap K V) e => m.set e.1 e.2) ∅).entries.Perm es := by
  have hnodup : ∀ {es : List (K × V)}, (es.Pairwise fun a b => a.1 ≠ b.1) → es.Nodup :=
    fun hes => hes.imp fun hne heq => hne (congrArg Prod.fst heq)
  refine (List.perm_ext_iff_of_nodup (hnodup (distinct _)) (hnodup h)).2 ?_
  rintro ⟨k, v⟩
  rw [← find?_eq_some, find?_foldl_set_eq_some h]

/-- The entries of a map, set in any order, rebuild it. -/
theorem foldl_set_of_perm {es : List (K × V)} {m : SortedMap K V} (h : es.Perm m.entries) :
    es.foldl (fun (n : SortedMap K V) e => n.set e.1 e.2) ∅ = m := by
  have hdistinct : es.Pairwise fun a b => a.1 ≠ b.1 := (h.pairwise_iff Ne.symm).2 m.distinct
  refine ext_find fun k => Option.ext fun v => ?_
  rw [find?_foldl_set_eq_some hdistinct, h.mem_iff, find?_eq_some]

/-- A map written under other keys, and read in any order: every entry is read that was written. -/
theorem exists_of_perm_foldl_set {κ : Type*} [LinearOrder κ] {f : K × V → κ × W} {m : SortedMap K V}
    (hf : (m.entries.map f).Pairwise fun a b => a.1 ≠ b.1) {es : List (κ × W)}
    (h : es.Perm ((m.entries.map f).foldl (fun (n : SortedMap κ W) e => n.set e.1 e.2) ∅).entries) :
    ∃ es' : List (K × V), es = es'.map f ∧ es'.Perm m.entries := by
  have hmap : es.Perm (m.entries.map f) := h.trans (entries_foldl_set_perm hf)
  rw [← iff_of_eq (congrFun (congrFun (List.eq_map_comp_perm f) es) m.entries)] at hmap
  exact hmap

theorem foldl_set_entries (f : K → V → W) (m : SortedMap K V) :
    m.entries.foldl (fun n e => n.set e.1 (f e.1 e.2)) ∅ = m.mapVal f := by
  refine ext_find fun k => ?_
  rw [find?_foldl_set f k ∅ m.distinct, find?_mapVal, find?_empty, Option.or_none]
  rfl

/-! ## The first entry at or above a key -/

/-- The entries before the first key that is not below `k`, and the rest. -/
def lowerBound (m : SortedMap K V) (k : K) : List (K × V) × List (K × V) :=
  m.entries.span fun e => decide (e.1 < k)

/-! ## Walking two maps in key order -/

variable {σ : Type*}

/-- Put an optional value in front of a list of entries. -/
def consEntry (k : K) : Option U → List (K × U) → List (K × U)
  | none, es => es
  | some u, es => (k, u) :: es

/-- The remaining entries of one side, each handed to `f`. -/
def drainLoop (f : σ → K → V → Option U × σ) : σ → List (K × V) → List (K × U) × σ
  | s, [] => ([], s)
  | s, e :: es =>
    let r := f s e.1 e.2
    let rest := drainLoop f r.2 es
    (consEntry e.1 r.1 rest.1, rest.2)

/-- The walk while the left iterator stands at `(k, v)` and `rest` continues behind it. -/
def mergeStep (left : σ → K → V → Option U × σ) (right : σ → K → W → Option U × σ)
    (both : σ → K → V → W → Option U × σ) (k : K) (v : V)
    (rest : σ → List (K × W) → List (K × U) × σ) : σ → List (K × W) → List (K × U) × σ
  | s, [] =>
    let r := left s k v
    let tail := rest r.2 []
    (consEntry k r.1 tail.1, tail.2)
  | s, o :: os =>
    if k < o.1 then
      let r := left s k v
      let tail := rest r.2 (o :: os)
      (consEntry k r.1 tail.1, tail.2)
    else if o.1 < k then
      let r := right s o.1 o.2
      let tail := mergeStep left right both k v rest r.2 os
      (consEntry o.1 r.1 tail.1, tail.2)
    else
      let r := both s k v o.2
      let tail := rest r.2 os
      (consEntry k r.1 tail.1, tail.2)

/-- Two iterators walk two sorted lists: the smaller key goes to `left` or `right`, a key on both
sides to `both`; when one side ends, the other is drained. -/
def mergeLoop (left : σ → K → V → Option U × σ) (right : σ → K → W → Option U × σ)
    (both : σ → K → V → W → Option U × σ) :
    List (K × V) → σ → List (K × W) → List (K × U) × σ
  | [] => drainLoop right
  | e :: es => mergeStep left right both e.1 e.2 (mergeLoop left right both es)

section Merge

variable {left : σ → K → V → Option U × σ} {right : σ → K → W → Option U × σ}
  {both : σ → K → V → W → Option U × σ}

/-! One step of the walk, by which side has the smaller key. -/

variable {es : List (K × V)} {os : List (K × W)} {e : K × V} {x : K × W}

theorem mergeLoop_left (s : σ) (h : ∀ x ∈ os, e.1 < x.1) :
    mergeLoop left right both (e :: es) s os =
      (consEntry e.1 (left s e.1 e.2).1 (mergeLoop left right both es (left s e.1 e.2).2 os).1,
        (mergeLoop left right both es (left s e.1 e.2).2 os).2) := by
  cases os with
  | nil => rfl
  | cons x os => exact if_pos (h x List.mem_cons_self)

theorem mergeLoop_right (s : σ) (h : ∀ e ∈ es, x.1 < e.1) :
    mergeLoop left right both es s (x :: os) =
      (consEntry x.1 (right s x.1 x.2).1 (mergeLoop left right both es (right s x.1 x.2).2 os).1,
        (mergeLoop left right both es (right s x.1 x.2).2 os).2) := by
  cases es with
  | nil => rfl
  | cons e es =>
    have hlt := h e List.mem_cons_self
    exact (if_neg hlt.not_gt).trans (if_pos hlt)

theorem mergeLoop_both (s : σ) (h : e.1 = x.1) :
    mergeLoop left right both (e :: es) s (x :: os) =
      (consEntry e.1 (both s e.1 e.2 x.2).1
          (mergeLoop left right both es (both s e.1 e.2 x.2).2 os).1,
        (mergeLoop left right both es (both s e.1 e.2 x.2).2 os).2) :=
  (if_neg h.not_lt).trans (if_neg h.not_gt)

/-- How two iterators get through two sorted lists: by which side has the smaller key. -/
inductive Walk : List (K × V) → List (K × W) → Prop
  | nil : Walk [] []
  | left {e : K × V} {es : List (K × V)} {os : List (K × W)} (hes : ∀ y ∈ es, e.1 < y.1)
      (hos : ∀ y ∈ os, e.1 < y.1) (rest : Walk es os) : Walk (e :: es) os
  | right {x : K × W} {es : List (K × V)} {os : List (K × W)} (hes : ∀ y ∈ es, x.1 < y.1)
      (hos : ∀ y ∈ os, x.1 < y.1) (rest : Walk es os) : Walk es (x :: os)
  | both {e : K × V} {x : K × W} {es : List (K × V)} {os : List (K × W)} (hkey : e.1 = x.1)
      (hes : ∀ y ∈ es, e.1 < y.1) (hos : ∀ y ∈ os, x.1 < y.1) (rest : Walk es os) :
      Walk (e :: es) (x :: os)

theorem walk_of_sorted : ∀ {es : List (K × V)} {os : List (K × W)},
    es.Pairwise (fun a b => a.1 < b.1) → os.Pairwise (fun a b => a.1 < b.1) → Walk es os
  | [], [], _, _ => .nil
  | [], x :: os, hes, hos => by
    obtain ⟨hlo, hos⟩ := List.pairwise_cons.1 hos
    exact .right (fun _ => nofun) hlo (walk_of_sorted hes hos)
  | e :: es, os, hes, hos => by
    obtain ⟨hlt, hes'⟩ := List.pairwise_cons.1 hes
    induction os with
    | nil => exact .left hlt (fun _ => nofun) (walk_of_sorted hes' hos)
    | cons x os ih =>
      obtain ⟨hlo, hos'⟩ := List.pairwise_cons.1 hos
      rcases lt_trichotomy e.1 x.1 with hleft | hkey | hright
      · exact .left hlt (lt_of_lt_head hleft hlo) (walk_of_sorted hes' hos)
      · exact .both hkey hlt hlo (walk_of_sorted hes' hos')
      · exact .right (lt_of_lt_head hright hlt) hlo (ih hos')

omit [LinearOrder K] in
theorem mem_consEntry {k : K} {o : Option U} {es : List (K × U)} {x : K × U} :
    x ∈ consEntry k o es ↔ (x.1 = k ∧ o = some x.2) ∨ x ∈ es := by
  obtain ⟨k', u⟩ := x
  cases o with
  | none => simp [consEntry]
  | some w => simp [consEntry, Prod.ext_iff, eq_comm]

theorem consEntry_sorted {k : K} {o : Option U} {es : List (K × U)} (hk : ∀ x ∈ es, k < x.1)
    (hs : es.Pairwise fun a b => a.1 < b.1) :
    (consEntry k o es).Pairwise fun a b => a.1 < b.1 := by
  cases o with
  | none => exact hs
  | some u => exact List.pairwise_cons.2 ⟨hk, hs⟩

/-- Every key of the walk's result is a key of one of the two sides. -/
theorem Walk.key (h : Walk es os) : ∀ {s : σ} {y : K × U},
    y ∈ (mergeLoop left right both es s os).1 → (∃ e ∈ es, e.1 = y.1) ∨ ∃ x ∈ os, x.1 = y.1 := by
  induction h with
  | nil => exact fun hy => nomatch hy
  | @left e es os hes hos _ ih =>
    intro s y hy
    rw [mergeLoop_left s hos] at hy
    rcases mem_consEntry.1 hy with ⟨hk, -⟩ | hy
    · exact .inl ⟨e, List.mem_cons_self, hk.symm⟩
    · exact (ih hy).imp_left fun ⟨e', he', hk⟩ => ⟨e', List.mem_cons_of_mem _ he', hk⟩
  | @right x es os hes hos _ ih =>
    intro s y hy
    rw [mergeLoop_right s hes] at hy
    rcases mem_consEntry.1 hy with ⟨hk, -⟩ | hy
    · exact .inr ⟨x, List.mem_cons_self, hk.symm⟩
    · exact (ih hy).imp_right fun ⟨x', hx', hk⟩ => ⟨x', List.mem_cons_of_mem _ hx', hk⟩
  | @both e x es os hkey hes hos _ ih =>
    intro s y hy
    rw [mergeLoop_both s hkey] at hy
    rcases mem_consEntry.1 hy with ⟨hk, -⟩ | hy
    · exact .inl ⟨e, List.mem_cons_self, hk.symm⟩
    · exact (ih hy).imp (fun ⟨e', he', hk⟩ => ⟨e', List.mem_cons_of_mem _ he', hk⟩)
        fun ⟨x', hx', hk⟩ => ⟨x', List.mem_cons_of_mem _ hx', hk⟩

/-- A key below all keys of both sides is below all keys of the result. -/
theorem Walk.lt_key (h : Walk es os) {k : K} (hes : ∀ e ∈ es, k < e.1) (hos : ∀ x ∈ os, k < x.1)
    {s : σ} {y : K × U} (hy : y ∈ (mergeLoop left right both es s os).1) : k < y.1 := by
  rcases h.key hy with ⟨e, he, hk⟩ | ⟨x, hx, hk⟩
  · exact hk ▸ hes e he
  · exact hk ▸ hos x hx

theorem mergeLoop_sorted {s : σ} (hes : es.Pairwise fun a b => a.1 < b.1)
    (hos : os.Pairwise fun a b => a.1 < b.1) :
    (mergeLoop left right both es s os).1.Pairwise fun a b => a.1 < b.1 := by
  have h := walk_of_sorted hes hos
  clear hes hos
  induction h generalizing s with
  | nil => exact List.Pairwise.nil
  | left hes hos h ih =>
    rw [mergeLoop_left s hos]
    exact consEntry_sorted (fun y hy => h.lt_key hes hos hy) ih
  | right hes hos h ih =>
    rw [mergeLoop_right s hes]
    exact consEntry_sorted (fun y hy => h.lt_key hes hos hy) ih
  | both hkey hes hos h ih =>
    rw [mergeLoop_both s hkey]
    exact consEntry_sorted (fun y hy => h.lt_key hes (hkey ▸ hos) hy) ih

/-- What the walk leaves at key `k`, given what each side stores there. -/
def mergeAt (left : σ → K → V → Option U × σ) (right : σ → K → W → Option U × σ)
    (both : σ → K → V → W → Option U × σ) (s : σ) (k : K) : Option V → Option W → Option U
  | none, none => none
  | some v, none => (left s k v).1
  | none, some w => (right s k w).1
  | some v, some w => (both s k v w).1

theorem findEntry_consEntry {k k' : K} {o : Option U} {es : List (K × U)}
    (h : findEntry k es = none) :
    findEntry k' (consEntry k o es) = if k' = k then o else findEntry k' es := by
  cases o with
  | none =>
    by_cases hk : k' = k
    · rw [hk]; simpa [consEntry] using h
    · simp [consEntry, hk]
  | some u =>
    by_cases hk : k = k'
    · simp [consEntry, findEntry, hk]
    · simp [consEntry, findEntry, hk, Ne.symm hk]

/-- A walk does the right thing at its first key and, as the rest of it does, at the others. -/
theorem findEntry_consEntry_eq {k : K} {o : Option U} {es : List (K × U)} {f : K → Option U}
    (h : findEntry k es = none) (hat : o = f k) (hrest : ∀ k', k ≠ k' → findEntry k' es = f k') :
    ∀ k', findEntry k' (consEntry k o es) = f k' := by
  intro k'
  rw [findEntry_consEntry h]
  split_ifs with hk
  · rw [hk, hat]
  · exact hrest k' (Ne.symm hk)

variable {s₀ : σ} (hleft : ∀ k v, (left s₀ k v).2 = s₀) (hright : ∀ k w, (right s₀ k w).2 = s₀)
  (hboth : ∀ k v w, (both s₀ k v w).2 = s₀)

include hleft hright hboth in
/-- **The walk, key by key.** When every step leaves the state as it found it, the walk leaves at
each key what `left`, `right` or `both` make of the values stored there, and keeps the state. -/
theorem Walk.spec (h : Walk es os) :
    (mergeLoop left right both es s₀ os).2 = s₀ ∧
      ∀ k, findEntry k (mergeLoop left right both es s₀ os).1 =
        mergeAt left right both s₀ k (findEntry k es) (findEntry k os) := by
  induction h with
  | nil => exact ⟨rfl, fun _ => rfl⟩
  | @left e es os hes hos h ih =>
    obtain ⟨hs, hf⟩ := ih
    have hno : findEntry e.1 (mergeLoop left right both es s₀ os).1 = none :=
      findEntry_none_of_lt fun y hy => h.lt_key hes hos hy
    rw [mergeLoop_left s₀ hos, hleft]
    refine ⟨hs, findEntry_consEntry_eq hno ?_ fun k hk => ?_⟩
    · rw [findEntry_none_of_lt hos]
      simp [findEntry, mergeAt]
    · rw [hf]
      simp [findEntry, hk]
  | @right x es os hes hos h ih =>
    obtain ⟨hs, hf⟩ := ih
    have hno : findEntry x.1 (mergeLoop left right both es s₀ os).1 = none :=
      findEntry_none_of_lt fun y hy => h.lt_key hes hos hy
    rw [mergeLoop_right s₀ hes, hright]
    refine ⟨hs, findEntry_consEntry_eq hno ?_ fun k hk => ?_⟩
    · rw [findEntry_none_of_lt hes]
      simp [findEntry, mergeAt]
    · rw [hf]
      simp [findEntry, hk]
  | @both e x es os hkey hes hos h ih =>
    obtain ⟨hs, hf⟩ := ih
    have hno : findEntry e.1 (mergeLoop left right both es s₀ os).1 = none :=
      findEntry_none_of_lt fun y hy => h.lt_key hes (hkey ▸ hos) hy
    rw [mergeLoop_both s₀ hkey, hboth]
    refine ⟨hs, findEntry_consEntry_eq hno ?_ fun k hk => ?_⟩
    · simp [findEntry, mergeAt, ← hkey]
    · have hx : x.1 ≠ k := hkey ▸ hk
      rw [hf]
      simp [findEntry, hk, hx]

end Merge

/-- Walk two maps in key order from state `s`. -/
def merge (left : σ → K → V → Option U × σ) (right : σ → K → W → Option U × σ)
    (both : σ → K → V → W → Option U × σ) (s : σ) (m : SortedMap K V) (n : SortedMap K W) :
    SortedMap K U × σ :=
  (⟨(mergeLoop left right both m.entries s n.entries).1, mergeLoop_sorted m.sorted n.sorted⟩,
    (mergeLoop left right both m.entries s n.entries).2)

theorem find?_merge {left : σ → K → V → Option U × σ} {right : σ → K → W → Option U × σ}
    {both : σ → K → V → W → Option U × σ} {s₀ : σ} (hleft : ∀ k v, (left s₀ k v).2 = s₀)
    (hright : ∀ k w, (right s₀ k w).2 = s₀) (hboth : ∀ k v w, (both s₀ k v w).2 = s₀)
    (m : SortedMap K V) (n : SortedMap K W) (k : K) :
    (merge left right both s₀ m n).1.find? k =
      mergeAt left right both s₀ k (m.find? k) (n.find? k) :=
  ((walk_of_sorted m.sorted n.sorted).spec hleft hright hboth).2 k

theorem merge_state {left : σ → K → V → Option U × σ} {right : σ → K → W → Option U × σ}
    {both : σ → K → V → W → Option U × σ} {s₀ : σ} (hleft : ∀ k v, (left s₀ k v).2 = s₀)
    (hright : ∀ k w, (right s₀ k w).2 = s₀) (hboth : ∀ k v w, (both s₀ k v w).2 = s₀)
    (m : SortedMap K V) (n : SortedMap K W) : (merge left right both s₀ m n).2 = s₀ :=
  ((walk_of_sorted m.sorted n.sorted).spec hleft hright hboth).1

end SortedMap

namespace SortedSet

variable {K : Type*} [LinearOrder K]

/-- Whether `k` is an element. -/
def contains (s : SortedSet K) (k : K) : Bool := decide (k ∈ s.elems)

/-- Sets with the same elements are equal. -/
theorem ext_mem {s t : SortedSet K} (h : ∀ k, k ∈ s.elems ↔ k ∈ t.elems) : s = t := by
  have heq : s.elems = t.elems := s.sorted.eq_of_mem_iff t.sorted h
  cases s; cases t; cases heq; rfl

instance : DecidableEq (SortedSet K) := fun s t =>
  decidable_of_iff (s.elems = t.elems)
    ⟨fun h => by cases s; cases t; cases h; rfl, fun h => h ▸ rfl⟩

instance : EmptyCollection (SortedSet K) := ⟨⟨[], List.Pairwise.nil⟩⟩
instance : Inhabited (SortedSet K) := ⟨∅⟩

@[simp] theorem elems_empty : (∅ : SortedSet K).elems = [] := rfl

/-- Insert `k` into a strictly increasing list. -/
def insertElem (k : K) : List K → List K
  | [] => [k]
  | e :: es => if k < e then k :: e :: es else if e < k then e :: insertElem k es else e :: es

theorem mem_insertElem {k x : K} : ∀ {es : List K}, x ∈ insertElem k es ↔ x = k ∨ x ∈ es
  | [] => by simp [insertElem]
  | e :: es => by
    simp only [insertElem]
    split_ifs with h1 h2
    · simp
    · simp only [List.mem_cons, mem_insertElem]; tauto
    · have hk : k = e := le_antisymm (not_lt.1 h2) (not_lt.1 h1)
      simp [hk]

theorem insertElem_sorted (k : K) : ∀ {es : List K}, es.Pairwise (· < ·) →
    (insertElem k es).Pairwise (· < ·)
  | [], _ => by simp [insertElem]
  | e :: es, h => by
    obtain ⟨hlt, hes⟩ := List.pairwise_cons.1 h
    simp only [insertElem]
    split_ifs with h1 h2
    · refine List.pairwise_cons.2 ⟨fun x hx => ?_, h⟩
      rcases List.mem_cons.1 hx with rfl | hx
      · exact h1
      · exact h1.trans (hlt x hx)
    · refine List.pairwise_cons.2 ⟨fun x hx => ?_, insertElem_sorted k hes⟩
      rcases mem_insertElem.1 hx with rfl | hx
      · exact h2
      · exact hlt x hx
    · exact h

/-- Add `k`. -/
def insert (s : SortedSet K) (k : K) : SortedSet K :=
  ⟨insertElem k s.elems, insertElem_sorted k s.sorted⟩

@[simp] theorem mem_insert {s : SortedSet K} {k x : K} :
    x ∈ (s.insert k).elems ↔ x = k ∨ x ∈ s.elems := mem_insertElem

/-- Drop `k`. -/
def erase (s : SortedSet K) (k : K) : SortedSet K :=
  ⟨s.elems.filter (· ≠ k), s.sorted.filter _⟩

@[simp] theorem mem_erase {s : SortedSet K} {k x : K} :
    x ∈ (s.erase k).elems ↔ x ∈ s.elems ∧ x ≠ k := by
  simp [erase]

theorem mem_foldl_insert {x : K} (es : List K) : ∀ s : SortedSet K,
    x ∈ (es.foldl insert s).elems ↔ x ∈ s.elems ∨ x ∈ es := by
  induction es with
  | nil => simp
  | cons e es ih => intro s; rw [List.foldl_cons, ih, mem_insert, List.mem_cons]; tauto

end SortedSet
