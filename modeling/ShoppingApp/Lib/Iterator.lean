import ShoppingApp.Lib.SortedMap

/-!
# Iterators of a sorted map

An iterator of an ordered associative container stands at an element or at the end, and stays there
whatever is written or erased elsewhere. When its own element is erased it must neither be read nor
moved on; both are faults. An iterator is given by the key of its element, so an element must not
come back under its key while an iterator that has lost it is in use.

The rules say what an operation does between the entries before the iterator and those from it on.
-/

/-- What must not be done: to use an iterator whose element is gone, or to read or move one that
stands at the end. -/
inductive IteratorFault
  | erased
  | atEnd
  deriving DecidableEq, Repr

namespace SortedMap

variable {K V : Type*} [LinearOrder K]

/-- The iterator that has the entries `rest` from it on. -/
def position (rest : List (K × V)) : Option K := rest.head?.map Prod.fst

/-- `begin()` -/
def begin (m : SortedMap K V) : Option K := position m.entries

/-- `*it` -/
def deref (m : SortedMap K V) : Option K → Except IteratorFault (K × V)
  | none => .error .atEnd
  | some k =>
    match m.find? k with
    | some v => .ok (k, v)
    | none => .error .erased

/-- `++it`: to the first key above. -/
def advance (m : SortedMap K V) : Option K → Except IteratorFault (Option K)
  | none => .error .atEnd
  | some k =>
    if m.contains k then .ok ((m.entries.find? fun e => decide (k < e.1)).map Prod.fst)
    else .error .erased

/-- `erase(it)` -/
def eraseAt (m : SortedMap K V) : Option K → Except IteratorFault (SortedMap K V)
  | none => .error .atEnd
  | some k => if m.contains k then .ok (m.erase k) else .error .erased

omit [LinearOrder K] in
theorem eq_nil_of_position {rest : List (K × V)} {it : Option K} (h : it = position rest)
    (hend : it.isSome = false) : rest = [] := by
  cases rest with
  | nil => rfl
  | cons e rest =>
    rw [h] at hend
    cases hend

theorem contains_erase (m : SortedMap K V) (k : K) : (m.erase k).contains k = false := by
  rw [contains, find?_erase, if_pos rfl]
  rfl

/-- An iterator whose element has been erased cannot be moved on. -/
theorem advance_erase (m : SortedMap K V) (k : K) :
    (m.erase k).advance (some k) = .error .erased := by
  unfold advance
  dsimp only
  rw [contains_erase, if_neg Bool.false_ne_true]

/-! ## Between the entries before and after -/

section Cut

variable {m : SortedMap K V} {past rest : List (K × V)} {e : K × V}

theorem lt_of_cut (h : m.entries = past ++ e :: rest) :
    (∀ x ∈ past, x.1 < e.1) ∧ ∀ x ∈ rest, e.1 < x.1 := by
  have hsorted := m.sorted
  rw [h] at hsorted
  obtain ⟨-, hrest, hcross⟩ := List.pairwise_append.1 hsorted
  exact ⟨fun x hx => hcross x hx e List.mem_cons_self, (List.pairwise_cons.1 hrest).1⟩

theorem find?_of_cut (h : m.entries = past ++ e :: rest) : m.find? e.1 = some e.2 := by
  rw [find?_eq_some, h]
  exact List.mem_append_right past List.mem_cons_self

theorem contains_of_cut (h : m.entries = past ++ e :: rest) : m.contains e.1 = true := by
  rw [contains, find?_of_cut h]
  rfl

theorem deref_of_cut (h : m.entries = past ++ e :: rest) : m.deref (some e.1) = .ok e := by
  unfold deref
  dsimp only
  rw [find?_of_cut h]

theorem advance_of_cut (h : m.entries = past ++ e :: rest) :
    m.advance (some e.1) = .ok (position rest) := by
  obtain ⟨hpast, hrest⟩ := lt_of_cut h
  have hbefore : past.find? (fun x => decide (e.1 < x.1)) = none := by
    rw [List.find?_eq_none]
    intro x hx
    rw [decide_eq_true_eq]
    exact (hpast x hx).not_gt
  have hafter : (e :: rest).find? (fun x => decide (e.1 < x.1)) = rest.head? := by
    rw [List.find?_cons_of_neg (by simp)]
    cases rest with
    | nil => rfl
    | cons x rest => exact List.find?_cons_of_pos (decide_eq_true (hrest x List.mem_cons_self))
  unfold advance
  dsimp only
  rw [contains_of_cut h, if_pos rfl, h, List.find?_append, hbefore, Option.none_or,
    hafter]
  rfl

theorem eraseAt_of_cut (h : m.entries = past ++ e :: rest) :
    m.eraseAt (some e.1) = .ok (m.erase e.1) := by
  unfold eraseAt
  dsimp only
  rw [contains_of_cut h, if_pos rfl]

theorem entries_erase_of_cut (h : m.entries = past ++ e :: rest) :
    (m.erase e.1).entries = past ++ rest := by
  obtain ⟨hpast, hrest⟩ := lt_of_cut h
  unfold erase filter
  dsimp only
  rw [h, List.filter_append, List.filter_cons_of_neg (by simp)]
  congr 1
  · exact List.filter_eq_self.2 fun x hx => decide_eq_true (hpast x hx).ne
  · exact List.filter_eq_self.2 fun x hx => decide_eq_true (hrest x hx).ne'

theorem upsertEntry_of_cut {k : K} (f : Option V → V) (hrest : ∀ x ∈ rest, k < x.1) :
    ∀ {past : List (K × V)}, (∀ x ∈ past, x.1 < k) →
      upsertEntry k f (past ++ rest) = past ++ (k, f none) :: rest
  | [], _ => by
    cases rest with
    | nil => rfl
    | cons x rest => exact if_pos (hrest x List.mem_cons_self)
  | e :: past, hpast => by
    have he : e.1 < k := hpast e List.mem_cons_self
    rw [List.cons_append, upsertEntry, if_neg he.not_gt, if_pos he,
      upsertEntry_of_cut f hrest fun x hx => hpast x (List.mem_cons_of_mem _ hx)]
    rfl

theorem entries_insert_of_cut {k : K} (v : V) (h : m.entries = past ++ rest)
    (hpast : ∀ x ∈ past, x.1 < k) (hrest : ∀ x ∈ rest, k < x.1) :
    (m.insert k v).entries = past ++ (k, v) :: rest := by
  unfold insert upsert
  dsimp only
  rw [h, upsertEntry_of_cut _ hrest hpast]
  rfl

end Cut

end SortedMap
