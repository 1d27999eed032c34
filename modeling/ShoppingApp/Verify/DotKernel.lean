import ShoppingApp.Verify.ORMap

/-!
# What a kernel keeps

`DotKernel::join` dot by dot. Which dots are live afterwards depends on what both sides hold and
have seen, whichever side joins; the value of a dot that both hold is that of the side that joins,
so the join is the one that `join::join` describes exactly if the sides agree on shared dots
(`join_merges_iff`).

The loops of `join` erase with `values.erase(it++)`: no iterator is used after its element is gone,
and what they make is what `joinValues` says (`joinLoops_eq`). `remove(v)` erases the element its
iterator stands at and moves the iterator on after that, so it gets through exactly if it has
nothing to remove (`removeValue_iff`).
-/

namespace ShoppingApp

namespace DotKernel

/-- What a join of kernels is to make of every dot: it stays live if it is live on both sides, or on
one side and unseen on the other; its value is the one it has, or the join of the two that it has;
and the other side comes to the same. -/
structure Merges (k o : DotKernel Int) : Prop where
  live : ∀ d, ((k.join o).values.find? d).isSome = true ↔
    ((k.values.find? d).isSome = true ∧ (o.values.find? d).isSome = true) ∨
      ((k.values.find? d).isSome = true ∧ o.context.contains d = false) ∨
      ((o.values.find? d).isSome = true ∧ k.context.contains d = false)
  left : ∀ d v, k.values.find? d = some v → o.values.find? d = none →
    ∀ u, (k.join o).values.find? d = some u → u = v
  right : ∀ d w, k.values.find? d = none → o.values.find? d = some w →
    ∀ u, (k.join o).values.find? d = some u → u = w
  shared : ∀ d v w, k.values.find? d = some v → o.values.find? d = some w →
    (k.join o).values.find? d = some (Join.join v w)
  symm : ∀ d, (o.join k).values.find? d = (k.join o).values.find? d

variable {k o : DotKernel Int}

theorem find?_join (k o : DotKernel Int) (d : Dot) :
    (k.join o).values.find? d = DotState.mergeLive (k.values.find? d) (k.context.contains d)
      (o.values.find? d) (o.context.contains d) :=
  find?_joinValues k o d

/-- A dot that both sides hold keeps the value of the side that joins. -/
theorem find?_join_shared {d : Dot} {v w : Int} (hv : k.values.find? d = some v)
    (hw : o.values.find? d = some w) : (k.join o).values.find? d = some v := by
  rw [find?_join, hv, hw]
  rfl

theorem isSome_find?_join (k o : DotKernel Int) (d : Dot) :
    ((k.join o).values.find? d).isSome = true ↔
      ((k.values.find? d).isSome = true ∧ (o.values.find? d).isSome = true) ∨
        ((k.values.find? d).isSome = true ∧ o.context.contains d = false) ∨
        ((o.values.find? d).isSome = true ∧ k.context.contains d = false) := by
  rw [find?_join]
  cases k.values.find? d <;> cases o.values.find? d <;> cases k.context.contains d <;>
    cases o.context.contains d <;> simp [DotState.mergeLive]

theorem find?_join_left {d : Dot} {v u : Int} (hv : k.values.find? d = some v)
    (hnone : o.values.find? d = none) (hu : (k.join o).values.find? d = some u) : u = v := by
  rw [find?_join] at hu
  rcases DotState.mergeLive_eq_some hu with hu | hu
  · exact Option.some.inj (hu.symm.trans hv)
  · rw [hnone] at hu
    cases hu

theorem find?_join_right {d : Dot} {w u : Int} (hnone : k.values.find? d = none)
    (hw : o.values.find? d = some w) (hu : (k.join o).values.find? d = some u) : u = w := by
  rw [find?_join] at hu
  rcases DotState.mergeLive_eq_some hu with hu | hu
  · rw [hnone] at hu
    cases hu
  · exact Option.some.inj (hu.symm.trans hw)

/-- The values of the two sides agree on the dots that both hold. -/
def AgreeOnShared (k o : DotKernel Int) : Prop :=
  ∀ d v w, k.values.find? d = some v → o.values.find? d = some w → v = w

theorem AgreeOnShared.find?_join_comm (h : AgreeOnShared k o) (d : Dot) :
    (o.join k).values.find? d = (k.join o).values.find? d := by
  rw [find?_join, find?_join]
  cases hv : k.values.find? d with
  | none => cases o.values.find? d <;> rfl
  | some v =>
    cases hw : o.values.find? d with
    | none => rfl
    | some w => exact congrArg some (h d v w hv hw).symm

/-- A join of kernels merges shared dots, symmetrically, if and only if the sides agree on their
values: the maximum that `join::join` returns is dropped. -/
theorem join_merges_iff : Merges k o ↔ AgreeOnShared k o := by
  constructor
  · intro h d v w hv hw
    -- each side keeps its own value
    have hsymm := h.symm d
    rw [find?_join_shared hw hv, find?_join_shared hv hw] at hsymm
    exact (Option.some.inj hsymm).symm
  · intro h
    refine ⟨isSome_find?_join k o, fun d v hv hnone u hu => find?_join_left hv hnone hu,
      fun d w hnone hw u hu => find?_join_right hnone hw hu, fun d v w hv hw => ?_,
      h.find?_join_comm⟩
    obtain rfl := h d v w hv hw
    rw [find?_join_shared hv hw, Join.join, max_self]

/-- Two kernels in which one dot has the values 10 and 20: the one that joins keeps 10. -/
theorem shared_dot_not_joined :
    let k : DotKernel Int := add ⟨∅, ∅⟩ "user1" 10
    let o : DotKernel Int := add ⟨∅, ∅⟩ "user1" 20
    (∀ d ∈ k.values.keys, k.context.contains d = true) ∧
      (∀ d ∈ o.values.keys, o.context.contains d = true) ∧
      (k.join o).values.find? ⟨"user1", 1⟩ = some 10 ∧
      (o.join k).values.find? ⟨"user1", 1⟩ = some 20 ∧ Join.join 10 20 = 20 ∧ ¬ Merges k o := by
  refine ⟨by decide +kernel, by decide +kernel, by decide +kernel, by decide +kernel,
    by decide +kernel, fun h => ?_⟩
  have hshared := h.shared ⟨"user1", 1⟩ 10 20 (by decide +kernel) (by decide +kernel)
  revert hshared
  decide +kernel

/-! ## The loops of join -/

section Loops

variable {T : Type} {k o : DotKernel T} {s : JoinState T} {past es os : List (Dot × T)}
  {e x : Dot × T} {n : ℕ}

/-- What `joinValues` makes of the entries `es` on this side and `os` on the other. -/
def walk (k o : DotKernel T) (es os : List (Dot × T)) : List (Dot × T) :=
  (SortedMap.mergeLoop (fun _ d v => (if o.context.contains d then none else some v, ()))
    (fun _ d w => (if k.context.contains d then none else some w, ()))
    (fun _ _ v _ => (some v, ())) es () os).1

theorem entries_joinValues (k o : DotKernel T) :
    (joinValues k o).entries = walk k o k.values.entries o.values.entries := rfl

theorem walk_left (h : ∀ x ∈ os, e.1 < x.1) :
    walk k o (e :: es) os =
      if o.context.contains e.1 then walk k o es os else e :: walk k o es os := by
  unfold walk
  rw [SortedMap.mergeLoop_left () h]
  split_ifs <;> rfl

theorem walk_right (h : ∀ e ∈ es, x.1 < e.1) :
    walk k o es (x :: os) =
      if k.context.contains x.1 then walk k o es os else x :: walk k o es os := by
  unfold walk
  rw [SortedMap.mergeLoop_right () h]
  split_ifs <;> rfl

theorem walk_both (h : e.1 = x.1) : walk k o (e :: es) (x :: os) = e :: walk k o es os := by
  unfold walk
  rw [SortedMap.mergeLoop_both () h]
  rfl

/-- The iterators have `es` and `os` before them. What is made of these is still to come behind
`past`, which the loops have made. -/
structure Walked (k o : DotKernel T) (s : JoinState T) (past es os : List (Dot × T)) : Prop where
  entries : s.values.entries = past ++ es
  it : s.it = SortedMap.position es
  others : ∃ opast, o.values.entries = opast ++ os
  oit : s.oit = SortedMap.position os
  joined : (joinValues k o).entries = past ++ walk k o es os

theorem Walked.eraseSeen (h : Walked k o s past (e :: es) os) (hlt : ∀ x ∈ os, e.1 < x.1) :
    ∃ s' past', DotKernel.eraseSeen o s = .ok s' ∧ Walked k o s' past' es os := by
  obtain ⟨values, it, oit⟩ := s
  obtain ⟨hentries, hit, hothers, hoit, hjoined⟩ := h
  obtain rfl : it = some e.1 := hit
  dsimp only at hentries
  rw [walk_left hlt] at hjoined
  unfold DotKernel.eraseSeen
  dsimp only
  rw [SortedMap.deref_of_cut hentries]
  dsimp only [bind, Except.bind]
  rw [SortedMap.advance_of_cut hentries]
  dsimp only
  split_ifs at hjoined ⊢
  · rw [SortedMap.eraseAt_of_cut hentries]
    exact ⟨_, past, rfl, SortedMap.entries_erase_of_cut hentries, rfl, hothers, hoit, hjoined⟩
  · refine ⟨_, past ++ [e], rfl, ?_, rfl, hothers, hoit, ?_⟩
    · exact hentries.trans (List.append_cons past e es)
    · exact hjoined.trans (List.append_cons past e _)

theorem Walked.insertUnseen (h : Walked k o s past es (x :: os)) (hlt : ∀ e ∈ es, x.1 < e.1) :
    ∃ s' past', DotKernel.insertUnseen k o s = .ok s' ∧ Walked k o s' past' es os := by
  obtain ⟨values, it, oit⟩ := s
  obtain ⟨hentries, hit, ⟨opast, hcut⟩, hoit, hjoined⟩ := h
  obtain rfl : oit = some x.1 := hoit
  have hothers : o.values.entries = (opast ++ [x]) ++ os :=
    hcut.trans (List.append_cons opast x os)
  rw [walk_right hlt] at hjoined
  unfold DotKernel.insertUnseen
  dsimp only
  rw [SortedMap.deref_of_cut hcut]
  dsimp only [bind, Except.bind]
  rw [SortedMap.advance_of_cut hcut]
  dsimp only
  split_ifs at hjoined ⊢
  · exact ⟨_, past, rfl, hentries, hit, ⟨_, hothers⟩, rfl, hjoined⟩
  · have hpast : ∀ y ∈ past, y.1 < x.1 := (SortedMap.lt_of_cut hjoined).1
    refine ⟨_, past ++ [x], rfl, ?_, hit, ⟨_, hothers⟩, rfl, ?_⟩
    · have hinsert := SortedMap.entries_insert_of_cut x.2 hentries hpast hlt
      exact hinsert.trans (List.append_cons past x es)
    · exact hjoined.trans (List.append_cons past x _)

/-- A round of the first loop moves one iterator on, or both. -/
theorem Walked.joinRound (h : Walked k o s past (e :: es) (x :: os)) :
    ∃ s' past' es' os', DotKernel.joinRound k o s = .ok s' ∧ Walked k o s' past' es' os' ∧
      es'.length + os'.length < (e :: es).length + (x :: os).length := by
  obtain ⟨opast, hcut⟩ := h.others
  have hderef : s.values.deref s.it = .ok e := by
    rw [h.it]
    exact SortedMap.deref_of_cut h.entries
  have hoderef : o.values.deref s.oit = .ok x := by
    rw [h.oit]
    exact SortedMap.deref_of_cut hcut
  have hrest := (SortedMap.lt_of_cut h.entries).2
  have horest := (SortedMap.lt_of_cut hcut).2
  unfold DotKernel.joinRound
  rw [hderef, hoderef]
  dsimp only [bind, Except.bind]
  split_ifs with hleft hright
  · obtain ⟨s', past', hrun, hwalked⟩ := h.eraseSeen (SortedMap.lt_of_lt_head hleft horest)
    exact ⟨s', past', es, x :: os, hrun, hwalked, by simp⟩
  · obtain ⟨s', past', hrun, hwalked⟩ := h.insertUnseen (SortedMap.lt_of_lt_head hright hrest)
    exact ⟨s', past', e :: es, os, hrun, hwalked, by simp⟩
  · have hsame : e.1 = x.1 := le_antisymm (not_lt.1 hright) (not_lt.1 hleft)
    have hjoined := h.joined
    rw [walk_both hsame] at hjoined
    have hadvance : s.values.advance s.it = .ok (SortedMap.position es) := by
      rw [h.it]
      exact SortedMap.advance_of_cut h.entries
    have hoadvance : o.values.advance s.oit = .ok (SortedMap.position os) := by
      rw [h.oit]
      exact SortedMap.advance_of_cut hcut
    rw [hadvance]
    dsimp only
    rw [hoadvance]
    refine ⟨_, past ++ [e], es, os, rfl, ⟨?_, rfl, ⟨opast ++ [x], ?_⟩, rfl, ?_⟩, ?_⟩
    · exact h.entries.trans (List.append_cons past e es)
    · exact hcut.trans (List.append_cons opast x os)
    · exact hjoined.trans (List.append_cons past e _)
    · simp only [List.length_cons]
      omega

/-- The loops may come to `s` with at most `n` rounds to go, and the iterators have `es` and `os`
with `P es os` before them. -/
def Underway (k o : DotKernel T) (P : List (Dot × T) → List (Dot × T) → Prop) (n : ℕ)
    (s : JoinState T) : Prop :=
  ∃ past es os, Walked k o s past es os ∧ P es os ∧ es.length + os.length ≤ n

theorem joinRound_ends (h : Underway k o (fun _ _ => True) n s)
    (hcond : (s.it.isSome && s.oit.isSome) = true) :
    Ends (fun _ => False) (fun s' => ∃ m < n, Underway k o (fun _ _ => True) m s')
      (joinRound k o s) := by
  obtain ⟨past, es, os, hwalked, -, hlength⟩ := h
  rw [hwalked.it, hwalked.oit] at hcond
  cases es with
  | nil => cases hcond
  | cons e es =>
    cases os with
    | nil => cases hcond
    | cons x os =>
      obtain ⟨s', past', es', os', hrun, hwalked', hless⟩ := hwalked.joinRound
      rw [hrun]
      exact ⟨es'.length + os'.length, by omega, past', es', os', hwalked', trivial, le_rfl⟩

theorem eraseSeen_ends (h : Underway k o (fun es os => es = [] ∨ os = []) n s)
    (hcond : s.it.isSome = true) :
    Ends (fun _ => False) (fun s' => ∃ m < n, Underway k o (fun es os => es = [] ∨ os = []) m s')
      (eraseSeen o s) := by
  obtain ⟨past, es, os, hwalked, hone, hlength⟩ := h
  rw [hwalked.it] at hcond
  cases es with
  | nil => cases hcond
  | cons e es =>
    obtain rfl : os = [] := hone.resolve_left (List.cons_ne_nil e es)
    obtain ⟨s', past', hrun, hwalked'⟩ := hwalked.eraseSeen fun _ => nofun
    rw [hrun]
    exact ⟨es.length, hlength, past', es, [], hwalked', .inr rfl, le_rfl⟩

theorem insertUnseen_ends (h : Underway k o (fun es _ => es = []) n s)
    (hcond : s.oit.isSome = true) :
    Ends (fun _ => False) (fun s' => ∃ m < n, Underway k o (fun es _ => es = []) m s')
      (insertUnseen k o s) := by
  obtain ⟨past, es, os, hwalked, rfl, hlength⟩ := h
  rw [hwalked.oit] at hcond
  cases os with
  | nil => cases hcond
  | cons x os =>
    obtain ⟨s', past', hrun, hwalked'⟩ := hwalked.insertUnseen fun _ => nofun
    rw [hrun]
    rw [List.length_nil, Nat.zero_add, List.length_cons] at hlength
    exact ⟨os.length, hlength, past', [], os, hwalked', rfl, (Nat.zero_add _).le⟩

/-- The first loop ends when one of the iterators is at its end, -/
theorem joinRound_loop_ends (h : Underway k o (fun _ _ => True) n s) {looks : ℕ}
    (hlooks : n < looks) :
    ∃ r, whileLoop (fun s => s.it.isSome && s.oit.isSome) (joinRound k o) looks s = some r ∧
      Ends (fun _ => False) (fun s => ∃ m ≤ n, Underway k o (fun es os => es = [] ∨ os = []) m s)
        r := by
  obtain ⟨r, hloop, hends⟩ := whileLoop_ends (fun _ _ => joinRound_ends) h hlooks
  refine ⟨r, hloop, hends.imp fun s ⟨hend, m, hm, past, es, os, hwalked, _, hlength⟩ => ?_⟩
  refine ⟨m, hm, past, es, os, hwalked, ?_, hlength⟩
  rcases Bool.and_eq_false_iff.1 hend with hit | hoit
  · exact .inl (SortedMap.eq_nil_of_position hwalked.it hit)
  · exact .inr (SortedMap.eq_nil_of_position hwalked.oit hoit)

/-- the second when `it` is, -/
theorem eraseSeen_loop_ends (h : Underway k o (fun es os => es = [] ∨ os = []) n s) {looks : ℕ}
    (hlooks : n < looks) :
    ∃ r, whileLoop (fun s => s.it.isSome) (eraseSeen o) looks s = some r ∧
      Ends (fun _ => False) (fun s => ∃ m ≤ n, Underway k o (fun es _ => es = []) m s) r := by
  obtain ⟨r, hloop, hends⟩ := whileLoop_ends (fun _ _ => eraseSeen_ends) h hlooks
  refine ⟨r, hloop, hends.imp fun s ⟨hend, m, hm, past, es, os, hwalked, _, hlength⟩ => ?_⟩
  exact ⟨m, hm, past, es, os, hwalked, SortedMap.eq_nil_of_position hwalked.it hend, hlength⟩

/-- and the third when both are, and all has been made. -/
theorem insertUnseen_loop_ends (h : Underway k o (fun es _ => es = []) n s) {looks : ℕ}
    (hlooks : n < looks) :
    ∃ r, whileLoop (fun s => s.oit.isSome) (insertUnseen k o) looks s = some r ∧
      Ends (fun _ => False) (fun s => s.values = joinValues k o) r := by
  obtain ⟨r, hloop, hends⟩ := whileLoop_ends (fun _ _ => insertUnseen_ends) h hlooks
  refine ⟨r, hloop, hends.imp fun s ⟨hend, _, _, past, es, os, hwalked, hnil, _⟩ => ?_⟩
  obtain rfl : es = [] := hnil
  obtain rfl : os = [] := SortedMap.eq_nil_of_position hwalked.oit hend
  have hentries : s.values.entries = (joinValues k o).entries :=
    hwalked.entries.trans hwalked.joined.symm
  refine SortedMap.ext_find fun d => ?_
  rw [SortedMap.find?, SortedMap.find?, hentries]

/-- **The iterators of `join` stay valid**: its loops come to their ends without touching an erased
element, and make the map that `joinValues` says. -/
theorem joinLoops_eq (k o : DotKernel T) : joinLoops k o = .ok (joinValues k o) := by
  have hstart : Underway k o (fun _ _ => True) (k.values.entries.length + o.values.entries.length)
      ⟨k.values, k.values.begin, o.values.begin⟩ :=
    ⟨[], k.values.entries, o.values.entries,
      ⟨rfl, rfl, ⟨[], rfl⟩, rfl, entries_joinValues k o⟩, trivial, le_rfl⟩
  have hends : Ends (fun _ => False) (fun values => values = joinValues k o) (joinLoops k o) := by
    unfold joinLoops
    dsimp only
    obtain ⟨r, hloop, hends⟩ := joinRound_loop_ends hstart (Nat.lt_succ_self _)
    rw [hloop, Option.getD_some]
    refine hends.bind fun s ⟨m, hm, hone⟩ => ?_
    obtain ⟨r, hloop, hends⟩ := eraseSeen_loop_ends hone (Nat.lt_succ_of_le hm)
    rw [hloop, Option.getD_some]
    refine hends.bind fun s ⟨m', hm', hnil⟩ => ?_
    obtain ⟨r, hloop, hends⟩ := insertUnseen_loop_ends hnil (Nat.lt_succ_of_le (hm'.trans hm))
    rw [hloop, Option.getD_some]
    exact hends.bind fun s hvalues => hvalues
  cases hrun : joinLoops k o with
  | error f => exact (hends.of_error hrun).elim
  | ok values => rw [hends.of_ok hrun]

end Loops

/-! ## remove(v) -/

section Remove

variable {T : Type} [BEq T]

/-- What `remove(v)` is to do: to get through without touching an erased element, after which the
dots with value `v` are gone and the other dots and the context are as they were. -/
def Filters (k : DotKernel T) (v : T) : Prop :=
  ∃ k', k.removeValue v = .ok k' ∧ k'.context = k.context ∧
    ∀ d, k'.values.find? d = (k.values.find? d).filter fun u => !(u == v)

/-- Where the loop can be with `n` values to go: nothing has changed, and none of the values before
is `v`. -/
def Passed (values : SortedMap Dot T) (v : T) (n : ℕ) (s : SortedMap Dot T × Option Dot) : Prop :=
  s.1 = values ∧ ∃ past rest, values.entries = past ++ rest ∧ s.2 = SortedMap.position rest ∧
    rest.length = n ∧ ∀ e ∈ past, (e.2 == v) = false

variable {values : SortedMap Dot T} {v : T} {n : ℕ} {s : SortedMap Dot T × Option Dot}

/-- A round passes a value other than `v`. After `v` has been erased its iterator is lost. -/
theorem removeRound_of_cut {past rest : List (Dot × T)} {e : Dot × T}
    (h : values.entries = past ++ e :: rest) (v : T) :
    removeRound v (values, some e.1) =
      if e.2 == v then .error .erased else .ok (values, SortedMap.position rest) := by
  unfold removeRound
  dsimp only
  rw [SortedMap.deref_of_cut h]
  dsimp only [bind, Except.bind]
  split_ifs with hv
  · rw [SortedMap.eraseAt_of_cut h]
    dsimp only
    rw [SortedMap.advance_erase]
  · rw [SortedMap.advance_of_cut h]
    rfl

theorem removeRound_ends (h : Passed values v n s) (hit : s.2.isSome = true) :
    Ends (fun f => f = .erased ∧ ∃ e ∈ values.entries, (e.2 == v) = true)
      (fun s' => ∃ m < n, Passed values v m s') (removeRound v s) := by
  obtain ⟨values', it⟩ := s
  obtain ⟨hsame, past, rest, hcut, hposition, hlength, hpast⟩ := h
  obtain rfl : values' = values := hsame
  obtain rfl : it = SortedMap.position rest := hposition
  cases rest with
  | nil => cases hit
  | cons e rest =>
    have hround : removeRound v (values', SortedMap.position (e :: rest)) = _ :=
      removeRound_of_cut hcut v
    rw [hround]
    split_ifs with hv
    · exact ⟨rfl, e, hcut ▸ List.mem_append_right past List.mem_cons_self, hv⟩
    · refine ⟨rest.length, ?_, rfl, past ++ [e], rest, ?_, rfl, rfl, fun x hx => ?_⟩
      · rw [← hlength, List.length_cons]
        exact Nat.lt_succ_self _
      · exact hcut.trans (List.append_cons past e rest)
      · rcases List.mem_append.1 hx with hx | hx
        · exact hpast x hx
        · rw [List.mem_singleton.1 hx]
          exact Bool.eq_false_iff.2 hv

theorem removeLoop_ends (values : SortedMap Dot T) (v : T) :
    ∃ r, removeLoop v (values.entries.length + 1) (values, values.begin) = some r ∧
      Ends (fun f => f = .erased ∧ ∃ e ∈ values.entries, (e.2 == v) = true)
        (fun s => s.1 = values ∧ ∀ e ∈ values.entries, (e.2 == v) = false) r := by
  have hstart : Passed values v values.entries.length (values, values.begin) :=
    ⟨rfl, [], values.entries, rfl, rfl, rfl, fun e he => absurd he List.not_mem_nil⟩
  obtain ⟨r, hloop, hends⟩ := whileLoop_ends (fun n s h hit => removeRound_ends h hit) hstart
    (Nat.lt_succ_self _)
  refine ⟨r, hloop, hends.imp fun s hs => ?_⟩
  obtain ⟨hend, m, -, hsame, past, rest, hcut, hposition, -, hpast⟩ := hs
  obtain rfl : rest = [] := SortedMap.eq_nil_of_position hposition hend
  rw [List.append_nil] at hcut
  exact ⟨hsame, hcut ▸ hpast⟩

/-- `remove(v)` leaves the kernel alone if no dot has value `v`, and else moves an iterator on whose
element it has erased. -/
theorem removeValue_ends (k : DotKernel T) (v : T) :
    Ends (fun f => f = .erased ∧ ∃ d u, k.values.find? d = some u ∧ (u == v) = true)
      (fun k' => k' = k ∧ ∀ d u, k.values.find? d = some u → (u == v) = false)
      (k.removeValue v) := by
  obtain ⟨r, hloop, hends⟩ := removeLoop_ends k.values v
  unfold removeValue
  dsimp only
  rw [hloop, Option.getD_some]
  cases r with
  | error f =>
    obtain ⟨hf, ⟨d, u⟩, hmem, hu⟩ := hends
    exact ⟨hf, d, u, (SortedMap.find?_eq_some _).2 hmem, hu⟩
  | ok s =>
    obtain ⟨hsame, hall⟩ := hends
    refine ⟨?_, fun d u hu => hall (d, u) ((SortedMap.find?_eq_some _).1 hu)⟩
    rw [hsame]

/-- `remove(v)` is a correct filter if and only if no dot has value `v`. -/
theorem removeValue_iff (k : DotKernel T) (v : T) :
    Filters k v ↔ ∀ d u, k.values.find? d = some u → (u == v) = false := by
  have hends := removeValue_ends k v
  constructor
  · rintro ⟨k', hrun, -, -⟩
    exact (hends.of_ok hrun).2
  · intro hnone
    cases hrun : k.removeValue v with
    | error f =>
      obtain ⟨-, d, u, hfind, hu⟩ := hends.of_error hrun
      rw [hnone d u hfind] at hu
      cases hu
    | ok k' =>
      obtain ⟨rfl, -⟩ := hends.of_ok hrun
      refine ⟨k', hrun, rfl, fun d => ?_⟩
      cases hfind : k'.values.find? d with
      | none => rfl
      | some u => rw [Option.filter_some, hnone d u hfind, Bool.not_false, if_pos rfl]

/-- Two dots with the values 10 and 20, and 10 is to be removed. -/
theorem erased_iterator_advanced :
    let k : DotKernel Int := add (add ⟨∅, ∅⟩ "user1" 10) "user2" 20
    k.values.find? ⟨"user1", 1⟩ = some 10 ∧ k.removeValue 10 = .error .erased ∧
      ¬ Filters k 10 := by
  have hrun : (add (add ⟨∅, ∅⟩ "user1" 10) "user2" 20 : DotKernel Int).removeValue 10 =
      .error .erased := by decide +kernel
  refine ⟨by decide +kernel, hrun, ?_⟩
  rintro ⟨k', hok, -, -⟩
  rw [hrun] at hok
  cases hok

end Remove

end DotKernel

end ShoppingApp
