import ShoppingApp.Crdt.Counter
import ShoppingApp.Lib.Registers
import Mathlib.Algebra.BigOperators.Group.Finset.Piecewise
import Mathlib.Algebra.Ring.Int.Defs
import Mathlib.Data.Int.ConditionallyCompleteOrder
import Mathlib.Data.String.Basic

/-!
# Replicas of a counter

Any number of replicas call `inc` and `dec` under their own ids, and join full states and deltas of
any replica from any earlier point, in any order, again or never. What a counter holds for each id
on each side is a register that the replica with this id owns (`Step.simulated`), so no replica
holds more for an id than the replica with this id. A delta has one register only; it has its
owner's value as long as it is the latest (`Tracks`), so a replica that has received the latest
deltas of all others, or later full states, reads what has been added less what has been taken
(`delta_convergence`).
-/

namespace ShoppingApp

open Replication

namespace BaseCounter

variable {K : Type*} [LinearOrder K]

theorem localValue_eq (c : BaseCounter K) (k : K) : c.localValue k = entry c.m k := by
  unfold localValue entry
  cases c.m.find? k with
  | none => rfl
  | some v => exact Int.zero_add v

theorem localValue_empty (k : K) : (∅ : BaseCounter K).localValue k = 0 := rfl

theorem localValue_inc (c : BaseCounter K) (id k : K) (v : Int) :
    (c.inc id v).2.localValue k = if k = id then c.localValue id + v else c.localValue k := by
  simp only [localValue_eq, entry, inc, SortedMap.find?_set]
  split_ifs <;> rfl

/-- A delta has the new value, and no other. -/
theorem localValue_delta (c : BaseCounter K) (id k : K) (v : Int) :
    (c.inc id v).1.localValue k = if k = id then c.localValue id + v else 0 := by
  simp only [localValue_eq, entry, inc, SortedMap.find?_set, if_pos, SortedMap.find?_empty]
  split_ifs <;> rfl

theorem localValue_join (c : BaseCounter K) {o : BaseCounter K} {k : K}
    (hc : 0 ≤ c.localValue k) :
    (c.join o).localValue k = max (c.localValue k) (o.localValue k) := by
  have hjoin : (c.join o).m = o.m.entries.foldl
      (fun m okv => m.upsert okv.1 fun w => max okv.2 (w.getD 0)) c.m := by
    unfold join entry
    simp only [SortedMap.upsert_eq_set]
  rw [localValue_eq, localValue_eq, localValue_eq] at *
  unfold entry at *
  rw [hjoin, SortedMap.find?_foldl_upsert (fun _ v w => max v (w.getD 0)) k c.m o.m.distinct]
  change (((o.m.find? k).map _).or _).getD 0 = _
  cases o.m.find? k with
  | none => exact (max_eq_left hc).symm
  | some w => exact max_comm _ _

/-- What a counter reads, as a sum over any ids that include all it has entries for. -/
theorem read_eq_sum (c : BaseCounter K) {S : Finset K} (hS : ∀ k ∈ c.m.keys, k ∈ S) :
    c.read = ∑ k ∈ S, c.localValue k := by
  have hnodup : c.m.keys.Nodup :=
    (List.pairwise_map.2 c.m.sorted : c.m.keys.Pairwise (· < ·)).imp ne_of_lt
  have hvalues : c.m.keys.map c.localValue = c.m.entries.map Prod.snd := by
    unfold SortedMap.keys
    rw [List.map_map]
    refine List.map_congr_left fun e he => ?_
    rw [Function.comp_apply, localValue_eq, entry, (c.m.find?_eq_some).2 he]
    rfl
  have hkeys : c.read = ∑ k ∈ c.m.keys.toFinset, c.localValue k := by
    rw [List.sum_toFinset _ hnodup, hvalues, List.sum_eq_foldl, List.foldl_map]
    rfl
  rw [hkeys]
  refine Finset.sum_subset (fun k hk => hS k (List.mem_toFinset.1 hk)) fun k _ hk => ?_
  rw [List.mem_toFinset, SortedMap.mem_keys, not_exists] at hk
  rw [localValue_eq, entry, Option.eq_none_iff_forall_ne_some.2 hk]
  rfl

end BaseCounter

inductive Side
  | inc
  | dec
  deriving DecidableEq

namespace Counter

variable {K : Type*} [LinearOrder K]

def part (c : Counter K) : Side → BaseCounter K
  | .inc => c.i
  | .dec => c.d

/-- `inc` or `dec` -/
def adjust (c : Counter K) : Side → K → Int → Counter K × Counter K
  | .inc, replica_id, value => c.inc replica_id value
  | .dec, replica_id, value => c.dec replica_id value

/-- What a counter holds on each side for each id. -/
def view (c : Counter K) : Side × K → Int := fun x => (c.part x.1).localValue x.2

theorem view_empty : (∅ : Counter K).view = 0 := by
  funext ⟨side, k⟩
  cases side <;> rfl

theorem view_adjust (c : Counter K) (side : Side) (id : K) (v : Int) :
    (c.adjust side id v).2.view = Function.update c.view (side, id) (c.view (side, id) + v) := by
  funext ⟨side', k⟩
  rw [Function.update_apply]
  cases side <;> cases side' <;> simp [view, part, adjust, inc, dec, BaseCounter.localValue_inc]

theorem view_delta (c : Counter K) (side : Side) (id : K) (v : Int) :
    (c.adjust side id v).1.view =
      Function.update (0 : Side × K → Int) (side, id) (c.view (side, id) + v) := by
  funext ⟨side', k⟩
  rw [Function.update_apply]
  cases side <;> cases side' <;>
    simp [view, part, adjust, inc, dec, BaseCounter.localValue_delta,
      BaseCounter.localValue_empty]

theorem view_join {c : Counter K} (hc : 0 ≤ c.view) (o : Counter K) :
    (c.join o).view = c.view ⊔ o.view := by
  funext ⟨side, k⟩
  cases side with
  | inc => exact c.i.localValue_join (hc (.inc, k))
  | dec => exact c.d.localValue_join (hc (.dec, k))

end Counter

/-! ## The system -/

/-- A call of `inc` or `dec` -/
structure Call (ι : Type*) where
  side : Side
  origin : ι
  amount : Int

/-- A full state of a replica, or the delta of one of its calls, and how many calls of all replicas
there had been. -/
structure Message (ι K : Type*) [LinearOrder K] where
  origin : ι
  delta : Option Side
  time : ℕ
  counter : Counter K

/-- The replicas with what each has received; all full states and deltas there have been; the latest
delta of each replica on each side; all calls. -/
structure Counters (ι K : Type*) [LinearOrder K] where
  now : ι → Counter K
  received : ι → Set (Message ι K)
  sent : Set (Message ι K)
  latest : Side → ι → Option (Message ι K)
  log : List (Call ι)

namespace Counters

variable {ι K : Type*} [LinearOrder K]

def start : Counters ι K :=
  ⟨fun _ => ∅, fun _ => ∅, Set.range fun i => ⟨i, none, 0, ∅⟩, fun _ _ => none, []⟩

variable [DecidableEq ι]

def call (ids : ι → K) (s : Counters ι K) (i : ι) (side : Side) (v : Int) : Counters ι K :=
  let r := (s.now i).adjust side (ids i) v
  let time := s.log.length + 1
  let delta := ⟨i, some side, time, r.1⟩
  { now := Function.update s.now i r.2
    received := s.received
    sent := insert delta (insert ⟨i, none, time, r.2⟩ s.sent)
    latest := Function.update s.latest side (Function.update (s.latest side) i (some delta))
    log := ⟨side, i, v⟩ :: s.log }

def join (s : Counters ι K) (i : ι) (m : Message ι K) : Counters ι K :=
  let c := (s.now i).join m.counter
  { now := Function.update s.now i c
    received := Function.update s.received i (insert m (s.received i))
    sent := insert ⟨i, none, s.log.length, c⟩ s.sent
    latest := s.latest
    log := s.log }

/-- One replica calls `inc` or `dec` with a non-negative amount, or joins what has been sent. -/
inductive Step (ids : ι → K) : Counters ι K → Counters ι K → Prop
  | call (s : Counters ι K) (i : ι) (side : Side) (v : Int) (hv : 0 ≤ v) :
      Step ids s (s.call ids i side v)
  | join (s : Counters ι K) (i : ι) (m : Message ι K) (hm : m ∈ s.sent) :
      Step ids s (s.join i m)

variable {ids : ι → K} {s s' : Counters ι K}

theorem now_call_self (s : Counters ι K) (i : ι) (side : Side) (v : Int) :
    (s.call ids i side v).now i = ((s.now i).adjust side (ids i) v).2 :=
  Function.update_self i _ s.now

theorem now_call_ne (s : Counters ι K) {i j : ι} (h : j ≠ i) (side : Side) (v : Int) :
    (s.call ids i side v).now j = s.now j := Function.update_of_ne h _ s.now

theorem now_join_self (s : Counters ι K) (i : ι) (m : Message ι K) :
    (s.join i m).now i = (s.now i).join m.counter := Function.update_self i _ s.now

theorem now_join_ne (s : Counters ι K) {i j : ι} (h : j ≠ i) (m : Message ι K) :
    (s.join i m).now j = s.now j := Function.update_of_ne h _ s.now

/-! ## What a counter holds are registers -/

/-- A replica owns what counters hold for its id. -/
def Owns (ids : ι → K) (i : ι) (x : Side × K) : Prop := x.2 = ids i

/-- The registers have what the counters hold. -/
structure Simulates (s : Counters ι K) (a : Registers.System ι (Side × K) Int) : Prop where
  now : ∀ i, a.now i = (s.now i).view
  sent : ∀ m ∈ s.sent, m.counter.view ∈ a.sent
  nonneg : ∀ i, 0 ≤ (s.now i).view

/-- What is left to check when replica `i` moves to `c`. -/
theorem Simulates.put {a : Registers.System ι (Side × K) Int} (h : Simulates s a) {i : ι}
    {c : Counter K} (hnow : s'.now = Function.update s.now i c) (hle : (s.now i).view ≤ c.view)
    {sent : Set (Side × K → Int)} (hsent : ∀ m ∈ s'.sent, m.counter.view ∈ sent) :
    Simulates s' ⟨(a.put i c.view).now, sent⟩ := by
  refine ⟨fun j => ?_, hsent, fun j => ?_⟩
  · rw [hnow]
    by_cases hj : j = i
    · subst hj
      rw [Function.update_self]
      exact a.now_put_self j c.view
    · rw [Function.update_of_ne hj, ← h.now j]
      exact a.now_put_ne hj c.view
  · rw [hnow]
    by_cases hj : j = i
    · subst hj
      rw [Function.update_self]
      exact (h.nonneg j).trans hle
    · rw [Function.update_of_ne hj]
      exact h.nonneg j

theorem Simulates.call {a : Registers.System ι (Side × K) Int} (h : Simulates s a) (i : ι)
    (side : Side) {v : Int} (hv : 0 ≤ v) :
    ∃ a', Run (Registers.Step (Owns ids)) a a' ∧ Simulates (s.call ids i side v) a' := by
  have hview := Counter.view_adjust (s.now i) side (ids i) v
  have hdelta := Counter.view_delta (s.now i) side (ids i) v
  have hgrows : (s.now i).view (side, ids i) ≤ (s.now i).view (side, ids i) + v := by omega
  generalize hr : (s.now i).adjust side (ids i) v = r at hview hdelta
  have hle : (s.now i).view ≤ r.2.view := by
    rw [hview]
    exact le_update_self_iff.2 hgrows
  have hpart : r.1.view ≤ r.2.view := by
    rw [hview, hdelta]
    exact update_le_update_iff.2 ⟨le_rfl, fun x _ => h.nonneg i x⟩
  have hown : ∀ x, ¬ Owns ids i x → r.2.view x = a.now i x := by
    intro x hx
    have hne : x ≠ (side, ids i) := fun heq => hx (congrArg Prod.snd heq)
    rw [hview, h.now i]
    exact Function.update_of_ne hne _ _
  have hknown : r.2.view ≤ (a.put i r.2.view).now i := (a.now_put_self i r.2.view).ge
  have hwrite : Registers.Step (Owns ids) a (a.put i r.2.view) := by
    refine .write a i r.2.view ?_ hown
    rw [h.now i]
    exact hle
  have hstate : Registers.Step (Owns ids) (a.put i r.2.view)
      ⟨(a.put i r.2.view).now, insert r.2.view a.sent⟩ := .send _ i r.2.view hknown
  have hsent : Registers.Step (Owns ids) ⟨(a.put i r.2.view).now, insert r.2.view a.sent⟩
      ⟨(a.put i r.2.view).now, insert r.1.view (insert r.2.view a.sent)⟩ :=
    .send ⟨_, _⟩ i r.1.view (hpart.trans hknown)
  refine ⟨_, ((Relation.ReflTransGen.single hwrite).tail hstate).tail hsent, ?_⟩
  refine h.put ?_ hle fun m hm => ?_
  · rw [← hr]
    rfl
  · rcases hm with rfl | rfl | hm
    · exact .inl (by rw [hr])
    · exact .inr (.inl (by rw [hr]))
    · exact .inr (.inr (h.sent m hm))

theorem Simulates.join {a : Registers.System ι (Side × K) Int} (h : Simulates s a) (i : ι)
    {m : Message ι K} (hm : m ∈ s.sent) :
    ∃ a', Run (Registers.Step (Owns ids)) a a' ∧ Simulates (s.join i m) a' := by
  have hview := Counter.view_join (h.nonneg i) m.counter
  have hknown : ((s.now i).join m.counter).view ≤
      (a.put i (a.now i ⊔ m.counter.view)).now i := by
    rw [a.now_put_self, h.now i, hview]
  refine ⟨⟨(a.put i (a.now i ⊔ m.counter.view)).now,
      insert ((s.now i).join m.counter).view a.sent⟩,
    (Relation.ReflTransGen.single (.merge a i m.counter.view (h.sent m hm))).tail
      (.send _ i _ hknown), ?_⟩
  rw [h.now i, ← hview]
  refine h.put rfl ?_ fun m' hm' => ?_
  · rw [hview]
    exact le_sup_left
  · rcases hm' with rfl | hm'
    · exact .inl rfl
    · exact .inr (h.sent m' hm')

/-- **A step of the replicas is a few steps of the registers.** -/
theorem Step.simulated {a : Registers.System ι (Side × K) Int} (h : Simulates s a)
    (hst : Step ids s s') :
    ∃ a', Run (Registers.Step (Owns ids)) a a' ∧ Simulates s' a' := by
  cases hst with
  | call i side v hv => exact h.call i side hv
  | join i m hm => exact h.join i hm

/-! ## What the calls add up to -/

/-- What has been called on one side. -/
def amounts (side : Side) (log : List (Call ι)) : Int :=
  ((log.filter fun c => c.side = side).map Call.amount).sum

/-- What has been called on one side under one id. -/
def total (ids : ι → K) (side : Side) (k : K) (log : List (Call ι)) : Int :=
  ((log.filter fun c => c.side = side ∧ ids c.origin = k).map Call.amount).sum

omit [DecidableEq ι] in
theorem amounts_cons (side : Side) (c : Call ι) (log : List (Call ι)) :
    amounts side (c :: log) = (if c.side = side then c.amount else 0) + amounts side log := by
  unfold amounts
  rw [List.filter_cons]
  by_cases h : c.side = side <;> simp [h]

omit [DecidableEq ι] in
theorem total_cons (side : Side) (k : K) (c : Call ι) (log : List (Call ι)) :
    total ids side k (c :: log) =
      (if c.side = side ∧ ids c.origin = k then c.amount else 0) + total ids side k log := by
  unfold total
  rw [List.filter_cons]
  by_cases h : c.side = side ∧ ids c.origin = k <;> simp [h]

omit [DecidableEq ι] in
theorem total_of_forall_ne {k : K} (h : ∀ i, ids i ≠ k) (side : Side) (log : List (Call ι)) :
    total ids side k log = 0 := by
  induction log with
  | nil => rfl
  | cons c log ih => rw [total_cons, ih, if_neg fun hc => h c.origin hc.2, add_zero]

omit [DecidableEq ι] in
theorem sum_total {S : Finset K} (side : Side) : ∀ {log : List (Call ι)},
    (∀ c ∈ log, ids c.origin ∈ S) → ∑ k ∈ S, total ids side k log = amounts side log := by
  intro log
  induction log with
  | nil => exact fun _ => Finset.sum_const_zero
  | cons c log ih =>
    intro h
    have hc : ids c.origin ∈ S := h c List.mem_cons_self
    have hlog := ih fun c' hc' => h c' (List.mem_cons_of_mem c hc')
    have hcall : ∑ k ∈ S, (if c.side = side ∧ ids c.origin = k then c.amount else 0) =
        if c.side = side then c.amount else 0 := by
      by_cases hside : c.side = side
      · simp [hside, hc]
      · simp [hside]
    rw [amounts_cons, ← hlog, ← hcall, ← Finset.sum_add_distrib]
    exact Finset.sum_congr rfl fun k _ => total_cons side k c log

/-! ## Latest deltas -/

/-- Each replica has its own totals. What it has received it knows. A latest delta has its origin's
total, and so has every full state that its origin has had since. -/
structure Tracks (ids : ι → K) (s : Counters ι K) : Prop where
  own : ∀ side i, (s.now i).view (side, ids i) = total ids side (ids i) s.log
  known : ∀ i, ∀ m ∈ s.received i, m ∈ s.sent ∧ m.counter.view ≤ (s.now i).view
  time : ∀ m ∈ s.sent, m.time ≤ s.log.length
  idle : ∀ side i, s.latest side i = none → total ids side (ids i) s.log = 0
  latest : ∀ side i m, s.latest side i = some m →
    m.counter.view (side, ids i) = total ids side (ids i) s.log
  later : ∀ side i m, s.latest side i = some m → ∀ t ∈ s.sent, t.origin = i → t.delta = none →
    m.time ≤ t.time → t.counter.view (side, ids i) = total ids side (ids i) s.log

omit [DecidableEq ι] in
theorem Tracks.start (ids : ι → K) : Tracks ids (start : Counters ι K) := by
  refine ⟨fun side i => ?_, fun i m hm => hm.elim, ?_, fun _ _ _ => rfl, nofun, nofun⟩
  · exact congrFun Counter.view_empty _
  · rintro m ⟨i, rfl⟩
    exact le_rfl

/-- A call adds to the total of its side and its origin. -/
theorem total_call (hids : Function.Injective ids) (s : Counters ι K) (i j : ι) (side side' : Side)
    (v : Int) : total ids side' (ids j) (s.call ids i side v).log =
      if side' = side ∧ j = i then total ids side' (ids j) s.log + v
      else total ids side' (ids j) s.log := by
  change total ids side' (ids j) (⟨side, i, v⟩ :: s.log) = _
  rw [total_cons]
  by_cases h : side' = side ∧ j = i
  · rw [if_pos h, if_pos ⟨h.1.symm, congrArg ids h.2.symm⟩, add_comm]
  · rw [if_neg h, if_neg fun h' => h ⟨h'.1.symm, (hids h'.2).symm⟩, zero_add]

theorem view_call (s : Counters ι K) (i j : ι) (side side' : Side) (v : Int) :
    ((s.call ids i side v).now j).view (side', ids j) =
      if side' = side ∧ j = i then (s.now j).view (side', ids j) + v
      else (s.now j).view (side', ids j) := by
  by_cases hj : j = i
  · subst hj
    rw [now_call_self, Counter.view_adjust]
    by_cases hside : side' = side
    · subst hside
      rw [Function.update_self, if_pos ⟨rfl, rfl⟩]
    · rw [Function.update_of_ne fun heq => hside (congrArg Prod.fst heq),
        if_neg fun h => hside h.1]
  · rw [now_call_ne s hj, if_neg fun h => hj h.2]

theorem latest_call (s : Counters ι K) (i j : ι) (side side' : Side) (v : Int) :
    (s.call ids i side v).latest side' j =
      if side' = side ∧ j = i then
        some ⟨i, some side, s.log.length + 1, ((s.now i).adjust side (ids i) v).1⟩
      else s.latest side' j := by
  change Function.update s.latest side _ side' j = _
  by_cases hside : side' = side
  · subst hside
    rw [Function.update_self, Function.update_apply]
    simp
  · rw [Function.update_of_ne hside, if_neg fun h => hside h.1]

theorem Tracks.call (hids : Function.Injective ids) (h : Tracks ids s) (i : ι) (side : Side)
    {v : Int} (hv : 0 ≤ v) : Tracks ids (s.call ids i side v) := by
  have hown : ∀ side' j, ((s.call ids i side v).now j).view (side', ids j) =
      total ids side' (ids j) (s.call ids i side v).log := by
    intro side' j
    rw [view_call, total_call hids, h.own]
  have hgrows : ∀ j, (s.now j).view ≤ ((s.call ids i side v).now j).view := by
    intro j
    by_cases hj : j = i
    · subst hj
      rw [now_call_self, Counter.view_adjust]
      exact le_update_self_iff.2 (by omega)
    · rw [now_call_ne s hj]
  refine ⟨hown, fun j m hm => ?_, ?_, fun side' j hnone => ?_, fun side' j m hm => ?_,
    fun side' j m hm t ht horigin hfull hle => ?_⟩
  · obtain ⟨hsent, hview⟩ := h.known j m hm
    exact ⟨.inr (.inr hsent), hview.trans (hgrows j)⟩
  · rintro m (rfl | rfl | hm)
    · exact le_rfl
    · exact le_rfl
    · exact Nat.le_succ_of_le (h.time m hm)
  · rw [latest_call] at hnone
    split_ifs at hnone with hcall
    rw [total_call hids, if_neg hcall]
    exact h.idle side' j hnone
  · rw [latest_call] at hm
    rw [total_call hids]
    split_ifs at hm ⊢ with hcall
    · obtain ⟨rfl, rfl⟩ := hcall
      cases hm
      rw [Counter.view_delta, Function.update_self, h.own]
    · exact h.latest side' j m hm
  · rcases ht with rfl | rfl | ht
    · cases hfull
    · -- the full state after the call
      cases horigin
      rw [← hown, now_call_self]
    · rw [latest_call] at hm
      rw [total_call hids]
      split_ifs at hm ⊢ with hcall
      · cases hm
        exact absurd (h.time t ht) (Nat.not_le.2 hle)
      · exact h.later side' j m hm t ht horigin hfull hle

/-- A join changes no total, and what it brings of the replica's own id the replica has. -/
theorem Tracks.join (h : Tracks ids s) (i : ι) {m : Message ι K} (hm : m ∈ s.sent)
    (hnonneg : 0 ≤ (s.now i).view)
    (hle : ∀ side, m.counter.view (side, ids i) ≤ (s.now i).view (side, ids i)) :
    Tracks ids (s.join i m) := by
  have hself : ((s.join i m).now i).view = (s.now i).view ⊔ m.counter.view := by
    rw [now_join_self, Counter.view_join hnonneg]
  have hown : ∀ side j, ((s.join i m).now j).view (side, ids j) =
      total ids side (ids j) s.log := by
    intro side j
    by_cases hj : j = i
    · subst hj
      rw [hself, Pi.sup_apply, sup_of_le_left (hle side), h.own]
    · rw [now_join_ne s hj, h.own]
  refine ⟨hown, fun j m' hm' => ?_, ?_, h.idle, h.latest,
    fun side j m' hm' t ht horigin hfull hlater => ?_⟩
  · by_cases hj : j = i
    · subst hj
      rw [hself]
      have hreceived : m' ∈ insert m (s.received j) := by
        simpa [Counters.join] using hm'
      rcases hreceived with rfl | hreceived
      · exact ⟨.inr hm, le_sup_right⟩
      · obtain ⟨hsent, hview⟩ := h.known j m' hreceived
        exact ⟨.inr hsent, hview.trans le_sup_left⟩
    · have hreceived : m' ∈ s.received j := by
        simpa [Counters.join, hj] using hm'
      obtain ⟨hsent, hview⟩ := h.known j m' hreceived
      rw [now_join_ne s hj]
      exact ⟨.inr hsent, hview⟩
  · rintro m' (rfl | hm')
    · exact le_rfl
    · exact h.time m' hm'
  · rcases ht with rfl | ht
    · cases horigin
      refine Eq.trans ?_ (hown side i)
      rw [now_join_self]
    · exact h.later side j m' hm' t ht horigin hfull hlater

/-! ## Runs -/

variable {a : Registers.System ι (Side × K) Int} {b : Side × K → Int}

omit [DecidableEq ι] in
theorem Simulates.start :
    Simulates (start : Counters ι K) (⟨fun _ => 0, {0}⟩ : Registers.System ι (Side × K) Int) := by
  refine ⟨fun i => Counter.view_empty.symm, ?_, fun i => Counter.view_empty.ge⟩
  rintro m ⟨i, rfl⟩
  exact Counter.view_empty

omit [DecidableEq ι] in
/-- The bound is what the owners hold, and nothing that is held or sent is above it. -/
theorem Simulates.le_own (h : Simulates s a) (hb : Registers.Bound (Owns ids) 0 a b) (side : Side)
    (i : ι) : b (side, ids i) = (s.now i).view (side, ids i) ∧
      (∀ j, (s.now j).view ≤ b) ∧ ∀ m ∈ s.sent, m.counter.view ≤ b := by
  refine ⟨?_, fun j => ?_, fun m hm => hb.sent _ (h.sent m hm)⟩
  · rw [hb.own i (side, ids i) rfl, h.now]
  · rw [← h.now j]
    exact hb.now j

theorem Step.tracks (hids : Function.Injective ids) (h : Tracks ids s) (hsim : Simulates s a)
    (hb : Registers.Bound (Owns ids) 0 a b) (hst : Step ids s s') : Tracks ids s' := by
  cases hst with
  | call i side v hv => exact h.call hids i side hv
  | join i m hm =>
    refine h.join i hm (hsim.nonneg i) fun side => ?_
    obtain ⟨hown, -, hsent⟩ := hsim.le_own hb side i
    rw [← hown]
    exact hsent m hm _

/-- All that holds after every run: the replicas are tracked, and simulated by registers of which
nobody knows more than their owner. -/
theorem Run.tracks (hids : Function.Injective ids) (h : Run (Step ids) start s) :
    Tracks ids s ∧ ∃ a b, Simulates s a ∧ Registers.Bound (Owns ids) 0 a b := by
  have hunique : ∀ i j x, Owns ids i x → Owns ids j x → i = j :=
    fun i j x hi hj => hids (hi.symm.trans hj)
  have hrun : Tracks ids s ∧
      ∃ a, Run (Registers.Step (Owns ids)) ⟨fun _ => 0, {0}⟩ a ∧ Simulates s a := by
    refine h.invariant (fun s => Tracks ids s ∧
      ∃ a, Run (Registers.Step (Owns ids)) ⟨fun _ => 0, {0}⟩ a ∧ Simulates s a)
      ⟨Tracks.start ids, _, .refl, Simulates.start⟩ ?_
    rintro s s' ⟨ht, a, ha, hsim⟩ hst
    obtain ⟨b, hb⟩ := Registers.Run.bound hunique ha
    obtain ⟨a', ha', hsim'⟩ := hst.simulated hsim
    exact ⟨hst.tracks hids ht hsim hb, a', ha.trans ha', hsim'⟩
  obtain ⟨ht, a, ha, hsim⟩ := hrun
  obtain ⟨b, hb⟩ := Registers.Run.bound hunique ha
  exact ⟨ht, a, b, hsim, hb⟩

/-- Replica `i` has received the latest deltas of `j`, or later full states of `j`. -/
def UpToDate (s : Counters ι K) (i j : ι) : Prop :=
  ∀ side m, s.latest side j = some m → m ∈ s.received i ∨
    ∃ t ∈ s.received i, t.origin = j ∧ t.delta = none ∧ m.time ≤ t.time

omit [DecidableEq ι] in
/-- Who is up to date on a replica has its totals. -/
theorem Tracks.view_eq_total (h : Tracks ids s) (hsim : Simulates s a)
    (hb : Registers.Bound (Owns ids) 0 a b) {i j : ι} (hij : UpToDate s i j) (side : Side) :
    (s.now i).view (side, ids j) = total ids side (ids j) s.log := by
  obtain ⟨hown, hnow, -⟩ := hsim.le_own hb side j
  have hle : (s.now i).view (side, ids j) ≤ total ids side (ids j) s.log := by
    rw [← h.own, ← hown]
    exact hnow i _
  refine le_antisymm hle ?_
  cases hlatest : s.latest side j with
  | none =>
    rw [h.idle side j hlatest]
    exact hsim.nonneg i _
  | some m =>
    rcases hij side m hlatest with hm | ⟨t, ht, horigin, hfull, hlater⟩
    · rw [← h.latest side j m hlatest]
      exact (h.known i m hm).2 _
    · rw [← h.later side j m hlatest t (h.known i t ht).1 horigin hfull hlater]
      exact (h.known i t ht).2 _

omit [DecidableEq ι] in
/-- A counter that has the totals of all ids reads what has been called. -/
theorem read_part_eq_amounts {c : Counter K} {side : Side} {log : List (Call ι)}
    (h : ∀ k, c.view (side, k) = total ids side k log) : (c.part side).read = amounts side log := by
  have hkeys : ∀ k ∈ (c.part side).m.keys,
      k ∈ (c.part side).m.keys.toFinset ∪ (log.map fun c => ids c.origin).toFinset :=
    fun k hk => Finset.mem_union_left _ (List.mem_toFinset.2 hk)
  have hcalls : ∀ call ∈ log, ids call.origin ∈
      (c.part side).m.keys.toFinset ∪ (log.map fun c => ids c.origin).toFinset :=
    fun call hcall => Finset.mem_union_right _
      (List.mem_toFinset.2 (List.mem_map_of_mem hcall))
  rw [BaseCounter.read_eq_sum _ hkeys, ← sum_total side hcalls]
  exact Finset.sum_congr rfl fun k _ => h k

/-- **Convergence with deltas.** After every run, no replica holds more for an id than the replica
with this id; and a replica that has received the latest deltas of all others, or later full states,
reads what has been added less what has been taken. -/
theorem delta_convergence (hids : Function.Injective ids) (h : Run (Step ids) start s) :
    (∀ i j side, ((s.now i).part side).localValue (ids j) ≤
      ((s.now j).part side).localValue (ids j)) ∧
    ∀ i, (∀ j, j ≠ i → UpToDate s i j) →
      (s.now i).read = amounts .inc s.log - amounts .dec s.log := by
  obtain ⟨ht, a, b, hsim, hb⟩ := Run.tracks hids h
  constructor
  · intro i j side
    obtain ⟨hown, hnow, -⟩ := hsim.le_own hb side j
    exact (hnow i (side, ids j)).trans hown.le
  · intro i hall
    have hview : ∀ side k, (s.now i).view (side, k) = total ids side k s.log := by
      intro side k
      by_cases hk : ∃ j, ids j = k
      · obtain ⟨j, rfl⟩ := hk
        by_cases hj : j = i
        · subst hj
          exact ht.own side j
        · exact ht.view_eq_total hsim hb (hall j hj) side
      · -- nobody has this id
        have hfree : b (side, k) = 0 := hb.free (side, k) fun j hj => hk ⟨j, hj.symm⟩
        have hle : (s.now i).view (side, k) ≤ 0 := by
          rw [← hfree, ← hsim.now i]
          exact hb.now i _
        rw [total_of_forall_ne (fun j hj => hk ⟨j, hj⟩)]
        exact le_antisymm hle (hsim.nonneg i _)
    have hinc : (s.now i).i.read = amounts .inc s.log := read_part_eq_amounts (hview .inc)
    have hdec : (s.now i).d.read = amounts .dec s.log := read_part_eq_amounts (hview .dec)
    rw [Counter.read, hinc, hdec]

/-- The first of two replicas adds five and takes two. -/
def taken : Counters Bool String :=
  let ids : Bool → String := fun i => cond i "user1" "user2"
  (start.call ids true .inc 5).call ids true .dec 2

/-- The second one joins the two deltas, the later one first. -/
theorem delta_convergence_deltas :
    ∃ s : Counters Bool String, Run (Step fun i => cond i "user1" "user2") start s ∧
      (∀ i j side, ((s.now i).part side).localValue (cond j "user1" "user2") ≤
        ((s.now j).part side).localValue (cond j "user1" "user2")) ∧
      (s.now false).read = amounts .inc s.log - amounts .dec s.log ∧ (s.now false).read = 3 := by
  let added : Message Bool String := ⟨true, some .inc, 1, ⟨⟨SortedMap.set ∅ "user1" 5⟩, ∅⟩⟩
  let removed : Message Bool String := ⟨true, some .dec, 2, ⟨∅, ⟨SortedMap.set ∅ "user1" 2⟩⟩⟩
  have hremoved : removed ∈ taken.sent := .inl rfl
  have hadded : added ∈ (taken.join false removed).sent := .inr (.inr (.inr (.inl rfl)))
  have hrun : Run (Step fun i => cond i "user1" "user2") start
      ((taken.join false removed).join false added) :=
    (((Relation.ReflTransGen.single (.call start true .inc 5 (by decide))).tail
      (.call _ true .dec 2 (by decide))).tail (.join taken false removed hremoved)).tail
      (.join _ false added hadded)
  have hupToDate : ∀ j, j ≠ false →
      UpToDate ((taken.join false removed).join false added) false j := by
    intro j hj side m hm
    obtain rfl : j = true := Bool.eq_true_of_not_eq_false hj
    cases side with
    | inc =>
      cases hm
      exact .inl (.inl rfl)
    | dec =>
      cases hm
      exact .inl (.inr (.inl rfl))
  obtain ⟨hle, hread⟩ := delta_convergence (by decide) hrun
  exact ⟨_, hrun, hle, hread false hupToDate, by decide⟩

end Counters

end ShoppingApp
