import ShoppingApp.Lib.Causal
import ShoppingApp.Verify.DotContext
import ShoppingApp.Crdt.ORMap
import Mathlib.Data.Bool.Basic
import Mathlib.Data.Fintype.Order
import Mathlib.Data.Int.ConditionallyCompleteOrder
import Mathlib.Order.CompletePartialOrder

/-!
# The map as a point of a lattice

`ORMap.sem` reads a map as three functions: which keys it has, which dots it has seen, and the
`DotState` of every dot under every key. `ORMap::join` is the join of that lattice (`sem_join`) and
local operations only move dots up in it (`sem_le_modify`, `sem_le_remove`; a removal drops the
key). Well-formed maps with compacted contexts are determined by what they mean (`WF.ext`), so the
laws of `ORMap::join` are those of `⊔`.
-/

namespace ShoppingApp

open DotContext

/-- Dots with non-negative sequence numbers: those that compaction keeps apart. -/
abbrev NDot := { d : Dot // 0 ≤ d.second }

/-! ## Kernels and counters -/

namespace DotKernel

variable {T : Type*}

theorem find?_joinValues (k o : DotKernel T) (d : Dot) :
    (joinValues k o).find? d = DotState.mergeLive (k.values.find? d) (k.context.contains d)
      (o.values.find? d) (o.context.contains d) := by
  unfold joinValues
  rw [SortedMap.find?_merge (fun _ _ => rfl) (fun _ _ => rfl) fun _ _ _ => rfl]
  cases k.values.find? d <;> cases o.values.find? d <;> rfl

end DotKernel

namespace CausalCounter

theorem mem_ownDots {c : CausalCounter} {id : String} {d : Dot} :
    d ∈ c.ownDots id ↔ d.first = id ∧ ∃ v, c.core.values.find? d = some v := by
  rw [ownDots, List.mem_filter, SortedMap.mem_keys]
  simp [and_comm]

theorem foldl_removeDot_context (ds : List Dot) : ∀ k : DotKernel Int,
    (ds.foldl DotKernel.removeDot k).context = k.context := by
  induction ds with
  | nil => intro k; rfl
  | cons d ds ih => intro k; rw [List.foldl_cons, ih]; rfl

theorem find?_foldl_removeDot (ds : List Dot) (d : Dot) : ∀ k : DotKernel Int,
    (ds.foldl DotKernel.removeDot k).values.find? d =
      if d ∈ ds then none else k.values.find? d := by
  induction ds with
  | nil => intro k; simp
  | cons e ds ih =>
    intro k
    rw [List.foldl_cons, ih, DotKernel.removeDot, SortedMap.find?_erase]
    by_cases he : d = e <;> by_cases hd : d ∈ ds <;> simp [he, hd]

theorem rewrite_context (c : CausalCounter) (id : String) (f : Int → Int) :
    (c.rewrite id f).core.context = (c.core.context.nextDot id).2 := by
  simp only [rewrite, DotKernel.add, foldl_removeDot_context]

/-- After `inc` or `dec` the replica has one dot, the new one; other replicas' dots stay. -/
theorem find?_rewrite {c : CausalCounter} {id : String} {f : Int → Int}
    (hfresh : c.core.values.find? (c.core.context.nextDot id).1 = none) (d : Dot) :
    (c.rewrite id f).core.values.find? d =
      if d = (c.core.context.nextDot id).1 then some (f (c.ownMax id))
      else if d.first = id then none else c.core.values.find? d := by
  simp only [rewrite, DotKernel.add, foldl_removeDot_context, SortedMap.find?_insert,
    find?_foldl_removeDot, hfresh, ite_self, Option.getD_none]
  by_cases hnew : d = (c.core.context.nextDot id).1
  · simp [hnew]
  · by_cases hid : d.first = id
    · cases hv : c.core.values.find? d with
      | none => simp [hid]
      | some v =>
        have : d ∈ c.ownDots id := mem_ownDots.2 ⟨hid, v, hv⟩
        simp [hid, this]
    · have : d ∉ c.ownDots id := fun h => hid (mem_ownDots.1 h).1
      simp [hnew, hid, this]

/-! ### What a replica has put in -/

theorem localValue_eq (c : CausalCounter) (id : String) :
    c.localValue id =
      (c.core.values.entries.filter fun e => e.1.first = id).foldl (fun res e => res + e.2) 0 := by
  rw [List.foldl_filter]
  simp only [decide_eq_true_eq]
  rfl

theorem ownMax_eq (c : CausalCounter) (id : String) :
    c.ownMax id =
      (c.core.values.entries.filter fun e => e.1.first = id).foldl (fun v e => max v e.2) 0 := by
  rw [List.foldl_filter]
  simp only [decide_eq_true_eq]
  rfl

/-- A replica with one dot has put in its value, a replica without dots nothing. -/
theorem own_eq_of_single {c : CausalCounter} {id : String} {d : Dot} {v : Int}
    (hd : c.core.values.find? d = some v) (hid : d.first = id)
    (hsingle : ∀ e w, c.core.values.find? e = some w → e.first = id → e = d) :
    c.localValue id = v ∧ c.ownMax id = max 0 v := by
  have hfilter : (c.core.values.entries.filter fun e => e.1.first = id) = [(d, v)] := by
    have hirr : Std.Irrefl fun a b : Dot × Int => a.1 < b.1 := ⟨fun a => lt_irrefl a.1⟩
    have hasym : Std.Antisymm fun a b : Dot × Int => a.1 < b.1 :=
      ⟨fun a b hab hba => absurd hab hba.asymm⟩
    refine (c.core.values.sorted.filter _).eq_of_mem_iff (List.pairwise_singleton _ _) ?_
    rintro ⟨e, w⟩
    rw [List.mem_filter, ← SortedMap.find?_eq_some, decide_eq_true_eq, List.mem_singleton]
    constructor
    · rintro ⟨hw, hfirst⟩
      obtain rfl := hsingle e w hw hfirst
      rw [hd] at hw
      cases hw
      rfl
    · rintro heq
      cases heq
      exact ⟨hd, hid⟩
  rw [localValue_eq, ownMax_eq, hfilter]
  exact ⟨Int.zero_add v, rfl⟩

theorem own_of_single {c : CausalCounter} {id : String} {d : Dot} {v : Int}
    (hd : c.core.values.find? d = some v) (hid : d.first = id) (hv : 0 ≤ v)
    (hsingle : ∀ e w, c.core.values.find? e = some w → e.first = id → e = d) :
    c.localValue id = v ∧ c.ownMax id = v := by
  obtain ⟨hlocal, hmax⟩ := own_eq_of_single hd hid hsingle
  exact ⟨hlocal, hmax.trans (max_eq_right hv)⟩

theorem own_of_none {c : CausalCounter} {id : String}
    (h : ∀ e w, c.core.values.find? e = some w → e.first ≠ id) :
    c.localValue id = 0 ∧ c.ownMax id = 0 := by
  have hfilter : (c.core.values.entries.filter fun e => e.1.first = id) = [] := by
    rw [List.filter_eq_nil_iff]
    rintro ⟨e, w⟩ hmem hfirst
    exact h e w ((SortedMap.find?_eq_some _).2 hmem) (of_decide_eq_true hfirst)
  rw [localValue_eq, ownMax_eq, hfilter]
  exact ⟨rfl, rfl⟩

end CausalCounter

theorem Cell.join_shared {cell : Cell} (h : cell.own = none) (context : DotContext)
    (o : CausalCounter) : (cell.join context o).1 =
      ⟨none, DotKernel.joinValues ⟨context, cell.values⟩ o.core⟩ := by
  obtain ⟨own, values⟩ := cell
  cases h
  rfl

/-! ## Well-formed maps and what they mean -/

namespace ORMap

variable {K : Type*} [LinearOrder K]

/-- The value under which dot `d` is live at `k`. -/
def live (m : ORMap K) (k : K) (d : Dot) : Option Int := (m.cellAt k).values.find? d

/-- All counters refer to the map's context. -/
def Shared (m : ORMap K) : Prop := ∀ {k cell}, m.map.find? k = some cell → cell.own = none

theorem Shared.empty : (∅ : ORMap K).Shared := fun h => by simp at h

/-- All counters refer to the map's context, which holds the live dots; sequence numbers are
non-negative. -/
structure WF (m : ORMap K) : Prop where
  shared : ∀ {k cell}, m.map.find? k = some cell → cell.own = none
  seen : ∀ {k d v}, m.live k d = some v → m.context.contains d = true
  live_nonneg : ∀ {k d v}, m.live k d = some v → 0 ≤ d.second
  nonNeg : NonNeg m.context

/-- Keys, dots seen, and the state of each dot under each key. -/
abbrev Sem (K : Type*) := (K → Bool) × (NDot → Bool) × (K → NDot → DotState Int)

/-- What a map means. -/
def sem (m : ORMap K) : Sem K :=
  (fun k => (m.map.find? k).isSome, fun d => m.context.contains d,
    fun k d => DotState.of (m.live k d) (m.context.contains d))

theorem live_of_find?_none {m : ORMap K} {k : K} (h : m.map.find? k = none) (d : Dot) :
    m.live k d = none := by
  simp [live, cellAt, h, Cell.fresh]

theorem live_of_find? {m : ORMap K} {k : K} {cell : Cell} (h : m.map.find? k = some cell)
    (d : Dot) : m.live k d = cell.values.find? d := by
  simp [live, cellAt, h]

theorem WF.cellAt_own {m : ORMap K} (h : m.WF) (k : K) : (m.cellAt k).own = none := by
  unfold cellAt
  cases hc : m.map.find? k with
  | none => rfl
  | some cell => exact h.shared hc

theorem WF.empty : WF (∅ : ORMap K) :=
  ⟨fun h => by simp at h, fun h => by simp [live, cellAt, Cell.fresh] at h,
    fun h => by simp [live, cellAt, Cell.fresh] at h, NonNeg.empty⟩

theorem WF.live_seen {m : ORMap K} (h : m.WF) (k : K) (d : Dot) :
    (m.live k d).isSome → m.context.contains d = true := by
  intro hs
  obtain ⟨v, hv⟩ := Option.isSome_iff_exists.1 hs
  exact h.seen hv

/-! ## join -/

theorem join_context (m o : ORMap K) : (m.join o).context = m.context.join o.context := by
  simp only [join]
  rw [SortedMap.merge_state (fun _ _ => rfl) (fun _ _ => rfl) fun _ _ _ => rfl]

theorem find?_join (m o : ORMap K) (k : K) :
    (m.join o).map.find? k =
      match m.map.find? k, o.map.find? k with
      | none, none => none
      | some cell, none => some (cell.join m.context ⟨⟨o.context, ∅⟩⟩).1
      | none, some ocell => some (Cell.fresh.join m.context (ocell.counter o.context)).1
      | some cell, some ocell => some (cell.join m.context (ocell.counter o.context)).1 := by
  simp only [join]
  rw [SortedMap.find?_merge (fun _ _ => rfl) (fun _ _ => rfl) fun _ _ _ => rfl]
  cases m.map.find? k <;> cases o.map.find? k <;> rfl

/-- Where a join looks up what `m` has seen of the dots under `k`. -/
def contextAt (m : ORMap K) (k : K) : DotContext :=
  match m.map.find? k with
  | none => m.context
  | some cell => (cell.counter m.context).core.context

theorem Shared.contextAt_eq {m : ORMap K} (h : m.Shared) (k : K) : m.contextAt k = m.context := by
  unfold contextAt
  cases hk : m.map.find? k with
  | none => rfl
  | some cell => simp [Cell.counter, h hk]

/-- What one join does to one dot, whatever the counters of the other map refer to. -/
theorem Shared.live_join_contextAt {m : ORMap K} (hm : m.Shared) (o : ORMap K) (k : K) (d : Dot) :
    (m.join o).live k d =
      DotState.mergeLive (m.live k d) (m.context.contains d) (o.live k d)
        ((o.contextAt k).contains d) := by
  have hjoin := find?_join m o k
  unfold contextAt
  cases hk : m.map.find? k with
  | none =>
    rw [live_of_find?_none hk]
    cases hk' : o.map.find? k with
    | none =>
      rw [hk, hk'] at hjoin
      rw [live_of_find?_none hjoin, live_of_find?_none hk']
      rfl
    | some ocell =>
      simp only [hk, hk', Cell.join_shared (rfl : Cell.fresh.own = none)] at hjoin
      rw [live_of_find? hjoin, live_of_find? hk', DotKernel.find?_joinValues]
      simp [Cell.fresh, Cell.counter]
  | some cell =>
    rw [live_of_find? hk]
    cases hk' : o.map.find? k with
    | none =>
      simp only [hk, hk', Cell.join_shared (hm hk)] at hjoin
      rw [live_of_find? hjoin, live_of_find?_none hk', DotKernel.find?_joinValues]
      simp
    | some ocell =>
      simp only [hk, hk', Cell.join_shared (hm hk)] at hjoin
      rw [live_of_find? hjoin, live_of_find? hk', DotKernel.find?_joinValues]
      simp [Cell.counter]

/-- **What one join does to one dot**: kept if live on both sides, or live on one side and unseen
on the other. -/
theorem Shared.live_join {m o : ORMap K} (hm : m.Shared) (ho : o.Shared) (k : K) (d : Dot) :
    (m.join o).live k d =
      DotState.mergeLive (m.live k d) (m.context.contains d) (o.live k d)
        (o.context.contains d) := by
  rw [hm.live_join_contextAt, ho.contextAt_eq]

/-- Whatever is joined into a map, its counters refer to its context. -/
theorem Shared.join {m : ORMap K} (hm : m.Shared) (o : ORMap K) : (m.join o).Shared := by
  intro k cell hk
  rw [find?_join] at hk
  cases h1 : m.map.find? k <;> cases h2 : o.map.find? k <;> rw [h1, h2] at hk <;> cases hk
  · rw [Cell.join_shared rfl]
  · rw [Cell.join_shared (hm h1)]
  · rw [Cell.join_shared (hm h1)]

theorem WF.live_join {m o : ORMap K} (hm : m.WF) (ho : o.WF) (k : K) (d : Dot) :
    (m.join o).live k d =
      DotState.mergeLive (m.live k d) (m.context.contains d) (o.live k d)
        (o.context.contains d) :=
  Shared.live_join hm.shared ho.shared k d

/-- A join makes no dot live that neither side has. -/
theorem WF.live_join_eq_some {m o : ORMap K} (hm : m.WF) (ho : o.WF) {k : K} {d : Dot} {v : Int}
    (h : (m.join o).live k d = some v) : m.live k d = some v ∨ o.live k d = some v := by
  rw [hm.live_join ho] at h
  exact DotState.mergeLive_eq_some h

theorem WF.join {m o : ORMap K} (hm : m.WF) (ho : o.WF) : (m.join o).WF := by
  have hnonneg : ∀ {k d v}, (m.join o).live k d = some v → 0 ≤ d.second := by
    intro k d v hv
    rcases hm.live_join_eq_some ho hv with hv | hv
    · exact hm.live_nonneg hv
    · exact ho.live_nonneg hv
  refine ⟨Shared.join hm.shared o, fun {k d v} hv => ?_, hnonneg, ?_⟩
  · rw [join_context, contains_join _ _ (hnonneg hv), Bool.or_eq_true]
    rcases hm.live_join_eq_some ho hv with hv | hv
    · exact .inl (hm.seen hv)
    · exact .inr (ho.seen hv)
  · rw [join_context]
    exact hm.nonNeg.join ho.nonNeg

theorem isSome_find?_join (m o : ORMap K) (k : K) :
    ((m.join o).map.find? k).isSome = ((m.map.find? k).isSome || (o.map.find? k).isSome) := by
  rw [find?_join]
  cases m.map.find? k <;> cases o.map.find? k <;> rfl

/-- The maps agree on the value of every dot live on both sides. -/
def Agree (m o : ORMap K) : Prop :=
  ∀ k d v w, m.live k d = some v → o.live k d = some w → v = w

theorem Agree.refl (m : ORMap K) : Agree m m := by
  intro k d v w hv hw
  exact Option.some.inj (hv.symm.trans hw)

theorem Agree.symm {m o : ORMap K} (h : Agree m o) : Agree o m := by
  intro k d v w hv hw
  exact (h k d w v hw hv).symm

theorem WF.agree_join {m o p : ORMap K} (hm : m.WF) (ho : o.WF) (hmp : Agree m p)
    (hop : Agree o p) : Agree (m.join o) p := by
  intro k d v w hv hw
  rcases hm.live_join_eq_some ho hv with hv | hv
  · exact hmp k d v w hv hw
  · exact hop k d v w hv hw

/-- **`ORMap::join` is the join of what its arguments mean**, where they agree. -/
theorem WF.sem_join {m o : ORMap K} (hm : m.WF) (ho : o.WF) (hmo : Agree m o) :
    (m.join o).sem = m.sem ⊔ o.sem := by
  refine Prod.ext ?_ (Prod.ext ?_ ?_)
  · funext k
    exact isSome_find?_join m o k
  · funext d
    change (m.join o).context.contains d = _
    rw [join_context, contains_join _ _ d.2]
    rfl
  · funext k d
    change DotState.of ((m.join o).live k d) ((m.join o).context.contains d) = _
    rw [hm.live_join ho, join_context, contains_join _ _ d.2]
    exact DotState.of_mergeLive (hm.live_seen k d) (ho.live_seen k d) (hmo k d)

/-! ## Maps with one meaning are equal -/

theorem live_eq_of_meaning_eq {m o : ORMap K} (hm : m.WF) (ho : o.WF)
    (h : m.sem.2 = o.sem.2) (k : K) (d : Dot) : m.live k d = o.live k d := by
  by_cases hd : 0 ≤ d.second
  · have hst : DotState.of (m.live k d) (m.context.contains d) =
        DotState.of (o.live k d) (o.context.contains d) :=
      congrFun (congrFun (congrArg Prod.snd h) k) ⟨d, hd⟩
    simpa using congrArg DotState.live hst
  · have hno : ∀ {p : ORMap K}, p.WF → p.live k d = none := by
      intro p hp
      cases hv : p.live k d with
      | none => rfl
      | some v => exact absurd (hp.live_nonneg hv) hd
    rw [hno hm, hno ho]

theorem context_eq_of_meaning_eq {m o : ORMap K} (hm : m.WF) (ho : o.WF)
    (h : m.sem.2 = o.sem.2) (hmc : Compacted m.context) (hoc : Compacted o.context) :
    m.context = o.context :=
  hmc.ext hoc hm.nonNeg ho.nonNeg fun d hd => congrFun (congrArg Prod.fst h) ⟨d, hd⟩

/-- Maps whose counters refer to them are determined by their keys, live dots and contexts. -/
theorem Shared.ext {m o : ORMap K} (hm : m.Shared) (ho : o.Shared)
    (hkey : ∀ k, (m.map.find? k).isSome = (o.map.find? k).isSome)
    (hlive : ∀ k d, m.live k d = o.live k d) (hcontext : m.context = o.context) : m = o := by
  have hmap : m.map = o.map := by
    refine SortedMap.ext_find fun k => ?_
    have hk := hkey k
    cases h1 : m.map.find? k with
    | none =>
      rw [h1] at hk
      exact (Option.not_isSome_iff_eq_none.1 (by simp [← hk])).symm
    | some c =>
      rw [h1] at hk
      obtain ⟨c', h2⟩ := Option.isSome_iff_exists.1 hk.symm
      have hvalues : c.values = c'.values := SortedMap.ext_find fun d => by
        rw [← live_of_find? h1, ← live_of_find? h2, hlive]
      have hown : c.own = c'.own := (hm h1).trans (ho h2).symm
      rw [h2]
      cases c; cases c'; cases hvalues; cases hown; rfl
  cases m; cases o; cases hmap; cases hcontext; rfl

/-- The join into the empty map keeps every dot and gives its counters the shared context back. -/
theorem WF.empty_join_eq {m o : ORMap K} (h : m.WF) (hc : DotContext.Compacted m.context)
    (hkeys : ∀ k, (o.map.find? k).isSome = (m.map.find? k).isSome)
    (hlive : ∀ k d, o.live k d = m.live k d) (hcontext : o.context = m.context) :
    (∅ : ORMap K).join o = m := by
  have hjoin : ((∅ : ORMap K).join o).Shared := Shared.empty.join _
  refine hjoin.ext h.shared (fun k => ?_) (fun k d => ?_) ?_
  · rw [isSome_find?_join, hkeys]
    rfl
  · rw [Shared.empty.live_join_contextAt, hlive]
    cases m.live k d <;> rfl
  · rw [join_context, hcontext]
    exact DotContext.empty_join hc

theorem WF.empty_join {m : ORMap K} (h : m.WF) (hc : DotContext.Compacted m.context) :
    (∅ : ORMap K).join m = m :=
  h.empty_join_eq hc (fun _ => rfl) (fun _ _ => rfl) rfl

/-- **Well-formed maps with compacted contexts are determined by what they mean.** -/
theorem WF.ext {m o : ORMap K} (hm : m.WF) (ho : o.WF) (hmc : Compacted m.context)
    (hoc : Compacted o.context) (h : m.sem = o.sem) : m = o :=
  Shared.ext hm.shared ho.shared (congrFun (congrArg Prod.fst h))
    (live_eq_of_meaning_eq hm ho (congrArg Prod.snd h))
    (context_eq_of_meaning_eq hm ho (congrArg Prod.snd h) hmc hoc)

/-! ## Local operations move up -/

theorem WF.modify_rewrite {m : ORMap K} (h : m.WF) (k : K) (id : String) (f : Int → Int) :
    m.modify k (fun c => c.rewrite id f) =
      ⟨m.map.set k ⟨none, (((m.cellAt k).counter m.context).rewrite id f).core.values⟩,
        (m.context.nextDot id).2⟩ := by
  have hown := h.cellAt_own k
  simp only [modify, Cell.write, hown, CausalCounter.rewrite_context, Cell.counter,
    Option.getD_none]

/-- The new dot of `nextDot` is live nowhere. -/
theorem WF.live_fresh {m : ORMap K} (h : m.WF) (hdc : m.context.dc = ∅) (id : String) (k : K) :
    m.live k (m.context.nextDot id).1 = none := by
  cases hv : m.live k (m.context.nextDot id).1 with
  | none => rfl
  | some v =>
    have := h.seen hv
    rw [nextDot_fresh hdc] at this
    cases this

theorem WF.live_modify {m : ORMap K} (h : m.WF) (hdc : m.context.dc = ∅) (k : K) (id : String)
    (f : Int → Int) (k' : K) (d : Dot) :
    (m.modify k fun c => c.rewrite id f).live k' d =
      if k' = k then
        if d = (m.context.nextDot id).1 then some (f (((m.cellAt k).counter m.context).ownMax id))
        else if d.first = id then none else m.live k d
      else m.live k' d := by
  rw [h.modify_rewrite]
  have hctx : ((m.cellAt k).counter m.context).core.context = m.context := by
    simp [Cell.counter, h.cellAt_own k]
  have hfresh : ((m.cellAt k).counter m.context).core.values.find?
      (((m.cellAt k).counter m.context).core.context.nextDot id).1 = none := by
    rw [hctx]; exact h.live_fresh hdc id k
  by_cases hk : k' = k
  · subst hk
    simp only [live, cellAt, SortedMap.find?_set_self, Option.getD_some, if_true]
    refine (CausalCounter.find?_rewrite hfresh d).trans ?_
    rw [hctx]
    rfl
  · simp only [live, cellAt, SortedMap.find?_set_ne _ _ hk, hk, if_false]

theorem context_modify {m : ORMap K} (h : m.WF) (k : K) (id : String) (f : Int → Int) :
    (m.modify k fun c => c.rewrite id f).context = (m.context.nextDot id).2 := by
  rw [h.modify_rewrite]

/-- A live dot after `inc` or `dec` is the new one or was live. -/
theorem WF.live_modify_eq_some {m : ORMap K} (h : m.WF) (hdc : m.context.dc = ∅) {k k' : K}
    {id : String} {f : Int → Int} {d : Dot} {v : Int}
    (hv : (m.modify k fun c => c.rewrite id f).live k' d = some v) :
    (k' = k ∧ d = (m.context.nextDot id).1 ∧
        v = f (((m.cellAt k).counter m.context).ownMax id)) ∨ m.live k' d = some v := by
  rw [h.live_modify hdc] at hv
  split_ifs at hv with h1 h2 h3
  · exact .inl ⟨h1, h2, (Option.some.inj hv).symm⟩
  · subst h1; exact .inr hv
  · exact .inr hv

theorem WF.modify {m : ORMap K} (h : m.WF) (hdc : m.context.dc = ∅) (k : K) (id : String)
    (f : Int → Int) : (m.modify k fun c => c.rewrite id f).WF := by
  refine ⟨fun {k' cell} hk => ?_, fun {k' d v} hv => ?_, fun {k' d v} hv => ?_, ?_⟩
  · rw [h.modify_rewrite] at hk
    simp only [SortedMap.find?_set] at hk
    split_ifs at hk
    · cases hk; rfl
    · exact h.shared hk
  · rw [context_modify h]
    rcases h.live_modify_eq_some hdc hv with ⟨-, rfl, -⟩ | hv
    · exact contains_nextDot_self _ id
    · exact contains_nextDot_of_contains (h.seen hv)
  · rcases h.live_modify_eq_some hdc hv with ⟨-, rfl, -⟩ | hv
    · exact (h.nonNeg.nextDot_pos id).le
    · exact h.live_nonneg hv
  · rw [context_modify h]
    exact h.nonNeg.nextDot id

/-- `inc` and `dec` move the map up. -/
theorem WF.sem_le_modify {m : ORMap K} (h : m.WF) (hdc : m.context.dc = ∅) (k : K) (id : String)
    (f : Int → Int) : m.sem.2 ≤ (m.modify k fun c => c.rewrite id f).sem.2 := by
  have hseen : ∀ d, m.context.contains d = true →
      (m.modify k fun c => c.rewrite id f).context.contains d = true := by
    intro d hd
    rw [context_modify h]
    exact contains_nextDot_of_contains hd
  refine ⟨fun d => Bool.le_iff_imp.2 (hseen d), fun k' d => ?_⟩
  refine DotState.of_le_of (hseen d) (fun v hv => ?_) fun hv hd => ?_
  · rw [h.live_modify hdc]
    split_ifs with h1 h2 h3
    · subst h1
      rw [h2, h.live_fresh hdc] at hv
      cases hv
    · exact .inl ⟨rfl, hseen d (h.seen hv)⟩
    · subst h1; exact .inr ⟨v, hv, le_rfl⟩
    · exact .inr ⟨v, hv, le_rfl⟩
  · rw [h.live_modify hdc]
    split_ifs with h1 h2 h3
    · rw [h2, nextDot_fresh hdc] at hd
      cases hd
    · rfl
    · subst h1; exact hv
    · exact hv

theorem live_remove (m : ORMap K) (k k' : K) (d : Dot) :
    (m.remove k).live k' d = if k' = k then none else m.live k' d := by
  simp only [live, cellAt, remove, SortedMap.find?_erase]
  split_ifs <;> rfl

theorem WF.remove {m : ORMap K} (h : m.WF) (k : K) : (m.remove k).WF := by
  have hlive : ∀ {k' d v}, (m.remove k).live k' d = some v → m.live k' d = some v := by
    intro k' d v hv
    rw [live_remove] at hv
    split_ifs at hv
    exact hv
  refine ⟨fun {k' cell} hk => ?_, fun hv => h.seen (hlive hv),
    fun hv => h.live_nonneg (hlive hv), h.nonNeg⟩
  simp only [ORMap.remove, SortedMap.find?_erase] at hk
  split_ifs at hk
  exact h.shared hk

/-- What `remove` does to dots, it does upwards: live dots die, and stay seen. -/
theorem WF.sem_le_remove {m : ORMap K} (h : m.WF) (k : K) : m.sem.2 ≤ (m.remove k).sem.2 := by
  refine ⟨fun d => le_rfl, fun k' d => ?_⟩
  refine DotState.of_le_of (fun hd => hd) (fun v hv => ?_) fun hv _ => ?_
  · rw [live_remove]
    split_ifs
    · exact .inl ⟨rfl, h.seen hv⟩
    · exact .inr ⟨v, hv, le_rfl⟩
  · rw [live_remove, hv, ite_self]

/-! ## The laws of join -/

theorem eqv_refl (m : ORMap K) : m.Eqv m := ⟨rfl, rfl⟩

theorem WF.join_comm {m o : ORMap K} (hm : m.WF) (ho : o.WF) (hmo : Agree m o) :
    m.join o = o.join m := by
  refine (hm.join ho).ext (ho.join hm) ?_ ?_ ?_
  · rw [join_context]; exact join_compacted _ _
  · rw [join_context]; exact join_compacted _ _
  · rw [hm.sem_join ho hmo, ho.sem_join hm hmo.symm, sup_comm]

theorem WF.join_assoc {m o p : ORMap K} (hm : m.WF) (ho : o.WF) (hp : p.WF) (hmo : Agree m o)
    (hmp : Agree m p) (hop : Agree o p) : (m.join o).join p = m.join (o.join p) := by
  have hleft : Agree (m.join o) p := hm.agree_join ho hmp hop
  have hright : Agree m (o.join p) := (ho.agree_join hp hmo.symm hmp.symm).symm
  refine ((hm.join ho).join hp).ext (hm.join (ho.join hp)) ?_ ?_ ?_
  · rw [join_context]; exact join_compacted _ _
  · rw [join_context]; exact join_compacted _ _
  · rw [(hm.join ho).sem_join hp hleft, hm.sem_join ho hmo, hm.sem_join (ho.join hp) hright,
      ho.sem_join hp hop, sup_assoc]

theorem WF.join_self {m : ORMap K} (hm : m.WF) (hc : Compacted m.context) : m.join m = m := by
  refine (hm.join hm).ext hm ?_ hc ?_
  · rw [join_context]; exact join_compacted _ _
  · rw [hm.sem_join hm (Agree.refl m), sup_idem]

/-! ## Joining a list of maps -/

theorem WF.foldl_join {m : ORMap K} (hm : m.WF) : ∀ {ms : List (ORMap K)},
    (∀ o ∈ ms, o.WF) → (ms.foldl ORMap.join m).WF := by
  intro ms
  induction ms generalizing m with
  | nil => intro _; exact hm
  | cons o ms ih =>
    intro hms
    exact ih (hm.join (hms o List.mem_cons_self)) fun p hp => hms p (List.mem_cons_of_mem _ hp)

theorem foldl_join_compacted {m : ORMap K} (hm : Compacted m.context) (ms : List (ORMap K)) :
    Compacted (ms.foldl ORMap.join m).context := by
  induction ms generalizing m with
  | nil => exact hm
  | cons o ms ih =>
    refine ih ?_
    rw [join_context]
    exact join_compacted _ _

/-- The join of maps that agree means the least upper bound of what they mean. -/
theorem WF.sem_foldl_join_le_iff {m : ORMap K} (hm : m.WF) {x : Sem K} :
    ∀ {ms : List (ORMap K)}, (∀ o ∈ ms, o.WF) → (∀ o ∈ ms, Agree m o) →
      (∀ o ∈ ms, ∀ p ∈ ms, Agree o p) →
      ((ms.foldl ORMap.join m).sem ≤ x ↔ m.sem ≤ x ∧ ∀ o ∈ ms, o.sem ≤ x) := by
  intro ms
  induction ms generalizing m with
  | nil =>
    intro _ _ _
    exact ⟨fun h => ⟨h, fun o ho => absurd ho List.not_mem_nil⟩, fun h => h.1⟩
  | cons o ms ih =>
    intro hwf hagree hall
    have ho : o.WF := hwf o List.mem_cons_self
    have hmo : Agree m o := hagree o List.mem_cons_self
    have hrest : ∀ p ∈ ms, Agree (m.join o) p := fun p hp =>
      hm.agree_join ho (hagree p (List.mem_cons_of_mem _ hp))
        (hall o List.mem_cons_self p (List.mem_cons_of_mem _ hp))
    rw [List.foldl_cons, ih (hm.join ho) (fun p hp => hwf p (List.mem_cons_of_mem _ hp)) hrest
      (fun p hp q hq => hall p (List.mem_cons_of_mem _ hp) q (List.mem_cons_of_mem _ hq)),
      hm.sem_join ho hmo, sup_le_iff, List.forall_mem_cons, and_assoc]

/-- Lists of the same maps have the same join, whatever their order and repetitions. -/
theorem foldl_join_congr {ms ns : List (ORMap K)} (hsame : ∀ o, o ∈ ms ↔ o ∈ ns)
    (hwf : ∀ o ∈ ms, o.WF) (hagree : ∀ o ∈ ms, ∀ p ∈ ms, Agree o p) :
    ms.foldl ORMap.join ∅ = ns.foldl ORMap.join ∅ := by
  have hempty : ∀ o : ORMap K, Agree ∅ o := by
    intro o k d v w hv
    rw [live_of_find?_none rfl] at hv
    cases hv
  have hwf' : ∀ o ∈ ns, o.WF := fun o ho => hwf o ((hsame o).2 ho)
  refine (WF.empty.foldl_join hwf).ext (WF.empty.foldl_join hwf')
    (foldl_join_compacted (Compacted.of_dc_empty rfl) ms)
    (foldl_join_compacted (Compacted.of_dc_empty rfl) ns) (eq_of_forall_ge_iff fun x => ?_)
  rw [WF.empty.sem_foldl_join_le_iff hwf (fun o _ => hempty o) hagree,
    WF.empty.sem_foldl_join_le_iff hwf' (fun o _ => hempty o) fun o ho p hp =>
      hagree o ((hsame o).2 ho) p ((hsame p).2 hp)]
  simp only [hsame]

/-- **`ORMap::join` is a semilattice join** under `operator==`, on maps that agree on the values of
shared dots. -/
theorem join_semilattice {a b c : ORMap K} (ha : a.WF) (hb : b.WF) (hc : c.WF) (hab : Agree a b)
    (hac : Agree a c) (hbc : Agree b c) :
    (a.join b).Eqv (b.join a) ∧ ((a.join b).join c).Eqv (a.join (b.join c)) ∧
      (a.context.compact = a.context → (a.join a).Eqv a) := by
  refine ⟨?_, ?_, fun hcompact => ?_⟩
  · rw [ha.join_comm hb hab]; exact eqv_refl _
  · rw [ha.join_assoc hb hc hab hac hbc]; exact eqv_refl _
  · have hcomp : Compacted a.context := hcompact ▸ compact_compacted a.context
    rw [ha.join_self hcomp]; exact eqv_refl _

/-- A map with one item, a concurrent one, and one that removed what it made. -/
theorem join_semilattice_inc_remove :
    let a := (∅ : ORMap String).modify "banana" fun c => c.rewrite "user1" (· + 10)
    let b := (∅ : ORMap String).modify "banana" fun c => c.rewrite "user2" (· + 20)
    let c := b.remove "banana"
    (a.join b).Eqv (b.join a) ∧ ((a.join b).join c).Eqv (a.join (b.join c)) ∧ (a.join a).Eqv a := by
  have ha := (WF.empty : WF (∅ : ORMap String)).modify rfl "banana" "user1" (· + 10)
  have hb := (WF.empty : WF (∅ : ORMap String)).modify rfl "banana" "user2" (· + 20)
  have hone : ∀ {id : String} {n : Int} {k : String} {d : Dot} {v : Int},
      ((∅ : ORMap String).modify "banana" fun c => c.rewrite id (· + n)).live k d = some v →
        d.first = id := by
    intro id n k d v hv
    rcases WF.empty.live_modify_eq_some rfl hv with ⟨-, rfl, -⟩ | hv
    · rfl
    · rw [live_of_find?_none rfl] at hv
      cases hv
  have hremove : ∀ {k : String} {d : Dot} {v : Int},
      (((∅ : ORMap String).modify "banana" fun c => c.rewrite "user2" (· + 20)).remove
        "banana").live k d = some v → d.first = "user2" := by
    intro k d v hv
    rw [live_remove] at hv
    split_ifs at hv
    exact hone hv
  have hnever : ∀ {s : String}, s = "user1" → s = "user2" → False := by
    intro s h1 h2
    exact absurd (h1.symm.trans h2) (by decide)
  obtain ⟨hcomm, hassoc, hself⟩ := join_semilattice ha hb (hb.remove "banana")
    (fun k d v w hv hw => (hnever (hone hv) (hone hw)).elim)
    (fun k d v w hv hw => (hnever (hone hv) (hremove hw)).elim)
    (fun k d v w hv hw => by
      rw [live_remove] at hw
      split_ifs at hw
      exact Option.some.inj (hv.symm.trans hw))
  exact ⟨hcomm, hassoc, hself (by decide)⟩

end ORMap

end ShoppingApp
