import ShoppingApp.System.Accounts

/-!
# What one operation does to a quantity

`inc` and `dec` replace the dots of the replica that calls them by one new dot, whose value is made
from the largest of the old values and at least from 0. So an operation changes the quantity of its
item by the amount asked, less what this clamping drops of the replica's own part
(`getQuantity_modifyItem`). The own part is negative on a replica that has bought more than it has
put in itself, as one that has bought an item of others: its next purchase or addition is then not
the one asked (`buy_increase_exact_iff`), and a name that is created again gets the quantity asked
exactly when what the others have put in cancels out (`create_exact_iff`).
-/

namespace ShoppingApp

open Replication

/-! ## Counters -/

namespace CausalCounter

theorem localValue_eq_sum (c : CausalCounter) (id : String) :
    c.localValue id = ∑ e ∈ c.core.values.entries.toFinset with e.1.first = id, e.2 := by
  have hread : c.localValue id =
      (⟨⟨c.core.context, c.core.values.filter fun d _ => decide (d.first = id)⟩⟩ :
        CausalCounter).read := c.localValue_eq id
  rw [hread, read_eq_sum]
  change ∑ e ∈ (c.core.values.entries.filter fun e => decide (e.1.first = id)).toFinset, e.2 = _
  rw [List.toFinset_filter]
  simp only [decide_eq_true_eq]

/-- The new dot takes the place of what the replica has put in. -/
theorem read_rewrite {c : CausalCounter} {id : String} {f : Int → Int}
    (hfresh : c.core.values.find? (c.core.context.nextDot id).1 = none) :
    (c.rewrite id f).read = c.read - c.localValue id + f (c.ownMax id) := by
  have hfirst : (c.core.context.nextDot id).1.first = id := DotContext.nextDot_first _ _
  have hentries : (c.rewrite id f).core.values.entries.toFinset =
      insert ((c.core.context.nextDot id).1, f (c.ownMax id))
        (c.core.values.entries.toFinset.filter fun e => ¬ e.1.first = id) := by
    ext ⟨d, v⟩
    rw [List.mem_toFinset, ← SortedMap.find?_eq_some, find?_rewrite hfresh, Finset.mem_insert,
      Finset.mem_filter, List.mem_toFinset, ← SortedMap.find?_eq_some, Prod.mk.injEq]
    split_ifs with hnew hid
    · subst hnew
      simp [hfirst, eq_comm]
    · simp [hnew, hid]
    · simp [hnew, hid]
  have hnot : ((c.core.context.nextDot id).1, f (c.ownMax id)) ∉
      c.core.values.entries.toFinset.filter fun e => ¬ e.1.first = id := fun hmem =>
    (Finset.mem_filter.1 hmem).2 hfirst
  have hsplit := Finset.sum_filter_add_sum_filter_not c.core.values.entries.toFinset
    (fun e => e.1.first = id) Prod.snd
  rw [read_eq_sum, read_eq_sum, localValue_eq_sum, hentries, Finset.sum_insert hnot]
  omega

end CausalCounter

namespace ShoppingList

/-! ## Lists -/

/-- What a replica builds its next value on. -/
theorem ownMax_eq_max {l : ShoppingList} (hs : Single l) (name : String) :
    ((l.items.cellAt name).counter l.items.context).ownMax l.id = max 0 (l.ownPart name) := by
  unfold ownPart
  by_cases hex : ∃ d v, l.items.live name d = some v ∧ d.first = l.id
  · obtain ⟨d, v, hv, hid⟩ := hex
    have hown := CausalCounter.own_eq_of_single
      (c := (l.items.cellAt name).counter l.items.context) hv hid
      fun e w hw hfirst => hs.unique hw hv (hfirst.trans hid.symm)
    rw [hown.1, hown.2]
  · have hnone : ∀ e w, ((l.items.cellAt name).counter l.items.context).core.values.find? e =
        some w → e.first ≠ l.id := fun e w hw hfirst => hex ⟨e, w, hw, hfirst⟩
    have hown := CausalCounter.own_of_none hnone
    rw [hown.1, hown.2]
    rfl

/-- What `inc` and `dec` do to quantities: the own part is raised to 0 before it is changed. -/
theorem getQuantity_modifyItem {l : ShoppingList} (hwf : l.WF) (hs : Single l) (name : String)
    (f : Int → Int) :
    (l.modifyItem name fun c => c.rewrite l.id f).getQuantity name =
      l.getQuantity name - l.ownPart name + f (max 0 (l.ownPart name)) := by
  have hcontext : ((l.items.cellAt name).counter l.items.context).core.context =
      l.items.context := by
    unfold Cell.counter
    rw [hwf.items.cellAt_own]
    rfl
  have hfresh : ((l.items.cellAt name).counter l.items.context).core.values.find?
      (((l.items.cellAt name).counter l.items.context).core.context.nextDot l.id).1 = none := by
    rw [hcontext]
    exact hwf.items.live_fresh hwf.cloud l.id name
  have hread : (l.modifyItem name fun c => c.rewrite l.id f).getQuantity name =
      (((l.items.cellAt name).counter l.items.context).rewrite l.id f).read := by
    rw [getQuantity_eq, modifyItem]
    dsimp only
    rw [hwf.items.modify_rewrite]
    simp only [ORMap.cellAt, SortedMap.find?_set_self, Option.getD_some]
    rfl
  rw [hread, CausalCounter.read_rewrite hfresh, ownMax_eq_max hs, ← getQuantity_eq]
  rfl

/-- Other items keep their quantities. -/
theorem getQuantity_modifyItem_ne {l : ShoppingList} (hwf : l.WF) {name other : String}
    (hne : other ≠ name) (f : Int → Int) :
    (l.modifyItem name fun c => c.rewrite l.id f).getQuantity other = l.getQuantity other := by
  refine getQuantity_congr fun d => ?_
  exact (hwf.items.live_modify hwf.cloud name l.id f other d).trans (if_neg hne)

/-- An operation on `l` succeeds, sets the quantity of `name`, and leaves all others. -/
structure Sets (l : ShoppingList) (name : String) (quantity : Int) (r : Bool × ShoppingList) :
    Prop where
  succeeds : r.1 = true
  quantity : r.2.getQuantity name = quantity
  others : ∀ other, other ≠ name → r.2.getQuantity other = l.getQuantity other

/-- An `inc` or `dec` sets a quantity exactly if it does to the clamped own part what it should do
to the quantity less the others' parts. -/
theorem sets_modifyItem_iff {l : ShoppingList} (hwf : l.WF) (hs : Single l) (name : String)
    (f : Int → Int) (quantity : Int) :
    Sets l name quantity (true, l.modifyItem name fun c => c.rewrite l.id f) ↔
      l.getQuantity name - l.ownPart name + f (max 0 (l.ownPart name)) = quantity := by
  rw [← getQuantity_modifyItem hwf hs]
  exact ⟨Sets.quantity, fun h => ⟨rfl, h, fun _ hne => getQuantity_modifyItem_ne hwf hne f⟩⟩

theorem sets_buyItem_iff {l : ShoppingList} (hwf : l.WF) (hs : Single l) {name : String}
    (hname : l.contains name = true) (q : Int) :
    Sets l name (l.getQuantity name - q) (l.buyItem name q) ↔ 0 ≤ l.ownPart name := by
  have hbuy : l.buyItem name q = (true, l.modifyItem name fun c => c.rewrite l.id (· - q)) := by
    unfold buyItem
    rw [hname]
    rfl
  rw [hbuy, sets_modifyItem_iff hwf hs]
  omega

theorem sets_increaseItem_iff {l : ShoppingList} (hwf : l.WF) (hs : Single l) {name : String}
    (hname : l.contains name = true) (q : Int) :
    Sets l name (l.getQuantity name + q) (l.increaseItem name q) ↔ 0 ≤ l.ownPart name := by
  have hincrease : l.increaseItem name q =
      (true, l.modifyItem name fun c => c.rewrite l.id (· + q)) := by
    unfold increaseItem
    rw [hname]
    rfl
  rw [hincrease, sets_modifyItem_iff hwf hs]
  omega

theorem sets_createItem_iff {l : ShoppingList} (hwf : l.WF) (hs : Single l) {name : String}
    (hname : l.contains name = false) (q : Int) :
    Sets l name q (l.createItem name q) ↔ l.getQuantity name = min (l.ownPart name) 0 := by
  have hcreate : l.createItem name q =
      (true, l.modifyItem name fun c => c.rewrite l.id (· + q)) := by
    unfold createItem
    rw [hname]
    rfl
  rw [hcreate, sets_modifyItem_iff hwf hs]
  omega

end ShoppingList

/-! ## Replicas -/

namespace Replicas

/-! ## Two replicas of one list -/

def twoIds : Bool → String := fun i => cond i "user1" "user2"

def two : Replicas Bool := start twoIds (fun _ => "title") fun _ => "url"

/-- The first replica makes five apples. -/
def made : Replicas Bool :=
  two.put true ⟨((two.now true).value.perform (.createItem "apple" 5)).2, {0}⟩ 1

/-- The second one learns of them, and buys some. -/
def bought (q : Int) : Replicas Bool :=
  let learnt := made.put false ⟨((made.now false).value.join (made.now true).value).2, {0}⟩ 1
  learnt.put false ⟨((learnt.now false).value.perform (.buyItem "apple" q)).2, {1, 0}⟩ 2

/-- The first one buys seven. -/
def oversold : Replicas Bool :=
  made.put true ⟨((made.now true).value.perform (.buyItem "apple" 7)).2, {1, 0}⟩ 2

theorem run_made : Run StepOrReload two made :=
  .single (.step (Step.perform two true (.createItem "apple" 5)))

theorem run_bought (q : Int) : Run StepOrReload two (bought q) :=
  (run_made.tail (.step (Step.join made false (made.now true) (.inl rfl)))).tail
    (.step (Step.perform _ false (.buyItem "apple" q)))

theorem run_oversold : Run StepOrReload two oversold :=
  run_made.tail (.step (Step.perform made true (.buyItem "apple" 7)))

/-! ## Buying, adding and creating -/

variable {ι : Type*} [DecidableEq ι] {ids titles urls : ι → String} {s : Replicas ι}
  {t : Snapshot ShoppingList} {name : String}

/-- **Buying and adding are exact** on exactly the lists whose own replica has not put a negative
amount into the item. -/
theorem buy_increase_exact_iff (hids : Function.Injective ids)
    (h : Run StepOrReload (start ids titles urls) s) (ht : t ∈ s.past)
    (hname : t.value.contains name = true) (q : Int) :
    (t.value.Sets name (t.value.getQuantity name - q) (t.value.buyItem name q) ∧
      t.value.Sets name (t.value.getQuantity name + q) (t.value.increaseItem name q)) ↔
      0 ≤ t.value.ownPart name := by
  obtain ⟨ho, hs⟩ := Run.owned hids h
  rw [ShoppingList.sets_buyItem_iff (ho.wf t ht) (hs t ht) hname,
    ShoppingList.sets_increaseItem_iff (ho.wf t ht) (hs t ht) hname, and_self_iff]

/-- The replica that made the apples buys two of them. -/
theorem buy_increase_exact_iff_made :
    (made.now true).value.ownPart "apple" = 5 ∧
      ((made.now true).value.Sets "apple" 3 ((made.now true).value.buyItem "apple" 2) ∧
        (made.now true).value.Sets "apple" 7 ((made.now true).value.increaseItem "apple" 2)) := by
  have hmem : made.now true ∈ made.past := .inl rfl
  have hname : (made.now true).value.contains "apple" = true := by decide
  have hpart : (made.now true).value.ownPart "apple" = 5 := by decide
  have hquantity : (made.now true).value.getQuantity "apple" = 5 := by decide
  have hexact := (buy_increase_exact_iff (by decide) run_made hmem hname 2).2
    (by rw [hpart]; decide)
  rw [hquantity] at hexact
  exact ⟨hpart, hexact⟩

/-- The second purchase of a replica that did not make the apples is lost. -/
theorem second_purchase_lost :
    Run StepOrReload two (bought 1) ∧ ((bought 1).now false).value.contains "apple" = true ∧
      ((bought 1).now false).value.getQuantity "apple" = 4 ∧
      (((bought 1).now false).value.buyItem "apple" 1).2.getQuantity "apple" = 4 ∧
      ¬ ((bought 1).now false).value.Sets "apple"
        (((bought 1).now false).value.getQuantity "apple" - 1)
        (((bought 1).now false).value.buyItem "apple" 1) := by
  refine ⟨run_bought 1, by decide, by decide, by decide, fun h => ?_⟩
  exact absurd h.quantity (by decide)

/-- **Creating sets the quantity** of a name that is not on the list exactly if its quantity is what
the own part, where it is negative, takes from nothing: what the clamping drops, and no more. -/
theorem create_exact_iff (hids : Function.Injective ids)
    (h : Run StepOrReload (start ids titles urls) s) (ht : t ∈ s.past)
    (hname : t.value.contains name = false) {q : Int} (hq : 1 ≤ q) :
    (t.value.Sets name q (t.value.createItem name q) ∧
      (t.value.createItem name q).2.contains name = true) ↔
      t.value.getQuantity name = min (t.value.ownPart name) 0 := by
  obtain ⟨ho, hs⟩ := Run.owned hids h
  rw [← ShoppingList.sets_createItem_iff (ho.wf t ht) (hs t ht) hname q]
  refine ⟨And.left, fun hsets => ⟨hsets, ?_⟩⟩
  rw [ShoppingList.contains_eq, hsets.quantity]
  exact decide_eq_true (by omega)

/-- A replica that has bought more apples than it made creates two. -/
theorem create_exact_iff_below :
    (oversold.now true).value.getQuantity "apple" = -2 ∧
      (oversold.now true).value.Sets "apple" 2 ((oversold.now true).value.createItem "apple" 2) ∧
      ((oversold.now true).value.createItem "apple" 2).2.contains "apple" = true := by
  have hmem : oversold.now true ∈ oversold.past := .inl rfl
  have hname : (oversold.now true).value.contains "apple" = false := by decide
  have hparts : (oversold.now true).value.getQuantity "apple" =
      min ((oversold.now true).value.ownPart "apple") 0 := by decide
  exact ⟨by decide,
    (create_exact_iff (by decide) run_oversold hmem hname (by decide)).2 hparts⟩

/-- A replica that has bought all apples of another one creates two, and gets seven. -/
theorem created_again_too_many :
    Run StepOrReload two (bought 5) ∧ ((bought 5).now false).value.contains "apple" = false ∧
      (((bought 5).now false).value.createItem "apple" 2).1 = true ∧
      (((bought 5).now false).value.createItem "apple" 2).2.getQuantity "apple" = 7 ∧
      ¬ ((bought 5).now false).value.Sets "apple" 2
        (((bought 5).now false).value.createItem "apple" 2) := by
  refine ⟨run_bought 5, by decide, by decide, by decide, fun h => ?_⟩
  exact absurd h.quantity (by decide)

end Replicas

end ShoppingApp
