import ShoppingApp.System.Replicas
import ShoppingApp.Verify.Codec

/-!
# The representation of a list

Replicas of any lists, with distinct ids, perform operations, join each other's present and past
states, and are reloaded from their own encodings. Every state then has a clock and no dot cloud,
its live dots are numbered from 1 up to the clock, each is live under one item, no item has two of
one replica, and nobody's clock is ahead of a replica's own (`representation_invariant`).
-/

namespace ShoppingApp

open Replication

namespace ShoppingList

/-- The representation invariant of one list. -/
structure Represented (l : ShoppingList) : Prop where
  cloud : l.items.context.dc = ∅
  clock : ∀ name d v, l.items.live name d = some v →
    1 ≤ d.second ∧ ∃ n, l.items.context.vc.find? d.first = some n ∧ d.second ≤ n
  item : ∀ name name' d v v', l.items.live name d = some v → l.items.live name' d = some v' →
    name = name'
  replica : ∀ name d e v w, l.items.live name d = some v → l.items.live name e = some w →
    d.first = e.first → d = e

theorem WF.represented {l : ShoppingList} (h : l.WF) (hs : Single l) {G : Registry}
    (hG : Records G l) : Represented l where
  cloud := h.cloud
  clock name d v hv := ⟨hs.pos hv, h.vc_of_contains (h.items.seen hv)⟩
  item name name' d v v' hv hv' := by
    have heq := (hG name d v hv).symm.trans (hG name' d v' hv')
    exact congrArg Prod.fst (Option.some.inj heq)
  replica _ _ _ _ _ hv hw hfirst := hs.unique hv hw hfirst

end ShoppingList

namespace Replicas

variable {ι : Type*} [DecidableEq ι]

/-- Replicas with the given ids, titles and urls, without items. -/
def start (ids titles urls : ι → String) : Replicas ι :=
  ⟨fun i => ⟨ShoppingList.new (ids i) (titles i) (urls i), ∅⟩,
    Set.range fun i => ⟨ShoppingList.new (ids i) (titles i) (urls i), ∅⟩, 0⟩

/-- A step of the replicas, or one replica is replaced by what decoding its own encoding gives. -/
inductive StepOrReload : Replicas ι → Replicas ι → Prop
  | step {s s' : Replicas ι} (h : Step s s') : StepOrReload s s'
  | reload (s : Replicas ι) (i : ι) (id title url : String) (l : ShoppingList)
      (h : ShoppingList.fromJson (s.now i).value.toJson (ShoppingList.new id title url) = some l) :
      StepOrReload s (s.put i ⟨l, (s.now i).received⟩ s.clock)

variable {ids titles urls : ι → String} {s s' : Replicas ι}

omit [DecidableEq ι] in
/-- No state has a clock ahead of a replica's own. -/
theorem Owned.clock_le (h : Owned ids s) {t : Snapshot ShoppingList} (ht : t ∈ s.past) (j : ι)
    {n : Int} (hn : t.value.items.context.vc.find? (ids j) = some n) :
    ∃ m, (s.now j).value.items.context.vc.find? (ids j) = some m ∧ n ≤ m := by
  have hnn : 0 ≤ n := (h.wf t ht).items.nonNeg.vc hn
  have hseen : t.value.items.context.contains ⟨ids j, n⟩ = true := by
    rw [DotContext.contains_iff]
    exact .inl ⟨n, hn, le_rfl⟩
  exact (h.wf _ (h.now_mem j)).vc_of_contains (h.dominated t ht j ⟨ids j, n⟩ hnn rfl hseen)

/-- A replica that moves to a state equal to its own changes nothing of the invariant. -/
theorem Owned.put_self (h : Owned ids s) (i : ι) (received : Finset ℕ) (clock : ℕ) :
    Owned ids (s.put i ⟨(s.now i).value, received⟩ clock) := by
  have hi := h.now_mem i
  obtain ⟨G, hG⟩ := h.registry
  exact h.put i clock (h.wf (s.now i) hi) (h.own i) ⟨G, hG (s.now i) hi, hG⟩ (fun _ _ hd => hd)
    fun d j hnn _ hd hseen => h.dominated (s.now i) hi j d hnn hd hseen

theorem StepOrReload.owned (hids : Function.Injective ids)
    (h : Owned ids s ∧ ∀ t ∈ s.past, ShoppingList.Single t.value) (hst : StepOrReload s s') :
    Owned ids s' ∧ ∀ t ∈ s'.past, ShoppingList.Single t.value := by
  obtain ⟨ho, hs⟩ := h
  cases hst with
  | step hst =>
    cases hst with
    | perform i op =>
      have hi := ho.now_mem i
      exact ⟨ho.perform hids i op _ _, forall_past_put hs ((hs _ hi).perform (ho.wf _ hi) op)⟩
    | join i t ht =>
      have hi := ho.now_mem i
      exact ⟨ho.join i ht _ _,
        forall_past_put hs ((hs _ hi).join (ho.wf _ hi) (ho.wf t ht) (hs t ht))⟩
  | reload i id title url l hl =>
    have hi := ho.now_mem i
    rw [(ho.wf _ hi).fromJson_toJson id title url] at hl
    cases hl
    exact ⟨ho.put_self i _ _, forall_past_put hs (hs _ hi)⟩

/-- What holds after every run, with reloads. -/
theorem Run.owned (hids : Function.Injective ids) (h : Run StepOrReload (start ids titles urls) s) :
    Owned ids s ∧ ∀ t ∈ s.past, ShoppingList.Single t.value := by
  have hstart : ∀ t ∈ (start ids titles urls).past, ShoppingList.Single t.value := by
    rintro t ⟨i, rfl⟩
    exact ShoppingList.Single.new _ _ _
  exact h.invariant (fun s => Owned ids s ∧ ∀ t ∈ s.past, ShoppingList.Single t.value)
    ⟨Owned.start ids titles urls, hstart⟩ fun _ _ h hst => hst.owned hids h

/-- **Representation invariant.** Every state that a replica has or has had is represented as
described, and its clock is nowhere ahead of a replica's own. -/
theorem representation_invariant (hids : Function.Injective ids)
    (h : Run StepOrReload (start ids titles urls) s) :
    (∀ i, s.now i ∈ s.past) ∧ ∀ t ∈ s.past, ShoppingList.Represented t.value ∧
      ∀ j n, t.value.items.context.vc.find? (ids j) = some n →
        ∃ m, (s.now j).value.items.context.vc.find? (ids j) = some m ∧ n ≤ m := by
  obtain ⟨ho, hs⟩ := Run.owned hids h
  obtain ⟨G, hG⟩ := ho.registry
  exact ⟨ho.now_mem, fun t ht => ⟨(ho.wf t ht).represented (hs t ht) (hG t ht),
    fun j _ hn => ho.clock_le ht j hn⟩⟩

/-- A replica makes an item and is reloaded, another joins its state. -/
theorem representation_invariant_reload :
    let ids : Bool → String := fun i => cond i "user1" "user2"
    ∃ s : Replicas Bool, Run StepOrReload (start ids (fun _ => "title") fun _ => "url") s ∧
      (s.now false).value.getQuantity "apple" = 3 ∧
      (∀ i, s.now i ∈ s.past) ∧ ∀ t ∈ s.past, ShoppingList.Represented t.value ∧
        ∀ j n, t.value.items.context.vc.find? (ids j) = some n →
          ∃ m, (s.now j).value.items.context.vc.find? (ids j) = some m ∧ n ≤ m := by
  intro ids
  have hmade := ((ShoppingList.WF.new "user1" "title" "url").perform (.createItem "apple" 3))
  have hmake := StepOrReload.step
    (Step.perform (start ids (fun _ => "title") fun _ => "url") true (.createItem "apple" 3))
  have hreload : ∀ s : Replicas Bool, (s.now true).value.WF → StepOrReload s
      (s.put true ⟨(s.now true).value, (s.now true).received⟩ s.clock) := fun s hs =>
    .reload s true "" "" "" _ (hs.fromJson_toJson "" "" "")
  have hrun := ((Relation.ReflTransGen.single hmake).tail (hreload _ hmade)).tail
    (.step (.join _ false _ (.inl rfl)))
  exact ⟨_, hrun, by decide, representation_invariant (by decide) hrun⟩

end Replicas

end ShoppingApp
