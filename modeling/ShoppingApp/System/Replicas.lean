import ShoppingApp.Lib.Replication
import ShoppingApp.Verify.ShoppingList

/-!
# Replicas of one shopping list

Any number of replicas of a list perform operations on their own copy and join states that some
replica has or ever had, so states may arrive late, out of order, again, or never. What the dots of
a state mean is a point of a lattice, operations move it up and joins are joins of that lattice: the
system simulates `Replication.System`, and replicas that have received the same operations agree
(`strong_eventual_consistency`).
-/

namespace ShoppingApp

open Replication

/-- Each replica's list with the numbers of the operations it has received, directly or through
other replicas; all states there have been; the number of operations so far. -/
abbrev Replicas (ι : Type*) := Replication.System ι ShoppingList

namespace Replicas

variable {ι : Type*}

/-- Replicas with the given ids, one title and one url, without items. -/
def init (ids : ι → String) (title url : String) : Replicas ι :=
  ⟨fun i => ⟨ShoppingList.new (ids i) title url, ∅⟩,
    Set.range fun i => ⟨ShoppingList.new (ids i) title url, ∅⟩, 0⟩

variable [DecidableEq ι]

/-- One replica performs an operation, or joins a state of some replica, present or past. -/
inductive Step : Replicas ι → Replicas ι → Prop
  | perform (s : Replicas ι) (i : ι) (op : ShoppingList.Op) :
      Step s (s.put i ⟨((s.now i).value.perform op).2, insert s.clock (s.now i).received⟩
        (s.clock + 1))
  | join (s : Replicas ι) (i : ι) (t : Snapshot ShoppingList) (h : t ∈ s.past) :
      Step s (s.put i ⟨((s.now i).value.join t.value).2, (s.now i).received ∪ t.received⟩ s.clock)

theorem mem_past_put {s : Replicas ι} {i : ι} {t u : Snapshot ShoppingList} {clock : ℕ} :
    u ∈ (s.put i t clock).past ↔ u = t ∨ u ∈ s.past := Iff.rfl

theorem now_put_self (s : Replicas ι) (i : ι) (t : Snapshot ShoppingList) (clock : ℕ) :
    (s.put i t clock).now i = t := by
  simp [System.put]

theorem now_put_ne (s : Replicas ι) {i j : ι} (h : j ≠ i) (t : Snapshot ShoppingList)
    (clock : ℕ) : (s.put i t clock).now j = s.now j := by
  simp [System.put, h]

/-! ## What holds of every state there has been -/

/-- All states are well-formed lists whose live dots come from one registry; each replica keeps its
id and has seen every dot of that id. -/
structure Owned (ids : ι → String) (s : Replicas ι) : Prop where
  now_mem : ∀ i, s.now i ∈ s.past
  wf : ∀ t ∈ s.past, t.value.WF
  own : ∀ i, (s.now i).value.id = ids i
  registry : ∃ G, ∀ t ∈ s.past, ShoppingList.Records G t.value
  dominated : ∀ t ∈ s.past, ∀ i d, 0 ≤ d.second → d.first = ids i →
    t.value.items.context.contains d = true →
    (s.now i).value.items.context.contains d = true

variable {ids : ι → String} {title url : String} {s s' : Replicas ι}

omit [DecidableEq ι] in
/-- Replicas with the given ids and any titles and urls, without items. -/
theorem Owned.start (ids titles urls : ι → String) :
    Owned ids ⟨fun i => ⟨ShoppingList.new (ids i) (titles i) (urls i), ∅⟩,
      Set.range fun i => ⟨ShoppingList.new (ids i) (titles i) (urls i), ∅⟩, 0⟩ := by
  refine ⟨fun i => ⟨i, rfl⟩, ?_, fun _ => rfl, ⟨fun _ => none, ?_⟩, ?_⟩
  · rintro t ⟨i, rfl⟩; exact ShoppingList.WF.new _ _ _
  · rintro t ⟨i, rfl⟩; exact ShoppingList.Records.new _ _ _ _
  · rintro t ⟨i, rfl⟩ j d - - hd
    have hno : (∅ : DotContext).contains d = true := hd
    rw [DotContext.contains_empty] at hno
    cases hno

/-- What holds of the states so far and of `t` holds after replica `i` moves to `t`. -/
theorem forall_past_put {P : Snapshot ShoppingList → Prop} (h : ∀ u ∈ s.past, P u) {i : ι}
    {t : Snapshot ShoppingList} {clock : ℕ} (ht : P t) : ∀ u ∈ (s.put i t clock).past, P u := by
  intro u hu
  rcases mem_past_put.1 hu with rfl | hu
  · exact ht
  · exact h u hu

/-- A replica's list is among the states there have been, after replica `i` moves to `t` too. -/
theorem now_mem_put (h : ∀ j, s.now j ∈ s.past) (i : ι) (t : Snapshot ShoppingList) (clock : ℕ)
    (j : ι) : (s.put i t clock).now j ∈ (s.put i t clock).past := by
  by_cases hj : j = i
  · subst hj
    rw [now_put_self]
    exact .inl rfl
  · rw [now_put_ne s hj]
    exact .inr (h j)

/-- What is left to check when replica `i` moves to `t`. -/
theorem Owned.put (h : Owned ids s) (i : ι) {t : Snapshot ShoppingList} (clock : ℕ)
    (hwf : t.value.WF) (hid : t.value.id = ids i)
    (hG : ∃ G, ShoppingList.Records G t.value ∧ ∀ u ∈ s.past, ShoppingList.Records G u.value)
    (hmono : ∀ d, 0 ≤ d.second → (s.now i).value.items.context.contains d = true →
      t.value.items.context.contains d = true)
    (hnew : ∀ d j, 0 ≤ d.second → j ≠ i → d.first = ids j →
      t.value.items.context.contains d = true →
      (s.now j).value.items.context.contains d = true) :
    Owned ids (s.put i t clock) := by
  obtain ⟨G, hGt, hGs⟩ := hG
  refine ⟨now_mem_put h.now_mem i t clock, forall_past_put h.wf hwf, fun j => ?_,
    ⟨G, forall_past_put hGs hGt⟩, fun u hu' j d hnn hd hseen => ?_⟩
  · by_cases hj : j = i
    · subst hj; rw [now_put_self]; exact hid
    · rw [now_put_ne s hj]; exact h.own j
  · by_cases hj : j = i
    · subst hj
      rw [now_put_self]
      rcases mem_past_put.1 hu' with rfl | hu'
      · exact hseen
      · exact hmono d hnn (h.dominated u hu' j d hnn hd hseen)
    · rw [now_put_ne s hj]
      rcases mem_past_put.1 hu' with rfl | hu'
      · exact hnew d j hnn hj hd hseen
      · exact h.dominated u hu' j d hnn hd hseen

theorem Owned.perform (hids : Function.Injective ids) (h : Owned ids s) (i : ι)
    (op : ShoppingList.Op) (received : Finset ℕ) (clock : ℕ) :
    Owned ids (s.put i ⟨((s.now i).value.perform op).2, received⟩ clock) := by
  have hi := h.now_mem i
  have hwf := h.wf _ hi
  refine h.put i _ (hwf.perform op) (((s.now i).value.perform_header op).1.trans (h.own i)) ?_
    (fun d _ hd => hwf.contains_perform op hd) ?_
  · obtain ⟨G, hG⟩ := h.registry
    obtain ⟨x, hx⟩ := (hG _ hi).perform hwf op
    refine ⟨_, hx, fun u hu => (hG u hu).update (h.wf u hu) ?_ x⟩
    -- a state that had the next dot would have it from this replica
    by_contra hseen
    have hdom := h.dominated u hu i (s.now i).value.nextDot (hwf.items.nonNeg.nextDot_pos _).le
      ((DotContext.nextDot_first _ _).trans (h.own i)) (Bool.eq_true_of_not_eq_false hseen)
    rw [hwf.nextDot_fresh] at hdom
    cases hdom
  · intro d j hnn hj hd hseen
    rcases hwf.contains_of_perform hseen with hown | hold
    · exact absurd (hids (hd.symm.trans (hown.trans (h.own i)))) hj
    · exact h.dominated _ hi j d hnn hd hold

theorem Owned.join (h : Owned ids s) (i : ι) {t : Snapshot ShoppingList} (ht : t ∈ s.past)
    (received : Finset ℕ) (clock : ℕ) :
    Owned ids (s.put i ⟨((s.now i).value.join t.value).2, received⟩ clock) := by
  have hi := h.now_mem i
  refine h.put i _ ((h.wf _ hi).join (h.wf t ht))
    ((ShoppingList.join_id _ _).trans (h.own i)) ?_
    (fun d _ hd => (h.wf _ hi).contains_join_left (h.wf t ht) hd) ?_
  · obtain ⟨G, hG⟩ := h.registry
    exact ⟨G, .join (h.wf _ hi) (h.wf t ht) (hG _ hi) (hG t ht), hG⟩
  · intro d j hnn _ hd hseen
    rcases (h.wf _ hi).contains_of_join (h.wf t ht) hseen with hseen | hseen
    · exact h.dominated _ hi j d hnn hd hseen
    · exact h.dominated t ht j d hnn hd hseen

/-- What holds of every state, where all lists have one title and url. -/
structure Consistent (ids : ι → String) (title url : String) (s : Replicas ι) : Prop
    extends Owned ids s where
  title : ∀ t ∈ s.past, t.value.title = title
  url : ∀ t ∈ s.past, t.value.url = url

omit [DecidableEq ι] in
theorem Consistent.agree (h : Consistent ids title url s) {t u : Snapshot ShoppingList}
    (ht : t ∈ s.past) (hu : u ∈ s.past) : ORMap.Agree t.value.items u.value.items := by
  obtain ⟨G, hG⟩ := h.registry
  exact (hG t ht).agree (hG u hu)

omit [DecidableEq ι] in
theorem Consistent.init (ids : ι → String) (title url : String) :
    Consistent ids title url (Replicas.init ids title url) := by
  refine ⟨.start ids (fun _ => title) fun _ => url, ?_, ?_⟩
  · rintro t ⟨i, rfl⟩; rfl
  · rintro t ⟨i, rfl⟩; rfl

theorem Step.consistent (hids : Function.Injective ids) (h : Consistent ids title url s)
    (hst : Step s s') : Consistent ids title url s' := by
  cases hst with
  | perform i op =>
    obtain ⟨-, ht, hu⟩ := (s.now i).value.perform_header op
    exact ⟨h.toOwned.perform hids i op _ _,
      forall_past_put h.title (ht.trans (h.title _ (h.now_mem i))),
      forall_past_put h.url (hu.trans (h.url _ (h.now_mem i)))⟩
  | join i t ht =>
    have hi := h.now_mem i
    have hjoin := ShoppingList.join_of_header_eq
      ((h.title _ hi).trans (h.title t ht).symm) ((h.url _ hi).trans (h.url t ht).symm)
    refine ⟨h.toOwned.join i ht _ _, forall_past_put h.title ?_, forall_past_put h.url ?_⟩
    · rw [hjoin]; exact h.title (s.now i) hi
    · rw [hjoin]; exact h.url (s.now i) hi

/-! ## The simulation -/

/-- The dots a replica has seen, and the state of each dot under each item. -/
abbrev Meaning := (NDot → Bool) × (String → NDot → DotState Int)

def meaning (t : Snapshot ShoppingList) : Snapshot Meaning := ⟨t.value.items.sem.2, t.received⟩

/-- The abstract system holds the meanings of all states. -/
structure Simulates (s : Replicas ι) (a : Replication.System ι Meaning) : Prop where
  now : ∀ i, a.now i = meaning (s.now i)
  past : ∀ t ∈ s.past, meaning t ∈ a.past
  clock : a.clock = s.clock

theorem Simulates.put {a : Replication.System ι Meaning} (h : Simulates s a) (i : ι)
    (t : Snapshot ShoppingList) (clock : ℕ) :
    Simulates (s.put i t clock) (a.put i (meaning t) clock) := by
  refine ⟨fun j => ?_, fun u hu => ?_, rfl⟩
  · by_cases hj : j = i
    · subst hj; simp [System.put]
    · simpa [System.put, hj] using h.now j
  · rcases mem_past_put.1 hu with rfl | hu
    · exact .inl rfl
    · exact .inr (h.past u hu)

omit [DecidableEq ι] in
theorem Simulates.init (ids : ι → String) (title url : String) :
    Simulates (Replicas.init ids title url) Replication.System.init := by
  have hbot : ∀ i, meaning ⟨ShoppingList.new (ids i) title url, ∅⟩ = ⟨⊥, ∅⟩ := by
    intro i
    refine congrArg (fun v => Snapshot.mk v ∅) (Prod.ext ?_ ?_)
    · funext d
      exact DotContext.contains_empty d.1
    · funext k d
      change DotState.of none (DotContext.contains ∅ d.1) = ⊥
      rw [DotContext.contains_empty]
      rfl
  refine ⟨fun i => (hbot i).symm, ?_, rfl⟩
  rintro t ⟨i, rfl⟩
  exact hbot i

/-- **One step of the replicas is one step of the abstract system.** -/
theorem Step.simulated {a : Replication.System ι Meaning} (hc : Consistent ids title url s)
    (h : Simulates s a) (hst : Step s s') :
    ∃ a', Run Replication.Step a a' ∧ Simulates s' a' := by
  cases hst with
  | perform i op =>
    have hle : (a.now i).value ≤ ((s.now i).value.perform op).2.items.sem.2 := by
      rw [h.now i]
      exact (hc.wf _ (hc.now_mem i)).sem_le_perform op
    have hrec : (a.now i).received = (s.now i).received := by rw [h.now i]; rfl
    refine ⟨_, .single (.op i _ hle), ?_⟩
    rw [hrec, h.clock]
    exact h.put i ⟨((s.now i).value.perform op).2, _⟩ _
  | join i t ht =>
    have hi := hc.now_mem i
    have hjoin := ShoppingList.join_of_header_eq
      ((hc.title _ hi).trans (hc.title t ht).symm) ((hc.url _ hi).trans (hc.url t ht).symm)
    have hsem : ((s.now i).value.join t.value).2.items.sem.2 =
        (a.now i).value ⊔ t.value.items.sem.2 := by
      rw [hjoin, h.now i]
      exact congrArg Prod.snd
        ((hc.wf _ hi).items.sem_join (hc.wf t ht).items (hc.agree hi ht))
    have hrec : (a.now i).received = (s.now i).received := by rw [h.now i]; rfl
    have hput := h.put i ⟨((s.now i).value.join t.value).2, (s.now i).received ∪ t.received⟩
      s.clock
    refine ⟨_, .single (.merge i (meaning t) (h.past t ht)), ?_⟩
    rw [meaning, hsem] at hput
    rw [hrec, h.clock]
    exact hput

theorem Run.simulated (hids : Function.Injective ids) (h : Run Step (init ids title url) s) :
    ∃ a, Run Replication.Step Replication.System.init a ∧ Consistent ids title url s ∧
      Simulates s a :=
  h.simulate (fun s a => Consistent ids title url s ∧ Simulates s a)
    ⟨Consistent.init ids title url, Simulates.init ids title url⟩
    fun _ _ _ hsim hst =>
      have ⟨a', hrun, hsim'⟩ := Step.simulated hsim.1 hsim.2 hst
      ⟨a', hrun, hst.consistent hids hsim.1, hsim'⟩

/-! ## Convergence -/

/-- States that have received the same operations have the same live dots and contexts. -/
theorem Run.agree (hids : Function.Injective ids) (h : Run Step (init ids title url) s)
    {t u : Snapshot ShoppingList} (ht : t ∈ s.past) (hu : u ∈ s.past)
    (heq : t.received = u.received) :
    (∀ name d, t.value.items.live name d = u.value.items.live name d) ∧
      t.value.items.context = u.value.items.context := by
  obtain ⟨a, hrun, hc, hsim⟩ := Run.simulated hids h
  have hmeaning : (meaning t).value = (meaning u).value :=
    Replication.Run.converge hrun (hsim.past t ht) (hsim.past u hu) heq
  have hwt := hc.wf t ht
  have hwu := hc.wf u hu
  refine ⟨ORMap.live_eq_of_meaning_eq hwt.items hwu.items hmeaning, ?_⟩
  exact ORMap.context_eq_of_meaning_eq hwt.items hwu.items hmeaning hwt.compacted hwu.compacted

/-- **Strong eventual consistency.** Replicas that have received the same operations show the same
quantities and the same items, and have seen the same dots. -/
theorem strong_eventual_consistency {ids : ι → String} (hids : Function.Injective ids)
    {title url : String} {s : Replicas ι} (h : Run Step (init ids title url) s) (i j : ι)
    (heq : (s.now i).received = (s.now j).received) :
    (∀ name, (s.now i).value.getQuantity name = (s.now j).value.getQuantity name) ∧
      (s.now i).value.getItemsSet = (s.now j).value.getItemsSet ∧
      (s.now i).value.items.context = (s.now j).value.items.context := by
  obtain ⟨a, -, hc, -⟩ := Run.simulated hids h
  obtain ⟨hlive, hcontext⟩ := Run.agree hids h (hc.now_mem i) (hc.now_mem j) heq
  have hquantity : ∀ name, (s.now i).value.getQuantity name = (s.now j).value.getQuantity name :=
    fun name => ShoppingList.getQuantity_congr (hlive name)
  exact ⟨hquantity, ShoppingList.getItemsSet_congr hquantity, hcontext⟩

/-- One replica makes an item and another joins its state. -/
theorem strong_eventual_consistency_create_join :
    ∃ s : Replicas Bool, Run Step (init (fun i => cond i "user1" "user2") "title" "url") s ∧
      ((∀ name, (s.now true).value.getQuantity name = (s.now false).value.getQuantity name) ∧
        (s.now true).value.getItemsSet = (s.now false).value.getItemsSet ∧
        (s.now true).value.items.context = (s.now false).value.items.context) ∧
      (s.now false).value.getQuantity "apple" = 3 := by
  have hmake := Step.perform (init (fun i => cond i "user1" "user2") "title" "url") true
    (.createItem "apple" 3)
  have hrun := (Relation.ReflTransGen.single hmake).tail (.join _ false _ (.inl rfl))
  exact ⟨_, hrun, strong_eventual_consistency (by decide) hrun true false (by decide), by decide⟩

end Replicas

end ShoppingApp
