import ShoppingApp.System.Representation
import ShoppingApp.Crdt.IntQuantities
import ShoppingApp.Lib.Ledger

/-!
# Additions and purchases

Replicas that only make items, add to them and buy them, and buy no more than they have put in
themselves. Each replica's part of an item is one dot that moves with every operation and carries
the running total, as in a ledger with one author for each replica (`Books`). So the quantity of an
item is what has been added less what has been bought in the operations a replica has received,
each counted once (`quantity_eq_added_sub_bought`).

Quantities are exact integers here; in the code they are `int`, and a sum that does not fit is not
what has been added (`quantity_overflows`). Runs of the code in which all quantities fit are runs of
this system (`IntStep.step`).
-/

namespace ShoppingApp

open Replication

namespace ShoppingList

namespace Op

def item : Op → String
  | createItem name _ | removeItem name | increaseItem name _ | buyItem name _ => name

/-- What an operation adds to the quantity of its item. -/
def amount : Op → Int
  | createItem _ quantity | increaseItem _ quantity => quantity
  | buyItem _ quantity => -quantity
  | removeItem _ => 0

def Removes : Op → Prop
  | removeItem _ => True
  | _ => False

/-- What an operation adds to `name`. -/
def added (name : String) : Op → Int
  | createItem name' quantity | increaseItem name' quantity => if name' = name then quantity else 0
  | _ => 0

/-- What an operation buys of `name`. -/
def bought (name : String) : Op → Int
  | buyItem name' quantity => if name' = name then quantity else 0
  | _ => 0

theorem added_sub_bought (name : String) (op : Op) :
    op.added name - op.bought name = if op.item = name then op.amount else 0 := by
  cases op with
  | createItem name' quantity =>
    by_cases h : name' = name <;> simp [added, bought, item, amount, h]
  | removeItem name' => simp [added, bought, amount]
  | increaseItem name' quantity =>
    by_cases h : name' = name <;> simp [added, bought, item, amount, h]
  | buyItem name' quantity => by_cases h : name' = name <;> simp [added, bought, item, amount, h]

end Op

/-- What the list's own replica has put into an item. -/
def ownPart (l : ShoppingList) (name : String) : Int :=
  ((l.items.cellAt name).counter l.items.context).localValue l.id

/-- The operations considered: positive quantities, no removals, and what is bought has been put
in by the replica itself. -/
def Permitted (l : ShoppingList) : Op → Prop
  | .createItem _ quantity | .increaseItem _ quantity => 0 < quantity
  | .buyItem name quantity => 0 < quantity ∧ (l.contains name = true → quantity ≤ l.ownPart name)
  | .removeItem _ => False

instance (l : ShoppingList) : (op : Op) → Decidable (l.Permitted op)
  | .createItem _ quantity => inferInstanceAs (Decidable (0 < quantity))
  | .increaseItem _ quantity => inferInstanceAs (Decidable (0 < quantity))
  | .buyItem _ _ => inferInstanceAs (Decidable (_ ∧ (_ → _)))
  | .removeItem _ => inferInstanceAs (Decidable False)

/-- The operations considered, with quantities that are `int` as the code's. -/
def IntPermitted (l : ShoppingList) : Op → Prop
  | .createItem _ quantity | .increaseItem _ quantity => 0 < quantity ∧ IsInt quantity
  | .buyItem name quantity => 0 < quantity ∧ IsInt quantity ∧
      (l.intContains name = true → quantity ≤ (l.counterAt name).intLocal l.id)
  | .removeItem _ => False

instance (l : ShoppingList) : (op : Op) → Decidable (l.IntPermitted op)
  | .createItem _ _ | .increaseItem _ _ => inferInstanceAs (Decidable (_ ∧ _ ∧ _))
  | .buyItem _ _ => inferInstanceAs (Decidable (_ ∧ (_ ∧ _) ∧ (_ → _)))
  | .removeItem _ => inferInstanceAs (Decidable False)

theorem IntPermitted.permitted {l : ShoppingList} {op : Op} (h : l.IntPermitted op)
    (hfits : l.Fits op) : l.Permitted op := by
  cases op with
  | createItem name quantity => exact h.1
  | removeItem name => exact h
  | increaseItem name quantity => exact h.1
  | buyItem name quantity =>
    obtain ⟨hpos, -, hle⟩ := h
    rw [intContains_eq hfits.1, CausalCounter.intLocal_eq, wrapInt_of_isInt hfits.2.1] at hle
    exact ⟨hpos, hle⟩

/-- An operation that succeeds and removes nothing is one `inc` or `dec` by its amount. -/
theorem perform_of_succeeds {l : ShoppingList} {op : Op} (hop : ¬ op.Removes)
    (hok : (l.perform op).1 = true) :
    ∃ f : Int → Int, (∀ v, f v = v + op.amount) ∧
      (l.perform op).2 = l.modifyItem op.item fun c => c.rewrite l.id f := by
  cases op with
  | createItem name quantity =>
    simp only [ShoppingList.perform, createItem] at hok ⊢
    split_ifs at hok ⊢
    exact ⟨_, fun v => rfl, rfl⟩
  | removeItem name => exact absurd trivial hop
  | increaseItem name quantity =>
    simp only [ShoppingList.perform, increaseItem] at hok ⊢
    split_ifs at hok ⊢
    exact ⟨_, fun v => rfl, rfl⟩
  | buyItem name quantity =>
    simp only [ShoppingList.perform, buyItem] at hok ⊢
    split_ifs at hok ⊢
    exact ⟨_, fun v => sub_eq_add_neg v quantity, rfl⟩

/-- A permitted operation that succeeds changes the list's own part by its amount. -/
theorem Permitted.perform {l : ShoppingList} {op : Op} (h : l.Permitted op)
    (hok : (l.perform op).1 = true) :
    (∃ f : Int → Int, (∀ v, f v = v + op.amount) ∧
      (l.perform op).2 = l.modifyItem op.item fun c => c.rewrite l.id f) ∧
    (0 < op.amount ∨ 0 ≤ l.ownPart op.item + op.amount) := by
  cases op with
  | createItem name quantity => exact ⟨perform_of_succeeds not_false hok, .inl h⟩
  | removeItem name => exact h.elim
  | increaseItem name quantity => exact ⟨perform_of_succeeds not_false hok, .inl h⟩
  | buyItem name quantity =>
    refine ⟨perform_of_succeeds not_false hok, .inr ?_⟩
    simp only [ShoppingList.perform, buyItem] at hok
    split_ifs at hok with hcontains
    have hle := h.2 (by simpa using hcontains)
    simp only [Op.item, Op.amount]
    omega

/-- An operation that fails changes nothing. -/
theorem perform_of_fails {l : ShoppingList} {op : Op} (h : (l.perform op).1 = false) :
    (l.perform op).2 = l := by
  cases op with
  | createItem name quantity =>
    simp only [perform, createItem] at h ⊢
    split_ifs at h ⊢
    rfl
  | removeItem name =>
    simp only [perform, removeItem] at h ⊢
    split_ifs at h ⊢
    rfl
  | increaseItem name quantity =>
    simp only [perform, increaseItem] at h ⊢
    split_ifs at h ⊢
    rfl
  | buyItem name quantity =>
    simp only [perform, buyItem] at h ⊢
    split_ifs at h ⊢
    rfl

end ShoppingList

theorem CausalCounter.read_eq_sum (c : CausalCounter) :
    c.read = ∑ e ∈ c.core.values.entries.toFinset, e.2 := by
  have hnodup : c.core.values.entries.Nodup := by
    refine List.Pairwise.imp ?_ c.core.values.sorted
    rintro a _ hlt rfl
    exact lt_irrefl a.1 hlt
  rw [List.sum_toFinset _ hnodup, List.sum_eq_foldl, List.foldl_map]
  rfl

/-! ## The system -/

/-- The replicas, and of each successful operation the dot it made and what it was. -/
structure Accounts (ι : Type*) where
  replicas : Replicas ι
  dots : ℕ → Dot
  ops : ℕ → ShoppingList.Op

namespace Accounts

variable {ι : Type*} [DecidableEq ι]

def start (ids titles urls : ι → String) : Accounts ι :=
  ⟨Replicas.start ids titles urls, fun _ => ⟨"", 0⟩, fun _ => .removeItem ""⟩

/-- Replica `i` has performed an operation with result `r`, and has received it if it succeeded. -/
def record (s : Accounts ι) (i : ι) (op : ShoppingList.Op) (r : Bool × ShoppingList) :
    Accounts ι :=
  let t := s.replicas.now i
  let clock := s.replicas.clock
  if r.1 then
    ⟨s.replicas.put i ⟨r.2, insert clock t.received⟩ (clock + 1),
      Function.update s.dots clock t.value.nextDot, Function.update s.ops clock op⟩
  else ⟨s.replicas.put i ⟨r.2, t.received⟩ clock, s.dots, s.ops⟩

def perform (s : Accounts ι) (i : ι) (op : ShoppingList.Op) : Accounts ι :=
  s.record i op ((s.replicas.now i).value.perform op)

/-- Replica `i` joins a state, and has received what went into it unless the join is refused. -/
def join (s : Accounts ι) (i : ι) (u : Snapshot ShoppingList) : Accounts ι :=
  let t := s.replicas.now i
  let r := t.value.join u.value
  let joined := ⟨r.2, if r.1 then t.received ∪ u.received else t.received⟩
  { s with replicas := s.replicas.put i joined s.replicas.clock }

inductive Step : Accounts ι → Accounts ι → Prop
  | perform (s : Accounts ι) (i : ι) (op : ShoppingList.Op)
      (h : (s.replicas.now i).value.Permitted op) : Step s (s.perform i op)
  | join (s : Accounts ι) (i : ι) (u : Snapshot ShoppingList) (h : u ∈ s.replicas.past) :
      Step s (s.join i u)

/-- The operations as entries of their replicas. -/
def ledger (s : Accounts ι) : Ledger String String Int :=
  ⟨fun k => (s.dots k).first, fun k => (s.ops k).item, fun k => (s.ops k).amount⟩

end Accounts

/-! ## A state as a reader of the ledger -/

/-- A state has seen exactly the dots of the operations received, and of each replica's dots under
an item the last is live, with the replica's total. -/
structure Books (L : Ledger String String Int) (dots : ℕ → Dot) (clock : ℕ)
    (t : Snapshot ShoppingList) : Prop where
  below : ∀ k ∈ t.received, k < clock
  closed : L.Closed t.received
  seen : ∀ d : Dot, 0 < d.second →
    (t.value.items.context.contains d = true ↔ ∃ k ∈ t.received, dots k = d)
  live : ∀ name d v, t.value.items.live name d = some v ↔
    ∃ k, L.IsLast t.received k ∧ L.key k = name ∧ dots k = d ∧ L.total k = v

/-- The dots of the operations are numbered from 1 and distinct. -/
structure Numbered (dots : ℕ → Dot) (clock : ℕ) : Prop where
  pos : ∀ k < clock, 0 < (dots k).second
  inj : ∀ j < clock, ∀ k < clock, dots j = dots k → j = k

theorem Numbered.update {dots : ℕ → Dot} {clock : ℕ} (h : Numbered dots clock) {d : Dot}
    (hd : 0 < d.second) (hfresh : ∀ k < clock, dots k ≠ d) :
    Numbered (Function.update dots clock d) (clock + 1) := by
  have hold : ∀ k < clock, Function.update dots clock d k = dots k := fun k hk =>
    Function.update_of_ne hk.ne _ _
  constructor
  · intro k hk
    rcases (Nat.lt_succ_iff.1 hk).eq_or_lt with rfl | hk
    · rw [Function.update_self]
      exact hd
    · rw [hold k hk]
      exact h.pos k hk
  · intro j hj k hk heq
    rcases (Nat.lt_succ_iff.1 hj).eq_or_lt with rfl | hj
    · rcases (Nat.lt_succ_iff.1 hk).eq_or_lt with rfl | hk
      · rfl
      · rw [Function.update_self, hold k hk] at heq
        exact absurd heq.symm (hfresh k hk)
    · rcases (Nat.lt_succ_iff.1 hk).eq_or_lt with rfl | hk
      · rw [Function.update_self, hold j hj] at heq
        exact absurd heq (hfresh j hj)
      · rw [hold j hj, hold k hk] at heq
        exact h.inj j hj k hk heq

namespace Books

variable {L : Ledger String String Int} {dots : ℕ → Dot} {clock : ℕ}
  {t u : Snapshot ShoppingList}

/-- What a replica that knows all its entries has put into an item. -/
theorem own_part (h : Books L dots clock t) (hauthor : ∀ k, L.author k = (dots k).first)
    {id : String} (hown : ∀ k < clock, L.author k = id → k ∈ t.received)
    (hsolvent : ∀ k < clock, 0 ≤ L.total k) (name : String) :
    let c := (t.value.items.cellAt name).counter t.value.items.context
    (c.localValue id = L.sumBefore clock id name ∧ c.ownMax id = L.sumBefore clock id name) ∧
      0 ≤ L.sumBefore clock id name := by
  intro c
  by_cases hex : ∃ k ∈ t.received, L.author k = id ∧ L.key k = name
  · obtain ⟨k, hk, rfl, rfl⟩ := hex
    obtain ⟨hlast, hsame⟩ := Ledger.isLast_last (L := L) hk
    have htotal := hlast.sumBefore_eq h.below fun j hj hauth => hown j hj (hauth.trans hsame.1)
    rw [hsame.1, hsame.2] at htotal
    rw [htotal]
    have hpos := hsolvent _ (h.below _ hlast.1)
    refine ⟨CausalCounter.own_of_single ((h.live _ _ _).2 ⟨_, hlast, hsame.2, rfl, rfl⟩)
      ((hauthor _).symm.trans hsame.1) hpos fun e w he hfirst => ?_, hpos⟩
    obtain ⟨j, hj, hkey, rfl, -⟩ := (h.live _ _ _).1 he
    have hjlast : L.Same j (L.last t.received k) :=
      ⟨(hauthor j).trans (hfirst.trans hsame.1.symm), hkey.trans hsame.2.symm⟩
    rw [hj.eq hlast hjlast]
  · have hzero : L.sumBefore clock id name = 0 :=
      Ledger.sumBefore_eq_zero hown fun j hj hauth hkey => hex ⟨j, hj, hauth, hkey⟩
    rw [hzero]
    refine ⟨CausalCounter.own_of_none fun e w he hfirst => ?_, le_rfl⟩
    obtain ⟨j, hj, hkey, rfl, -⟩ := (h.live _ _ _).1 he
    exact hex ⟨j, hj.1, (hauthor j).trans hfirst, hkey⟩

/-- An entry that a state has not received does not concern it. -/
theorem record (h : Books L dots clock t) (d : Dot) (name : String) (amount : Int) :
    Books (L.record clock d.first name amount) (Function.update dots clock d) (clock + 1) t := by
  have hdots : ∀ k ∈ t.received, Function.update dots clock d k = dots k := fun k hk =>
    Function.update_of_ne (h.below k hk).ne _ _
  refine ⟨fun k hk => Nat.lt_succ_of_lt (h.below k hk), h.closed.record h.below,
    fun e he => ?_, fun item e v => ?_⟩
  · rw [h.seen e he]
    exact exists_congr fun k => and_congr_right fun hk => by rw [hdots k hk]
  · rw [h.live]
    refine exists_congr fun k => ?_
    rw [Ledger.isLast_record h.below]
    refine and_congr_right fun hk => ?_
    have hlt := h.below k hk.1
    rw [Ledger.record_key hlt, hdots k hk.1, Ledger.total_record hlt]

/-- The replica that makes an entry receives it: its new dot carries its new total. -/
theorem modify (h : Books L dots clock t) (hwf : t.value.WF)
    (hauthor : ∀ k, L.author k = (dots k).first)
    (hown : ∀ k < clock, L.author k = t.value.id → k ∈ t.received)
    (hsolvent : ∀ k < clock, 0 ≤ L.total k) {f : Int → Int} {name : String} {amount : Int}
    (hf : ∀ v, f v = v + amount) :
    Books (L.record clock t.value.nextDot.first name amount)
      (Function.update dots clock t.value.nextDot) (clock + 1)
      ⟨t.value.modifyItem name fun c => c.rewrite t.value.id f, insert clock t.received⟩ := by
  have hfirst : t.value.nextDot.first = t.value.id := DotContext.nextDot_first _ _
  have hvalue : f (((t.value.items.cellAt name).counter t.value.items.context).ownMax t.value.id) =
      (L.record clock t.value.nextDot.first name amount).total clock := by
    rw [Ledger.total_record_self, hfirst, hf, (h.own_part hauthor hown hsolvent name).1.2]
  have hold := h.record t.value.nextDot name amount
  refine ⟨fun k hk => ?_, ?_, fun d hd => ?_, fun item d v => ?_⟩
  · rcases Finset.mem_insert.1 hk with rfl | hk
    · exact Nat.lt_succ_self _
    · exact hold.below k hk
  · rw [hfirst]
    exact h.closed.insert_record h.below hown
  · change (t.value.items.modify name fun c => c.rewrite t.value.id f).context.contains d = true ↔ _
    rw [ORMap.context_modify hwf.items, DotContext.contains_nextDot_iff hd,
      hold.seen d hd, Finset.exists_mem_insert, Function.update_self]
    exact or_congr_left eq_comm
  · have hlive : (t.value.modifyItem name fun c => c.rewrite t.value.id f).items.live item d =
        if item = name then
          if d = t.value.nextDot then
            some ((L.record clock t.value.nextDot.first name amount).total clock)
          else if d.first = t.value.id then none else t.value.items.live name d
        else t.value.items.live item d := by
      rw [← hvalue]
      exact hwf.items.live_modify hwf.cloud name t.value.id f item d
    dsimp only
    rw [hlive]
    constructor
    · intro hv
      split_ifs at hv with hitem hnew hid
      · cases hv
        exact ⟨clock, (Ledger.isLast_insert h.below).2 (.inl rfl),
          Ledger.record_key_self.trans hitem.symm,
          (Function.update_self _ _ _).trans hnew.symm, rfl⟩
      · obtain ⟨k, hlast, hkey, hdot, htotal⟩ := (hold.live name d v).1 hv
        refine ⟨k, (Ledger.isLast_insert h.below).2 (.inr ⟨hlast, fun hsame => hid ?_⟩),
          hkey.trans hitem.symm, hdot, htotal⟩
        have hlt := h.below k hlast.1
        have hauth := hsame.1
        rw [Ledger.record_author_self, Ledger.record_author hlt, hauthor,
          ← Function.update_of_ne hlt.ne t.value.nextDot dots, hdot, hfirst] at hauth
        exact hauth.symm
      · obtain ⟨k, hlast, hkey, hdot, htotal⟩ := (hold.live item d v).1 hv
        refine ⟨k, (Ledger.isLast_insert h.below).2 (.inr ⟨hlast, fun hsame => hitem ?_⟩),
          hkey, hdot, htotal⟩
        have hkeys := hsame.2
        rw [Ledger.record_key_self, hkey] at hkeys
        exact hkeys.symm
    · rintro ⟨k, hlast, hkey, hdot, htotal⟩
      rcases (Ledger.isLast_insert h.below).1 hlast with rfl | ⟨hlast, hother⟩
      · rw [Ledger.record_key_self] at hkey
        rw [Function.update_self] at hdot
        rw [if_pos hkey.symm, if_pos hdot.symm, htotal]
      · have hv : t.value.items.live item d = some v :=
          (hold.live item d v).2 ⟨k, hlast, hkey, hdot, htotal⟩
        by_cases hitem : item = name
        · have hnew : d ≠ t.value.nextDot := by
            rintro rfl
            rw [ShoppingList.nextDot, hwf.items.live_fresh hwf.cloud] at hv
            cases hv
          have hid : d.first ≠ t.value.id := by
            intro hid
            have hlt := h.below k hlast.1
            refine hother ⟨?_, Ledger.record_key_self.trans (hitem.symm.trans hkey.symm)⟩
            rw [Ledger.record_author_self, Ledger.record_author hlt, hauthor,
              ← Function.update_of_ne hlt.ne t.value.nextDot dots, hdot, hid, hfirst]
          rw [if_pos hitem, if_neg hnew, if_neg hid, ← hitem]
          exact hv
        · rw [if_neg hitem]
          exact hv

/-- An operation has been received exactly if its dot has been seen. -/
theorem contains_iff (h : Books L dots clock t) (hn : Numbered dots clock) {k : ℕ}
    (hk : k < clock) : t.value.items.context.contains (dots k) = true ↔ k ∈ t.received := by
  rw [h.seen _ (hn.pos k hk)]
  constructor
  · rintro ⟨j, hj, heq⟩
    rwa [← hn.inj j (h.below j hj) k hk heq]
  · intro hmem
    exact ⟨k, hmem, rfl⟩

theorem live_of_isLast (h : Books L dots clock t) {k : ℕ} (hk : L.IsLast t.received k) :
    t.value.items.live (L.key k) (dots k) = some (L.total k) :=
  (h.live _ _ _).2 ⟨k, hk, rfl, rfl, rfl⟩

theorem live_of_not_mem (h : Books L dots clock t) (hn : Numbered dots clock) {k : ℕ}
    (hk : k < clock) (hmem : k ∉ t.received) (name : String) :
    t.value.items.live name (dots k) = none := by
  rw [Option.eq_none_iff_forall_not_mem]
  intro v hv
  obtain ⟨j, hj, -, heq, -⟩ := (h.live _ _ _).1 hv
  exact hmem (hn.inj j (h.below j hj.1) k hk heq ▸ hj.1)

/-- The dots that a join keeps are those of the last entries of both sides together. -/
theorem join (h : Books L dots clock t) (h' : Books L dots clock u) (hn : Numbered dots clock)
    (hwt : t.value.WF) (hwu : u.value.WF) (id title url : String) :
    Books L dots clock
      ⟨⟨id, title, url, t.value.items.join u.value.items⟩, t.received ∪ u.received⟩ := by
  refine ⟨fun k hk => ?_, h.closed.union h'.closed, fun d hd => ?_, fun name d v => ?_⟩
  · rcases Finset.mem_union.1 hk with hk | hk
    · exact h.below k hk
    · exact h'.below k hk
  · dsimp only
    rw [ORMap.join_context, DotContext.contains_join_of_dc_empty hwt.cloud hwu.cloud,
      Bool.or_eq_true, h.seen d hd, h'.seen d hd]
    simp only [Finset.mem_union, or_and_right, exists_or]
  · dsimp only
    rw [hwt.items.live_join hwu.items]
    constructor
    · intro hv
      cases ht : t.value.items.live name d with
      | some x =>
        obtain ⟨k, hk, hkey, rfl, rfl⟩ := (h.live _ _ _).1 ht
        cases hu : u.value.items.live name (dots k) with
        | some y =>
          rw [ht, hu] at hv
          cases hv
          obtain ⟨j, hj, -, heq, -⟩ := (h'.live _ _ _).1 hu
          obtain rfl := hn.inj j (h'.below j hj.1) k (h.below k hk.1) heq
          exact ⟨j, (Ledger.isLast_union h.closed h'.closed).2 (.inl ⟨hk, hj⟩), hkey, rfl, rfl⟩
        | none =>
          rw [ht, hu] at hv
          simp only [DotState.mergeLive] at hv
          split_ifs at hv with hseen
          cases hv
          refine ⟨k, (Ledger.isLast_union h.closed h'.closed).2 (.inr (.inl ⟨hk, fun hmem => ?_⟩)),
            hkey, rfl, rfl⟩
          exact hseen ((h'.contains_iff hn (h.below k hk.1)).2 hmem)
      | none =>
        cases hu : u.value.items.live name d with
        | some y =>
          obtain ⟨k, hk, hkey, rfl, rfl⟩ := (h'.live _ _ _).1 hu
          rw [ht, hu] at hv
          simp only [DotState.mergeLive] at hv
          split_ifs at hv with hseen
          cases hv
          refine ⟨k, (Ledger.isLast_union h.closed h'.closed).2 (.inr (.inr ⟨fun hmem => ?_, hk⟩)),
            hkey, rfl, rfl⟩
          exact hseen ((h.contains_iff hn (h'.below k hk.1)).2 hmem)
        | none =>
          rw [ht, hu] at hv
          cases hv
    · rintro ⟨k, hk, rfl, rfl, rfl⟩
      rcases (Ledger.isLast_union h.closed h'.closed).1 hk with ⟨ht, hu⟩ | ⟨ht, hu⟩ | ⟨ht, hu⟩
      · rw [h.live_of_isLast ht, h'.live_of_isLast hu]
        rfl
      · have hlt := h.below k ht.1
        rw [h.live_of_isLast ht, h'.live_of_not_mem hn hlt hu]
        exact if_neg fun hseen => hu ((h'.contains_iff hn hlt).1 hseen)
      · have hlt := h'.below k hu.1
        rw [h.live_of_not_mem hn hlt ht, h'.live_of_isLast hu]
        exact if_neg fun hseen => ht ((h.contains_iff hn hlt).1 hseen)

/-- **A quantity is a balance** of the ledger's entries received. -/
theorem getQuantity_eq (h : Books L dots clock t) (hn : Numbered dots clock) (name : String) :
    t.value.getQuantity name = L.balance t.received name := by
  rw [ShoppingList.getQuantity_eq, CausalCounter.read_eq_sum, Ledger.balance_eq_sum_total h.closed]
  symm
  refine Finset.sum_bij (fun k _ => (dots k, L.total k)) ?_ ?_ ?_ fun _ _ => rfl
  · intro k hk
    obtain ⟨-, rfl, hlast⟩ := Finset.mem_filter.1 hk
    rw [List.mem_toFinset, ← SortedMap.find?_eq_some]
    exact h.live_of_isLast hlast
  · intro j hj k hk heq
    exact hn.inj j (h.below j (Finset.mem_filter.1 hj).1) k (h.below k (Finset.mem_filter.1 hk).1)
      (congrArg Prod.fst heq)
  · rintro ⟨d, v⟩ hmem
    rw [List.mem_toFinset, ← SortedMap.find?_eq_some] at hmem
    obtain ⟨k, hlast, hkey, hdot, htotal⟩ := (h.live name d v).1 hmem
    exact ⟨k, Finset.mem_filter.2 ⟨hlast.1, hkey, hlast⟩, Prod.ext hdot htotal⟩

end Books

/-! ## Runs -/

namespace Accounts

open Replicas (Owned forall_past_put now_put_self now_put_ne)

variable {ι : Type*} [DecidableEq ι]

/-- Every state keeps its books, and each replica has received its own operations. -/
structure Audited (ids : ι → String) (s : Accounts ι) : Prop where
  owned : Owned ids s.replicas
  books : ∀ t ∈ s.replicas.past, Books s.ledger s.dots s.replicas.clock t
  own : ∀ i, ∀ k < s.replicas.clock, (s.dots k).first = ids i → k ∈ (s.replicas.now i).received
  numbered : Numbered s.dots s.replicas.clock
  solvent : ∀ k < s.replicas.clock, 0 ≤ s.ledger.total k

variable {ids titles urls : ι → String} {s s' : Accounts ι}

omit [DecidableEq ι] in
theorem Audited.start (ids titles urls : ι → String) :
    Audited ids (Accounts.start ids titles urls) := by
  refine ⟨Owned.start ids titles urls, ?_, fun i k hk => absurd hk (Nat.not_lt_zero k),
    ⟨fun k hk => absurd hk (Nat.not_lt_zero k), fun j hj => absurd hj (Nat.not_lt_zero j)⟩,
    fun k hk => absurd hk (Nat.not_lt_zero k)⟩
  rintro t ⟨i, rfl⟩
  refine ⟨fun k hk => absurd hk (Finset.notMem_empty k),
    fun k hk => absurd hk (Finset.notMem_empty k), fun d _ => ?_, fun name d v => ?_⟩
  · change DotContext.contains ∅ d = true ↔ _
    rw [DotContext.contains_empty]
    simp
  · constructor
    · intro hv
      rw [ORMap.live_of_find?_none rfl] at hv
      cases hv
    · rintro ⟨k, hk, -⟩
      exact absurd hk.1 (Finset.notMem_empty k)

/-- A replica that moves without a new operation, and forgets none. -/
theorem Audited.put (h : Audited ids s) (i : ι) {t : Snapshot ShoppingList}
    (howned : Owned ids (s.replicas.put i t s.replicas.clock))
    (hbooks : Books s.ledger s.dots s.replicas.clock t)
    (hreceived : (s.replicas.now i).received ⊆ t.received) :
    Audited ids { s with replicas := s.replicas.put i t s.replicas.clock } := by
  refine ⟨howned, forall_past_put h.books hbooks, fun j k hk hfirst => ?_, h.numbered, h.solvent⟩
  have hmem := h.own j k hk hfirst
  by_cases hj : j = i
  · subst hj
    rw [now_put_self]
    exact hreceived hmem
  · rw [now_put_ne _ hj]
    exact hmem

theorem Audited.join (h : Audited ids s) (i : ι) {u : Snapshot ShoppingList}
    (hu : u ∈ s.replicas.past) : Audited ids (s.join i u) := by
  have hi := h.owned.now_mem i
  have howned := h.owned.join i hu
    (if ((s.replicas.now i).value.join u.value).1 then (s.replicas.now i).received ∪ u.received
      else (s.replicas.now i).received) s.replicas.clock
  rcases ShoppingList.join_cases (s.replicas.now i).value u.value with ⟨hjoin, -⟩ | ⟨hjoin, -⟩
  · refine h.put i howned ?_ ?_
    · rw [hjoin]
      exact (h.books _ hi).join (h.books u hu) h.numbered (h.owned.wf _ hi) (h.owned.wf u hu) _ _ _
    · rw [hjoin]
      exact Finset.subset_union_left
  · refine h.put i howned ?_ ?_
    · rw [hjoin]
      exact h.books _ hi
    · rw [hjoin]
      exact Finset.Subset.refl _

theorem perform_of_ok {i : ι} {op : ShoppingList.Op}
    (hok : ((s.replicas.now i).value.perform op).1 = true) :
    s.perform i op = ⟨s.replicas.put i ⟨((s.replicas.now i).value.perform op).2,
        insert s.replicas.clock (s.replicas.now i).received⟩ (s.replicas.clock + 1),
      Function.update s.dots s.replicas.clock (s.replicas.now i).value.nextDot,
      Function.update s.ops s.replicas.clock op⟩ := by
  unfold Accounts.perform record
  rw [if_pos hok]

omit [DecidableEq ι] in
theorem ledger_update (replicas : Replicas ι) (n : ℕ) (d : Dot) (op : ShoppingList.Op) :
    ledger ⟨replicas, Function.update s.dots n d, Function.update s.ops n op⟩ =
      s.ledger.record n d.first op.item op.amount := by
  unfold ledger Ledger.record
  congr 1
  · exact Function.comp_update Dot.first s.dots n d
  · exact Function.comp_update ShoppingList.Op.item s.ops n op
  · exact Function.comp_update ShoppingList.Op.amount s.ops n op

theorem Audited.perform (hids : Function.Injective ids) (h : Audited ids s) (i : ι)
    {op : ShoppingList.Op} (hop : (s.replicas.now i).value.Permitted op) :
    Audited ids (s.perform i op) := by
  have hi := h.owned.now_mem i
  have hbooks := h.books _ hi
  have hwf := h.owned.wf _ hi
  by_cases hok : ((s.replicas.now i).value.perform op).1 = true
  · obtain ⟨⟨f, hf, hmodify⟩, hamount⟩ := hop.perform hok
    have hid := h.owned.own i
    have hfirst : (s.replicas.now i).value.nextDot.first = ids i :=
      (DotContext.nextDot_first _ _).trans hid
    have hown : ∀ k < s.replicas.clock, s.ledger.author k = (s.replicas.now i).value.id →
        k ∈ (s.replicas.now i).received := fun k hk hauth => h.own i k hk (hauth.trans hid)
    obtain ⟨⟨hlocal, -⟩, hsum⟩ := hbooks.own_part (fun _ => rfl) hown h.solvent op.item
    have hpart : (s.replicas.now i).value.ownPart op.item =
        s.ledger.sumBefore s.replicas.clock (s.replicas.now i).value.id op.item := hlocal
    -- an operation with the new dot would be one that the replica has received
    have hfresh : ∀ k < s.replicas.clock, s.dots k ≠ (s.replicas.now i).value.nextDot := by
      intro k hk heq
      have hmem := h.own i k hk (heq ▸ hfirst)
      have hseen := (hbooks.contains_iff h.numbered hk).2 hmem
      rw [heq, hwf.nextDot_fresh] at hseen
      cases hseen
    rw [perform_of_ok hok]
    refine ⟨h.owned.perform hids i op _ _, ?_, fun j k hk hj => ?_,
      h.numbered.update (hwf.items.nonNeg.nextDot_pos _) hfresh, fun k hk => ?_⟩
    · rw [ledger_update]
      refine forall_past_put (fun t ht => (h.books t ht).record _ _ _) ?_
      rw [hmodify]
      exact hbooks.modify hwf (fun _ => rfl) hown h.solvent hf
    · dsimp only at hj ⊢
      rcases (Nat.lt_succ_iff.1 hk).eq_or_lt with rfl | hk
      · rw [Function.update_self] at hj
        obtain rfl := hids (hfirst.symm.trans hj)
        rw [now_put_self]
        exact Finset.mem_insert_self _ _
      · rw [Function.update_of_ne hk.ne] at hj
        have hmem := h.own j k hk hj
        by_cases hji : j = i
        · subst hji
          rw [now_put_self]
          exact Finset.mem_insert_of_mem hmem
        · rw [now_put_ne _ hji]
          exact hmem
    · rw [ledger_update]
      rcases (Nat.lt_succ_iff.1 hk).eq_or_lt with rfl | hk
      · rw [Ledger.total_record_self, hfirst, ← hid]
        rcases hamount with hamount | hamount
        · exact add_nonneg hsum hamount.le
        · rwa [hpart] at hamount
      · rw [Ledger.total_record hk]
        exact h.solvent k hk
  · have hfails : ((s.replicas.now i).value.perform op).1 = false := by simpa using hok
    have howned := h.owned.perform hids i op (s.replicas.now i).received s.replicas.clock
    unfold Accounts.perform record
    rw [if_neg hok]
    refine h.put i howned ?_ (Finset.Subset.refl _)
    rw [ShoppingList.perform_of_fails hfails]
    exact hbooks

theorem Step.audited (hids : Function.Injective ids) (h : Audited ids s) (hst : Step s s') :
    Audited ids s' := by
  cases hst with
  | perform i op hop => exact h.perform hids i hop
  | join i u hu => exact h.join i hu

/-- **Additions and purchases are accounted for**, in exact integers. In every state that a replica
has or has had, the quantity of an item is what successful operations have added to it less what
they have bought of it, over the operations that the state has received. -/
theorem quantity_eq_added_sub_bought (hids : Function.Injective ids)
    (h : Run Step (start ids titles urls) s) :
    (∀ i, s.replicas.now i ∈ s.replicas.past) ∧ ∀ t ∈ s.replicas.past, ∀ name,
      t.value.getQuantity name =
        ∑ k ∈ t.received, (s.ops k).added name - ∑ k ∈ t.received, (s.ops k).bought name := by
  have haudit : Audited ids s :=
    h.invariant (Audited ids) (.start ids titles urls) fun _ _ h hst => hst.audited hids h
  refine ⟨haudit.owned.now_mem, fun t ht name => ?_⟩
  rw [(haudit.books t ht).getQuantity_eq haudit.numbered, Ledger.balance, Finset.sum_filter,
    ← Finset.sum_sub_distrib]
  exact Finset.sum_congr rfl fun k _ => ((s.ops k).added_sub_bought name).symm

/-- One replica makes an item and buys some of it, another adds to it, and the first joins twice. -/
theorem quantity_eq_added_sub_bought_apple :
    let ids : Bool → String := fun i => cond i "user1" "user2"
    ∃ s : Accounts Bool, Run Step (start ids (fun _ => "title") fun _ => "url") s ∧
      (s.replicas.now true).value.getQuantity "apple" = 6 ∧
      (∀ i, s.replicas.now i ∈ s.replicas.past) ∧ ∀ t ∈ s.replicas.past, ∀ name,
        t.value.getQuantity name =
          ∑ k ∈ t.received, (s.ops k).added name - ∑ k ∈ t.received, (s.ops k).bought name := by
  intro ids
  have hmake := Step.perform (start ids (fun _ => "title") fun _ => "url") true
    (.createItem "apple" 5) (by decide)
  have hadd := ((Relation.ReflTransGen.single hmake).tail (.join _ false _ (.inl rfl))).tail
    (.perform _ false (.increaseItem "apple" 3) (by decide))
  have hbuy := (hadd.tail (.perform _ true (.buyItem "apple" 2) (by decide))).tail
    (.join _ true _ (.inr (.inl rfl)))
  have hrun := hbuy.tail (.join _ true _ (.inr (.inr (.inl rfl))))
  exact ⟨_, hrun, by decide, quantity_eq_added_sub_bought (by decide) hrun⟩

/-! ## Quantities that do not fit -/

/-- A step with the quantities of the code, for operations on lists as `fits` says. -/
inductive IntStep (fits : ShoppingList → ShoppingList.Op → Prop) : Accounts ι → Accounts ι → Prop
  | perform (s : Accounts ι) (i : ι) (op : ShoppingList.Op)
      (h : (s.replicas.now i).value.IntPermitted op) (hfits : fits (s.replicas.now i).value op) :
      IntStep fits s (s.record i op ((s.replicas.now i).value.intPerform op))
  | join (s : Accounts ι) (i : ι) (u : Snapshot ShoppingList) (h : u ∈ s.replicas.past) :
      IntStep fits s (s.join i u)

/-- **Where no sum overflows, the code's steps are those of exact integers.** -/
theorem IntStep.step (h : IntStep ShoppingList.Fits s s') : Step s s' := by
  cases h with
  | perform i op h hfits =>
    rw [ShoppingList.intPerform_eq hfits]
    exact .perform s i op (h.permitted hfits)
  | join i u h => exact .join s i u h

/-- One replica makes as much of an item as fits in an `int` and adds one more: both succeed, and
what it reads is negative. -/
theorem quantity_overflows :
    let ids : Bool → String := fun i => cond i "user1" "user2"
    let start : Accounts Bool := start ids (fun _ => "title") fun _ => "url"
    (∃ s, Run (IntStep fun _ _ => True) start s ∧ (s.replicas.now true).received = {0, 1} ∧
      s.ops 0 = .createItem "apple" 2147483647 ∧ s.ops 1 = .increaseItem "apple" 1 ∧
      (s.replicas.now true).value.intQuantity "apple" = -2147483648) ∧
    ¬ ∀ s : Accounts Bool, Run (IntStep fun _ _ => True) start s →
      ∀ i name, (s.replicas.now i).value.intQuantity name =
        ∑ k ∈ (s.replicas.now i).received, (s.ops k).added name -
          ∑ k ∈ (s.replicas.now i).received, (s.ops k).bought name := by
  intro ids start
  have hmake : IntStep (fun _ _ => True) start _ :=
    .perform start true (.createItem "apple" 2147483647) (by decide) trivial
  have hrun := (Relation.ReflTransGen.single hmake).tail
    (.perform _ true (.increaseItem "apple" 1) (by decide) trivial)
  refine ⟨⟨_, hrun, by decide, by decide, by decide, by decide⟩, fun h => ?_⟩
  exact absurd (h _ hrun true "apple") (by decide)

end Accounts

end ShoppingApp
