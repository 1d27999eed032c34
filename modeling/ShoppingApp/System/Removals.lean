import ShoppingApp.System.Quantities

/-!
# Removals and stale states

`remove` erases an item, and only the context still knows its dots. That is enough for merges: what
the remover had seen is gone on both sides, and what it had not seen stays, the dot of a concurrent
operation among it (`observed_remove`). A list that has performed an operation takes nothing from
the state before it but, after a removal, an entry without dots (`stale_absorbed`).
-/

namespace ShoppingApp

open Replication

namespace ShoppingList

/-! ## Operations one after another -/

def performAll (l : ShoppingList) (ops : List Op) : ShoppingList :=
  ops.foldl (fun l op => (l.perform op).2) l

/-- The dot that the last successful operation on `name` makes. -/
def lastDot (name : String) : List Op → ShoppingList → Option Dot
  | [], _ => none
  | op :: ops, l =>
    match lastDot name ops (l.perform op).2 with
    | some d => some d
    | none => if op.item = name ∧ (l.perform op).1 = true then some l.nextDot else none

theorem performAll_header (ops : List Op) : ∀ l : ShoppingList,
    (l.performAll ops).id = l.id ∧ (l.performAll ops).title = l.title ∧
      (l.performAll ops).url = l.url := by
  induction ops with
  | nil => exact fun l => ⟨rfl, rfl, rfl⟩
  | cons op ops ih =>
    intro l
    obtain ⟨hid, htitle, hurl⟩ := ih (l.perform op).2
    obtain ⟨hid', htitle', hurl'⟩ := l.perform_header op
    exact ⟨hid.trans hid', htitle.trans htitle', hurl.trans hurl'⟩

theorem WF.performAll (ops : List Op) : ∀ {l : ShoppingList}, l.WF → (l.performAll ops).WF := by
  induction ops with
  | nil => exact fun h => h
  | cons op ops ih => exact fun h => ih (h.perform op)

theorem removeItem_of_contains {l : ShoppingList} {name : String} (h : l.contains name = true) :
    l.removeItem name = (true, { l with items := l.items.remove name }) := by
  unfold removeItem
  rw [h]
  rfl

/-- What an operation does to its item: nothing, one `inc` or `dec`, or the removal. -/
theorem perform_outcome (l : ShoppingList) (op : Op) :
    (l.perform op).2 = l ∨
    (∃ f, (l.perform op).2 = l.modifyItem op.item fun c => c.rewrite l.id f) ∨
    ∃ name, op = .removeItem name ∧ l.contains name = true ∧
      (l.perform op).2 = { l with items := l.items.remove name } := by
  by_cases hok : (l.perform op).1 = true
  · by_cases hop : op.Removes
    · right; right
      cases op with
      | removeItem name =>
        by_cases hname : l.contains name = true
        · refine ⟨name, rfl, hname, ?_⟩
          change (l.removeItem name).2 = _
          rw [removeItem_of_contains hname]
        · simp [perform, removeItem, hname] at hok
      | createItem name quantity => exact hop.elim
      | increaseItem name quantity => exact hop.elim
      | buyItem name quantity => exact hop.elim
    · obtain ⟨f, -, hmodify⟩ := perform_of_succeeds hop hok
      exact .inr (.inl ⟨f, hmodify⟩)
  · exact .inl (perform_of_fails (Bool.eq_false_of_not_eq_true hok))

/-- An operation moves no dots of other items. -/
theorem WF.live_perform_ne {l : ShoppingList} (h : l.WF) {op : Op} {name : String}
    (hne : name ≠ op.item) (d : Dot) :
    (l.perform op).2.items.live name d = l.items.live name d := by
  rcases l.perform_outcome op with heq | ⟨f, heq⟩ | ⟨item, rfl, -, heq⟩ <;> rw [heq]
  · exact (h.items.live_modify h.cloud op.item l.id f name d).trans (if_neg hne)
  · exact (l.items.live_remove item name d).trans (if_neg hne)

/-- Without a successful operation on an item its dots stay. -/
theorem live_performAll_of_none {name : String} (d : Dot) (ops : List Op) :
    ∀ {l : ShoppingList}, l.WF → lastDot name ops l = none →
      (l.performAll ops).items.live name d = l.items.live name d := by
  induction ops with
  | nil => exact fun _ _ => rfl
  | cons op ops ih =>
    intro l hl hnone
    unfold lastDot at hnone
    split at hnone
    · cases hnone
    · rename_i hrest
      refine (ih (hl.perform op) hrest).trans ?_
      by_cases hitem : op.item = name
      · have hfails : (l.perform op).1 = false := by
          by_contra hok
          rw [if_pos ⟨hitem, Bool.eq_true_of_not_eq_false hok⟩] at hnone
          cases hnone
        rw [perform_of_fails hfails]
      · exact hl.live_perform_ne (Ne.symm hitem) d

/-- The dot of the last successful operation on an item is new, and live at the end. -/
theorem live_lastDot {name : String} {d : Dot} (ops : List Op) :
    ∀ {l : ShoppingList}, l.WF → (∀ op ∈ ops, ¬ op.Removes) → lastDot name ops l = some d →
      (∃ v, (l.performAll ops).items.live name d = some v) ∧
        l.items.context.contains d = false ∧ d.first = l.id ∧ 0 ≤ d.second := by
  induction ops with
  | nil => exact fun _ _ h => nomatch h
  | cons op ops ih =>
    intro l hl hops hlast
    have hrest : ∀ op' ∈ ops, ¬ op'.Removes :=
      fun op' hmem => hops op' (List.mem_cons_of_mem _ hmem)
    unfold lastDot at hlast
    split at hlast
    · rename_i e he
      cases hlast
      obtain ⟨hlive, hnew, hfirst, hnonneg⟩ := ih (hl.perform op) hrest he
      refine ⟨hlive, ?_, hfirst.trans (l.perform_header op).1, hnonneg⟩
      by_contra hseen
      rw [hl.contains_perform op (Bool.eq_true_of_not_eq_false hseen)] at hnew
      cases hnew
    · rename_i hnone
      split_ifs at hlast with hok
      cases hlast
      obtain ⟨f, -, hmodify⟩ := perform_of_succeeds (hops op List.mem_cons_self) hok.2
      have hlive : (l.perform op).2.items.live name l.nextDot =
          some (f (((l.items.cellAt op.item).counter l.items.context).ownMax l.id)) := by
        rw [hmodify]
        refine (hl.items.live_modify hl.cloud op.item l.id f name l.nextDot).trans ?_
        rw [if_pos hok.1.symm]
        exact if_pos rfl
      exact ⟨⟨_, (live_performAll_of_none l.nextDot ops (hl.perform op) hnone).trans hlive⟩,
        hl.nextDot_fresh, DotContext.nextDot_first _ _, (hl.items.nonNeg.nextDot_pos _).le⟩

/-! ## Removals -/

/-- Of an item that one side does not hold, a merge leaves what that side has not seen, on either
side. -/
theorem live_join_of_none {l o : ShoppingList} (hl : l.WF) (ho : o.WF) (htitle : l.title = o.title)
    (hurl : l.url = o.url) {name : String} (hnone : ∀ d, o.items.live name d = none) (d : Dot) :
    (l.join o).2.items.live name d =
        (if o.items.context.contains d = true then none else l.items.live name d) ∧
      (o.join l).2.items.live name d =
        if o.items.context.contains d = true then none else l.items.live name d := by
  rw [join_of_header_eq htitle hurl, join_of_header_eq htitle.symm hurl.symm]
  dsimp only
  rw [hl.items.live_join ho.items, ho.items.live_join hl.items, hnone]
  cases l.items.live name d with
  | none => exact ⟨(ite_self none).symm, (ite_self none).symm⟩
  | some v => exact ⟨rfl, rfl⟩

end ShoppingList

namespace Replicas

variable {ι : Type*} [DecidableEq ι] {ids titles urls : ι → String} {s : Replicas ι}

/-- **Observed remove, add wins.** When one replica removes an item while another one works on its
own list, a merge on either side leaves of the item what the remover had not seen, with the values
of the other replica, and in particular the dot of its last successful operation. -/
theorem observed_remove (hids : Function.Injective ids)
    (h : Run StepOrReload (start ids titles urls) s) {i j : ι}
    (htitle : (s.now i).value.title = (s.now j).value.title)
    (hurl : (s.now i).value.url = (s.now j).value.url) {name : String}
    (hname : (s.now j).value.contains name = true) (ops : List ShoppingList.Op)
    (hops : ∀ op ∈ ops, ¬ op.Removes) :
    let a := (s.now i).value.performAll ops
    let b := ((s.now j).value.removeItem name).2
    (∀ d, (a.join b).2.items.live name d =
        (if (s.now j).value.items.context.contains d = true then none
          else a.items.live name d) ∧
      (b.join a).2.items.live name d =
        if (s.now j).value.items.context.contains d = true then none
        else a.items.live name d) ∧
    ∀ d, ShoppingList.lastDot name ops (s.now i).value = some d →
      ∃ v, a.items.live name d = some v ∧ (a.join b).2.items.live name d = some v ∧
        (b.join a).2.items.live name d = some v := by
  obtain ⟨ho, -⟩ := Run.owned hids h
  have hi := ho.wf _ (ho.now_mem i)
  have hj := ho.wf _ (ho.now_mem j)
  obtain ⟨-, htitle', hurl'⟩ := ShoppingList.performAll_header ops (s.now i).value
  have hmerge := ShoppingList.live_join_of_none (hi.performAll ops)
    (o := { (s.now j).value with items := (s.now j).value.items.remove name })
    ⟨hj.items.remove name, hj.cloud⟩ (htitle'.trans htitle) (hurl'.trans hurl)
    fun d => ((s.now j).value.items.live_remove name name d).trans (if_pos rfl)
  intro a b
  have hb : b = { (s.now j).value with items := (s.now j).value.items.remove name } := by
    change ((s.now j).value.removeItem name).2 = _
    rw [ShoppingList.removeItem_of_contains hname]
  rw [hb]
  refine ⟨hmerge, fun d hd => ?_⟩
  obtain ⟨⟨v, hv⟩, hnew, hfirst, hnonneg⟩ := ShoppingList.live_lastDot ops hi hops hd
  -- a dot of this replica that the remover had seen, this replica would have seen
  have hunseen : ¬ (s.now j).value.items.context.contains d = true := by
    intro hseen
    rw [ho.dominated _ (ho.now_mem j) i d hnonneg (hfirst.trans (ho.own i)) hseen] at hnew
    cases hnew
  refine ⟨v, hv, (hmerge d).1.trans ?_, (hmerge d).2.trans ?_⟩
  · exact (if_neg hunseen).trans hv
  · exact (if_neg hunseen).trans hv

/-- The second replica removes the apples while the first one adds three. -/
theorem observed_remove_increase :
    let a := ((bought 1).now true).value.performAll [.increaseItem "apple" 3]
    let b := (((bought 1).now false).value.removeItem "apple").2
    (a.join b).2.getQuantity "apple" = 8 ∧
      ∃ v, a.items.live "apple" ⟨"user1", 2⟩ = some v ∧
        (a.join b).2.items.live "apple" ⟨"user1", 2⟩ = some v ∧
        (b.join a).2.items.live "apple" ⟨"user1", 2⟩ = some v := by
  have hops : ∀ op ∈ [ShoppingList.Op.increaseItem "apple" 3], ¬ op.Removes := fun op hop => by
    rw [List.mem_singleton.1 hop]
    exact not_false
  have hids : Function.Injective twoIds := by decide
  have hname : ((bought 1).now false).value.contains "apple" = true := by decide
  have hremoved := observed_remove hids (run_bought 1) (i := true) (by decide) (by decide) hname _
    hops
  exact ⟨by decide, hremoved.2 ⟨"user1", 2⟩ (by decide)⟩

end Replicas

/-! ## Stale states -/

namespace ORMap

variable {K : Type*} [LinearOrder K]

/-- What `operator[]` alone makes of a map. -/
def touch (m : ORMap K) (k : K) : ORMap K := m.modify k fun c => c

theorem WF.touch_eq {m : ORMap K} (h : m.WF) (k : K) :
    m.touch k = ⟨m.map.set k ⟨none, (m.cellAt k).values⟩, m.context⟩ := by
  unfold ORMap.touch ORMap.modify
  dsimp only
  unfold Cell.write Cell.counter
  rw [h.cellAt_own]
  rfl

theorem WF.live_touch {m : ORMap K} (h : m.WF) (k k' : K) (d : Dot) :
    (m.touch k).live k' d = m.live k' d := by
  rw [h.touch_eq]
  unfold live cellAt
  rw [SortedMap.find?_set]
  by_cases hk : k' = k
  · rw [if_pos hk, hk]
    rfl
  · rw [if_neg hk]

theorem WF.touch {m : ORMap K} (h : m.WF) (k : K) : (m.touch k).WF := by
  refine ⟨fun {k' cell} hk => ?_, fun {k' d v} hv => ?_, fun {k' d v} hv => ?_, ?_⟩
  · rw [h.touch_eq] at hk
    dsimp only at hk
    rw [SortedMap.find?_set] at hk
    split_ifs at hk
    · cases hk
      rfl
    · exact h.shared hk
  · rw [h.live_touch] at hv
    rw [h.touch_eq]
    exact h.seen hv
  · rw [h.live_touch] at hv
    exact h.live_nonneg hv
  · rw [h.touch_eq]
    exact h.nonNeg

/-- A touched map means what it meant, and has the key. -/
theorem WF.sem_touch {m : ORMap K} (h : m.WF) (k : K) :
    (m.touch k).sem = (fun k' => decide (k' = k) || (m.map.find? k').isSome, m.sem.2) := by
  refine Prod.ext ?_ (Prod.ext ?_ ?_)
  · funext k'
    change ((m.touch k).map.find? k').isSome = _
    rw [h.touch_eq, SortedMap.find?_set]
    by_cases hk : k' = k <;> simp [hk]
  · funext d
    change (m.touch k).context.contains d = _
    rw [h.touch_eq]
    rfl
  · funext k' d
    change DotState.of ((m.touch k).live k' d) ((m.touch k).context.contains d) = _
    rw [h.live_touch, h.touch_eq]
    rfl

/-- A join with a state below brings keys only. -/
theorem WF.sem_join_stale {m o : ORMap K} (hm : m.WF) (ho : o.WF) (hmo : Agree m o)
    (hle : o.sem.2 ≤ m.sem.2) :
    (m.join o).sem = (fun k => (m.map.find? k).isSome || (o.map.find? k).isSome, m.sem.2) := by
  rw [hm.sem_join ho hmo]
  exact Prod.ext rfl (sup_eq_left.2 hle)

/-- Maps that compare equal have the same keys. -/
theorem Eqv.isSome_find? {m o : ORMap K} (h : m.Eqv o) (k : K) :
    (m.map.find? k).isSome = (o.map.find? k).isSome := by
  have hfind := congrArg (fun map => (map.find? k).isSome) h.1
  simpa only [SortedMap.find?_mapVal, Option.isSome_map] using hfind

end ORMap

namespace ShoppingList

/-- A list agrees with what it was before an operation. -/
theorem WF.agree_perform {l : ShoppingList} (h : l.WF) (op : Op) :
    ORMap.Agree (l.perform op).2.items l.items := by
  intro name d v w hv hw
  rcases l.perform_cases op with heq | ⟨item, f, heq⟩ | ⟨item, heq⟩ <;> rw [heq] at hv
  · exact ORMap.Agree.refl _ name d v w hv hw
  · rcases h.items.live_modify_eq_some h.cloud hv with ⟨-, rfl, -⟩ | hv
    · rw [h.items.live_fresh h.cloud] at hw
      cases hw
    · exact ORMap.Agree.refl _ name d v w hv hw
  · have hremove : (l.items.remove item).live name d = some v := hv
    rw [ORMap.live_remove] at hremove
    split_ifs at hremove
    exact ORMap.Agree.refl _ name d v w hremove hw

/-- An operation drops no key but that of an item it removes. -/
theorem isSome_find?_perform {l : ShoppingList} (hwf : l.WF) {op : Op}
    (hop : ∀ name, op = .removeItem name → l.contains name = false) (k : String)
    (hk : (l.items.map.find? k).isSome = true) :
    ((l.perform op).2.items.map.find? k).isSome = true := by
  rcases l.perform_outcome op with heq | ⟨f, heq⟩ | ⟨item, hremoves, hitem, -⟩
  · rw [heq]
    exact hk
  · rw [heq]
    change ((l.items.modify op.item fun c => c.rewrite l.id f).map.find? k).isSome = true
    rw [hwf.items.modify_rewrite, SortedMap.find?_set]
    split_ifs
    · rfl
    · exact hk
  · rw [hop item hremoves] at hitem
    cases hitem

/-- Joining the state before an operation brings keys only. -/
theorem WF.sem_join_before {s : ShoppingList} (h : s.WF) (op : Op) :
    ((s.perform op).2.items.join s.items).sem =
      (fun k => ((s.perform op).2.items.map.find? k).isSome || (s.items.map.find? k).isSome,
        (s.perform op).2.items.sem.2) :=
  (h.perform op).items.sem_join_stale h.items (h.agree_perform op) (h.sem_le_perform op)

theorem join_compacted (m o : ORMap String) : DotContext.Compacted (m.join o).context := by
  rw [ORMap.join_context]
  exact DotContext.join_compacted _ _

theorem WF.join_before_of_kept {s : ShoppingList} (h : s.WF) {op : Op}
    (hop : ∀ name, op = .removeItem name → s.contains name = false) :
    (s.perform op).2.items.join s.items = (s.perform op).2.items := by
  have ht : (s.perform op).2.WF := h.perform op
  refine (ht.items.join h.items).ext ht.items (join_compacted _ _) ht.compacted ?_
  refine (h.sem_join_before op).trans (Prod.ext ?_ rfl)
  funext k
  change (_ || (s.items.map.find? k).isSome) = ((s.perform op).2.items.map.find? k).isSome
  cases hk : (s.items.map.find? k).isSome with
  | false => exact Bool.or_false _
  | true => rw [isSome_find?_perform h hop k hk, Bool.or_true]

theorem WF.join_before_of_removed {s : ShoppingList} (h : s.WF) {name : String}
    (hname : s.contains name = true) :
    (s.items.remove name).join s.items = (s.items.remove name).touch name := by
  have ht : (s.items.remove name).WF := h.items.remove name
  have hperform : (s.perform (.removeItem name)).2.items = s.items.remove name := by
    change (s.removeItem name).2.items = _
    rw [removeItem_of_contains hname]
  have hsem := h.sem_join_before (.removeItem name)
  rw [hperform] at hsem
  have htouch : ((s.items.remove name).touch name).context = s.items.context := by
    rw [ht.touch_eq]
    rfl
  refine (ht.join h.items).ext (ht.touch name) (join_compacted _ _)
    (htouch ▸ h.compacted) (hsem.trans ?_)
  rw [ht.sem_touch]
  refine Prod.ext ?_ rfl
  funext k
  change (((s.items.map.erase name).find? k).isSome || (s.items.map.find? k).isSome) =
    (decide (k = name) || ((s.items.map.erase name).find? k).isSome)
  rw [SortedMap.find?_erase]
  by_cases hk : k = name
  · have hsome : (s.items.map.find? name).isSome = true := by
      unfold contains at hname
      cases hfind : s.items.map.find? name with
      | none => rw [hfind] at hname; cases hname
      | some cell => rfl
    rw [hk, hsome]
    simp
  · simp [hk]

/-- **A stale state is absorbed.** Joining the state before an operation succeeds and brings no dot
and no context entry; it leaves a list that compares equal unless the operation has removed an item,
whose entry comes back without dots; and the state before, joining the new one, ends up equal. -/
theorem stale_absorbed {s : ShoppingList} (h : Reachable s) (op : Op) :
    let t := (s.perform op).2
    (t.join s).1 = true ∧ (∀ name d, (t.join s).2.items.live name d = t.items.live name d) ∧
      (t.join s).2.items.context = t.items.context ∧
      ((∀ name, op = .removeItem name → s.contains name = false) → (t.join s).2.Eqv t) ∧
      (∀ name, op = .removeItem name → s.contains name = true →
        (t.join s).2 = { t with items := t.items.touch name } ∧ ¬ (t.join s).2.Eqv t) ∧
      (s.join t).1 = true ∧ (s.join t).2.Eqv (t.join s).2 := by
  have hs : s.WF := h.wf
  have ht : (s.perform op).2.WF := hs.perform op
  have hjoined : ((s.perform op).2.items.join s.items).WF := ht.items.join hs.items
  have hmeaning : ((s.perform op).2.items.join s.items).sem.2 = (s.perform op).2.items.sem.2 := by
    rw [hs.sem_join_before op]
  obtain ⟨-, htitle, hurl⟩ := s.perform_header op
  dsimp only
  rw [join_of_header_eq htitle hurl, join_of_header_eq htitle.symm hurl.symm]
  refine ⟨rfl, ORMap.live_eq_of_meaning_eq hjoined ht.items hmeaning,
    ORMap.context_eq_of_meaning_eq hjoined ht.items hmeaning (join_compacted _ _) ht.compacted,
    fun hop => ⟨rfl, rfl, ?_⟩, fun name hop hname => ?_, rfl, htitle.symm, hurl.symm, ?_⟩
  · dsimp only
    rw [hs.join_before_of_kept hop]
    exact ORMap.eqv_refl _
  · subst hop
    have hremoved : (s.perform (.removeItem name)).2 =
        { s with items := s.items.remove name } := by
      change (s.removeItem name).2 = _
      rw [removeItem_of_contains hname]
    rw [hremoved]
    dsimp only
    rw [hs.join_before_of_removed hname]
    refine ⟨rfl, fun heqv => ?_⟩
    have hkey := heqv.2.2.isSome_find? name
    dsimp only at hkey
    rw [(hs.items.remove name).touch_eq, SortedMap.find?_set_self] at hkey
    rw [show (s.items.remove name).map = s.items.map.erase name from rfl,
      SortedMap.find?_erase, if_pos rfl] at hkey
    cases hkey
  · dsimp only
    rw [hs.items.join_comm ht.items (hs.agree_perform op).symm]
    exact ORMap.eqv_refl _

/-- A list with five apples, of which one is bought. -/
theorem stale_absorbed_buy :
    let s := ((new "user1" "title" "url").perform (.createItem "apple" 5)).2
    let t := (s.perform (.buyItem "apple" 1)).2
    t.getQuantity "apple" = 4 ∧ (t.join s).2.Eqv t ∧ (s.join t).2.Eqv (t.join s).2 := by
  have habsorbed := stale_absorbed ((Reachable.new "user1" "title" "url").perform
    (.createItem "apple" 5)) (.buyItem "apple" 1)
  obtain ⟨-, -, -, heqv, -, -, hback⟩ := habsorbed
  exact ⟨by decide, heqv (fun _ hop => nomatch hop), hback⟩

/-- The apples are removed, and their entry comes back from the state before. -/
theorem removed_entry_comes_back :
    ¬ ∀ (s : ShoppingList) (op : Op), Reachable s →
      ((s.perform op).2.join s).1 = true ∧ ((s.perform op).2.join s).2.Eqv (s.perform op).2 := by
  intro h
  have hmade := (Reachable.new "user1" "title" "url").perform (.createItem "apple" 5)
  exact absurd (h _ (.removeItem "apple") hmade).2 (by decide)

end ShoppingList

end ShoppingApp
