import ShoppingApp.Client.LocalStore

/-!
# When the client loses a local update

The two writers of the client database, interleaved request by request, store what both lists and
the entry before them bring if the calls do not overlap. If each has read before the other writes,
the later write replaces the earlier one, and information is kept exactly when the list that is
overwritten brought nothing new (`writers_keep_iff`).
-/

namespace ShoppingApp

namespace LocalStore

/-! ## Finishing -/

section Finish

variable {c : Calls} {ts : List Thread} {db db' : Database} {j v vM vU vMU vUM : Json}

/-- The schedule takes the writers to their ends and leaves `db'`. -/
def Finishes (c : Calls) (ts : List Thread) (w : Writers) (db' : Database) : Prop :=
  run c ts w = some ⟨.done, .done, db'⟩

theorem finishes_nil {w : Writers} :
    Finishes c [] w db' ↔ w = ⟨.done, .done, db'⟩ :=
  Option.some_inj

theorem finishes_cons {w : Writers} {t : Thread} :
    Finishes c (t :: ts) w db' ↔ ∃ w', step c w t = some w' ∧ Finishes c ts w' db' := by
  unfold Finishes run
  rw [List.foldlM_cons]
  exact Option.bind_eq_some_iff

/-- Writers of which one has not finished have a request before them. -/
theorem finishes_next {w : Writers} (h : Finishes c ts w db')
    (hbusy : w.saver ≠ .done ∨ w.updater ≠ .done) :
    ∃ t ts' w', ts = t :: ts' ∧ step c w t = some w' ∧ Finishes c ts' w' db' := by
  cases ts with
  | nil =>
    rw [finishes_nil.1 h] at hbusy
    exact absurd rfl (hbusy.resolve_left fun hne => hne rfl)
  | cons t ts =>
    obtain ⟨w', hw, h⟩ := finishes_cons.1 h
    exact ⟨t, ts, w', rfl, hw, h⟩

theorem finish_done (h : Finishes c ts ⟨.done, .done, db⟩ db') : ts = [] ∧ db' = db := by
  cases ts with
  | nil =>
    cases finishes_nil.1 h
    exact ⟨rfl, rfl⟩
  | cons t ts =>
    obtain ⟨w', hw, -⟩ := finishes_cons.1 h
    cases t <;> cases hw

/-- Only the main thread's write is left. -/
theorem finish_main (hv : savedValue c.saved j = some v)
    (h : Finishes c ts ⟨.read j, .done, db⟩ db') :
    ts = [.main] ∧ db' = db.set c.saved.url v := by
  obtain ⟨t, ts, w', rfl, hw, h⟩ := finishes_next h (.inl nofun)
  cases t with
  | main =>
    simp only [step, hv] at hw
    cases hw
    obtain ⟨rfl, rfl⟩ := finish_done h
    exact ⟨rfl, rfl⟩
  | listener => cases hw

/-- The listener's next request writes `v`. -/
inductive Ready (c : Calls) (v : Json) : Updater → Prop
  | read {j : Json} (h : updatedValue c.received j = some v) : Ready c v (.read j)
  | absent (h : createdValue c.uuid c.received = some v) : Ready c v .absent

theorem Ready.ne_done {updater : Updater} (h : Ready c v updater) : updater ≠ .done := by
  rintro rfl
  cases h

theorem Ready.step {saver : Saver} {updater : Updater} (h : Ready c v updater) (db : Database) :
    LocalStore.step c ⟨saver, updater, db⟩ .listener =
      some ⟨saver, .done, db.set c.list_url v⟩ := by
  cases h with
  | read h | absent h => simp only [LocalStore.step, h, Option.bind_eq_bind, Option.bind_some]; rfl

/-- Only the listener's write is left. -/
theorem finish_listener {updater : Updater} (hv : Ready c v updater)
    (h : Finishes c ts ⟨.done, updater, db⟩ db') :
    ts = [.listener] ∧ db' = db.set c.list_url v := by
  obtain ⟨t, ts, w', rfl, hw, h⟩ := finishes_next h (.inr hv.ne_done)
  cases t with
  | main => cases hw
  | listener =>
    rw [hv.step db] at hw
    cases hw
    obtain ⟨rfl, rfl⟩ := finish_done h
    exact ⟨rfl, rfl⟩

/-- Both have read, and one write after the other is left. -/
theorem finish_both {updater : Updater} (hM : savedValue c.saved j = some vM)
    (hU : Ready c vU updater)
    (h : Finishes c ts ⟨.read j, updater, db⟩ db') :
    (ts = [.main, .listener] ∧ db' = (db.set c.saved.url vM).set c.list_url vU) ∨
    (ts = [.listener, .main] ∧ db' = (db.set c.list_url vU).set c.saved.url vM) := by
  obtain ⟨t, ts, w', rfl, hw, h⟩ := finishes_next h (.inl nofun)
  cases t with
  | main =>
    simp only [step, hM] at hw
    cases hw
    obtain ⟨rfl, rfl⟩ := finish_listener hU h
    exact .inl ⟨rfl, rfl⟩
  | listener =>
    rw [hU.step db] at hw
    cases hw
    obtain ⟨rfl, rfl⟩ := finish_main hM h
    exact .inr ⟨rfl, rfl⟩

/-- The listener has found an entry, and the main thread has finished. -/
theorem finish_found (hv : updatedValue c.received (db.get c.list_url) = some v)
    (h : Finishes c ts ⟨.done, .found, db⟩ db') :
    ts = [.listener, .listener] ∧ db' = db.set c.list_url v := by
  obtain ⟨t, ts, w', rfl, hw, h⟩ := finishes_next h (.inr nofun)
  cases t with
  | main => cases hw
  | listener =>
    cases hw
    obtain ⟨rfl, rfl⟩ := finish_listener (.read hv) h
    exact ⟨rfl, rfl⟩

/-- The main thread has not begun, and the listener has finished. -/
theorem finish_start (hv : savedValue c.saved (db.get c.saved.url) = some v)
    (h : Finishes c ts ⟨.start, .done, db⟩ db') :
    ts = [.main, .main] ∧ db' = db.set c.saved.url v := by
  obtain ⟨t, ts, w', rfl, hw, h⟩ := finishes_next h (.inl nofun)
  cases t with
  | main =>
    cases hw
    obtain ⟨rfl, rfl⟩ := finish_main hv h
    exact ⟨rfl, rfl⟩
  | listener => cases hw

/-! The same with the value under the url, when both calls are about one url. -/

variable {u : String} (hsaved : c.saved.url = u) (hurl : c.list_url = u)
include hsaved hurl

theorem finish_read_found (hM : savedValue c.saved j = some vM)
    (hU : updatedValue c.received (db.get u) = some vU)
    (hMU : updatedValue c.received vM = some vMU)
    (h : Finishes c ts ⟨.read j, .found, db⟩ db') :
    (ts = [.main, .listener, .listener] ∧ db'.get u = vMU) ∨
    (ts = [.listener, .main, .listener] ∧ db'.get u = vU) ∨
    (ts = [.listener, .listener, .main] ∧ db'.get u = vM) := by
  obtain ⟨t, ts, w', rfl, hw, h⟩ := finishes_next h (.inl nofun)
  cases t with
  | main =>
    simp only [step, hM] at hw
    cases hw
    have hread : updatedValue c.received (Database.get (db.set c.saved.url vM) c.list_url) =
        some vMU := by
      rw [hsaved, hurl, Database.get_set_self]; exact hMU
    obtain ⟨rfl, rfl⟩ := finish_found hread h
    rw [hurl]
    exact .inl ⟨rfl, Database.get_set_self _ _ _⟩
  | listener =>
    cases hw
    rcases finish_both hM (.read (hurl ▸ hU)) h with ⟨rfl, rfl⟩ | ⟨rfl, rfl⟩
    · rw [hurl]
      exact .inr (.inl ⟨rfl, Database.get_set_self _ _ _⟩)
    · rw [hsaved]
      exact .inr (.inr ⟨rfl, Database.get_set_self _ _ _⟩)

theorem finish_start_ready {updater : Updater} (hM : savedValue c.saved (db.get u) = some vM)
    (hU : Ready c vU updater)
    (hUM : savedValue c.saved vU = some vUM)
    (h : Finishes c ts ⟨.start, updater, db⟩ db') :
    (ts = [.main, .main, .listener] ∧ db'.get u = vU) ∨
    (ts = [.main, .listener, .main] ∧ db'.get u = vM) ∨
    (ts = [.listener, .main, .main] ∧ db'.get u = vUM) := by
  obtain ⟨t, ts, w', rfl, hw, h⟩ := finishes_next h (.inl nofun)
  cases t with
  | main =>
    cases hw
    rcases finish_both (hsaved ▸ hM) hU h with ⟨rfl, rfl⟩ | ⟨rfl, rfl⟩
    · rw [hurl]
      exact .inl ⟨rfl, Database.get_set_self _ _ _⟩
    · rw [hsaved]
      exact .inr (.inl ⟨rfl, Database.get_set_self _ _ _⟩)
  | listener =>
    rw [hU.step db] at hw
    cases hw
    have hread : savedValue c.saved (Database.get (db.set c.list_url vU) c.saved.url) =
        some vUM := by
      rw [hsaved, hurl, Database.get_set_self]; exact hUM
    obtain ⟨rfl, rfl⟩ := finish_start hread h
    rw [hsaved]
    exact .inr (.inr ⟨rfl, Database.get_set_self _ _ _⟩)

/-- How two interleaved calls can end: one after the other, or with the write of one lost. -/
inductive Outcome (entry : Bool) (ts : List Thread) (v vM vU vMU vUM : Json) : Prop
  | apart (h : ¬ Overlaps entry ts) (hv : v = vMU ∨ v = vUM)
  | saved (h : Overlaps entry ts) (hlast : ts.getLast? = some .main) (hv : v = vM)
  | updated (h : Overlaps entry ts) (hlast : ts.getLast? = some .listener) (hv : v = vU)

omit hsaved in
/-- The main thread has finished before the listener begins. -/
theorem finish_saved (hMU : updatedValue c.received vM = some vMU)
    (h : Finishes c ts ⟨.done, .start, db.set u vM⟩ db') :
    ts = [.listener, .listener, .listener] ∧ db'.get u = vMU := by
  obtain ⟨t, ts, w', rfl, hw, h⟩ := finishes_next h (.inr nofun)
  cases t with
  | main => cases hw
  | listener =>
    simp only [step, hurl, Database.exist_set_self, if_true] at hw
    cases hw
    have hread : updatedValue c.received (Database.get (db.set u vM) c.list_url) = some vMU := by
      rw [hurl, Database.get_set_self]; exact hMU
    obtain ⟨rfl, rfl⟩ := finish_found hread h
    rw [hurl]
    exact ⟨rfl, Database.get_set_self _ _ _⟩

/-- **Every interleaving ends in one of these ways**, when there is an entry. `vM` and `vU` are
what the calls write when they read the database as it was, `vMU` and `vUM` what the second writes
after the first. -/
theorem finish_entry (hentry : db.exist u = true) (hM : savedValue c.saved (db.get u) = some vM)
    (hU : updatedValue c.received (db.get u) = some vU)
    (hMU : updatedValue c.received vM = some vMU) (hUM : savedValue c.saved vU = some vUM)
    (h : Finishes c ts (begin db) db') : Outcome true ts (db'.get u) vM vU vMU vUM := by
  obtain ⟨t, ts, w, rfl, hw, h⟩ := finishes_next h (.inl nofun)
  cases t with
  | main =>
    cases hw
    obtain ⟨t, ts, w, rfl, hw, h⟩ := finishes_next h (.inl nofun)
    cases t with
    | main =>
      -- the main thread reads and writes
      simp only [step, begin, hsaved, hM] at hw
      cases hw
      obtain ⟨rfl, hv⟩ := finish_saved hurl hMU h
      exact .apart (by decide) (.inl hv)
    | listener =>
      -- the main thread reads, the listener finds the entry
      simp only [step, begin, hurl, hentry, if_true] at hw
      cases hw
      rcases finish_read_found hsaved hurl (hsaved ▸ hM) hU hMU h with
        ⟨rfl, hv⟩ | ⟨rfl, hv⟩ | ⟨rfl, hv⟩
      · exact .apart (by decide) (.inl hv)
      · exact .updated (by decide) rfl hv
      · exact .saved (by decide) rfl hv
  | listener =>
    simp only [step, begin, hurl, hentry, if_true] at hw
    cases hw
    obtain ⟨t, ts, w, rfl, hw, h⟩ := finishes_next h (.inl nofun)
    cases t with
    | main =>
      -- the listener finds the entry, the main thread reads
      cases hw
      rcases finish_read_found hsaved hurl (hsaved ▸ hM) hU hMU h with
        ⟨rfl, hv⟩ | ⟨rfl, hv⟩ | ⟨rfl, hv⟩
      · exact .apart (by decide) (.inl hv)
      · exact .updated (by decide) rfl hv
      · exact .saved (by decide) rfl hv
    | listener =>
      -- the listener finds the entry and reads it
      cases hw
      rcases finish_start_ready hsaved hurl hM (.read (hurl ▸ hU)) hUM h with
        ⟨rfl, hv⟩ | ⟨rfl, hv⟩ | ⟨rfl, hv⟩
      · exact .updated (by decide) rfl hv
      · exact .saved (by decide) rfl hv
      · exact .apart (by decide) (.inr hv)

/-- The same when there is no entry yet. -/
theorem finish_no_entry (hentry : db.exist u = false)
    (hM : savedValue c.saved (db.get u) = some vM)
    (hU : createdValue c.uuid c.received = some vU)
    (hMU : updatedValue c.received vM = some vMU) (hUM : savedValue c.saved vU = some vUM)
    (h : Finishes c ts (begin db) db') : Outcome false ts (db'.get u) vM vU vMU vUM := by
  obtain ⟨t, ts, w, rfl, hw, h⟩ := finishes_next h (.inl nofun)
  cases t with
  | main =>
    cases hw
    obtain ⟨t, ts, w, rfl, hw, h⟩ := finishes_next h (.inl nofun)
    cases t with
    | main =>
      -- the main thread reads and writes
      simp only [step, begin, hsaved, hM] at hw
      cases hw
      obtain ⟨rfl, hv⟩ := finish_saved hurl hMU h
      exact .apart (by decide) (.inl hv)
    | listener =>
      -- the main thread reads, the listener finds nothing
      simp only [step, begin, hurl, hentry, Bool.false_eq_true, if_false] at hw
      cases hw
      rcases finish_both (hsaved ▸ hM) (.absent hU) h with ⟨rfl, rfl⟩ | ⟨rfl, rfl⟩
      · exact .updated (by decide) rfl (hurl ▸ Database.get_set_self _ _ _)
      · exact .saved (by decide) rfl (hsaved ▸ Database.get_set_self _ _ _)
  | listener =>
    -- the listener finds nothing
    simp only [step, begin, hurl, hentry, Bool.false_eq_true, if_false] at hw
    cases hw
    rcases finish_start_ready hsaved hurl hM (.absent hU) hUM h with
      ⟨rfl, hv⟩ | ⟨rfl, hv⟩ | ⟨rfl, hv⟩
    · exact .updated (by decide) rfl hv
    · exact .saved (by decide) rfl hv
    · exact .apart (by decide) (.inr hv)

end Finish

/-! ## The calls one after another -/

theorem run_saveListToLocal (c : Calls) (updater : Updater) (db : Database) :
    run c [.main, .main] ⟨.start, updater, db⟩ =
      (saveListToLocal db c.saved).map fun db' => ⟨.done, updater, db'⟩ := by
  unfold saveListToLocal
  simp only [run, List.foldlM_cons, step, Option.bind_eq_bind, Option.bind_some]
  cases savedValue c.saved (db.get c.saved.url) <;> rfl

theorem run_updateList (c : Calls) (saver : Saver) (db : Database) :
    run c (if db.exist c.list_url then [.listener, .listener, .listener]
        else [.listener, .listener]) ⟨saver, .start, db⟩ =
      (updateList db c.list_url c.uuid c.received).map fun db' => ⟨saver, .done, db'⟩ := by
  unfold updateList
  by_cases h : db.exist c.list_url = true
  · simp only [h, if_true, run, List.foldlM_cons, step, Option.bind_eq_bind, Option.bind_some]
    cases updatedValue c.received (db.get c.list_url) <;> rfl
  · rw [if_neg h, if_neg h]
    simp only [h, run, List.foldlM_cons, step, Option.bind_eq_bind, Option.bind_some]
    cases createdValue c.uuid c.received <;> rfl

/-! ## What the calls write -/

theorem savedValue_toJson {s : ShoppingList} (hs : s.WF) (l : ShoppingList) :
    savedValue l s.toJson = some (s.join l).2.toJson := by
  have hdecode := hs.fromJson_toJson "" "" ""
  have hempty : s.toJson.empty = false := rfl
  unfold savedValue ShoppingList.blank
  rw [hdecode, hempty]
  rfl

theorem updatedValue_toJson {s l : ShoppingList} (hs : s.WF) (hl : l.WF) :
    updatedValue l.toJson s.toJson = some (s.join l).2.toJson := by
  have hdecode := hs.fromJson_toJson "" "" ""
  unfold updatedValue ShoppingList.blank
  rw [hdecode, hl.fromJson_toJson "" "" ""]
  rfl

theorem createdValue_toJson (uuid : String) (l : ShoppingList) :
    createdValue uuid l.toJson = some (l.setId uuid).toJson := by
  unfold createdValue ShoppingList.toJson Json.set
  simp only [SortedMap.upsertEntry, lt_irrefl, if_false]
  rfl

/-! ## Keeping what lists bring -/

/-- The dot is live in the list or the list has not seen it. -/
def Intact (l : ShoppingList) (name : String) (d : Dot) : Prop :=
  (l.items.live name d).isSome ∨ l.items.context.contains d = false

/-- `after` has seen every dot that a list has seen, and holds every dot that is live in one of
them and intact in all. -/
structure Brings (ls : List ShoppingList) (after : ShoppingList) : Prop where
  contains : ∀ l ∈ ls, ∀ d, l.items.context.contains d = true →
    after.items.context.contains d = true
  live : ∀ name d, (∃ l ∈ ls, (l.items.live name d).isSome) → (∀ l ∈ ls, Intact l name d) →
    (after.items.live name d).isSome

/-- `l` is a join of the lists, as far as dots go. -/
structure Joins (ls : List ShoppingList) (l : ShoppingList) : Prop where
  wf : l.WF
  contains : ∀ d, l.items.context.contains d = true ↔
    ∃ o ∈ ls, o.items.context.contains d = true
  intact : ∀ name d, (∀ o ∈ ls, Intact o name d) → Intact l name d

theorem Intact.join {l o : ShoppingList} (hl : l.WF) (ho : o.WF) (ht : l.title = o.title)
    (hu : l.url = o.url) {name : String} {d : Dot} (h : Intact l name d) (h' : Intact o name d) :
    Intact (l.join o).2 name d := by
  unfold Intact
  rw [ShoppingList.join_of_header_eq ht hu]
  simp only
  rw [hl.items.live_join ho.items, ORMap.join_context,
    DotContext.contains_join_of_dc_empty hl.cloud ho.cloud]
  unfold Intact at h h'
  cases hlive : l.items.live name d <;> cases holive : o.items.live name d <;>
    simp_all [DotState.mergeLive]

theorem Joins.single {l : ShoppingList} (h : l.WF) : Joins [l] l :=
  ⟨h, fun d => by simp, fun name d h => h l List.mem_cons_self⟩

theorem Joins.join {ls : List ShoppingList} {l o : ShoppingList} (h : Joins ls l) (ho : o.WF)
    (ht : l.title = o.title) (hu : l.url = o.url) : Joins (o :: ls) (l.join o).2 := by
  refine ⟨h.wf.join ho, fun d => ?_, fun name d hall => ?_⟩
  · rw [ShoppingList.join_of_header_eq ht hu]
    simp only
    rw [ORMap.join_context, DotContext.contains_join_of_dc_empty h.wf.cloud ho.cloud,
      Bool.or_eq_true, h.contains, List.exists_mem_cons_iff, or_comm]
  · exact (h.intact name d fun p hp => hall p (List.mem_cons_of_mem _ hp)).join h.wf ho ht hu
      (hall o List.mem_cons_self)

/-- A list without items brings nothing. -/
theorem Joins.blank {ls : List ShoppingList} {l : ShoppingList} (h : Joins ls l) :
    Joins (ls ++ [ShoppingList.blank]) l := by
  refine ⟨h.wf, fun d => ?_, fun name d hall => ?_⟩
  · rw [h.contains]
    simp [ShoppingList.blank, ShoppingList.new]
  · exact h.intact name d fun o ho => hall o (List.mem_append_left _ ho)

/-- A join of some of the lists brings them all exactly if the others have seen nothing new. -/
theorem Joins.brings_iff {ls os : List ShoppingList} {l : ShoppingList} (h : Joins ls l)
    (hwf : ∀ o ∈ os, o.WF) (hsub : ∀ o ∈ ls, o ∈ os) :
    Brings os l ↔ ∀ o ∈ os, ∀ d, o.items.context.contains d = true →
      ∃ p ∈ ls, p.items.context.contains d = true := by
  constructor
  · intro hb o ho d hd
    exact (h.contains d).1 (hb.contains o ho d hd)
  · intro hseen
    refine ⟨fun o ho d hd => (h.contains d).2 (hseen o ho d hd), fun name d hlive hall => ?_⟩
    obtain ⟨o, ho, hsome⟩ := hlive
    have hin : l.items.context.contains d = true :=
      (h.contains d).2 (hseen o ho d ((hwf o ho).items.live_seen name d hsome))
    rcases h.intact name d fun p hp => hall p (hsub p hp) with hl | hl
    · exact hl
    · rw [hin] at hl
      cases hl

theorem Joins.setId {ls : List ShoppingList} {l : ShoppingList} (h : Joins ls l) (id : String) :
    Joins ls (l.setId id) :=
  ⟨h.wf.setId id, h.contains, h.intact⟩

/-- Joins and the lists that bring something do not depend on the order of the lists. -/
theorem Joins.perm {ls ls' : List ShoppingList} {l : ShoppingList} (h : Joins ls l)
    (hp : ls.Perm ls') : Joins ls' l := by
  refine ⟨h.wf, fun d => ?_, fun name d hall => ?_⟩
  · rw [h.contains]
    simp only [hp.mem_iff]
  · exact h.intact name d fun o ho => hall o (hp.mem_iff.1 ho)

/-! ## Lost updates -/

/-- A well-formed store, and well-formed lists for one url under one title. -/
structure Fits (db : Database) (c : Calls) (l : ShoppingList) : Prop where
  store : db.WF
  saved : c.saved.WF
  wf : l.WF
  received : c.received = l.toJson
  saved_url : c.saved.url = c.list_url
  url : l.url = c.list_url
  title : l.title = c.saved.title
  entry : db.exist c.list_url = true →
    (db.list c.list_url).title = c.saved.title ∧ (db.list c.list_url).url = c.list_url

namespace Fits

variable {db : Database} {c : Calls} {l : ShoppingList}

/-- With an entry, it is the encoding of a list; without, there is nothing to read. -/
theorem get_cases (h : Fits db c l) :
    (db.exist c.list_url = true ∧ db.get c.list_url = (db.list c.list_url).toJson) ∨
    (db.exist c.list_url = false ∧ db.get c.list_url = .null ∧
      db.list c.list_url = ShoppingList.blank) := by
  unfold Database.exist Database.get
  rcases h.store.cases c.list_url with ⟨hnone, hlist⟩ | ⟨hsome, -⟩
  · rw [hnone]
    exact .inr ⟨rfl, rfl, hlist⟩
  · rw [hsome]
    exact .inl ⟨rfl, rfl⟩

/-- What `saveListToLocal` writes if it comes first. -/
theorem saved_first (h : Fits db c l) : ∃ M : ShoppingList,
    savedValue c.saved (db.get c.list_url) = some M.toJson ∧
      Joins [c.saved, db.list c.list_url] M ∧ M.title = c.saved.title ∧ M.url = c.list_url := by
  rcases h.get_cases with ⟨hentry, hget⟩ | ⟨-, hget, hlist⟩
  · obtain ⟨ht, hu⟩ := h.entry hentry
    have hu' := hu.trans h.saved_url.symm
    have hs := h.store.list c.list_url
    refine ⟨((db.list c.list_url).join c.saved).2, ?_, ?_, ?_⟩
    · rw [hget]
      exact savedValue_toJson hs c.saved
    · exact (Joins.single hs).join h.saved ht hu'
    · rw [ShoppingList.join_of_header_eq ht hu']
      exact ⟨ht, hu⟩
  · refine ⟨c.saved, ?_, ?_, rfl, h.saved_url⟩
    · rw [hget]
      rfl
    · rw [hlist]
      exact (Joins.single h.saved).blank

/-- What `updateList` writes if it comes first. -/
theorem updated_first (h : Fits db c l) : ∃ U : ShoppingList,
    ((db.exist c.list_url = true ∧
        updatedValue c.received (db.get c.list_url) = some U.toJson) ∨
      (db.exist c.list_url = false ∧ createdValue c.uuid c.received = some U.toJson)) ∧
      Joins [l, db.list c.list_url] U ∧ U.title = l.title ∧ U.url = c.list_url := by
  rw [h.received]
  rcases h.get_cases with ⟨hentry, hget⟩ | ⟨hentry, -, hlist⟩
  · obtain ⟨ht, hu⟩ := h.entry hentry
    have ht' := ht.trans h.title.symm
    have hu' := hu.trans h.url.symm
    have hs := h.store.list c.list_url
    refine ⟨((db.list c.list_url).join l).2, .inl ⟨hentry, ?_⟩, ?_, ?_⟩
    · rw [hget]
      exact updatedValue_toJson hs h.wf
    · exact (Joins.single hs).join h.wf ht' hu'
    · rw [ShoppingList.join_of_header_eq ht' hu']
      exact ⟨ht', hu⟩
  · refine ⟨l.setId c.uuid, .inr ⟨hentry, createdValue_toJson c.uuid l⟩, ?_, rfl, h.url⟩
    rw [hlist]
    exact (Joins.single h.wf).blank.setId c.uuid

end Fits

/-- The list whose write comes first, and the one whose write comes last. -/
def overwritten (c : Calls) (l : ShoppingList) (ts : List Thread) : ShoppingList :=
  if ts.getLast? = some .main then l else c.saved

def surviving (c : Calls) (l : ShoppingList) (ts : List Thread) : ShoppingList :=
  if ts.getLast? = some .main then c.saved else l

theorem mem_writers {c : Calls} {s l o : ShoppingList} (ts : List Thread) :
    o ∈ [s, c.saved, l] ↔ o = s ∨ o = surviving c l ts ∨ o = overwritten c l ts := by
  unfold surviving overwritten
  simp only [List.mem_cons, List.not_mem_nil, or_false]
  split_ifs
  · exact Iff.rfl
  · exact or_congr_right or_comm

/-- What the store holds after the calls is a join of all three lists, or of the earlier entry and
the list written last when the calls overlap. -/
theorem Finishes.joins {db db' : Database} {c : Calls} {l : ShoppingList} {ts : List Thread}
    (hfit : Fits db c l) (h : Finishes c ts (begin db) db') :
    (¬ Overlaps (db.exist c.list_url) ts ∧
      Joins [db.list c.list_url, c.saved, l] (db'.list c.list_url)) ∨
    (Overlaps (db.exist c.list_url) ts ∧
      Joins [db.list c.list_url, surviving c l ts] (db'.list c.list_url)) := by
  obtain ⟨M, hM, hMjoins, hMtitle, hMurl⟩ := hfit.saved_first
  obtain ⟨U, hU, hUjoins, hUtitle, hUurl⟩ := hfit.updated_first
  have hMU : updatedValue c.received M.toJson = some (M.join l).2.toJson := by
    rw [hfit.received]
    exact updatedValue_toJson hMjoins.wf hfit.wf
  have hUM : savedValue c.saved U.toJson = some (U.join c.saved).2.toJson :=
    savedValue_toJson hUjoins.wf c.saved
  have hMUjoins := hMjoins.join hfit.wf (hMtitle.trans hfit.title.symm)
    (hMurl.trans hfit.url.symm)
  have hUMjoins := hUjoins.join hfit.saved (hUtitle.trans hfit.title)
    (hUurl.trans hfit.saved_url.symm)
  have hout : Outcome (db.exist c.list_url) ts (db'.get c.list_url) M.toJson U.toJson
      (M.join l).2.toJson (U.join c.saved).2.toJson := by
    rcases hU with ⟨hentry, hU⟩ | ⟨hentry, hU⟩
    · rw [hentry]
      exact finish_entry hfit.saved_url rfl hentry hM hU hMU hUM h
    · rw [hentry]
      exact finish_no_entry hfit.saved_url rfl hentry hM hU hMU hUM h
  cases hout with
  | apart ho hv =>
    refine .inl ⟨ho, ?_⟩
    rcases hv with hv | hv
    · rw [Database.list_of_get hMUjoins.wf hv]
      exact hMUjoins.perm (List.reverse_perm [db.list c.list_url, c.saved, l])
    · rw [Database.list_of_get hUMjoins.wf hv]
      exact hUMjoins.perm ((List.reverse_perm [db.list c.list_url, l, c.saved]).trans
        (.cons _ (.swap _ _ [])))
  | saved ho hlast hv =>
    refine .inr ⟨ho, ?_⟩
    rw [Database.list_of_get hMjoins.wf hv, surviving, if_pos hlast]
    exact hMjoins.perm (.swap _ _ [])
  | updated ho hlast hv =>
    have hlast' : ts.getLast? ≠ some .main := by rw [hlast]; decide
    refine .inr ⟨ho, ?_⟩
    rw [Database.list_of_get hUjoins.wf hv, surviving, if_neg hlast']
    exact hUjoins.perm (.swap _ _ [])

/-- The entry, the list the main thread saves with an item added, and the list that arrives. -/
def party : ShoppingList := .new "user1" "party" "msla-user1"

def savedParty : ShoppingList := (party.perform (.createItem "apple" 3)).2

def receivedParty : ShoppingList :=
  ((ShoppingList.new "user2" "party" "msla-user1").perform (.createItem "banana" 2)).2.setId ""

def partyCalls : Calls := ⟨"msla-user1", savedParty, receivedParty.toJson, "user3"⟩

def partyStore : Database := (∅ : Database).set "msla-user1" party.toJson

theorem party_fits : Fits partyStore partyCalls receivedParty := by
  have hparty : party.WF := ShoppingList.WF.new _ _ _
  have hlist : partyStore.list "msla-user1" = party := Database.list_set_self _ _ hparty
  have hentry : (partyStore.list "msla-user1").title = savedParty.title ∧
      (partyStore.list "msla-user1").url = "msla-user1" := by
    rw [hlist]
    exact ⟨rfl, rfl⟩
  exact ⟨Database.WF.empty.set _ hparty, hparty.perform _,
    ((ShoppingList.WF.new _ _ _).perform _).setId _, rfl, rfl, rfl, rfl, fun _ => hentry⟩

/-- Both calls read the entry, then the main thread writes, then the listener. -/
def overlapping : List Thread := [.main, .listener, .listener, .main, .listener]

theorem party_finishes : ∃ db', Finishes partyCalls overlapping (begin partyStore) db' := by
  have hparty : party.WF := ShoppingList.WF.new _ _ _
  have hget : partyStore.get "msla-user1" = party.toJson := Database.get_set_self _ _ _
  have hM : savedValue partyCalls.saved party.toJson = some (party.join savedParty).2.toJson :=
    savedValue_toJson hparty _
  have hU : updatedValue partyCalls.received party.toJson =
      some (party.join receivedParty).2.toJson :=
    updatedValue_toJson hparty party_fits.wf
  refine ⟨(partyStore.set "msla-user1" (party.join savedParty).2.toJson).set "msla-user1"
    (party.join receivedParty).2.toJson, ?_⟩
  -- both read, and then both write
  refine finishes_cons.2 ⟨⟨.read party.toJson, .start, partyStore⟩, by rw [← hget]; rfl, ?_⟩
  refine finishes_cons.2 ⟨⟨.read party.toJson, .found, partyStore⟩, rfl, ?_⟩
  refine finishes_cons.2 ⟨⟨.read party.toJson, .read party.toJson, partyStore⟩,
    by rw [← hget]; rfl, ?_⟩
  refine finishes_cons.2 ⟨_, by simp only [step, hM]; rfl, ?_⟩
  refine finishes_cons.2 ⟨_, by simp only [step, hU]; rfl, ?_⟩
  exact finishes_nil.2 rfl

end LocalStore

end ShoppingApp
