import ShoppingApp.Verify.ORMap
import ShoppingApp.Crdt.ShoppingList

/-!
# Well-formed shopping lists

A well-formed list (`ShoppingList.WF`) has a well-formed item map whose context has no dot cloud.
Every operation and every join keeps it, operations move the meaning of the items up, and a join
of lists with one title and url is the join of the meanings. What a user sees (`getQuantity`,
`contains`, `getItemsSet`) is read off the live dots.
-/

namespace ShoppingApp

open DotContext

namespace ShoppingList

/-- The item map is well formed and its context is a clock only. -/
structure WF (l : ShoppingList) : Prop where
  items : l.items.WF
  cloud : l.items.context.dc = ∅

theorem WF.new (id title url : String) : (ShoppingList.new id title url).WF :=
  ⟨ORMap.WF.empty, rfl⟩

theorem WF.blank : ShoppingList.blank.WF := WF.new "" "" ""

theorem WF.setId {l : ShoppingList} (h : l.WF) (id : String) : (l.setId id).WF :=
  ⟨h.items, h.cloud⟩

theorem WF.compacted {l : ShoppingList} (h : l.WF) : Compacted l.items.context :=
  Compacted.of_dc_empty h.cloud

/-- A dot that has been seen is below the clock. -/
theorem WF.vc_of_contains {l : ShoppingList} (h : l.WF) {d : Dot}
    (hd : l.items.context.contains d = true) :
    ∃ n, l.items.context.vc.find? d.first = some n ∧ d.second ≤ n := by
  rw [DotContext.contains_iff] at hd
  rcases hd with hcovers | hmem
  · exact hcovers
  · rw [h.cloud] at hmem
    cases hmem

/-! ## What a user sees -/

theorem getQuantity_eq (l : ShoppingList) (name : String) :
    l.getQuantity name = ((l.items.cellAt name).counter l.items.context).read := by
  unfold getQuantity ORMap.cellAt
  cases l.items.map.find? name <;> rfl

theorem contains_eq (l : ShoppingList) (name : String) :
    l.contains name = decide (l.getQuantity name > 0) := by
  unfold contains getQuantity
  cases l.items.map.find? name <;> rfl

theorem mem_getItemsSet {l : ShoppingList} {name : String} {q : Int} :
    (name, q) ∈ l.getItemsSet ↔ l.getQuantity name = q ∧ q > 0 := by
  unfold getItemsSet
  rw [List.mem_toFinset, List.mem_filter, List.mem_map]
  constructor
  · rintro ⟨⟨⟨k, cell⟩, hmem, heq⟩, hq⟩
    cases heq
    rw [← SortedMap.find?_eq_some] at hmem
    exact ⟨by rw [getQuantity, hmem], by simpa using hq⟩
  · rintro ⟨heq, hq⟩
    cases hk : l.items.map.find? name with
    | none =>
      simp only [getQuantity, hk] at heq
      omega
    | some cell =>
      rw [getQuantity, hk] at heq
      exact ⟨⟨_, (SortedMap.find?_eq_some _).1 hk, Prod.ext rfl heq⟩, by simpa using hq⟩

/-- Lists with the same live dots show the same quantities. -/
theorem getQuantity_congr {l o : ShoppingList} {name : String}
    (h : ∀ d, l.items.live name d = o.items.live name d) :
    l.getQuantity name = o.getQuantity name := by
  have hvalues : (l.items.cellAt name).values = (o.items.cellAt name).values :=
    SortedMap.ext_find h
  simp only [getQuantity_eq, CausalCounter.read, Cell.counter, hvalues]

theorem getItemsSet_congr {l o : ShoppingList}
    (h : ∀ name, l.getQuantity name = o.getQuantity name) : l.getItemsSet = o.getItemsSet := by
  ext ⟨name, q⟩
  rw [mem_getItemsSet, mem_getItemsSet, h]

/-! ## Operations -/

/-- What an operation can do: nothing, one `inc` or `dec`, or one removal. -/
theorem perform_cases (l : ShoppingList) (op : Op) :
    (l.perform op).2 = l ∨
    (∃ name f, (l.perform op).2 = l.modifyItem name fun c => c.rewrite l.id f) ∨
    ∃ name, (l.perform op).2 = { l with items := l.items.remove name } := by
  cases op with
  | createItem name quantity =>
    simp only [perform, createItem]
    split_ifs
    · exact .inl rfl
    · exact .inr (.inl ⟨name, (· + quantity), rfl⟩)
  | removeItem name =>
    simp only [perform, removeItem]
    split_ifs
    · exact .inl rfl
    · exact .inr (.inr ⟨name, rfl⟩)
  | increaseItem name quantity =>
    simp only [perform, increaseItem]
    split_ifs
    · exact .inl rfl
    · exact .inr (.inl ⟨name, (· + quantity), rfl⟩)
  | buyItem name quantity =>
    simp only [perform, buyItem]
    split_ifs
    · exact .inl rfl
    · exact .inr (.inl ⟨name, (· - quantity), rfl⟩)

theorem perform_header (l : ShoppingList) (op : Op) :
    (l.perform op).2.id = l.id ∧ (l.perform op).2.title = l.title ∧
      (l.perform op).2.url = l.url := by
  rcases l.perform_cases op with h | ⟨name, f, h⟩ | ⟨name, h⟩ <;> rw [h]
  · exact ⟨rfl, rfl, rfl⟩
  · exact ⟨rfl, rfl, rfl⟩
  · exact ⟨rfl, rfl, rfl⟩

theorem WF.perform {l : ShoppingList} (h : l.WF) (op : Op) : (l.perform op).2.WF := by
  rcases l.perform_cases op with heq | ⟨name, f, heq⟩ | ⟨name, heq⟩ <;> rw [heq]
  · exact h
  · refine ⟨h.items.modify h.cloud name l.id f, ?_⟩
    change (l.items.modify name fun c => c.rewrite l.id f).context.dc = ∅
    rw [ORMap.context_modify h.items, nextDot_dc, h.cloud]
  · exact ⟨h.items.remove name, h.cloud⟩

/-- Operations only move dots up. -/
theorem WF.sem_le_perform {l : ShoppingList} (h : l.WF) (op : Op) :
    l.items.sem.2 ≤ (l.perform op).2.items.sem.2 := by
  rcases l.perform_cases op with heq | ⟨name, f, heq⟩ | ⟨name, heq⟩ <;> rw [heq]
  · exact h.items.sem_le_modify h.cloud name l.id f
  · exact h.items.sem_le_remove name

/-! ## Joins -/

/-- Lists with one title and url always merge. -/
theorem join_of_header_eq {l o : ShoppingList} (ht : l.title = o.title) (hu : l.url = o.url) :
    l.join o = (true, { l with items := l.items.join o.items }) := by
  unfold join
  by_cases hblank : l.url = "" ∧ l.title = ""
  · rw [if_pos hblank]
    simp [ht, hu]
  · rw [if_neg hblank]
    simp [ht, hu]

/-- A list without title and url takes those of the other. -/
theorem join_of_blank {l o : ShoppingList} (ht : l.title = "") (hu : l.url = "") :
    l.join o = (true, ⟨l.id, o.title, o.url, l.items.join o.items⟩) := by
  have hblank : l.url = "" ∧ l.title = "" := ⟨hu, ht⟩
  unfold join
  simp [hblank]

/-- A join merges the items, with the other's title and url, or changes nothing. -/
theorem join_cases (l o : ShoppingList) :
    (l.join o = (true, ⟨l.id, o.title, o.url, l.items.join o.items⟩) ∧
      (l.title = o.title ∧ l.url = o.url ∨ l.title = "" ∧ l.url = "")) ∨
    (l.join o = (false, l) ∧ ¬(l.title = o.title ∧ l.url = o.url)) := by
  by_cases hsame : l.title = o.title ∧ l.url = o.url
  · left
    rw [join_of_header_eq hsame.1 hsame.2]
    exact ⟨by rw [hsame.1, hsame.2], .inl hsame⟩
  · by_cases hblank : l.url = "" ∧ l.title = ""
    · exact .inl ⟨join_of_blank hblank.2 hblank.1, .inr ⟨hblank.2, hblank.1⟩⟩
    · right
      refine ⟨?_, hsame⟩
      unfold join
      rw [if_neg hblank]
      exact if_pos (not_and_or.1 hsame)

theorem join_id (l o : ShoppingList) : (l.join o).2.id = l.id := by
  rcases join_cases l o with ⟨h, -⟩ | ⟨h, -⟩ <;> rw [h]

theorem join_items (l o : ShoppingList) :
    (l.join o).2.items = l.items.join o.items ∨ (l.join o).2.items = l.items := by
  rcases join_cases l o with ⟨h, -⟩ | ⟨h, -⟩ <;> rw [h]
  · exact .inl rfl
  · exact .inr rfl

/-- The titles and urls are the same, or `l` has neither. -/
def Matches (l o : ShoppingList) : Prop :=
  l.title = o.title ∧ l.url = o.url ∨ l.title = "" ∧ l.url = ""

/-- Whether a join is accepted depends on titles and urls only. -/
theorem join_fst_iff (l o : ShoppingList) : (l.join o).1 = true ↔ l.Matches o := by
  by_cases hblank : l.title = "" ∧ l.url = ""
  · rw [join_of_blank hblank.1 hblank.2]
    exact iff_of_true rfl (.inr hblank)
  · rcases join_cases l o with ⟨h, hmatches⟩ | ⟨h, hne⟩
    · rw [h]
      exact iff_of_true rfl hmatches
    · rw [h]
      exact iff_of_false Bool.false_ne_true (not_or.2 ⟨hne, hblank⟩)

theorem join_shared {l : ShoppingList} (hl : l.items.Shared) (o : ShoppingList) :
    (l.join o).2.items.Shared := by
  rcases join_items l o with h | h
  · rw [h]
    exact ORMap.Shared.join hl o.items
  · rw [h]
    exact hl

theorem WF.join {l o : ShoppingList} (hl : l.WF) (ho : o.WF) : (l.join o).2.WF := by
  rcases join_items l o with h | h
  · refine ⟨h ▸ hl.items.join ho.items, ?_⟩
    rw [h, ORMap.join_context, join_dc_empty hl.cloud ho.cloud]
  · exact ⟨h ▸ hl.items, h ▸ hl.cloud⟩

/-- The join of lists into a list without items. -/
def joinAll (ls : List ShoppingList) : ShoppingList := ls.foldl (fun l o => (l.join o).2) blank

theorem foldl_join_of_header_eq {title url : String} : ∀ {ls : List ShoppingList}
    {l : ShoppingList}, (∀ o ∈ ls, o.title = title ∧ o.url = url) → l.title = title →
    l.url = url → ls.foldl (fun l o => (l.join o).2) l =
      ⟨l.id, title, url, (ls.map ShoppingList.items).foldl ORMap.join l.items⟩
  | [], l, _, ht, hu => by cases l; cases ht; cases hu; rfl
  | o :: ls, l, h, ht, hu => by
    obtain ⟨hot, hou⟩ := h o List.mem_cons_self
    rw [List.foldl_cons, join_of_header_eq (ht.trans hot.symm) (hu.trans hou.symm)]
    exact foldl_join_of_header_eq (fun p hp => h p (List.mem_cons_of_mem _ hp)) ht hu

theorem joinAll_eq {title url : String} {ls : List ShoppingList} (hne : ls ≠ [])
    (h : ∀ o ∈ ls, o.title = title ∧ o.url = url) :
    joinAll ls = ⟨"", title, url, (ls.map ShoppingList.items).foldl ORMap.join ∅⟩ := by
  cases ls with
  | nil => exact absurd rfl hne
  | cons o ls =>
    obtain ⟨hot, hou⟩ := h o List.mem_cons_self
    rw [joinAll, List.foldl_cons, join_of_blank rfl rfl]
    exact foldl_join_of_header_eq (fun p hp => h p (List.mem_cons_of_mem _ hp)) hot hou

/-- Lists of the same lists have the same join. -/
theorem joinAll_congr {title url : String} {ls os : List ShoppingList}
    (hsame : ∀ l, l ∈ ls ↔ l ∈ os) (hheader : ∀ l ∈ ls, l.title = title ∧ l.url = url)
    (hwf : ∀ l ∈ ls, l.WF) (hagree : ∀ l ∈ ls, ∀ o ∈ ls, ORMap.Agree l.items o.items) :
    joinAll ls = joinAll os := by
  cases ls with
  | nil =>
    have hos : os = [] := List.eq_nil_iff_forall_not_mem.2 fun l hl =>
      List.not_mem_nil ((hsame l).2 hl)
    rw [hos]
  | cons l ls =>
    have hos : os ≠ [] := List.ne_nil_of_mem ((hsame l).1 List.mem_cons_self)
    rw [joinAll_eq (List.cons_ne_nil l ls) hheader,
      joinAll_eq hos fun o ho => hheader o ((hsame o).2 ho)]
    refine congrArg (ShoppingList.mk "" title url) (ORMap.foldl_join_congr ?_ ?_ ?_)
    · intro m
      simp only [List.mem_map, hsame]
    · intro m hm
      obtain ⟨o, ho, rfl⟩ := List.mem_map.1 hm
      exact (hwf o ho).items
    · intro m hm n hn
      obtain ⟨o, ho, rfl⟩ := List.mem_map.1 hm
      obtain ⟨p, hp, rfl⟩ := List.mem_map.1 hn
      exact hagree o ho p hp

/-! ## Where dots come from -/

/-- The item and the value each dot was made for. -/
abbrev Registry := Dot → Option (String × Int)

/-- Every live dot is under its item and value. -/
def Records (G : Registry) (l : ShoppingList) : Prop :=
  ∀ name d v, l.items.live name d = some v → G d = some (name, v)

theorem Records.new (G : Registry) (id title url : String) :
    Records G (ShoppingList.new id title url) := by
  intro name d v hv
  rw [ORMap.live_of_find?_none rfl] at hv
  cases hv

/-- Lists with one registry agree. -/
theorem Records.agree {G : Registry} {l o : ShoppingList} (hl : Records G l) (ho : Records G o) :
    ORMap.Agree l.items o.items := by
  intro name d v w hv hw
  have heq := (hl name d v hv).symm.trans (ho name d w hw)
  exact congrArg Prod.snd (Option.some.inj heq)

theorem Records.join {G : Registry} {l o : ShoppingList} (hwl : l.WF) (hwo : o.WF)
    (hl : Records G l) (ho : Records G o) : Records G (l.join o).2 := by
  intro name d v hv
  rcases join_items l o with h | h <;> rw [h] at hv
  · rcases hwl.items.live_join_eq_some hwo.items hv with hv | hv
    · exact hl name d v hv
    · exact ho name d v hv
  · exact hl name d v hv

/-- A new dot may be registered for anything. -/
theorem Records.update {G : Registry} {l : ShoppingList} (hwf : l.WF) (h : Records G l) {d : Dot}
    (hd : l.items.context.contains d = false) (x : Option (String × Int)) :
    Records (Function.update G d x) l := by
  intro name e v hv
  have hne : e ≠ d := by
    rintro rfl
    rw [hwf.items.seen hv] at hd
    cases hd
  rw [Function.update_of_ne hne]
  exact h name e v hv

/-- The dot that an operation of the list may make. -/
def nextDot (l : ShoppingList) : Dot := (l.items.context.nextDot l.id).1

theorem WF.nextDot_fresh {l : ShoppingList} (h : l.WF) :
    l.items.context.contains l.nextDot = false :=
  DotContext.nextDot_fresh h.cloud l.id

/-- An operation registers at most the next dot. -/
theorem Records.perform {G : Registry} {l : ShoppingList} (hwf : l.WF) (h : Records G l)
    (op : Op) : ∃ x, Records (Function.update G l.nextDot x) (l.perform op).2 := by
  rcases l.perform_cases op with heq | ⟨name, f, heq⟩ | ⟨name, heq⟩ <;> rw [heq]
  · exact ⟨none, h.update hwf hwf.nextDot_fresh none⟩
  · let value := f (((l.items.cellAt name).counter l.items.context).ownMax l.id)
    refine ⟨some (name, value), fun k d v hv => ?_⟩
    rcases hwf.items.live_modify_eq_some hwf.cloud hv with ⟨rfl, rfl, rfl⟩ | hv
    · exact Function.update_self _ _ _
    · exact h.update hwf hwf.nextDot_fresh _ k d v hv
  · refine ⟨none, fun k d v hv => ?_⟩
    have hlive : l.items.live k d = some v := by
      have hrem : (l.items.remove name).live k d = some v := hv
      rw [ORMap.live_remove] at hrem
      split_ifs at hrem
      exact hrem
    exact h.update hwf hwf.nextDot_fresh none k d v hlive

/-- An operation's context sees what it saw. -/
theorem WF.contains_perform {l : ShoppingList} (h : l.WF) (op : Op) {d : Dot}
    (hd : l.items.context.contains d = true) :
    (l.perform op).2.items.context.contains d = true := by
  rcases l.perform_cases op with heq | ⟨name, f, heq⟩ | ⟨name, heq⟩ <;> rw [heq]
  · exact hd
  · change (l.items.modify name fun c => c.rewrite l.id f).context.contains d = true
    rw [ORMap.context_modify h.items]
    exact contains_nextDot_of_contains hd
  · exact hd

/-- It sees nothing new but dots of its own id. -/
theorem WF.contains_of_perform {l : ShoppingList} (h : l.WF) {op : Op} {d : Dot}
    (hd : (l.perform op).2.items.context.contains d = true) :
    d.first = l.id ∨ l.items.context.contains d = true := by
  rcases l.perform_cases op with heq | ⟨name, f, heq⟩ | ⟨name, heq⟩ <;> rw [heq] at hd
  · exact .inr hd
  · have hctx : (l.items.modify name fun c => c.rewrite l.id f).context.contains d = true := hd
    rw [ORMap.context_modify h.items, contains_nextDot h.cloud] at hctx
    split_ifs at hctx with hid
    · exact .inl hid
    · exact .inr hctx
  · exact .inr hd

theorem WF.contains_of_join {l o : ShoppingList} (hl : l.WF) (ho : o.WF) {d : Dot}
    (hd : (l.join o).2.items.context.contains d = true) :
    l.items.context.contains d = true ∨ o.items.context.contains d = true := by
  rcases join_items l o with h | h <;> rw [h] at hd
  · rw [ORMap.join_context, contains_join_of_dc_empty hl.cloud ho.cloud, Bool.or_eq_true] at hd
    exact hd
  · exact .inl hd

theorem WF.contains_join_left {l o : ShoppingList} (hl : l.WF) (ho : o.WF) {d : Dot}
    (hd : l.items.context.contains d = true) :
    (l.join o).2.items.context.contains d = true := by
  rcases join_items l o with h | h <;> rw [h]
  · rw [ORMap.join_context, contains_join_of_dc_empty hl.cloud ho.cloud, hd, Bool.true_or]
  · exact hd

/-! ## One live dot for each replica -/

/-- Live dots are numbered from 1, and no item has two of one replica. -/
structure Single (l : ShoppingList) : Prop where
  pos : ∀ {name d v}, l.items.live name d = some v → 0 < d.second
  unique : ∀ {name d e v w}, l.items.live name d = some v → l.items.live name e = some w →
    d.first = e.first → d = e

theorem Single.new (id title url : String) : Single (ShoppingList.new id title url) := by
  constructor
  · intro name d v hv
    rw [ORMap.live_of_find?_none rfl] at hv
    cases hv
  · intro name d e v w hv
    rw [ORMap.live_of_find?_none rfl] at hv
    cases hv

theorem Single.perform {l : ShoppingList} (hwf : l.WF) (h : Single l) (op : Op) :
    Single (l.perform op).2 := by
  rcases l.perform_cases op with heq | ⟨name, f, heq⟩ | ⟨name, heq⟩ <;> rw [heq]
  · exact h
  · constructor
    · intro k d v hv
      rcases hwf.items.live_modify_eq_some hwf.cloud hv with ⟨-, rfl, -⟩ | hv
      · exact hwf.items.nonNeg.nextDot_pos _
      · exact h.pos hv
    · intro k d e v w hv hw hfirst
      have hnew : ∀ {d v}, (l.modifyItem name fun c => c.rewrite l.id f).items.live k d = some v →
          l.items.live k d = some v ∧ (k = name → d.first ≠ l.id) ∨ k = name ∧ d = l.nextDot := by
        intro d v hd
        rw [modifyItem, hwf.items.live_modify hwf.cloud] at hd
        split_ifs at hd with hk hd' hid
        · exact .inr ⟨hk, hd'⟩
        · exact .inl ⟨hk ▸ hd, fun _ => hid⟩
        · exact .inl ⟨hd, fun hk' => absurd hk' hk⟩
      have hself : l.nextDot.first = l.id := DotContext.nextDot_first _ _
      rcases hnew hv with ⟨hv, hd⟩ | ⟨hk, rfl⟩ <;> rcases hnew hw with ⟨hw, he⟩ | ⟨hk', rfl⟩
      · exact h.unique hv hw hfirst
      · exact absurd (hfirst.trans hself) (hd hk')
      · exact absurd (hfirst.symm.trans hself) (he hk)
      · rfl
  · have hlive : ∀ {k d v}, (l.items.remove name).live k d = some v → l.items.live k d = some v := by
      intro k d v hv
      rw [ORMap.live_remove] at hv
      split_ifs at hv
      exact hv
    exact ⟨fun hv => h.pos (hlive hv), fun hv hw => h.unique (hlive hv) (hlive hw)⟩

/-- A dot that stays live in a join is live on every side that has seen it. -/
theorem WF.live_of_contains {l o : ShoppingList} (hl : l.WF) (ho : o.WF) {name : String} {d : Dot}
    {v : Int} (hv : (l.items.join o.items).live name d = some v) :
    (l.items.context.contains d = true → ∃ w, l.items.live name d = some w) ∧
      (o.items.context.contains d = true → ∃ w, o.items.live name d = some w) := by
  rw [hl.items.live_join ho.items] at hv
  cases hld : l.items.live name d with
  | some w =>
    cases hod : o.items.live name d with
    | some x => exact ⟨fun _ => ⟨w, rfl⟩, fun _ => ⟨x, rfl⟩⟩
    | none =>
      rw [hld, hod] at hv
      refine ⟨fun _ => ⟨w, rfl⟩, fun hseen => ?_⟩
      simp [DotState.mergeLive, hseen] at hv
  | none =>
    cases hod : o.items.live name d with
    | some x =>
      rw [hld, hod] at hv
      refine ⟨fun hseen => ?_, fun _ => ⟨x, rfl⟩⟩
      simp [DotState.mergeLive, hseen] at hv
    | none =>
      rw [hld, hod] at hv
      simp [DotState.mergeLive] at hv

theorem Single.join {l o : ShoppingList} (hwl : l.WF) (hwo : o.WF) (hl : Single l)
    (ho : Single o) : Single (l.join o).2 := by
  rcases join_items l o with heq | heq
  · constructor
    · intro name d v hv
      rw [heq] at hv
      rcases hwl.items.live_join_eq_some hwo.items hv with hv | hv
      · exact hl.pos hv
      · exact ho.pos hv
    · -- the side that has the later dot has seen the earlier one, so it has both live
      have hle : ∀ {name d e v w}, (l.items.join o.items).live name d = some v →
          (l.items.join o.items).live name e = some w → d.first = e.first →
          d.second ≤ e.second → d = e := by
        intro name d e v w hv hw hfirst hle
        have hboth := hwl.live_of_contains hwo hv
        rcases hwl.items.live_join_eq_some hwo.items hw with he | he
        · have hseen := DotContext.contains_of_le hwl.cloud (hwl.items.seen he) hfirst hle
          obtain ⟨x, hx⟩ := hboth.1 hseen
          exact hl.unique hx he hfirst
        · have hseen := DotContext.contains_of_le hwo.cloud (hwo.items.seen he) hfirst hle
          obtain ⟨x, hx⟩ := hboth.2 hseen
          exact ho.unique hx he hfirst
      intro name d e v w hv hw hfirst
      rw [heq] at hv hw
      rcases le_total d.second e.second with h | h
      · exact hle hv hw hfirst h
      · exact (hle hw hv hfirst.symm h).symm
  · constructor
    · intro name d v hv
      rw [heq] at hv
      exact hl.pos hv
    · intro name d e v w hv hw hfirst
      rw [heq] at hv hw
      exact hl.unique hv hw hfirst

/-! ## What a change of a list keeps -/

/-- `after` has seen all that `before` has, and holds all its live dots but those that `r` has
seen. -/
structure Keeps (r before after : ShoppingList) : Prop where
  contains : ∀ d, before.items.context.contains d = true → after.items.context.contains d = true
  live : ∀ name d v, before.items.live name d = some v →
    after.items.live name d = some v ∨ r.items.context.contains d = true

theorem Keeps.refl (r l : ShoppingList) : Keeps r l l :=
  ⟨fun _ h => h, fun _ _ _ h => .inl h⟩

theorem Keeps.trans {r l m n : ShoppingList} (h : Keeps r l m) (h' : Keeps r m n) :
    Keeps r l n := by
  refine ⟨fun d hd => h'.contains d (h.contains d hd), fun name d v hv => ?_⟩
  rcases h.live name d v hv with hm | hseen
  · exact h'.live name d v hm
  · exact .inr hseen

/-- Only the items matter. -/
theorem Keeps.congr {r l m n : ShoppingList} (h : Keeps r l m) (hitems : n.items = m.items) :
    Keeps r l n :=
  ⟨fun d hd => hitems ▸ h.contains d hd, fun name d v hv => hitems ▸ h.live name d v hv⟩

/-- A join keeps what is on its left. -/
theorem keeps_join {l o : ShoppingList} (hl : l.items.Shared) (ho : o.items.Shared) :
    Keeps o l (l.join o).2 := by
  rcases join_items l o with h | h
  · refine ⟨fun d hd => ?_, fun name d v hv => ?_⟩
    · rw [h, ORMap.join_context]
      exact DotContext.contains_join_of_or (.inl hd)
    · rw [h, hl.live_join ho, hv]
      cases ho' : o.items.live name d with
      | some w => exact .inl rfl
      | none =>
        cases hseen : o.items.context.contains d with
        | true => exact .inr rfl
        | false => exact .inl rfl
  · exact (Keeps.refl o l).congr h

/-- `r` has seen every dot that `l` has seen or holds. -/
structure Seen (r l : ShoppingList) : Prop where
  contains : ∀ d, l.items.context.contains d = true → r.items.context.contains d = true
  live : ∀ name d v, l.items.live name d = some v → r.items.context.contains d = true

/-- A list that replaces another keeps it exactly if it has seen all that is in it. -/
theorem WF.keeps_self_iff {l r : ShoppingList} (hr : r.WF) : Keeps r l r ↔ Seen r l := by
  refine ⟨fun h => ⟨h.contains, fun name d v hv => ?_⟩,
    fun h => ⟨h.contains, fun name d v hv => .inr (h.live name d v hv)⟩⟩
  rcases h.live name d v hv with hlive | hseen
  · exact hr.items.seen hlive
  · exact hseen

end ShoppingList

end ShoppingApp
