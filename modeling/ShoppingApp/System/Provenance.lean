import ShoppingApp.System.Identity
import ShoppingApp.System.Replicas

/-!
# Where the contents of lists come from

No step puts anything into a list that no user's session had. What a list shows, wherever it is, is
what the merge of lists shows that sessions have had (`shows_sessions`): no message order,
repetition or loss, and no restart from a stored entry, makes an item or a quantity appear.

Each step makes lists in a few ways only (`Made`), and the merge of session lists means the least
upper bound of what they mean, so the lists that are made of session lists are closed under them.
-/

namespace ShoppingApp

open Replication (Run Recording)

namespace ORMap

variable {K : Type*} [LinearOrder K]

theorem agree_empty (m : ORMap K) : Agree ∅ m := by
  intro k d v w hv
  rw [live_of_find?_none rfl] at hv
  cases hv

end ORMap

namespace ShoppingList

/-- What the list's dots mean. -/
abbrev meaning (l : ShoppingList) : Replicas.Meaning := l.items.sem.2

/-- Lists of one url that there may be side by side. -/
structure Kin (ls : Set ShoppingList) : Prop where
  wf : ∀ l ∈ ls, l.WF
  title : ∀ l ∈ ls, ∀ o ∈ ls, l.url = o.url → l.title = o.title
  agree : ∀ l ∈ ls, ∀ o ∈ ls, l.url = o.url → ORMap.Agree l.items o.items

theorem Kin.mono {ls os : Set ShoppingList} (h : Kin os) (hsub : ls ⊆ os) : Kin ls :=
  ⟨fun l hl => h.wf l (hsub hl), fun l hl o ho => h.title l (hsub hl) o (hsub ho),
    fun l hl o ho => h.agree l (hsub hl) o (hsub ho)⟩

theorem meaning_blank : blank.meaning = ⊥ := by
  refine Prod.ext (funext fun d => ?_) (funext fun k => funext fun d => ?_)
  · exact DotContext.contains_empty d.1
  · change DotState.of none ((∅ : DotContext).contains d.1) = _
    rw [DotContext.contains_empty]
    rfl

variable {ls : Set ShoppingList} {es : List ShoppingList} {url : String}

/-- **A merge of lists means the least upper bound of what they mean.** -/
theorem Kin.meaning_joinAll_le_iff (h : Kin ls) (hes : ∀ e ∈ es, e ∈ ls ∧ e.url = url)
    {x : Replicas.Meaning} : (joinAll es).meaning ≤ x ↔ ∀ e ∈ es, e.meaning ≤ x := by
  cases es with
  | nil =>
    rw [show joinAll [] = blank from rfl, meaning_blank]
    exact ⟨fun _ e he => absurd he List.not_mem_nil, fun _ => bot_le⟩
  | cons e es =>
    obtain ⟨hel, heu⟩ := hes e List.mem_cons_self
    have hheader : ∀ o ∈ e :: es, o.title = e.title ∧ o.url = url := fun o ho =>
      ⟨h.title o (hes o ho).1 e hel ((hes o ho).2.trans heu.symm), (hes o ho).2⟩
    have hfold := @ORMap.WF.sem_foldl_join_le_iff _ _ ∅ ORMap.WF.empty (⊤, x)
      ((e :: es).map ShoppingList.items) (fun m hm => ?_) (fun m _ => ORMap.agree_empty m)
      fun m hm n hn => ?_
    · rw [joinAll_eq (List.cons_ne_nil e es) hheader]
      have hempty : (∅ : ORMap String).sem ≤ (⊤, x) := ⟨le_top, meaning_blank.trans_le bot_le⟩
      have hle : ∀ m : ORMap String, m.sem ≤ (⊤, x) ↔ m.sem.2 ≤ x := fun m =>
        ⟨fun hm => hm.2, fun hm => ⟨le_top, hm⟩⟩
      rw [hle] at hfold
      rw [meaning, hfold]
      simp only [hempty, true_and, List.forall_mem_map, hle]
    · obtain ⟨o, ho, rfl⟩ := List.mem_map.1 hm
      exact (h.wf o (hes o ho).1).items
    · obtain ⟨o, ho, rfl⟩ := List.mem_map.1 hm
      obtain ⟨p, hp, rfl⟩ := List.mem_map.1 hn
      exact h.agree o (hes o ho).1 p (hes p hp).1 ((hes o ho).2.trans (hes p hp).2.symm)

theorem Kin.meaning_append {fs : List ShoppingList} (h : Kin ls)
    (hes : ∀ e ∈ es, e ∈ ls ∧ e.url = url) (hfs : ∀ e ∈ fs, e ∈ ls ∧ e.url = url) :
    (joinAll (es ++ fs)).meaning = (joinAll es).meaning ⊔ (joinAll fs).meaning := by
  refine eq_of_forall_ge_iff fun x => ?_
  have hall : ∀ e ∈ es ++ fs, e ∈ ls ∧ e.url = url := fun e he =>
    (List.mem_append.1 he).elim (hes e) (hfs e)
  rw [h.meaning_joinAll_le_iff hall, sup_le_iff, h.meaning_joinAll_le_iff hes,
    h.meaning_joinAll_le_iff hfs, List.forall_mem_append]

theorem Kin.meaning_single {l : ShoppingList} (h : Kin ls) (hl : l ∈ ls) :
    (joinAll [l]).meaning = l.meaning := by
  refine eq_of_forall_ge_iff fun x => ?_
  rw [h.meaning_joinAll_le_iff (fun e he => ?_ : ∀ e ∈ [l], e ∈ ls ∧ e.url = l.url),
    List.forall_mem_singleton]
  obtain rfl := List.mem_singleton.1 he
  exact ⟨hl, rfl⟩

theorem joinAll_wf (hwf : ∀ e ∈ es, e.WF) : (joinAll es).WF := by
  have hfold : ∀ (es : List ShoppingList) (l : ShoppingList), l.WF → (∀ e ∈ es, e.WF) →
      (es.foldl (fun l o => (l.join o).2) l).WF := by
    intro es
    induction es with
    | nil => exact fun l hl _ => hl
    | cons e es ih =>
      exact fun l hl hes => ih _ (hl.join (hes e List.mem_cons_self)) fun f hf =>
        hes f (List.mem_cons_of_mem _ hf)
  exact hfold es blank WF.blank hwf

/-- The lists show the same quantities and items and have seen the same dots. -/
structure Shows (l o : ShoppingList) : Prop where
  quantity : ∀ name, l.getQuantity name = o.getQuantity name
  items : l.getItemsSet = o.getItemsSet
  context : l.items.context = o.items.context

theorem WF.shows {l o : ShoppingList} (hl : l.WF) (ho : o.WF) (h : l.meaning = o.meaning) :
    Shows l o := by
  have hquantity : ∀ name, l.getQuantity name = o.getQuantity name := fun name =>
    getQuantity_congr (ORMap.live_eq_of_meaning_eq hl.items ho.items h name)
  exact ⟨hquantity, getItemsSet_congr hquantity,
    ORMap.context_eq_of_meaning_eq hl.items ho.items h hl.compacted ho.compacted⟩

end ShoppingList

theorem Lists.Sound.kin {g : Lists} {used : Set String} (h : g.Sound used) :
    ShoppingList.Kin g.all where
  wf := h.wf
  title l hl o ho hurl := by rw [h.title l hl, h.title o ho, hurl]
  agree l hl o ho hurl := (h.records l hl).agree (hurl ▸ h.records o ho)

namespace World

variable {κ ω : Type*} {text : JsonText} {g : Lists} {s t : World κ ω} {l : ShoppingList}

/-- The lists that sessions have. -/
def sessions (s : World κ ω) : Set ShoppingList :=
  {l | ∃ i, (s.clients i).currentShoppingList = some l}

/-! ## What the writes of a step can show -/

theorem eq_of_fromJson {k : ShoppingList} (hk : k.WF)
    (h : ShoppingList.fromJson k.toJson ShoppingList.blank = some l) : l = k := by
  rw [ShoppingList.blank, hk.fromJson_toJson] at h
  exact (Option.some.inj h).symm

theorem Occurs.of_uuids {uuids : List (κ × String)} (h : Occurs text { s with uuids := uuids } l) :
    Occurs text s l := by
  cases h with
  | entry i url j hj hl => exact .entry i url j hj hl
  | session i hl => exact .session i hl
  | stored w url j hj hl => exact .stored w url j hj hl
  | request q j hq hj hl => exact .request q j hq hj hl
  | publication url shown j hp hj hl => exact .publication url shown j hp hj hl

theorem Occurs.of_sendIf {cloud_mode : Bool} {q : ListRequest}
    (h : Occurs text (s.sendIf cloud_mode q) l) :
    Occurs text s l ∨ cloud_mode = true ∧ ∃ j, q.json text = some j ∧
      ShoppingList.fromJson j ShoppingList.blank = some l := by
  cases cloud_mode with
  | false => exact .inl h
  | true =>
    cases h with
    | entry i url j hj hl => exact .inl (.entry i url j hj hl)
    | session i hl => exact .inl (.session i hl)
    | stored w url j hj hl => exact .inl (.stored w url j hj hl)
    | request q' j hq hj hl =>
      rcases List.mem_cons.1 hq with rfl | hq
      · exact .inr ⟨rfl, j, hj, hl⟩
      · exact .inl (.request q' j hq hj hl)
    | publication url shown j hp hj hl => exact .inl (.publication url shown j hp hj hl)

variable [DecidableEq κ] [DecidableEq ω]

omit [DecidableEq ω] in
theorem Occurs.of_setClient {i : κ} {c : ClientState} (h : Occurs text (s.setClient i c) l) :
    Occurs text s l ∨ c.currentShoppingList = some l ∨ ∃ url j, c.db.find? url = some j ∧
      ShoppingList.fromJson j ShoppingList.blank = some l := by
  have hself : (s.setClient i c).clients i = c := Function.update_self _ _ _
  have hrest : ∀ k, k ≠ i → (s.setClient i c).clients k = s.clients k := fun k hk =>
    Function.update_of_ne hk _ _
  cases h with
  | entry k url j hj hl =>
    by_cases hk : k = i
    · subst hk
      rw [hself] at hj
      exact .inr (.inr ⟨url, j, hj, hl⟩)
    · rw [hrest k hk] at hj
      exact .inl (.entry k url j hj hl)
  | session k hl =>
    by_cases hk : k = i
    · subst hk
      rw [hself] at hl
      exact .inr (.inl hl)
    · rw [hrest k hk] at hl
      exact .inl (.session k hl)
  | stored w url j hj hl => exact .inl (.stored w url j hj hl)
  | request q j hq hj hl => exact .inl (.request q j hq hj hl)
  | publication url shown j hp hj hl => exact .inl (.publication url shown j hp hj hl)

omit [DecidableEq ω] in
theorem Occurs.of_pick {i : κ} {url : String} (h : Occurs text (s.pick i url) l) :
    Occurs text s l := by
  cases h with
  | entry i url j hj hl => exact .entry i url j hj hl
  | session i hl => exact .session i hl
  | stored w url j hj hl => exact .stored w url j hj hl
  | request q j hq hj hl => exact .request q j hq hj hl
  | publication url shown j hp hj hl => exact .publication url shown j hp hj hl

omit [DecidableEq κ] in
/-- What a worker's new store and its publication show. -/
theorem Occurs.of_handle {w : ω} {db : Database} {list_url shopping_list : String}
    (h : Occurs text { s with
      workers := Function.update s.workers w db
      published := if shopping_list ≠ "" then
        (list_url, shopping_list) :: s.published else s.published } l) :
    Occurs text s l ∨
      (∃ url j, db.find? url = some j ∧
        ShoppingList.fromJson j ShoppingList.blank = some l) ∨
      shopping_list ≠ "" ∧ ∃ j, text.getJsonFromUString shopping_list = some j ∧
        ShoppingList.fromJson j ShoppingList.blank = some l := by
  cases h with
  | entry i url j hj hl => exact .inl (.entry i url j hj hl)
  | session i hl => exact .inl (.session i hl)
  | stored v url j hj hl =>
    have hfind : (Function.update s.workers w db v).find? url = some j := hj
    by_cases hv : v = w
    · subst hv
      rw [Function.update_self] at hfind
      exact .inr (.inl ⟨url, j, hfind, hl⟩)
    · rw [Function.update_of_ne hv] at hfind
      exact .inl (.stored v url j hfind hl)
  | request q j hq hj hl => exact .inl (.request q j hq hj hl)
  | publication url shown j hp hj hl =>
    have hmem : (url, shown) ∈ if shopping_list ≠ "" then
      (list_url, shopping_list) :: s.published else s.published := hp
    split_ifs at hmem with hshown
    · rcases List.mem_cons.1 hmem with hmem | hmem
      · cases hmem
        exact .inr (.inr ⟨hshown, j, hj, hl⟩)
      · exact .inl (.publication url shown j hmem hj hl)
    · exact .inl (.publication url shown j hmem hj hl)

/-! ## What each write stores -/

omit [DecidableEq κ] [DecidableEq ω] in
/-- What `saveListToLocal` stores is the merge of the stored list and the session's. -/
theorem Tracked.saved (h : Tracked text g s) {i : κ} {e : ShoppingList} {db : Database}
    (he : (s.clients i).currentShoppingList = some e)
    (hdb : LocalStore.saveListToLocal (s.clients i).db e = some db) :
    ∃ k ∈ g.all, s.Holds i k ∧ k.url = e.url ∧
      db = (s.clients i).db.set e.url ({ k with items := k.items.join e.items }).toJson := by
  obtain ⟨hmem, -, k, hk, hholds, hurl, -⟩ := h.session i e he
  obtain ⟨hjoin, -⟩ := (h.sound.derives hk).join (h.sound.derives hmem) hurl
  unfold LocalStore.saveListToLocal at hdb
  rw [← hurl, Tracked.get_of_holds hholds, LocalStore.savedValue_toJson (h.sound.wf k hk),
    hjoin] at hdb
  cases hdb
  exact ⟨k, hk, hholds, hurl, congrArg (fun url => (s.clients i).db.set url _) hurl⟩

omit [DecidableEq κ] [DecidableEq ω] in
/-- What `updateList` stores is the merge of the held list and the published one, or the published
one under a new identifier. -/
theorem Tracked.listened (h : Tracked text g s) {i : κ} {list_url shopping_list uuid : String}
    {j : Json} {db : Database} (hp : (list_url, shopping_list) ∈ s.published)
    (hj : text.getJsonFromUString shopping_list = some j)
    (hdb : LocalStore.updateList (s.clients i).db list_url uuid j = some db) :
    ∃ r ∈ g.all, r.url = list_url ∧ j = r.toJson ∧
      ((∃ k ∈ g.all, s.Holds i k ∧ k.url = r.url ∧
          db = (s.clients i).db.set r.url ({ k with items := k.items.join r.items }).toJson) ∨
        (s.clients i).db.find? r.url = none ∧
          db = (s.clients i).db.set r.url (r.setId uuid).toJson) := by
  obtain ⟨r, hr, rfl, -, hread⟩ := h.published list_url shopping_list hp
  obtain rfl : r.toJson = j := Option.some.inj (hread.symm.trans hj)
  refine ⟨r, hr, rfl, rfl, ?_⟩
  unfold LocalStore.updateList at hdb
  split_ifs at hdb with hexist
  · obtain ⟨v, hv⟩ := Option.isSome_iff_exists.1 hexist
    obtain ⟨k, hk, rfl, hurl, -⟩ := h.entry i r.url v hv
    have hholds : s.Holds i k := by
      unfold Holds
      rw [hurl]
      exact hv
    obtain ⟨hjoin, -⟩ := (h.sound.derives hk).join (h.sound.derives hr) hurl
    rw [← hurl, Tracked.get_of_holds hholds, LocalStore.updatedValue_toJson (h.sound.wf k hk)
      (h.sound.wf r hr), hjoin] at hdb
    cases hdb
    exact .inl ⟨k, hk, hholds, hurl, congrArg (fun url => (s.clients i).db.set url _) hurl⟩
  · have habsent : (s.clients i).db.find? r.url = none := by
      unfold Database.exist at hexist
      rwa [Bool.not_eq_true, Option.isSome_eq_false_iff, Option.isNone_iff_eq_none] at hexist
    rw [LocalStore.createdValue_toJson] at hdb
    cases hdb
    exact .inr ⟨habsent, rfl⟩

/-- The value that a request brings is that of its list. -/
theorem json_of_carries {q : ListRequest} {r : ShoppingList}
    (hcarries : RequestHandler.Carries text q.request_type q.body r)
    (htype : q.request_type = "CREATE_LIST" ∨ q.request_type = "UPDATE_LIST") :
    q.json text = some r.toJson := by
  unfold ListRequest.json
  rcases htype with htype | htype
  · obtain ⟨name, body, rest, hbody, hread⟩ := hcarries.1 htype
    rw [if_pos htype, hbody]
    exact hread
  · have hne : q.request_type ≠ "CREATE_LIST" := by
      rw [htype]
      decide
    obtain ⟨body, rest, hbody, hread⟩ := hcarries.2 htype
    rw [if_neg hne, if_pos htype, hbody]
    exact hread

/-- What worker `w` has after a request: what it had, the list that came without its identifier, or
the merge of the stored list and the one that came. -/
inductive Handled (text : JsonText) (g : Lists) (s : World κ ω) (w : ω) (q : ListRequest)
    (db : Database) : Prop
  | read (hcreate : q.request_type ≠ "CREATE_LIST") (hupdate : q.request_type ≠ "UPDATE_LIST")
      (hdb : db = s.workers w)
  | first (r : ShoppingList) (hr : r ∈ g.all) (hjson : q.json text = some r.toJson)
      (hurl : r.url = q.url_list)
      (hnew : q.request_type = "CREATE_LIST" ∨ (s.workers w).find? r.url = none)
      (hdb : db = (s.workers w).set r.url (r.setId "").toJson)
  | merge (k r : ShoppingList) (hk : k ∈ g.all) (hr : r ∈ g.all)
      (hjson : q.json text = some r.toJson) (hurl : r.url = q.url_list)
      (hstored : (s.workers w).find? r.url = some k.toJson) (hku : k.url = r.url)
      (hdb : db = (s.workers w).set r.url ({ k with items := k.items.join r.items }).toJson)

omit [DecidableEq κ] [DecidableEq ω] in
theorem Tracked.handled (h : Tracked text g s) {w : ω} {q : ListRequest} {res : Response}
    {db : Database} (hq : q ∈ s.requests)
    (hres : RequestHandler.handleRequest text q.url_list q.request_type q.body (s.workers w) =
      some (res, db)) :
    Handled text g s w q db ∧ (res.shopping_list ≠ "" → ∃ j, db.find? q.url_list = some j ∧
      res.shopping_list = text.getStringFromJson j) := by
  rcases h.request q hq with hget | ⟨r, hr, hurl, hcarries⟩
  · have hcreate : q.request_type ≠ "CREATE_LIST" := by
      rw [hget]
      decide
    have hupdate : q.request_type ≠ "UPDATE_LIST" := by
      rw [hget]
      decide
    obtain ⟨hdb, hshown⟩ := RequestHandler.handleRequest_shows (h.store_wf w) .blank
      ⟨fun hc => absurd hc hcreate, fun hc => absurd hc hupdate⟩ (fun hc => absurd hc hcreate) hres
    unfold RequestHandler.storeAfter at hdb
    rw [if_neg hcreate, if_neg hupdate] at hdb
    exact ⟨.read hcreate hupdate hdb, hshown⟩
  · have hwr := h.sound.wf r hr
    obtain ⟨hdb, hshown⟩ := RequestHandler.handleRequest_shows (h.store_wf w) hwr hcarries
      (fun _ => hurl) hres
    refine ⟨?_, hshown⟩
    unfold RequestHandler.storeAfter at hdb
    split_ifs at hdb with hcreate hupdate
    · exact .first r hr (json_of_carries hcarries (.inl hcreate)) hurl (.inl hcreate) hdb
    · have hjson := json_of_carries hcarries (.inr hupdate)
      rw [← hurl] at hdb
      cases hfind : (s.workers w).find? r.url with
      | none =>
        -- the merge with the list without items that is read where nothing is stored
        refine .first r hr hjson hurl (.inr hfind) ?_
        rw [hdb, RequestHandler.merged, Database.list_of_find?_none hfind,
          ShoppingList.join_of_blank rfl rfl]
        exact congrArg (fun items => (s.workers w).set r.url
          (ShoppingList.toJson ⟨"", r.title, r.url, items⟩))
          (hwr.items.empty_join hwr.compacted)
      | some j =>
        obtain ⟨k, hk, rfl, hku, -⟩ := h.stored w r.url j hfind
        obtain ⟨hjoin, -⟩ := (h.sound.derives hk).join (h.sound.derives hr) hku
        refine .merge k r hk hr hjson hurl hfind hku ?_
        rw [hdb, RequestHandler.merged, Database.list_of_find? (h.sound.wf k hk) hfind, hjoin]
    · exact .read hcreate hupdate hdb

/-! ## How lists are made -/

/-- How a list can come to be in `t` by a step from `s`: it was there under some identifier, it is
new, it merges two of one url, or a session has it. -/
inductive Made (text : JsonText) (s t : World κ ω) : ShoppingList → Prop
  | kept (k : ShoppingList) (id : String) (hk : Occurs text s k) : Made text s t (k.setId id)
  | new (uuid list_name : String) : Made text s t (.new uuid list_name ("msla-" ++ uuid))
  | joined (k r : ShoppingList) (hk : Occurs text s k) (hr : Occurs text s r)
      (hurl : k.url = r.url) : Made text s t { k with items := k.items.join r.items }
  | session (l : ShoppingList) (hl : l ∈ t.sessions) : Made text s t l

omit [DecidableEq κ] [DecidableEq ω] in
theorem Made.of_occurs (h : Occurs text s l) : Made text s t l := .kept l l.id h

omit [DecidableEq κ] [DecidableEq ω] in
theorem Occurs.of_json {q : ListRequest} {r : ShoppingList} (hq : q ∈ s.requests) (hr : r.WF)
    (hjson : q.json text = some r.toJson) : Occurs text s r :=
  .request q r.toJson hq hjson (hr.fromJson_toJson "" "" "")

omit [DecidableEq κ] [DecidableEq ω] in
theorem Tracked.occurs_holds (h : Tracked text g s) {i : κ} {k : ShoppingList} (hk : k ∈ g.all)
    (hholds : s.Holds i k) : Occurs text s k :=
  .entry i k.url _ hholds ((h.sound.wf k hk).fromJson_toJson "" "" "")

omit [DecidableEq κ] [DecidableEq ω] in
theorem Tracked.occurs_stored (h : Tracked text g s) {w : ω} {url : String} {k : ShoppingList}
    (hk : k ∈ g.all) (hfind : (s.workers w).find? url = some k.toJson) : Occurs text s k :=
  .stored w url _ hfind ((h.sound.wf k hk).fromJson_toJson "" "" "")

omit [DecidableEq κ] [DecidableEq ω] in
theorem Tracked.occurs_published (h : Tracked text g s) {list_url shopping_list : String}
    {r : ShoppingList} (hr : r ∈ g.all) (hp : (list_url, shopping_list) ∈ s.published)
    (hj : text.getJsonFromUString shopping_list = some r.toJson) : Occurs text s r :=
  .publication list_url shopping_list _ hp hj ((h.sound.wf r hr).fromJson_toJson "" "" "")

omit [DecidableEq κ] [DecidableEq ω] in
/-- A database after a write shows what was written or what it has shown. -/
theorem find?_set_cases {db : Database} {url url' : String} {v j : Json}
    (h : (db.set url v).find? url' = some j) : j = v ∨ db.find? url' = some j := by
  rw [SortedMap.find?_set] at h
  split_ifs at h
  · exact .inl (Option.some.inj h).symm
  · exact .inr h

omit [DecidableEq κ] [DecidableEq ω] in
/-- What a well-formed list that is written is made of, all of the database is. -/
theorem Made.of_set {db : Database} {url url' : String} {n : ShoppingList} {j : Json}
    (hj : (db.set url n.toJson).find? url' = some j)
    (hl : ShoppingList.fromJson j ShoppingList.blank = some l) (hwf : n.WF)
    (hn : Made text s t n) (hold : db.find? url' = some j → Occurs text s l) :
    Made text s t l := by
  rcases find?_set_cases hj with rfl | hj
  · rw [eq_of_fromJson hwf hl]
    exact hn
  · exact .of_occurs (hold hj)

/-- **No step makes a list of nothing.** -/
theorem Step.made (h : Tracked text g s) (hst : Step text s t) (hl : Occurs text t l) :
    Made text s t l := by
  cases hst with
  | create i list_id list_name cloud_mode hidle hfresh hreads =>
    have hwf := ShoppingList.WF.new list_id list_name ("msla-" ++ list_id)
    rcases hl.of_sendIf with hl | ⟨hcloud, j, hj, hl⟩
    · rcases hl.of_uuids.of_setClient with hl | hl | ⟨url, j, hj, hl⟩
      · exact .of_occurs hl
      · cases hl
      · exact .of_set hj hl hwf (.new _ _) fun hj => .entry i url j hj hl
    · have hread : some (ShoppingList.new list_id list_name ("msla-" ++ list_id)).toJson = some j :=
        (hreads hcloud).symm.trans hj
      cases hread
      rw [eq_of_fromJson hwf hl]
      exact .new _ _
  | get get_list_url =>
    have hsent : Occurs text (s.sendIf true ⟨"GET_LIST", get_list_url, []⟩) l := hl
    rcases hsent.of_sendIf with hl | ⟨-, j, hj, -⟩
    · exact .of_occurs hl
    · have hnone : (none : Option Json) = some j := hj
      cases hnone
  | edit i update_list_list_url j k ops hidle hj hk =>
    rcases hl.of_setClient with hl | hl | ⟨url, j', hj', hl⟩
    · exact .of_occurs hl.of_pick
    · exact .session l ⟨i, (congrArg ClientState.currentShoppingList
        (Function.update_self _ _ _)).trans hl⟩
    · exact .of_occurs (.entry i url j' hj' hl)
  | save i e db cloud_mode he hdb hreads =>
    obtain ⟨k, hk, hholds, hurl, rfl⟩ := h.saved he hdb
    obtain ⟨hmem, -⟩ := h.session i e he
    have hwe := h.sound.wf e hmem
    rcases hl.of_sendIf with hl | ⟨hcloud, j, hj, hl⟩
    · rcases hl.of_setClient with hl | hl | ⟨url, j, hj, hl⟩
      · exact .of_occurs hl
      · cases hl
      · obtain ⟨hjoin, hderives⟩ := (h.sound.derives hk).join (h.sound.derives hmem) hurl
        exact .of_set hj hl (hjoin ▸ hderives.wf)
          (.joined k e (h.occurs_holds hk hholds) (.session i he) hurl)
          fun hj => .entry i url j hj hl
    · have hread : some e.toJson = some j := (hreads hcloud).symm.trans hj
      cases hread
      rw [eq_of_fromJson hwe hl]
      exact .of_occurs (.session i he)
  | delete i update_list_list_url hidle =>
    rcases hl.of_setClient with hl | hl | ⟨url, j, hj, hl⟩
    · exact .of_occurs hl
    · cases hl
    · unfold Database.del at hj
      rw [SortedMap.find?_erase] at hj
      split_ifs at hj
      exact .of_occurs (.entry i url j hj hl)
  | listen i list_url shopping_list uuid j db hp hj hfresh hdb =>
    obtain ⟨r, hr, -, rfl, hstored⟩ := h.listened hp hj hdb
    have hwr := h.sound.wf r hr
    have hro := h.occurs_published hr hp hj
    rcases hl.of_uuids.of_setClient with hl | hl | ⟨url, v, hv, hvl⟩
    · exact .of_occurs hl
    · exact .of_occurs (.session i hl)
    · rcases hstored with ⟨k, hk, hholds, hurl, rfl⟩ | ⟨-, rfl⟩
      · obtain ⟨hjoin, hderives⟩ := (h.sound.derives hk).join (h.sound.derives hr) hurl
        exact .of_set hv hvl (hjoin ▸ hderives.wf)
          (.joined k r (h.occurs_holds hk hholds) hro hurl) fun hv => .entry i url v hv hvl
      · exact .of_set hv hvl (hwr.setId uuid) (.kept r uuid hro) fun hv => .entry i url v hv hvl
  | handle w q res db hq hres hreads =>
    obtain ⟨hdb, hshown⟩ := h.handled hq hres
    have hstore : ∀ {u : World κ ω} url j, db.find? url = some j →
        ShoppingList.fromJson j ShoppingList.blank = some l → Made text s u l := by
      intro u url j hj hjl
      cases hdb with
      | read _ _ hdb => exact .of_occurs (.stored w url j (hdb ▸ hj) hjl)
      | first r hr hjson _ _ hdb =>
        have hwr := h.sound.wf r hr
        exact .of_set (hdb ▸ hj) hjl (hwr.setId "") (.kept r "" (.of_json hq hwr hjson))
          fun hj => .stored w url j hj hjl
      | merge k r hk hr hjson _ hstored hku hdb =>
        obtain ⟨hjoin, hderives⟩ := (h.sound.derives hk).join (h.sound.derives hr) hku
        exact .of_set (hdb ▸ hj) hjl (hjoin ▸ hderives.wf) (.joined k r
          (h.occurs_stored hk hstored) (.of_json hq (h.sound.wf r hr) hjson) hku)
          fun hj => .stored w url j hj hjl
    rcases hl.of_handle with hl | ⟨url, j, hj, hl⟩ | ⟨hne, j, hj, hjl⟩
    · exact .of_occurs hl
    · exact hstore url j hj hl
    · -- a publication is the text of what is stored
      obtain ⟨v, hv, htext⟩ := hshown hne
      have hread : text.Reads (db.get q.url_list) := hreads hne
      unfold JsonText.Reads Database.get at hread
      rw [hv, Option.getD_some, ← htext, hj] at hread
      cases hread
      exact hstore _ _ hv hjl

/-! ## What lists show -/

/-- The list means what a merge of lists of its url means that are in the set. -/
def Merges (E : Set ShoppingList) (l : ShoppingList) : Prop :=
  ∃ es : List ShoppingList, (∀ e ∈ es, e ∈ E ∧ e.url = l.url) ∧
    (ShoppingList.joinAll es).meaning = l.meaning

/-- What is kept with the record of the sessions' lists. -/
structure Sourced (text : JsonText) (g : Lists) (s : World κ ω) (E : Set ShoppingList) : Prop where
  tracked : Tracked text g s
  sub : E ⊆ g.all
  merges : ∀ l, Occurs text s l → Merges E l

omit [DecidableEq ω] in
theorem Made.merges {E E' : Set ShoppingList} (h : Sourced text g s E) (hsub : E ⊆ E')
    (hE' : ShoppingList.Kin E') (hnow : t.sessions ⊆ E') (hl : Made text s t l) : Merges E' l := by
  have hkin := h.tracked.sound.kin
  cases hl with
  | kept k id hk =>
    obtain ⟨es, hes, hmeaning⟩ := h.merges k hk
    exact ⟨es, fun e he => (hes e he).imp_left fun he => hsub he, hmeaning⟩
  | new uuid list_name => exact ⟨[], fun e he => absurd he List.not_mem_nil, rfl⟩
  | joined k r hk hr hurl =>
    obtain ⟨es, hes, hmk⟩ := h.merges k hk
    obtain ⟨fs, hfs, hmr⟩ := h.merges r hr
    have hkg := h.tracked.of_occurs hk
    have hrg := h.tracked.of_occurs hr
    have hes' : ∀ e ∈ es, e ∈ E' ∧ e.url = k.url := fun e he =>
      (hes e he).imp_left fun he => hsub he
    have hfs' : ∀ e ∈ fs, e ∈ E' ∧ e.url = k.url := fun e he =>
      ⟨hsub (hfs e he).1, (hfs e he).2.trans hurl.symm⟩
    refine ⟨es ++ fs, fun e he => (List.mem_append.1 he).elim (hes' e) (hfs' e), ?_⟩
    rw [hE'.meaning_append hes' hfs', hmk, hmr]
    exact (congrArg Prod.snd ((hkin.wf k hkg).items.sem_join (hkin.wf r hrg).items
      (hkin.agree k hkg r hrg hurl))).symm
  | session l hl =>
    refine ⟨[l], fun e he => ?_, hE'.meaning_single (hnow hl)⟩
    obtain rfl := List.mem_singleton.1 he
    exact ⟨hnow hl, rfl⟩

omit [DecidableEq κ] [DecidableEq ω] in
theorem Tracked.sessions_subset (h : Tracked text g s) : s.sessions ⊆ g.all := by
  rintro e ⟨i, he⟩
  exact (h.session i e he).1

/-- **A step merges what there is with what sessions have.** -/
theorem Sourced.step {E : Set ShoppingList} (h : Sourced text g s E) (hst : Step text s t) :
    ∃ g', Sourced text g' t (E ∪ t.sessions) := by
  obtain ⟨g', hsub, h'⟩ := h.tracked.step hst
  have hE' : E ∪ t.sessions ⊆ g'.all := Set.union_subset (h.sub.trans hsub) h'.sessions_subset
  refine ⟨g', h', hE', fun l hl => ?_⟩
  exact (hst.made h.tracked hl).merges h Set.subset_union_left (h'.sound.kin.mono hE')
    Set.subset_union_right

omit [DecidableEq ω] in
theorem Sourced.init : Sourced text ⟨∅, fun _ _ => none, fun _ => ""⟩ (init : World κ ω) ∅ where
  tracked := Tracked.init
  sub := Set.empty_subset _
  merges _ hl := (Tracked.init.of_occurs hl).elim

theorem Sourced.run {E : Set ShoppingList}
    (h : Run (Recording (Step text) sessions) ((World.init : World κ ω), ∅) (s, E)) :
    ∃ g, Sourced text g s E := by
  refine h.invariant (fun a => ∃ g, Sourced text g a.1 a.2) ⟨_, Sourced.init⟩ ?_
  rintro a b ⟨g, hg⟩ ⟨hst, hb⟩
  rw [hb]
  exact hg.step hst

/-- **Nothing shows up that no session had**, if every session, save, update and request is one
step. In every run, whatever is delayed, reordered, repeated or lost, each list in a database, a
session or a message shows what the merge of lists shows that sessions for its url have had. -/
theorem shows_sessions {E : Set ShoppingList}
    (h : Run (Recording (Step text) sessions) ((init : World κ ω), ∅) (s, E))
    (hl : Occurs text s l) :
    ∃ es : List ShoppingList, (∀ e ∈ es, e ∈ E ∧ e.url = l.url ∧ e.title = l.title) ∧
      ShoppingList.Shows l (ShoppingList.joinAll es) := by
  obtain ⟨g, hg⟩ := Sourced.run h
  obtain ⟨es, hes, hmeaning⟩ := hg.merges l hl
  have hlg := hg.tracked.of_occurs hl
  have hkin := hg.tracked.sound.kin
  refine ⟨es, fun e he => ?_, (hkin.wf l hlg).shows ?_ hmeaning.symm⟩
  · obtain ⟨heE, hurl⟩ := hes e he
    exact ⟨heE, hurl, hkin.title e (hg.sub heE) l hlg hurl⟩
  · exact ShoppingList.joinAll_wf fun e he => hkin.wf e (hg.sub (hes e he).1)

/-! ## A list with an item goes from one client to another -/

/-- The list with the item, its text with an identifier, and a text form that reads it back. -/
def appleParty : ShoppingList := (RequestHandler.newList.perform (.createItem "apple" 3)).2

def applePartyText (id : String) : String :=
  "\x7b\"id\":\"" ++ id ++ "\",\"items\":\x7b\"context\":\x7b\"dc\":[],\"vc\":\x7b\"user1\":1\x7d\x7d," ++
    "\"map\":\x7b\"apple\":[[[\"user1\",1],3]]\x7d\x7d," ++
    "\"title\":\"party\",\"url\":\"msla-user1\"\x7d"

def appleText : JsonText where
  parse s :=
    if s = applePartyText "user1" then some appleParty.toJson
    else if s = applePartyText "" then some (appleParty.setId "").toJson
    else none
  dump j :=
    match j with
    | .obj (("id", .str id) :: _) => applePartyText id
    | _ => ""

/-- A client has made a list, has put an item into it, and has saved and sent it; the worker has
stored and published it; another client has taken it. -/
def made : World Bool Unit :=
  { clients := Function.update (fun _ => ⟨∅, none⟩) false
      ⟨(∅ : Database).set "msla-user1" RequestHandler.newList.toJson, none⟩
    update_list_list_url := fun _ => ""
    workers := fun _ => ∅
    requests := []
    published := []
    uuids := [(false, "user1")] }

def opened : World Bool Unit :=
  (made.pick false "msla-user1").setClient false ⟨(made.clients false).db, some appleParty⟩

def saved : World Bool Unit :=
  (opened.setClient false ⟨(made.clients false).db.set "msla-user1"
    (RequestHandler.newList.join appleParty).2.toJson, none⟩).sendIf true
    (updateRequest appleText "msla-user1" appleParty)

def stored : World Bool Unit :=
  { saved with
    workers := Function.update saved.workers ()
      ((∅ : Database).set "msla-user1" (appleParty.setId "").toJson)
    published := [("msla-user1", applePartyText "")] }

def received : World Bool Unit :=
  { stored.setClient true ⟨(∅ : Database).set "msla-user1" (appleParty.setId "user2").toJson, none⟩
    with uuids := [(true, "user2"), (false, "user1")] }

theorem newList_wf : RequestHandler.newList.WF := ShoppingList.WF.new _ _ _

theorem appleParty_wf : appleParty.WF := newList_wf.perform (.createItem "apple" 3)

set_option maxRecDepth 2000 in
theorem reads_apple (id : String) (hid : id = "user1" ∨ id = "") :
    appleText.Reads (appleParty.setId id).toJson := by
  unfold JsonText.Reads JsonText.getJsonFromUString
  rw [show appleText.getStringFromJson (appleParty.setId id).toJson = applePartyText id from rfl]
  unfold appleText
  dsimp only
  rcases hid with rfl | rfl
  · rw [show cStr (applePartyText "user1") = applePartyText "user1" by decide +kernel, if_pos rfl]
    rfl
  · rw [show cStr (applePartyText "") = applePartyText "" by decide +kernel,
      if_neg (by decide +kernel), if_pos rfl]

theorem made_step : Step appleText (init : World Bool Unit) made :=
  .create init false "user1" "party" false rfl (fun _ => List.not_mem_nil)
    fun h => absurd h Bool.false_ne_true

theorem opened_step : Step appleText made opened :=
  .edit made false "msla-user1" _ _ [.createItem "apple" 3] rfl rfl
    (newList_wf.fromJson_toJson "" "" "")

theorem saved_step : Step appleText opened saved := by
  refine .save opened false appleParty _ true rfl ?_ fun _ => reads_apple "user1" (.inl rfl)
  have hget : (opened.clients false).db.get appleParty.url = RequestHandler.newList.toJson := rfl
  unfold LocalStore.saveListToLocal
  rw [hget, LocalStore.savedValue_toJson newList_wf]
  rfl

theorem handleRequest_apple :
    RequestHandler.handleRequest appleText "msla-user1" "UPDATE_LIST" [applePartyText "user1"] ∅ =
      some (⟨"Updated shopping list with success!", applePartyText ""⟩,
        (∅ : Database).set "msla-user1" (appleParty.setId "").toJson) := by
  have hread := reads_apple "user1" (.inl rfl)
  have hmerged : (ShoppingList.blank.join appleParty).2 = appleParty.setId "" := by
    rw [ShoppingList.join_of_blank rfl rfl]
    exact congrArg (ShoppingList.mk "" appleParty.title appleParty.url)
      (appleParty_wf.items.empty_join appleParty_wf.compacted)
  have hget : ShoppingList.fromJson (Database.get ∅ "msla-user1") ShoppingList.blank =
      some ShoppingList.blank := rfl
  have hupdate := RequestHandler.updateList_of_get appleParty_wf hget
  rw [hmerged] at hupdate
  exact RequestHandler.handleRequest_of_updateList hread hupdate []

theorem received_step : Step appleText stored received := by
  refine .listen stored true "msla-user1" (applePartyText "") "user2" _ _ List.mem_cons_self
    (reads_apple "" (.inr rfl)) (fun i hi => ?_) rfl
  simp [stored, saved, World.sendIf, opened, World.pick, World.setClient, made] at hi

theorem stored_step : Step appleText saved stored := by
  refine .handle saved () ⟨"UPDATE_LIST", "msla-user1", [applePartyText "user1"]⟩ _ _
    List.mem_cons_self handleRequest_apple fun _ => reads_apple "" (.inr rfl)

theorem saved_run : Run (Step appleText) (init : World Bool Unit) saved :=
  ((Relation.ReflTransGen.single made_step).tail opened_step).tail saved_step

theorem received_run : Run (Step appleText) (init : World Bool Unit) received :=
  (saved_run.tail stored_step).tail received_step

theorem shows_sessions_apple :
    ∃ E, Run (Recording (Step appleText) sessions) ((init : World Bool Unit), ∅) (received, E) ∧
      ∃ es : List ShoppingList, (∀ e ∈ es, e ∈ E ∧ e.url = "msla-user1" ∧ e.title = "party") ∧
        ShoppingList.Shows (appleParty.setId "user2") (ShoppingList.joinAll es) := by
  obtain ⟨E, hrun⟩ := received_run.recording ∅
  exact ⟨E, hrun, shows_sessions hrun (.entry true "msla-user1" _ rfl
    ((appleParty_wf.setId "user2").fromJson_toJson "" "" ""))⟩

end World

end ShoppingApp
