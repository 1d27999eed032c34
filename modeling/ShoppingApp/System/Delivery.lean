import ShoppingApp.System.Provenance

/-!
# What reaches whom

In runs of `World`, whose sessions, saves, updates and requests are one step each, a client's list
only grows while the client keeps it (`entry_grows`), and a worker's while it gets no CREATE_LIST
for it (`stored_grows`). So a list that a worker has got with an update is in all that the worker
publishes afterwards, and in what clients hold that take it (`update_delivered`); and clients that
take a publication which has all that sessions made show the same (`cover_converges`).
-/

namespace ShoppingApp

open Replication (Run Recording)

namespace ShoppingList

/-- To merge `o` into `l` changes nothing of what it shows. -/
structure Absorbs (l o : ShoppingList) : Prop where
  live : ∀ name d, (l.join o).2.items.live name d = l.items.live name d
  context : (l.join o).2.items.context = l.items.context

theorem meaning_congr {l o : ShoppingList}
    (hlive : ∀ name d, l.items.live name d = o.items.live name d)
    (hcontext : l.items.context = o.items.context) : l.meaning = o.meaning := by
  refine Prod.ext (funext fun d => ?_) (funext fun k => funext fun d => ?_)
  · change l.items.context.contains d.1 = o.items.context.contains d.1
    rw [hcontext]
  · change DotState.of (l.items.live k d.1) (l.items.context.contains d.1) =
      DotState.of (o.items.live k d.1) (o.items.context.contains d.1)
    rw [hlive, hcontext]

theorem Kin.meaning_join {ls : Set ShoppingList} (h : Kin ls) {l o : ShoppingList} (hl : l ∈ ls)
    (ho : o ∈ ls) (hurl : l.url = o.url) :
    (l.join o).2 = { l with items := l.items.join o.items } ∧
      (l.items.join o.items).sem.2 = l.meaning ⊔ o.meaning := by
  refine ⟨?_, congrArg Prod.snd ((h.wf l hl).items.sem_join (h.wf o ho).items
    (h.agree l hl o ho hurl))⟩
  rw [join_of_header_eq (h.title l hl o ho hurl) hurl]

/-- **A list absorbs those that mean less.** -/
theorem Kin.absorbs_iff {ls : Set ShoppingList} (h : Kin ls) {l o : ShoppingList} (hl : l ∈ ls)
    (ho : o ∈ ls) (hurl : l.url = o.url) : Absorbs l o ↔ o.meaning ≤ l.meaning := by
  obtain ⟨hjoin, hmeaning⟩ := h.meaning_join hl ho hurl
  have hwf := (h.wf l hl).join (h.wf o ho)
  have hsup : (l.join o).2.meaning = l.meaning ⊔ o.meaning := by
    rw [hjoin]
    exact hmeaning
  constructor
  · intro habs
    have heq : (l.join o).2.meaning = l.meaning := meaning_congr habs.live habs.context
    rw [hsup, sup_eq_left] at heq
    exact heq
  · intro hle
    rw [sup_eq_left.2 hle] at hsup
    exact ⟨ORMap.live_eq_of_meaning_eq hwf.items (h.wf l hl).items hsup,
      ORMap.context_eq_of_meaning_eq hwf.items (h.wf l hl).items hsup hwf.compacted
        (h.wf l hl).compacted⟩

/-- The list `l` under its name and identifier, with no less in it. -/
structure Grown (k l : ShoppingList) : Prop where
  id : l.id = k.id
  title : l.title = k.title
  url : l.url = k.url
  le : k.meaning ≤ l.meaning

theorem Grown.refl (k : ShoppingList) : Grown k k := ⟨rfl, rfl, rfl, le_rfl⟩

theorem Grown.trans {k l o : ShoppingList} (h : Grown k l) (h' : Grown l o) : Grown k o :=
  ⟨h'.id.trans h.id, h'.title.trans h.title, h'.url.trans h.url, h.le.trans h'.le⟩

theorem Kin.grown {ls : Set ShoppingList} (h : Kin ls) {k r : ShoppingList} (hk : k ∈ ls)
    (hr : r ∈ ls) (hurl : k.url = r.url) : Grown k { k with items := k.items.join r.items } := by
  exact ⟨rfl, rfl, rfl, le_sup_left.trans_eq (h.meaning_join hk hr hurl).2.symm⟩

end ShoppingList

namespace World

variable {κ ω : Type*} {text : JsonText} {g : Lists} {s t u : World κ ω}

/-! ## What a step can do to a client's database -/

theorem sendIf_clients (s : World κ ω) (cloud_mode : Bool) (q : ListRequest) :
    (s.sendIf cloud_mode q).clients = s.clients := by
  unfold World.sendIf
  split_ifs
  · rfl
  · rfl

/-- Client `i`'s database stays as it is, gets a list where it has none, gets a list merged into one
it has, or loses one. -/
inductive Stores (g : Lists) (s : World κ ω) (i : κ) (db : Database) : Prop
  | same (hdb : db = (s.clients i).db)
  | fresh (n : ShoppingList) (hnone : (s.clients i).db.find? n.url = none)
      (hdb : db = (s.clients i).db.set n.url n.toJson)
  | merge (k r : ShoppingList) (hk : k ∈ g.all) (hr : r ∈ g.all) (hholds : s.Holds i k)
      (hurl : k.url = r.url)
      (hdb : db = (s.clients i).db.set k.url ({ k with items := k.items.join r.items }).toJson)
  | deleted (url : String) (hdb : db = (s.clients i).db.del url)

variable [DecidableEq κ] [DecidableEq ω]

omit [DecidableEq ω] in
/-- A step of client `i` alone. -/
theorem Stores.of_setClient {i k : κ} {c : ClientState}
    (h : k = i → Stores g s i c.db) : Stores g s k ((s.setClient i c).clients k).db := by
  unfold World.setClient
  dsimp only
  by_cases hk : k = i
  · subst hk
    rw [Function.update_self]
    exact h rfl
  · rw [Function.update_of_ne hk]
    exact .same rfl

omit [DecidableEq κ] [DecidableEq ω] in
/-- The url of a new identifier is in no database. -/
theorem Tracked.find?_fresh (h : Tracked text g s) (i : κ) {list_id : String}
    (hfresh : s.Fresh list_id) : (s.clients i).db.find? ("msla-" ++ list_id) = none := by
  cases hfind : (s.clients i).db.find? ("msla-" ++ list_id) with
  | none => rfl
  | some j =>
    obtain ⟨l, hl, -, hurl, -⟩ := h.entry i _ j hfind
    obtain ⟨x, ⟨k, hx⟩, hux⟩ := h.sound.url l hl
    have hlist := congrArg String.toList (hux.symm.trans hurl)
    rw [String.toList_append, String.toList_append] at hlist
    have hid : x = list_id := String.ext (List.append_cancel_left hlist)
    exact absurd (hid ▸ hx) (hfresh k)

theorem Step.stores (h : Tracked text g s) (hst : Step text s t) (k : κ) :
    Stores g s k (t.clients k).db := by
  cases hst with
  | create i list_id list_name cloud_mode hidle hfresh hreads =>
    rw [sendIf_clients]
    refine Stores.of_setClient fun _ => ?_
    exact .fresh (.new list_id list_name ("msla-" ++ list_id)) (h.find?_fresh i hfresh) rfl
  | get get_list_url => exact .same rfl
  | edit i update_list_list_url j l ops hidle hj hl =>
    change Stores g s k ((s.setClient i ⟨(s.clients i).db, _⟩).clients k).db
    exact Stores.of_setClient fun _ => .same rfl
  | save i e db cloud_mode he hdb hreads =>
    obtain ⟨l, hl, hholds, hurl, rfl⟩ := h.saved he hdb
    obtain ⟨hmem, -⟩ := h.session i e he
    rw [sendIf_clients]
    refine Stores.of_setClient fun _ => .merge l e hl hmem hholds hurl ?_
    rw [hurl]
  | delete i url hidle => exact Stores.of_setClient fun _ => .deleted url rfl
  | listen i list_url shopping_list uuid j db hp hj hfresh hdb =>
    obtain ⟨r, hr, -, rfl, hstored⟩ := h.listened hp hj hdb
    refine Stores.of_setClient fun _ => ?_
    rcases hstored with ⟨l, hl, hholds, hurl, rfl⟩ | ⟨hnone, rfl⟩
    · refine .merge l r hl hr hholds hurl ?_
      rw [hurl]
    · exact .fresh (r.setId uuid) hnone rfl
  | handle w q res db hq hres hreads => exact .same rfl

/-! ## A client's list grows -/

omit [DecidableEq κ] [DecidableEq ω] in
theorem Stores.grown (h : Tracked text g s) {i : κ} {c : ClientState} {k : ShoppingList}
    (hst : Stores g s i c.db) (hk : k ∈ g.all) (hholds : s.Holds i k)
    (hkeep : (c.db.find? k.url).isSome = true) :
    ∃ l, c.db.find? k.url = some l.toJson ∧ l.WF ∧ ShoppingList.Grown k l := by
  have hkin := h.sound.kin
  have hwf := h.sound.wf k hk
  have hfind : (s.clients i).db.find? k.url = some k.toJson := hholds
  cases hst with
  | same hdb =>
    rw [hdb]
    exact ⟨k, hfind, hwf, .refl k⟩
  | fresh n hnone hdb =>
    have hne : k.url ≠ n.url := by
      intro hurl
      rw [hurl, hnone] at hfind
      cases hfind
    rw [hdb, SortedMap.find?_set_ne _ _ hne]
    exact ⟨k, hfind, hwf, .refl k⟩
  | merge k' r hk' hr hholds' hurl hdb =>
    rw [hdb, SortedMap.find?_set]
    split_ifs with hsame
    · obtain rfl := h.holds_unique hk hk' hholds hholds' hsame
      obtain ⟨hjoin, hderives⟩ := (h.sound.derives hk).join (h.sound.derives hr) hurl
      exact ⟨_, rfl, hjoin ▸ hderives.wf, hkin.grown hk hr hurl⟩
    · exact ⟨k, hfind, hwf, .refl k⟩
  | deleted url hdb =>
    unfold Database.del at hdb
    rw [hdb, SortedMap.find?_erase] at hkeep ⊢
    split_ifs at hkeep ⊢
    · cases hkeep
    · exact ⟨k, hfind, hwf, .refl k⟩

/-- A step after which client `i` still has the list. -/
def Keeping (text : JsonText) (i : κ) (url : String) (s t : World κ ω) : Prop :=
  Step text s t ∧ ((t.clients i).db.find? url).isSome = true

/-- What holds of a client that holds at least `k`. -/
theorem Tracked.keeping (h : Tracked text g s) {i : κ} {k : ShoppingList} (hk : k ∈ g.all)
    (hholds : s.Holds i k) (ht : Run (Keeping text i k.url) s t) :
    ∃ g', g.all ⊆ g'.all ∧ Tracked text g' t ∧ ∃ l ∈ g'.all, t.Holds i l ∧
      ShoppingList.Grown k l := by
  refine ht.invariant (fun t => ∃ g', g.all ⊆ g'.all ∧ Tracked text g' t ∧ ∃ l ∈ g'.all,
    t.Holds i l ∧ ShoppingList.Grown k l) ⟨g, subset_rfl, h, k, hk, hholds, .refl k⟩ ?_
  rintro a b ⟨ga, hsub, ha, l, hl, hhl, hgrown⟩ ⟨hst, hkeep⟩
  obtain ⟨gb, hsub', hb⟩ := ha.step hst
  rw [← hgrown.url] at hkeep
  obtain ⟨l', hfind, hwf, hgrown'⟩ := (hst.stores ha i).grown ha hl hhl hkeep
  rw [← hgrown'.url] at hfind
  have hmem : l' ∈ gb.all := hb.mem_of_holds hwf hfind
  exact ⟨gb, hsub.trans hsub', hb, l', hmem, hfind, hgrown.trans hgrown'⟩

omit [DecidableEq κ] [DecidableEq ω] in
/-- What is found under a url, and what a list there absorbs. -/
theorem Tracked.absorbs (h : Tracked text g s) {l e : ShoppingList} (hl : l ∈ g.all)
    (he : e ∈ g.all) (hurl : l.url = e.url) (hle : e.meaning ≤ l.meaning) :
    ShoppingList.Absorbs l e :=
  (h.sound.kin.absorbs_iff hl he hurl).2 hle

/-- **A client's list only grows**, if every save and update is one step. As long as a client keeps
a list, whatever it saves and takes meanwhile, the list keeps its identifier, title and url, and
everything that was in it. -/
theorem entry_grows (hs : Run (Step text) (init : World κ ω) s) {i : κ} {url : String} {j : Json}
    {k : ShoppingList} (hj : (s.clients i).db.find? url = some j)
    (hk : ShoppingList.fromJson j ShoppingList.blank = some k)
    (ht : Run (Keeping text i url) s t) :
    ∃ j' l, (t.clients i).db.find? url = some j' ∧
      ShoppingList.fromJson j' ShoppingList.blank = some l ∧ l.id = k.id ∧ l.title = k.title ∧
      l.url = k.url ∧ ShoppingList.Absorbs l k := by
  obtain ⟨g, -, h⟩ := Tracked.init.run hs
  obtain ⟨hmem, hholds, rfl⟩ := h.decode hj hk
  obtain ⟨g', hsub, h', l, hl, hhl, hgrown⟩ := h.keeping hmem hholds ht
  have hfind : (t.clients i).db.find? k.url = some l.toJson := hgrown.url ▸ hhl
  exact ⟨_, l, hfind, (h'.sound.wf l hl).fromJson_toJson "" "" "", hgrown.id, hgrown.title,
    hgrown.url, h'.absorbs hl (hsub hmem) hgrown.url hgrown.le⟩

/-- A session stays open until it is saved. -/
theorem Step.session_cases (hst : Step text s t) {k : κ} {e : ShoppingList}
    (he : (s.clients k).currentShoppingList = some e) :
    (t.clients k).currentShoppingList = some e ∨
      LocalStore.saveListToLocal (s.clients k).db e = some (t.clients k).db := by
  have hset : ∀ (u : World κ ω) (i : κ) (c : ClientState), u.clients k = s.clients k →
      (k = i → c.currentShoppingList = some e ∨
        LocalStore.saveListToLocal (s.clients k).db e = some c.db) →
      ((u.setClient i c).clients k).currentShoppingList = some e ∨
        LocalStore.saveListToLocal (s.clients k).db e = some ((u.setClient i c).clients k).db := by
    intro u i c hu h
    unfold World.setClient
    dsimp only
    by_cases hk : k = i
    · subst hk
      rw [Function.update_self]
      exact h rfl
    · rw [Function.update_of_ne hk, hu]
      exact .inl he
  cases hst with
  | create i list_id list_name cloud_mode hidle hfresh hreads =>
    rw [sendIf_clients]
    refine hset s i _ rfl fun hk => ?_
    subst hk
    rw [hidle] at he
    cases he
  | get get_list_url => exact .inl he
  | edit i update_list_list_url j l ops hidle hj hl =>
    refine hset (s.pick i _) i _ rfl fun hk => ?_
    subst hk
    rw [hidle] at he
    cases he
  | save i e' db cloud_mode he' hdb hreads =>
    rw [sendIf_clients]
    refine hset s i _ rfl fun hk => ?_
    subst hk
    rw [he] at he'
    cases he'
    exact .inr hdb
  | delete i url hidle =>
    refine hset s i _ rfl fun hk => ?_
    subst hk
    rw [hidle] at he
    cases he
  | listen i list_url shopping_list uuid j db hp hj hfresh hdb =>
    refine hset s i _ rfl fun hk => ?_
    subst hk
    exact .inl he
  | handle w q res db hq hres hreads => exact .inl he

/-- **No session is lost**, if every save and update is one step. What a user has in a session is, as
long as the client keeps the list, still in the session or in all that the client holds under the
url. -/
theorem session_kept (hs : Run (Step text) (init : World κ ω) s) {i : κ} {e : ShoppingList}
    (he : (s.clients i).currentShoppingList = some e) (ht : Run (Keeping text i e.url) s t) :
    (t.clients i).currentShoppingList = some e ∨
      ∃ j l, (t.clients i).db.find? e.url = some j ∧
        ShoppingList.fromJson j ShoppingList.blank = some l ∧ l.id = e.id ∧ l.title = e.title ∧
        l.url = e.url ∧ ShoppingList.Absorbs l e := by
  obtain ⟨g, -, h⟩ := Tracked.init.run hs
  have hkept : ∃ g', g.all ⊆ g'.all ∧ Tracked text g' t ∧
      ((t.clients i).currentShoppingList = some e ∨
        ∃ l ∈ g'.all, t.Holds i l ∧ ShoppingList.Grown e l) := by
    refine ht.invariant (fun t => ∃ g', g.all ⊆ g'.all ∧ Tracked text g' t ∧
      ((t.clients i).currentShoppingList = some e ∨
        ∃ l ∈ g'.all, t.Holds i l ∧ ShoppingList.Grown e l)) ⟨g, subset_rfl, h, .inl he⟩ ?_
    rintro a b ⟨ga, hsub, ha, hcase⟩ ⟨hst, hkeep⟩
    rcases hcase with hopen | ⟨l, hl, hhl, hgrown⟩
    · obtain ⟨gb, hsub', hb⟩ := ha.step hst
      refine ⟨gb, hsub.trans hsub', hb, ?_⟩
      rcases hst.session_cases hopen with hopen | hsaved
      · exact .inl hopen
      · -- the session is merged into what is held
        obtain ⟨k, hk, hholds, hurl, hdb⟩ := ha.saved hopen hsaved
        obtain ⟨hmem, -, k', hk', hholds', hurl', hid⟩ := ha.session i e hopen
        obtain rfl := ha.holds_unique hk hk' hholds hholds' (hurl.trans hurl'.symm)
        obtain ⟨hjoin, hderives⟩ := (ha.sound.derives hk).join (ha.sound.derives hmem) hurl
        have hholdsb : b.Holds i { k with items := k.items.join e.items } := by
          unfold Holds
          rw [hdb]
          exact hurl ▸ SortedMap.find?_set_self _ _ _
        refine .inr ⟨_, hb.mem_of_holds (hjoin ▸ hderives.wf) hholdsb, hholdsb, hid,
          ha.sound.kin.title k hk e hmem hurl, hurl, ?_⟩
        exact le_sup_right.trans_eq (ha.sound.kin.meaning_join hk hmem hurl).2.symm
    · have hkeeping : Keeping text i l.url a b := ⟨hst, hgrown.url ▸ hkeep⟩
      obtain ⟨gb, hsub', hb, l', hl', hhl', hgrown'⟩ := ha.keeping hl hhl (.single hkeeping)
      exact ⟨gb, hsub.trans hsub', hb, .inr ⟨l', hl', hhl', hgrown.trans hgrown'⟩⟩
  obtain ⟨g', hsub, h', hopen | ⟨l, hl, hhl, hgrown⟩⟩ := hkept
  · exact .inl hopen
  · have hfind : (t.clients i).db.find? e.url = some l.toJson := hgrown.url ▸ hhl
    exact .inr ⟨_, l, hfind, (h'.sound.wf l hl).fromJson_toJson "" "" "", hgrown.id, hgrown.title,
      hgrown.url, h'.absorbs hl (hsub (h.session i e he).1) hgrown.url hgrown.le⟩

theorem saved_entry : (saved.clients false).db.find? "msla-user1" =
    some (RequestHandler.newList.join appleParty).2.toJson :=
  SortedMap.find?_set_self _ _ _

/-- The client keeps its list while the worker and the other client take it. -/
theorem received_keeping : Run (Keeping appleText false "msla-user1") saved received :=
  have hsome := congrArg Option.isSome saved_entry
  (Relation.ReflTransGen.single ⟨stored_step, hsome⟩).tail ⟨received_step, hsome⟩

theorem entry_grows_apple :
    ∃ j' l, (received.clients false).db.find? "msla-user1" = some j' ∧
      ShoppingList.fromJson j' ShoppingList.blank = some l ∧ l.id = "user1" ∧ l.title = "party" ∧
      l.url = "msla-user1" ∧ ShoppingList.Absorbs l (RequestHandler.newList.join appleParty).2 :=
  entry_grows saved_run saved_entry ((newList_wf.join appleParty_wf).fromJson_toJson "" "" "")
    received_keeping

theorem session_kept_apple :
    (received.clients false).currentShoppingList = some appleParty ∨
      ∃ j l, (received.clients false).db.find? appleParty.url = some j ∧
        ShoppingList.fromJson j ShoppingList.blank = some l ∧ l.id = appleParty.id ∧
        l.title = appleParty.title ∧ l.url = appleParty.url ∧
        ShoppingList.Absorbs l appleParty :=
  session_kept ((Relation.ReflTransGen.single made_step).tail opened_step) (i := false) rfl
    ((Relation.ReflTransGen.single ⟨saved_step, congrArg Option.isSome saved_entry⟩).trans
      received_keeping)

/-! ## A worker's list grows -/

/-- Worker `w` handles a request. -/
inductive Handles (text : JsonText) (w : ω) (q : ListRequest) (res : Response) (s : World κ ω) :
    World κ ω → Prop
  | intro (db : Database) (hq : q ∈ s.requests)
      (hres : RequestHandler.handleRequest text q.url_list q.request_type q.body (s.workers w) =
        some (res, db))
      (hreads : res.shopping_list ≠ "" → text.Reads (db.get q.url_list)) :
      Handles text w q res s { s with
        workers := Function.update s.workers w db
        published := if res.shopping_list ≠ "" then
          (q.url_list, res.shopping_list) :: s.published else s.published }

theorem Handles.step {w : ω} {q : ListRequest} {res : Response} (h : Handles text w q res s t) :
    Step text s t := by
  cases h with
  | intro db hq hres hreads => exact .handle s w q res db hq hres hreads

/-- A step in which worker `w` gets no CREATE_LIST for the list. -/
def Unreset (text : JsonText) (w : ω) (url : String) (s t : World κ ω) : Prop :=
  Step text s t ∧ ∀ q res, Handles text w q res s t → q.url_list = url →
    q.request_type ≠ "CREATE_LIST"

omit [DecidableEq κ] [DecidableEq ω] in
theorem Handled.grown (h : Tracked text g s) {w : ω} {q : ListRequest} {db : Database}
    (hst : Handled text g s w q db) {k : ShoppingList}
    (hno : q.url_list = k.url → q.request_type ≠ "CREATE_LIST") (hk : k ∈ g.all)
    (hfind : (s.workers w).find? k.url = some k.toJson) :
    ∃ l, db.find? k.url = some l.toJson ∧ l.WF ∧ ShoppingList.Grown k l := by
  have hkin := h.sound.kin
  have hwf := h.sound.wf k hk
  cases hst with
  | read _ _ hdb =>
    rw [hdb]
    exact ⟨k, hfind, hwf, .refl k⟩
  | first r hr _ hurl hnew hdb =>
    have hne : k.url ≠ r.url := by
      intro heq
      rcases hnew with hcreate | hnone
      · exact hno (hurl.symm.trans heq.symm) hcreate
      · rw [heq, hnone] at hfind
        cases hfind
    rw [hdb, SortedMap.find?_set_ne _ _ hne]
    exact ⟨k, hfind, hwf, .refl k⟩
  | merge k' r hk' hr _ hurl hstored hku hdb =>
    rw [hdb, SortedMap.find?_set]
    split_ifs with hsame
    · rw [hsame, hstored] at hfind
      obtain rfl := toJson_injective (h.sound.wf k' hk') hwf (Option.some.inj hfind)
      obtain ⟨hjoin, hderives⟩ := (h.sound.derives hk).join (h.sound.derives hr) hku
      exact ⟨_, rfl, hjoin ▸ hderives.wf, hkin.grown hk hr hku⟩
    · exact ⟨k, hfind, hwf, .refl k⟩

omit [DecidableEq κ] [DecidableEq ω] in
/-- The list of a request is in what the worker has afterwards. -/
theorem Handled.takes (h : Tracked text g s) {w : ω} {q : ListRequest} {db : Database}
    (hst : Handled text g s w q db) {r : ShoppingList} (hr : r ∈ g.all)
    (hjson : q.json text = some r.toJson) :
    r.url = q.url_list ∧ ∃ l : ShoppingList, db.find? r.url = some l.toJson ∧ l.WF ∧
      l.url = r.url ∧ r.meaning ≤ l.meaning := by
  have hwf := h.sound.wf r hr
  have hsame : ∀ {o : ShoppingList}, o ∈ g.all → q.json text = some o.toJson → o = r :=
    fun ho ho' => toJson_injective (h.sound.wf _ ho) hwf (Option.some.inj (ho'.symm.trans hjson))
  cases hst with
  | read hcreate hupdate _ =>
    unfold ListRequest.json at hjson
    rw [if_neg hcreate, if_neg hupdate] at hjson
    cases hjson
  | first o ho hjo hurl _ hdb =>
    obtain rfl := hsame ho hjo
    refine ⟨hurl, o.setId "", ?_, hwf.setId "", rfl, le_rfl⟩
    rw [hdb]
    exact SortedMap.find?_set_self _ _ _
  | merge k o hk ho hjo hurl hstored hku hdb =>
    obtain rfl := hsame ho hjo
    obtain ⟨hjoin, hderives⟩ := (h.sound.derives hk).join (h.sound.derives ho) hku
    refine ⟨hurl, { k with items := k.items.join o.items }, ?_, hjoin ▸ hderives.wf, hku,
      le_sup_right.trans_eq (h.sound.kin.meaning_join hk ho hku).2.symm⟩
    rw [hdb]
    exact SortedMap.find?_set_self _ _ _

theorem Step.stored_grown (h : Tracked text g s) {w : ω} {k : ShoppingList}
    (hst : Unreset text w k.url s t) (hk : k ∈ g.all)
    (hfind : (s.workers w).find? k.url = some k.toJson) :
    ∃ l, (t.workers w).find? k.url = some l.toJson ∧ l.WF ∧ ShoppingList.Grown k l := by
  have hwf := h.sound.wf k hk
  have hsame : ∀ {u : World κ ω}, u.workers = s.workers →
      ∃ l, (u.workers w).find? k.url = some l.toJson ∧ l.WF ∧ ShoppingList.Grown k l := by
    intro u hu
    rw [hu]
    exact ⟨k, hfind, hwf, .refl k⟩
  have hsend : ∀ (u : World κ ω) cloud_mode q, (u.sendIf cloud_mode q).workers = u.workers :=
    fun u cloud_mode q => by
      unfold World.sendIf
      split_ifs
      · rfl
      · rfl
  obtain ⟨hst, hno⟩ := hst
  cases hst with
  | create => exact hsame (hsend _ _ _)
  | get => exact hsame rfl
  | edit => exact hsame rfl
  | save => exact hsame (hsend _ _ _)
  | delete => exact hsame rfl
  | listen => exact hsame rfl
  | handle v q res db hq hres hreads =>
    by_cases hv : w = v
    · subst hv
      have hself : Function.update s.workers w db w = db := Function.update_self _ _ _
      obtain ⟨hhandled, -⟩ := h.handled hq hres
      change ∃ l : ShoppingList,
        (Function.update s.workers w db w).find? k.url = some l.toJson ∧ l.WF ∧
          ShoppingList.Grown k l
      rw [hself]
      exact hhandled.grown h (hno q res (.intro db hq hres hreads)) hk hfind
    · have hrest : Function.update s.workers v db w = s.workers w := Function.update_of_ne hv _ _
      change ∃ l : ShoppingList,
        (Function.update s.workers v db w).find? k.url = some l.toJson ∧ l.WF ∧
          ShoppingList.Grown k l
      rw [hrest]
      exact ⟨k, hfind, hwf, .refl k⟩

omit [DecidableEq κ] [DecidableEq ω] in
theorem Tracked.mem_of_stored (h : Tracked text g s) {w : ω} {url : String} {l : ShoppingList}
    (hwf : l.WF) (hfind : (s.workers w).find? url = some l.toJson) : l ∈ g.all ∧ l.url = url := by
  obtain ⟨o, ho, hjson, hurl, -⟩ := h.stored w url _ hfind
  obtain rfl := toJson_injective hwf (h.sound.wf o ho) hjson
  exact ⟨ho, hurl⟩

theorem Tracked.unreset (h : Tracked text g s) {w : ω} {k : ShoppingList} (hk : k ∈ g.all)
    (hfind : (s.workers w).find? k.url = some k.toJson) (ht : Run (Unreset text w k.url) s t) :
    ∃ g', g.all ⊆ g'.all ∧ Tracked text g' t ∧ ∃ l ∈ g'.all,
      (t.workers w).find? l.url = some l.toJson ∧ ShoppingList.Grown k l := by
  refine ht.invariant (fun t => ∃ g', g.all ⊆ g'.all ∧ Tracked text g' t ∧ ∃ l ∈ g'.all,
    (t.workers w).find? l.url = some l.toJson ∧ ShoppingList.Grown k l)
    ⟨g, subset_rfl, h, k, hk, hfind, .refl k⟩ ?_
  rintro a b ⟨ga, hsub, ha, l, hl, hfl, hgrown⟩ hst
  obtain ⟨gb, hsub', hb⟩ := ha.step hst.1
  rw [← hgrown.url] at hst
  obtain ⟨l', hfl', hwf, hgrown'⟩ := Step.stored_grown ha hst hl hfl
  rw [← hgrown'.url] at hfl'
  exact ⟨gb, hsub.trans hsub', hb, l', (hb.mem_of_stored hwf hfl').1, hfl',
    hgrown.trans hgrown'⟩

omit [DecidableEq κ] [DecidableEq ω] in
theorem Tracked.request_json (h : Tracked text g s) {q : ListRequest} {v : Json} {e : ShoppingList}
    (hq : q ∈ s.requests) (hv : q.json text = some v)
    (he : ShoppingList.fromJson v ShoppingList.blank = some e) : e ∈ g.all ∧ v = e.toJson := by
  have hjson : ∃ r ∈ g.all, v = r.toJson := by
    by_cases htype : q.request_type = "CREATE_LIST" ∨ q.request_type = "UPDATE_LIST"
    · rcases h.request q hq with hget | ⟨r, hr, -, hcarries⟩
      · rw [hget] at htype
        exact absurd htype (by decide)
      · exact ⟨r, hr, Option.some.inj (hv.symm.trans (json_of_carries hcarries htype))⟩
    · obtain ⟨hcreate, hupdate⟩ := not_or.1 htype
      unfold ListRequest.json at hv
      rw [if_neg hcreate, if_neg hupdate] at hv
      cases hv
  obtain ⟨r, hr, rfl⟩ := hjson
  rw [eq_of_fromJson (h.sound.wf r hr) he]
  exact ⟨hr, rfl⟩

/-- What a worker has under the url of a list that it has got. -/
theorem Tracked.received (h : Tracked text g s) {w : ω} {q : ListRequest} {res : Response}
    (hhandles : Handles text w q res s t) {e : ShoppingList} (he : e ∈ g.all)
    (hjson : q.json text = some e.toJson) :
    ∃ g', g.all ⊆ g'.all ∧ Tracked text g' t ∧ ∃ l ∈ g'.all,
      (t.workers w).find? l.url = some l.toJson ∧ l.url = e.url ∧ e.meaning ≤ l.meaning := by
  obtain ⟨g', hsub, h'⟩ := h.step hhandles.step
  refine ⟨g', hsub, h', ?_⟩
  cases hhandles with
  | intro db hq hres hreads =>
    obtain ⟨hhandled, -⟩ := h.handled hq hres
    obtain ⟨-, l, hfind, hwf, hurl, hle⟩ := hhandled.takes h he hjson
    have hstored : (Function.update s.workers w db w).find? l.url = some l.toJson := by
      rw [Function.update_self, hurl]
      exact hfind
    exact ⟨l, (h'.mem_of_stored hwf hstored).1, hstored, hurl, hle⟩

/-- **A worker's list grows until a CREATE_LIST for it.** What a request has brought is in all that
the worker has under the url from then on. -/
theorem stored_grows (hs : Run (Step text) (init : World κ ω) s) {w : ω} {q : ListRequest}
    {res : Response} (hhandles : Handles text w q res s t) {v : Json} {e : ShoppingList}
    (hv : q.json text = some v) (he : ShoppingList.fromJson v ShoppingList.blank = some e)
    (hu : Run (Unreset text w e.url) t u) :
    ∃ j l, (u.workers w).find? e.url = some j ∧
      ShoppingList.fromJson j ShoppingList.blank = some l ∧ l.url = e.url ∧
      ShoppingList.Absorbs l e := by
  obtain ⟨g, -, h⟩ := Tracked.init.run hs
  obtain ⟨hmem, rfl⟩ : e ∈ g.all ∧ v = e.toJson := by
    cases hhandles with
    | intro db hq hres hreads => exact h.request_json hq hv he
  obtain ⟨g', hsub, h', k, hk, hfind, hurl, hle⟩ := h.received hhandles hmem hv
  rw [← hurl] at hu
  obtain ⟨gu, hsubu, h'', l, hl, hfl, hgrown⟩ := h'.unreset hk hfind hu
  have hlu : l.url = e.url := hgrown.url.trans hurl
  refine ⟨_, l, hlu ▸ hfl, (h''.sound.wf l hl).fromJson_toJson "" "" "", hlu, ?_⟩
  exact h''.absorbs hl (hsubu (hsub hmem)) hlu (hle.trans hgrown.le)

theorem stored_handles : Handles appleText () ⟨"UPDATE_LIST", "msla-user1",
    [applePartyText "user1"]⟩ ⟨"Updated shopping list with success!", applePartyText ""⟩
    saved stored :=
  .intro _ List.mem_cons_self handleRequest_apple fun _ => reads_apple "" (.inr rfl)

theorem json_apple : (⟨"UPDATE_LIST", "msla-user1", [applePartyText "user1"]⟩ :
    ListRequest).json appleText = some appleParty.toJson := by
  unfold ListRequest.json
  rw [if_neg (by decide), if_pos rfl]
  exact reads_apple "user1" (.inl rfl)

theorem stored_grows_apple :
    ∃ j l, (received.workers ()).find? appleParty.url = some j ∧
      ShoppingList.fromJson j ShoppingList.blank = some l ∧ l.url = appleParty.url ∧
      ShoppingList.Absorbs l appleParty := by
  have huuids : ∀ {s t : World Bool Unit} {q res}, Handles appleText () q res s t →
      t.uuids = s.uuids := by
    rintro _ _ _ _ ⟨⟩
    rfl
  exact stored_grows saved_run stored_handles json_apple
    (appleParty_wf.fromJson_toJson "" "" "")
    (.single ⟨received_step, fun q res h => absurd (huuids h) (by decide)⟩)

/-! ## From worker to client -/

/-- Worker `w` publishes what it then has under a url. -/
def Publishes (text : JsonText) (w : ω) (list_url shopping_list : String) (s t : World κ ω) :
    Prop :=
  shopping_list ≠ "" ∧ ∃ q res, Handles text w q res s t ∧ q.url_list = list_url ∧
    res.shopping_list = shopping_list

/-- Client `i` takes a publication. -/
inductive Takes (text : JsonText) (i : κ) (list_url shopping_list : String) (s : World κ ω) :
    World κ ω → Prop
  | intro (uuid : String) (j : Json) (db : Database)
      (hp : (list_url, shopping_list) ∈ s.published)
      (hj : text.getJsonFromUString shopping_list = some j) (hfresh : s.Fresh uuid)
      (hdb : LocalStore.updateList (s.clients i).db list_url uuid j = some db) :
      Takes text i list_url shopping_list s
        { s.setClient i ⟨db, (s.clients i).currentShoppingList⟩ with
          uuids := (i, uuid) :: s.uuids }

theorem Takes.step {i : κ} {list_url shopping_list : String}
    (h : Takes text i list_url shopping_list s t) : Step text s t := by
  cases h with
  | intro uuid j db hp hj hfresh hdb =>
    exact .listen s i list_url shopping_list uuid j db hp hj hfresh hdb

omit [DecidableEq κ] in
/-- What is published is what the worker then has. -/
theorem Tracked.publishes (h : Tracked text g s) {w : ω} {list_url shopping_list : String}
    (hpub : Publishes text w list_url shopping_list s t) :
    ∃ j, (t.workers w).find? list_url = some j ∧
      text.getJsonFromUString shopping_list = some j := by
  obtain ⟨hne, q, res, hhandles, rfl, rfl⟩ := hpub
  cases hhandles with
  | intro db hq hres hreads =>
    obtain ⟨-, hshown⟩ := h.handled hq hres
    obtain ⟨j, hj, htext⟩ := hshown hne
    have hread : text.Reads (db.get q.url_list) := hreads hne
    unfold JsonText.Reads Database.get at hread
    rw [hj, Option.getD_some, ← htext] at hread
    refine ⟨j, ?_, hread⟩
    change (Function.update s.workers w db w).find? q.url_list = some j
    rw [Function.update_self]
    exact hj

/-- What a client holds under the url of a publication it has taken. -/
theorem Tracked.taken (h : Tracked text g s) {i : κ} {list_url shopping_list : String}
    (htakes : Takes text i list_url shopping_list s t) {m : ShoppingList} (hm : m ∈ g.all)
    (hread : text.getJsonFromUString shopping_list = some m.toJson) :
    m.url = list_url ∧ ∃ g', g.all ⊆ g'.all ∧ Tracked text g' t ∧ ∃ l ∈ g'.all, t.Holds i l ∧
      l.url = list_url ∧ ((∃ k ∈ g.all, s.Holds i k ∧ k.url = list_url ∧
        l.meaning = k.meaning ⊔ m.meaning) ∨ l.meaning = m.meaning) := by
  obtain ⟨g', hsub, h'⟩ := h.step htakes.step
  cases htakes with
  | intro uuid j db hp hj hfresh hdb =>
    obtain ⟨r, hr, rfl, rfl, hstored⟩ := h.listened hp hj hdb
    obtain rfl := toJson_injective (h.sound.wf m hm) (h.sound.wf r hr)
      (Option.some.inj (hread.symm.trans hj))
    have hholds : ∀ {l : ShoppingList}, db.find? l.url = some l.toJson →
        Holds { s.setClient i ⟨db, (s.clients i).currentShoppingList⟩ with
          uuids := (i, uuid) :: s.uuids } i l := by
      intro l hfind
      change (Function.update s.clients i _ i).db.find? l.url = _
      rw [Function.update_self]
      exact hfind
    refine ⟨rfl, g', hsub, h', ?_⟩
    rcases hstored with ⟨k, hk, hhk, hurl, rfl⟩ | ⟨-, rfl⟩
    · obtain ⟨hjoin, hderives⟩ := (h.sound.derives hk).join (h.sound.derives hm) hurl
      have hhl := hholds (l := { k with items := k.items.join m.items })
        (hurl ▸ SortedMap.find?_set_self _ _ _)
      exact ⟨_, h'.mem_of_holds (hjoin ▸ hderives.wf) hhl, hhl, hurl,
        .inl ⟨k, hk, hhk, hurl, (h.sound.kin.meaning_join hk hm hurl).2⟩⟩
    · have hhl := hholds (l := m.setId uuid) (SortedMap.find?_set_self _ _ _)
      exact ⟨_, h'.mem_of_holds ((h.sound.wf m hm).setId uuid) hhl, hhl, rfl, .inr rfl⟩

/-- **Delivery.** A list that a worker has got is in what every client holds that has taken what the
worker published then or later, if no CREATE_LIST for it came in between, as long as the client
keeps the list and every save and update is one step. -/
theorem update_delivered {s₁ t₁ u₁ x : World κ ω} (hs : Run (Step text) (init : World κ ω) s)
    {w : ω} {q : ListRequest} {res : Response} (hhandles : Handles text w q res s s₁)
    {v : Json} {e : ShoppingList} (hv : q.json text = some v)
    (he : ShoppingList.fromJson v ShoppingList.blank = some e)
    (ht : Run (Step text) (init : World κ ω) t) {shopping_list : String}
    (hpub : Publishes text w e.url shopping_list t t₁) (hreset : Run (Unreset text w e.url) s₁ t₁)
    (hu : Run (Step text) t₁ u) {i : κ} (htakes : Takes text i e.url shopping_list u u₁)
    (hx : Run (Keeping text i e.url) u₁ x) :
    ∃ j l, (x.clients i).db.find? e.url = some j ∧
      ShoppingList.fromJson j ShoppingList.blank = some l ∧ l.url = e.url ∧
      ShoppingList.Absorbs l e := by
  obtain ⟨g, -, h⟩ := Tracked.init.run hs
  obtain ⟨hmem, rfl⟩ : e ∈ g.all ∧ v = e.toJson := by
    cases hhandles with
    | intro db hq hres hreads => exact h.request_json hq hv he
  -- what the worker has when it publishes
  obtain ⟨g₁, hsub₁, h₁, k, hk, hfind, hurl, hle⟩ := h.received hhandles hmem hv
  rw [← hurl] at hreset
  obtain ⟨g₂, hsub₂, h₂, m, hm, hfm, hgrown⟩ := h₁.unreset hk hfind hreset
  have hmu : m.url = e.url := hgrown.url.trans hurl
  obtain ⟨gt, -, htracked⟩ := Tracked.init.run ht
  obtain ⟨j, hj, hread⟩ := htracked.publishes hpub
  rw [← hmu, hfm] at hj
  cases hj
  -- what the client has when it has taken it
  obtain ⟨g₃, hsub₃, h₃⟩ := h₂.run hu
  obtain ⟨-, g₄, hsub₄, h₄, l, hl, hhl, hlu, hcase⟩ := h₃.taken htakes (hsub₃ hm) hread
  have hml : m.meaning ≤ l.meaning := by
    rcases hcase with ⟨o, -, -, -, hmeaning⟩ | hmeaning
    · exact le_sup_right.trans_eq hmeaning.symm
    · exact hmeaning.ge
  rw [← hlu] at hx
  obtain ⟨g₅, hsub₅, h₅, n, hn, hhn, hgrown'⟩ := h₄.keeping hl hhl hx
  have hnu : n.url = e.url := hgrown'.url.trans hlu
  have hfn : (x.clients i).db.find? e.url = some n.toJson := hnu ▸ hhn
  refine ⟨_, n, hfn, (h₅.sound.wf n hn).fromJson_toJson "" "" "", hnu, ?_⟩
  exact h₅.absorbs hn (hsub₅ (hsub₄ (hsub₃ (hsub₂ (hsub₁ hmem))))) hnu
    (hle.trans (hgrown.le.trans (hml.trans hgrown'.le)))

/-- **Convergence.** Clients that take a publication which has everything that sessions for its url
have had show what it shows, in runs whose sessions, saves, updates and requests are one step
each. -/
theorem cover_converges {E : Set ShoppingList}
    (hs : Run (Recording (Step text) sessions) ((init : World κ ω), ∅) (s, E)) {i : κ}
    {list_url shopping_list : String} (htakes : Takes text i list_url shopping_list s t) {v : Json}
    {m : ShoppingList} (hv : text.getJsonFromUString shopping_list = some v)
    (hm : ShoppingList.fromJson v ShoppingList.blank = some m)
    (hcover : ∀ e ∈ E, e.url = list_url → ShoppingList.Absorbs m e) :
    ∃ j l, (t.clients i).db.find? list_url = some j ∧
      ShoppingList.fromJson j ShoppingList.blank = some l ∧ ShoppingList.Shows l m := by
  obtain ⟨g, hg⟩ := Sourced.run hs
  have h := hg.tracked
  have hkin := h.sound.kin
  obtain ⟨hmem, rfl⟩ : m ∈ g.all ∧ v = m.toJson := by
    cases htakes with
    | intro uuid j db hp hj hfresh hdb =>
      obtain ⟨r, hr, -, -, hread⟩ := h.published list_url shopping_list hp
      rw [hv] at hread
      cases hread
      rw [eq_of_fromJson (h.sound.wf r hr) hm]
      exact ⟨hr, rfl⟩
  obtain ⟨hmu, g', hsub, h', l, hl, hhl, hlu, hcase⟩ := h.taken htakes hmem hv
  have hfind : (t.clients i).db.find? list_url = some l.toJson := hlu ▸ hhl
  refine ⟨_, l, hfind, (h'.sound.wf l hl).fromJson_toJson "" "" "",
    (h'.sound.wf l hl).shows (h'.sound.wf m (hsub hmem)) ?_⟩
  rcases hcase with ⟨k, hk, hhk, hku, hmeaning⟩ | hmeaning
  · -- what the client held was made of lists that sessions had
    obtain ⟨es, hes, hmerge⟩ := hg.merges k (h.occurs_holds hk hhk)
    rw [hmeaning, sup_eq_right, ← hmerge,
      hkin.meaning_joinAll_le_iff fun e he => ⟨hg.sub (hes e he).1, (hes e he).2⟩]
    intro e he
    obtain ⟨heE, heu⟩ := hes e he
    exact (hkin.absorbs_iff hmem (hg.sub heE) (hmu.trans (hku.symm.trans heu.symm))).1
      (hcover e heE (heu.trans hku))
  · exact hmeaning

theorem stored_publishes :
    Publishes appleText () "msla-user1" (applePartyText "") saved stored :=
  ⟨by decide +kernel, _, _, stored_handles, rfl, rfl⟩

theorem received_takes :
    Takes appleText true "msla-user1" (applePartyText "") stored received := by
  refine .intro "user2" _ _ List.mem_cons_self (reads_apple "" (.inr rfl)) (fun i hi => ?_) rfl
  simp [stored, saved, World.sendIf, opened, World.pick, World.setClient, made] at hi

theorem update_delivered_apple :
    ∃ j l, (received.clients true).db.find? appleParty.url = some j ∧
      ShoppingList.fromJson j ShoppingList.blank = some l ∧ l.url = appleParty.url ∧
      ShoppingList.Absorbs l appleParty :=
  update_delivered saved_run stored_handles json_apple
    (appleParty_wf.fromJson_toJson "" "" "") saved_run stored_publishes .refl .refl received_takes
    .refl

theorem cover_converges_apple :
    ∃ j l, (received.clients true).db.find? "msla-user1" = some j ∧
      ShoppingList.fromJson j ShoppingList.blank = some l ∧
      ShoppingList.Shows l (appleParty.setId "") := by
  have hstart : Run (Recording (Step appleText) sessions) ((init : World Bool Unit), ∅) (init, ∅) :=
    .refl
  have hrun := (((hstart.record made_step).record opened_step).record saved_step).record stored_step
  refine cover_converges hrun received_takes (reads_apple "" (.inr rfl))
    ((appleParty_wf.setId "").fromJson_toJson "" "" "") fun e he _ => ?_
  -- there has been one session
  have happle : e = appleParty := by
    rcases he with (((he | ⟨i, hi⟩) | ⟨i, hi⟩) | ⟨i, hi⟩) | ⟨i, hi⟩
    · cases he
    · cases i <;> cases hi
    · cases i
      · exact (Option.some.inj hi).symm
      · cases hi
    · cases i <;> cases hi
    · cases i <;> cases hi
  have hitems : ((appleParty.setId "").join appleParty).2.items = appleParty.items := by
    rw [ShoppingList.join_of_header_eq (l := appleParty.setId "") (o := appleParty) rfl rfl]
    exact appleParty_wf.items.join_self appleParty_wf.compacted
  rw [happle]
  exact ⟨fun name d => by rw [hitems]; rfl, by rw [hitems]; rfl⟩

end World

end ShoppingApp
