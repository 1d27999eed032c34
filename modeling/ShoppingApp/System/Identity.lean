import ShoppingApp.Lib.Replication
import ShoppingApp.System.World
import ShoppingApp.Verify.LocalStore
import ShoppingApp.Verify.RequestHandler

/-!
# Identifiers and dots across the system

No function keeps identifiers and dots unique: a client takes a new identifier for each list it
comes to hold, workers hold lists without one, and a list's dots are numbered by what the client
has seen. The invariant (`Tracked`) speaks of all lists there have been (`Lists`): one registry of
dots for each url, and with each client that holds a list the dots of its identifier.
-/

namespace ShoppingApp

open Replication (Run)

/-- All lists there have been, with what each dot was made for and the title, both by url. -/
structure Lists where
  all : Set ShoppingList
  registry : String → ShoppingList.Registry
  title : String → String

namespace Lists

/-- The lists are well formed, of one title and one registry for each url, and the identifiers in
their dots and urls have been given out. -/
structure Sound (g : Lists) (used : Set String) : Prop where
  wf : ∀ l ∈ g.all, l.WF
  title : ∀ l ∈ g.all, l.title = g.title l.url
  records : ∀ l ∈ g.all, ShoppingList.Records (g.registry l.url) l
  dot : ∀ l ∈ g.all, ∀ d, l.items.context.contains d = true → 0 ≤ d.second → d.first ∈ used
  url : ∀ l ∈ g.all, ∃ x ∈ used, l.url = "msla-" ++ x

/-- The list has seen every dot of its identifier that a list of its url has. -/
def Own (g : Lists) (l : ShoppingList) : Prop :=
  ∀ k ∈ g.all, k.url = l.url → ∀ d, 0 ≤ d.second → d.first = l.id →
    k.items.context.contains d = true → l.items.context.contains d = true

/-- A list that was made from lists there have been, without new dots. -/
structure Derives (g : Lists) (n : ShoppingList) : Prop where
  wf : n.WF
  title : n.title = g.title n.url
  records : ShoppingList.Records (g.registry n.url) n
  source : ∃ k ∈ g.all, k.url = n.url
  seen : ∀ d, n.items.context.contains d = true →
    ∃ k ∈ g.all, k.url = n.url ∧ k.items.context.contains d = true

def add (g : Lists) (n : ShoppingList) : Lists := { g with all := insert n g.all }

variable {g : Lists} {used : Set String} {l n o : ShoppingList}

theorem Sound.derives (h : g.Sound used) (hl : l ∈ g.all) : g.Derives l :=
  ⟨h.wf l hl, h.title l hl, h.records l hl, ⟨l, hl, rfl⟩, fun _ hd => ⟨l, hl, rfl, hd⟩⟩

theorem Derives.setId (h : g.Derives n) (id : String) : g.Derives (n.setId id) :=
  ⟨h.wf.setId id, h.title, h.records, h.source, h.seen⟩

/-- Lists of one url have one title, so they merge. -/
theorem Derives.join (hl : g.Derives l) (ho : g.Derives o) (hurl : l.url = o.url) :
    (l.join o).2 = { l with items := l.items.join o.items } ∧ g.Derives (l.join o).2 := by
  have htitle : l.title = o.title := by rw [hl.title, ho.title, hurl]
  have hjoin : (l.join o).2 = { l with items := l.items.join o.items } := by
    rw [ShoppingList.join_of_header_eq htitle hurl]
  refine ⟨hjoin, hl.wf.join ho.wf, ?_, ?_, ?_, fun d hd => ?_⟩
  · rw [hjoin]
    exact hl.title
  · have hrecords := ShoppingList.Records.join hl.wf ho.wf hl.records (by rw [hurl]; exact ho.records)
    rw [hjoin] at hrecords ⊢
    exact hrecords
  · rw [hjoin]
    exact hl.source
  · rcases hl.wf.contains_of_join ho.wf hd with hd | hd
    · rw [hjoin]
      exact hl.seen d hd
    · obtain ⟨k, hk, hku, hkd⟩ := ho.seen d hd
      rw [hjoin]
      exact ⟨k, hk, hku.trans hurl.symm, hkd⟩

theorem Sound.add (h : g.Sound used) (hn : g.Derives n) : (g.add n).Sound used := by
  have hmem : ∀ {l}, l ∈ (g.add n).all → l = n ∨ l ∈ g.all := fun h => h
  refine ⟨fun l hl => ?_, fun l hl => ?_, fun l hl => ?_, fun l hl d hd hnn => ?_, fun l hl => ?_⟩
  · rcases hmem hl with rfl | hl
    · exact hn.wf
    · exact h.wf l hl
  · rcases hmem hl with rfl | hl
    · exact hn.title
    · exact h.title l hl
  · rcases hmem hl with rfl | hl
    · exact hn.records
    · exact h.records l hl
  · rcases hmem hl with rfl | hl
    · obtain ⟨k, hk, -, hkd⟩ := hn.seen d hd
      exact h.dot k hk d hkd hnn
    · exact h.dot l hl d hd hnn
  · rcases hmem hl with rfl | hl
    · obtain ⟨k, hk, hurl⟩ := hn.source
      rw [← hurl]
      exact h.url k hk
    · exact h.url l hl

/-- A derived list brings no dots that were not there. -/
theorem Own.add (h : g.Own l) (hn : g.Derives n) : (g.add n).Own l := by
  intro k hk hurl d hnn hd hseen
  rcases hk with rfl | hk
  · obtain ⟨k', hk', hurl', hseen'⟩ := hn.seen d hseen
    exact h k' hk' (hurl'.trans hurl) d hnn hd hseen'
  · exact h k hk hurl d hnn hd hseen

theorem Own.of_contains (h : g.Own l) (hid : n.id = l.id) (hurl : n.url = l.url)
    (hmono : ∀ d, l.items.context.contains d = true → n.items.context.contains d = true) :
    g.Own n := fun k hk hku d hnn hd hseen =>
  hmono d (h k hk (hku.trans hurl) d hnn (hd.trans hid) hseen)

/-- An identifier that has not been given out is in no dot. -/
theorem Sound.own_fresh (h : g.Sound used) (hfresh : l.id ∉ used) : g.Own l := by
  intro k hk _ d hnn hd hseen
  exact absurd (hd ▸ h.dot k hk d hseen hnn) hfresh

theorem Sound.mono {used' : Set String} (h : g.Sound used) (hsub : used ⊆ used') :
    g.Sound used' :=
  ⟨h.wf, h.title, h.records, fun l hl d hd hnn => hsub (h.dot l hl d hd hnn), fun l hl =>
    (h.url l hl).imp fun _ hx => ⟨hsub hx.1, hx.2⟩⟩

/-- The lists with a new one, under a title of its own. -/
def create (g : Lists) (n : ShoppingList) : Lists :=
  { g with all := insert n g.all, title := Function.update g.title n.url n.title }

/-- A new list has a url that no other has, and no dots. -/
theorem Sound.create (h : g.Sound used) {uuid : String} (list_name : String)
    (hfresh : uuid ∉ used) :
    (g.create (.new uuid list_name ("msla-" ++ uuid))).Sound (insert uuid used) ∧
      ∀ l, g.Own l → (g.create (.new uuid list_name ("msla-" ++ uuid))).Own l := by
  have hempty : ∀ d, (∅ : DotContext).contains d = false := DotContext.contains_empty
  have hne : ∀ l ∈ g.all, l.url ≠ "msla-" ++ uuid := by
    intro l hl hurl
    obtain ⟨x, hx, hux⟩ := h.url l hl
    have hxu : x = uuid := by
      apply String.ext
      have hlist := congrArg String.toList (hux.symm.trans hurl)
      rw [String.toList_append, String.toList_append] at hlist
      exact List.append_cancel_left hlist
    exact hfresh (hxu ▸ hx)
  refine ⟨⟨?_, ?_, ?_, ?_, ?_⟩, ?_⟩
  · rintro l (rfl | hl)
    · exact ShoppingList.WF.new _ _ _
    · exact h.wf l hl
  · rintro l (rfl | hl)
    · exact (Function.update_self (f := g.title) _ _).symm
    · rw [h.title l hl]
      exact (Function.update_of_ne (f := g.title) (hne l hl) _).symm
  · rintro l (rfl | hl)
    · exact .new _ _ _ _
    · exact h.records l hl
  · rintro l (rfl | hl) d hd hnn
    · rw [show ShoppingList.items _ = ∅ from rfl] at hd
      exact absurd hd (by rw [show ORMap.context ∅ = ∅ from rfl, hempty]; exact Bool.false_ne_true)
    · exact .inr (h.dot l hl d hd hnn)
  · rintro l (rfl | hl)
    · exact ⟨uuid, .inl rfl, rfl⟩
    · obtain ⟨x, hx, hurl⟩ := h.url l hl
      exact ⟨x, .inr hx, hurl⟩
  · rintro l hown k (rfl | hk) hurl d hnn hd hseen
    · exact absurd hseen (by
        rw [show ShoppingList.items _ = ∅ from rfl, show ORMap.context ∅ = ∅ from rfl, hempty]
        exact Bool.false_ne_true)
    · exact hown k hk hurl d hnn hd hseen

/-- The lists with the list after an operation, its dot registered. -/
def perform (g : Lists) (l : ShoppingList) (op : ShoppingList.Op) (x : Option (String × Int)) :
    Lists where
  all := insert (l.perform op).2 g.all
  registry := Function.update g.registry l.url (Function.update (g.registry l.url) l.nextDot x)
  title := g.title

/-- **An operation makes a dot that no list has had.** -/
theorem Sound.perform (h : g.Sound used) (hl : l ∈ g.all) (hown : g.Own l) (hid : l.id ∈ used)
    (op : ShoppingList.Op) : ∃ x, (g.perform l op x).Sound used := by
  have hwf := h.wf l hl
  obtain ⟨x, hx⟩ := (h.records l hl).perform hwf op
  obtain ⟨hpid, hptitle, hpurl⟩ := l.perform_header op
  have hfresh : ∀ k ∈ g.all, k.url = l.url → k.items.context.contains l.nextDot = false := by
    intro k hk hurl
    by_contra hseen
    have hdom := hown k hk hurl l.nextDot (hwf.items.nonNeg.nextDot_pos _).le
      (DotContext.nextDot_first _ _) (Bool.eq_true_of_not_eq_false hseen)
    rw [hwf.nextDot_fresh] at hdom
    cases hdom
  refine ⟨x, ?_, ?_, ?_, ?_, ?_⟩
  · rintro k (rfl | hk)
    · exact hwf.perform op
    · exact h.wf k hk
  · rintro k (rfl | hk)
    · rw [hptitle, h.title l hl, hpurl]
      rfl
    · exact h.title k hk
  · rintro k (rfl | hk)
    · change ShoppingList.Records (Function.update g.registry l.url _ (l.perform op).2.url) _
      rw [hpurl, Function.update_self]
      exact hx
    · change ShoppingList.Records (Function.update g.registry l.url _ k.url) k
      by_cases hurl : k.url = l.url
      · rw [hurl, Function.update_self]
        exact (hurl ▸ h.records k hk).update (h.wf k hk) (hfresh k hk hurl) x
      · rw [Function.update_of_ne hurl]
        exact h.records k hk
  · rintro k (rfl | hk) d hd hnn
    · rcases hwf.contains_of_perform hd with hdid | hold
      · rw [hdid]
        exact hid
      · exact h.dot l hl d hold hnn
    · exact h.dot k hk d hd hnn
  · rintro k (rfl | hk)
    · rw [hpurl]
      exact h.url l hl
    · exact h.url k hk

/-- After an operation the list has still seen all dots of its identifier. -/
theorem Own.perform (hwf : l.WF) (hown : g.Own l) (op : ShoppingList.Op)
    (x : Option (String × Int)) : (g.perform l op x).Own (l.perform op).2 := by
  obtain ⟨hid, -, hurl⟩ := l.perform_header op
  rintro k (rfl | hk) hku d hnn hd hseen
  · exact hseen
  · exact hwf.contains_perform op (hown k hk (hku.trans hurl) d hnn (hd.trans hid) hseen)

/-- It brings no dots of other identifiers. -/
theorem Own.perform_ne {m : ShoppingList} (h : g.Own m) (hwf : l.WF) (hl : l ∈ g.all)
    (op : ShoppingList.Op) (x : Option (String × Int)) (hne : m.id ≠ l.id ∨ m.url ≠ l.url) :
    (g.perform l op x).Own m := by
  obtain ⟨-, -, hurl⟩ := l.perform_header op
  rintro k (rfl | hk) hku d hnn hd hseen
  · rcases hwf.contains_of_perform hseen with hdid | hold
    · rcases hne with hid | hmu
      · exact absurd (hd.symm.trans hdid) hid
      · exact absurd (hku.symm.trans hurl) hmu
    · exact h l hl (hurl.symm.trans hku) d hnn hd hold
  · exact h k hk hku d hnn hd hseen

end Lists

namespace World

variable {κ ω : Type*} {text : JsonText} {g g' : Lists} {s t : World κ ω}

/-! ## Where the lists are -/

def used (s : World κ ω) : Set String := {x | ∃ i, (i, x) ∈ s.uuids}

/-- Client `i` has the list in its database. -/
def Holds (s : World κ ω) (i : κ) (l : ShoppingList) : Prop :=
  (s.clients i).db.find? l.url = some l.toJson

/-- All databases, sessions and messages hold lists that there have been, each under its url.
Clients hold lists under identifiers of their own, whose dots they have all seen; workers hold and
publish lists without one. -/
structure Tracked (text : JsonText) (g : Lists) (s : World κ ω) : Prop where
  sound : g.Sound s.used
  one : ∀ i j x, (i, x) ∈ s.uuids → (j, x) ∈ s.uuids → i = j
  entry : ∀ i url j, (s.clients i).db.find? url = some j →
    ∃ l ∈ g.all, j = l.toJson ∧ l.url = url ∧ (i, l.id) ∈ s.uuids
  session : ∀ i e, (s.clients i).currentShoppingList = some e →
    e ∈ g.all ∧ g.Own e ∧ ∃ l ∈ g.all, s.Holds i l ∧ l.url = e.url ∧ l.id = e.id
  picked : ∀ i e, (s.clients i).currentShoppingList = some e → e.url = s.update_list_list_url i
  latest : ∀ i, ∀ l ∈ g.all, s.Holds i l →
    (∀ e, (s.clients i).currentShoppingList = some e → e.url ≠ l.url) → g.Own l
  stored : ∀ w url j, (s.workers w).find? url = some j →
    ∃ l ∈ g.all, j = l.toJson ∧ l.url = url ∧ l.id = ""
  request : ∀ q ∈ s.requests, q.request_type = "GET_LIST" ∨
    ∃ l ∈ g.all, l.url = q.url_list ∧
      RequestHandler.Carries text q.request_type q.body l
  published : ∀ url shown, (url, shown) ∈ s.published →
    ∃ l ∈ g.all, l.url = url ∧ l.id = "" ∧ text.getJsonFromUString shown = some l.toJson

theorem toJson_injective {l o : ShoppingList} (hl : l.WF) (ho : o.WF) (h : l.toJson = o.toJson) :
    l = o := by
  have hdecode := hl.fromJson_toJson "" "" ""
  rw [h, ho.fromJson_toJson "" "" ""] at hdecode
  exact (Option.some.inj hdecode).symm

theorem Tracked.init : Tracked text ⟨∅, fun _ _ => none, fun _ => ""⟩ (init : World κ ω) where
  sound := ⟨fun _ h => h.elim, fun _ h => h.elim, fun _ h => h.elim, fun _ h => h.elim,
    fun _ h => h.elim⟩
  one _ _ _ h := absurd h List.not_mem_nil
  entry i url j h := by
    have hnone : (∅ : Database).find? url = some j := h
    rw [SortedMap.find?_empty] at hnone
    cases hnone
  session _ _ h := by cases h
  picked _ _ h := by cases h
  latest _ _ h := h.elim
  stored w url j h := by
    have hnone : (∅ : Database).find? url = some j := h
    rw [SortedMap.find?_empty] at hnone
    cases hnone
  request _ h := absurd h List.not_mem_nil
  published _ _ h := absurd h List.not_mem_nil

theorem Tracked.mem_of_holds (h : Tracked text g s) {i : κ} {l : ShoppingList} (hwf : l.WF)
    (hholds : s.Holds i l) : l ∈ g.all := by
  obtain ⟨l', hl', hjson, -⟩ := h.entry i l.url _ hholds
  rw [toJson_injective hwf (h.sound.wf l' hl') hjson]
  exact hl'

/-- A client holds lists under its own identifiers. -/
theorem Tracked.holds_id (h : Tracked text g s) {i : κ} {l : ShoppingList} (hl : l ∈ g.all)
    (hholds : s.Holds i l) : (i, l.id) ∈ s.uuids := by
  obtain ⟨l', hl', hjson, -, hid⟩ := h.entry i l.url _ hholds
  obtain rfl := toJson_injective (h.sound.wf l hl) (h.sound.wf l' hl') hjson
  exact hid

/-- More lists, with no more dots of identifiers that are held. -/
theorem Tracked.mono (h : Tracked text g s) (hsub : g.all ⊆ g'.all) (hsound : g'.Sound s.used)
    (hown : ∀ l, g.Own l → g'.Own l) : Tracked text g' s where
  sound := hsound
  one := h.one
  entry i url j hj := by
    obtain ⟨l, hl, hrest⟩ := h.entry i url j hj
    exact ⟨l, hsub hl, hrest⟩
  session i e he := by
    obtain ⟨hmem, he', l, hl, hrest⟩ := h.session i e he
    exact ⟨hsub hmem, hown e he', l, hsub hl, hrest⟩
  picked := h.picked
  latest i l hl hholds hno :=
    hown l (h.latest i l (h.mem_of_holds (hsound.wf l hl) hholds) hholds hno)
  stored w url j hj := by
    obtain ⟨l, hl, hrest⟩ := h.stored w url j hj
    exact ⟨l, hsub hl, hrest⟩
  request q hq := (h.request q hq).imp_right fun ⟨l, hl, hrest⟩ => ⟨l, hsub hl, hrest⟩
  published url shown hp := by
    obtain ⟨l, hl, hrest⟩ := h.published url shown hp
    exact ⟨l, hsub hl, hrest⟩

theorem Tracked.add (h : Tracked text g s) {n : ShoppingList} (hn : g.Derives n) :
    Tracked text (g.add n) s :=
  h.mono (fun _ hl => .inr hl) (h.sound.add hn) fun _ hown => hown.add hn

/-- Lists of one url in one client's database are the same. -/
theorem Tracked.holds_unique (h : Tracked text g s) {i : κ} {l o : ShoppingList} (hl : l ∈ g.all)
    (ho : o ∈ g.all) (hhl : s.Holds i l) (hho : s.Holds i o) (hurl : l.url = o.url) : l = o := by
  unfold Holds at hhl hho
  rw [hurl, hho] at hhl
  exact toJson_injective (h.sound.wf l hl) (h.sound.wf o ho) (Option.some.inj hhl).symm

/-- A new identifier is given out. -/
theorem Tracked.give (h : Tracked text g s) {uuid : String} (hfresh : s.Fresh uuid) (i : κ) :
    Tracked text g { s with uuids := (i, uuid) :: s.uuids } where
  sound := h.sound.mono fun x ⟨j, hj⟩ => ⟨j, List.mem_cons_of_mem _ hj⟩
  one j k x hj hk := by
    rcases List.mem_cons.1 hj with hj | hj
    · cases hj
      rcases List.mem_cons.1 hk with hk | hk
      · cases hk
        rfl
      · exact absurd hk (hfresh k)
    · rcases List.mem_cons.1 hk with hk | hk
      · cases hk
        exact absurd hj (hfresh j)
      · exact h.one j k x hj hk
  entry j url v hv := by
    obtain ⟨l, hl, hjson, hurl, hid⟩ := h.entry j url v hv
    exact ⟨l, hl, hjson, hurl, List.mem_cons_of_mem _ hid⟩
  session := h.session
  picked := h.picked
  latest := h.latest
  stored := h.stored
  request := h.request
  published := h.published

theorem Tracked.sendIf (h : Tracked text g s) {q : ListRequest} (cloud_mode : Bool)
    (hq : cloud_mode = true → ∃ l ∈ g.all, l.url = q.url_list ∧
      RequestHandler.Carries text q.request_type q.body l) :
    Tracked text g (s.sendIf cloud_mode q) := by
  unfold World.sendIf
  cases cloud_mode with
  | false => exact h
  | true =>
    refine { h with request := fun q' hq' => ?_ }
    rcases List.mem_cons.1 hq' with rfl | hq'
    · exact .inr (hq rfl)
    · exact h.request q' hq'

section Steps

variable [DecidableEq κ]

/-- What is left to check when there are more lists, with no more dots of the other clients'
identifiers, and client `i` moves to another state. -/
theorem Tracked.moveClient (h : Tracked text g s) (i : κ) {c : ClientState}
    (hsub : g.all ⊆ g'.all) (hsound : g'.Sound s.used)
    (hother : ∀ j l, j ≠ i → (j, l.id) ∈ s.uuids → g.Own l → g'.Own l)
    (hentry : ∀ url j, c.db.find? url = some j →
      ∃ l ∈ g'.all, j = l.toJson ∧ l.url = url ∧ (i, l.id) ∈ s.uuids)
    (hsession : ∀ e, c.currentShoppingList = some e → e ∈ g'.all ∧ g'.Own e ∧
      ∃ l ∈ g'.all, c.db.find? l.url = some l.toJson ∧ l.url = e.url ∧ l.id = e.id)
    (hpicked : ∀ e, c.currentShoppingList = some e → e.url = s.update_list_list_url i)
    (hlatest : ∀ l ∈ g'.all, c.db.find? l.url = some l.toJson →
      (∀ e, c.currentShoppingList = some e → e.url ≠ l.url) → g'.Own l) :
    Tracked text g' (s.setClient i c) := by
  have hself : (s.setClient i c).clients i = c := Function.update_self _ _ _
  have hrest : ∀ j, j ≠ i → (s.setClient i c).clients j = s.clients j := fun j hj =>
    Function.update_of_ne hj _ _
  refine ⟨hsound, h.one, fun j => ?_, fun j => ?_, fun j => ?_, fun j => ?_, fun w url v hv => ?_,
    fun q hq => ?_, fun url shown hp => ?_⟩
  · by_cases hj : j = i
    · subst hj
      rw [hself]
      exact hentry
    · rw [hrest j hj]
      intro url v hv
      obtain ⟨l, hl, hlrest⟩ := h.entry j url v hv
      exact ⟨l, hsub hl, hlrest⟩
  · unfold Holds
    by_cases hj : j = i
    · subst hj
      rw [hself]
      exact hsession
    · rw [hrest j hj]
      intro e he
      obtain ⟨hmem, hown, l, hl, hholds, hlu, hlid⟩ := h.session j e he
      have hown' := hother j e hj (hlid ▸ h.holds_id hl hholds) hown
      exact ⟨hsub hmem, hown', l, hsub hl, hholds, hlu, hlid⟩
  · by_cases hj : j = i
    · subst hj
      rw [hself]
      exact hpicked
    · rw [hrest j hj]
      exact h.picked j
  · unfold Holds
    by_cases hj : j = i
    · subst hj
      rw [hself]
      exact hlatest
    · rw [hrest j hj]
      intro l hl hholds hno
      have hlg := h.mem_of_holds (hsound.wf l hl) hholds
      exact hother j l hj (h.holds_id hlg hholds) (h.latest j l hlg hholds hno)
  · obtain ⟨l, hl, hlrest⟩ := h.stored w url v hv
    exact ⟨l, hsub hl, hlrest⟩
  · exact (h.request q hq).imp_right fun ⟨l, hl, hlrest⟩ => ⟨l, hsub hl, hlrest⟩
  · obtain ⟨l, hl, hlrest⟩ := h.published url shown hp
    exact ⟨l, hsub hl, hlrest⟩

/-- The same with no more lists. -/
theorem Tracked.setClient (h : Tracked text g s) (i : κ) {c : ClientState}
    (hentry : ∀ url j, c.db.find? url = some j →
      ∃ l ∈ g.all, j = l.toJson ∧ l.url = url ∧ (i, l.id) ∈ s.uuids)
    (hsession : ∀ e, c.currentShoppingList = some e → e ∈ g.all ∧ g.Own e ∧
      ∃ l ∈ g.all, c.db.find? l.url = some l.toJson ∧ l.url = e.url ∧ l.id = e.id)
    (hpicked : ∀ e, c.currentShoppingList = some e → e.url = s.update_list_list_url i)
    (hlatest : ∀ l ∈ g.all, c.db.find? l.url = some l.toJson →
      (∀ e, c.currentShoppingList = some e → e.url ≠ l.url) → g.Own l) :
    Tracked text g (s.setClient i c) :=
  h.moveClient i subset_rfl h.sound (fun _ _ _ _ hown => hown) hentry hsession hpicked hlatest

/-- A client writes a list into its database and goes on with session `c`. -/
theorem Tracked.putEntry (h : Tracked text g s) {i : κ} {n : ShoppingList}
    {c : Option ShoppingList} (hn : n ∈ g.all) (hid : (i, n.id) ∈ s.uuids)
    (hsession : ∀ e, c = some e → (s.clients i).currentShoppingList = some e ∧
      (e.url = n.url → e.id = n.id))
    (hleft : ∀ e, (s.clients i).currentShoppingList = some e → c = some e ∨ e.url = n.url)
    (hown : (∀ e, c = some e → e.url ≠ n.url) → g.Own n) :
    Tracked text g (s.setClient i ⟨(s.clients i).db.set n.url n.toJson, c⟩) := by
  have hfind : ∀ url, ((s.clients i).db.set n.url n.toJson).find? url =
      if url = n.url then some n.toJson else (s.clients i).db.find? url := fun url => by
    rw [SortedMap.find?_set]
  refine h.setClient i (fun url v hv => ?_) (fun e he => ?_)
    (fun e he => h.picked i e (hsession e he).1) (fun l hl hholds hno => ?_)
  · rw [hfind] at hv
    split_ifs at hv with hurl
    · cases hv
      exact ⟨n, hn, rfl, hurl.symm, hid⟩
    · exact h.entry i url v hv
  · obtain ⟨hcurrent, hsame⟩ := hsession e he
    obtain ⟨hmem, he', l, hl, hholds, hlu, hlid⟩ := h.session i e hcurrent
    refine ⟨hmem, he', ?_⟩
    by_cases hurl : e.url = n.url
    · exact ⟨n, hn, by rw [hfind, if_pos rfl], hurl.symm, (hsame hurl).symm⟩
    · refine ⟨l, hl, ?_, hlu, hlid⟩
      rw [hfind, if_neg (hlu ▸ hurl)]
      exact hholds
  · rw [hfind] at hholds
    split_ifs at hholds with hurl
    · obtain rfl := toJson_injective (h.sound.wf n hn) (h.sound.wf l hl)
        (Option.some.inj hholds)
      exact hown hno
    · refine h.latest i l hl hholds fun e he heu => ?_
      rcases hleft e he with hc | hen
      · exact hno e hc heu
      · exact hurl (heu.symm.trans hen)

theorem Tracked.delete (h : Tracked text g s) {i : κ} (url : String)
    (hidle : (s.clients i).currentShoppingList = none) :
    Tracked text g (s.setClient i ⟨(s.clients i).db.del url, none⟩) := by
  have hfind : ∀ url' v, ((s.clients i).db.del url).find? url' = some v →
      (s.clients i).db.find? url' = some v := fun url' v hv => by
    unfold Database.del at hv
    rw [SortedMap.find?_erase] at hv
    split_ifs at hv
    exact hv
  refine h.setClient i (fun url' v hv => ?_) (fun e he => ?_) (fun e he => ?_)
    (fun l hl hholds _ => ?_)
  · exact h.entry i url' v (hfind url' v hv)
  · cases he
  · cases he
  · refine h.latest i l hl (hfind _ _ hholds) fun e he => ?_
    rw [hidle] at he
    cases he

/-- The client's session moves to a list under the identifier it holds its list under. -/
theorem Tracked.setSession (h : Tracked text g s) {i : κ} {e l : ShoppingList} (he : e ∈ g.all)
    (hown : g.Own e) (hl : l ∈ g.all) (hholds : s.Holds i l) (hurl : l.url = e.url)
    (hid : l.id = e.id) (hpicked : e.url = s.update_list_list_url i)
    (hleft : ∀ e', (s.clients i).currentShoppingList = some e' → e'.url = e.url) :
    Tracked text g (s.setClient i ⟨(s.clients i).db, some e⟩) := by
  refine h.setClient i (fun url v hv => h.entry i url v hv) (fun e' he' => ?_) (fun e' he' => ?_)
    (fun k hk hkh hno => ?_)
  · cases he'
    exact ⟨he, hown, l, hl, hholds, hurl, hid⟩
  · cases he'
    exact hpicked
  · refine h.latest i k hk hkh fun e' he' heu => ?_
    exact hno e rfl ((hleft e' he').symm.trans heu)

/-! ## The steps -/

/-- One operation of a session. -/
theorem Tracked.perform (h : Tracked text g s) {i : κ} {e : ShoppingList}
    (he : (s.clients i).currentShoppingList = some e) (op : ShoppingList.Op) :
    ∃ g', g.all ⊆ g'.all ∧
      Tracked text g' (s.setClient i ⟨(s.clients i).db, some (e.perform op).2⟩) := by
  obtain ⟨hmem, hown, l, hl, hholds, hlu, hlid⟩ := h.session i e he
  have hwf := h.sound.wf e hmem
  have hid : (i, e.id) ∈ s.uuids := hlid ▸ h.holds_id hl hholds
  obtain ⟨hpid, -, hpurl⟩ := e.perform_header op
  obtain ⟨x, hsound⟩ := h.sound.perform hmem hown ⟨i, hid⟩ op
  have hsub : g.all ⊆ (g.perform e op x).all := fun _ hk => .inr hk
  refine ⟨g.perform e op x, hsub, h.moveClient i hsub hsound (fun j k hji hk hko => ?_)
    (fun url v hv => ?_) (fun e' he' => ?_) (fun e' he' => ?_) fun k hk hkh hno => ?_⟩
  · -- the other clients' identifiers are not that of the session
    exact hko.perform_ne hwf hmem op x (.inl fun hke => hji (h.one j i e.id (hke ▸ hk) hid))
  · obtain ⟨k, hk, hkrest⟩ := h.entry i url v hv
    exact ⟨k, hsub hk, hkrest⟩
  · cases he'
    exact ⟨.inl rfl, hown.perform hwf op x, l, hsub hl, hholds, hlu.trans hpurl.symm,
      hlid.trans hpid.symm⟩
  · cases he'
    exact hpurl.trans (h.picked i e he)
  · have hne : e.url ≠ k.url := hpurl ▸ hno _ rfl
    have hkg := h.mem_of_holds (hsound.wf k hk) hkh
    refine (h.latest i k hkg hkh fun e' he' => ?_).perform_ne hwf hmem op x (.inr hne.symm)
    rw [he] at he'
    cases he'
    exact hne

/-- All operations of a session. -/
theorem Tracked.session_foldl : ∀ (ops : List ShoppingList.Op) {g : Lists} {s : World κ ω} {i : κ}
    {e : ShoppingList}, Tracked text g s → (s.clients i).currentShoppingList = some e →
    ∃ g', g.all ⊆ g'.all ∧ Tracked text g' (s.setClient i
      ⟨(s.clients i).db, some (ops.foldl (fun l op => (l.perform op).2) e)⟩) := by
  intro ops
  induction ops with
  | nil =>
    intro g s i e h he
    have hsame : s.setClient i ⟨(s.clients i).db, some e⟩ = s := by
      rw [← he]
      unfold World.setClient
      rw [Function.update_eq_self]
    refine ⟨g, subset_rfl, ?_⟩
    rw [List.foldl_nil, hsame]
    exact h
  | cons op ops ih =>
    intro g s i e h he
    obtain ⟨g₁, hsub₁, h₁⟩ := h.perform he op
    have hself : (s.setClient i ⟨(s.clients i).db, some (e.perform op).2⟩).clients i =
        ⟨(s.clients i).db, some (e.perform op).2⟩ := Function.update_self _ _ _
    obtain ⟨g₂, hsub₂, h₂⟩ := ih h₁ (congrArg ClientState.currentShoppingList hself)
    refine ⟨g₂, hsub₁.trans hsub₂, ?_⟩
    rw [hself] at h₂
    unfold World.setClient at h₂ ⊢
    dsimp only at h₂
    rw [Function.update_idem] at h₂
    exact h₂

omit [DecidableEq κ] in
/-- What a stored value decodes to is the list that is held. -/
theorem Tracked.decode (h : Tracked text g s) {i : κ} {url : String} {j : Json} {l : ShoppingList}
    (hj : (s.clients i).db.find? url = some j)
    (hl : ShoppingList.fromJson j ShoppingList.blank = some l) :
    l ∈ g.all ∧ s.Holds i l ∧ l.url = url := by
  obtain ⟨l', hl', rfl, rfl, -⟩ := h.entry i url j hj
  have hdecode := (h.sound.wf l' hl').fromJson_toJson "" "" ""
  obtain rfl := Option.some.inj (hdecode.symm.trans hl)
  exact ⟨hl', hj, rfl⟩

/-- Before a session the client picks the url. -/
theorem Tracked.pick (h : Tracked text g s) {i : κ} (url : String)
    (hidle : (s.clients i).currentShoppingList = none) : Tracked text g (s.pick i url) := by
  refine { h with picked := fun j e he => ?_ }
  have hcurrent : (s.clients j).currentShoppingList = some e := he
  have hj : j ≠ i := by
    rintro rfl
    rw [hidle] at hcurrent
    cases hcurrent
  change e.url = Function.update s.update_list_list_url i url j
  rw [Function.update_of_ne hj]
  exact h.picked j e hcurrent

theorem Tracked.edit (h : Tracked text g s) {i : κ} {url : String} {j : Json} {l : ShoppingList}
    (ops : List ShoppingList.Op) (hidle : (s.clients i).currentShoppingList = none)
    (hj : (s.clients i).db.find? url = some j)
    (hl : ShoppingList.fromJson j ShoppingList.blank = some l) :
    ∃ g', g.all ⊆ g'.all ∧ Tracked text g' ((s.pick i url).setClient i
      ⟨(s.clients i).db, some (ops.foldl (fun l op => (l.perform op).2) l)⟩) := by
  obtain ⟨hmem, hholds, rfl⟩ := h.decode hj hl
  have hnone : ∀ e, (s.clients i).currentShoppingList ≠ some e := fun e he => by
    rw [hidle] at he
    cases he
  have hown := h.latest i l hmem hholds fun e he => absurd he (hnone e)
  have hpicked : l.url = (s.pick i l.url).update_list_list_url i :=
    (Function.update_self i l.url s.update_list_list_url).symm
  have hstart := (h.pick l.url hidle).setSession hmem hown hmem hholds rfl rfl hpicked
    fun e he => absurd he (hnone e)
  have hself : ((s.pick i l.url).setClient i ⟨(s.clients i).db, some l⟩).clients i =
      ⟨(s.clients i).db, some l⟩ := Function.update_self _ _ _
  obtain ⟨g', hsub, h'⟩ :=
    session_foldl ops hstart (congrArg ClientState.currentShoppingList hself)
  refine ⟨g', hsub, ?_⟩
  unfold World.setClient at h' ⊢
  dsimp only at h'
  rw [Function.update_idem, Function.update_self] at h'
  exact h'

theorem Tracked.create (h : Tracked text g s) {i : κ} {list_id : String} (list_name : String)
    (hidle : (s.clients i).currentShoppingList = none) (hfresh : s.Fresh list_id) :
    ∃ g', g.all ⊆ g'.all ∧ ShoppingList.new list_id list_name ("msla-" ++ list_id) ∈ g'.all ∧
      Tracked text g' { s.setClient i ⟨(s.clients i).db.set ("msla-" ++ list_id)
        (ShoppingList.new list_id list_name ("msla-" ++ list_id)).toJson, none⟩ with
        uuids := (i, list_id) :: s.uuids } := by
  have hunused : list_id ∉ s.used := fun ⟨j, hj⟩ => hfresh j hj
  obtain ⟨hsound, hown⟩ := h.sound.create list_name hunused
  have hgive := h.give hfresh i
  have hused : insert list_id s.used ⊆ used { s with uuids := (i, list_id) :: s.uuids } := by
    rintro x (rfl | ⟨j, hj⟩)
    · exact ⟨i, List.mem_cons_self⟩
    · exact ⟨j, List.mem_cons_of_mem _ hj⟩
  have hsub : g.all ⊆ (g.create (.new list_id list_name ("msla-" ++ list_id))).all :=
    fun _ hl => .inr hl
  have hmono := hgive.mono hsub (hsound.mono hused) hown
  refine ⟨_, hsub, .inl rfl, ?_⟩
  refine hmono.putEntry (n := .new list_id list_name ("msla-" ++ list_id)) (.inl rfl)
    List.mem_cons_self (fun e he => by cases he) (fun e he => ?_) fun _ => ?_
  · have hsome : (s.clients i).currentShoppingList = some e := he
    rw [hidle] at hsome
    cases hsome
  · exact hown _ (h.sound.own_fresh hunused)

omit [DecidableEq κ] in
theorem Tracked.get_of_holds {i : κ} {l : ShoppingList} (hholds : s.Holds i l) :
    (s.clients i).db.get l.url = l.toJson := by
  unfold Database.get
  rw [hholds]
  rfl

theorem Tracked.save (h : Tracked text g s) {i : κ} {e : ShoppingList} {db : Database}
    (he : (s.clients i).currentShoppingList = some e)
    (hdb : LocalStore.saveListToLocal (s.clients i).db e = some db) :
    ∃ g', g.all ⊆ g'.all ∧ Tracked text g' (s.setClient i ⟨db, none⟩) := by
  obtain ⟨hmem, hown, l, hl, hholds, hurl, hid⟩ := h.session i e he
  have hwl := h.sound.wf l hl
  have hwe := h.sound.wf e hmem
  obtain ⟨hjoin, hderives⟩ := (h.sound.derives hl).join (h.sound.derives hmem) hurl
  have hjurl : (l.join e).2.url = e.url := by rw [hjoin]; exact hurl
  have hjid : (l.join e).2.id = e.id := (l.join_id e).trans hid
  unfold LocalStore.saveListToLocal at hdb
  rw [← hurl, Tracked.get_of_holds hholds, LocalStore.savedValue_toJson hwl, hurl, ← hjurl] at hdb
  cases hdb
  refine ⟨g.add (l.join e).2, fun _ hk => .inr hk, ?_⟩
  refine (h.add hderives).putEntry (.inl rfl) ?_ (fun e' he' => by cases he') (fun e' he' => ?_)
    fun _ => ?_
  · rw [l.join_id]
    exact h.holds_id hl hholds
  · rw [he] at he'
    cases he'
    exact .inr hjurl.symm
  · refine (hown.add hderives).of_contains hjid hjurl fun d hd => ?_
    rw [hjoin]
    change (l.items.join e.items).context.contains d = true
    rw [ORMap.join_context, DotContext.contains_join_of_dc_empty hwl.cloud hwe.cloud, hd,
      Bool.or_true]

/-- The listener thread merges a list into the one that is held. -/
theorem Tracked.putJoin (h : Tracked text g s) {i : κ} {l r : ShoppingList} (hl : l ∈ g.all)
    (hr : r ∈ g.all) (hholds : s.Holds i l) (hurl : l.url = r.url) :
    Tracked text (g.add (l.join r).2) (s.setClient i
      ⟨(s.clients i).db.set r.url (l.join r).2.toJson, (s.clients i).currentShoppingList⟩) := by
  obtain ⟨hjoin, hderives⟩ := (h.sound.derives hl).join (h.sound.derives hr) hurl
  have hjurl : (l.join r).2.url = r.url := by rw [hjoin]; exact hurl
  rw [← hjurl]
  refine (h.add hderives).putEntry (.inl rfl) ?_ (fun e he => ⟨he, fun heu => ?_⟩)
    (fun e he => .inl he) fun hno => ?_
  · rw [l.join_id]
    exact h.holds_id hl hholds
  · obtain ⟨-, -, l', hl', hholds', hlu', hlid'⟩ := h.session i e he
    obtain rfl := h.holds_unique hl' hl hholds' hholds
      (hlu'.trans (heu.trans (hjurl.trans hurl.symm)))
    exact hlid'.symm.trans (l'.join_id r).symm
  · have hown := h.latest i l hl hholds fun e he heu =>
      hno e he (heu.trans (hurl.trans hjurl.symm))
    exact (hown.add hderives).of_contains (l.join_id r) (hjurl.trans hurl.symm)
      fun d hd => (h.sound.wf l hl).contains_join_left (h.sound.wf r hr) hd

/-- Or holds it under a new identifier. -/
theorem Tracked.putNew (h : Tracked text g s) {i : κ} {r : ShoppingList} {uuid : String}
    (hr : r ∈ g.all) (hfresh : s.Fresh uuid) (habsent : (s.clients i).db.find? r.url = none) :
    Tracked text (g.add (r.setId uuid)) { s.setClient i
      ⟨(s.clients i).db.set r.url (r.setId uuid).toJson, (s.clients i).currentShoppingList⟩ with
        uuids := (i, uuid) :: s.uuids } := by
  have hderives := (h.sound.derives hr).setId uuid
  refine ((h.give hfresh i).add hderives).putEntry (n := r.setId uuid) (.inl rfl)
    List.mem_cons_self (fun e he => ⟨he, fun heu => ?_⟩) (fun e he => .inl he) fun _ => ?_
  · -- a session's list is in the database
    obtain ⟨-, -, l, -, hholds, hlu, -⟩ := h.session i e he
    have hnone : (s.clients i).db.find? l.url = none := by
      rw [hlu, heu]
      exact habsent
    rw [hholds] at hnone
    cases hnone
  · exact (h.sound.own_fresh fun ⟨k, hk⟩ => hfresh k hk).add hderives

theorem Tracked.listen (h : Tracked text g s) {i : κ} {list_url shopping_list uuid : String}
    {j : Json} {db : Database} (hp : (list_url, shopping_list) ∈ s.published)
    (hj : text.getJsonFromUString shopping_list = some j) (hfresh : s.Fresh uuid)
    (hdb : LocalStore.updateList (s.clients i).db list_url uuid j = some db) :
    ∃ g', g.all ⊆ g'.all ∧ Tracked text g'
      { s.setClient i ⟨db, (s.clients i).currentShoppingList⟩ with
        uuids := (i, uuid) :: s.uuids } := by
  obtain ⟨r, hr, rfl, -, hread⟩ := h.published list_url shopping_list hp
  obtain rfl : r.toJson = j := Option.some.inj (hread.symm.trans hj)
  unfold LocalStore.updateList at hdb
  split_ifs at hdb with hexist
  · obtain ⟨v, hv⟩ := Option.isSome_iff_exists.1 hexist
    obtain ⟨l, hl, rfl, hurl, -⟩ := h.entry i r.url v hv
    have hholds : s.Holds i l := by
      unfold Holds
      rw [hurl]
      exact hv
    rw [← hurl, Tracked.get_of_holds hholds, LocalStore.updatedValue_toJson (h.sound.wf l hl)
      (h.sound.wf r hr), hurl] at hdb
    cases hdb
    exact ⟨_, Set.subset_insert _ _, (h.give hfresh i).putJoin hl hr hholds hurl⟩
  · have habsent : (s.clients i).db.find? r.url = none := by
      unfold Database.exist at hexist
      rwa [Bool.not_eq_true, Option.isSome_eq_false_iff, Option.isNone_iff_eq_none] at hexist
    rw [LocalStore.createdValue_toJson] at hdb
    cases hdb
    exact ⟨_, Set.subset_insert _ _, h.putNew hr hfresh habsent⟩

end Steps

section Handle

variable [DecidableEq ω]

omit [DecidableEq ω] in
theorem Tracked.store_wf (h : Tracked text g s) (w : ω) : (s.workers w).WF := by
  intro url j hj
  obtain ⟨l, hl, hjson, -⟩ := h.stored w url j hj
  exact ⟨l, h.sound.wf l hl, hjson⟩

omit [DecidableEq ω] in
/-- What an update stores was made from the stored list, which has no identifier, or from an empty
list, and from the list that the update brings. -/
theorem Tracked.merged (h : Tracked text g s) (w : ω) {r : ShoppingList} (hr : r ∈ g.all) :
    let n := RequestHandler.merged (s.workers w) r.url r
    g.Derives n ∧ n.id = "" ∧ n.url = r.url := by
  intro n
  have hwr := h.sound.wf r hr
  cases hfind : (s.workers w).find? r.url with
  | none =>
    have hn : n = ⟨"", r.title, r.url, ShoppingList.blank.items.join r.items⟩ := by
      change ((Database.list (s.workers w) r.url).join r).2 = _
      rw [Database.list_of_find?_none hfind, ShoppingList.join_of_blank rfl rfl]
      rfl
    have hblank : n = (ShoppingList.blank.join r).2 := by
      rw [hn, ShoppingList.join_of_blank rfl rfl]
      rfl
    have hurl : n.url = r.url := by rw [hn]
    refine ⟨⟨?_, ?_, ?_, ⟨r, hr, hurl.symm⟩, fun d hd => ?_⟩, by rw [hn], hurl⟩
    · rw [hblank]
      exact ShoppingList.WF.blank.join hwr
    · rw [hn]
      exact h.sound.title r hr
    · rw [hurl, hblank]
      exact ShoppingList.Records.join ShoppingList.WF.blank hwr (.new _ _ _ _)
        (h.sound.records r hr)
    · rw [hblank] at hd
      rcases ShoppingList.WF.blank.contains_of_join hwr hd with hd | hd
      · have hempty : (∅ : DotContext).contains d = true := hd
        rw [DotContext.contains_empty] at hempty
        cases hempty
      · exact ⟨r, hr, hurl.symm, hd⟩
  | some j =>
    obtain ⟨l, hl, rfl, hurl, hid⟩ := h.stored w r.url j hfind
    have hn : n = (l.join r).2 := by
      change ((Database.list (s.workers w) r.url).join r).2 = _
      rw [Database.list_of_find? (h.sound.wf l hl) hfind]
    obtain ⟨hjoin, hderives⟩ := (h.sound.derives hl).join (h.sound.derives hr) hurl
    rw [hn]
    refine ⟨hderives, (l.join_id r).trans hid, ?_⟩
    rw [hjoin]
    exact hurl

/-- A worker stores a list without identifier. -/
theorem Tracked.putStored (h : Tracked text g s) {n : ShoppingList} (w : ω) (hn : g.Derives n)
    (hid : n.id = "") :
    ∃ g', g.all ⊆ g'.all ∧ Tracked text g'
      { s with workers := Function.update s.workers w ((s.workers w).set n.url n.toJson) } := by
  have hadd := h.add hn
  refine ⟨g.add n, fun _ hl => .inr hl, { hadd with stored := fun v url j hj => ?_ }⟩
  have hfind : (Function.update s.workers w ((s.workers w).set n.url n.toJson) v).find? url =
      some j := hj
  by_cases hv : v = w
  · subst hv
    rw [Function.update_self, SortedMap.find?_set] at hfind
    split_ifs at hfind with hurl
    · cases hfind
      exact ⟨n, .inl rfl, rfl, hurl.symm, hid⟩
    · exact hadd.stored v url j hfind
  · rw [Function.update_of_ne hv] at hfind
    exact hadd.stored v url j hfind

omit [DecidableEq ω] in
/-- A worker publishes a stored list. -/
theorem Tracked.publish (h : Tracked text g s) {w : ω} {url shown : String} {j : Json}
    (hj : (s.workers w).find? url = some j) (hshown : shown = text.getStringFromJson j)
    (hreads : text.Reads j) :
    Tracked text g { s with published := (url, shown) :: s.published } := by
  refine { h with published := fun url' shown' hp => ?_ }
  rcases List.mem_cons.1 hp with hp | hp
  · cases hp
    obtain ⟨l, hl, rfl, hurl, hid⟩ := h.stored w url j hj
    refine ⟨l, hl, hurl, hid, ?_⟩
    rw [hshown]
    exact hreads
  · exact h.published url' shown' hp

/-- A request stores a list there has been, or one derived, without identifier. -/
theorem Tracked.store (h : Tracked text g s) (w : ω) {request : String} {r : ShoppingList}
    (hr : r ∈ g.all) :
    ∃ g', g.all ⊆ g'.all ∧ Tracked text g' { s with
      workers := Function.update s.workers w
        (RequestHandler.storeAfter r.url request r (s.workers w)) } := by
  unfold RequestHandler.storeAfter
  split_ifs with hcreate hupdate
  · exact h.putStored w ((h.sound.derives hr).setId "") rfl
  · obtain ⟨hderives, hid, hurl⟩ := h.merged w hr
    have hput := h.putStored w hderives hid
    rw [hurl] at hput
    exact hput
  · rw [Function.update_eq_self]
    exact ⟨g, subset_rfl, h⟩

theorem Tracked.handle (h : Tracked text g s) {w : ω} {q : ListRequest} {res : Response}
    {db : Database} (hq : q ∈ s.requests)
    (hres : RequestHandler.handleRequest text q.url_list q.request_type q.body (s.workers w) =
      some (res, db))
    (hreads : res.shopping_list ≠ "" → text.Reads (db.get q.url_list)) :
    ∃ g', g.all ⊆ g'.all ∧ Tracked text g' { s with
      workers := Function.update s.workers w db
      published := if res.shopping_list ≠ "" then
        (q.url_list, res.shopping_list) :: s.published else s.published } := by
  -- the store first, then the publication
  have hstore : (∃ g', g.all ⊆ g'.all ∧ Tracked text g' { s with
      workers := Function.update s.workers w db }) ∧ (res.shopping_list ≠ "" →
        ∃ j, db.find? q.url_list = some j ∧ res.shopping_list = text.getStringFromJson j) := by
    rcases h.request q hq with hget | ⟨r, hr, hurl, hcarries⟩
    · have hcarries : RequestHandler.Carries text q.request_type q.body .blank := by
        rw [hget]
        exact ⟨fun hc => absurd hc (by decide), fun hc => absurd hc (by decide)⟩
      obtain ⟨hdb, hshown⟩ := RequestHandler.handleRequest_shows (h.store_wf w) .blank hcarries
        (fun hc => absurd (hget.symm.trans hc) (by decide)) hres
      refine ⟨⟨g, subset_rfl, ?_⟩, hshown⟩
      have hsame : db = s.workers w := by
        rw [hdb, hget]
        rfl
      rw [hsame, Function.update_eq_self]
      exact h
    · obtain ⟨hdb, hshown⟩ := RequestHandler.handleRequest_shows (h.store_wf w) (h.sound.wf r hr)
        hcarries (fun _ => hurl) hres
      rw [← hurl] at hdb
      exact ⟨hdb ▸ h.store w hr, hshown⟩
  obtain ⟨⟨g', hsub, h'⟩, hshown⟩ := hstore
  refine ⟨g', hsub, ?_⟩
  split_ifs with hpublish
  · obtain ⟨j, hj, htext⟩ := hshown hpublish
    have hself : (Function.update s.workers w db w).find? q.url_list = some j := by
      rw [Function.update_self]
      exact hj
    have hread := hreads hpublish
    unfold Database.get at hread
    rw [hj] at hread
    exact h'.publish hself htext hread
  · exact h'

/-- **Every step keeps the invariant**, with more lists at most. -/
theorem Tracked.step [DecidableEq κ] (h : Tracked text g s) (hstep : Step text s t) :
    ∃ g', g.all ⊆ g'.all ∧ Tracked text g' t := by
  cases hstep with
  | create i list_id list_name cloud_mode hidle hfresh hreads =>
    obtain ⟨g', hsub, hmem, h'⟩ := h.create list_name hidle hfresh
    refine ⟨g', hsub, h'.sendIf cloud_mode fun hcloud => ⟨_, hmem, rfl, fun _ => ?_, fun hu => ?_⟩⟩
    · exact ⟨_, _, _, rfl, hreads hcloud⟩
    · exact absurd (show "CREATE_LIST" = "UPDATE_LIST" from hu) (by decide)
  | get get_list_url =>
    refine ⟨g, subset_rfl, { h with request := fun q hq => ?_ }⟩
    rcases List.mem_cons.1 hq with rfl | hq
    · exact .inl rfl
    · exact h.request q hq
  | edit i update_list_list_url j l ops hidle hj hl => exact h.edit ops hidle hj hl
  | save i l db cloud_mode hl hdb hreads =>
    obtain ⟨g', hsub, h'⟩ := h.save hl hdb
    obtain ⟨hmem, -⟩ := h.session i l hl
    refine ⟨g', hsub,
      h'.sendIf cloud_mode fun hcloud => ⟨l, hsub hmem, h.picked i l hl, fun hc => ?_, fun _ => ?_⟩⟩
    · exact absurd (show "UPDATE_LIST" = "CREATE_LIST" from hc) (by decide)
    · exact ⟨_, _, rfl, hreads hcloud⟩
  | delete i update_list_list_url hidle => exact ⟨g, subset_rfl, h.delete _ hidle⟩
  | listen i list_url shopping_list uuid j db hp hj hfresh hdb => exact h.listen hp hj hfresh hdb
  | handle w q res db hq hres hreads => exact h.handle hq hres hreads

/-- So does every run. -/
theorem Tracked.run [DecidableEq κ] (h : Tracked text g s) (hrun : Run (Step text) s t) :
    ∃ g', g.all ⊆ g'.all ∧ Tracked text g' t := by
  refine hrun.invariant (fun u => ∃ g', g.all ⊆ g'.all ∧ Tracked text g' u) ⟨g, subset_rfl, h⟩ ?_
  rintro u v ⟨g₁, hsub₁, h₁⟩ huv
  obtain ⟨g₂, hsub₂, h₂⟩ := h₁.step huv
  exact ⟨g₂, hsub₁.trans hsub₂, h₂⟩

/-- No identifier is taken back. -/
theorem uuids_subset [DecidableEq κ] (hrun : Run (Step text) s t) : s.uuids ⊆ t.uuids := by
  refine hrun.invariant (fun u => s.uuids ⊆ u.uuids) (List.Subset.refl _) fun u v hu huv => ?_
  refine List.Subset.trans hu ?_
  have hsend : ∀ (u : World κ ω) cloud_mode q, (u.sendIf cloud_mode q).uuids = u.uuids :=
    fun u cloud_mode q => by
      unfold World.sendIf
      split_ifs
      · rfl
      · rfl
  cases huv with
  | create =>
    rw [hsend]
    exact List.subset_cons_self _ _
  | save =>
    rw [hsend]
    exact List.Subset.refl _
  | listen => exact List.subset_cons_self _ _
  | get => exact List.Subset.refl _
  | edit => exact List.Subset.refl _
  | delete => exact List.Subset.refl _
  | handle => exact List.Subset.refl _

end Handle

/-! ## Identifiers and dots -/

theorem Tracked.of_occurs [DecidableEq κ] (h : Tracked text g s) {l : ShoppingList}
    (hl : Occurs text s l) : l ∈ g.all := by
  have hdecode : ∀ {k : ShoppingList}, k ∈ g.all →
      ShoppingList.fromJson k.toJson ShoppingList.blank = some l → l ∈ g.all := fun hk hkl => by
    rw [ShoppingList.blank, (h.sound.wf _ hk).fromJson_toJson] at hkl
    cases hkl
    exact hk
  cases hl with
  | entry i url j hj hl => exact (h.decode hj hl).1
  | session i hl => exact (h.session i l hl).1
  | stored w url j hj hl =>
    obtain ⟨k, hk, rfl, -⟩ := h.stored w url j hj
    exact hdecode hk hl
  | request q j hq hj hl =>
    rcases h.request q hq with hget | ⟨k, hk, -, hcreate, hupdate⟩
    · unfold ListRequest.json at hj
      rw [hget, if_neg (by decide), if_neg (by decide)] at hj
      cases hj
    · obtain rfl : k.toJson = j := by
        unfold ListRequest.json at hj
        split_ifs at hj with hc hu
        · obtain ⟨_, body, _, hbody, hread⟩ := hcreate hc
          rw [hbody] at hj
          exact Option.some.inj (hread.symm.trans hj)
        · obtain ⟨body, _, hbody, hread⟩ := hupdate hu
          rw [hbody] at hj
          exact Option.some.inj (hread.symm.trans hj)
      exact hdecode hk hl
  | publication list_url shopping_list j hp hj hl =>
    obtain ⟨k, hk, -, -, hread⟩ := h.published list_url shopping_list hp
    obtain rfl : k.toJson = j := Option.some.inj (hread.symm.trans hj)
    exact hdecode hk hl

/-- **Replica identifiers and dots are unique.** In every run, workers store and publish lists
without identifier, no two clients ever hold a url under one identifier, and in the lists of one
url, wherever and whenever they are, a dot stands for one item and one value. -/
theorem identities_unique [DecidableEq κ] [DecidableEq ω] (hs : Run (Step text) (init : World κ ω) s)
    (ht : Run (Step text) s t) :
    (∀ w url j, (s.workers w).find? url = some j →
      ∃ l, ShoppingList.fromJson j ShoppingList.blank = some l ∧ l.id = "") ∧
    (∀ list_url shopping_list, (list_url, shopping_list) ∈ s.published →
      ∃ j l, text.getJsonFromUString shopping_list = some j ∧
        ShoppingList.fromJson j ShoppingList.blank = some l ∧ l.id = "") ∧
    (∀ i j url v v' l l', i ≠ j → (s.clients i).db.find? url = some v →
      (t.clients j).db.find? url = some v' →
      ShoppingList.fromJson v ShoppingList.blank = some l →
      ShoppingList.fromJson v' ShoppingList.blank = some l' → l.id ≠ l'.id) ∧
    (∀ l l', Occurs text s l → Occurs text t l' → l.url = l'.url →
      ∀ d name name' v v', l.items.live name d = some v → l'.items.live name' d = some v' →
        name = name' ∧ v = v') := by
  obtain ⟨g, -, h⟩ := Tracked.init.run hs
  obtain ⟨g', hsub, h'⟩ := h.run ht
  have hdecode : ∀ {k : ShoppingList}, k ∈ g.all →
      ShoppingList.fromJson k.toJson ShoppingList.blank = some k := fun hk =>
    (h.sound.wf _ hk).fromJson_toJson "" "" ""
  refine ⟨fun w url j hj => ?_, fun url shown hp => ?_, fun i j url v v' l l' hij hv hv' hl hl' => ?_,
    fun l l' hl hl' hurl d name name' v v' hv hv' => ?_⟩
  · obtain ⟨l, hl, rfl, -, hid⟩ := h.stored w url j hj
    exact ⟨l, hdecode hl, hid⟩
  · obtain ⟨l, hl, -, hid, hread⟩ := h.published url shown hp
    exact ⟨_, l, hread, hdecode hl, hid⟩
  · obtain ⟨hmem, hholds, -⟩ := h.decode hv hl
    obtain ⟨hmem', hholds', -⟩ := h'.decode hv' hl'
    intro hid
    exact hij (h'.one i j l.id (uuids_subset ht (h.holds_id hmem hholds))
      (hid ▸ h'.holds_id hmem' hholds'))
  · have hrecord := h'.sound.records l (hsub (h.of_occurs hl)) name d v hv
    have hrecord' := h'.sound.records l' (h'.of_occurs hl') name' d v' hv'
    rw [hurl, hrecord'] at hrecord
    cases hrecord
    exact ⟨rfl, rfl⟩

/-- A text form that reads back what it writes of a list without items. -/
def partyText : JsonText where
  parse s :=
    if s = RequestHandler.newListText "user1" then some RequestHandler.newList.toJson
    else if s = RequestHandler.newListText "" then some (RequestHandler.newList.setId "").toJson
    else none
  dump j :=
    match j with
    | .obj (("id", .str id) :: _) => RequestHandler.newListText id
    | _ => ""

/-- A client has made a list and sent it. -/
def created : World Bool Unit :=
  { clients := Function.update (fun _ => ⟨∅, none⟩) false
      ⟨(∅ : Database).set "msla-user1" RequestHandler.newList.toJson, none⟩
    update_list_list_url := fun _ => ""
    workers := fun _ => ∅
    requests := [createRequest partyText RequestHandler.newList]
    published := []
    uuids := [(false, "user1")] }

/-- The worker has stored and published it. -/
def handled : World Bool Unit :=
  { created with
    workers := Function.update created.workers ()
      ((∅ : Database).set "msla-user1" (RequestHandler.newList.setId "").toJson)
    published := [("msla-user1", RequestHandler.newListText "")] }

/-- Another client has taken it. -/
def taken : World Bool Unit :=
  { handled with
    clients := Function.update handled.clients true
      ⟨(∅ : Database).set "msla-user1" (RequestHandler.newList.setId "user2").toJson, none⟩
    uuids := [(true, "user2"), (false, "user1")] }

/-- And added an item. -/
def edited : World Bool Unit :=
  { taken with
    clients := Function.update taken.clients true
      ⟨(taken.clients true).db,
        some ((RequestHandler.newList.setId "user2").perform (.createItem "apple" 3)).2⟩
    update_list_list_url := Function.update taken.update_list_list_url true "msla-user1" }

theorem reads_party (id : String) (hid : id = "user1" ∨ id = "") :
    partyText.Reads (RequestHandler.newList.setId id).toJson := by
  unfold JsonText.Reads JsonText.getJsonFromUString
  rw [show partyText.getStringFromJson (RequestHandler.newList.setId id).toJson =
    RequestHandler.newListText id from rfl]
  unfold partyText
  dsimp only
  rcases hid with rfl | rfl
  · rw [show cStr (RequestHandler.newListText "user1") = RequestHandler.newListText "user1" by
      decide +kernel, if_pos rfl]
    rfl
  · rw [show cStr (RequestHandler.newListText "") = RequestHandler.newListText "" by
      decide +kernel, if_neg (by decide +kernel), if_pos rfl]

theorem created_run : Run (Step partyText) (init : World Bool Unit) created := by
  refine .single (.create init false "user1" "party" true rfl (fun i => List.not_mem_nil) fun _ => ?_)
  exact reads_party "user1" (.inl rfl)

/-- The worker stores the list and publishes it without its id. -/
theorem handle_party : RequestHandler.handleRequest partyText "msla-user1" "CREATE_LIST"
    ["party", RequestHandler.newListText "user1"] ∅ =
    some (⟨"Created shopping list with success!", RequestHandler.newListText ""⟩,
      (∅ : Database).set "msla-user1" (RequestHandler.newList.setId "").toJson) := by
  have hnew : RequestHandler.newList.WF := ShoppingList.WF.new _ _ _
  have hread := reads_party "user1" (.inl rfl)
  unfold RequestHandler.handleRequest
  rw [if_pos rfl]
  simp only []
  rw [show partyText.getJsonFromUString (RequestHandler.newListText "user1") =
    some RequestHandler.newList.toJson from hread, Option.bind_eq_bind, Option.bind_some,
    RequestHandler.createList_toJson hnew]
  rfl

theorem taken_run : Run (Step partyText) created taken := by
  refine (Relation.ReflTransGen.single (b := handled) ?_).tail ?_
  · refine .handle created () ⟨"CREATE_LIST", "msla-user1",
      ["party", RequestHandler.newListText "user1"]⟩ _ _ List.mem_cons_self handle_party fun _ => ?_
    exact reads_party "" (.inr rfl)
  · refine .listen handled true "msla-user1" (RequestHandler.newListText "") "user2" _ _
      List.mem_cons_self (reads_party "" (.inr rfl)) (fun i hi => ?_) rfl
    simp [handled, created] at hi

theorem edited_run : Run (Step partyText) taken edited := by
  have hwf : (RequestHandler.newList.setId "user2").WF := (ShoppingList.WF.new _ _ _).setId _
  exact .single (.edit taken true "msla-user1" _ _ [.createItem "apple" 3] rfl rfl
    (hwf.fromJson_toJson "" "" ""))

theorem identities_unique_party :
    (∀ w url j, (taken.workers w).find? url = some j →
      ∃ l, ShoppingList.fromJson j ShoppingList.blank = some l ∧ l.id = "") ∧
    (∀ list_url shopping_list, (list_url, shopping_list) ∈ taken.published →
      ∃ j l, partyText.getJsonFromUString shopping_list = some j ∧
        ShoppingList.fromJson j ShoppingList.blank = some l ∧ l.id = "") ∧
    (∀ i j url v v' l l', i ≠ j → (taken.clients i).db.find? url = some v →
      (edited.clients j).db.find? url = some v' →
      ShoppingList.fromJson v ShoppingList.blank = some l →
      ShoppingList.fromJson v' ShoppingList.blank = some l' → l.id ≠ l'.id) ∧
    (∀ l l', Occurs partyText taken l → Occurs partyText edited l' → l.url = l'.url →
      ∀ d name name' v v', l.items.live name d = some v → l'.items.live name' d = some v' →
        name = name' ∧ v = v') :=
  identities_unique (created_run.trans taken_run) edited_run

end World

end ShoppingApp
