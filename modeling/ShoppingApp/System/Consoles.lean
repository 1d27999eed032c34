import ShoppingApp.Lib.Replication
import ShoppingApp.System.Identity
import ShoppingApp.Verify.Console

/-!
# Clients at their consoles

The system with the threads of the clients as the program has them: each client's main thread goes
through its menu on what its user types, its listener thread takes updates, and any other step may
come between two requests of a thread to the database. `World` has `saveListToLocal` and
`updateList` as single steps, so that it cannot show a run in which one of them writes over an entry
that has changed since it was read (`Undisturbed`). Every other run is shown by a run of `World`
(`consoles_refine`), in which a client has the sessions that its console makes, its saves and
updates are where their requests to write are, and its lists are sent at once; what holds in every
run of the one so holds of the databases and publications of the other.

A message goes out after its list has been written, and only if the client is then in cloud mode.
The run of `World` does not wait for that: it sends whatever may be sent, since a request that is
never taken changes nothing.
-/

namespace ShoppingApp

open Replication (Run)

namespace Console

/-- The request that the main thread may send at a position. -/
def Position.request (text : JsonText) : Position → Option ListRequest
  | .create_list l => some (World.createRequest text l)
  | .get_list url => some ⟨"GET_LIST", url, []⟩
  | .update_list url l => some (World.updateRequest text url l)
  | _ => none

/-- The list of such a request. -/
def Position.list : Position → Option ShoppingList
  | .create_list l => some l
  | .update_list _ l => some l
  | _ => none

/-- The url of the entry that the user works on. -/
def Position.entry : Position → Option String
  | .edited url _ | .saving url _ _ => some url
  | _ => none

theorem Position.entry_of_session {p : Position} (h : p.session = none) : p.entry = none := by
  cases p <;> first | rfl | cases h

/-- The identifier of a list that has just been made. -/
def Position.made : Position → Option String
  | .create_list l => some l.id
  | _ => none

end Console

/-- Where the listener thread is: waiting for an update, or in `updateList` with one. -/
inductive Listener
  | waiting
  | updating (list_url : String) (shoppingList : Json) (updater : LocalStore.Updater)

namespace Listener

/-- After a request of `updateList`. -/
def next (list_url : String) (shoppingList : Json) : LocalStore.Updater → Listener
  | .done => .waiting
  | u => .updating list_url shoppingList u

/-- What `updateList` has read is still in the database. -/
def Current (db : Database) : Listener → Prop
  | .updating list_url _ .found => db.exist list_url = true
  | .updating list_url _ .absent => db.exist list_url = false
  | .updating list_url _ (.read j) => db.exist list_url = true ∧ db.get list_url = j
  | _ => True

end Listener

/-- The threads and the databases of the clients; the rest as in `World`. -/
structure Consoles (κ ω : Type*) where
  mains : κ → Console.Main
  listeners : κ → Listener
  dbs : κ → Database
  workers : ω → Database
  requests : List ListRequest
  published : List (String × String)
  uuids : List (κ × String)

namespace Consoles

variable {κ ω : Type*} [DecidableEq κ] [DecidableEq ω]

/-- What the users will type is there from the start. -/
def init (cins : κ → Cin) : Consoles κ ω :=
  ⟨fun i => ⟨cins i, .menu⟩, fun _ => .waiting, fun _ => ∅, fun _ => ∅, [], [], []⟩

def Fresh (s : Consoles κ ω) (uuid : String) : Prop := ∀ i, (i, uuid) ∉ s.uuids

/-- What the main thread of a client sends. -/
def sent (text : JsonText) (s : Consoles κ ω) (i : κ) (cloud_mode : Bool) : List ListRequest :=
  if Console.sends cloud_mode (s.dbs i) (s.mains i).position then
    ((s.mains i).position.request text).toList
  else []

/-- The call of `updateList`, which shares no argument with the main thread. -/
def updateCall (list_url uuid : String) (shoppingList : Json) : LocalStore.Calls :=
  ⟨list_url, ShoppingList.blank, shoppingList, uuid⟩

/-- The identifiers after a request of `updateList`, which has drawn one when it has written. -/
def drawn (s : Consoles κ ω) (i : κ) (uuid : String) : LocalStore.Updater → List (κ × String)
  | .done => (i, uuid) :: s.uuids
  | _ => s.uuids

/-- The main thread of a client goes on with one request to the database; the listener thread takes
an update, or goes on with one request; a worker handles a request. -/
inductive Step (text : JsonText) : Consoles κ ω → Consoles κ ω → Prop
  | main (s : Consoles κ ω) (i : κ) (fuel : ℕ) (list_id : String) (cloud_mode : Bool)
      (m : Console.Main) (db : Database)
      (hstep : Console.step fuel list_id (s.mains i) (s.dbs i) = some (m, db))
      (hfresh : s.Fresh list_id)
      (hreads : Console.sends cloud_mode (s.dbs i) (s.mains i).position = true →
        ∀ l, (s.mains i).position.list = some l → text.Reads l.toJson) :
      Step text s { s with
        mains := Function.update s.mains i m
        dbs := Function.update s.dbs i db
        requests := s.sent text i cloud_mode ++ s.requests
        uuids := (m.position.made.map fun list_id => (i, list_id)).toList ++ s.uuids }
  | receive (s : Consoles κ ω) (i : κ) (list_url shopping_list : String) (j : Json)
      (hp : (list_url, shopping_list) ∈ s.published)
      (hj : text.getJsonFromUString shopping_list = some j) (hwaiting : s.listeners i = .waiting) :
      Step text s { s with
        listeners := Function.update s.listeners i (.updating list_url j .start) }
  | update (s : Consoles κ ω) (i : κ) (list_url uuid : String) (j : Json) (u : LocalStore.Updater)
      (w : LocalStore.Writers) (hcall : s.listeners i = .updating list_url j u)
      (hfresh : s.Fresh uuid)
      (hstep : LocalStore.step (updateCall list_url uuid j) ⟨.start, u, s.dbs i⟩ .listener =
        some w) :
      Step text s { s with
        listeners := Function.update s.listeners i (.next list_url j w.updater)
        dbs := Function.update s.dbs i w.db
        uuids := s.drawn i uuid w.updater }
  | handle (s : Consoles κ ω) (w : ω) (q : ListRequest) (res : Response) (db : Database)
      (hq : q ∈ s.requests)
      (hres : RequestHandler.handleRequest text q.url_list q.request_type q.body (s.workers w) =
        some (res, db))
      (hreads : res.shopping_list ≠ "" → text.Reads (db.get q.url_list)) :
      Step text s { s with
        workers := Function.update s.workers w db
        published := if res.shopping_list ≠ "" then
          (q.url_list, res.shopping_list) :: s.published else s.published }

/-- Nothing that a thread has read, and has still to write over, has been changed by another. -/
structure Undisturbed (s : Consoles κ ω) : Prop where
  saver : ∀ i url l j, (s.mains i).position = .saving url l j → (s.dbs i).get l.url = j
  updater : ∀ i, (s.listeners i).Current (s.dbs i)

/-- No update has come under a url that a user has asked for in vain, before the round is over. The
main thread would then send a list that nobody has made. -/
def Unraced (s : Consoles κ ω) : Prop :=
  ∀ i url, (s.mains i).position = .update_list url ShoppingList.blank → (s.dbs i).exist url = false

/-- The world shows what the consoles have come to. -/
structure Shows (text : JsonText) (s : Consoles κ ω) (w : World κ ω) : Prop where
  dbs : ∀ i, (w.clients i).db = s.dbs i
  sessions : ∀ i, (w.clients i).currentShoppingList = (s.mains i).position.session
  picked : ∀ i url, (s.mains i).position.entry = some url → w.update_list_list_url i = url
  listeners : ∀ i list_url j u, s.listeners i = .updating list_url j u →
    ∃ shopping_list, (list_url, shopping_list) ∈ w.published ∧
      text.getJsonFromUString shopping_list = some j
  workers : w.workers = s.workers
  published : w.published = s.published
  uuids : w.uuids = s.uuids
  requests : s.requests ⊆ w.requests
  ready : ∀ i q, (s.mains i).position.request text = some q →
    (∀ l, (s.mains i).position.list = some l → text.Reads l.toJson) →
      q ∈ w.requests ∨ ∃ url, (s.mains i).position = .update_list url ShoppingList.blank

variable {text : JsonText} {s t : Consoles κ ω} {w : World κ ω}

omit [DecidableEq κ] [DecidableEq ω] in
theorem Shows.init (cins : κ → Cin) : Shows text (init cins : Consoles κ ω) World.init where
  dbs := fun _ => rfl
  sessions := fun _ => rfl
  picked := fun _ _ h => nomatch h
  listeners := fun _ _ _ _ h => nomatch h
  workers := rfl
  published := rfl
  uuids := rfl
  requests := List.Subset.refl _
  ready := fun _ _ h => nomatch h

omit [DecidableEq κ] [DecidableEq ω] in
/-- What the main thread sends, the world has sent. -/
theorem Shows.sent (h : Shows text s w) (hunraced : s.Unraced) {i : κ} {cloud_mode : Bool}
    (hreads : Console.sends cloud_mode (s.dbs i) (s.mains i).position = true →
      ∀ l, (s.mains i).position.list = some l → text.Reads l.toJson) :
    s.sent text i cloud_mode ⊆ w.requests := by
  unfold Consoles.sent
  intro q hq
  split_ifs at hq with hsends
  · have hrequest : (s.mains i).position.request text = some q := by simpa using hq
    rcases h.ready i q hrequest (hreads hsends) with hmem | ⟨url, hposition⟩
    · exact hmem
    · -- a list that nobody has made would be sent
      rw [hposition] at hsends
      have hexist := hunraced i url hposition
      simp [Console.sends, hexist] at hsends
  · exact absurd hq List.not_mem_nil

omit [DecidableEq ω] in
/-- The main thread moves on, and the world with it. -/
theorem Shows.main (h : Shows text s w) {i : κ} {m : Console.Main} {db : Database}
    {requests : List ListRequest} {uuids : List (κ × String)} {w' : World κ ω}
    (hclients : w'.clients = Function.update w.clients i ⟨db, m.position.session⟩)
    (hpicked : ∀ k, k ≠ i → w'.update_list_list_url k = w.update_list_list_url k)
    (hpick : ∀ url, m.position.entry = some url → w'.update_list_list_url i = url)
    (hworkers : w'.workers = w.workers) (hpublished : w'.published = w.published)
    (huuids : w'.uuids = uuids) (hrequests : requests ⊆ w'.requests)
    (hmore : w.requests ⊆ w'.requests)
    (hready : ∀ q, m.position.request text = some q →
      (∀ l, m.position.list = some l → text.Reads l.toJson) →
        q ∈ w'.requests ∨ ∃ url, m.position = .update_list url ShoppingList.blank) :
    Shows text { s with
      mains := Function.update s.mains i m
      dbs := Function.update s.dbs i db
      requests := requests
      uuids := uuids } w' := by
  refine ⟨?_, ?_, ?_, hpublished ▸ h.listeners, hworkers.trans h.workers,
    hpublished.trans h.published, huuids, hrequests, ?_⟩
  · intro k
    rw [hclients]
    by_cases hk : k = i
    · subst hk
      simp
    · simp [hk, h.dbs k]
  · intro k
    rw [hclients]
    by_cases hk : k = i
    · subst hk
      simp
    · simp [hk, h.sessions k]
  · intro k url hentry
    by_cases hk : k = i
    · subst hk
      simp only [Function.update_self] at hentry
      exact hpick url hentry
    · simp only [Function.update_of_ne hk] at hentry
      exact (hpicked k hk).trans (h.picked k url hentry)
  · intro k q hrequest hreads
    by_cases hk : k = i
    · subst hk
      simp only [Function.update_self] at hrequest hreads ⊢
      exact hready q hrequest hreads
    · simp only [Function.update_of_ne hk] at hrequest hreads ⊢
      exact (h.ready k q hrequest hreads).imp_left fun hq => hmore hq

omit [DecidableEq ω] in
/-- The main thread moves on, and the world stays as it is. -/
theorem Shows.stay (h : Shows text s w) {i : κ} {m : Console.Main} {requests : List ListRequest}
    (hsession : (s.mains i).position.session = none) (hsession' : m.position.session = none)
    (hrequests : requests ⊆ w.requests)
    (hready : ∀ q, m.position.request text = some q →
      ∃ url, m.position = .update_list url ShoppingList.blank) :
    Shows text { s with
      mains := Function.update s.mains i m
      dbs := Function.update s.dbs i (s.dbs i)
      requests := requests
      uuids := s.uuids } w := by
  refine h.main ?_ (fun _ _ => rfl) (fun url hentry => ?_) rfl rfl h.uuids hrequests
    (List.Subset.refl _) fun q hq _ => .inr (hready q hq)
  · have hclient : w.clients i = ⟨s.dbs i, m.position.session⟩ := by
      rw [hsession', ← hsession, ← h.dbs i, ← h.sessions i]
    rw [← hclient, Function.update_eq_self]
  · rw [Console.Position.entry_of_session hsession'] at hentry
    cases hentry

omit [DecidableEq κ] [DecidableEq ω] in
theorem Shows.fresh (h : Shows text s w) {uuid : String} (hfresh : s.Fresh uuid) :
    w.Fresh uuid := by
  intro k
  rw [h.uuids]
  exact hfresh k

omit [DecidableEq κ] [DecidableEq ω] in
theorem Shows.idle (h : Shows text s w) {i : κ} (hposition : (s.mains i).position.session = none) :
    (w.clients i).currentShoppingList = none := (h.sessions i).trans hposition

omit [DecidableEq κ] [DecidableEq ω] in
theorem sendIf_frame (w : World κ ω) (cloud_mode : Bool) (q : ListRequest) :
    (w.sendIf cloud_mode q).clients = w.clients ∧
      (w.sendIf cloud_mode q).update_list_list_url = w.update_list_list_url ∧
      (w.sendIf cloud_mode q).workers = w.workers ∧
      (w.sendIf cloud_mode q).published = w.published ∧
      (w.sendIf cloud_mode q).uuids = w.uuids ∧
      w.requests ⊆ (w.sendIf cloud_mode q).requests := by
  cases cloud_mode with
  | false => exact ⟨rfl, rfl, rfl, rfl, rfl, List.Subset.refl _⟩
  | true => exact ⟨rfl, rfl, rfl, rfl, rfl, List.subset_cons_self _ _⟩

omit [DecidableEq κ] [DecidableEq ω] in
theorem mem_sendIf (w : World κ ω) {cloud_mode : Bool} (hcloud : cloud_mode = true)
    (q : ListRequest) : q ∈ (w.sendIf cloud_mode q).requests := by
  subst hcloud
  exact List.mem_cons_self

/-- What the main thread comes to, shown by a step of the world. -/
def Follows (text : JsonText) (s : Consoles κ ω) (w : World κ ω) (i : κ) (m : Console.Main)
    (db : Database) (requests : List ListRequest) : Prop :=
  ∃ w', Run (World.Step text) w w' ∧ Shows text { s with
    mains := Function.update s.mains i m
    dbs := Function.update s.dbs i db
    requests := requests
    uuids := (m.position.made.map fun list_id => (i, list_id)).toList ++ s.uuids } w'

variable {i : κ} {requests : List ListRequest}

omit [DecidableEq κ] [DecidableEq ω] in
/-- A position of no consequence: the world stays as it is. -/
theorem Shows.quiet [DecidableEq κ] [DecidableEq ω] (h : Shows text s w)
    (hrequests : requests ⊆ w.requests) {m : Console.Main}
    (hsession : (s.mains i).position.session = none) (hquiet : m.position.Quiet) :
    Follows text s w i m (s.dbs i) requests := by
  have hsession' : m.position.session = none := by
    cases hposition : m.position <;> rw [hposition] at hquiet <;> first | rfl | cases hquiet
  have hmade : m.position.made = none := by
    cases hposition : m.position <;> rw [hposition] at hquiet <;> first | rfl | cases hquiet
  refine ⟨w, .refl, ?_⟩
  rw [hmade]
  refine h.stay hsession hsession' hrequests fun q hq => ?_
  cases hposition : m.position with
  | update_list url l =>
    rw [hposition] at hquiet
    exact ⟨url, congrArg _ hquiet⟩
  | create_list | get_list =>
    rw [hposition] at hquiet
    cases hquiet
  | _ =>
    rw [hposition] at hq
    cases hq

open Classical in
/-- The new list is sent if it reads back. -/
theorem Shows.create (h : Shows text s w) (hrequests : requests ⊆ w.requests) (cin : Cin)
    {list_id : String} (list_name : String) (hsession : (s.mains i).position.session = none)
    (hfresh : s.Fresh list_id) :
    Follows text s w i
      ⟨cin, .create_list (ShoppingList.new list_id list_name ("msla-" ++ list_id))⟩
      ((s.dbs i).set ("msla-" ++ list_id)
        (ShoppingList.new list_id list_name ("msla-" ++ list_id)).toJson) requests := by
  have hcreate : World.Step text w _ := .create w i list_id list_name
    (decide (text.Reads (ShoppingList.new list_id list_name ("msla-" ++ list_id)).toJson))
    (h.idle hsession) (h.fresh hfresh) of_decide_eq_true
  refine ⟨_, .single hcreate, ?_⟩
  obtain ⟨hclients, hurl, hworkers, hpublished, huuids, hmore⟩ := sendIf_frame (_ : World κ ω) _ _
  refine h.main ?_ ?_ nofun hworkers hpublished ?_ (List.Subset.trans hrequests hmore) hmore ?_
  · rw [hclients, ← h.dbs i]
    rfl
  · intro k _
    rw [hurl]
    rfl
  · rw [huuids]
    exact congrArg _ h.uuids
  · intro q hq hreads
    cases hq
    exact .inl (mem_sendIf _ (decide_eq_true (hreads _ rfl)) _)

theorem Shows.get (h : Shows text s w) (hrequests : requests ⊆ w.requests) (cin : Cin)
    (get_list_url : String) (hsession : (s.mains i).position.session = none) :
    Follows text s w i ⟨cin, .get_list get_list_url⟩ (s.dbs i) requests := by
  refine ⟨_, .single (.get w get_list_url), ?_⟩
  have hmore := List.subset_cons_self (⟨"GET_LIST", get_list_url, []⟩ : ListRequest) w.requests
  refine h.main ?_ (fun _ _ => rfl) nofun rfl rfl h.uuids (List.Subset.trans hrequests hmore)
    hmore ?_
  · have hclient : w.clients i = ⟨s.dbs i, none⟩ := by
      rw [← hsession, ← h.dbs i, ← h.sessions i]
    exact (Function.update_eq_self_iff.2 hclient.symm).symm
  · intro q hq _
    cases hq
    exact .inl List.mem_cons_self

theorem Shows.edit (h : Shows text s w) (hrequests : requests ⊆ w.requests) (cin : Cin)
    {url : String} {j : Json} {l l' : ShoppingList} (hsession : (s.mains i).position.session = none)
    (hj : (s.dbs i).find? url = some j)
    (hl : ShoppingList.fromJson j ShoppingList.blank = some l) (hworked : Console.Worked l l') :
    Follows text s w i ⟨cin, .edited url l'⟩ (s.dbs i) requests := by
  obtain ⟨ops, -, rfl⟩ := hworked
  rw [← h.dbs i] at hj
  refine ⟨_, .single (.edit w i url j l ops (h.idle hsession) hj hl), ?_⟩
  refine h.main ?_ ?_ ?_ rfl rfl h.uuids hrequests (List.Subset.refl _) nofun
  · rw [← h.dbs i]
    rfl
  · intro k hk
    exact Function.update_of_ne hk _ _
  · intro url' hentry
    cases hentry
    exact Function.update_self ..

/-- `saveListToLocal` has read the entry. -/
theorem Shows.read (h : Shows text s w) (hrequests : requests ⊆ w.requests) (cin : Cin)
    {url : String} {l : ShoppingList} (hposition : (s.mains i).position = .edited url l)
    (j : Json) : Follows text s w i ⟨cin, .saving url l j⟩ (s.dbs i) requests := by
  refine ⟨w, .refl, ?_⟩
  refine h.main ?_ (fun _ _ => rfl) ?_ rfl rfl h.uuids hrequests (List.Subset.refl _) nofun
  · have hclient : w.clients i = ⟨s.dbs i, some l⟩ := by
      have hsession := h.sessions i
      rw [hposition] at hsession
      rw [← h.dbs i, ← show (w.clients i).currentShoppingList = some l from hsession]
    exact (Function.update_eq_self_iff.2 hclient.symm).symm
  · intro url' hentry
    refine h.picked i url' ?_
    rw [hposition]
    exact hentry

open Classical in
/-- A list that has been saved is sent if it reads back. -/
theorem Shows.save (h : Shows text s w) (hrequests : requests ⊆ w.requests) (cin : Cin)
    {url : String} {l : ShoppingList} {j value : Json}
    (hposition : (s.mains i).position = .saving url l j) (hj : (s.dbs i).get l.url = j)
    (hvalue : LocalStore.savedValue l j = some value) :
    Follows text s w i ⟨cin, .update_list url l⟩ ((s.dbs i).set l.url value) requests := by
  have hdb : LocalStore.saveListToLocal (s.dbs i) l = some ((s.dbs i).set l.url value) := by
    unfold LocalStore.saveListToLocal
    rw [hj, hvalue]
    rfl
  have hsession : (w.clients i).currentShoppingList = some l := by
    rw [h.sessions i, hposition]
    rfl
  have hsave : World.Step text w _ := .save w i l _ (decide (text.Reads l.toJson)) hsession
    (by rw [h.dbs i]; exact hdb) of_decide_eq_true
  refine ⟨_, .single hsave, ?_⟩
  obtain ⟨hclients, hurl, hworkers, hpublished, huuids, hmore⟩ := sendIf_frame (_ : World κ ω) _ _
  refine h.main ?_ ?_ nofun hworkers hpublished ?_ (List.Subset.trans hrequests hmore) hmore ?_
  · rw [hclients]
    rfl
  · intro k _
    rw [hurl]
    rfl
  · rw [huuids]
    exact h.uuids
  · intro q hq hreads
    cases hq
    rw [h.picked i url (by rw [hposition]; rfl)]
    exact .inl (mem_sendIf _ (decide_eq_true (hreads _ rfl)) _)

theorem Shows.delete (h : Shows text s w) (hrequests : requests ⊆ w.requests) (cin : Cin)
    (url : String) (hsession : (s.mains i).position.session = none) :
    Follows text s w i ⟨cin, .delete_list⟩ ((s.dbs i).del url) requests := by
  refine ⟨_, .single (.delete w i url (h.idle hsession)), ?_⟩
  refine h.main ?_ (fun _ _ => rfl) nofun rfl rfl h.uuids hrequests (List.Subset.refl _) nofun
  rw [← h.dbs i]
  rfl

/-- What the main thread does, the world can do. -/
theorem Shows.step_main (h : Shows text s w) (hundisturbed : s.Undisturbed) {list_id : String}
    {m : Console.Main} {db : Database}
    (hmoves : Console.Moves list_id (s.mains i) (s.dbs i) m db)
    (hfresh : s.Fresh list_id) (hrequests : requests ⊆ w.requests) :
    Follows text s w i m db requests := by
  cases hmoves with
  | create cin list_name hposition =>
    exact h.create hrequests cin list_name (by rw [hposition]; rfl) hfresh
  | get cin get_list_url hposition =>
    exact h.get hrequests cin get_list_url (by rw [hposition]; rfl)
  | edit cin url j l l' hposition hj hl hworked =>
    exact h.edit hrequests cin (by rw [hposition]; rfl) hj hl hworked
  | read url l hposition => exact h.read hrequests _ hposition _
  | save url l j value hposition hvalue =>
    exact h.save hrequests _ hposition (hundisturbed.saver i url l j hposition) hvalue
  | delete url hposition => exact h.delete hrequests _ url (by rw [hposition]; rfl)
  | quiet m hposition hquiet => exact h.quiet hrequests hposition hquiet

/-- What a request of `updateList` does: nothing yet to the database, or all of the update if what
has been read is still there. -/
theorem update_cases {db : Database} {list_url uuid : String} {j : Json} {u : LocalStore.Updater}
    {w : LocalStore.Writers} (hcurrent : (Listener.updating list_url j u).Current db)
    (hstep : LocalStore.step (updateCall list_url uuid j) ⟨.start, u, db⟩ .listener = some w) :
    (w.updater ≠ .done ∧ w.db = db) ∨
      (w.updater = .done ∧ LocalStore.updateList db list_url uuid j = some w.db) := by
  unfold LocalStore.updateList
  cases u with
  | start =>
    cases hstep
    refine .inl ⟨?_, rfl⟩
    dsimp only
    split_ifs <;> nofun
  | found =>
    cases hstep
    exact .inl ⟨nofun, rfl⟩
  | absent =>
    obtain ⟨value, hvalue, hw⟩ := Option.bind_eq_some_iff.1 hstep
    cases hw
    have hexist : db.exist list_url = false := hcurrent
    refine .inr ⟨rfl, ?_⟩
    rw [if_neg (by rw [hexist]; decide),
      show LocalStore.createdValue uuid j = some value from hvalue]
    rfl
  | read found =>
    obtain ⟨value, hvalue, hw⟩ := Option.bind_eq_some_iff.1 hstep
    cases hw
    obtain ⟨hexist, hget⟩ := hcurrent
    refine .inr ⟨rfl, ?_⟩
    rw [if_pos hexist, hget, show LocalStore.updatedValue j found = some value from hvalue]
    rfl
  | done => cases hstep

omit [DecidableEq ω] in
/-- The listener thread goes on with an update that it has received. -/
theorem Shows.listeners_update (h : Shows text s w) {list_url : String} {j : Json}
    (hp : ∃ shopping_list, (list_url, shopping_list) ∈ w.published ∧
      text.getJsonFromUString shopping_list = some j) (u : LocalStore.Updater) :
    ∀ k url j' u', Function.update s.listeners i (.next list_url j u) k = .updating url j' u' →
      ∃ shopping_list, (url, shopping_list) ∈ w.published ∧
        text.getJsonFromUString shopping_list = some j' := by
  intro k url j' u' hk
  by_cases hki : k = i
  · subst hki
    rw [Function.update_self] at hk
    cases u <;> cases hk <;> exact hp
  · rw [Function.update_of_ne hki] at hk
    exact h.listeners k url j' u' hk

/-- **One step of the consoles**, followed by the world. -/
theorem Shows.step (h : Shows text s w) (hunraced : s.Unraced) (hundisturbed : s.Undisturbed)
    (hstep : Step text s t) : ∃ w', Run (World.Step text) w w' ∧ Shows text t w' := by
  cases hstep with
  | main i fuel list_id cloud_mode m db hstep hfresh hreads =>
    have hsent := h.sent hunraced hreads
    exact h.step_main hundisturbed (Console.step_moves hstep) hfresh
      (List.append_subset.2 ⟨hsent, h.requests⟩)
  | receive i list_url shopping_list j hp hj hwaiting =>
    rw [← h.published] at hp
    exact ⟨w, .refl, { h with listeners := h.listeners_update ⟨shopping_list, hp, hj⟩ .start }⟩
  | update i list_url uuid j u w₁ hcall hfresh hstep =>
    obtain ⟨shopping_list, hp, hj⟩ := h.listeners i list_url j u hcall
    have hcurrent := hundisturbed.updater i
    rw [hcall] at hcurrent
    rcases update_cases hcurrent hstep with ⟨hdone, hdb⟩ | ⟨hdone, hdb⟩
    · have huuids : s.drawn i uuid w₁.updater = s.uuids := by
        cases hu : w₁.updater <;> first | rfl | exact absurd hu hdone
      rw [hdb, Function.update_eq_self, huuids]
      exact ⟨w, .refl, { h with
        listeners := h.listeners_update ⟨shopping_list, hp, hj⟩ w₁.updater }⟩
    · rw [← h.dbs i] at hdb
      have hlisten := World.Step.listen w i list_url shopping_list uuid j w₁.db hp hj
        (h.fresh hfresh) hdb
      refine ⟨_, .single hlisten, ?_⟩
      refine { h with
        dbs := fun k => ?_
        sessions := fun k => ?_
        listeners := h.listeners_update ⟨shopping_list, hp, hj⟩ w₁.updater
        uuids := ?_ }
      · by_cases hk : k = i
        · subst hk
          simp [World.setClient]
        · simp [World.setClient, hk, h.dbs k]
      · by_cases hk : k = i
        · subst hk
          simp [World.setClient, h.sessions k]
        · simp [World.setClient, hk, h.sessions k]
      · rw [hdone]
        exact congrArg _ h.uuids
  | handle w₁ q res db hq hres hreads =>
    rw [← h.workers] at hres
    refine ⟨_, .single (.handle w w₁ q res db (h.requests hq) hres hreads), ?_⟩
    refine { h with
      listeners := fun i list_url j u hcall => ?_
      workers := congrArg (Function.update · w₁ db) h.workers
      published := by rw [h.published] }
    obtain ⟨shopping_list, hp, hj⟩ := h.listeners i list_url j u hcall
    refine ⟨shopping_list, ?_, hj⟩
    dsimp only
    split_ifs
    · exact List.mem_cons_of_mem _ hp
    · exact hp

/-- **Consoles refine the world.** Whatever the users type, and whenever the threads take turns at
the databases, as long as none writes over an entry that another has changed since it was read: the
databases, the stores, the publications and the identifiers are those of a run of `World`, which has
sent all that the consoles have sent. -/
theorem consoles_refine (cins : κ → Cin)
    (hrun : Run (fun a b => Step text a b ∧ a.Unraced ∧ a.Undisturbed) (init cins) s) :
    ∃ w, Run (World.Step text) World.init w ∧ Shows text s w :=
  hrun.simulate (Shows text) (Shows.init cins) fun _ _ _ h hstep =>
    h.step hstep.2.1 hstep.2.2 hstep.1

/-! ## A list is made at a console, sent and taken -/

/-- One user makes a list, and the other asks for it. -/
def partyCins : Bool → Cin
  | false => ⟨"1 party\n".toList, false⟩
  | true => ⟨"2 msla-user1\n".toList, false⟩

/-- The list is made. -/
def madeParty : Consoles Bool Unit :=
  { init partyCins with
    mains := Function.update (init partyCins : Consoles Bool Unit).mains false
      ⟨⟨['\n'], false⟩, .create_list RequestHandler.newList⟩
    dbs := Function.update (fun _ => ∅) false
      ((∅ : Database).set "msla-user1" RequestHandler.newList.toJson)
    uuids := [(false, "user1")] }

/-- It is sent. -/
def sentParty : Consoles Bool Unit :=
  { madeParty with
    mains := Function.update madeParty.mains false ⟨⟨['\n'], false⟩, .menu⟩
    dbs := Function.update madeParty.dbs false (madeParty.dbs false)
    requests := [World.createRequest World.partyText RequestHandler.newList] }

/-- The worker has published it. -/
def handledParty : Consoles Bool Unit :=
  { sentParty with
    workers := Function.update sentParty.workers ()
      ((∅ : Database).set "msla-user1" (RequestHandler.newList.setId "").toJson)
    published := [("msla-user1", RequestHandler.newListText "")] }

/-- The other client's listener thread has received it. -/
def receivedParty : Consoles Bool Unit :=
  { handledParty with
    listeners := Function.update handledParty.listeners true
      (.updating "msla-user1" (RequestHandler.newList.setId "").toJson .start) }

/-- It has not found it in the database. -/
def absentParty : Consoles Bool Unit :=
  { receivedParty with
    listeners := Function.update receivedParty.listeners true
      (.updating "msla-user1" (RequestHandler.newList.setId "").toJson .absent)
    dbs := Function.update receivedParty.dbs true (receivedParty.dbs true) }

/-- In between, the main thread asks for the list. -/
def askedParty : Consoles Bool Unit :=
  { absentParty with
    mains := Function.update absentParty.mains true ⟨⟨['\n'], false⟩, .get_list "msla-user1"⟩
    dbs := Function.update absentParty.dbs true (absentParty.dbs true) }

/-- The listener thread has written it. -/
def takenParty : Consoles Bool Unit :=
  { askedParty with
    listeners := Function.update askedParty.listeners true .waiting
    dbs := Function.update askedParty.dbs true
      ((∅ : Database).set "msla-user1" (RequestHandler.newList.setId "user2").toJson)
    uuids := [(true, "user2"), (false, "user1")] }

theorem madeParty_step : Step World.partyText (init partyCins : Consoles Bool Unit) madeParty := by
  refine .main _ false 1 "user1" true ⟨⟨['\n'], false⟩, .create_list RequestHandler.newList⟩ _
    rfl (fun _ => List.not_mem_nil) fun h => ?_
  cases h

theorem sentParty_step : Step World.partyText madeParty sentParty := by
  have hfresh : madeParty.Fresh "user3" := fun i hi => by
    simp [madeParty] at hi
  refine .main _ false 1 "user3" true ⟨⟨['\n'], false⟩, .menu⟩ _ rfl hfresh fun _ l hl => ?_
  cases hl
  exact World.reads_party "user1" (.inl rfl)

theorem handledParty_step : Step World.partyText sentParty handledParty :=
  .handle sentParty () ⟨"CREATE_LIST", "msla-user1", ["party", RequestHandler.newListText "user1"]⟩
    _ _ List.mem_cons_self World.handle_party fun _ => World.reads_party "" (.inr rfl)

theorem receivedParty_step : Step World.partyText handledParty receivedParty :=
  .receive handledParty true "msla-user1" (RequestHandler.newListText "") _ List.mem_cons_self
    (World.reads_party "" (.inr rfl)) rfl

theorem absentParty_step : Step World.partyText receivedParty absentParty := by
  have hfresh : receivedParty.Fresh "user2" := fun i hi => by
    simp [receivedParty, handledParty, sentParty, madeParty] at hi
  exact .update receivedParty true "msla-user1" "user2" _ .start _ rfl hfresh rfl

theorem askedParty_step : Step World.partyText absentParty askedParty := by
  have hfresh : absentParty.Fresh "user3" := fun i hi => by
    simp [absentParty, receivedParty, handledParty, sentParty, madeParty] at hi
  refine .main _ true 1 "user3" false ⟨⟨['\n'], false⟩, .get_list "msla-user1"⟩ _ rfl hfresh
    fun h => ?_
  cases h

theorem takenParty_step : Step World.partyText askedParty takenParty := by
  have hfresh : askedParty.Fresh "user2" := fun i hi => by
    simp [askedParty, absentParty, receivedParty, handledParty, sentParty, madeParty] at hi
  exact .update askedParty true "msla-user1" "user2" _ .absent _ rfl hfresh rfl

/-- The condition on a state whose main threads have nothing to save and have not asked in vain. -/
theorem undisturbed_of_idle {s : Consoles Bool Unit}
    (hidle : ∀ i, (s.mains i).position.session = none)
    (hasked : ∀ i url, (s.mains i).position ≠ .update_list url ShoppingList.blank)
    (hcurrent : ∀ i, (s.listeners i).Current (s.dbs i)) : s.Unraced ∧ s.Undisturbed := by
  refine ⟨fun i url h => absurd h (hasked i url), ⟨fun i url l j h => ?_, hcurrent⟩⟩
  have hnone := hidle i
  rw [h] at hnone
  cases hnone

theorem consoles_refine_party :
    Run (fun a b => Step World.partyText a b ∧ a.Unraced ∧ a.Undisturbed) (init partyCins)
        takenParty ∧
      ∃ w, Run (World.Step World.partyText) World.init w ∧ Shows World.partyText takenParty w := by
  have hinit : (init partyCins : Consoles Bool Unit).Unraced ∧ (init partyCins).Undisturbed :=
    undisturbed_of_idle (fun _ => rfl) nofun fun _ => trivial
  have hmade : madeParty.Unraced ∧ madeParty.Undisturbed :=
    undisturbed_of_idle (by rintro (_ | _) <;> rfl) (by rintro (_ | _) url <;> nofun)
      fun _ => trivial
  have hsent : sentParty.Unraced ∧ sentParty.Undisturbed :=
    undisturbed_of_idle (by rintro (_ | _) <;> rfl) (by rintro (_ | _) url <;> nofun)
      fun _ => trivial
  have hhandled : handledParty.Unraced ∧ handledParty.Undisturbed :=
    undisturbed_of_idle (by rintro (_ | _) <;> rfl) (by rintro (_ | _) url <;> nofun)
      fun _ => trivial
  have hreceived : receivedParty.Unraced ∧ receivedParty.Undisturbed :=
    undisturbed_of_idle (by rintro (_ | _) <;> rfl) (by rintro (_ | _) url <;> nofun)
      (by rintro (_ | _) <;> trivial)
  have habsent : absentParty.Unraced ∧ absentParty.Undisturbed :=
    undisturbed_of_idle (by rintro (_ | _) <;> rfl) (by rintro (_ | _) url <;> nofun)
      (by rintro (_ | _) <;> trivial)
  have hasked : askedParty.Unraced ∧ askedParty.Undisturbed :=
    undisturbed_of_idle (by rintro (_ | _) <;> rfl) (by rintro (_ | _) url <;> nofun)
      (by rintro (_ | _) <;> trivial)
  have hrun : Run (fun a b => Step World.partyText a b ∧ a.Unraced ∧ a.Undisturbed)
      (init partyCins) takenParty :=
    (((((((Relation.ReflTransGen.single ⟨madeParty_step, hinit⟩).tail ⟨sentParty_step, hmade⟩).tail
      ⟨handledParty_step, hsent⟩).tail ⟨receivedParty_step, hhandled⟩).tail
        ⟨absentParty_step, hreceived⟩).tail ⟨askedParty_step, habsent⟩).tail
          ⟨takenParty_step, hasked⟩)
  exact ⟨hrun, consoles_refine partyCins hrun⟩

end Consoles

end ShoppingApp
