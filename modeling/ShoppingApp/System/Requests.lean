import ShoppingApp.Lib.Mailbox
import ShoppingApp.Lib.Replication
import ShoppingApp.Broker.MajBroker
import ShoppingApp.Verify.MajWorker

/-!
# Requests and their replies

The broker hands requests of its clients to workers, which forward them to each other and reply;
the broker sends each reply to the client. Any number of requests may be under way, given to any
worker, and the messages between the parties arrive in any order. A request costs one reply for
each target ahead of the worker that got it and one for that worker, so it is answered once exactly
if the primary worker got it (`answered_once_iff`).
-/

namespace ShoppingApp

open ConsistentHashing (Hash)
open Replication (Run)

/-- A request of a client. -/
structure Request where
  client : String
  request_type : String
  url_list : String
  body : ZMsg

/-- A request that the broker has handed out: the worker it went to, and the store there then. -/
structure Dispatched (ι : Type*) extends Request where
  receiver : ι
  db : Database

/-- The workers, the requests so far, by number, and the messages about them: RECV_WORK messages on
their way to an endpoint, all REPLY messages there have been and those on their way to the broker,
each with its sender, and what the broker has sent to clients. -/
structure RequestSystem (ι : Type*) where
  workers : ι → Worker
  requests : List (Dispatched ι)
  work : Mailbox (String × ZMsg)
  sent : Mailbox (String × ZMsg)
  replies : Mailbox (String × ZMsg)
  answers : Mailbox ZMsg

namespace Request

def frames (q : Request) : ZMsg :=
  Broker.service_dispatch (Broker.client_process q.client (q.request_type :: q.url_list :: q.body))

/-- The client has an address, and a list that the request brings is well formed. -/
structure Valid (text : JsonText) (q : Request) : Prop where
  client : cStr q.client ≠ ""
  carries : ∃ r : ShoppingList, r.WF ∧
    RequestHandler.Carries text (cStr q.request_type) q.body r

theorem Valid.client_cStr {text : JsonText} {q : Request} (h : q.Valid text) :
    cStr (cStr q.client) ≠ "" := by
  rw [ZMsg.cStr_cStr]
  exact h.client

end Request

namespace RequestSystem

variable {ι : Type*} [DecidableEq ι] (generateHash : Hash) (text : JsonText) (b : Broker)

def init (workers : ι → Worker) : RequestSystem ι := ⟨workers, [], [], [], [], []⟩

/-- Worker `i` has dealt with a message about request `n`. -/
def settle (s : RequestSystem ι) (n : ℕ) (i : ι) (out : Worker.Received) : RequestSystem ι :=
  { s with
    workers := Function.update s.workers i out.worker
    work := s.work.post n (out.forwards.map fun f => (f.socket.endpoint, f.msg))
    sent := s.sent.post n [(out.worker.worker_id, out.reply)]
    replies := s.replies.post n [(out.worker.worker_id, out.reply)] }

/-- The broker hands a request to worker `i`. -/
def dispatch (s : RequestSystem ι) (i : ι) (q : Request) : Option (RequestSystem ι) :=
  ((s.workers i).onRequest generateHash text q.frames).map
    (settle { s with requests := s.requests ++ [⟨q, i, (s.workers i).db⟩] } s.requests.length i)

/-- The RECV_WORK message at position `k` arrives at worker `i`. -/
def deliver (s : RequestSystem ι) (k : ℕ) (i : ι) : Option (RequestSystem ι) :=
  match s.work[k]? with
  | none => none
  | some (n, endpoint, msg) =>
    if (s.workers i).m_worker_pull_bind_complete = endpoint then
      ((s.workers i).onRecvWork text msg).map (settle { s with work := s.work.eraseIdx k } n i)
    else none

/-- The REPLY message at position `k` arrives at the broker. -/
def answer (s : RequestSystem ι) (k : ℕ) : Option (RequestSystem ι) :=
  match s.replies[k]? with
  | none => none
  | some (n, sender, msg) => some { s with
      replies := s.replies.eraseIdx k
      answers := s.answers.post n (b.worker_process sender msg).toList }

inductive Step : RequestSystem ι → RequestSystem ι → Prop
  | dispatch {s t : RequestSystem ι} (i : ι) (q : Request) (hq : q.Valid text)
      (h : s.dispatch generateHash text i q = some t) : Step s t
  | deliver {s t : RequestSystem ι} (k : ℕ) (i : ι) (h : s.deliver text k i = some t) : Step s t
  | answer {s t : RequestSystem ι} (k : ℕ) (h : s.answer b k = some t) : Step s t

/-- Every message has arrived. -/
def Quiet (s : RequestSystem ι) : Prop := s.work = [] ∧ s.replies = []

/-- One worker has sent the broker one REPLY about request `n` and the broker has sent the client
one, with what `handleRequest` gives on the store of the worker that got the request. -/
def AnsweredOnce (s : RequestSystem ι) (n : ℕ) (q : Dispatched ι) : Prop :=
  ∃ res db' sender service,
    RequestHandler.handleRequest text (cStr q.url_list) (cStr q.request_type) q.body q.db =
      some (res, db') ∧
    s.sent.about n = [(sender, Worker.replyFrames (cStr q.client) [cStr res.reply])] ∧
    s.answers.about n = [(ZMsg.wrap [cStr res.reply] k_mdp_client service).wrap (cStr q.client) ""]

/-! ## The workers -/

/-- Workers that can send to each other and are registered with the broker. -/
structure Cluster (workers : ι → Worker) : Prop where
  connected : ∀ i, (workers i).Connected generateHash
  member : ∀ i, ∀ server ∈ (workers i).ch.ring.entries.map Prod.snd,
    ∃ j, (workers j).m_worker_pull_bind_complete = server
  registered : ∀ i, ∃ service, b.m_workers.find? (workers i).worker_id = some service
  wf : ∀ i, (workers i).db.WF

/-- `v` is worker `w` with another store and another address to reply to. -/
def SameNode (v w : Worker) : Prop :=
  ∃ m_reply_to db, v = { w with m_reply_to := m_reply_to, db := db }

variable {generateHash text b} {workers : ι → Worker} {s t : RequestSystem ι}

omit [DecidableEq ι] in
theorem Cluster.sameNode (h : Cluster generateHash b workers) {workers' : ι → Worker}
    (hsame : ∀ j, SameNode (workers' j) (workers j)) (hwf : ∀ j, (workers' j).db.WF) :
    Cluster generateHash b workers' := by
  refine ⟨fun i => ?_, fun i server hmem => ?_, fun i => ?_, hwf⟩
  · obtain ⟨_, _, heq⟩ := hsame i
    rw [heq]
    exact ⟨(h.connected i).nonempty, (h.connected i).socket⟩
  · obtain ⟨_, _, heq⟩ := hsame i
    rw [heq] at hmem
    obtain ⟨j, hj⟩ := h.member i server hmem
    obtain ⟨_, _, heq'⟩ := hsame j
    exact ⟨j, by rw [heq']; exact hj⟩
  · obtain ⟨_, _, heq⟩ := hsame i
    rw [heq]
    exact h.registered i

theorem sameNode_update (workers : ι → Worker) (i : ι) (m_reply_to : String) (db : Database)
    (j : ι) :
    SameNode (Function.update workers i { workers i with m_reply_to := m_reply_to, db := db } j)
      (workers j) := by
  by_cases hj : j = i
  · subst hj
    rw [Function.update_self]
    exact ⟨_, _, rfl⟩
  · rw [Function.update_of_ne hj]
    exact ⟨_, _, rfl⟩

theorem SameNode.trans {u v w : Worker} (huv : SameNode u v) (hvw : SameNode v w) :
    SameNode u w := by
  obtain ⟨_, _, rfl⟩ := huv
  obtain ⟨_, _, rfl⟩ := hvw
  exact ⟨_, _, rfl⟩

theorem SameNode.targetsAhead {v w : Worker} (h : SameNode v w) (url_list : String) :
    v.targetsAhead generateHash url_list = w.targetsAhead generateHash url_list := by
  obtain ⟨_, _, rfl⟩ := h
  rfl

theorem Cluster.update (h : Cluster generateHash b workers) (i : ι) (m_reply_to : String)
    {db : Database} (hdb : db.WF) :
    Cluster generateHash b
      (Function.update workers i { workers i with m_reply_to := m_reply_to, db := db }) := by
  refine h.sameNode (sameNode_update workers i m_reply_to db) fun j => ?_
  by_cases hj : j = i
  · subst hj
    rw [Function.update_self]
    exact hdb
  · rw [Function.update_of_ne hj]
    exact h.wf j

/-! ## Counting messages -/

/-- The REPLY messages about a request are those owed for the targets ahead of its receiver and
for the receiver, less one for each RECV_WORK under way, and each comes to one answer. -/
structure Accounted (generateHash : Hash) (text : JsonText) (b : Broker) (workers : ι → Worker)
    (s : RequestSystem ι) : Prop where
  cluster : Cluster generateHash b s.workers
  same : ∀ i, SameNode (s.workers i) (workers i)
  valid : ∀ (n : ℕ) (q : Dispatched ι), s.requests[n]? = some q → q.Valid text
  below : ∀ n m, (n, m) ∈ s.sent → n < s.requests.length
  work : ∀ n endpoint msg, (n, endpoint, msg) ∈ s.work →
    (∃ q, s.requests[n]? = some q ∧
      msg = Worker.workFrames (cStr q.client) q.request_type q.url_list q.body) ∧
    ∃ i, (s.workers i).m_worker_pull_bind_complete = endpoint
  replies : ∀ n sender msg, (n, sender, msg) ∈ s.replies →
    (∃ service, b.m_workers.find? sender = some service) ∧
    ∃ client reply, msg = Worker.replyFrames client reply
  owed : ∀ (n : ℕ) (q : Dispatched ι), s.requests[n]? = some q →
    (s.work.about n).length + (s.sent.about n).length =
      ((workers q.receiver).targetsAhead generateHash (cStr q.url_list)).length + 1
  replied : ∀ n < s.requests.length, 0 < (s.sent.about n).length
  passed : ∀ n, (s.sent.about n).length = (s.replies.about n).length + (s.answers.about n).length
  primary : ∀ (n : ℕ) (q : Dispatched ι), s.requests[n]? = some q →
    (workers q.receiver).targetsAhead generateHash (cStr q.url_list) = [] →
    ∃ res db', RequestHandler.handleRequest text (cStr q.url_list) (cStr q.request_type) q.body
        q.db = some (res, db') ∧
      (∀ m ∈ s.sent.about n, m.2 = Worker.replyFrames (cStr q.client) [cStr res.reply]) ∧
      (∀ m ∈ s.replies.about n, m.2 = Worker.replyFrames (cStr q.client) [cStr res.reply]) ∧
      ∀ a ∈ s.answers.about n, ∃ service,
        a = (ZMsg.wrap [cStr res.reply] k_mdp_client service).wrap (cStr q.client) ""

omit [DecidableEq ι] in
theorem Accounted.init (h : Cluster generateHash b workers) :
    Accounted generateHash text b workers (init workers) where
  cluster := h
  same i := ⟨_, _, rfl⟩
  valid n q hq := by cases hq
  below n m hm := by cases hm
  work n endpoint msg hm := by cases hm
  replies n sender msg hm := by cases hm
  owed n q hq := by cases hq
  replied n hn := by cases hn
  passed n := rfl
  primary n q hq := by cases hq

omit [DecidableEq ι] in
/-- Nothing is about a request that has not been made. -/
theorem Accounted.about_of_le (h : Accounted generateHash text b workers s) {n : ℕ}
    (hn : s.requests.length ≤ n) :
    s.work.about n = [] ∧ s.sent.about n = [] ∧ s.replies.about n = [] ∧ s.answers.about n = [] := by
  have hwork : s.work.about n = [] := by
    apply List.eq_nil_iff_forall_not_mem.2
    intro m hm
    obtain ⟨⟨q, hq, -⟩, -⟩ := h.work n m.1 m.2 (Mailbox.mem_about.1 hm)
    rw [List.getElem?_eq_none hn] at hq
    cases hq
  have hsent : s.sent.about n = [] := by
    apply List.eq_nil_iff_forall_not_mem.2
    intro m hm
    have hlt := h.below n m (Mailbox.mem_about.1 hm)
    omega
  have hpassed := h.passed n
  rw [hsent, List.length_nil] at hpassed
  refine ⟨hwork, hsent, ?_, ?_⟩
  · apply List.eq_nil_of_length_eq_zero
    omega
  · apply List.eq_nil_of_length_eq_zero
    omega

theorem getElem?_concat {α : Type*} {l : List α} {a x : α} {n : ℕ}
    (h : (l ++ [a])[n]? = some x) : n < l.length ∧ l[n]? = some x ∨ n = l.length ∧ x = a := by
  rcases lt_trichotomy n l.length with hlt | heq | hgt
  · rw [List.getElem?_append_left hlt] at h
    exact .inl ⟨hlt, h⟩
  · subst heq
    rw [List.getElem?_concat_length] at h
    cases h
    exact .inr ⟨rfl, rfl⟩
  · rw [List.getElem?_eq_none (by rw [List.length_append, List.length_singleton]; omega)] at h
    cases h

/-- What is left to check when worker `i` has dealt with a message about request `n` and sent its
reply. -/
theorem Accounted.settle (h : Accounted generateHash text b workers s)
    {requests : List (Dispatched ι)} {work : Mailbox (String × ZMsg)} {n : ℕ} {i : ι} {db : Database}
    {out : Worker.Received} (hworker : out.worker = { s.workers i with m_reply_to := "", db := db })
    (hdb : db.WF) (hreply : ∃ client reply, out.reply = Worker.replyFrames client reply)
    (hn : n < requests.length) (hgrow : s.requests.length ≤ requests.length)
    (hlast : ∀ j < requests.length, j = n ∨ j < s.requests.length)
    (hvalid : ∀ (j : ℕ) (q : Dispatched ι), requests[j]? = some q → q.Valid text)
    (hwork : ∀ j endpoint msg,
      (j, endpoint, msg) ∈ work.post n (out.forwards.map fun f => (f.socket.endpoint, f.msg)) →
      (∃ q, requests[j]? = some q ∧
        msg = Worker.workFrames (cStr q.client) q.request_type q.url_list q.body) ∧
      ∃ i', (s.workers i').m_worker_pull_bind_complete = endpoint)
    (howed : ∀ (j : ℕ) (q : Dispatched ι), requests[j]? = some q →
      (work.about j).length + (if n = j then out.forwards.length + 1 else 0) +
          (s.sent.about j).length =
        ((workers q.receiver).targetsAhead generateHash (cStr q.url_list)).length + 1)
    (hprimary : ∀ (j : ℕ) (q : Dispatched ι), requests[j]? = some q →
      (workers q.receiver).targetsAhead generateHash (cStr q.url_list) = [] →
      ∃ res db', RequestHandler.handleRequest text (cStr q.url_list) (cStr q.request_type) q.body
          q.db = some (res, db') ∧
        (∀ m ∈ s.sent.about j, m.2 = Worker.replyFrames (cStr q.client) [cStr res.reply]) ∧
        (∀ m ∈ s.replies.about j, m.2 = Worker.replyFrames (cStr q.client) [cStr res.reply]) ∧
        (n = j → out.reply = Worker.replyFrames (cStr q.client) [cStr res.reply]) ∧
        ∀ a ∈ s.answers.about j, ∃ service,
          a = (ZMsg.wrap [cStr res.reply] k_mdp_client service).wrap (cStr q.client) "") :
    Accounted generateHash text b workers
      (RequestSystem.settle { s with requests := requests, work := work } n i out) := by
  have hnode := sameNode_update s.workers i "" db
  rw [← hworker] at hnode
  constructor
  · have hcluster := h.cluster.update i "" hdb
    rw [← hworker] at hcluster
    exact hcluster
  · intro j
    exact (hnode j).trans (h.same j)
  · exact hvalid
  · intro j m hm
    rcases Mailbox.mem_post.1 hm with hold | ⟨rfl, -⟩
    · exact (h.below j m hold).trans_le hgrow
    · exact hn
  · intro j endpoint msg hm
    obtain ⟨hreq, i', hi'⟩ := hwork j endpoint msg hm
    obtain ⟨_, _, heq⟩ := hnode i'
    exact ⟨hreq, i', (congrArg Worker.m_worker_pull_bind_complete heq).trans hi'⟩
  · intro j sender msg hm
    rcases Mailbox.mem_post.1 hm with hold | ⟨-, hnew⟩
    · exact h.replies j sender msg hold
    · cases List.mem_singleton.1 hnew
      rw [hworker]
      exact ⟨h.cluster.registered i, hreply⟩
  · intro j q hq
    have howed := howed j q hq
    simp only [RequestSystem.settle, Mailbox.about_post, List.length_append]
    by_cases hj : n = j
    · simp only [if_pos hj, List.length_map, List.length_singleton] at howed ⊢
      omega
    · simp only [if_neg hj, List.length_nil] at howed ⊢
      omega
  · intro j hj
    simp only [RequestSystem.settle, Mailbox.about_post, List.length_append]
    rcases hlast j hj with rfl | hlt
    · rw [if_pos rfl, List.length_singleton]
      omega
    · have hreplied := h.replied j hlt
      omega
  · intro j
    have hpassed := h.passed j
    simp only [RequestSystem.settle, Mailbox.about_post, List.length_append]
    omega
  · intro j q hq hnil
    obtain ⟨res, db', hres, hsent, hreplies, hnew, hanswers⟩ := hprimary j q hq hnil
    refine ⟨res, db', hres, fun m hm => ?_, fun m hm => ?_, hanswers⟩
    · rcases Mailbox.mem_post.1 (Mailbox.mem_about.1 hm) with hold | ⟨hj, hown⟩
      · exact hsent m (Mailbox.mem_about.2 hold)
      · cases List.mem_singleton.1 hown
        exact hnew hj.symm
    · rcases Mailbox.mem_post.1 (Mailbox.mem_about.1 hm) with hold | ⟨hj, hown⟩
      · exact hreplies m (Mailbox.mem_about.2 hold)
      · cases List.mem_singleton.1 hown
        exact hnew hj.symm

theorem Accounted.dispatch (h : Accounted generateHash text b workers s) {i : ι} {q : Request}
    (hq : q.Valid text) (hst : s.dispatch generateHash text i q = some t) :
    Accounted generateHash text b workers t := by
  obtain ⟨r, hr, hc⟩ := hq.carries
  obtain ⟨db', published, reply, hdb', hout, hprimary⟩ :=
    Worker.onRequest_eq (h.cluster.connected i) (h.cluster.wf i) hr hc hq.client q.url_list
  unfold RequestSystem.dispatch at hst
  rw [show q.frames = Worker.requestFrames q.client q.request_type q.url_list q.body from rfl,
    hout] at hst
  cases hst
  obtain ⟨hwork, hsent, hreplies, hanswers⟩ := h.about_of_le le_rfl
  have hlength : ∀ d : Dispatched ι, (s.requests ++ [d]).length = s.requests.length + 1 :=
    fun _ => List.length_append
  have hahead : (s.workers i).targetsAhead generateHash (cStr q.url_list) =
    (workers i).targetsAhead generateHash (cStr q.url_list) := (h.same i).targetsAhead _
  refine h.settle rfl hdb' ⟨_, _, rfl⟩ (by rw [hlength]; omega) (by rw [hlength]; omega)
    (fun j hj => by rw [hlength] at hj; omega) (fun j q' hq' => ?_) (fun j endpoint msg hm => ?_)
    (fun j q' hq' => ?_) (fun j q' hq' hnil => ?_)
  · rcases getElem?_concat hq' with ⟨-, hold⟩ | ⟨-, rfl⟩
    · exact h.valid j q' hold
    · exact hq
  · rcases Mailbox.mem_post.1 hm with hold | ⟨rfl, hnew⟩
    · obtain ⟨⟨q', hq', hmsg⟩, hreceiver⟩ := h.work j endpoint msg hold
      refine ⟨⟨q', ?_, hmsg⟩, hreceiver⟩
      exact List.getElem?_append_left (List.getElem?_eq_some_iff.1 hq').1 ▸ hq'
    · obtain ⟨f, hf, heq⟩ := List.mem_map.1 hnew
      obtain ⟨worker, hworker, rfl⟩ := List.mem_map.1 hf
      cases heq
      obtain ⟨hmem, hendpoint⟩ := (h.cluster.connected i).endpoint hworker
        (Worker.requestOf q.request_type q.url_list q.body)
      obtain ⟨i', hi'⟩ := h.cluster.member i worker hmem
      exact ⟨⟨_, List.getElem?_concat_length, rfl⟩, i', hi'.trans hendpoint.symm⟩
  · rcases getElem?_concat hq' with ⟨hlt, hold⟩ | ⟨rfl, rfl⟩
    · have howed := h.owed j q' hold
      rw [if_neg hlt.ne', Nat.add_zero]
      exact howed
    · change _ = ((workers i).targetsAhead generateHash (cStr q.url_list)).length + 1
      rw [if_pos rfl, hwork, hsent, List.length_map, hahead, List.length_nil]
      omega
  · rcases getElem?_concat hq' with ⟨hlt, hold⟩ | ⟨rfl, rfl⟩
    · obtain ⟨res, db'', hres, hsent', hreplies', hanswers'⟩ := h.primary j q' hold hnil
      exact ⟨res, db'', hres, hsent', hreplies', fun hj => absurd hj hlt.ne', hanswers'⟩
    · rw [← hahead] at hnil
      obtain ⟨res, hres, rfl⟩ := hprimary
        (((h.cluster.connected i).targetsAhead_eq_nil_iff _).1 hnil)
      rw [hsent, hreplies, hanswers]
      refine ⟨res, db', hres, fun m hm => ?_, fun m hm => ?_, fun _ => rfl, fun a ha => ?_⟩
      · cases hm
      · cases hm
      · cases ha

theorem Accounted.deliver (h : Accounted generateHash text b workers s) {k : ℕ} {i : ι}
    (hst : s.deliver text k i = some t) : Accounted generateHash text b workers t := by
  unfold RequestSystem.deliver at hst
  split at hst
  · cases hst
  rename_i n endpoint msg hk
  split_ifs at hst with hendpoint
  have hmem : (n, endpoint, msg) ∈ s.work := List.mem_of_getElem? hk
  obtain ⟨⟨q, hq, rfl⟩, -⟩ := h.work n endpoint msg hmem
  have hvalid := h.valid n q hq
  obtain ⟨r, hr, hc⟩ := hvalid.carries
  obtain ⟨db', published, reply, hdb', hout⟩ :=
    Worker.onRecvWork_eq (h.cluster.wf i) hr hc hvalid.client_cStr q.url_list
  rw [hout] at hst
  cases hst
  have hlt : n < s.requests.length := (List.getElem?_eq_some_iff.1 hq).1
  refine h.settle rfl hdb' ⟨_, _, rfl⟩ hlt le_rfl (fun j hj => .inr hj) h.valid
    (fun j endpoint msg hm => ?_) (fun j q' hq' => ?_) (fun j q' hq' hnil => ?_)
  · rcases Mailbox.mem_post.1 hm with hold | ⟨-, hnew⟩
    · exact h.work j endpoint msg (Mailbox.mem_of_mem_eraseIdx hold)
    · cases hnew
  · have howed := h.owed j q' hq'
    have hwork := Mailbox.about_eraseIdx hk j
    rw [List.length_nil, Nat.zero_add]
    omega
  · obtain ⟨res, db'', hres, hsent, hreplies, hanswers⟩ := h.primary j q' hq' hnil
    refine ⟨res, db'', hres, hsent, hreplies, fun hj => ?_, hanswers⟩
    -- a request that the primary worker got has no work under way
    have hreplied := h.replied n hlt
    have howed := h.owed j q' hq'
    have hwork := Mailbox.about_eraseIdx hk j
    rw [hnil, List.length_nil] at howed
    rw [if_pos hj] at hwork
    subst hj
    omega

/-- What the broker makes of a reply of a registered worker. -/
theorem worker_process_replyFrames {sender service : String}
    (h : b.m_workers.find? sender = some service) (client : String) (reply : ZMsg) :
    b.worker_process sender (Worker.replyFrames client reply) =
      some ((reply.wrap k_mdp_client service).wrap (cStr client) "") := by
  have hopen := Worker.openEnvelope_envelope k_mdpw_reply (by decide) (reply.wrap client "")
  unfold Broker.worker_process Worker.replyFrames
  rw [h, Option.bind_eq_bind, Option.bind_some, hopen, Option.bind_eq_bind, Option.bind_some,
    ZMsg.unwrap_wrap]
  rfl

omit [DecidableEq ι] in
theorem Accounted.answer (h : Accounted generateHash text b workers s) {k : ℕ}
    (hst : s.answer b k = some t) : Accounted generateHash text b workers t := by
  unfold RequestSystem.answer at hst
  split at hst
  · cases hst
  rename_i n sender msg hk
  have hmem : (n, sender, msg) ∈ s.replies := List.mem_of_getElem? hk
  obtain ⟨⟨service, hservice⟩, client, reply, rfl⟩ := h.replies n sender msg hmem
  rw [worker_process_replyFrames hservice] at hst
  cases hst
  have hreplies := fun j => Mailbox.about_eraseIdx hk j
  refine ⟨h.cluster, h.same, h.valid, h.below, h.work, ?_, h.owed, h.replied, ?_, ?_⟩
  · intro j sender' msg' hm
    exact h.replies j sender' msg' (Mailbox.mem_of_mem_eraseIdx hm)
  · intro j
    have hpassed := h.passed j
    have hreplies' := hreplies j
    simp only [Mailbox.about_post, Option.toList_some, List.length_append]
    by_cases hj : n = j
    · simp only [if_pos hj, List.length_singleton] at hreplies' ⊢
      omega
    · simp only [if_neg hj, List.length_nil] at hreplies' ⊢
      omega
  · intro j q hq hnil
    obtain ⟨res, db', hres, hsent, hrep, hanswers⟩ := h.primary j q hq hnil
    refine ⟨res, db', hres, hsent, fun m hm => ?_, fun a ha => ?_⟩
    · apply hrep m
      exact Mailbox.mem_about.2 (Mailbox.mem_of_mem_eraseIdx (Mailbox.mem_about.1 hm))
    · rcases Mailbox.mem_post.1 (Mailbox.mem_about.1 ha) with hold | ⟨rfl, hnew⟩
      · exact hanswers a (Mailbox.mem_about.2 hold)
      · have hmsg : Worker.replyFrames client reply =
            Worker.replyFrames (cStr q.client) [cStr res.reply] :=
          hrep _ (Mailbox.mem_about.2 hmem)
        have hsame := worker_process_replyFrames hservice client reply
        rw [hmsg, worker_process_replyFrames hservice, ZMsg.cStr_cStr] at hsame
        cases List.mem_singleton.1 hnew
        exact ⟨service, (Option.some.inj hsame).symm⟩

theorem Step.accounted (h : Accounted generateHash text b workers s)
    (hst : Step generateHash text b s t) : Accounted generateHash text b workers t := by
  cases hst with
  | dispatch i q hq hst => exact h.dispatch hq hst
  | deliver k i hst => exact h.deliver hst
  | answer k hst => exact h.answer hst

theorem Run.accounted (h : Cluster generateHash b workers)
    (hrun : Run (Step generateHash text b) (init workers) s) :
    Accounted generateHash text b workers s :=
  hrun.invariant _ (.init h) fun _ _ => Step.accounted

/-! ## The messages all arrive -/

/-- The messages still to come: each RECV_WORK brings a REPLY. -/
def pending (s : RequestSystem ι) : ℕ := 2 * s.work.length + s.replies.length

theorem Accounted.exists_deliver (h : Accounted generateHash text b workers s)
    (hwork : s.work ≠ []) :
    ∃ t, Step generateHash text b s t ∧ t.requests = s.requests ∧ t.pending < s.pending := by
  obtain ⟨m, rest, hrest⟩ := List.exists_cons_of_ne_nil hwork
  obtain ⟨n, endpoint, msg⟩ := m
  obtain ⟨⟨q, hq, hmsg⟩, i, hi⟩ := h.work n endpoint msg (hrest ▸ List.mem_cons_self)
  have hvalid := h.valid n q hq
  obtain ⟨r, hr, hc⟩ := hvalid.carries
  obtain ⟨db', published, reply, -, hout⟩ :=
    Worker.onRecvWork_eq (h.cluster.wf i) hr hc hvalid.client_cStr q.url_list
  obtain ⟨out, hout, hnone⟩ : ∃ out, (s.workers i).onRecvWork text
      (Worker.workFrames (cStr q.client) q.request_type q.url_list q.body) = some out ∧
      out.forwards = [] := ⟨_, hout, rfl⟩
  have hdeliver : s.deliver text 0 i =
      some (RequestSystem.settle { s with work := rest } n i out) := by
    unfold RequestSystem.deliver
    rw [hrest, hmsg, List.getElem?_cons_zero]
    dsimp only
    rw [if_pos hi, hout]
    rfl
  refine ⟨_, .deliver 0 i hdeliver, rfl, ?_⟩
  simp only [pending, RequestSystem.settle, Mailbox.post, hrest, hnone, List.length_append, List.length_map,
    List.length_cons, List.length_nil]
  omega

omit [DecidableEq ι] in
theorem exists_answer (hreplies : s.replies ≠ []) :
    ∃ t, s.answer b 0 = some t ∧ t.requests = s.requests ∧ t.pending < s.pending := by
  obtain ⟨⟨n, sender, msg⟩, rest, hrest⟩ := List.exists_cons_of_ne_nil hreplies
  have hanswer : s.answer b 0 = some { s with
      replies := rest
      answers := s.answers.post n (b.worker_process sender msg).toList } := by
    unfold RequestSystem.answer
    rw [hrest]
    rfl
  refine ⟨_, hanswer, rfl, ?_⟩
  simp only [pending, hrest, List.length_cons]
  omega

/-- All messages can be delivered. -/
theorem Accounted.exists_quiet (h : Accounted generateHash text b workers s) :
    ∃ t, Run (Step generateHash text b) s t ∧ t.Quiet ∧ t.requests = s.requests := by
  induction hn : s.pending using Nat.strong_induction_on generalizing s with
  | _ n ih =>
    by_cases hwork : s.work = []
    · by_cases hreplies : s.replies = []
      · exact ⟨s, .refl, ⟨hwork, hreplies⟩, rfl⟩
      · obtain ⟨t, hst, hreq, hlt⟩ := exists_answer (b := b) hreplies
        obtain ⟨u, hrun, hquiet, hreq'⟩ := ih _ (hn ▸ hlt) (h.answer hst) rfl
        exact ⟨u, .head (.answer 0 hst) hrun, hquiet, hreq'.trans hreq⟩
    · obtain ⟨t, hst, hreq, hlt⟩ := h.exists_deliver hwork
      obtain ⟨u, hrun, hquiet, hreq'⟩ := ih _ (hn ▸ hlt) (hst.accounted h) rfl
      exact ⟨u, .head hst hrun, hquiet, hreq'.trans hreq⟩

/-! ## One answer -/

omit [DecidableEq ι] in
theorem Accounted.answeredOnce_iff (h : Accounted generateHash text b workers s)
    (hcluster : Cluster generateHash b workers) (hquiet : s.Quiet) {n : ℕ} {q : Dispatched ι}
    (hq : s.requests[n]? = some q) :
    s.AnsweredOnce text n q ↔ (workers q.receiver).m_worker_pull_bind_complete =
      (workers q.receiver).ch.getServer generateHash (cStr q.url_list) := by
  have howed := h.owed n q hq
  have hpassed := h.passed n
  rw [← (hcluster.connected q.receiver).targetsAhead_eq_nil_iff]
  rw [hquiet.1, show Mailbox.about n ([] : Mailbox (String × ZMsg)) = [] from rfl,
    List.length_nil] at howed
  rw [hquiet.2, show Mailbox.about n ([] : Mailbox (String × ZMsg)) = [] from rfl,
    List.length_nil] at hpassed
  constructor
  · rintro ⟨res, db', sender, service, -, hsent, -⟩
    rw [hsent, List.length_singleton] at howed
    apply List.eq_nil_of_length_eq_zero
    omega
  · intro hnil
    rw [hnil, List.length_nil] at howed
    obtain ⟨res, db', hres, hsent, -, hanswers⟩ := h.primary n q hq hnil
    obtain ⟨⟨sender, msg⟩, hone⟩ := List.length_eq_one_iff.1 (show (s.sent.about n).length = 1 by omega)
    obtain ⟨a, hone'⟩ := List.length_eq_one_iff.1 (show (s.answers.about n).length = 1 by omega)
    have hmsg : msg = _ := hsent (sender, msg) (hone ▸ List.mem_singleton_self _)
    obtain ⟨service, ha⟩ := hanswers a (hone' ▸ List.mem_singleton_self _)
    exact ⟨res, db', sender, service, hres, hmsg ▸ hone, ha ▸ hone'⟩

/-- **A request is answered once** exactly if the primary worker of its url got it: whatever has
been done so far, the messages under way can all arrive, and when all have arrived the broker has
got one REPLY and the client one answer, that of `handleRequest`, exactly for those requests. -/
theorem answered_once_iff (hcluster : Cluster generateHash b workers)
    (hrun : Run (Step generateHash text b) (init workers) s) :
    (∃ t, Run (Step generateHash text b) s t ∧ t.Quiet ∧ t.requests = s.requests) ∧
      (s.Quiet → ∀ (n : ℕ) (q : Dispatched ι), s.requests[n]? = some q →
        (s.AnsweredOnce text n q ↔ (workers q.receiver).m_worker_pull_bind_complete =
          (workers q.receiver).ch.getServer generateHash (cStr q.url_list))) := by
  have haccounted := Run.accounted hcluster hrun
  exact ⟨haccounted.exists_quiet, fun hquiet n q hq =>
    haccounted.answeredOnce_iff hcluster hquiet hq⟩

/-- Two workers that can send to each other, both registered. -/
def sampleWorkers : Bool → Worker
  | false => Worker.firstWorker
  | true => ⟨"tcp://localhost:5601", "worker1", "",
      Worker.sampleRing.addPushSocketViaServer Worker.sampleHash "tcp://localhost:5600"
        ⟨"tcp://localhost:5600"⟩, ∅, 2⟩

def sampleBroker : Broker :=
  ⟨((∅ : SortedMap String String).set "worker0" "LIST_MANAGEMENT").set "worker1" "LIST_MANAGEMENT"⟩

theorem sampleCluster : Cluster Worker.sampleHash sampleBroker sampleWorkers where
  connected i := by
    cases i
    · exact ⟨by decide, by decide⟩
    · exact ⟨by decide, by decide⟩
  member i server hmem := by
    have hring : (sampleWorkers i).ch.ring.entries.map Prod.snd =
        ["tcp://localhost:5600", "tcp://localhost:5601"] := by
      cases i <;> rfl
    rw [hring, List.mem_cons, List.mem_singleton] at hmem
    rcases hmem with rfl | rfl
    · exact ⟨false, rfl⟩
    · exact ⟨true, rfl⟩
  registered i := by
    cases i
    · exact ⟨"LIST_MANAGEMENT", by decide⟩
    · exact ⟨"LIST_MANAGEMENT", by decide⟩
  wf i := by
    cases i
    · exact Database.WF.empty
    · exact Database.WF.empty

def getList : Request := ⟨"client1", "GET_LIST", "msla-user1", []⟩

theorem getList_valid : getList.Valid RequestHandler.sampleText where
  client := by decide
  carries := ⟨_, ShoppingList.WF.blank, fun h => absurd h (by decide), fun h => absurd h (by decide)⟩

/-- The request goes to worker `i`. -/
def handOut (i : Bool) : Option (RequestSystem Bool) :=
  (init sampleWorkers).dispatch Worker.sampleHash RequestHandler.sampleText i getList

theorem handOut_run {i : Bool} {s : RequestSystem Bool} (h : handOut i = some s) :
    Run (Step Worker.sampleHash RequestHandler.sampleText sampleBroker) (init sampleWorkers) s :=
  .single (.dispatch i getList getList_valid h)

theorem answered_once_iff_handOut :
    ∃ s, handOut false = some s ∧
      (∃ t, Run (Step Worker.sampleHash RequestHandler.sampleText sampleBroker) s t ∧ t.Quiet ∧
        t.requests = s.requests) ∧
      (s.Quiet → ∀ (n : ℕ) (q : Dispatched Bool), s.requests[n]? = some q →
        (s.AnsweredOnce RequestHandler.sampleText n q ↔
          (sampleWorkers q.receiver).m_worker_pull_bind_complete =
            (sampleWorkers q.receiver).ch.getServer Worker.sampleHash (cStr q.url_list))) := by
  obtain ⟨s, hs⟩ := Option.isSome_iff_exists.1 (show (handOut false).isSome = true by decide)
  exact ⟨s, hs, answered_once_iff sampleCluster (handOut_run hs)⟩

/-- The request goes to the worker that is not the primary one, and all messages arrive. -/
def secondRun : Option (RequestSystem Bool) := do
  let s ← handOut true
  let s ← s.deliver RequestHandler.sampleText 0 false
  let s ← s.answer sampleBroker 0
  s.answer sampleBroker 0

/-- The client of that request is answered twice. -/
theorem answered_twice :
    ∃ s, Run (Step Worker.sampleHash RequestHandler.sampleText sampleBroker) (init sampleWorkers) s ∧
      s.Quiet ∧ s.requests.length = 1 ∧
      s.answers = [
        (0, ["client1", "", "MDPC01", "LIST_MANAGEMENT", "Retrieved shopping list with success!"]),
        (0, ["client1", "", "MDPC01", "LIST_MANAGEMENT", "Retrieved shopping list with success!"])] ∧
      ∀ q, ¬ s.AnsweredOnce RequestHandler.sampleText 0 q := by
  have hrun : secondRun.map (fun s => (s.work, s.replies, s.requests.length, s.answers)) =
      some ([], [], 1, [
        (0, ["client1", "", "MDPC01", "LIST_MANAGEMENT", "Retrieved shopping list with success!"]),
        (0, ["client1", "", "MDPC01", "LIST_MANAGEMENT",
          "Retrieved shopping list with success!"])]) := rfl
  obtain ⟨s, hs, heq⟩ := Option.map_eq_some_iff.1 hrun
  simp only [secondRun, Option.bind_eq_bind, Option.bind_eq_some_iff] at hs
  obtain ⟨s₁, h₁, s₂, h₂, s₃, h₃, hs⟩ := hs
  simp only [Prod.mk.injEq] at heq
  obtain ⟨hwork, hreplies, hlength, hanswers⟩ := heq
  refine ⟨s, ?_, ⟨hwork, hreplies⟩, hlength, hanswers, ?_⟩
  · exact (((handOut_run h₁).tail (.deliver 0 false h₂)).tail (.answer 0 h₃)).tail (.answer 0 hs)
  · rintro q ⟨_, _, _, _, -, -, hone⟩
    rw [hanswers] at hone
    have hlength := congrArg List.length hone
    revert hlength
    simp [Mailbox.about]

end RequestSystem

end ShoppingApp
