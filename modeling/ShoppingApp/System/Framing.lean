import ShoppingApp.Client.MajClient
import ShoppingApp.System.BrokerReplies

/-!
# Messages from end to end

What a client sends goes through the broker to a worker, on to others if it is forwarded, and the
replies come back. On this way frames are put on a message and taken off by six functions, in
different orders; `handleRequest` still gets the type, the url and the body of the request, and the
client gets the reply. ROUTER sockets put the identity of the sender on a message, and send it to the
one on top.
-/

namespace ShoppingApp

open ConsistentHashing (Hash)

namespace Worker

variable {generateHash : Hash} {client request_type url_list : String}

/-- What a worker does that handles a request: `handleRequest` gets the type, the url and the body,
and what it returns goes to the client. -/
def answer (text : JsonText) (w : Worker) (client request_type url_list : String) (body : ZMsg)
    (forwards : List Forward) (occupied : Option ZMsg) : Option Received :=
  (RequestHandler.handleRequest text url_list request_type body w.db).map fun r =>
    ⟨{ w with m_reply_to := "", db := r.2 }, forwards, occupied,
      if r.1.shopping_list ≠ "" then some (publish_to_broker url_list r.1.shopping_list) else none,
      replyFrames client [cStr r.1.reply]⟩

theorem handle_request_eq (htype : cStr request_type = request_type)
    (hurl : cStr url_list = url_list) (text : JsonText) (body : ZMsg) (db : Database) :
    handle_request text (requestOf request_type url_list body) db =
      (RequestHandler.handleRequest text url_list request_type body db).map fun r =>
        ⟨[cStr r.1.reply],
          if r.1.shopping_list ≠ "" then some (publish_to_broker url_list r.1.shopping_list)
          else none,
          r.2⟩ := by
  have hmsg : requestOf request_type url_list body =
      cStr "" :: cStr request_type :: cStr url_list :: body := rfl
  rw [hmsg, htype, hurl]
  unfold handle_request
  dsimp only
  rw [htype, hurl]
  cases RequestHandler.handleRequest text url_list request_type body db with
  | none => rfl
  | some r => rfl

theorem sendReply_eq {w : Worker} (hreply_to : w.m_reply_to ≠ "") (reply : ZMsg) :
    w.sendReply reply = some ({ w with m_reply_to := "" }, replyFrames w.m_reply_to reply) :=
  if_neg hreply_to

/-- Handling a request and sending its reply is what `answer` says. -/
theorem handle_request_answer (hclient : client ≠ "") (htype : cStr request_type = request_type)
    (hurl : cStr url_list = url_list) (text : JsonText) (w : Worker) (body : ZMsg)
    (forwards : List Forward) (occupied : Option ZMsg) :
    ((handle_request text (requestOf request_type url_list body) w.db).bind fun h =>
        ({ w with m_reply_to := client, db := h.db }.sendReply h.reply).bind fun (w, reply) =>
          some ⟨w, forwards, occupied, h.published, reply⟩) =
      w.answer text client request_type url_list body forwards occupied := by
  unfold answer
  rw [handle_request_eq htype hurl]
  cases RequestHandler.handleRequest text url_list request_type body w.db with
  | none => rfl
  | some r =>
    dsimp only [Option.map_some, Option.bind_some]
    rw [sendReply_eq hclient]
    rfl

/-- A worker that gets the work of another one handles the request of the client. -/
theorem onRecvWork_answer (hclient : client ≠ "") (hcStr : cStr client = client)
    (htype : cStr request_type = request_type) (hurl : cStr url_list = url_list)
    (text : JsonText) (w : Worker) (body : ZMsg) :
    w.onRecvWork text (workFrames client request_type url_list body) =
      w.answer text client request_type url_list body []
        (some (envelope k_mdpw_worker_occupied (ZMsg.push_front [] w.worker_id))) := by
  have hopen := openEnvelope_envelope k_mdpw_recv_work (by decide)
    ((requestOf request_type url_list body).wrap client "")
  unfold onRecvWork workFrames
  rw [hopen, Option.bind_eq_bind, Option.bind_some, ZMsg.unwrap_wrap, hcStr, Option.bind_eq_bind,
    Option.bind_some]
  exact handle_request_answer hclient htype hurl text w body [] _

theorem of_endingOf {w : Worker} {msg m : ZMsg} {targets : List String}
    (h : w.endingOf msg targets = .handle m) : m = msg := by
  unfold endingOf at h
  split at h
  · cases h
  · split_ifs at h
    cases h
    rfl

/-- A worker that gets a request forwards it, and handles it if it meets itself among the
targets. -/
theorem onRequest_answer (hclient : client ≠ "") (hcStr : cStr client = client)
    (htype : cStr request_type = request_type) (hurl : cStr url_list = url_list)
    (text : JsonText) (w : Worker) (body : ZMsg) :
    ∃ forwards ending,
      ((openEnvelope k_mdpw_request (requestFrames client request_type url_list body)).bind
          (w.recvRequest generateHash) =
        some ({ w with m_reply_to := client }, forwards, ending)) ∧
      (w.onRequest generateHash text (requestFrames client request_type url_list body) =
        match ending with
        | .handle _ => w.answer text client request_type url_list body forwards none
        | .free => some ⟨{ w with m_reply_to := "" }, forwards, none, none,
            replyFrames client freeReply⟩
        | .nullSocket => none) ∧
      ∀ forward ∈ forwards, forward.msg = workFrames client request_type url_list body := by
  let w' := { w with m_reply_to := client }
  have hopen := openEnvelope_envelope k_mdpw_request (by decide)
    (ZMsg.wrap (request_type :: url_list :: body) client "")
  have hwrap : ZMsg.wrap (request_type :: url_list :: body) client "" =
      client :: "" :: request_type :: url_list :: body := by
    unfold ZMsg.wrap ZMsg.push_front
    rw [hcStr, ZMsg.cStr_empty]
  have hrecv : w.recvRequest generateHash (client :: "" :: request_type :: url_list :: body) = _ :=
    recvRequest_eq w client request_type url_list body
  rw [hcStr, hurl] at hrecv
  cases hloop : w'.forwardLoop generateHash (w.distribute_work generateHash url_list)
      (requestOf request_type url_list body) with
  | mk forwards ending =>
  rw [hloop, ← hwrap] at hrecv
  refine ⟨forwards, ending, ?_, ?_, fun forward hforward => ?_⟩
  · unfold requestFrames
    rw [hopen, Option.bind_some]
    exact hrecv
  · unfold onRequest requestFrames
    rw [hopen, Option.bind_eq_bind, Option.bind_some, hrecv, Option.bind_eq_bind, Option.bind_some]
    cases ending with
    | handle m =>
      rw [forwardLoop_eq, Prod.mk.injEq] at hloop
      rw [of_endingOf hloop.2]
      exact handle_request_answer hclient htype hurl text w body forwards none
    | free => exact congrArg (Option.bind · _) (sendReply_eq hclient freeReply)
    | nullSocket => rfl
  · rw [forwardLoop_eq, Prod.mk.injEq] at hloop
    rw [← hloop.1] at hforward
    exact (forwardOf_carries hforward).2

end Worker

/-! ## Through the broker -/

/-- A service that a client can send requests to. -/
structure Requestable (service : String) : Prop where
  ne_empty : service ≠ ""
  cStr_eq : cStr service = service
  ne_heartbeat : service ≠ "HEARTBEAT"
  not_reserved : BrokerState.reserved service = false

namespace BrokerState

variable {b b' : BrokerState} {service : String}

/-- The broker takes a request of a client for a service. -/
theorem step_send (hlinked : Linked b) (hservice : Requestable service)
    (client request_type : String) (request : ZMsg) (now : Int) :
    ∃ b' n acts, b.step (.client (client :: Client.send service request_type request) now) =
        .ok b' ∧
      b'.log = b.log ++ .queue service
        (n, ZMsg.wrap (cStr request_type :: request) (cStr client) "") :: acts := by
  let msg := ZMsg.wrap (cStr request_type :: request) (cStr client) ""
  obtain ⟨b₁, hrequire, hlog₁, -⟩ := b.service_require_eq hservice.ne_empty
  have hquiets := ((service_require_ends (fun _ => False) b service).of_ok hrequire).1
  have hstep : b.step (.client (client :: Client.send service request_type request) now) =
      b₁.service_dispatch service (some msg) now := by
    unfold Client.send ZMsg.push_front step
    dsimp only
    rw [if_pos (by decide)]
    unfold client_process
    dsimp only
    rw [ZMsg.cStr_cStr, hservice.cStr_eq, if_neg hservice.ne_heartbeat, hrequire]
    dsimp only [bind, Except.bind]
    rw [hservice.not_reserved, if_neg Bool.false_ne_true]
  obtain ⟨b', acts, hrun, hacts⟩ :=
    service_dispatch_queues (hlinked.quiets hquiets) service msg now
  exact ⟨b', b₁.next, acts, hstep.trans hrun, by rw [hacts, hlog₁]⟩

theorem worker_send_eq (w : BrokerWorker) (msg : ZMsg) :
    worker_send w k_mdpw_request "" msg =
      cStr w.m_identity :: Worker.envelope k_mdpw_request msg := by
  unfold worker_send
  dsimp only
  rw [if_pos rfl]
  rfl

theorem run_append {past more : List Event} (hpast : run past = .ok b)
    (hmore : more.foldlM step b = .ok b') : run (past ++ more) = .ok b' := by
  unfold run at hpast ⊢
  rw [List.foldlM_append, hpast]
  exact hmore

/-- The event hands a worker a request, or is its message that it is occupied. -/
def Occupies (b : BrokerState) (event : Event) (b' : BrokerState) (worker_id : String) : Prop :=
  (∃ acts name request frames, b'.log = b.log ++ acts ∧
    .request name request (worker_id :: frames) ∈ acts) ∨
  ∃ clock now, event = .worker (worker_id :: Worker.envelope k_mdpw_worker_occupied
    (ZMsg.push_front [] worker_id)) clock now

theorem Occupies.busy {event : Event} {worker_id : String} (h : Occupies b event b' worker_id)
    (hlinked : Linked b) (hstep : b.step event = .ok b') :
    ∃ name wrk, Busy b' (cStr worker_id) name wrk := by
  rcases h with ⟨acts, name, request, frames, hlog, hmem⟩ | ⟨clock, now, rfl⟩
  · obtain ⟨hcStr, wrk, hbusy⟩ := busy_of_request hlinked hstep hlog hmem
    exact ⟨name, wrk, hcStr.symm ▸ hbusy⟩
  · exact busy_of_occupied hlinked hstep

end BrokerState

/-! ## From end to end -/

section Framing

variable (client service request_type url_list : String) (body : ZMsg)

/-- The broker takes what the client sends, and whatever comes later, a REQUEST for it brings a
worker the client's address and the request. -/
def Forwarded : Prop :=
  ∀ past b, BrokerState.run past = .ok b → ∀ now, ∃ b₁ n msg acts,
    b.step (.client (client :: Client.send service request_type (url_list :: body)) now) = .ok b₁ ∧
    b₁.log = b.log ++ .queue service (n, msg) :: acts ∧
    ∀ (more : List BrokerState.Event) (b₂ : BrokerState),
      more.foldlM BrokerState.step b₁ = .ok b₂ →
      ∀ name msg' frames, .request name (n, msg') frames ∈ b₂.log →
      ∃ worker_id, frames =
        worker_id :: Worker.requestFrames client request_type url_list body

/-- A worker that gets the REQUEST hands the request to `handleRequest`, or says that it is free, and
so does a worker that gets work from it; their replies are for the client. A socket that is not
there ends the worker. -/
def SeenByHandlers : Prop :=
  ∀ (generateHash : Hash) (text : JsonText) (w : Worker), ∃ forwards ending,
    ((Worker.openEnvelope k_mdpw_request
        (Worker.requestFrames client request_type url_list body)).bind
      (w.recvRequest generateHash) = some ({ w with m_reply_to := client }, forwards, ending)) ∧
    (w.onRequest generateHash text (Worker.requestFrames client request_type url_list body) =
      match ending with
      | .handle _ => w.answer text client request_type url_list body forwards none
      | .free => some ⟨{ w with m_reply_to := "" }, forwards, none, none,
          Worker.replyFrames client Worker.freeReply⟩
      | .nullSocket => none) ∧
    ∀ forward ∈ forwards, ∀ target : Worker, target.onRecvWork text forward.msg =
      target.answer text client request_type url_list body []
        (some (Worker.envelope k_mdpw_worker_occupied (ZMsg.push_front [] target.worker_id)))

/-- The broker sends the reply of a registered worker of a service to the client and nothing to
others, and `recv` returns it. -/
def Returned : Prop :=
  ∀ past b, BrokerState.run past = .ok b → ∀ worker_id name,
    b.toBroker.m_workers.find? (cStr worker_id) = some name →
    ∀ reply, reply ≠ [] → ∀ clock now, ∃ b' acts frames,
      b.step (.worker (worker_id :: Worker.replyFrames client reply) clock now) = .ok b' ∧
      b'.log = b.log ++ .toClient (client :: frames) :: acts ∧
      BrokerState.OnlyRequests acts ∧ Client.recv frames = some reply

end Framing

/-- A worker that has been handed a request, or has said that it is occupied, is registered as long
as it has sent nothing since. -/
def StaysRegistered : Prop :=
  ∀ past b event b₁ worker_id, BrokerState.run past = .ok b → b.step event = .ok b₁ →
    b.Occupies event b₁ worker_id →
    ∀ (between : List BrokerState.Event) (b₂ : BrokerState),
    between.foldlM BrokerState.step b₁ = .ok b₂ →
    (∀ e ∈ between, ∀ command msg, e.message ≠ some (cStr worker_id, command, msg)) →
    ∃ name, b₂.toBroker.m_workers.find? (cStr worker_id) = some name

variable {client service request_type url_list : String}

theorem forwarded (hcStr : cStr client = client) (htype : cStr request_type = request_type)
    (hservice : Requestable service) (body : ZMsg) :
    Forwarded client service request_type url_list body := by
  intro past b hpast now
  have hlinked := BrokerState.run_linked hpast
  obtain ⟨b₁, n, acts, hstep, hlog⟩ :=
    BrokerState.step_send hlinked hservice client request_type (url_list :: body) now
  rw [htype, hcStr] at hlog
  refine ⟨b₁, n, _, acts, hstep, hlog, fun more b₂ hmore name msg' frames hmem => ?_⟩
  let event := BrokerState.Event.client
    (client :: Client.send service request_type (url_list :: body)) now
  have hrun₁ : BrokerState.run (past ++ [event]) = .ok b₁ := by
    refine BrokerState.run_append hpast ?_
    change (b.step event >>= pure) = .ok b₁
    rw [hstep]
    rfl
  have hrun₂ := BrokerState.run_append hrun₁ hmore
  have haccounted := (BrokerState.run_accounted hrun₂).1
  have hqueue : .queue service (n, ZMsg.wrap (request_type :: url_list :: body) client "") ∈
      b₂.log := by
    refine (BrokerState.run_log hrun₁ hrun₂).subset ?_
    rw [hlog]
    exact List.mem_append_right _ List.mem_cons_self
  obtain ⟨w, -, hframes⟩ := haccounted.framed name _ frames hmem
  obtain ⟨-, hmsg⟩ := haccounted.request_eq hqueue hmem
  refine ⟨cStr w.m_identity, ?_⟩
  rw [hframes, BrokerState.worker_send_eq, hmsg]
  rfl

theorem seenByHandlers (hclient : client ≠ "") (hcStr : cStr client = client)
    (htype : cStr request_type = request_type) (hurl : cStr url_list = url_list) (body : ZMsg) :
    SeenByHandlers client request_type url_list body := by
  intro generateHash text w
  obtain ⟨forwards, ending, hrecv, hrequest, hforwards⟩ :=
    Worker.onRequest_answer hclient hcStr htype hurl text w body
  refine ⟨forwards, ending, hrecv, hrequest, fun forward hforward target => ?_⟩
  rw [hforwards forward hforward]
  exact Worker.onRecvWork_answer hclient hcStr htype hurl text target body

theorem recv_eq (name : String) {reply : ZMsg} (h : reply ≠ []) :
    Client.recv ("" :: k_mdp_client :: cStr name :: reply) = some reply := by
  cases reply with
  | nil => exact absurd rfl h
  | cons part reply =>
    unfold Client.recv
    dsimp only
    rw [if_neg (by decide), if_pos rfl, if_pos (ZMsg.cStr_cStr name).symm]

theorem returned (hcStr : cStr client = client) : Returned client := by
  intro past b hpast worker_id name hname reply hreply clock now
  have hmsg := RequestSystem.worker_process_replyFrames hname client reply
  obtain ⟨b', acts, hstep, hlog, honly⟩ :=
    BrokerState.step_refines (BrokerState.run_linked hpast) hmsg clock now
  refine ⟨b', acts, "" :: k_mdp_client :: cStr name :: reply, hstep, ?_, honly,
    recv_eq name hreply⟩
  rw [hlog]
  unfold ZMsg.wrap ZMsg.push_front
  rw [ZMsg.cStr_cStr, hcStr, ZMsg.cStr_empty, show cStr k_mdp_client = k_mdp_client by decide]

theorem staysRegistered : StaysRegistered := by
  intro past b event b₁ worker_id hpast hstep hoccupies between b₂ hbetween hother
  have hlinked := BrokerState.run_linked hpast
  obtain ⟨name, wrk, hbusy⟩ := hoccupies.busy hlinked hstep
  obtain ⟨-, hbusy⟩ := hbusy.run (BrokerState.step_linked hlinked hstep) hbetween hother
  exact ⟨name, hbusy.toBroker⟩

/-- The request of a client comes to every handler as it was sent, forwarded or not, and the replies
come back to this client. -/
theorem framing_preserved (hclient : client ≠ "") (hcStr : cStr client = client)
    (htype : cStr request_type = request_type) (hurl : cStr url_list = url_list)
    (hservice : Requestable service) (body : ZMsg) :
    Forwarded client service request_type url_list body ∧
      SeenByHandlers client request_type url_list body ∧ Returned client ∧ StaysRegistered :=
  ⟨forwarded hcStr htype hservice body, seenByHandlers hclient hcStr htype hurl body,
    returned hcStr, staysRegistered⟩

/-- A worker that waits is sent the request, and its reply comes back. -/
theorem framing_preserved_getList :
    ∃ b b₁ b₂ acts frames,
      BrokerState.run [BrokerState.fromWorker "w1" k_mdpw_ready ["LIST_MANAGEMENT"] 0 0] = .ok b ∧
      b.step (.client ("c1" :: Client.send "LIST_MANAGEMENT" "GET_LIST" ["msla-user1"]) 1) =
        .ok b₁ ∧
      b₁.step (.worker ("w1" :: Worker.replyFrames "c1" ["Retrieved shopping list with success!"])
        2 2) = .ok b₂ ∧
      b₂.log = b₁.log ++ .toClient ("c1" :: frames) :: acts ∧
      Client.recv frames = some ["Retrieved shopping list with success!"] := by
  let ready := BrokerState.fromWorker "w1" k_mdpw_ready ["LIST_MANAGEMENT"] 0 0
  let request := BrokerState.Event.client
    ("c1" :: Client.send "LIST_MANAGEMENT" "GET_LIST" ["msla-user1"]) 1
  have hready : BrokerState.run [ready] = .ok _ := rfl
  have hrequest : BrokerState.run [ready, request] = .ok _ := rfl
  have hservice : Requestable "LIST_MANAGEMENT" := ⟨by decide, by decide, by decide, by decide⟩
  obtain ⟨-, -, hreturned, hregistered⟩ := framing_preserved (by decide : "c1" ≠ "") (by decide)
    (by decide : cStr "GET_LIST" = "GET_LIST") (by decide : cStr "msla-user1" = "msla-user1")
    hservice []
  obtain ⟨name, hname⟩ := hregistered _ _ request _ "w1" hready rfl
    (.inl ⟨_, "LIST_MANAGEMENT", _, _, rfl, List.mem_cons_of_mem _ List.mem_cons_self⟩) [] _ rfl
    nofun
  obtain ⟨b₂, acts, frames, hstep, hlog, -, hrecv⟩ := hreturned _ _ hrequest "w1" name hname
    ["Retrieved shopping list with success!"] (by decide) 2 2
  exact ⟨_, _, b₂, acts, frames, hready, rfl, hstep, hlog, hrecv⟩

end ShoppingApp
