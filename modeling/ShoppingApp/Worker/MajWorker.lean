import ShoppingApp.Server.ConsistentHashing
import ShoppingApp.Worker.RequestHandler

/-!
# The worker

`mdwrk` of `src/worker/majWorker.cpp`: how a worker spreads a REQUEST over the workers responsible
for its url, and handles work. A worker that is responsible returns from the loop over the targets
as soon as it meets its own address. Sending over a socket that is not there follows a null
pointer.
-/

namespace ShoppingApp

def k_mdpw_worker : String := "MDPW01"
def k_mdpw_request : String := "\x02"
def k_mdpw_reply : String := "\x03"
def k_mdpw_recv_work : String := "\x09"
def k_mdpw_worker_occupied : String := "\x10"

structure Worker where
  m_worker_pull_bind_complete : String
  worker_id : String
  m_reply_to : String
  ch : ConsistentHashing
  db : Database
  numberOfReplicas : Nat

namespace Worker

open ConsistentHashing (Hash)

variable (generateHash : Hash)

/-- The loop of `distribute_work`, with the worker found last and the targets so far. -/
def distributeLoop (ch : ConsistentHashing) : Nat → String → List String → List String
  | 0, _, targets => targets
  | n + 1, next_worker, targets =>
    let next_worker := ch.getNextServer generateHash next_worker
    if next_worker ≠ "" ∧ next_worker ∉ targets then
      distributeLoop ch n next_worker (targets ++ [next_worker])
    else targets

/-- The workers responsible for a url, the primary one first. -/
def distribute_work (w : Worker) (url_list : String) : List String :=
  let primary_worker := w.ch.getServer generateHash url_list
  distributeLoop generateHash w.ch w.numberOfReplicas primary_worker [primary_worker]

/-- What `send_to_broker` and `send_to_worker` put on a message without option and ring. -/
def envelope (command : String) (msg : ZMsg) : ZMsg :=
  ((msg.push_front command).push_front k_mdpw_worker).push_front ""

/-- The frames after the command of a message with the envelope and this command. -/
def openEnvelope (command : String) : ZMsg → Option ZMsg
  | empty :: header :: cmd :: msg =>
    if empty = "" ∧ header = k_mdpw_worker ∧ cStr cmd = command then some msg else none
  | _ => none

/-- What goes to the subscribers of a list. -/
def publish_to_broker (url_list shopping_list : String) : ZMsg :=
  (ZMsg.push_front [] shopping_list).push_front url_list

/-- What `handle_request` does: the reply, the message published, if any, and the new store. -/
structure Handled where
  reply : ZMsg
  published : Option ZMsg
  db : Database

def handle_request (text : JsonText) (msg : ZMsg) (db : Database) : Option Handled :=
  match msg with
  | _empty :: request_type :: url_list :: msg => do
    let url_list_str := cStr url_list
    let r ← RequestHandler.handleRequest text url_list_str (cStr request_type) msg db
    let published :=
      if r.1.shopping_list ≠ "" then some (publish_to_broker url_list_str r.1.shopping_list)
      else none
    return ⟨[cStr r.1.reply], published, r.2⟩
  | _ => none

/-- A RECV_WORK message on its way over the socket found for a target. -/
structure Forward where
  worker : String
  socket : Socket
  msg : ZMsg
  deriving DecidableEq

/-- How the loop over the targets ends: `handle_request` is called on the message and its reply
returned, the reply says that work was only redistributed, or a null socket was used. -/
inductive Ending
  | handle (msg : ZMsg)
  | free
  | nullSocket
  deriving DecidableEq

/-- The loop over the targets. The message is wrapped for a forward and unwrapped afterwards. -/
def forwardLoop (w : Worker) : List String → ZMsg → List Forward × Ending
  | [], _ => ([], .free)
  | worker :: targets, msg =>
    if worker = w.m_worker_pull_bind_complete then ([], .handle msg)
    else
      match w.ch.getPushSocketViaServer generateHash worker with
      | none => ([], .nullSocket)
      | some socket =>
        let wrapped := msg.wrap w.m_reply_to ""
        let unwrapped := wrapped.unwrap.elim wrapped Prod.snd
        let r := w.forwardLoop targets unwrapped
        (⟨worker, socket, envelope k_mdpw_recv_work wrapped⟩ :: r.1, r.2)

/-- The REQUEST branch of `recv`, on the frames after the command. -/
def recvRequest (w : Worker) (msg : ZMsg) : Option (Worker × List Forward × Ending) := do
  let r ← msg.unwrap
  let w := { w with m_reply_to := r.1 }
  match r.2 with
  | request_type :: url_list :: msg =>
    let msg := ((ZMsg.push_front msg url_list).push_front request_type).push_front ""
    return (w, w.forwardLoop generateHash (w.distribute_work generateHash (cStr url_list)) msg)
  | _ => none

/-- The reply of a worker that is not a target. -/
def freeReply : ZMsg := ["Worker is free. Only redistributed work"]

/-- What a message makes of a worker until it waits for the next one, with what it sends: to other
workers, to the broker, and to the subscribers of the list. -/
structure Received where
  worker : Worker
  forwards : List Forward
  occupied : Option ZMsg
  published : Option ZMsg
  reply : ZMsg

/-- The start of the next `recv`: the reply goes to the broker. Without an address the program
ends. -/
def sendReply (w : Worker) (reply : ZMsg) : Option (Worker × ZMsg) :=
  if w.m_reply_to = "" then none
  else some ({ w with m_reply_to := "" }, envelope k_mdpw_reply (reply.wrap w.m_reply_to ""))

/-- A REQUEST from the broker, from its arrival to the reply. -/
def onRequest (text : JsonText) (w : Worker) (msg : ZMsg) : Option Received := do
  let msg ← openEnvelope k_mdpw_request msg
  let (w, forwards, ending) ← w.recvRequest generateHash msg
  match ending with
  | .handle msg => do
    let h ← handle_request text msg w.db
    let (w, reply) ← { w with db := h.db }.sendReply h.reply
    return ⟨w, forwards, none, h.published, reply⟩
  | .free => do
    let (w, reply) ← w.sendReply freeReply
    return ⟨w, forwards, none, none, reply⟩
  | .nullSocket => none

/-- A RECV_WORK from another worker, from its arrival to the reply. -/
def onRecvWork (text : JsonText) (w : Worker) (msg : ZMsg) : Option Received := do
  let msg ← openEnvelope k_mdpw_recv_work msg
  let notify_broker := envelope k_mdpw_worker_occupied (ZMsg.push_front [] w.worker_id)
  let (m_reply_to, msg) ← msg.unwrap
  let h ← handle_request text msg w.db
  let (w, reply) ← { w with m_reply_to := m_reply_to, db := h.db }.sendReply h.reply
  return ⟨w, [], some notify_broker, h.published, reply⟩

end Worker

end ShoppingApp
