import ShoppingApp.Broker.MajBroker
import ShoppingApp.Lib.Outcome

/-!
# The broker's state

All of `broker` of `src/broker/majBroker.cpp` that requests and workers go through: its services,
workers and waiting lists, and what it sends. Workers are objects with addresses; an address that
has been deleted is not given out again. Services are never deleted, so their names stand for their
addresses. Every reading of the clock is an argument.
-/

namespace ShoppingApp

def k_mdpw_ready : String := "\x01"
def k_mdpw_heartbeat : String := "\x04"
def k_mdpw_disconnect : String := "\x05"
def k_mdpc_heartbeat : String := "\x06"

def n_heartbeat_liveness : Int := 3
def n_heartbeat_interval : Int := 2500
def n_heartbeat_expiry : Int := n_heartbeat_interval * n_heartbeat_liveness

/-- `worker`, with the name of the owning service, if known. -/
structure BrokerWorker where
  m_identity : String
  m_service : Option String
  m_expiry : Int
  deriving DecidableEq

/-- `service`: the requests of clients, each with the address of the message, and the addresses of
the waiting workers. -/
structure BrokerService where
  m_requests : List (ℕ × ZMsg)
  m_waiting : List ℕ
  deriving DecidableEq

/-- How the broker crashes: a failed assertion, a null `m_service`, an identity that `at` does not
find, a frame taken from an empty message, a worker that has been deleted. -/
inductive BrokerFault
  | assertion
  | nullService
  | outOfRange
  | nullFrame
  | dangling
  deriving DecidableEq

/-- What is kept of a run: requests handed to a service, the REQUEST messages for them, and the
other messages to workers and clients. -/
inductive BrokerAct
  | queue (service : String) (request : ℕ × ZMsg)
  | request (service : String) (request : ℕ × ZMsg) (frames : ZMsg)
  | toWorker (frames : ZMsg)
  | toClient (frames : ZMsg)
  | toClientHeartbeat (frames : ZMsg)
  deriving DecidableEq

structure BrokerState where
  workers : SortedMap ℕ BrokerWorker
  next : ℕ
  m_services : SortedMap String BrokerService
  m_workers : SortedMap String ℕ
  m_waiting : SortedSet ℕ
  m_client_senders : SortedSet String
  log : List BrokerAct
  deriving DecidableEq

namespace BrokerState

def new : BrokerState := ⟨∅, 0, ∅, ∅, ∅, ∅, []⟩

/-- `*wrk` -/
def deref (b : BrokerState) (wrk : ℕ) : Except BrokerFault BrokerWorker :=
  match b.workers.find? wrk with
  | some w => .ok w
  | none => .error .dangling

def service (b : BrokerState) (name : String) : BrokerService :=
  (b.m_services.find? name).getD ⟨[], []⟩

def setWorker (b : BrokerState) (wrk : ℕ) (w : BrokerWorker) : BrokerState :=
  { b with workers := b.workers.set wrk w }

def setService (b : BrokerState) (name : String) (srv : BrokerService) : BrokerState :=
  { b with m_services := b.m_services.set name srv }

def send (b : BrokerState) (act : BrokerAct) : BrokerState := { b with log := b.log ++ [act] }

def worker_send (w : BrokerWorker) (command option : String) (msg : ZMsg) : ZMsg :=
  let msg := if option = "" then msg else msg.push_front option
  ((msg.push_front command).push_front k_mdpw_worker).wrap w.m_identity ""

/-! ## Workers -/

/-- The worker that `worker_require` makes. -/
def register (b : BrokerState) (identity : String) : BrokerState :=
  { b with
    workers := b.workers.set b.next ⟨identity, none, 0⟩
    m_workers := b.m_workers.set identity b.next
    next := b.next + 1 }

def worker_require (b : BrokerState) (identity : String) : Except BrokerFault (BrokerState × ℕ) :=
  if identity = "" then .error .assertion
  else
    match b.m_workers.find? identity with
    | some wrk => .ok (b, wrk)
    | none => .ok (b.register identity, b.next)

/-- A worker leaves the waiting lists of the broker and of a service. -/
def unlist (b : BrokerState) (wrk : ℕ) (name : String) : BrokerState :=
  let srv := b.service name
  { b.setService name { srv with m_waiting := srv.m_waiting.filter (· ≠ wrk) } with
    m_waiting := b.m_waiting.erase wrk }

/-- What deletes worker `wrk`, which is `w`. -/
def erase (b : BrokerState) (wrk : ℕ) (w : BrokerWorker) : BrokerState :=
  let b :=
    match w.m_service with
    | some name => b.unlist wrk name
    | none => { b with m_waiting := b.m_waiting.erase wrk }
  { b with m_workers := b.m_workers.erase w.m_identity, workers := b.workers.erase wrk }

def worker_delete (b : BrokerState) (wrk : ℕ) (disconnect : Bool) :
    Except BrokerFault BrokerState := do
  let w ← b.deref wrk
  let b := if disconnect then b.send (.toWorker (worker_send w k_mdpw_disconnect "" [])) else b
  return b.erase wrk w

/-- The loop of `purge_workers` over the waiting workers. -/
def toCull (b : BrokerState) (now : Int) : List ℕ → Except BrokerFault (List ℕ)
  | [] => .ok []
  | wrk :: wrks => do
    let w ← b.deref wrk
    let culled ← b.toCull now wrks
    return if w.m_expiry ≤ now then wrk :: culled else culled

def purge_workers (b : BrokerState) (now : Int) : Except BrokerFault BrokerState := do
  let culled ← b.toCull now b.m_waiting.elems
  culled.foldlM (fun b wrk => b.worker_delete wrk false) b

/-! ## Services -/

def service_require (b : BrokerState) (name : String) : Except BrokerFault BrokerState :=
  if name = "" then .error .assertion
  else
    match b.m_services.find? name with
    | some _ => .ok b
    | none => .ok (b.setService name ⟨[], []⟩)

/-- The loop that chooses the most recently seen worker, with the one chosen so far. -/
def mostRecent (b : BrokerState) : ℕ → List ℕ → Except BrokerFault ℕ
  | wrk, [] => .ok wrk
  | wrk, next :: rest => do
    let n ← b.deref next
    let w ← b.deref wrk
    b.mostRecent (if n.m_expiry > w.m_expiry then next else wrk) rest

/-- Worker `wrk`, which is `w`, is sent the first of the requests of a service and no longer
waits. -/
def assign (b : BrokerState) (name : String) (wrk : ℕ) (w : BrokerWorker) (request : ℕ × ZMsg)
    (requests : List (ℕ × ZMsg)) : BrokerState :=
  let frames := worker_send w k_mdpw_request "" request.2
  { b.setService name ⟨requests, (b.service name).m_waiting.erase wrk⟩ with
    m_waiting := b.m_waiting.erase wrk
    log := b.log ++ [.request name request frames] }

/-- The loop of `service_dispatch`. Every iteration takes a request. -/
def dispatchLoop (name : String) : ℕ → BrokerState → Except BrokerFault BrokerState
  | 0, b => .ok b
  | fuel + 1, b =>
    match (b.service name).m_waiting, (b.service name).m_requests with
    | first :: rest, request :: requests => do
      let wrk ← b.mostRecent first rest
      let w ← b.deref wrk
      dispatchLoop name fuel (b.assign name wrk w request requests)
    | _, _ => .ok b

/-- A message is queued for a service. -/
def push (b : BrokerState) (name : String) (msg : ZMsg) : BrokerState :=
  let srv := b.service name
  let request := (b.next, msg)
  { b.setService name { srv with m_requests := srv.m_requests ++ [request] } with
    next := b.next + 1
    log := b.log ++ [.queue name request] }

def service_dispatch (b : BrokerState) (name : String) (msg : Option ZMsg) (now : Int) :
    Except BrokerFault BrokerState := do
  let b :=
    match msg with
    | some msg => b.push name msg
    | none => b
  let b ← b.purge_workers now
  dispatchLoop name (b.service name).m_requests.length b

/-! ## Messages of workers -/

/-- Worker `wrk`, which is `w`, waits for work of a service. -/
def enlist (b : BrokerState) (wrk : ℕ) (w : BrokerWorker) (name : String) (clock : Int) :
    BrokerState :=
  let srv := b.service name
  let b := { b with m_waiting := b.m_waiting.insert wrk }
  let b := b.setService name { srv with m_waiting := srv.m_waiting ++ [wrk] }
  b.setWorker wrk { w with m_expiry := clock + n_heartbeat_expiry }

def worker_waiting (b : BrokerState) (wrk : ℕ) (clock now : Int) :
    Except BrokerFault BrokerState := do
  let w ← b.deref wrk
  match w.m_service with
  | none => .error .nullService
  | some name => (b.enlist wrk w name clock).service_dispatch name none now

/-- A name of at least four bytes that begins with one of the characters of `mmi.` -/
def reserved (name : String) : Bool :=
  decide (4 ≤ name.utf8ByteSize) && (name.toList.head?.any "mmi.".toList.contains)

/-- READY: the worker is new, or was known when the message came. -/
def processReady (b : BrokerState) (sender : String) (worker_ready : Bool) (wrk : ℕ) (msg : ZMsg)
    (clock now : Int) : Except BrokerFault BrokerState :=
  if worker_ready then b.worker_delete wrk true
  else if reserved sender then b.worker_delete wrk true
  else
    match msg with
    | [] => .error .nullFrame
    | service_name :: _ => do
      let b ← b.service_require (cStr service_name)
      let w ← b.deref wrk
      let b := b.setWorker wrk { w with m_service := some (cStr service_name) }
      b.worker_waiting wrk clock now

/-- WORKER_OCCUPIED: about the worker whose identity it brings. -/
def processOccupied (b : BrokerState) (msg : ZMsg) : Except BrokerFault BrokerState :=
  match msg with
  | [] => .error .nullFrame
  | sender :: _ =>
    match b.m_workers.find? (cStr sender) with
    | none => .error .outOfRange
    | some wrk => do
      let w ← b.deref wrk
      match w.m_service with
      | none => .error .nullService
      | some name => return b.unlist wrk name

def processReply (b : BrokerState) (worker_ready : Bool) (wrk : ℕ) (msg : ZMsg)
    (clock now : Int) : Except BrokerFault BrokerState :=
  if worker_ready then
    match msg.unwrap with
    | none => .error .nullFrame
    | some (client, msg) => do
      let w ← b.deref wrk
      match w.m_service with
      | none => .error .nullService
      | some name =>
        (b.send (.toClient ((msg.wrap k_mdp_client name).wrap client ""))).worker_waiting
          wrk clock now
  else b.worker_delete wrk true

def processHeartbeat (b : BrokerState) (worker_ready : Bool) (wrk : ℕ) (clock : Int) :
    Except BrokerFault BrokerState :=
  if worker_ready then do
    let w ← b.deref wrk
    return b.setWorker wrk { w with m_expiry := clock + n_heartbeat_expiry }
  else b.worker_delete wrk true

def worker_process (b : BrokerState) (sender : String) (msg : ZMsg) (clock now : Int) :
    Except BrokerFault BrokerState :=
  match msg with
  | [] => .error .assertion
  | command :: msg => do
    let command := cStr command
    let worker_ready := (b.m_workers.find? sender).isSome
    let (b, wrk) ← b.worker_require sender
    if command = k_mdpw_ready then b.processReady sender worker_ready wrk msg clock now
    else if command = k_mdpw_worker_occupied then b.processOccupied msg
    else if command = k_mdpw_reply then b.processReply worker_ready wrk msg clock now
    else if command = k_mdpw_heartbeat then b.processHeartbeat worker_ready wrk clock
    else if command = k_mdpw_disconnect then b.worker_delete wrk false
    else .ok b

/-! ## Messages of clients -/

/-- What `service_internal` makes of the message is dropped. -/
def client_process (b : BrokerState) (sender : String) (msg : ZMsg) (now : Int) :
    Except BrokerFault BrokerState :=
  match msg with
  | service_name :: body :: rest =>
    let service_name := cStr service_name
    if service_name = "HEARTBEAT" then
      .ok { b with m_client_senders := b.m_client_senders.insert sender }
    else do
      let b ← b.service_require service_name
      if reserved service_name then return b
      else b.service_dispatch service_name (some (ZMsg.wrap (body :: rest) sender "")) now
  | _ => .error .assertion

/-! ## The main loop -/

/-- The loop that sends heartbeats to the waiting workers. -/
def sendHeartbeats (b : BrokerState) (wrks : List ℕ) : Except BrokerFault BrokerState :=
  wrks.foldlM (fun b wrk => do
    let w ← b.deref wrk
    return b.send (.toWorker (worker_send w k_mdpw_heartbeat "" []))) b

/-- The heartbeat to a client. -/
def clientHeartbeat (client_sender : String) : ZMsg :=
  (((ZMsg.push_front [] "heartbeat").push_front k_mdpc_heartbeat).push_front k_mdp_client).wrap
    client_sender ""

/-- What the main loop reacts to: a message on the client socket or on the worker socket, with the
readings of the clock that are stored and compared, and the times for heartbeats. -/
inductive Event
  | client (frames : ZMsg) (now : Int)
  | worker (frames : ZMsg) (clock now : Int)
  | heartbeat (now : Int)
  | clientHeartbeat

def step (b : BrokerState) : Event → Except BrokerFault BrokerState
  | .client frames now =>
    match frames with
    | sender :: _empty :: header :: msg =>
      if cStr header = k_mdp_client then b.client_process (cStr sender) msg now else .ok b
    | _ => .error .nullFrame
  | .worker frames clock now =>
    match frames with
    | sender :: _empty :: header :: msg =>
      if cStr header = k_mdpw_worker then b.worker_process (cStr sender) msg clock now else .ok b
    | _ => .error .nullFrame
  | .heartbeat now => do
    let b ← b.purge_workers now
    b.sendHeartbeats b.m_waiting.elems
  | .clientHeartbeat =>
    if b.m_waiting.elems = [] then .ok b
    else .ok (b.m_client_senders.elems.foldl
      (fun b client_sender => b.send (.toClientHeartbeat (clientHeartbeat client_sender))) b)

/-- The state after a sequence of events, unless the broker crashes. -/
def run (events : List Event) : Except BrokerFault BrokerState := events.foldlM step new

end BrokerState

end ShoppingApp
