import ShoppingApp.Worker.Liveness
import ShoppingApp.Worker.RingFrames

/-!
# The worker's loop

All of `mdwrk` of `src/worker/majWorker.cpp` as it runs: the constructor, `connect_to_broker`, and
the loop of `recv`, with `run_worker` of `src/worker/main.cpp`, which gives what `recv` returns to
the next call. An iteration polls the two sockets, handles a message from each that has one, counts
the broker's silence and sends a heartbeat if one is due. What it finds and every reading of the
clock are arguments. Where the program ends, by a failed assertion or an exception that nothing
catches, there is no result.
-/

namespace ShoppingApp

open ConsistentHashing (Hash)

/-- The first occurrence of `old` is replaced. -/
def replaceFirst (old new : List Char) : List Char → List Char
  | [] => if old = [] then new else []
  | c :: cs =>
    if old.isPrefixOf (c :: cs) then new ++ (c :: cs).drop old.length
    else c :: replaceFirst old new cs

def replace (i_str old new : String) : String :=
  String.ofList (replaceFirst old.toList new.toList i_str.toList)

/-- `mdwrk`: a worker, the addresses it is given, whether its PULL socket is bound, its service, and
when it next does something by itself. -/
structure Mdwrk where
  worker : Worker
  m_worker_pull_bind : String
  m_worker_pull : Bool
  m_connect_to_worker : String
  m_service : String
  m_liveness : UInt64
  m_heartbeat_at : Int

/-- What goes out: to the broker, to other workers, and to the subscribers. -/
structure Sends where
  broker : List ZMsg
  workers : List (Socket × ZMsg)
  published : List ZMsg

namespace Sends

def empty : Sends := ⟨[], [], []⟩

def append (s t : Sends) : Sends :=
  ⟨s.broker ++ t.broker, s.workers ++ t.workers, s.published ++ t.published⟩

end Sends

/-- What an iteration finds on the two sockets; what a call of `connect_to_broker` would get, an
identity and a reading of the clock; and the reading of the clock at the end. -/
structure Look where
  broker : Option ZMsg
  peer : Option ZMsg
  connection : String × Int
  clock : Int

namespace Mdwrk

def m_heartbeat : Int := 2500

def send_to_broker (command option : String) (msg : ZMsg) : ZMsg :=
  Worker.envelope command (if option = "" then msg else msg.push_front option)

/-- What the constructor sets; the rest is set by `connect_to_broker`. -/
def new (m_worker_pull_bind m_connect_to_worker m_service : String) (db : Database) : Mdwrk where
  worker := ⟨replace m_worker_pull_bind "*" "localhost", "", "", .new 1, db, 2⟩
  m_worker_pull_bind := m_worker_pull_bind
  m_worker_pull := false
  m_connect_to_worker := m_connect_to_worker
  m_service := m_service
  m_liveness := 0
  m_heartbeat_at := 0

variable (generateHash : Hash) (text : JsonText)

/-- Messages about the ring, with the ring as it is when they are sent. -/
def sendRing (m : Mdwrk) (messages : List (Socket × RingMessage)) :
    Decode (List (Socket × ZMsg)) :=
  messages.mapM fun message => do
    let frames ←
      match message.2 with
      | .join_ring worker_pull_address =>
        Worker.send_to_worker text k_mdpw_join_ring worker_pull_address none []
      | .broadcast_ring _ _ =>
        Worker.send_to_worker text k_mdpw_broadcast_ring m.m_worker_pull_bind (some m.worker.ch) []
    return (message.1, frames)

def setRing (m : Mdwrk) (ch : ConsistentHashing) : Mdwrk :=
  { m with worker := { m.worker with ch := ch } }

/-- The address of the PULL socket is a tcp port. The socket that holds it is never closed, so a
second call throws where it binds the address again, before it says anything. -/
def connect_to_broker (m : Mdwrk) (worker_id : String) (clock : Int) : Decode (Mdwrk × Sends) :=
  if m.m_worker_pull then .error .exception
  else do
    let r := m.worker.ch.reconnect_to_broker generateHash m.worker.m_worker_pull_bind_complete
      m.m_connect_to_worker
    let workers ← m.sendRing text r.2
    return ({ m.setRing r.1 with
      worker := { (m.setRing r.1).worker with worker_id := worker_id }
      m_worker_pull := true
      m_liveness := Worker.n_heartbeat_liveness
      m_heartbeat_at := clock + m_heartbeat },
      ⟨[send_to_broker k_mdpw_ready m.m_service []], workers, []⟩)

/-- A call of `connect_to_broker` in an iteration. -/
def connect_again (m : Mdwrk) (look : Look) : Option (Mdwrk × Sends) :=
  (m.connect_to_broker generateHash text look.connection.1 look.connection.2).toOption

/-- The broker's message. A REQUEST makes `recv` return; the reply goes out with the next call. -/
def onBroker (m : Mdwrk) (look : Look) : Option (Mdwrk × Sends × Bool) :=
  match look.broker with
  | none => some (m, .empty, false)
  | some (empty :: header :: command :: msg) =>
    let m := { m with m_liveness := Worker.n_heartbeat_liveness }
    if empty ≠ "" ∨ header ≠ k_mdpw_worker then none
    else if cStr command = k_mdpw_request then do
      let r ← m.worker.onRequest generateHash text (empty :: header :: command :: msg)
      return ({ m with worker := r.worker },
        ⟨[r.reply], r.forwards.map fun f => (f.socket, f.msg), r.published.toList⟩, true)
    else if cStr command = k_mdpw_heartbeat then some (m, .empty, false)
    else if cStr command = k_mdpw_disconnect then do
      let (m, sends) ← m.connect_again generateHash text look
      return (m, sends, false)
    else some (m, .empty, false)
  | some _ => none

/-- Another worker's message, or the count. RECV_WORK makes `recv` return. -/
def onPeer (m : Mdwrk) (look : Look) : Option (Mdwrk × Sends × Bool) :=
  match look.peer with
  | none =>
    let r := Worker.countDown m.m_liveness
    if .connect_to_broker ∈ r.2 then do
      let (m, sends) ← m.connect_again generateHash text look
      return (m, sends, false)
    else some ({ m with m_liveness := r.1 }, .empty, false)
  | some (empty :: header :: command :: msg) =>
    if empty ≠ "" ∨ header ≠ k_mdpw_worker then none
    else if cStr command = k_mdpw_recv_work then do
      let r ← m.worker.onRecvWork text (empty :: header :: command :: msg)
      return ({ m with worker := r.worker },
        ⟨r.occupied.toList ++ [r.reply], [], r.published.toList⟩, true)
    else do
      let r ← (Worker.recvRingMessage generateHash text m.worker.m_worker_pull_bind_complete
        m.worker.ch (empty :: header :: command :: msg)).toOption
      let workers ← ((m.setRing r.1).sendRing text r.2).toOption
      return (m.setRing r.1, ⟨[], workers, []⟩, false)
  | some _ => none

/-- The HEARTBEAT that is due at a reading of the clock. -/
def heartbeat (m : Mdwrk) (clock : Int) : Mdwrk × Sends :=
  if clock ≥ m.m_heartbeat_at then
    ({ m with m_heartbeat_at := m.m_heartbeat_at + m_heartbeat },
      ⟨[send_to_broker k_mdpw_heartbeat "" []], [], []⟩)
  else (m, .empty)

/-- An iteration, what it sends, and whether `recv` returns in it. -/
def iteration (m : Mdwrk) (look : Look) : Option (Mdwrk × Sends × Bool) := do
  let (m, sent, returned) ← m.onBroker generateHash text look
  if returned then return (m, sent, true)
  else do
    let (m, sent', returned) ← m.onPeer generateHash text look
    if returned then return (m, sent.append sent', true)
    else
      let (m, sent'') := m.heartbeat look.clock
      return (m, (sent.append sent').append sent'', false)

/-- Iterations one after another, and all that they send. -/
def run (m : Mdwrk) : List Look → Option (Mdwrk × Sends)
  | [] => some (m, .empty)
  | look :: looks => do
    let (m, sends, _returned) ← m.iteration generateHash text look
    let (m, rest) ← m.run looks
    return (m, sends.append rest)

end Mdwrk

end ShoppingApp
