import ShoppingApp.Broker.BrokerState

/-!
# The broker's main loop

`start_brokering` of `src/broker/majBroker.cpp`: a round polls the sockets, handles one message from
each that has one, and then sends the heartbeats that are due. What a round finds and every reading
of the clock are arguments; that the process is told to end only says how many rounds there are.
-/

namespace ShoppingApp

/-- What a round finds on the sockets for clients, for workers and for the updates that workers
publish, and the readings of the clock: those made while a message is handled beside it, then those
before, in and after the purge, and before the heartbeats to clients. -/
structure Poll where
  client : Option (ZMsg × Int)
  worker : Option (ZMsg × Int × Int)
  xsub : Option ZMsg
  clock : Int
  purge : Int
  again : Int
  client_clock : Int
  deriving DecidableEq

/-- The broker with the variables of its loop and what it has sent on `m_xpub_socket`. -/
structure MainLoop where
  broker : BrokerState
  now : Int
  heartbeat_at : Int
  heartbeat_at_client : Int
  published : List ZMsg
  deriving DecidableEq

namespace MainLoop

/-- Before the first round. -/
def init (now now_client : Int) : MainLoop where
  broker := .new
  now := now
  heartbeat_at := now + n_heartbeat_interval
  heartbeat_at_client := now_client + n_heartbeat_interval
  published := []

/-- How long a round waits for a message. -/
def timeout (m : MainLoop) : Int :=
  let timeout := m.heartbeat_at - m.now
  if timeout < 0 then 0 else timeout

/-- The broker takes an event. -/
def take (m : MainLoop) (event : BrokerState.Event) : Except BrokerFault MainLoop := do
  let b ← m.broker.step event
  return { m with broker := b }

def client_requests (m : MainLoop) (poll : Poll) : Except BrokerFault MainLoop :=
  match poll.client with
  | some (frames, now) => m.take (.client frames now)
  | none => .ok m

def worker_requests (m : MainLoop) (poll : Poll) : Except BrokerFault MainLoop :=
  match poll.worker with
  | some (frames, clock, now) => m.take (.worker frames clock now)
  | none => .ok m

def list_updates (m : MainLoop) (poll : Poll) : MainLoop :=
  match poll.xsub with
  | some msg => { m with published := m.published ++ [msg] }
  | none => m

def heartbeats (m : MainLoop) (poll : Poll) : Except BrokerFault MainLoop :=
  let m := { m with now := poll.clock }
  if m.now ≥ m.heartbeat_at then do
    let m ← m.take (.heartbeat poll.purge)
    return { m with heartbeat_at := m.heartbeat_at + n_heartbeat_interval, now := poll.again }
  else .ok m

/-- Without a waiting worker the time for the next heartbeats stays as it is. -/
def client_heartbeats (m : MainLoop) (poll : Poll) : Except BrokerFault MainLoop :=
  if poll.client_clock ≥ m.heartbeat_at_client then
    if m.broker.m_waiting.elems = [] then .ok m
    else do
      let m ← m.take .clientHeartbeat
      return { m with heartbeat_at_client := m.heartbeat_at_client + n_heartbeat_interval }
  else .ok m

def round (m : MainLoop) (poll : Poll) : Except BrokerFault MainLoop := do
  let m ← m.client_requests poll
  let m ← m.worker_requests poll
  let m := m.list_updates poll
  let m ← m.heartbeats poll
  m.client_heartbeats poll

def start_brokering (now now_client : Int) (polls : List Poll) : Except BrokerFault MainLoop :=
  polls.foldlM round (init now now_client)

end MainLoop

end ShoppingApp
