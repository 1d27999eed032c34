import ShoppingApp.Broker.BrokerState

/-!
# How a worker counts the broker's silence

The loop of `mdwrk::recv` of `src/worker/majWorker.cpp`, as far as `m_liveness` goes: a 64 bit
counter that every message from the broker sets back and that an iteration without a message from
another worker counts down. What is done with the messages and when heartbeats are sent does not
matter to it; a message without its envelope ends the program and is not an iteration.
-/

namespace ShoppingApp

namespace Worker

def n_heartbeat_liveness : UInt64 := 3

/-- An iteration, by the commands of the messages that it finds: from the broker and from another
worker. -/
structure Iteration where
  broker : Option String
  peer : Option String
  deriving DecidableEq

/-- What an iteration does to the counter and the connection: `--m_liveness` on a value, or a call
of `connect_to_broker`, which sets the counter back. -/
inductive Action
  | decrement (m_liveness : UInt64)
  | connect_to_broker
  deriving DecidableEq

/-- The two conditions after a poll without a message from another worker. Only the second one
connects again. -/
def countDown (m_liveness : UInt64) : UInt64 × List Action :=
  let once := m_liveness - 1
  if once = 0 then (once, [.decrement m_liveness])
  else
    let twice := once - 1
    if twice = 0 then
      (n_heartbeat_liveness, [.decrement m_liveness, .decrement once, .connect_to_broker])
    else (twice, [.decrement m_liveness, .decrement once])

/-- The part of an iteration after the broker's message. -/
def onPeer (m_liveness : UInt64) : Option String → UInt64 × List Action
  | some _command => (m_liveness, [])
  | none => countDown m_liveness

/-- An iteration: the counter afterwards, and what is done to it. A REQUEST returns at once. -/
def iteration (m_liveness : UInt64) (it : Iteration) : UInt64 × List Action :=
  match it.broker with
  | none => onPeer m_liveness it.peer
  | some command =>
    if command = k_mdpw_request then (n_heartbeat_liveness, [])
    else if command = k_mdpw_heartbeat then onPeer n_heartbeat_liveness it.peer
    else if command = k_mdpw_disconnect then
      let r := onPeer n_heartbeat_liveness it.peer
      (r.1, .connect_to_broker :: r.2)
    else onPeer n_heartbeat_liveness it.peer

/-- The counter after some iterations. -/
def livenessAfter (m_liveness : UInt64) (its : List Iteration) : UInt64 :=
  its.foldl (fun m_liveness it => (iteration m_liveness it).1) m_liveness

/-- What some iterations do, in order. -/
def actions (m_liveness : UInt64) : List Iteration → List Action
  | [] => []
  | it :: its => (iteration m_liveness it).2 ++ actions (iteration m_liveness it).1 its

end Worker

end ShoppingApp
