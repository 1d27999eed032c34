import ShoppingApp.Server.ConsistentHashing

/-!
# How a worker keeps its ring

The JOIN_RING and BROADCAST_RING branches of `mdwrk::recv` and what `connect_to_broker` does with
the ring, of `src/worker/majWorker.cpp`. A message is what its frames decode to. JOIN_RING adds a
server and sends the whole ring to every socket; BROADCAST_RING puts the ring that it carries in the
place of the ring that is there.
-/

namespace ShoppingApp

/-- A message between workers about the ring: an address, or a ring and its servers. -/
inductive RingMessage
  | join_ring (worker_pull_address : String)
  | broadcast_ring (ring : SortedMap Nat String) (servers : List String)

/-- The part of an address after the last colon. -/
def portOf (address : String) : String :=
  String.ofList (address.toList.reverse.takeWhile (· ≠ ':')).reverse

/-- Where the socket for a joining worker leads. -/
def localEndpoint (address : String) : String := "tcp://localhost:" ++ portOf address

namespace ConsistentHashing

variable (generateHash : Hash)

/-- What a worker that connects holds and sends, with the address of the worker it joins through,
empty for the first one, and with the ring and the sockets that it has. -/
def reconnect_to_broker (ch : ConsistentHashing)
    (m_worker_pull_bind_complete m_connect_to_worker : String) :
    ConsistentHashing × List (Socket × RingMessage) :=
  if m_connect_to_worker ≠ "" then
    let m_worker_push : Socket := ⟨m_connect_to_worker⟩
    ((ch.addServer generateHash m_connect_to_worker).addPushSocketViaServer generateHash
        m_connect_to_worker m_worker_push,
      [(m_worker_push, .join_ring m_worker_pull_bind_complete)])
  else (ch.addServer generateHash m_worker_pull_bind_complete, [])

/-- A starting worker connects with a new ring. -/
def connect_to_broker (m_worker_pull_bind_complete m_connect_to_worker : String) :
    ConsistentHashing × List (Socket × RingMessage) :=
  (new 1).reconnect_to_broker generateHash m_worker_pull_bind_complete m_connect_to_worker

/-- The JOIN_RING branch. -/
def onJoinRing (ch : ConsistentHashing) (received_worker_pull_address : String) :
    ConsistentHashing × List (Socket × RingMessage) :=
  let worker_push_socket : Socket := ⟨localEndpoint received_worker_pull_address⟩
  let ch := (ch.addServer generateHash received_worker_pull_address).addPushSocketViaServer
    generateHash received_worker_pull_address worker_push_socket
  (ch, ch.getPushSockets.map fun socket => (socket, .broadcast_ring ch.ring ch.servers))

/-- The loop of the BROADCAST_RING branch: sockets to the servers that have none. -/
def connectAll (m_worker_pull_bind_complete : String) :
    List (Nat × String) → ConsistentHashing → ConsistentHashing
  | [], ch => ch
  | (hash, address) :: ring, ch =>
    if address = m_worker_pull_bind_complete ∨ (ch.getPushSocket hash).isSome then
      connectAll m_worker_pull_bind_complete ring ch
    else
      connectAll m_worker_pull_bind_complete ring
        (ch.addPushSocketViaServer generateHash address ⟨address⟩)

/-- The BROADCAST_RING branch. -/
def onBroadcastRing (m_worker_pull_bind_complete : String) (ch : ConsistentHashing)
    (ring : SortedMap Nat String) (servers : List String) : ConsistentHashing :=
  connectAll generateHash m_worker_pull_bind_complete ring.entries (ch.updateCH ring servers)

/-- A message about the ring arrives: the ring afterwards, and what is sent. -/
def onRingMessage (m_worker_pull_bind_complete : String) (ch : ConsistentHashing) :
    RingMessage → ConsistentHashing × List (Socket × RingMessage)
  | .join_ring address => ch.onJoinRing generateHash address
  | .broadcast_ring ring servers =>
    (ch.onBroadcastRing generateHash m_worker_pull_bind_complete ring servers, [])

end ConsistentHashing

end ShoppingApp
