import ShoppingApp.Lib.Cin
import ShoppingApp.Worker.MajWorker
import ShoppingApp.Worker.Ring

/-!
# Messages about the ring, frame by frame

`send_to_worker` of `src/worker/majWorker.cpp` with the conversions of the ring and the servers to
JSON and back, and what `recv` does with the frames of JOIN_RING and BROADCAST_RING before it acts
on them (`Worker.Ring`). A ring travels as an object whose keys are the hashes in decimal; the empty
one is null. What goes wrong while a message is read is not caught.
-/

namespace ShoppingApp

def k_mdpw_join_ring : String := "\x07"
def k_mdpw_broadcast_ring : String := "\x08"

/-- `std::stoull`: blanks, a sign, and the digits up to the first other character. -/
def stoull (s : String) : Decode Nat :=
  let cs := s.toList.dropWhile Cin.isspace
  let negative := cs.head? = some '-'
  let cs := if negative ∨ cs.head? = some '+' then cs.tail else cs
  let digits := cs.takeWhile Char.isDigit
  let n := Nat.ofDigitChars 10 digits 0
  if digits = [] ∨ 2 ^ 64 ≤ n then .error .exception
  else .ok (if negative then (2 ^ 64 - n) % 2 ^ 64 else n)

/-- `json::parse` -/
def JsonText.parseFrame (text : JsonText) (frame : String) : Decode Json :=
  match text.parse frame with
  | some j => .ok j
  | none => .error .exception

namespace Worker

def convert_ring_to_json (ring : SortedMap Nat String) : Decode Json :=
  ring.entries.foldlM (fun json_ring e => json_ring.set (toString e.1) (.str e.2)) .null

def convert_json_to_ring (text : JsonText) (json_str : String) : Decode (SortedMap Nat String) := do
  let j ← text.parseFrame json_str
  j.items.foldlM (fun result el => do
    let key ← stoull el.1
    let value ← el.2.getString
    return result.set key value) ∅

/-- A `std::vector` of strings as JSON. -/
def convert_servers_to_json (servers : List String) : Json := .arr (servers.map .str)

def convert_json_to_servers (text : JsonText) (json_str : String) : Decode (List String) := do
  let j ← text.parseFrame json_str
  j.elements.mapM Json.getString

/-- The frames of a message to another worker: the servers are pushed first, then the ring. -/
def send_to_worker (text : JsonText) (command worker_pull_bind : String)
    (ch : Option ConsistentHashing) (msg : ZMsg) : Decode ZMsg := do
  let msg ←
    match ch with
    | none => pure msg
    | some ch => do
      let msg := msg.push_front (text.dump (convert_servers_to_json ch.servers))
      let ring_json ← convert_ring_to_json ch.ring
      pure (msg.push_front (text.dump ring_json))
  let msg := if worker_pull_bind = "" then msg else msg.push_front worker_pull_bind
  return envelope command msg

/-- The frames of JOIN_RING after the command. -/
def readJoinRing : ZMsg → Decode RingMessage
  | received_worker_pull_address :: _ => .ok (.join_ring (cStr received_worker_pull_address))
  | [] => .error .undefined

/-- The frames of BROADCAST_RING after the command. -/
def readBroadcastRing (text : JsonText) : ZMsg → Decode RingMessage
  | _worker_pull_bind :: ring_ :: servers_ :: _ => do
    let ring ← convert_json_to_ring text ring_
    let servers ← convert_json_to_servers text servers_
    return .broadcast_ring ring servers
  | _ => .error .undefined

/-- What a message from another worker says about the ring, if it is about the ring. -/
def readRingMessage (text : JsonText) (msg : ZMsg) : Decode (Option RingMessage) :=
  match openEnvelope k_mdpw_join_ring msg with
  | some msg => some <$> readJoinRing msg
  | none =>
    match openEnvelope k_mdpw_broadcast_ring msg with
    | some msg => some <$> readBroadcastRing text msg
    | none => return none

/-- A message from another worker arrives: the ring afterwards, and what is sent about it. -/
def recvRingMessage (generateHash : ConsistentHashing.Hash) (text : JsonText)
    (m_worker_pull_bind_complete : String) (ch : ConsistentHashing) (msg : ZMsg) :
    Decode (ConsistentHashing × List (Socket × RingMessage)) := do
  match ← readRingMessage text msg with
  | some message => return ch.onRingMessage generateHash m_worker_pull_bind_complete message
  | none => return (ch, [])

end Worker

end ShoppingApp
