import ShoppingApp.Broker.MajBroker

/-!
# The client's messages

`send`, `recv` and `receive_updates` of `mdcli` of `src/client/majClient.cpp`: what the client puts
around a request, what it takes off a reply that has come, and what it reads of the updates that are
queued on its SUB socket.
-/

namespace ShoppingApp

namespace Client

/-- The request as it goes to the broker. -/
def send (service sub_request : String) (request : ZMsg) : ZMsg :=
  (((request.push_front sub_request).push_front service).push_front k_mdp_client).push_front ""

/-- What `recv` returns; a failed assertion ends the program. -/
def recv : ZMsg → Option ZMsg
  | empty :: header :: service :: body :: rest =>
    if empty ≠ "" then none
    else if header = k_mdp_client then
      if service = cStr service then some (body :: rest) else none
    else some (service :: body :: rest)
  | _ => none

/-- The inner loop of `receive_updates`: whatever is queued is received as a part of `msg`. With the
message, what is queued afterwards. -/
def recvParts (msg : ZMsg) : List String → ZMsg × List String
  | [] => (msg, [])
  | part :: queue => recvParts (msg.push_back part) queue

/-- The results, and what is queued afterwards. The outer loop ends after its first message, whose
first part is among the results. -/
def receive_updates : List String → List String × List String
  | [] => ([], [])
  | url :: queue =>
    let r := recvParts (ZMsg.push_back [] url) queue
    ((r.1.take 2).map cStr, r.2)

end Client

end ShoppingApp
