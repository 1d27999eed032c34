import ShoppingApp.Worker.MajWorker

/-!
# The broker

`broker` of `src/broker/majBroker.cpp`, as far as a request and its replies go through it: the
request of a client is sent on to a worker that waits for work, and what a registered worker
replies is sent on to the client it names.
-/

namespace ShoppingApp

def k_mdp_client : String := "MDPC01"

/-- The workers the broker has registered, by identity, with the name of their service. -/
structure Broker where
  m_workers : SortedMap String String

namespace Broker

/-- What `client_process` queues for a service: the request under the address of its sender. -/
def client_process (sender : String) (msg : ZMsg) : ZMsg := msg.wrap sender ""

/-- The REQUEST that `service_dispatch` sends to a worker, without the routing frames. -/
def service_dispatch (msg : ZMsg) : ZMsg := Worker.envelope k_mdpw_request msg

/-- The REPLY branch of `worker_process`, on the frames after its routing: what is sent to a
client. A worker that is not registered is told to disconnect. -/
def worker_process (b : Broker) (sender : String) (msg : ZMsg) : Option ZMsg := do
  let service ← b.m_workers.find? sender
  let msg ← Worker.openEnvelope k_mdpw_reply msg
  let (client, msg) ← msg.unwrap
  return (msg.wrap k_mdp_client service).wrap client ""

end Broker

end ShoppingApp
