import ShoppingApp.Client.MajClient
import ShoppingApp.Broker.BrokerState

/-!
# Cloud mode

What the calls of `recv` and `recv_heartbeat` of `mdcli` of `src/client/majClient.cpp` do to the
client's own variables. A heartbeat of the broker turns cloud mode on. A call that finds no message
sends a HEARTBEAT if one is due, and turns cloud mode off if the time of the last heartbeat is over.
The main thread calls the one and a thread of its own the other; the calls are given in the order
in which they end, with what they find and the readings of the clock.
-/

namespace ShoppingApp

namespace Client

/-- The variables, and the messages that have gone out on `m_client` as HEARTBEATs. -/
structure Mdcli where
  m_heartbeat_at : Int
  n_heartbeat_expiry : Int
  cloud_mode : Bool
  sent : List ZMsg
  deriving DecidableEq

/-- A call that takes a message of either socket, or finds none until its time is over. -/
inductive Call
  | reply (msg : ZMsg)
  | heartbeat (msg : ZMsg) (clock : Int)
  | timeout (now later : Int)
  deriving DecidableEq

namespace Mdcli

def m_heartbeat : Int := 2500

/-- After the constructor. Nothing has been written to `n_heartbeat_expiry` yet. -/
def connect_to_broker (clock n_heartbeat_expiry : Int) : Mdcli :=
  ⟨clock + m_heartbeat, n_heartbeat_expiry, false, []⟩

/-- `recv_heartbeat` with a message; a failed assertion ends the program. -/
def recv_heartbeat (m : Mdcli) (clock : Int) : ZMsg → Option Mdcli
  | empty :: header :: service :: body :: rest =>
    (recv (empty :: header :: service :: body :: rest)).map fun _ =>
      if header = k_mdp_client ∧ service = k_mdpc_heartbeat then
        { m with n_heartbeat_expiry := clock + 2500, cloud_mode := true }
      else m
  | _ => none

/-- The end of `recv` and of `recv_heartbeat`, without a message. -/
def timeout (m : Mdcli) (now later : Int) : Mdcli :=
  let m := if now ≥ m.m_heartbeat_at then
      { m with
        sent := m.sent ++ [send "HEARTBEAT" "" []]
        m_heartbeat_at := m.m_heartbeat_at + m_heartbeat }
    else m
  if later ≥ m.n_heartbeat_expiry then { m with cloud_mode := false } else m

def step (m : Mdcli) : Call → Option Mdcli
  | .reply msg => (recv msg).map fun _ => m
  | .heartbeat msg clock => m.recv_heartbeat clock msg
  | .timeout now later => some (m.timeout now later)

def run (m : Mdcli) (calls : List Call) : Option Mdcli := calls.foldlM step m

end Mdcli

end Client

end ShoppingApp
