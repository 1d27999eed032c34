import ShoppingApp.Lib.SortedMap
import Mathlib.Data.String.Basic
import Mathlib.Data.Nat.Basic

/-!
# The ring of workers

`ConsistentHashing` of `src/server/consistent_hashing.cpp`: a ring of server addresses under their
hashes, the servers in the order they were added, and PUSH sockets under the hashes of the servers
they lead to. The standard library's hash function is a parameter.
-/

namespace ShoppingApp

/-- A PUSH socket, by the endpoint it is connected to. -/
structure Socket where
  endpoint : String
  deriving DecidableEq, Repr

structure ConsistentHashing where
  ring : SortedMap Nat String
  servers : List String
  push_sockets : SortedMap Nat Socket
  numberOfVirtualNodes : Nat
  deriving DecidableEq

namespace ConsistentHashing

/-- The standard library's hash function. -/
abbrev Hash := String → Nat

variable (generateHash : Hash)

def new (virtualNodes : Nat) : ConsistentHashing := ⟨∅, [], ∅, virtualNodes⟩

def getPushSockets (ch : ConsistentHashing) : List Socket := ch.push_sockets.entries.map Prod.snd

def getPushSocket (ch : ConsistentHashing) (hash : Nat) : Option Socket :=
  ch.push_sockets.find? hash

/-- A socket already there is replaced, with a message on the error stream. -/
def addPushSocket (ch : ConsistentHashing) (hash : Nat) (socket : Socket) : ConsistentHashing :=
  { ch with push_sockets := ch.push_sockets.set hash socket }

def addPushSocketViaServer (ch : ConsistentHashing) (key : String) (socket : Socket) :
    ConsistentHashing :=
  ch.addPushSocket (generateHash key) socket

def getPushSocketViaServer (ch : ConsistentHashing) (key : String) : Option Socket :=
  ch.getPushSocket (generateHash key)

def addServer (ch : ConsistentHashing) (server : String) : ConsistentHashing :=
  if server ∈ ch.servers then ch
  else { ch with
    servers := ch.servers ++ [server]
    ring := ch.ring.set (generateHash server) server }

/-- What is erased from the ring are the hashes of the numbered names. -/
def removeServer (ch : ConsistentHashing) (server : String) : ConsistentHashing :=
  if server ∉ ch.servers then ch
  else { ch with
    servers := ch.servers.erase server
    ring := (List.range ch.numberOfVirtualNodes).foldl
      (fun ring i => ring.erase (generateHash (server ++ toString i))) ch.ring }

/-- The entries of the ring from the first at or above the hash of `key` on; from the beginning if
there is none. -/
def entriesFrom (ch : ConsistentHashing) (key : String) : List (Nat × String) :=
  match (ch.ring.lowerBound (generateHash key)).2 with
  | [] => ch.ring.entries
  | es => es

/-- The server at or after `key`; empty if the ring is. -/
def getServer (ch : ConsistentHashing) (key : String) : String :=
  match ch.entriesFrom generateHash key with
  | [] => ""
  | e :: _ => e.2

/-- The server after that one. -/
def getNextServer (ch : ConsistentHashing) (key : String) : String :=
  match ch.entriesFrom generateHash key with
  | [] => ""
  | _ :: e :: _ => e.2
  | [_] =>
    match ch.ring.entries with
    | [] => ""
    | e :: _ => e.2

/-- The server before that one; before the beginning of the ring comes its last entry. -/
def getPreviousServer (ch : ConsistentHashing) (key : String) : String :=
  let (before, here) := ch.ring.lowerBound (generateHash key)
  -- an iterator at the end has been moved to the beginning
  let before := if here = [] then [] else before
  match before.getLast? with
  | some e => e.2
  | none =>
    match ch.ring.entries.getLast? with
    | some e => e.2
    | none => ""

def updateCH (ch : ConsistentHashing) (ring : SortedMap Nat String) (servers : List String) :
    ConsistentHashing :=
  { ch with ring := ring, servers := servers }

end ConsistentHashing

end ShoppingApp
