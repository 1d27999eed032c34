import ShoppingApp.Lib.Replication
import ShoppingApp.Verify.MajWorker
import ShoppingApp.Verify.Ring

/-!
# A socket for every target

Workers start, connect again, and take in messages about the ring: any that some worker has sent, at
any time and any number of times. Nothing is assumed about addresses, about where a worker joins, or
about collisions of hashes. Every ring still has its addresses under their hashes and every worker
a socket for each address on its ring but its own (`Run.ready`), so that no forward of a request
uses a null socket (`forward_has_socket`).
-/

namespace ShoppingApp

open ConsistentHashing (Hash Hashed Wired addresses)
open Replication

/-- The rings and sockets of the workers that have started, and the messages about the ring that
have been sent. -/
structure Cluster (ι : Type*) where
  nodes : ι → Option ConsistentHashing
  sent : Set RingMessage

namespace Cluster

variable {ι : Type*} [DecidableEq ι]

def start : Cluster ι := ⟨fun _ => none, ∅⟩

/-- Worker `i` moves to a ring and sends messages. -/
def put (s : Cluster ι) (i : ι) (out : ConsistentHashing × List (Socket × RingMessage)) :
    Cluster ι :=
  ⟨Function.update s.nodes i (some out.1), s.sent ∪ {msg | msg ∈ out.2.map Prod.snd}⟩

/-- A worker starts, for the first time or anew; it connects again, where the address of its PULL
socket lets it (`Mdwrk.connect_to_broker`); a message arrives. -/
inductive Step (generateHash : Hash) (own via : ι → String) : Cluster ι → Cluster ι → Prop
  | start (s : Cluster ι) (i : ι) :
      Step generateHash own via s
        (s.put i (ConsistentHashing.connect_to_broker generateHash (own i) (via i)))
  | reconnect (s : Cluster ι) (i : ι) (ch : ConsistentHashing) (h : s.nodes i = some ch) :
      Step generateHash own via s
        (s.put i (ch.reconnect_to_broker generateHash (own i) (via i)))
  | receive (s : Cluster ι) (i : ι) (ch : ConsistentHashing) (msg : RingMessage)
      (h : s.nodes i = some ch) (hmsg : msg ∈ s.sent) :
      Step generateHash own via s (s.put i (ch.onRingMessage generateHash (own i) msg))

/-! ## What holds of every worker and every message -/

/-- A ring that can be sent: not empty, with its addresses under their hashes. -/
def Sound (generateHash : Hash) : RingMessage → Prop
  | .join_ring _ => True
  | .broadcast_ring ring _ => Hashed generateHash ring ∧ ring.entries ≠ []

/-- A worker that has started. -/
def Ready (generateHash : Hash) (own : String) (ch : ConsistentHashing) : Prop :=
  Wired generateHash own ch ∧ ch.ring.entries ≠ []

/-- What a worker moves to is ready, and what it sends is sound. -/
def Good (generateHash : Hash) (own : String)
    (out : ConsistentHashing × List (Socket × RingMessage)) : Prop :=
  Ready generateHash own out.1 ∧ ∀ msg ∈ out.2.map Prod.snd, Sound generateHash msg

variable {generateHash : Hash} {own via : ι → String} {s s' : Cluster ι}

omit [DecidableEq ι] in
/-- Connecting, on the ring that is there or on a new one. -/
theorem good_reconnect {address connect : String} {ch : ConsistentHashing}
    (h : Wired generateHash address ch) (hring : ch.ring.entries ≠ [] ∨ ch.servers = []) :
    Good generateHash address (ch.reconnect_to_broker generateHash address connect) := by
  unfold ConsistentHashing.reconnect_to_broker
  split_ifs
  · refine ⟨⟨h.add connect ⟨connect⟩, ConsistentHashing.addServer_ne_nil connect hring⟩, ?_⟩
    intro msg hmsg
    rw [List.mem_singleton.1 hmsg]
    trivial
  · exact ⟨⟨h.addServer_own, ConsistentHashing.addServer_ne_nil address hring⟩,
      fun msg hmsg => absurd hmsg List.not_mem_nil⟩

omit [DecidableEq ι] in
theorem Ready.good_onRingMessage {address : String} {ch : ConsistentHashing} {msg : RingMessage}
    (h : Ready generateHash address ch) (hmsg : Sound generateHash msg) :
    Good generateHash address (ch.onRingMessage generateHash address msg) := by
  cases msg with
  | join_ring joining =>
    have hwired := h.1.add joining ⟨localEndpoint joining⟩
    have hring : (ch.addServer generateHash joining).ring.entries ≠ [] :=
      ConsistentHashing.addServer_ne_nil joining (.inl h.2)
    refine ⟨⟨hwired, hring⟩, fun msg hsent => ?_⟩
    -- the ring goes to all sockets as it is now
    obtain ⟨sent, hmem, rfl⟩ := List.mem_map.1 hsent
    obtain ⟨socket, -, rfl⟩ := List.mem_map.1 hmem
    exact ⟨hwired.hash, hring⟩
  | broadcast_ring ring servers =>
    have hwired : Wired generateHash address
        (ch.onBroadcastRing generateHash address ring servers) :=
      (Wired.onBroadcastRing hmsg.1 ch servers).1
    have hsame : (ch.onBroadcastRing generateHash address ring servers).ring = ring :=
      (Wired.onBroadcastRing hmsg.1 ch servers).2
    refine ⟨⟨hwired, ?_⟩, fun msg hsent => absurd hsent List.not_mem_nil⟩
    change (ch.onBroadcastRing generateHash address ring servers).ring.entries ≠ []
    rw [hsame]
    exact hmsg.2

/-- All workers are ready, and all messages sound. -/
structure Inv (generateHash : Hash) (own : ι → String) (s : Cluster ι) : Prop where
  ready : ∀ i ch, s.nodes i = some ch → Ready generateHash (own i) ch
  sound : ∀ msg ∈ s.sent, Sound generateHash msg

omit [DecidableEq ι] in
theorem Inv.start : Inv generateHash own (start : Cluster ι) := by
  refine ⟨fun i ch hi => ?_, fun msg hmsg => ?_⟩
  · cases hi
  · exact hmsg.elim

theorem Inv.put (h : Inv generateHash own s) {i : ι}
    {out : ConsistentHashing × List (Socket × RingMessage)}
    (hout : Good generateHash (own i) out) : Inv generateHash own (s.put i out) := by
  refine ⟨fun j ch hj => ?_, ?_⟩
  · by_cases hji : j = i
    · subst hji
      have hself : (s.put j out).nodes j = some out.1 := Function.update_self _ _ _
      rw [hself] at hj
      cases hj
      exact hout.1
    · have hother : (s.put i out).nodes j = s.nodes j := Function.update_of_ne hji _ _
      rw [hother] at hj
      exact h.ready j ch hj
  · rintro msg (hmsg | hmsg)
    · exact h.sound msg hmsg
    · exact hout.2 msg hmsg

theorem Step.inv (h : Inv generateHash own s) (hst : Step generateHash own via s s') :
    Inv generateHash own s' := by
  cases hst with
  | start i =>
    exact h.put (good_reconnect .new (.inr rfl))
  | reconnect i ch hi =>
    obtain ⟨hwired, hring⟩ := h.ready i ch hi
    exact h.put (good_reconnect hwired (.inl hring))
  | receive i ch msg hi hmsg =>
    exact h.put ((h.ready i ch hi).good_onRingMessage (h.sound msg hmsg))

theorem Run.ready (h : Run (Step generateHash own via) start s) : Inv generateHash own s :=
  h.invariant (Inv generateHash own) .start fun _ _ hs hst => hst.inv hs

/-! ## Requests -/

omit [DecidableEq ι] in
/-- A target that is not the worker itself is on the ring, and has a socket. -/
theorem Ready.target {w : Worker}
    (h : Ready generateHash w.m_worker_pull_bind_complete w.ch) {url_list worker : String}
    (hworker : worker ∈ w.distribute_work generateHash url_list)
    (hne : worker ≠ w.m_worker_pull_bind_complete) :
    (w.ch.getPushSocketViaServer generateHash worker).isSome = true :=
  h.1.socket worker (Worker.distribute_work_subset h.2 url_list hworker) hne

omit [DecidableEq ι] in
theorem Ready.recvRequest {w : Worker}
    (h : Ready generateHash w.m_worker_pull_bind_complete w.ch) {msg : ZMsg}
    {r : Worker × List Worker.Forward × Worker.Ending}
    (hr : w.recvRequest generateHash msg = some r) : r.2.2 ≠ .nullSocket := by
  unfold Worker.recvRequest at hr
  obtain ⟨unwrapped, -, hr⟩ := Option.bind_eq_some_iff.1 hr
  dsimp only at hr
  split at hr
  · cases hr
    exact Worker.forwardLoop_ne_nullSocket
      (w := { w with m_reply_to := unwrapped.1 })
      (fun _ hworker hne => h.target hworker hne) _
  · cases hr

/-- **A forward never uses a null socket.** In every reachable state of every worker, each ring
entry has the hash of its address as its key, and each address on the ring but the worker's own has
a socket; so all targets of a url have one but the worker itself, and the loop over them never ends
with a null socket. -/
theorem forward_has_socket (h : Run (Step generateHash own via) start s) {i : ι}
    {ch : ConsistentHashing} (hi : s.nodes i = some ch) :
    (∀ hash address, ch.ring.find? hash = some address → hash = generateHash address) ∧
    (∀ address ∈ addresses ch.ring, address ≠ own i →
      (ch.getPushSocketViaServer generateHash address).isSome = true) ∧
    ∀ w : Worker, w.ch = ch → w.m_worker_pull_bind_complete = own i →
      (∀ url_list, ∀ worker ∈ w.distribute_work generateHash url_list, worker ≠ own i →
        (w.ch.getPushSocketViaServer generateHash worker).isSome = true) ∧
      ∀ msg r, w.recvRequest generateHash msg = some r → r.2.2 ≠ .nullSocket := by
  have hready : Ready generateHash (own i) ch := (Run.ready h).ready i ch hi
  refine ⟨hready.1.hash, hready.1.socket, fun w hch hown => ?_⟩
  subst hch
  rw [← hown] at hready ⊢
  exact ⟨fun _ _ hworker hne => hready.target hworker hne, fun _ _ hr => hready.recvRequest hr⟩

/-- A second worker joins through the first one, and has taken in the ring that comes back. -/
theorem forward_has_socket_joined :
    let own : Bool → String := fun i => cond i "tcp://localhost:6000" "tcp://localhost:60001"
    let via : Bool → String := fun i => cond i "" "tcp://localhost:6000"
    ∃ s ch, Run (Step String.length own via) start s ∧ s.nodes false = some ch ∧
      addresses ch.ring = [own true, own false] ∧
      (ch.getPushSocketViaServer String.length (own true)).isSome = true := by
  intro own via
  let first := ConsistentHashing.connect_to_broker String.length (own true) (via true)
  let second := ConsistentHashing.connect_to_broker String.length (own false) (via false)
  let joined := first.1.onRingMessage String.length (own true) (.join_ring (own false))
  let ring := RingMessage.broadcast_ring joined.1.ring joined.1.servers
  let running := ((start.put true first).put false second).put true joined
  have hjoin : RingMessage.join_ring (own false) ∈ ((start.put true first).put false second).sent :=
    .inr List.mem_cons_self
  have hring : ring ∈ running.sent := .inr List.mem_cons_self
  have hrun : Run (Step String.length own via) start
      (running.put false (second.1.onRingMessage String.length (own false) ring)) :=
    (((Relation.ReflTransGen.single (.start start true)).tail (.start _ false)).tail
      (.receive _ true first.1 _ rfl hjoin)).tail (.receive running false second.1 ring rfl hring)
  have haddresses : addresses (second.1.onRingMessage String.length (own false) ring).1.ring =
      [own true, own false] := by decide
  obtain ⟨-, hsocket, -⟩ := forward_has_socket (i := false) hrun rfl
  refine ⟨_, _, hrun, rfl, haddresses, hsocket (own true) ?_ (by decide)⟩
  rw [haddresses]
  exact List.mem_cons_self

end Cluster

end ShoppingApp
