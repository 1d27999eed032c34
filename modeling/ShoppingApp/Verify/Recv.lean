import ShoppingApp.Worker.Recv

/-!
# Iterations of the worker's loop

A worker that has connected says one of few things to the broker in an iteration: a reply, a
HEARTBEAT when one is due, or nothing (`iteration_turn`). Its loop counts the broker's silence as
the loop of `Worker.Liveness` does, whatever it does besides, and the program ends where that one
connects anew, since the address of its PULL socket is still bound (`run_refines`).
-/

namespace ShoppingApp

open ConsistentHashing (Hash)

/-- The command of a message. -/
def commandOf : ZMsg → Option String
  | _empty :: _header :: command :: _ => some (cStr command)
  | _ => none

/-- An iteration by the commands of the messages that it finds. -/
def Look.commands (look : Look) : Worker.Iteration :=
  ⟨look.broker.bind commandOf, look.peer.bind commandOf⟩

namespace Worker

variable {generateHash : Hash} {text : JsonText} {w w' : Worker} {msg reply : ZMsg} {r : Received}

theorem sendReply_speaks (h : w.sendReply msg = some (w', reply)) :
    w'.worker_id = w.worker_id ∧ ∃ answer, reply = envelope k_mdpw_reply answer := by
  unfold sendReply at h
  split_ifs at h
  cases h
  exact ⟨rfl, _, rfl⟩

/-- A REQUEST is answered with a REPLY, by the same worker. -/
theorem onRequest_speaks (h : w.onRequest generateHash text msg = some r) :
    r.worker.worker_id = w.worker_id ∧ ∃ answer, r.reply = envelope k_mdpw_reply answer := by
  unfold onRequest at h
  obtain ⟨frames, -, h⟩ := Option.bind_eq_some_iff.1 h
  obtain ⟨⟨w₁, forwards, ending⟩, hrequest, h⟩ := Option.bind_eq_some_iff.1 h
  have hid : w₁.worker_id = w.worker_id := by
    unfold recvRequest at hrequest
    obtain ⟨unwrapped, -, hrequest⟩ := Option.bind_eq_some_iff.1 hrequest
    dsimp only at hrequest
    split at hrequest
    · exact (congrArg (fun r => r.1.worker_id) (Option.some.inj hrequest)).symm
    · cases hrequest
  cases ending with
  | handle msg =>
    obtain ⟨handled, -, h⟩ := Option.bind_eq_some_iff.1 h
    obtain ⟨⟨w₂, reply⟩, hsend, h⟩ := Option.bind_eq_some_iff.1 h
    cases h
    exact ⟨(sendReply_speaks hsend).1.trans hid, (sendReply_speaks hsend).2⟩
  | free =>
    obtain ⟨⟨w₂, reply⟩, hsend, h⟩ := Option.bind_eq_some_iff.1 h
    cases h
    exact ⟨(sendReply_speaks hsend).1.trans hid, (sendReply_speaks hsend).2⟩
  | nullSocket => cases h

/-- RECV_WORK is answered with WORKER_OCCUPIED and a REPLY. -/
theorem onRecvWork_speaks (h : w.onRecvWork text msg = some r) :
    r.worker.worker_id = w.worker_id ∧
      r.occupied = some (envelope k_mdpw_worker_occupied [cStr w.worker_id]) ∧
        ∃ answer, r.reply = envelope k_mdpw_reply answer := by
  unfold onRecvWork at h
  obtain ⟨frames, -, h⟩ := Option.bind_eq_some_iff.1 h
  dsimp only at h
  obtain ⟨unwrapped, -, h⟩ := Option.bind_eq_some_iff.1 h
  obtain ⟨handled, -, h⟩ := Option.bind_eq_some_iff.1 h
  obtain ⟨⟨w₂, reply⟩, hsend, h⟩ := Option.bind_eq_some_iff.1 h
  cases h
  exact ⟨(sendReply_speaks hsend).1, rfl, (sendReply_speaks hsend).2⟩

end Worker

theorem commandOf_envelope (command : String) (msg : ZMsg) :
    commandOf (Worker.envelope command msg) = some (cStr command) :=
  congrArg some (ZMsg.cStr_cStr command)

/-- How often the broker is told that the worker is there. -/
def Sends.readies (sends : Sends) : ℕ :=
  sends.broker.countP fun msg => commandOf msg = some k_mdpw_ready

theorem Sends.readies_append (s t : Sends) : (s.append t).readies = s.readies + t.readies :=
  List.countP_append

/-- What is not a READY. -/
theorem Sends.readies_of_commands {sends : Sends}
    (h : ∀ msg ∈ sends.broker, commandOf msg ≠ some k_mdpw_ready) : sends.readies = 0 := by
  refine List.countP_eq_zero.2 fun msg hmem => ?_
  rw [decide_eq_true_iff]
  exact h msg hmem

namespace Mdwrk

open Worker (envelope)

variable {generateHash : Hash} {text : JsonText} {m m' : Mdwrk} {look : Look} {sends : Sends}
  {returned : Bool}

/-! ## Connecting -/

/-- A worker that has just connected, and what it has said to the broker. -/
structure Connected (m : Mdwrk) (worker_id : String) (clock : Int) (m' : Mdwrk)
    (sent : List ZMsg) : Prop where
  worker_id : m'.worker.worker_id = worker_id
  bound : m'.m_worker_pull = true
  liveness : m'.m_liveness = Worker.n_heartbeat_liveness
  due : m'.m_heartbeat_at = clock + m_heartbeat
  sent : sent = [send_to_broker k_mdpw_ready m.m_service []]

theorem connect_to_broker_connected {worker_id : String} {clock : Int}
    (h : m.connect_to_broker generateHash text worker_id clock = .ok (m', sends)) :
    Connected m worker_id clock m' sends.broker := by
  unfold connect_to_broker at h
  split_ifs at h
  obtain ⟨workers, -, h⟩ := Decode.bind_eq_ok h
  cases h
  exact ⟨rfl, rfl, rfl, rfl, rfl⟩

theorem Connected.readies {worker_id : String} {clock : Int}
    (h : Connected m worker_id clock m' sends.broker) : sends.readies = 1 := by
  unfold Sends.readies
  rw [h.sent]
  unfold send_to_broker
  rw [List.countP_singleton, commandOf_envelope]
  rfl

/-- A worker does not connect a second time. -/
theorem connect_again_of_bound (hbound : m.m_worker_pull = true) :
    m.connect_again generateHash text look = none := by
  unfold connect_again connect_to_broker
  rw [if_pos hbound]
  rfl

/-! ## What the broker is told -/

/-- What an iteration says to the broker at a reading of the clock, when the next HEARTBEAT is due
then, and whether `recv` returns. -/
inductive Speaks (m : Mdwrk) (clock : Int) : List ZMsg → Int → Bool → Prop
  | reply (answer : ZMsg) :
      Speaks m clock [envelope k_mdpw_reply answer] m.m_heartbeat_at true
  | work (answer : ZMsg) :
      Speaks m clock [envelope k_mdpw_worker_occupied [cStr m.worker.worker_id],
        envelope k_mdpw_reply answer] m.m_heartbeat_at true
  | quiet (h : clock < m.m_heartbeat_at) : Speaks m clock [] m.m_heartbeat_at false
  | beat (h : m.m_heartbeat_at ≤ clock) :
      Speaks m clock [envelope k_mdpw_heartbeat []] (m.m_heartbeat_at + m_heartbeat) false

theorem Speaks.readies {clock due : Int} (h : Speaks m clock sends.broker due returned) :
    sends.readies = 0 := by
  refine Sends.readies_of_commands fun msg hmem => ?_
  generalize sends.broker = sent at h hmem
  cases h with
  | reply answer =>
    rw [List.mem_singleton.1 hmem, commandOf_envelope]
    decide
  | work answer =>
    rcases List.mem_cons.1 hmem with rfl | hmem
    · rw [commandOf_envelope]
      decide
    · rw [List.mem_singleton.1 hmem, commandOf_envelope]
      decide
  | quiet => cases hmem
  | beat =>
    rw [List.mem_singleton.1 hmem, commandOf_envelope]
    decide

theorem Speaks.congr {clock due : Int} {sent : List ZMsg} (h : Speaks m' clock sent due false)
    (hdue : m'.m_heartbeat_at = m.m_heartbeat_at) : Speaks m clock sent due false := by
  cases h with
  | quiet h =>
    rw [hdue] at h ⊢
    exact .quiet h
  | beat h =>
    rw [hdue] at h ⊢
    exact .beat h

/-- The same connection, and the same time for the next HEARTBEAT. -/
structure Stays (m m' : Mdwrk) : Prop where
  worker_id : m'.worker.worker_id = m.worker.worker_id
  bound : m'.m_worker_pull = true
  due : m'.m_heartbeat_at = m.m_heartbeat_at

/-- The broker's message: none; or one with which the count of its silence starts anew, which is a
REQUEST and answered, or neither a REQUEST nor a DISCONNECT and nothing is said. -/
theorem onBroker_cases (hbound : m.m_worker_pull = true)
    (h : m.onBroker generateHash text look = some (m', sends, returned)) :
    Stays m m' ∧
    ((look.commands.broker = none ∧ m'.m_liveness = m.m_liveness ∧ returned = false ∧
        sends.broker = []) ∨
      ∃ command, look.commands.broker = some command ∧
        m'.m_liveness = Worker.n_heartbeat_liveness ∧
        (command = k_mdpw_request ∧ returned = true ∧
            (∃ answer, sends.broker = [envelope k_mdpw_reply answer]) ∨
          command ≠ k_mdpw_request ∧ command ≠ k_mdpw_disconnect ∧ returned = false ∧
            sends.broker = [])) := by
  unfold onBroker at h
  unfold Look.commands
  split at h
  · rename_i hlook
    cases h
    exact ⟨⟨rfl, hbound, rfl⟩, .inl ⟨by rw [hlook]; rfl, rfl, rfl, rfl⟩⟩
  · rename_i empty header command msg hlook
    rw [hlook]
    dsimp only at h
    split_ifs at h with hassert hrequest hheartbeat hdisconnect
    · obtain ⟨r, hr, h⟩ := Option.bind_eq_some_iff.1 h
      cases h
      obtain ⟨hid, answer, hreply⟩ := Worker.onRequest_speaks hr
      refine ⟨⟨hid, hbound, rfl⟩, .inr ⟨_, rfl, rfl, .inl ⟨hrequest, rfl, answer, ?_⟩⟩⟩
      exact congrArg (fun reply => [reply]) hreply
    · cases h
      refine ⟨⟨rfl, hbound, rfl⟩, .inr ⟨_, rfl, rfl, .inr ⟨hrequest, ?_, rfl, rfl⟩⟩⟩
      rw [hheartbeat]
      decide
    · obtain ⟨r, hagain, -⟩ := Option.bind_eq_some_iff.1 h
      rw [connect_again_of_bound ?_] at hagain
      · cases hagain
      · exact hbound
    · cases h
      exact ⟨⟨rfl, hbound, rfl⟩, .inr ⟨_, rfl, rfl, .inr ⟨hrequest, hdisconnect, rfl, rfl⟩⟩⟩
  · cases h

/-- The other half of an iteration does to the counter what `Worker.onPeer` says, which does not
come to a new connection; `recv` goes on and has said nothing, or returns with a reply. -/
theorem onPeer_cases (hbound : m.m_worker_pull = true)
    (h : m.onPeer generateHash text look = some (m', sends, returned)) :
    Stays m m' ∧ m'.m_liveness = (Worker.onPeer m.m_liveness look.commands.peer).1 ∧
    .connect_to_broker ∉ (Worker.onPeer m.m_liveness look.commands.peer).2 ∧
    (returned = false ∧ sends.broker = [] ∨ returned = true ∧ ∃ answer,
      sends.broker = [envelope k_mdpw_worker_occupied [cStr m.worker.worker_id],
        envelope k_mdpw_reply answer]) := by
  unfold onPeer at h
  unfold Look.commands
  split at h
  · rename_i hlook
    rw [hlook]
    dsimp only at h
    split_ifs at h with hconnects
    · rw [connect_again_of_bound hbound] at h
      cases h
    · cases h
      exact ⟨⟨rfl, hbound, rfl⟩, rfl, hconnects, .inl ⟨rfl, rfl⟩⟩
  · rename_i empty header command msg hlook
    rw [hlook]
    split_ifs at h with hassert hwork
    · obtain ⟨r, hr, h⟩ := Option.bind_eq_some_iff.1 h
      cases h
      obtain ⟨hid, hoccupied, answer, hreply⟩ := Worker.onRecvWork_speaks hr
      refine ⟨⟨hid, hbound, rfl⟩, rfl, List.not_mem_nil, .inr ⟨rfl, answer, ?_⟩⟩
      dsimp only
      rw [hoccupied, hreply]
      rfl
    · obtain ⟨r, -, h⟩ := Option.bind_eq_some_iff.1 h
      obtain ⟨workers, -, h⟩ := Option.bind_eq_some_iff.1 h
      cases h
      exact ⟨⟨rfl, hbound, rfl⟩, rfl, List.not_mem_nil, .inl ⟨rfl, rfl⟩⟩
  · cases h

/-- What a HEARTBEAT that may be due says, and leaves of the worker. -/
theorem heartbeat_speaks (m : Mdwrk) (clock : Int) :
    (m.heartbeat clock).1.m_liveness = m.m_liveness ∧
    (m.heartbeat clock).1.worker = m.worker ∧
    (m.heartbeat clock).1.m_worker_pull = m.m_worker_pull ∧
    Speaks m clock (m.heartbeat clock).2.broker (m.heartbeat clock).1.m_heartbeat_at false := by
  unfold heartbeat
  split_ifs with hbeat
  · exact ⟨rfl, rfl, rfl, .beat hbeat⟩
  · exact ⟨rfl, rfl, rfl, .quiet (not_le.1 hbeat)⟩

/-- What an iteration of a connected worker is, of which the loop that counts makes `counted`. -/
structure Turn (m : Mdwrk) (clock : Int) (counted : UInt64 × List Worker.Action) (m' : Mdwrk)
    (sent : List ZMsg) (returned : Bool) : Prop where
  worker_id : m'.worker.worker_id = m.worker.worker_id
  bound : m'.m_worker_pull = true
  speaks : Speaks m clock sent m'.m_heartbeat_at returned
  liveness : m'.m_liveness = counted.1
  connects : .connect_to_broker ∉ counted.2

/-- What is left of an iteration in which `recv` goes on after the broker's message. -/
theorem turn_of_onBroker {m₁ : Mdwrk} {sent : Sends} (hstays : Stays m m₁)
    (hsent : sent.broker = [])
    (hbroker : m.onBroker generateHash text look = some (m₁, sent, false))
    (h : m.iteration generateHash text look = some (m', sends, returned)) :
    Turn m look.clock (Worker.onPeer m₁.m_liveness look.commands.peer) m' sends.broker
      returned := by
  unfold iteration at h
  rw [hbroker, Option.bind_eq_bind, Option.bind_some] at h
  dsimp only at h
  rw [if_neg Bool.false_ne_true] at h
  obtain ⟨⟨m₂, sent', returned₂⟩, hpeer, h⟩ := Option.bind_eq_some_iff.1 h
  obtain ⟨hstays₂, hliveness, hconnects, hsaid⟩ := onPeer_cases hstays.bound hpeer
  have hid := hstays₂.worker_id.trans hstays.worker_id
  have hdue := hstays₂.due.trans hstays.due
  rcases hsaid with ⟨rfl, hsent'⟩ | ⟨rfl, answer, hsent'⟩
  · dsimp only at h
    rw [if_neg Bool.false_ne_true] at h
    cases h
    -- nothing has been said so far, and the heartbeat is left
    obtain ⟨hkept, hworker, hpull, hspeaks⟩ := heartbeat_speaks m₂ look.clock
    have hbroker : ((sent.append sent').append (m₂.heartbeat look.clock).2).broker =
        (m₂.heartbeat look.clock).2.broker := by
      unfold Sends.append
      rw [hsent, hsent', List.nil_append, List.nil_append]
    refine ⟨(congrArg Worker.worker_id hworker).trans hid, hpull.trans hstays₂.bound, ?_,
      hkept.trans hliveness, hconnects⟩
    rw [hbroker]
    exact hspeaks.congr hdue
  · cases h
    refine ⟨hid, hstays₂.bound, ?_, hliveness, hconnects⟩
    unfold Sends.append
    dsimp only
    rw [hsent, hsent', hdue, hstays.worker_id]
    exact .work answer

/-- **An iteration of a connected worker** keeps its identity and connection; it answers, says that
it is alive when that is due, or is silent; and it does to the counter what `Worker.iteration` says,
which does not come to a new connection. -/
theorem iteration_turn (hbound : m.m_worker_pull = true)
    (h : m.iteration generateHash text look = some (m', sends, returned)) :
    Turn m look.clock (Worker.iteration m.m_liveness look.commands) m' sends.broker returned := by
  obtain ⟨⟨m₁, sent, returned₁⟩, hbroker, -⟩ := Option.bind_eq_some_iff.1 h
  obtain ⟨hstays, ⟨hcommand, hliveness, rfl, hsent⟩ | ⟨command, hcommand, hliveness, hcase⟩⟩ :=
    onBroker_cases hbound hbroker
  · unfold Worker.iteration
    rw [hcommand, ← hliveness]
    exact turn_of_onBroker hstays hsent hbroker h
  · unfold Worker.iteration
    rw [hcommand]
    dsimp only
    rcases hcase with ⟨hrequest, rfl, answer, hsent⟩ | ⟨hrequest, hdisconnect, rfl, hsent⟩
    · unfold iteration at h
      rw [hbroker] at h
      cases h
      rw [if_pos hrequest]
      refine ⟨hstays.worker_id, hstays.bound, ?_, hliveness, List.not_mem_nil⟩
      rw [hsent, hstays.due]
      exact .reply answer
    · rw [if_neg hrequest, if_neg hdisconnect, ite_self, ← hliveness]
      exact turn_of_onBroker hstays hsent hbroker h

/-! ## Runs -/

/-- Iterations of a connected worker. -/
theorem run_counts {looks : List Look} (hbound : m.m_worker_pull = true)
    (h : m.run generateHash text looks = some (m', sends)) :
    m'.m_liveness = Worker.livenessAfter m.m_liveness (looks.map Look.commands) ∧
      .connect_to_broker ∉ Worker.actions m.m_liveness (looks.map Look.commands) ∧
      sends.readies = 0 := by
  induction looks generalizing m sends with
  | nil =>
    cases h
    exact ⟨rfl, List.not_mem_nil, rfl⟩
  | cons look looks ih =>
    obtain ⟨⟨m₁, sends₁, returned⟩, hiteration, h⟩ := Option.bind_eq_some_iff.1 h
    obtain ⟨⟨m₂, rest⟩, hrest, h⟩ := Option.bind_eq_some_iff.1 h
    cases h
    have hturn := iteration_turn hbound hiteration
    obtain ⟨hliveness, hnot, hreadies⟩ := ih hturn.bound hrest
    rw [hturn.liveness] at hliveness hnot
    refine ⟨hliveness, ?_, ?_⟩
    · rw [List.map_cons, Worker.actions, List.mem_append, not_or]
      exact ⟨hturn.connects, hnot⟩
    · rw [Sends.readies_append, hturn.speaks.readies, hreadies]

/-- **The worker's loop refines the one that counts**, up to where that one connects anew. A worker
that the constructor has connected has said READY once. Over any iterations, if the loop of
`Worker.Liveness` connects anew on the commands that they find, the program has ended; if it has not
ended, `m_liveness` is what `Worker.livenessAfter` says of the commands, and the worker has said
READY to the broker no second time. -/
theorem run_refines {m_worker_pull_bind m_connect_to_worker m_service worker_id : String}
    {db : Database} {clock : Int} {sent : Sends}
    (hconnect : (Mdwrk.new m_worker_pull_bind m_connect_to_worker m_service db).connect_to_broker
      generateHash text worker_id clock = .ok (m, sent)) (looks : List Look) :
    sent.readies = 1 ∧
    (.connect_to_broker ∈
      Worker.actions Worker.n_heartbeat_liveness (looks.map Look.commands) →
        m.run generateHash text looks = none) ∧
    ∀ m' sends, m.run generateHash text looks = some (m', sends) →
      m'.m_liveness =
        Worker.livenessAfter Worker.n_heartbeat_liveness (looks.map Look.commands) ∧
      sends.readies = 0 := by
  have hconnected := connect_to_broker_connected hconnect
  have hcounts : ∀ m' sends, m.run generateHash text looks = some (m', sends) →
      m'.m_liveness = Worker.livenessAfter m.m_liveness (looks.map Look.commands) ∧
        .connect_to_broker ∉ Worker.actions m.m_liveness (looks.map Look.commands) ∧
        sends.readies = 0 :=
    fun m' sends hrun => run_counts hconnected.bound hrun
  rw [hconnected.liveness] at hcounts
  refine ⟨hconnected.readies, fun hconnects => ?_, fun m' sends hrun => ?_⟩
  · by_contra hsome
    obtain ⟨⟨m', sends⟩, hrun⟩ := Option.ne_none_iff_exists'.1 hsome
    exact (hcounts m' sends hrun).2.1 hconnects
  · obtain ⟨hliveness, -, hreadies⟩ := hcounts m' sends hrun
    exact ⟨hliveness, hreadies⟩

/-- A worker that has connected hears nothing for an iteration, and then a DISCONNECT. -/
theorem run_refines_disconnect : ∃ m sent,
    (Mdwrk.new "tcp://*:5555" "" "LIST_MANAGEMENT" ∅).connect_to_broker (fun _ => 0)
      ⟨fun _ => none, fun _ => ""⟩ "w1" 0 = .ok (m, sent) ∧ sent.readies = 1 ∧
    (∃ m' sends, m.run (fun _ => 0) ⟨fun _ => none, fun _ => ""⟩
        [⟨none, none, ("w2", 2500), 2500⟩] = some (m', sends) ∧
      m'.m_liveness = 1 ∧ sends.readies = 0 ∧ sends.broker ≠ []) ∧
    m.run (fun _ => 0) ⟨fun _ => none, fun _ => ""⟩
      [⟨none, none, ("w2", 2500), 2500⟩,
        ⟨some ["", k_mdpw_worker, k_mdpw_disconnect], none, ("w2", 2600), 2600⟩] = none := by
  obtain ⟨m, sent, hconnect, m', sends, hrun, hbeat⟩ : ∃ m sent,
      (Mdwrk.new "tcp://*:5555" "" "LIST_MANAGEMENT" ∅).connect_to_broker (fun _ => 0)
        ⟨fun _ => none, fun _ => ""⟩ "w1" 0 = .ok (m, sent) ∧
      ∃ m' sends, m.run (fun _ => 0) ⟨fun _ => none, fun _ => ""⟩
        [⟨none, none, ("w2", 2500), 2500⟩] = some (m', sends) ∧ sends.broker ≠ [] :=
    ⟨_, _, rfl, _, _, rfl, List.cons_ne_nil _ _⟩
  obtain ⟨hready, -, hcounts⟩ := run_refines hconnect [⟨none, none, ("w2", 2500), 2500⟩]
  obtain ⟨-, hends, -⟩ := run_refines hconnect [⟨none, none, ("w2", 2500), 2500⟩,
    ⟨some ["", k_mdpw_worker, k_mdpw_disconnect], none, ("w2", 2600), 2600⟩]
  obtain ⟨hliveness, hreadies⟩ := hcounts m' sends hrun
  exact ⟨m, sent, hconnect, hready, ⟨m', sends, hrun, hliveness.trans (by decide), hreadies, hbeat⟩,
    hends (by decide)⟩

end Mdwrk

end ShoppingApp
