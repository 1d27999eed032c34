import ShoppingApp.System.BrokerReplies
import ShoppingApp.System.BrokerTimes

/-!
# Workers that are told to disconnect

The broker tells a worker to disconnect when it answers a READY of a worker that it knows, a REPLY
or HEARTBEAT of one that it does not know, or a READY under a reserved name, and at no other time
(`step_disconnects`, `disconnected_iff`): neither a purge nor a request has it say so.
-/

namespace ShoppingApp

namespace BrokerState

variable {b b' b₀ : BrokerState} {wrk : ℕ} {w : BrokerWorker} {name identity : String}
  {event : Event}

/-- The identities at the top of the messages that tell a worker to disconnect. -/
def dismissals (acts : List BrokerAct) : List String :=
  acts.filterMap fun act =>
    match act with
    | .toWorker (identity :: _ :: _ :: command :: _) =>
      if command = k_mdpw_disconnect then some identity else none
    | _ => none

/-- Who has been told to disconnect. -/
def disconnects (b : BrokerState) : List String := dismissals b.log

/-- The command is one that the broker answers by telling the worker to disconnect. -/
def Dismisses (known : Bool) (identity command : String) : Prop :=
  if known then command = k_mdpw_ready
  else command = k_mdpw_reply ∨ command = k_mdpw_heartbeat ∨
    command = k_mdpw_ready ∧ reserved identity = true

instance (known : Bool) (identity command : String) :
    Decidable (Dismisses known identity command) := inferInstanceAs (Decidable (ite _ _ _))

/-- Who is told to disconnect in an event. -/
def dismissed (b : BrokerState) (event : Event) : List String :=
  match event.message with
  | some (identity, command, _) =>
    if Dismisses (b.m_workers.find? identity).isSome identity command then [identity] else []
  | none => []

/-! ## The handlers -/

theorem dismissals_append (acts acts' : List BrokerAct) :
    dismissals (acts ++ acts') = dismissals acts ++ dismissals acts' := List.filterMap_append

theorem disconnects_of_log {acts : List BrokerAct} (h : b'.log = b.log ++ acts) :
    b'.disconnects = b.disconnects ++ dismissals acts := by
  unfold disconnects
  rw [h, dismissals_append]

theorem OnlyRequests.dismissals {acts : List BrokerAct} (h : OnlyRequests acts) :
    BrokerState.dismissals acts = [] := by
  refine List.filterMap_eq_nil_iff.2 fun act hact => ?_
  obtain ⟨name, request, frames, rfl⟩ := h act hact
  rfl

theorem heartbeats_dismissals (workers : SortedMap ℕ BrokerWorker) (wrks : List ℕ) :
    dismissals (heartbeats workers wrks) = [] := by
  refine List.filterMap_eq_nil_iff.2 fun act hact => ?_
  obtain ⟨wrk, -, hact⟩ := List.mem_filterMap.1 hact
  obtain ⟨w, -, rfl⟩ := Option.map_eq_some_iff.1 hact
  rfl

theorem service_dispatch_disconnects (b : BrokerState) (name : String) (msg : Option ZMsg)
    (now : Int) : Ends (fun _ => True) (fun b' => b'.disconnects = b.disconnects)
      (b.service_dispatch name msg now) := by
  -- what comes after the queueing
  have hdispatch : ∀ b₁ : BrokerState, b₁.disconnects = b.disconnects →
      Ends (fun _ => True) (fun b' => b'.disconnects = b.disconnects) (b₁.purge_workers now >>=
        fun b₂ => dispatchLoop name (b₂.service name).m_requests.length b₂) := by
    intro b₁ hbefore
    refine (b₁.purge_workers_log now).bind fun b₂ hlog => ?_
    refine (dispatchLoop_log name _ b₂).imp fun b' ⟨acts, hacts, honly⟩ => ?_
    rw [disconnects_of_log hacts, honly.dismissals, List.append_nil]
    exact (congrArg dismissals hlog).trans hbefore
  cases msg with
  | none => exact hdispatch b rfl
  | some msg =>
    exact hdispatch (b.push name msg) ((disconnects_of_log rfl).trans (List.append_nil _))

theorem worker_waiting_disconnects (b : BrokerState) (wrk : ℕ) (clock now : Int) :
    Ends (fun _ => True) (fun b' => b'.disconnects = b.disconnects)
      (b.worker_waiting wrk clock now) := by
  refine (b.worker_waiting_log wrk clock now).imp fun b' ⟨acts, hacts, honly⟩ => ?_
  rw [disconnects_of_log hacts, honly.dismissals, List.append_nil]

theorem service_require_log (b : BrokerState) (name : String) :
    Ends (fun _ => True) (fun b' => b'.log = b.log) (b.service_require name) := by
  unfold service_require
  split_ifs
  · trivial
  · cases b.m_services.find? name with
    | some srv => exact rfl
    | none => exact rfl

/-- Deleting a worker tells it to disconnect, if that is asked for. -/
theorem worker_delete_disconnects (hw : b.workers.find? wrk = some w)
    (hcStr : cStr w.m_identity = w.m_identity) (disconnect : Bool) :
    Ends (fun _ => True) (fun b' => b'.disconnects =
        b.disconnects ++ if disconnect then [w.m_identity] else [])
      (b.worker_delete wrk disconnect) := by
  unfold worker_delete
  rw [deref_eq hw]
  cases disconnect with
  | false =>
    change (b.erase wrk w).disconnects = _
    unfold disconnects
    rw [erase_log]
    exact (List.append_nil _).symm
  | true =>
    let frames := worker_send w k_mdpw_disconnect "" []
    change ((b.send (.toWorker frames)).erase wrk w).disconnects = _
    have hframes : dismissals [.toWorker frames] = [w.m_identity] := by
      change [cStr w.m_identity] = _
      rw [hcStr]
    unfold disconnects
    rw [erase_log]
    exact (dismissals_append _ _).trans (congrArg (dismissals b.log ++ ·) hframes)

theorem processOccupied_disconnects (b : BrokerState) (msg : ZMsg) :
    Ends (fun _ => True) (fun b' => b'.disconnects = b.disconnects) (b.processOccupied msg) := by
  unfold processOccupied
  cases msg with
  | nil => trivial
  | cons named msg =>
    dsimp only
    cases b.m_workers.find? (cStr named) with
    | none => trivial
    | some wrk =>
      dsimp only
      cases b.deref wrk with
      | error f => trivial
      | ok w =>
        dsimp only [bind, Except.bind]
        cases w.m_service with
        | none => trivial
        | some name => exact (rfl : (b.unlist wrk name).disconnects = b.disconnects)

/-- A worker is told to disconnect just when that is due. -/
def Tells (due : Prop) (identity : String) (b b' : BrokerState) : Prop :=
  due ∧ b'.disconnects = b.disconnects ++ [identity] ∨ ¬ due ∧ b'.disconnects = b.disconnects

theorem tells_delete (hw : b.workers.find? wrk = some w) (hcStr : cStr w.m_identity = w.m_identity)
    {due : Prop} {disconnect : Bool} (hdue : disconnect = true ↔ due) :
    Ends (fun _ => True) (Tells due w.m_identity b) (b.worker_delete wrk disconnect) := by
  refine (worker_delete_disconnects hw hcStr disconnect).imp fun b' hb' => ?_
  cases disconnect with
  | true => exact .inl ⟨hdue.1 rfl, hb'⟩
  | false => exact .inr ⟨fun h => Bool.false_ne_true (hdue.2 h), hb'.trans (List.append_nil _)⟩

theorem processReady_tells (hw : b.workers.find? wrk = some w)
    (hcStr : cStr w.m_identity = w.m_identity) (known : Bool) (msg : ZMsg) (clock now : Int) :
    Ends (fun _ => True) (Tells (Dismisses known w.m_identity k_mdpw_ready) w.m_identity b)
      (b.processReady w.m_identity known wrk msg clock now) := by
  unfold processReady
  cases known with
  | true => exact tells_delete hw hcStr (iff_of_true rfl rfl)
  | false =>
    rw [if_neg Bool.false_ne_true]
    by_cases hreserved : reserved w.m_identity = true
    · rw [if_pos hreserved]
      exact tells_delete hw hcStr (iff_of_true rfl (.inr (.inr ⟨rfl, hreserved⟩)))
    · rw [if_neg hreserved]
      have hnot : ¬ Dismisses false w.m_identity k_mdpw_ready := by
        rintro (hreply | hheartbeat | ⟨-, hyes⟩)
        · exact absurd hreply (by decide)
        · exact absurd hheartbeat (by decide)
        · exact hreserved hyes
      cases msg with
      | nil => trivial
      | cons service_name msg =>
        refine Ends.bind ((service_require_log b _).mono (fun _ _ => trivial) fun _ h => h)
          fun b₁ hlog => ?_
        cases b₁.deref wrk with
        | error f => trivial
        | ok v =>
          refine (worker_waiting_disconnects _ wrk clock now).imp fun b' hb' => .inr ⟨hnot, ?_⟩
          exact hb'.trans (congrArg dismissals hlog)

/-- A REPLY or HEARTBEAT of a worker that is known is no reason. -/
theorem not_dismisses {command : String} (h : command ≠ k_mdpw_ready) :
    ¬ Dismisses true identity command := h

theorem processReply_tells (hw : b.workers.find? wrk = some w)
    (hcStr : cStr w.m_identity = w.m_identity) (known : Bool) (msg : ZMsg) (clock now : Int) :
    Ends (fun _ => True) (Tells (Dismisses known w.m_identity k_mdpw_reply) w.m_identity b)
      (b.processReply known wrk msg clock now) := by
  unfold processReply
  cases known with
  | false => exact tells_delete hw hcStr (iff_of_true rfl (.inl rfl))
  | true =>
    rw [if_pos rfl]
    cases msg.unwrap with
    | none => trivial
    | some unwrapped =>
      obtain ⟨client, msg⟩ := unwrapped
      dsimp only
      rw [deref_eq hw]
      dsimp only [bind, Except.bind]
      cases w.m_service with
      | none => trivial
      | some name =>
        let frames := (msg.wrap k_mdp_client name).wrap client ""
        refine (worker_waiting_disconnects (b.send (.toClient frames)) wrk clock now).imp
          fun b' hb' => .inr ⟨not_dismisses (by decide), hb'.trans ?_⟩
        exact (disconnects_of_log rfl).trans (List.append_nil _)

theorem processHeartbeat_tells (hw : b.workers.find? wrk = some w)
    (hcStr : cStr w.m_identity = w.m_identity) (known : Bool) (clock : Int) :
    Ends (fun _ => True) (Tells (Dismisses known w.m_identity k_mdpw_heartbeat) w.m_identity b)
      (b.processHeartbeat known wrk clock) := by
  unfold processHeartbeat
  cases known with
  | false => exact tells_delete hw hcStr (iff_of_true rfl (.inr (.inl rfl)))
  | true =>
    rw [if_pos rfl, deref_eq hw]
    exact .inr ⟨not_dismisses (by decide), rfl⟩

/-- Other commands are no reason. -/
theorem not_dismisses_other {command : String} (known : Bool)
    (h : command ∉ [k_mdpw_ready, k_mdpw_reply, k_mdpw_heartbeat]) :
    ¬ Dismisses known identity command := by
  simp only [List.mem_cons, List.not_mem_nil, or_false, not_or] at h
  unfold Dismisses
  split_ifs
  · exact h.1
  · rintro (hreply | hheartbeat | ⟨hready, -⟩)
    · exact h.2.1 hreply
    · exact h.2.2 hheartbeat
    · exact h.1 hready

theorem worker_process_tells {sender : String} (hentered : Entered b sender b₀ wrk w)
    (hrequire : b.worker_require sender = .ok (b₀, wrk)) (hcStr : cStr sender = sender)
    (command : String) (msg : ZMsg) (clock now : Int) :
    Ends (fun _ => True)
      (Tells (Dismisses (b.m_workers.find? sender).isSome sender (cStr command)) sender b)
      (b.worker_process sender (command :: msg) clock now) := by
  have hw := hentered.session.find
  obtain ⟨v, hv, rfl⟩ := hentered.session.linked.worker hentered.found
  rw [hw, Option.some.injEq] at hv
  subst hv
  have hbefore : b₀.disconnects = b.disconnects := by
    rcases hentered.required with ⟨rfl, -⟩ | ⟨rfl, -⟩ <;> rfl
  rw [worker_process_eq hrequire]
  generalize (b.m_workers.find? w.m_identity).isSome = known
  unfold Tells
  rw [← hbefore]
  split_ifs with hready hoccupied hreply hheartbeat hdisconnect
  · rw [hready]
    exact processReady_tells hw hcStr known msg clock now
  · refine (processOccupied_disconnects b₀ msg).imp fun b' hb' => .inr ⟨?_, hb'⟩
    rw [hoccupied]
    exact not_dismisses_other known (by decide)
  · rw [hreply]
    exact processReply_tells hw hcStr known msg clock now
  · rw [hheartbeat]
    exact processHeartbeat_tells hw hcStr known clock
  · refine tells_delete hw hcStr (iff_of_false Bool.false_ne_true ?_)
    rw [hdisconnect]
    exact not_dismisses_other known (by decide)
  · refine .inr ⟨not_dismisses_other known ?_, rfl⟩
    simp only [List.mem_cons, List.not_mem_nil, or_false, not_or]
    exact ⟨hready, hreply, hheartbeat⟩

/-! ## Events -/

theorem client_process_disconnects (b : BrokerState) (sender : String) (msg : ZMsg) (now : Int) :
    Ends (fun _ => True) (fun b' => b'.disconnects = b.disconnects)
      (b.client_process sender msg now) := by
  unfold client_process
  split
  · rename_i service_name body rest
    by_cases hheartbeat : cStr service_name = "HEARTBEAT"
    · dsimp only
      rw [if_pos hheartbeat]
      exact rfl
    · dsimp only
      rw [if_neg hheartbeat]
      refine Ends.bind ((service_require_log b _).mono (fun _ _ => trivial) fun _ h => h)
        fun b₁ hlog => ?_
      split_ifs
      · exact congrArg dismissals hlog
      · exact (service_dispatch_disconnects b₁ _ _ now).imp
          fun b' hb' => hb'.trans (congrArg dismissals hlog)
  · trivial

theorem clientHeartbeats_disconnects (b : BrokerState) (client_senders : List String) :
    (client_senders.foldl (fun b client_sender =>
      b.send (.toClientHeartbeat (clientHeartbeat client_sender))) b).disconnects =
        b.disconnects := by
  induction client_senders generalizing b with
  | nil => rfl
  | cons client_sender client_senders ih =>
    exact (ih _).trans ((disconnects_of_log rfl).trans (List.append_nil _))

/-- Who is told to disconnect in an event, and nobody else is. -/
theorem step_disconnects (hlinked : Linked b) (hstep : b.step event = .ok b') :
    b'.disconnects = b.disconnects ++ b.dismissed event := by
  -- an event without a message of a worker
  have hquiet : event.message = none → b'.disconnects = b.disconnects →
      b'.disconnects = b.disconnects ++ b.dismissed event := by
    intro hnone hsame
    unfold dismissed
    rw [hnone, hsame]
    exact (List.append_nil _).symm
  cases event with
  | client frames now =>
    refine hquiet rfl ?_
    unfold step at hstep
    dsimp only at hstep
    split at hstep
    · split_ifs at hstep
      · exact (client_process_disconnects b _ _ now).of_ok hstep
      · cases hstep
        rfl
    · cases hstep
  | worker frames clock now =>
    unfold step at hstep
    dsimp only at hstep
    split at hstep
    · rename_i sender empty header msg
      split_ifs at hstep with hheader
      · cases msg with
        | nil => cases hstep
        | cons command msg =>
          by_cases hsender : cStr sender = ""
          · have hrequire : b.worker_require (cStr sender) = .error .assertion := if_pos hsender
            unfold worker_process at hstep
            dsimp only at hstep
            rw [hrequire] at hstep
            cases hstep
          obtain ⟨b₀, wrk, w, hrequire, hentered⟩ :=
            worker_require_entered hlinked hsender (ZMsg.cStr_cStr sender)
          have htells := (worker_process_tells hentered hrequire (ZMsg.cStr_cStr sender) command
            msg clock now).of_ok hstep
          have hmessage : (Event.worker (sender :: empty :: header :: command :: msg) clock
              now).message = some (cStr sender, cStr command, msg) := if_pos hheader
          unfold dismissed
          rw [hmessage]
          dsimp only
          rcases htells with ⟨hdue, htold⟩ | ⟨hnot, hsame⟩
          · rw [if_pos hdue, htold]
          · rw [if_neg hnot, hsame, List.append_nil]
      · cases hstep
        refine hquiet ?_ rfl
        cases msg with
        | nil => rfl
        | cons command msg => exact if_neg hheader
    · cases hstep
  | heartbeat now =>
    refine hquiet rfl ?_
    obtain ⟨b₁, -, hpurged, heq⟩ := step_heartbeat hlinked now
    rw [heq, Except.ok.injEq] at hstep
    subst hstep
    refine (disconnects_of_log rfl).trans ?_
    rw [heartbeats_dismissals, List.append_nil]
    exact congrArg dismissals hpurged.log
  | clientHeartbeat =>
    refine hquiet rfl ?_
    unfold step at hstep
    dsimp only at hstep
    split_ifs at hstep
    · cases hstep
      rfl
    · cases hstep
      exact b.clientHeartbeats_disconnects _

theorem mem_dismissed : identity ∈ b.dismissed event ↔ ∃ command msg,
    event.message = some (identity, command, msg) ∧
      Dismisses (b.m_workers.find? identity).isSome identity command := by
  unfold dismissed
  constructor
  · intro h
    split at h
    · rename_i sender command msg hmessage
      split_ifs at h with hdue
      · rw [List.mem_singleton.1 h]
        exact ⟨command, msg, hmessage, hdue⟩
      · cases h
    · cases h
  · rintro ⟨command, msg, hmessage, hdue⟩
    rw [hmessage]
    dsimp only
    rw [if_pos hdue]
    exact List.mem_singleton_self _

/-- **Who is ever told to disconnect.** In every run those are the workers that have sent a READY
while the broker knew them, or a REPLY, a HEARTBEAT or a READY under a reserved name while it did
not. -/
theorem disconnected_iff {events : List Event} (h : run events = .ok b) :
    identity ∈ b.disconnects ↔ ∃ past event future b₀ command msg,
      events = past ++ event :: future ∧ run past = .ok b₀ ∧
        event.message = some (identity, command, msg) ∧
        Dismisses (b₀.m_workers.find? identity).isSome identity command := by
  induction events using List.reverseRecOn generalizing b with
  | nil =>
    cases h
    refine iff_of_false List.not_mem_nil ?_
    rintro ⟨past, event, future, b₀, command, msg, heq, -⟩
    cases past <;> cases heq
  | append_singleton events event ih =>
    obtain ⟨b₁, hpast, hstep⟩ := run_concat.1 h
    rw [step_disconnects (run_linked hpast) hstep, List.mem_append, ih hpast, mem_dismissed]
    constructor
    · rintro (⟨past, event', future, b₀, command, msg, rfl, hrun, hmessage, hdue⟩ |
        ⟨command, msg, hmessage, hdue⟩)
      · refine ⟨past, event', future ++ [event], b₀, command, msg, ?_, hrun, hmessage, hdue⟩
        rw [List.append_assoc]
        rfl
      · exact ⟨events, event, [], b₁, command, msg, rfl, hpast, hmessage, hdue⟩
    · rintro ⟨past, event', future, b₀, command, msg, heq, hrun, hmessage, hdue⟩
      rcases List.eq_nil_or_concat future with rfl | ⟨future, last, rfl⟩
      · obtain ⟨rfl, hlast⟩ := List.append_inj' heq rfl
        cases hlast
        rw [hpast, Except.ok.injEq] at hrun
        subst hrun
        exact .inr ⟨command, msg, hmessage, hdue⟩
      · rw [List.concat_eq_append, ← List.cons_append, ← List.append_assoc] at heq
        obtain ⟨rfl, -⟩ := List.append_inj' heq rfl
        exact .inl ⟨past, event', future, b₀, command, msg, rfl, hrun, hmessage, hdue⟩

/-- A worker that has been purged and is heard of again. -/
theorem disconnected_iff_purged :
    ∃ b, run [fromWorker "w1" k_mdpw_ready ["lists"] 0 0, .heartbeat 7500,
        fromWorker "w1" k_mdpw_heartbeat [] 7600 7600] = .ok b ∧ "w1" ∈ b.disconnects := by
  have hrun : run [fromWorker "w1" k_mdpw_ready ["lists"] 0 0, .heartbeat 7500,
      fromWorker "w1" k_mdpw_heartbeat [] 7600 7600] = .ok _ := rfl
  refine ⟨_, hrun, (disconnected_iff hrun).2 ?_⟩
  exact ⟨[fromWorker "w1" k_mdpw_ready ["lists"] 0 0, .heartbeat 7500], _, [], _, k_mdpw_heartbeat,
    [], rfl, rfl, rfl, by decide⟩

end BrokerState

end ShoppingApp
