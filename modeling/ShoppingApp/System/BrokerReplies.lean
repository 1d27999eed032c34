import ShoppingApp.System.BrokerQueues
import ShoppingApp.System.Requests

/-!
# Replies through the broker

A worker that has been sent a REQUEST, or has said that it is occupied, does not wait, so that it
cannot be purged: it stays registered until it sends something (`Busy.run`). What it then sends as a
REPLY goes to the client it names and to no other, as `Broker.worker_process` says.
-/

namespace ShoppingApp

open Replication (Run)

namespace BrokerState

variable {b b' : BrokerState} {wrk : ℕ} {w : BrokerWorker} {name identity : String} {again : Prop}
  {who : ℕ → Prop} {event : Event}

/-! ## Workers that do not wait -/

/-- A registered worker of a service that does not wait. -/
structure Busy (b : BrokerState) (identity name : String) (wrk : ℕ) : Prop where
  registered : b.m_workers.find? identity = some wrk
  served : ∃ w, b.workers.find? wrk = some w ∧ w.m_service = some name
  waiting : wrk ∉ b.m_waiting.elems

namespace Busy

theorem setWorker (h : Busy b identity name wrk) {x : ℕ} (hx : x ≠ wrk) (v : BrokerWorker) :
    Busy (b.setWorker x v) identity name wrk := by
  refine ⟨h.registered, ?_, h.waiting⟩
  obtain ⟨w, hw, hname⟩ := h.served
  refine ⟨w, ?_, hname⟩
  rw [BrokerState.setWorker, SortedMap.find?_set_ne _ _ hx.symm]
  exact hw

theorem erase (h : Busy b identity name wrk) (hlinked : Linked b) {x : ℕ} {v : BrokerWorker}
    (hv : b.workers.find? x = some v) (hx : x ≠ wrk) :
    Busy (b.erase x v) identity name wrk := by
  have hidentity : identity ≠ v.m_identity := by
    rintro rfl
    have hfind := hlinked.identity hv
    rw [h.registered, Option.some.injEq] at hfind
    exact hx hfind.symm
  constructor
  · rw [erase_m_workers, SortedMap.find?_erase, if_neg hidentity]
    exact h.registered
  · rw [erase_workers, SortedMap.find?_erase, if_neg hx.symm]
    exact h.served
  · rw [erase_m_waiting]
    exact fun hwrk => h.waiting (SortedSet.mem_erase.1 hwrk).1

theorem quiet (h : Busy b identity name wrk) (hlinked : Linked b) (hwho : ¬ who wrk)
    (hquiet : Quiet who b b') : Busy b' identity name wrk := by
  cases hquiet with
  | addService => exact ⟨h.registered, h.served, h.waiting⟩
  | erase x v hv hx =>
    refine h.erase hlinked hv ?_
    rintro rfl
    exact hx.elim hwho h.waiting
  | attach x v name' hv hx => exact h.setWorker (fun heq => hwho (heq ▸ hx)) _
  | touch x v expiry hv hx => exact h.setWorker (fun heq => hwho (heq ▸ hx)) _
  | unlist x v name' =>
    exact ⟨h.registered, h.served, fun hwrk => h.waiting (SortedSet.mem_erase.1 hwrk).1⟩
  | toWorker => exact ⟨h.registered, h.served, h.waiting⟩
  | toClient => exact ⟨h.registered, h.served, h.waiting⟩
  | toClientHeartbeat => exact ⟨h.registered, h.served, h.waiting⟩
  | client => exact ⟨h.registered, h.served, h.waiting⟩

theorem arrive {name' : String} (h : Busy b identity name wrk) (hwho : ¬ who wrk)
    (harrive : Arrive again who name' b b') : Busy b' identity name wrk := by
  cases harrive with
  | enlist x v clock hv hx =>
    have hne : x ≠ wrk := fun heq => hwho (heq ▸ hx)
    have hset := h.setWorker hne { v with m_expiry := clock + n_heartbeat_expiry }
    refine ⟨hset.registered, hset.served, fun hwrk => ?_⟩
    rcases SortedSet.mem_insert.1 hwrk with heq | hwrk
    · exact hne heq.symm
    · exact h.waiting hwrk
  | push => exact ⟨h.registered, h.served, h.waiting⟩

theorem assign {name' : String} (h : Busy b identity name wrk) (hassign : Assign name' b b') :
    Busy b' identity name wrk := by
  cases hassign with
  | assign =>
    exact ⟨h.registered, h.served, fun hwrk => h.waiting (SortedSet.mem_erase.1 hwrk).1⟩

theorem handled (h : Busy b identity name wrk) (hlinked : Linked b) (hwho : ¬ who wrk)
    (hhandled : Handled again who b b') : Busy b' identity name wrk := by
  refine (hhandled.keeps (fun b₁ => Linked b₁ ∧ Busy b₁ identity name wrk) ?_ ?_ ?_
    ⟨hlinked, h⟩).2
  · exact fun _ _ ⟨hlinked, h⟩ hquiet => ⟨hlinked.quiet hquiet, h.quiet hlinked hwho hquiet⟩
  · exact fun _ _ _ ⟨hlinked, h⟩ harrive => ⟨hlinked.arrive harrive, h.arrive hwho harrive⟩
  · exact fun _ _ _ ⟨hlinked, h⟩ hassign => ⟨hlinked.assigned hassign, h.assign hassign⟩

theorem required (h : Busy b identity name wrk) (hlinked : Linked b) (hrequired : Required b b') :
    Busy b' identity name wrk := by
  cases hrequired with
  | known => exact h
  | register sender hsender hcStr hnone =>
    obtain ⟨w, hw, hname⟩ := h.served
    have hidentity : identity ≠ sender := by
      rintro rfl
      rw [h.registered] at hnone
      cases hnone
    refine ⟨?_, ⟨w, ?_, hname⟩, h.waiting⟩
    · rw [BrokerState.register, SortedMap.find?_set_ne _ _ hidentity]
      exact h.registered
    · rw [BrokerState.register, SortedMap.find?_set_ne _ _ (hlinked.fresh hw).ne]
      exact hw

/-- Only its own messages change a worker that does not wait. -/
theorem step (h : Busy b identity name wrk) (hlinked : Linked b) (hstep : b.step event = .ok b')
    (hother : ∀ command msg, event.message ≠ some (identity, command, msg)) :
    Busy b' identity name wrk := by
  obtain ⟨b₀, who, hrequired, hwho, hhandled⟩ := step_stepped hlinked hstep
  have h₀ : Busy b₀ identity name wrk := h.required hlinked hrequired
  have hlinked₀ : Linked b₀ := hrequired.linked hlinked
  refine h₀.handled hlinked₀ (fun hwrk => ?_) hhandled
  obtain ⟨sender, command, msg, hmessage, hsender⟩ := hwho wrk hwrk
  obtain ⟨v, hv, rfl⟩ := hlinked₀.worker hsender
  obtain ⟨v', hv', rfl⟩ := hlinked₀.worker h₀.registered
  rw [hv, Option.some.injEq] at hv'
  rw [hv'] at hmessage
  exact hother command msg hmessage

theorem run (h : Busy b identity name wrk) (hlinked : Linked b) {events : List Event}
    (hrun : events.foldlM BrokerState.step b = .ok b')
    (hother : ∀ event ∈ events, ∀ command msg, event.message ≠ some (identity, command, msg)) :
    Linked b' ∧ Busy b' identity name wrk :=
  run_keeps (Busy · identity name wrk)
    (fun event hevent _ _ hlinked h hstep => h.step hlinked hstep (hother event hevent)) hlinked h
    hrun

end Busy

/-- The workers that have been sent the REQUESTs in a log are busy. -/
def Employed (b : BrokerState) (acts : List BrokerAct) : Prop :=
  ∀ name request identity frames, .request name request (identity :: frames) ∈ acts →
    cStr identity = identity ∧ ∃ wrk, Busy b identity name wrk

theorem Assigns.employed (hlinked : Linked b) (h : Assigns name b b') :
    ∃ acts, b'.log = b.log ++ acts ∧ Employed b' acts := by
  induction h with
  | refl => exact ⟨[], (List.append_nil _).symm, fun _ _ _ _ hmem => nomatch hmem⟩
  | @tail b₁ b₂ hassigns hassign ih =>
    obtain ⟨acts, hlog, hemployed⟩ := ih
    have hlinked₁ : Linked b₁ := Run.invariant Linked hlinked (fun _ _ h => h.assigned) hassigns
    have hkeep : Employed b₂ acts := by
      intro name' request' identity frames hmem
      obtain ⟨hcStr, wrk, hbusy⟩ := hemployed name' request' identity frames hmem
      exact ⟨hcStr, wrk, hbusy.assign hassign⟩
    cases hassign with
    | assign wrk w request requests hw hwaiting hrequests =>
      refine ⟨acts ++ [.request name request (worker_send w k_mdpw_request "" request.2)], ?_, ?_⟩
      · rw [← List.append_assoc, ← hlog]
        rfl
      · intro name' request' identity frames hmem
        rcases List.mem_append.1 hmem with hmem | hmem
        · exact hkeep name' request' identity frames hmem
        · cases List.mem_singleton.1 hmem
          obtain ⟨v, hv, hname⟩ := hlinked₁.listed hwaiting
          have hcStr := (hlinked₁.named hw).2
          refine ⟨ZMsg.cStr_cStr _, wrk, ?_, ⟨v, hv, hname⟩, fun hwrk => ?_⟩
          · rw [hcStr]
            exact hlinked₁.identity hw
          · exact (SortedSet.mem_erase.1 hwrk).2 rfl

theorem Quiets.silent (h : Quiets who b b') :
    ∃ acts, b'.log = b.log ++ acts ∧ ∀ act ∈ acts, BrokerState.silent act = true := by
  induction h with
  | refl => exact ⟨[], (List.append_nil _).symm, nofun⟩
  | tail _ hquiet ih =>
    obtain ⟨acts, hlog, hacts⟩ := ih
    obtain ⟨acts', hlog', hacts'⟩ := hquiet.silent.log
    refine ⟨acts ++ acts', by rw [hlog', hlog, List.append_assoc], fun act hact => ?_⟩
    exact (List.mem_append.1 hact).elim (hacts act) (hacts' act)

theorem Employed.of_silent {acts : List BrokerAct} (h : ∀ act ∈ acts, silent act = true) :
    Employed b acts := fun _ _ _ _ hmem => nomatch h _ hmem

theorem Employed.append {acts acts' : List BrokerAct} (h : Employed b acts)
    (h' : Employed b acts') : Employed b (acts ++ acts') := by
  intro name request identity frames hmem
  rcases List.mem_append.1 hmem with hmem | hmem
  · exact h name request identity frames hmem
  · exact h' name request identity frames hmem

theorem Handled.employed (hlinked : Linked b) (h : Handled again who b b') :
    ∃ acts, b'.log = b.log ++ acts ∧ Employed b' acts := by
  cases h with
  | quiet hquiets =>
    obtain ⟨acts, hlog, hacts⟩ := hquiets.silent
    exact ⟨acts, hlog, .of_silent hacts⟩
  | @dispatch b₂ b₃ _ name hquiets harrive hdispatch =>
    obtain ⟨b₁, hquiets', hassigns, -⟩ := hdispatch
    have hlinked₁ : Linked b₁ := ((hlinked.quiets hquiets).arrive harrive).quiets hquiets'
    obtain ⟨acts, hlog, hacts⟩ := hquiets.silent
    obtain ⟨acts', hlog', hacts'⟩ := hquiets'.silent
    obtain ⟨acts'', hlog'', hacts''⟩ := Assigns.employed hlinked₁ hassigns
    obtain ⟨arrived, hlog_arrived, harrived⟩ : ∃ arrived, b₃.log = b₂.log ++ arrived ∧
        Employed b' arrived := by
      cases harrive with
      | enlist => exact ⟨[], (List.append_nil _).symm, fun _ _ _ _ hmem => nomatch hmem⟩
      | push => exact ⟨_, rfl, fun _ _ _ _ hmem => nomatch List.mem_singleton.1 hmem⟩
    refine ⟨acts ++ (arrived ++ (acts' ++ acts'')), ?_, ?_⟩
    · rw [hlog'', hlog', hlog_arrived, hlog]
      simp only [List.append_assoc]
    · exact (Employed.of_silent hacts).append
        (harrived.append ((Employed.of_silent hacts').append hacts''))

/-- A worker that an event has sent a REQUEST is busy after it. -/
theorem busy_of_request (hlinked : Linked b) (hstep : b.step event = .ok b')
    {acts : List BrokerAct} (hlog : b'.log = b.log ++ acts) {request : ℕ × ZMsg} {frames : ZMsg}
    (hmem : .request name request (identity :: frames) ∈ acts) :
    cStr identity = identity ∧ ∃ wrk, Busy b' identity name wrk := by
  obtain ⟨b₀, who, hrequired, -, hhandled⟩ := step_stepped hlinked hstep
  obtain ⟨acts', hlog', hemployed⟩ := Handled.employed (hrequired.linked hlinked) hhandled
  have hlog₀ : b₀.log = b.log := by
    cases hrequired with
    | known => rfl
    | register => rfl
  rw [hlog₀, hlog] at hlog'
  rw [List.append_cancel_left hlog'] at hmem
  exact hemployed name request identity frames hmem

/-- The broker opens what a worker sends. -/
theorem step_envelope (b : BrokerState) (sender command : String) (msg : ZMsg) (clock now : Int) :
    b.step (.worker (sender :: Worker.envelope command msg) clock now) =
      b.worker_process (cStr sender) (cStr command :: msg) clock now := by
  unfold Worker.envelope ZMsg.push_front step
  dsimp only
  rw [if_pos (by decide)]

/-- A worker that has said that it is occupied is busy afterwards. -/
theorem busy_of_occupied (hlinked : Linked b) {sender : String} {clock now : Int}
    (hstep : b.step (.worker (sender :: Worker.envelope k_mdpw_worker_occupied
      (ZMsg.push_front [] sender)) clock now) = .ok b') :
    ∃ name wrk, Busy b' (cStr sender) name wrk := by
  have hprocess := (b.step_envelope sender k_mdpw_worker_occupied _ clock now).symm.trans hstep
  by_cases hsender : cStr sender = ""
  · have hrequire : b.worker_require (cStr sender) = .error .assertion := if_pos hsender
    unfold worker_process at hprocess
    dsimp only at hprocess
    rw [hrequire] at hprocess
    cases hprocess
  obtain ⟨b₀, wrk, w, hrequire, hentered⟩ :=
    worker_require_entered hlinked hsender (ZMsg.cStr_cStr sender)
  rw [worker_process_eq hrequire, ZMsg.cStr_cStr, if_neg (by decide), if_pos (by decide)]
    at hprocess
  unfold processOccupied ZMsg.push_front at hprocess
  dsimp only at hprocess
  rw [ZMsg.cStr_cStr, hentered.found] at hprocess
  dsimp only at hprocess
  rw [deref_eq hentered.session.find] at hprocess
  dsimp only [bind, Except.bind] at hprocess
  cases hname : w.m_service with
  | none =>
    rw [hname] at hprocess
    cases hprocess
  | some name =>
    rw [hname] at hprocess
    cases hprocess
    refine ⟨name, wrk, hentered.found, ⟨w, hentered.session.find, hname⟩, fun hwrk => ?_⟩
    exact (SortedSet.mem_erase.1 hwrk).2 rfl

/-! ## What is sent to a client -/

/-- The registered workers and their services, all that `Broker` knows of the broker. -/
def toBroker (b : BrokerState) : Broker :=
  ⟨((b.m_workers.mapVal fun _ wrk => (b.workers.find? wrk).bind BrokerWorker.m_service).filter
    fun _ service => service.isSome).mapVal fun _ service => service.getD ""⟩

theorem find?_toBroker (b : BrokerState) (sender : String) :
    b.toBroker.m_workers.find? sender =
      (b.m_workers.find? sender).bind fun wrk =>
        (b.workers.find? wrk).bind BrokerWorker.m_service := by
  unfold toBroker
  dsimp only
  rw [SortedMap.find?_mapVal, SortedMap.find?_filter, SortedMap.find?_mapVal]
  cases b.m_workers.find? sender with
  | none => rfl
  | some wrk =>
    cases hservice : (b.workers.find? wrk).bind BrokerWorker.m_service with
    | none => simp [hservice]
    | some name => simp [hservice]

def OnlyRequests (acts : List BrokerAct) : Prop :=
  ∀ act ∈ acts, ∃ name request frames, act = .request name request frames

theorem purge_workers_log (b : BrokerState) (now : Int) :
    Ends (fun _ => True) (fun b' => b'.log = b.log) (b.purge_workers now) := by
  unfold purge_workers
  cases b.toCull now b.m_waiting.elems with
  | error f => trivial
  | ok culled =>
    refine Ends.foldlM culled (fun wrk _ b₁ hlog => ?_) rfl
    unfold worker_delete
    cases b₁.deref wrk with
    | error f => trivial
    | ok w => exact (erase_log b₁ wrk w).trans hlog

theorem dispatchLoop_log (name : String) : ∀ (fuel : ℕ) (b : BrokerState),
    Ends (fun _ => True) (fun b' => ∃ acts, b'.log = b.log ++ acts ∧ OnlyRequests acts)
      (dispatchLoop name fuel b) := by
  intro fuel
  induction fuel with
  | zero => intro b; exact ⟨[], (List.append_nil _).symm, nofun⟩
  | succ fuel ih =>
    intro b
    unfold dispatchLoop
    split
    · rename_i first rest request requests hwaiting hrequests
      cases b.mostRecent first rest with
      | error f => trivial
      | ok wrk =>
        dsimp only [bind, Except.bind]
        cases b.deref wrk with
        | error f => trivial
        | ok w =>
          refine (ih (b.assign name wrk w request requests)).imp fun b' hb' => ?_
          obtain ⟨acts, hlog, hacts⟩ := hb'
          let act := BrokerAct.request name request (worker_send w k_mdpw_request "" request.2)
          refine ⟨act :: acts, ?_, fun x hx => ?_⟩
          · rw [hlog]
            exact List.append_assoc _ [act] acts
          · rcases List.mem_cons.1 hx with rfl | hx
            · exact ⟨_, _, _, rfl⟩
            · exact hacts x hx
    · exact ⟨[], (List.append_nil _).symm, nofun⟩

theorem worker_waiting_log (b : BrokerState) (wrk : ℕ) (clock now : Int) :
    Ends (fun _ => True) (fun b' => ∃ acts, b'.log = b.log ++ acts ∧ OnlyRequests acts)
      (b.worker_waiting wrk clock now) := by
  unfold worker_waiting
  cases b.deref wrk with
  | error f => trivial
  | ok w =>
    dsimp only [bind, Except.bind]
    cases w.m_service with
    | none => trivial
    | some name =>
      unfold service_dispatch
      refine ((b.enlist wrk w name clock).purge_workers_log now).bind fun b₁ hlog₁ => ?_
      refine (dispatchLoop_log name _ b₁).imp fun b' hb' => ?_
      obtain ⟨acts, hlog, hacts⟩ := hb'
      rw [hlog₁] at hlog
      exact ⟨acts, hlog, hacts⟩

/-- A service that is required is there or is made. -/
theorem service_require_eq (b : BrokerState) (hname : name ≠ "") :
    ∃ b₁, b.service_require name = .ok b₁ ∧ b₁.log = b.log ∧ b₁.next = b.next ∧
      ∀ name', b₁.service name' = b.service name' := by
  unfold service_require
  rw [if_neg hname]
  cases hfind : b.m_services.find? name with
  | some srv => exact ⟨b, rfl, rfl, rfl, fun _ => rfl⟩
  | none => exact ⟨_, rfl, rfl, rfl, service_addService hfind⟩

/-- A request that is handed to a service is queued. -/
theorem service_dispatch_queues (hlinked : Linked b) (name : String) (msg : ZMsg) (now : Int) :
    ∃ b' acts, b.service_dispatch name (some msg) now = .ok b' ∧
      b'.log = b.log ++ .queue name (b.next, msg) :: acts := by
  have hlog : Ends (fun _ => True) (fun b' => ∃ acts, b'.log = (b.push name msg).log ++ acts)
      (b.service_dispatch name (some msg) now) := by
    unfold service_dispatch
    refine ((b.push name msg).purge_workers_log now).bind fun b₁ hlog₁ => ?_
    refine (dispatchLoop_log name _ b₁).imp fun b' hb' => ?_
    obtain ⟨acts, hacts, -⟩ := hb'
    exact ⟨acts, by rw [hacts, hlog₁]⟩
  have hends := service_dispatch_some_ends (fun _ => False) hlinked name msg now
  cases hrun : b.service_dispatch name (some msg) now with
  | error f => exact (hends.of_error hrun).elim
  | ok b' =>
    obtain ⟨acts, hacts⟩ := hlog.of_ok hrun
    exact ⟨b', acts, rfl, hacts.trans (List.append_assoc _ _ _)⟩

theorem of_openEnvelope {command : String} {msg rest : ZMsg}
    (h : Worker.openEnvelope command msg = some rest) :
    ∃ cmd, msg = "" :: k_mdpw_worker :: cmd :: rest ∧ cStr cmd = command := by
  unfold Worker.openEnvelope at h
  split at h
  · rename_i empty header cmd rest'
    split_ifs at h with hframes
    obtain ⟨rfl, rfl, hcmd⟩ := hframes
    cases h
    exact ⟨cmd, rfl, hcmd⟩
  · cases h

/-- The broker sends a client what `Broker.worker_process` makes of a REPLY, and nothing else to any
client. -/
theorem step_refines (hlinked : Linked b) {sender : String} {msg frames : ZMsg}
    (h : b.toBroker.worker_process (cStr sender) msg = some frames) (clock now : Int) :
    ∃ b' acts, b.step (.worker (sender :: msg) clock now) = .ok b' ∧
      b'.log = b.log ++ .toClient frames :: acts ∧ OnlyRequests acts := by
  unfold Broker.worker_process at h
  obtain ⟨name, hservice, h⟩ := Option.bind_eq_some_iff.1 h
  obtain ⟨rest, hopen, h⟩ := Option.bind_eq_some_iff.1 h
  obtain ⟨⟨client, reply⟩, hunwrap, h⟩ := Option.bind_eq_some_iff.1 h
  cases h
  rw [find?_toBroker] at hservice
  obtain ⟨wrk, hfind, hservice⟩ := Option.bind_eq_some_iff.1 hservice
  obtain ⟨w, hw, hname⟩ := Option.bind_eq_some_iff.1 hservice
  obtain ⟨cmd, rfl, hcmd⟩ := of_openEnvelope hopen
  have hsender : cStr sender ≠ "" := by
    obtain ⟨v, hv, hidentity⟩ := hlinked.worker hfind
    rw [← hidentity]
    exact (hlinked.named hv).1
  let sent := b.send (.toClient ((reply.wrap k_mdp_client name).wrap client ""))
  have hstep : b.step (.worker (sender :: "" :: k_mdpw_worker :: cmd :: rest) clock now) =
      sent.worker_waiting wrk clock now := by
    unfold step
    dsimp only
    rw [if_pos (by decide), worker_process_eq (worker_require_known hsender hfind), hfind, hcmd,
      if_neg (by decide), if_neg (by decide), if_pos rfl]
    unfold processReply
    rw [if_pos Option.isSome_some, hunwrap]
    dsimp only
    rw [deref_eq hw]
    dsimp only [bind, Except.bind]
    rw [hname]
  have hquiet : Quiet (fun _ => False) b sent := .toClient b _
  have hends := worker_waiting_ends True (hlinked.quiet hquiet) hw (.inl trivial) clock now
  have hlog := sent.worker_waiting_log wrk clock now
  cases hrun : sent.worker_waiting wrk clock now with
  | error f =>
    have hnone := (hends.of_error hrun).2
    rw [hname] at hnone
    cases hnone
  | ok b' =>
    obtain ⟨acts, hacts, honly⟩ := hlog.of_ok hrun
    refine ⟨b', acts, hstep.trans hrun, ?_, honly⟩
    rw [hacts]
    exact List.append_assoc _ _ _

/-- A busy worker is one that `Broker` knows. -/
theorem Busy.toBroker (h : Busy b identity name wrk) :
    b.toBroker.m_workers.find? identity = some name := by
  obtain ⟨w, hw, hname⟩ := h.served
  rw [find?_toBroker, h.registered, Option.bind_some, hw, Option.bind_some, hname]

end BrokerState

end ShoppingApp
