import ShoppingApp.System.BrokerTimes

/-!
# Which worker gets a request

An event sends at most one REQUEST, since work and idle workers are never left side by side. It goes
to a worker whose time is not over, and of those that wait for the service to the one heard from
last (`request_to_latest`).
-/

namespace ShoppingApp

open Replication (Run)

namespace BrokerState

variable {b b' b₁ : BrokerState} {wrk : ℕ} {w : BrokerWorker} {name : String} {event : Event}
  {clock now : Int} {who : ℕ → Prop}

/-! ## The choice of a worker -/

/-- Worker `wrk`, which is `w`, is one of some workers and heard from as late as any of them. -/
structure Latest (b : BrokerState) (wrk : ℕ) (w : BrokerWorker) (wrks : List ℕ) : Prop where
  find : b.workers.find? wrk = some w
  mem : wrk ∈ wrks
  latest : ∀ x ∈ wrks, ∀ v, b.workers.find? x = some v → v.m_expiry ≤ w.m_expiry

theorem mostRecent_latest : ∀ (rest : List ℕ) (wrk : ℕ),
    (∀ x ∈ wrk :: rest, ∃ w, b.workers.find? x = some w) →
    Ends Never (fun chosen => ∃ w, Latest b chosen w (wrk :: rest)) (b.mostRecent wrk rest) := by
  intro rest
  induction rest with
  | nil =>
    intro wrk hlive
    obtain ⟨w, hw⟩ := hlive wrk List.mem_cons_self
    refine ⟨w, hw, List.mem_cons_self, fun x hx v hv => ?_⟩
    rw [List.mem_singleton.1 hx, hw, Option.some.injEq] at hv
    rw [hv]
  | cons next rest ih =>
    intro wrk hlive
    obtain ⟨w, hw⟩ := hlive wrk List.mem_cons_self
    obtain ⟨n, hn⟩ := hlive next (List.mem_cons_of_mem _ List.mem_cons_self)
    unfold mostRecent
    rw [deref_eq hn, deref_eq hw]
    dsimp only [bind, Except.bind]
    -- the better of the first two, against the rest
    have hbetter : ∃ best u, (if n.m_expiry > w.m_expiry then next else wrk) = best ∧
        b.workers.find? best = some u ∧ (best = wrk ∨ best = next) ∧
        w.m_expiry ≤ u.m_expiry ∧ n.m_expiry ≤ u.m_expiry := by
      split_ifs with hlater
      · exact ⟨next, n, rfl, hn, .inr rfl, hlater.le, le_rfl⟩
      · exact ⟨wrk, w, rfl, hw, .inl rfl, le_rfl, not_lt.1 hlater⟩
    obtain ⟨best, u, heq, hu, hmem, hwu, hnu⟩ := hbetter
    rw [heq]
    have hrest : ∀ x ∈ best :: rest, ∃ w, b.workers.find? x = some w := by
      intro x hx
      rcases List.mem_cons.1 hx with rfl | hx
      · exact ⟨u, hu⟩
      · exact hlive x (List.mem_cons_of_mem _ (List.mem_cons_of_mem _ hx))
    refine (ih best hrest).imp fun chosen h => ?_
    obtain ⟨v, hv, hchosen, hlatest⟩ := h
    refine ⟨v, hv, ?_, ?_⟩
    · rcases List.mem_cons.1 hchosen with rfl | hchosen
      · rcases hmem with rfl | rfl
        · exact List.mem_cons_self
        · exact List.mem_cons_of_mem _ List.mem_cons_self
      · exact List.mem_cons_of_mem _ (List.mem_cons_of_mem _ hchosen)
    · intro x hx v' hv'
      have hbest : u.m_expiry ≤ v.m_expiry := hlatest best List.mem_cons_self u hu
      rcases List.mem_cons.1 hx with rfl | hx
      · rw [hw, Option.some.injEq] at hv'
        exact hv' ▸ hwu.trans hbest
      rcases List.mem_cons.1 hx with rfl | hx
      · rw [hn, Option.some.injEq] at hv'
        exact hv' ▸ hnu.trans hbest
      · exact hlatest x (List.mem_cons_of_mem _ hx) v' hv'

/-- Nothing, or one request to the worker heard from last. -/
inductive Serves (name : String) (b : BrokerState) : BrokerState → Prop
  | idle : Serves name b b
  | serve (wrk : ℕ) (w : BrokerWorker) (request : ℕ × ZMsg) (requests : List (ℕ × ZMsg))
      (hlatest : Latest b wrk w (b.service name).m_waiting)
      (hrequests : (b.service name).m_requests = request :: requests) :
      Serves name b (b.assign name wrk w request requests)

theorem dispatchLoop_conserving (h : Conserving b name) (fuel : ℕ) :
    dispatchLoop name fuel b = .ok b := by
  cases fuel with
  | zero => rfl
  | succ fuel =>
    unfold dispatchLoop
    rcases h with hrequests | hwaiting
    · rw [hrequests]
      cases (b.service name).m_waiting <;> rfl
    · rw [hwaiting]

/-- One request or one worker makes for one round of the loop at most. -/
theorem dispatchLoop_serves (h : Linked b)
    (hfew : (b.service name).m_requests.length ≤ 1 ∨ (b.service name).m_waiting.length ≤ 1)
    (fuel : ℕ) : Ends Never (Serves name b) (dispatchLoop name fuel b) := by
  by_cases hconserving : Conserving b name
  · rw [dispatchLoop_conserving hconserving]
    exact .idle
  cases fuel with
  | zero => exact .idle
  | succ fuel =>
    obtain ⟨hrequests, hwaiting⟩ := not_or.1 hconserving
    obtain ⟨first, rest, hwaiting⟩ := List.exists_cons_of_ne_nil hwaiting
    obtain ⟨request, requests, hrequests⟩ := List.exists_cons_of_ne_nil hrequests
    unfold dispatchLoop
    rw [hwaiting, hrequests]
    have hlive : ∀ x ∈ first :: rest, ∃ v, b.workers.find? x = some v := by
      intro x hx
      have hlisted : x ∈ (b.service name).m_waiting := hwaiting.symm ▸ hx
      obtain ⟨v, hv, -⟩ := h.listed hlisted
      exact ⟨v, hv⟩
    refine (mostRecent_latest rest first hlive).bind fun wrk hmost => ?_
    obtain ⟨w, hlatest⟩ := hmost
    rw [deref_eq hlatest.find]
    have hdone : Conserving (b.assign name wrk w request requests) name := by
      unfold Conserving
      rw [service_assign, if_pos rfl]
      rw [hrequests, hwaiting] at hfew
      rcases hfew with hfew | hfew
      · rw [List.length_cons] at hfew
        have hlength : requests.length = 0 := by omega
        exact .inl (List.length_eq_zero_iff.1 hlength)
      · rw [List.length_cons] at hfew
        have hrest : rest = [] := List.length_eq_zero_iff.1 (by omega)
        have hwrk : wrk = first := by
          have hmem := hlatest.mem
          rw [hrest] at hmem
          exact List.mem_singleton.1 hmem
        refine .inr ?_
        rw [hwaiting, hrest, hwrk]
        exact List.erase_cons_head first []
    change Ends Never (Serves name b)
      (dispatchLoop name fuel (b.assign name wrk w request requests))
    rw [dispatchLoop_conserving hdone]
    exact .serve wrk w request requests (hwaiting.symm ▸ hlatest) hrequests

/-! ## What a dispatch sends -/

theorem Quiets.sent (h : Quiets who b b') : sent b'.log = sent b.log := by
  refine Run.invariant (fun b₁ => BrokerState.sent b₁.log = BrokerState.sent b.log) rfl ?_ h
  intro b₁ b₂ hb₁ hquiet
  obtain ⟨acts, hlog, hacts⟩ := hquiet.silent.log
  rw [hlog, sent_append, sent_silent hacts, List.append_nil]
  exact hb₁

theorem Quiets.requests (h : Quiets who b b') (name : String) :
    (b'.service name).m_requests = (b.service name).m_requests := by
  refine Run.invariant (fun b₁ => (b₁.service name).m_requests = (b.service name).m_requests) rfl
    ?_ h
  exact fun b₁ b₂ hb₁ hquiet => (hquiet.silent.requests name).trans hb₁

theorem Quiets.agree (h : Quiets who b b') (hlinked : Linked b) (hagree : Agree b) : Agree b' := by
  refine (Run.invariant (fun b₁ => Linked b₁ ∧ Agree b₁) ⟨hlinked, hagree⟩ ?_ h).2
  exact fun b₁ b₂ ⟨hlinked, hagree⟩ hquiet => ⟨hlinked.quiet hquiet, hagree.quiet hlinked hquiet⟩

/-- Worker `wrk`, which is `w`, has been sent a request of service `name`: its time is not over, it
no longer waits, and none of those still waiting for the service was heard from later. -/
structure Offer (now : Int) (b b' : BrokerState) (wrk : ℕ) (w : BrokerWorker) (name : String)
    (request : ℕ × ZMsg) : Prop where
  sent : sent b'.log = sent b.log ++ [(name, request)]
  framed : .request name request (worker_send w k_mdpw_request "" request.2) ∈ b'.log
  find : b'.workers.find? wrk = some w
  served : w.m_service = some name
  inTime : now < w.m_expiry
  idle : wrk ∉ b'.m_waiting.elems
  latest : ∀ x ∈ (b'.service name).m_waiting, ∀ v, b'.workers.find? x = some v →
    v.m_expiry ≤ w.m_expiry

/-- No request, or one. -/
def Offers (now : Int) (b b' : BrokerState) : Prop :=
  sent b'.log = sent b.log ∨ ∃ wrk w name request, Offer now b b' wrk w name request

/-- The log before is all that counts. -/
theorem Offers.congr (h : Offers now b₁ b') (hsent : sent b₁.log = sent b.log) :
    Offers now b b' := by
  rcases h with heq | ⟨wrk, w, name, request, hoffer⟩
  · exact .inl (heq.trans hsent)
  · exact .inr ⟨wrk, w, name, request, { hoffer with sent := hsent ▸ hoffer.sent }⟩

theorem Quiets.offers (h : Quiets who b b') : Offers now b b' := .inl h.sent

/-- The lists are in order, and work does not wait beside an idle worker. -/
structure Ordered (b : BrokerState) : Prop where
  linked : Linked b
  agree : Agree b
  conserving : ∀ name, Conserving b name

theorem Ordered.quiets (h : Ordered b) (hquiets : Quiets who b b') : Ordered b' :=
  ⟨h.linked.quiets hquiets, hquiets.agree h.linked h.agree,
    fun name => hquiets.conserving (h.conserving name)⟩

theorem dispatch_offers (h : Linked b) (hagree : Agree b) (name : String) (now : Int)
    (hfew : (b.service name).m_requests.length ≤ 1 ∨ (b.service name).m_waiting.length ≤ 1) :
    Ends Never (Offers now b) (do
      let b ← b.purge_workers now
      dispatchLoop name (b.service name).m_requests.length b) := by
  have hpurge := (purge_workers_purged h now).and (purge_workers_ends (fun _ => False) h now)
  refine hpurge.bind fun b₁ ⟨⟨h₁, hpurged⟩, hquiets⟩ => ?_
  have hagree₁ : Agree b₁ := hquiets.agree h hagree
  have hwaiting : (b₁.service name).m_waiting.length ≤ (b.service name).m_waiting.length := by
    rw [hpurged.listed]
    exact List.length_filter_le _ _
  refine (dispatchLoop_serves h₁ ?_ _).imp fun b' hserves => ?_
  · rw [hquiets.requests]
    exact hfew.imp_right hwaiting.trans
  have hsent : sent b₁.log = sent b.log := by rw [hpurged.log]
  cases hserves with
  | idle => exact .inl hsent
  | serve wrk w request requests hlatest hrequests =>
    have hlog : (b₁.assign name wrk w request requests).log = b₁.log ++
        [.request name request (worker_send w k_mdpw_request "" request.2)] := rfl
    refine .inr ⟨wrk, w, name, request, ?_, ?_, hlatest.find, ?_, ?_, ?_, ?_⟩
    · rw [hlog, sent_append, hsent]
      rfl
    · rw [hlog]
      exact List.mem_append_right _ (List.mem_singleton_self _)
    · obtain ⟨v, hv, hserved⟩ := h₁.listed hlatest.mem
      rw [hlatest.find, Option.some.injEq] at hv
      exact hv ▸ hserved
    · -- the purge has seen it, since the lists agree, and has let it be
      have hmem := hlatest.mem
      rw [hpurged.listed] at hmem
      obtain ⟨hmem, hspared⟩ := List.mem_filter.1 hmem
      have hm_waiting : wrk ∈ b.m_waiting.elems := hagree.listed name wrk hmem
      rw [decide_eq_true hm_waiting, Bool.true_and, Bool.not_eq_true'] at hspared
      by_contra hover
      have hfind := hpurged.workers wrk
      rw [if_neg fun hx => by rw [hspared] at hx; exact Bool.false_ne_true hx.2, hlatest.find]
        at hfind
      rw [expired_iff.2 ⟨w, hfind.symm, not_lt.1 hover⟩] at hspared
      cases hspared
    · exact fun hwrk => (SortedSet.mem_erase.1 hwrk).2 rfl
    · intro x hx v hv
      rw [service_assign, if_pos rfl] at hx
      exact hlatest.latest x (List.mem_of_mem_erase hx) v hv

theorem worker_waiting_offers (h : Ordered b) (hw : b.workers.find? wrk = some w)
    (hname : w.m_service = some name) (hnew : wrk ∉ b.m_waiting.elems) (clock now : Int) :
    Ends Never (Offers now b) (b.worker_waiting wrk clock now) := by
  have harrive : Arrive False (· = wrk) name b (b.enlist wrk w name clock) :=
    .enlist b wrk w clock hw rfl hname (.inr hnew)
  rw [worker_waiting_eq hw hname]
  unfold service_dispatch
  dsimp only
  refine (dispatch_offers (h.linked.arrive harrive) (h.agree.arrive harrive) name now ?_).imp
    fun b' hb' => hb'.congr rfl
  rw [service_enlist, if_pos rfl]
  rcases h.conserving name with hrequests | hwaiting
  · exact .inl (by rw [hrequests]; exact Nat.zero_le 1)
  · exact .inr (by rw [hwaiting]; exact le_rfl)

theorem push_offers (h : Ordered b) (name : String) (msg : ZMsg) (now : Int) :
    Ends Never (Offers now b) (b.service_dispatch name (some msg) now) := by
  have harrive : Arrive False (fun _ => False) name b (b.push name msg) := .push b msg
  have hsent : sent (b.push name msg).log = sent b.log := by
    have hlog : (b.push name msg).log = b.log ++ [.queue name (b.next, msg)] := rfl
    rw [hlog, sent_append]
    exact List.append_nil _
  unfold service_dispatch
  dsimp only
  refine (dispatch_offers (h.linked.arrive harrive) (h.agree.arrive harrive) name now ?_).imp
    fun b' hb' => hb'.congr hsent
  rw [service_push, if_pos rfl]
  rcases h.conserving name with hrequests | hwaiting
  · exact .inl (by rw [hrequests]; exact le_rfl)
  · exact .inr (by rw [hwaiting]; exact Nat.zero_le 1)

/-! ## What an event sends -/

theorem worker_delete_offers (hw : b.workers.find? wrk = some w) (disconnect : Bool) :
    Ends (fun _ => True) (Offers now b) (b.worker_delete wrk disconnect) :=
  (worker_delete_ends (· = wrk) hw (.inl rfl) disconnect).mono (fun _ _ => trivial)
    fun _ hb' => hb'.1.offers

theorem processReady_offers {worker_ready : Bool} (h : Ordered b)
    (hsession : Session b worker_ready wrk w) (sender : String) (msg : ZMsg) (clock now : Int) :
    Ends (fun _ => True) (Offers now b)
      (b.processReady sender worker_ready wrk msg clock now) := by
  unfold processReady
  split_ifs with hready hreserved
  · exact worker_delete_offers hsession.find true
  · exact worker_delete_offers hsession.find true
  · cases msg with
    | nil => trivial
    | cons service_name msg =>
      obtain ⟨hnone, hnew⟩ := hsession.new (Bool.eq_false_iff.2 hready)
      refine Ends.bind ((service_require_ends (· = wrk) b (cStr service_name)).mono
        (fun _ _ => trivial) fun _ h => h) fun b₁ ⟨hquiets, hservice, hworkers, hwaiting⟩ => ?_
      have hw : b₁.workers.find? wrk = some w := hworkers ▸ hsession.find
      rw [deref_eq hw]
      let w' : BrokerWorker := { w with m_service := some (cStr service_name) }
      have hattached : Quiets (· = wrk) b (b₁.setWorker wrk w') :=
        hquiets.tail (.attach b₁ wrk w (cStr service_name) hw rfl hnone hservice)
      have hw' : (b₁.setWorker wrk w').workers.find? wrk = some w' :=
        SortedMap.find?_set_self _ _ _
      have hnew' : wrk ∉ (b₁.setWorker wrk w').m_waiting.elems := hwaiting.symm ▸ hnew
      exact (worker_waiting_offers (h.quiets hattached) hw' rfl hnew' clock now).mono
        (fun _ _ => trivial) fun b' hb' => hb'.congr hattached.sent

theorem processReply_offers {worker_ready : Bool} (h : Ordered b)
    (hsession : Session b worker_ready wrk w)
    (hnew : wrk ∉ b.m_waiting.elems) (msg : ZMsg) (clock now : Int) :
    Ends (fun _ => True) (Offers now b) (b.processReply worker_ready wrk msg clock now) := by
  unfold processReply
  split_ifs with hready
  · cases msg.unwrap with
    | none => trivial
    | some unwrapped =>
      obtain ⟨client, msg⟩ := unwrapped
      dsimp only
      rw [deref_eq hsession.find]
      dsimp only [bind, Except.bind]
      cases hname : w.m_service with
      | none => trivial
      | some name =>
        let frames := (msg.wrap k_mdp_client name).wrap client ""
        have hsend : Quiets (· = wrk) b (b.send (.toClient frames)) := .single (.toClient b frames)
        exact (worker_waiting_offers (h.quiets hsend) hsession.find hname hnew clock now).mono
          (fun _ _ => trivial) fun b' hb' => hb'.congr hsend.sent
  · exact worker_delete_offers hsession.find true

theorem worker_process_offers {sender : String} {b₀ : BrokerState} (h : Ordered b₀)
    (hentered : Entered b sender b₀ wrk w) (hrequire : b.worker_require sender = .ok (b₀, wrk))
    (command : String) (msg : ZMsg) (hidle : ¬ b.IdleReply sender (cStr command))
    (clock now : Int) :
    Ends (fun _ => True) (Offers now b₀) (b.worker_process sender (command :: msg) clock now) := by
  have hsession := hentered.session
  rw [worker_process_eq hrequire]
  split_ifs with hready hoccupied hreply hheartbeat hdisconnect
  · exact processReady_offers h hsession sender msg clock now
  · exact (processOccupied_ends (· = wrk) h.linked msg).mono (fun _ _ => trivial)
      fun _ hb' => hb'.1.offers
  · refine processReply_offers h hsession (fun hwrk => ?_) msg clock now
    -- a worker just made does not wait, and a known one may reply only while it does not
    rcases hentered.required with ⟨rfl, hknown⟩ | ⟨rfl, hnone⟩
    · exact hidle ⟨hreply, wrk, hknown, hwrk⟩
    · exact (hsession.new (by rw [hnone]; rfl)).2 hwrk
  · unfold processHeartbeat
    split_ifs
    · rw [deref_eq hsession.find]
      exact .inl rfl
    · exact worker_delete_offers hsession.find true
  · exact worker_delete_offers hsession.find false
  · exact .inl rfl

theorem client_process_offers (h : Ordered b) (sender : String) (msg : ZMsg) (now : Int) :
    Ends (fun _ => True) (Offers now b) (b.client_process sender msg now) := by
  unfold client_process
  split
  · rename_i service_name body rest
    by_cases hheartbeat : cStr service_name = "HEARTBEAT"
    · dsimp only
      rw [if_pos hheartbeat]
      exact .inl rfl
    · dsimp only
      rw [if_neg hheartbeat]
      refine Ends.bind ((service_require_ends (fun _ => False) b (cStr service_name)).mono
        (fun _ _ => trivial) fun _ h => h) fun b₁ ⟨hquiets, _⟩ => ?_
      split_ifs with hreserved
      · exact hquiets.offers
      · exact (push_offers (h.quiets hquiets) (cStr service_name) _ now).mono (fun _ _ => trivial)
          fun b' hb' => hb'.congr hquiets.sent
  · trivial

theorem Ordered.required (h : Ordered b) {b₀ : BrokerState} (hrequired : Required b b₀) :
    Ordered b₀ := by
  refine ⟨hrequired.linked h.linked, ?_, fun name => ?_⟩
  · cases hrequired with
    | known => exact h.agree
    | register => exact h.agree.congr rfl fun _ => rfl
  · exact hrequired.silent.conserving (h.conserving name)

/-- An event sends at most one request, and by a clock that it has read. -/
theorem step_offers (h : Ordered b) (hbusy : b.RepliesBusy event)
    (hstep : b.step event = .ok b') :
    sent b'.log = sent b.log ∨ ∃ now, event.reading = some now ∧ Offers now b b' := by
  suffices hends : Ends (fun _ => True) (fun b' => sent b'.log = sent b.log ∨
      ∃ now, event.reading = some now ∧ Offers now b b') (b.step event) from hends.of_ok hstep
  cases event with
  | client frames now =>
    unfold step
    dsimp only
    split
    · split_ifs
      · exact (client_process_offers h _ _ now).imp fun b' hb' => .inr ⟨now, rfl, hb'⟩
      · exact .inl rfl
    · trivial
  | worker frames clock now =>
    unfold step
    dsimp only
    split
    · rename_i sender empty header msg
      split_ifs with hheader
      · cases msg with
        | nil => trivial
        | cons command msg =>
          have hmessage : (Event.worker (sender :: empty :: header :: command :: msg) clock
              now).message = some (cStr sender, cStr command, msg) := if_pos hheader
          by_cases hsender : cStr sender = ""
          · have hrequire : b.worker_require (cStr sender) = .error .assertion := if_pos hsender
            unfold worker_process
            dsimp only
            rw [hrequire]
            trivial
          obtain ⟨b₀, wrk, w, hrequire, hentered⟩ :=
            worker_require_entered h.linked hsender (ZMsg.cStr_cStr sender)
          have hsent : Ordered b₀ ∧ sent b₀.log = sent b.log := by
            rcases hentered.required with ⟨rfl, -⟩ | ⟨rfl, hnone⟩
            · exact ⟨h, rfl⟩
            · exact
                ⟨h.required (.register (cStr sender) hsender (ZMsg.cStr_cStr sender) hnone), rfl⟩
          exact (worker_process_offers hsent.1 hentered hrequire command msg
            (hbusy _ _ _ hmessage) clock now).imp fun b' hb' => .inr ⟨now, rfl, hb'.congr hsent.2⟩
      · exact .inl rfl
    · trivial
  | heartbeat now =>
    unfold step
    refine Ends.bind ((purge_workers_purged h.linked now).mono (fun _ _ => trivial) fun _ h => h)
      fun b₁ ⟨hlinked, hpurged⟩ => ?_
    refine (sendHeartbeats_ends fun wrk hwrk => hlinked.waiting hwrk).mono (fun _ _ => trivial)
      fun b' (hb' : Quiets (fun _ => False) b₁ b') => .inl ?_
    rw [hb'.sent, hpurged.log]
  | clientHeartbeat =>
    unfold step
    dsimp only
    split_ifs
    · exact .inl rfl
    · have hquiets := @clientHeartbeats_quiets (fun _ => False) b b.m_client_senders.elems
      exact .inl hquiets.sent

/-- No REPLY of a waiting worker is among the events. -/
def AllBusy (events : List Event) : Prop :=
  ∀ past event future b, events = past ++ event :: future → run past = .ok b → b.RepliesBusy event

theorem AllBusy.of_commands {events : List Event}
    (h : ∀ event ∈ events, ∀ sender command msg, event.message = some (sender, command, msg) →
      command ≠ k_mdpw_reply) : AllBusy events := by
  rintro past event future b rfl - sender command msg hmessage ⟨hreply, -⟩
  exact h event (List.mem_append_right _ List.mem_cons_self) sender command msg hmessage hreply

theorem AllBusy.past {past : List Event} (h : AllBusy (past ++ [event])) : AllBusy past :=
  fun before event' between b heq hrun =>
    h before event' (between ++ [event]) b (by rw [heq, List.append_assoc]; rfl) hrun

theorem run_ordered {events : List Event} (h : run events = .ok b) (hbusy : AllBusy events) :
    Ordered b := by
  refine ⟨run_linked h, ?_, (run_accounted h).2⟩
  induction events using List.reverseRecOn generalizing b with
  | nil =>
    cases h
    exact ⟨nofun, nofun, fun _ => .nil⟩
  | append_singleton past event ih =>
    obtain ⟨b₁, hpast, hstep⟩ := run_concat.1 h
    have hlinked : Linked b₁ := run_linked hpast
    obtain ⟨b₀, who, hrequired, -, hhandled⟩ :=
      ((step_ends False hlinked event (.inr (hbusy past event [] b₁ rfl hpast))).of_ok hstep).1
    have hagree₀ : Agree b₀ := by
      cases hrequired with
      | known => exact ih hpast hbusy.past
      | register => exact (ih hpast hbusy.past).congr rfl fun _ => rfl
    exact hagree₀.handled (hrequired.linked hlinked) hhandled

/-- **A request goes to the worker heard from last.** As long as no waiting worker sends a REPLY,
an event sends at most one REQUEST, to a worker of the service that was heard from in time and no
earlier than any that goes on waiting for the service. -/
theorem request_to_latest {events : List Event} (h : run events = .ok b)
    (hbusy : AllBusy (events ++ [event])) (hstep : b.step event = .ok b') :
    sent b'.log = sent b.log ∨ ∃ now wrk w name request clock, event.reading = some now ∧
      sent b'.log = sent b.log ++ [(name, request)] ∧
      .request name request (worker_send w k_mdpw_request "" request.2) ∈ b'.log ∧
      b'.workers.find? wrk = some w ∧ w.m_service = some name ∧ wrk ∉ b'.m_waiting.elems ∧
      lastHeard w.m_identity (events ++ [event]) = some clock ∧
      now < clock + n_heartbeat_expiry ∧
      ∀ x ∈ (b'.service name).m_waiting, ∃ v earlier, b'.workers.find? x = some v ∧
        lastHeard v.m_identity (events ++ [event]) = some earlier ∧ earlier ≤ clock := by
  have hordered : Ordered b := run_ordered h hbusy.past
  have hrun : run (events ++ [event]) = .ok b' := run_concat.2 ⟨b, h, hstep⟩
  have hontime : ∀ {x v name}, b'.workers.find? x = some v → v.m_service = some name →
      OnTime (events ++ [event]) v := fun hv hname =>
    expiry_heard hrun hv fun hnone => by rw [hname] at hnone; cases hnone
  rcases step_offers hordered (hbusy events event [] b rfl h) hstep with heq | ⟨now, hreading, heq |
    ⟨wrk, w, name, request, hoffer⟩⟩
  · exact .inl heq
  · exact .inl heq
  · obtain ⟨clock, hlast, hexpiry⟩ := hontime hoffer.find hoffer.served
    refine .inr ⟨now, wrk, w, name, request, clock, hreading, hoffer.sent, hoffer.framed,
      hoffer.find, hoffer.served, hoffer.idle, hlast, hexpiry ▸ hoffer.inTime, fun x hx => ?_⟩
    obtain ⟨v, hv, hserved⟩ := (step_linked hordered.linked hstep).listed hx
    obtain ⟨earlier, hearlier, hexpiry'⟩ := hontime hv hserved
    have hle := hoffer.latest x hx v hv
    exact ⟨v, earlier, hv, hearlier, by omega⟩

theorem request_to_latest_two :
    ∃ b b', run [fromWorker "w1" k_mdpw_ready ["lists"] 0 0,
        fromWorker "w2" k_mdpw_ready ["lists"] 100 100] = .ok b ∧
      b.step (.client ["c1", "", k_mdp_client, "lists", "GET_LIST", "url"] 300) = .ok b' ∧
      ∃ wrk w name request clock, sent b'.log = [(name, request)] ∧
        b'.workers.find? wrk = some w ∧ w.m_service = some name ∧
        lastHeard w.m_identity [fromWorker "w1" k_mdpw_ready ["lists"] 0 0,
          fromWorker "w2" k_mdpw_ready ["lists"] 100 100,
          .client ["c1", "", k_mdp_client, "lists", "GET_LIST", "url"] 300] = some clock ∧
        300 < clock + n_heartbeat_expiry := by
  obtain ⟨b, b', hrun, hstep, hbefore, hafter⟩ : ∃ b b',
      run [fromWorker "w1" k_mdpw_ready ["lists"] 0 0,
        fromWorker "w2" k_mdpw_ready ["lists"] 100 100] = .ok b ∧
      b.step (.client ["c1", "", k_mdp_client, "lists", "GET_LIST", "url"] 300) = .ok b' ∧
      sent b.log = [] ∧ sent b'.log ≠ [] := ⟨_, _, rfl, rfl, by decide, by decide⟩
  have hbusy : AllBusy ([fromWorker "w1" k_mdpw_ready ["lists"] 0 0,
      fromWorker "w2" k_mdpw_ready ["lists"] 100 100] ++
      [.client ["c1", "", k_mdp_client, "lists", "GET_LIST", "url"] 300]) := by
    refine .of_commands fun event hevent sender command msg hmessage => ?_
    simp only [List.cons_append, List.nil_append, List.mem_cons, List.not_mem_nil, or_false]
      at hevent
    rcases hevent with rfl | rfl | rfl <;> cases hmessage <;> decide
  rcases request_to_latest hrun hbusy hstep with heq | ⟨now, wrk, w, name, request, clock, hreading,
    hsent, -, hw, hserved, -, hlast, hin, -⟩
  · exact absurd (heq.trans hbefore) hafter
  · cases hreading
    rw [hbefore] at hsent
    exact ⟨b, b', hrun, hstep, wrk, w, name, request, clock, hsent, hw, hserved, hlast, hin⟩

end BrokerState

end ShoppingApp
