import ShoppingApp.System.BrokerWorkers
import Mathlib.Data.List.Nodup

/-!
# The requests of the broker

Over whole runs of the broker: the requests handed to a service are, in order, those that have been
sent to workers and those that still wait, and none waits beside a worker of its service.
-/

namespace ShoppingApp

open Replication (Run)

namespace BrokerState

variable {b b' : BrokerState} {wrk : ℕ} {w : BrokerWorker} {name : String} {again : Prop}
  {who : ℕ → Prop}

/-- The requests handed to services. -/
def handed (log : List BrokerAct) : List (String × ℕ × ZMsg) :=
  log.filterMap fun
    | .queue name request => some (name, request)
    | _ => none

/-- The requests sent to workers. -/
def sent (log : List BrokerAct) : List (String × ℕ × ZMsg) :=
  log.filterMap fun
    | .request name request _ => some (name, request)
    | _ => none

def ofService (name : String) (requests : List (String × ℕ × ZMsg)) : List (ℕ × ZMsg) :=
  (requests.filter (·.1 = name)).map Prod.snd

/-- A REQUEST for the request with number `n`. -/
def sends (n : ℕ) : BrokerAct → Bool
  | .request _ request _ => request.1 = n
  | _ => false

/-- Neither a request handed to a service nor one sent to a worker. -/
def silent : BrokerAct → Bool
  | .queue .. => false
  | .request .. => false
  | _ => true

theorem handed_append (log acts : List BrokerAct) :
    handed (log ++ acts) = handed log ++ handed acts := List.filterMap_append

theorem sent_append (log acts : List BrokerAct) : sent (log ++ acts) = sent log ++ sent acts :=
  List.filterMap_append

theorem ofService_append (name : String) (requests more : List (String × ℕ × ZMsg)) :
    ofService name (requests ++ more) = ofService name requests ++ ofService name more := by
  rw [ofService, List.filter_append, List.map_append]
  rfl

theorem ofService_singleton (name name' : String) (request : ℕ × ZMsg) :
    ofService name [(name', request)] = if name' = name then [request] else [] := by
  unfold ofService
  split_ifs with hname
  · simp [hname]
  · simp [hname]

theorem count_ofService (name : String) (request : ℕ × ZMsg)
    (requests : List (String × ℕ × ZMsg)) :
    (ofService name requests).count request = requests.count (name, request) := by
  induction requests with
  | nil => rfl
  | cons e requests ih =>
    obtain ⟨name', request'⟩ := e
    have hcons : (name', request') :: requests = [(name', request')] ++ requests := rfl
    rw [hcons, ofService_append, ofService_singleton, List.count_append, List.count_append, ih]
    congr 1
    split_ifs with hname
    · simp [List.count_cons, hname]
    · simp [hname]

theorem mem_ofService {requests : List (String × ℕ × ZMsg)} {request : ℕ × ZMsg} :
    request ∈ ofService name requests ↔ (name, request) ∈ requests := by
  unfold ofService
  constructor
  · intro h
    obtain ⟨⟨name', request'⟩, hmem, rfl⟩ := List.mem_map.1 h
    obtain ⟨hmem, hname⟩ := List.mem_filter.1 hmem
    rw [← of_decide_eq_true hname]
    exact hmem
  · intro h
    exact List.mem_map.2 ⟨_, List.mem_filter.2 ⟨h, decide_eq_true rfl⟩, rfl⟩

theorem handed_silent {acts : List BrokerAct} (h : ∀ act ∈ acts, silent act = true) :
    handed acts = [] := by
  refine List.filterMap_eq_nil_iff.2 fun act hact => ?_
  have hsilent := h act hact
  cases act with
  | queue => cases hsilent
  | request => rfl
  | toWorker => rfl
  | toClient => rfl
  | toClientHeartbeat => rfl

theorem sent_silent {acts : List BrokerAct} (h : ∀ act ∈ acts, silent act = true) :
    sent acts = [] := by
  refine List.filterMap_eq_nil_iff.2 fun act hact => ?_
  have hsilent := h act hact
  cases act with
  | queue => rfl
  | request => cases hsilent
  | toWorker => rfl
  | toClient => rfl
  | toClientHeartbeat => rfl

theorem countP_sends (n : ℕ) (log : List BrokerAct) :
    log.countP (sends n) = (sent log).countP (·.2.1 = n) := by
  unfold sent
  rw [List.countP_filterMap]
  refine List.countP_congr fun act _ => ?_
  cases act <;> rfl

/-! ## Changes that no request notices -/

/-- The requests stay where they are, and waiting workers may leave. -/
structure Silent (b b' : BrokerState) : Prop where
  log : ∃ acts, b'.log = b.log ++ acts ∧ ∀ act ∈ acts, silent act = true
  next : b.next ≤ b'.next
  requests : ∀ name, (b'.service name).m_requests = (b.service name).m_requests
  waiting : ∀ name, (b'.service name).m_waiting.Sublist (b.service name).m_waiting

theorem Silent.of_eq (hlog : b'.log = b.log) (hnext : b.next ≤ b'.next)
    (hservice : ∀ name, b'.service name = b.service name) : Silent b b' where
  log := ⟨[], by rw [hlog, List.append_nil], nofun⟩
  next := hnext
  requests name := by rw [hservice]
  waiting name := by rw [hservice]

theorem Silent.send {act : BrokerAct} (hact : silent act = true) : Silent b (b.send act) where
  log := ⟨[act], rfl, fun _ hx => List.mem_singleton.1 hx ▸ hact⟩
  next := le_rfl
  requests _ := rfl
  waiting _ := List.Sublist.refl _

theorem Quiet.silent (h : Quiet who b b') : Silent b b' := by
  cases h with
  | addService name hname => exact .of_eq rfl le_rfl fun name' => service_addService hname name'
  | erase wrk w hw =>
    refine ⟨⟨[], ?_, nofun⟩, (erase_next b wrk w).ge, fun name => ?_, fun name => ?_⟩
    · rw [erase_log, List.append_nil]
    · rw [service_erase]
      split_ifs <;> rfl
    · exact erase_waiting_sublist b wrk w name
  | attach => exact .of_eq rfl le_rfl fun _ => rfl
  | touch => exact .of_eq rfl le_rfl fun _ => rfl
  | unlist wrk w name =>
    refine ⟨⟨[], (List.append_nil _).symm, nofun⟩, le_rfl, fun name' => ?_, fun name' => ?_⟩
    · rw [service_unlist]
      split_ifs with heq
      · rw [heq]
      · rfl
    · exact unlist_waiting_sublist _ wrk name name'
  | toWorker => exact .send rfl
  | toClient => exact .send rfl
  | toClientHeartbeat => exact .send rfl
  | client => exact .of_eq rfl le_rfl fun _ => rfl

theorem Required.silent (h : Required b b') : Silent b b' := by
  cases h with
  | known => exact .of_eq rfl le_rfl fun _ => rfl
  | register => exact .of_eq rfl (Nat.le_succ _) fun _ => rfl

/-! ## Accounts of requests -/

/-- The requests handed to a service are those sent and those that wait, all of them different, and
every REQUEST is for a request and a worker of the service. -/
structure Accounted (b : BrokerState) : Prop where
  queue : ∀ name, ofService name (handed b.log) =
    ofService name (sent b.log) ++ (b.service name).m_requests
  nodup : ((handed b.log).map (·.2.1)).Nodup
  fresh : ∀ e ∈ handed b.log, e.2.1 < b.next
  framed : ∀ name request frames, .request name request frames ∈ b.log →
    ∃ w, w.m_service = some name ∧ frames = worker_send w k_mdpw_request "" request.2

namespace Accounted

theorem silent (h : Accounted b) {acts : List BrokerAct} (hlog : b'.log = b.log ++ acts)
    (hsilent : ∀ act ∈ acts, BrokerState.silent act = true) (hnext : b.next ≤ b'.next)
    (hrequests : ∀ name, (b'.service name).m_requests = (b.service name).m_requests) :
    Accounted b' := by
  have hhanded : handed b'.log = handed b.log := by
    rw [hlog, handed_append, handed_silent hsilent, List.append_nil]
  have hsent : sent b'.log = sent b.log := by
    rw [hlog, sent_append, sent_silent hsilent, List.append_nil]
  constructor
  · intro name
    rw [hhanded, hsent, hrequests]
    exact h.queue name
  · rw [hhanded]
    exact h.nodup
  · rw [hhanded]
    exact fun e he => (h.fresh e he).trans_le hnext
  · intro name request frames hmem
    rw [hlog] at hmem
    rcases List.mem_append.1 hmem with hmem | hmem
    · exact h.framed name request frames hmem
    · exact nomatch hsilent _ hmem

theorem of_silent (h : Accounted b) (hsilent : Silent b b') : Accounted b' := by
  obtain ⟨acts, hlog, hacts⟩ := hsilent.log
  exact h.silent hlog hacts hsilent.next hsilent.requests

theorem arrive (h : Accounted b) (harrive : Arrive again who name b b') : Accounted b' := by
  cases harrive with
  | enlist wrk w clock =>
    refine h.silent (List.append_nil _).symm (fun _ hx => nomatch hx) le_rfl fun name' => ?_
    rw [service_enlist]
    split_ifs with heq
    · rw [heq]
    · rfl
  | push msg =>
    have hlog : (b.push name msg).log = b.log ++ [.queue name (b.next, msg)] := rfl
    have hhanded : handed (b.push name msg).log = handed b.log ++ [(name, b.next, msg)] := by
      rw [hlog, handed_append]
      rfl
    have hsent : sent (b.push name msg).log = sent b.log := by
      rw [hlog, sent_append]
      exact List.append_nil _
    constructor
    · intro name'
      rw [hhanded, hsent, ofService_append, ofService_singleton, service_push, h.queue name']
      split_ifs with hname hname' hname'
      · rw [List.append_assoc, hname']
      · exact absurd hname.symm hname'
      · exact absurd hname'.symm hname
      · exact List.append_nil _
    · rw [hhanded, List.map_append]
      refine h.nodup.append (List.nodup_singleton _) ?_
      rw [List.map_singleton, List.disjoint_singleton]
      intro hmem
      obtain ⟨e, he, heq⟩ := List.mem_map.1 hmem
      exact (h.fresh e he).ne heq
    · intro e he
      rw [hhanded] at he
      rcases List.mem_append.1 he with he | he
      · exact (h.fresh e he).trans (Nat.lt_succ_self _)
      · rw [List.mem_singleton.1 he]
        exact Nat.lt_succ_self _
    · intro name' request frames hmem
      rw [hlog] at hmem
      rcases List.mem_append.1 hmem with hmem | hmem
      · exact h.framed name' request frames hmem
      · cases List.mem_singleton.1 hmem

theorem assign (h : Accounted b) (hlinked : Linked b) (hassign : Assign name b b') :
    Accounted b' := by
  cases hassign with
  | assign wrk w request requests hw hwaiting hrequests =>
    have hname : w.m_service = some name := by
      obtain ⟨v, hv, hname⟩ := hlinked.listed hwaiting
      rw [hw, Option.some.injEq] at hv
      exact hv ▸ hname
    have hlog : (b.assign name wrk w request requests).log = b.log ++
        [.request name request (worker_send w k_mdpw_request "" request.2)] := rfl
    have hhanded : handed (b.assign name wrk w request requests).log = handed b.log := by
      rw [hlog, handed_append]
      exact List.append_nil _
    have hsent : sent (b.assign name wrk w request requests).log =
        sent b.log ++ [(name, request)] := by
      rw [hlog, sent_append]
      rfl
    constructor
    · intro name'
      rw [hhanded, hsent, ofService_append, ofService_singleton, service_assign, h.queue name']
      split_ifs with hname hname' hname'
      · rw [← hname, hrequests, List.append_assoc]
        rfl
      · exact absurd hname.symm hname'
      · exact absurd hname'.symm hname
      · rw [List.append_nil]
    · rw [hhanded]
      exact h.nodup
    · rw [hhanded]
      exact h.fresh
    · intro name' request' frames hmem
      rw [hlog] at hmem
      rcases List.mem_append.1 hmem with hmem | hmem
      · exact h.framed name' request' frames hmem
      · cases List.mem_singleton.1 hmem
        exact ⟨w, hname, rfl⟩

theorem handled (h : Accounted b) (hlinked : Linked b) (hhandled : Handled again who b b') :
    Accounted b' := by
  refine (hhandled.keeps (fun b₁ => Linked b₁ ∧ Accounted b₁) ?_ ?_ ?_ ⟨hlinked, h⟩).2
  · exact fun _ _ ⟨hlinked, h⟩ hquiet => ⟨hlinked.quiet hquiet, h.of_silent hquiet.silent⟩
  · exact fun _ _ _ ⟨hlinked, h⟩ harrive => ⟨hlinked.arrive harrive, h.arrive harrive⟩
  · exact fun _ _ _ ⟨hlinked, h⟩ hassign => ⟨hlinked.assigned hassign, h.assign hlinked hassign⟩

theorem sent_subset (h : Accounted b) : ∀ e ∈ sent b.log, e ∈ handed b.log := by
  rintro ⟨name, request⟩ he
  rw [← mem_ofService] at he ⊢
  rw [h.queue name]
  exact List.mem_append_left _ he

/-- The number of a request tells which it is. -/
theorem request_eq (h : Accounted b) {name' : String} {n : ℕ} {msg msg' frames : ZMsg}
    (hqueue : .queue name (n, msg) ∈ b.log) (hrequest : .request name' (n, msg') frames ∈ b.log) :
    name' = name ∧ msg' = msg := by
  have hhanded : (name, n, msg) ∈ handed b.log := List.mem_filterMap.2 ⟨_, hqueue, rfl⟩
  have hsent : (name', n, msg') ∈ sent b.log := List.mem_filterMap.2 ⟨_, hrequest, rfl⟩
  have heq := List.inj_on_of_nodup_map h.nodup (h.sent_subset _ hsent) hhanded rfl
  rw [Prod.mk.injEq, Prod.mk.injEq] at heq
  exact ⟨heq.1, heq.2.2⟩

/-- Each request handed to a service waits once, or has been sent once. -/
theorem once (h : Accounted b) {request : ℕ × ZMsg} (hmem : (name, request) ∈ handed b.log) :
    (b.service name).m_requests.count request + b.log.countP (sends request.1) = 1 := by
  -- A REQUEST for this number is one for this request and service.
  have hsent : ∀ e ∈ sent b.log, e.2.1 = request.1 ↔ e = (name, request) := by
    intro e he
    refine ⟨fun heq => ?_, fun heq => by rw [heq]⟩
    exact List.inj_on_of_nodup_map h.nodup (h.sent_subset e he) hmem heq
  have hcount : b.log.countP (sends request.1) = (ofService name (sent b.log)).count request := by
    rw [countP_sends, count_ofService]
    exact List.countP_congr fun e he => by simpa using hsent e he
  have hqueued : (ofService name (handed b.log)).count request = 1 := by
    rw [count_ofService]
    exact List.count_eq_one_of_mem h.nodup.of_map hmem
  rw [h.queue name, List.count_append] at hqueued
  omega

end Accounted

/-! ## No work beside an idle worker -/

theorem Silent.conserving (h : Silent b b') (hconserving : Conserving b name) :
    Conserving b' name := by
  rcases hconserving with hrequests | hwaiting
  · exact .inl (by rw [h.requests]; exact hrequests)
  · exact .inr (List.sublist_nil.1 (hwaiting ▸ h.waiting name))

theorem Quiets.conserving (h : Quiets who b b') (hconserving : Conserving b name) :
    Conserving b' name :=
  Run.invariant (Conserving · name) hconserving (fun _ _ hb₁ hquiet => hquiet.silent.conserving hb₁)
    h

theorem Arrive.service_ne (h : Arrive again who name b b') {name' : String} (hne : name' ≠ name) :
    b'.service name' = b.service name' := by
  cases h with
  | enlist => rw [service_enlist, if_neg hne]
  | push => rw [service_push, if_neg hne]

theorem Assigns.service_ne (h : Assigns name b b') {name' : String} (hne : name' ≠ name) :
    b'.service name' = b.service name' := by
  refine Run.invariant (fun b₁ => b₁.service name' = b.service name') rfl ?_ h
  intro b₁ b₂ hb₁ hassign
  cases hassign with
  | assign => rw [service_assign, if_neg hne, hb₁]

/-- An event that lets something arrive at a service dispatches it, and leaves the others as they
were. -/
theorem Handled.conserving (h : Handled again who b b') (hconserving : ∀ name, Conserving b name) :
    ∀ name, Conserving b' name := by
  intro name'
  cases h with
  | quiet hquiets => exact hquiets.conserving (hconserving name')
  | @dispatch b₂ b₃ _ name hquiets harrive hdispatch =>
    obtain ⟨b₁, hquiets', hassigns, hdone⟩ := hdispatch
    by_cases hne : name' = name
    · rw [hne]
      exact hdone
    · have harrived : Conserving b₃ name' := by
        unfold Conserving
        rw [harrive.service_ne hne]
        exact hquiets.conserving (hconserving name')
      unfold Conserving
      rw [hassigns.service_ne hne]
      exact hquiets'.conserving harrived

/-! ## Runs -/

/-- What has been done stays done. -/
theorem Handled.log (h : Handled again who b b') : b.log <+: b'.log := by
  refine h.keeps (fun b₁ => b.log <+: b₁.log) ?_ ?_ ?_ List.prefix_rfl
  · intro b₁ b₂ hb₁ hquiet
    obtain ⟨acts, hlog, -⟩ := hquiet.silent.log
    exact hb₁.trans ⟨acts, hlog.symm⟩
  · intro name b₁ b₂ hb₁ harrive
    cases harrive with
    | enlist => exact hb₁
    | push => exact hb₁.trans (List.prefix_append _ _)
  · intro name b₁ b₂ hb₁ hassign
    cases hassign with
    | assign => exact hb₁.trans (List.prefix_append _ _)

theorem step_log (hlinked : Linked b) {event : Event} (hstep : b.step event = .ok b') :
    b.log <+: b'.log := by
  obtain ⟨b₀, who, hrequired, -, hhandled⟩ := step_stepped hlinked hstep
  obtain ⟨acts, hlog, -⟩ := hrequired.silent.log
  exact (List.prefix_append _ acts).trans (hlog ▸ hhandled.log)

theorem run_log {past more : List Event} {b₀ : BrokerState} (hpast : run past = .ok b₀)
    (hrun : run (past ++ more) = .ok b) : b₀.log <+: b.log := by
  unfold run at hpast hrun
  rw [List.foldlM_append, hpast] at hrun
  refine (run_keeps (fun b₁ => b₀.log <+: b₁.log) ?_ (run_linked hpast) List.prefix_rfl hrun).2
  exact fun event _ b₁ b₂ hlinked hlog hstep => hlog.trans (step_log hlinked hstep)

theorem run_accounted {events : List Event} (h : run events = .ok b) :
    Accounted b ∧ ∀ name, Conserving b name := by
  have hnew : Accounted BrokerState.new := ⟨fun _ => rfl, List.nodup_nil, nofun, nofun⟩
  refine (run_keeps (fun b₁ => Accounted b₁ ∧ ∀ name, Conserving b₁ name) ?_ Linked.new
    ⟨hnew, fun _ => .inl rfl⟩ h).2
  rintro event - b₁ b₂ hlinked ⟨haccounted, hconserving⟩ hstep
  obtain ⟨b₀, who, hrequired, -, hhandled⟩ := step_stepped hlinked hstep
  have hconserving₀ : ∀ name, Conserving b₀ name :=
    fun name => hrequired.silent.conserving (hconserving name)
  exact ⟨(haccounted.of_silent hrequired.silent).handled (hrequired.linked hlinked) hhandled,
    hhandled.conserving hconserving₀⟩

/-- A request handed to a service waits there or has been sent to one worker, once and for all that
comes later; those of a service are sent in order; and none waits beside an idle worker. -/
theorem requests_once {past more : List Event} {b₀ : BrokerState} (hpast : run past = .ok b₀)
    (hrun : run (past ++ more) = .ok b) :
    (∀ name request, .queue name request ∈ b₀.log →
      (b.service name).m_requests.count request + b.log.countP (sends request.1) = 1) ∧
    (∀ name, ofService name (handed b.log) =
      ofService name (sent b.log) ++ (b.service name).m_requests) ∧
    (∀ name request frames, .request name request frames ∈ b.log →
      ∃ w, w.m_service = some name ∧ frames = worker_send w k_mdpw_request "" request.2) ∧
    ∀ name, (b.service name).m_requests = [] ∨ (b.service name).m_waiting = [] := by
  obtain ⟨haccounted, hconserving⟩ := run_accounted hrun
  refine ⟨fun name request hmem => ?_, haccounted.queue, haccounted.framed, hconserving⟩
  have hlog : .queue name request ∈ b.log := (run_log hpast hrun).subset hmem
  exact haccounted.once (List.mem_filterMap.2 ⟨_, hlog, rfl⟩)

/-- Two requests come before a worker, which is sent the first, and the second once it replies. -/
theorem requests_once_waiting :
    ∃ b, run [.client ["c1", "", k_mdp_client, "lists", "GET_LIST", "url"] 0,
        .client ["c2", "", k_mdp_client, "lists", "GET_LIST", "url"] 0,
        .worker ["w1", "", k_mdpw_worker, k_mdpw_ready, "lists"] 0 0] = .ok b ∧
      (b.service "lists").m_requests = [(1, ["c2", "", "GET_LIST", "url"])] ∧
      b.log.countP (sends 0) = 1 ∧ b.log.countP (sends 1) = 0 ∧
      ∀ name, (b.service name).m_requests = [] ∨ (b.service name).m_waiting = [] := by
  have hpast : run [.client ["c1", "", k_mdp_client, "lists", "GET_LIST", "url"] 0,
      .client ["c2", "", k_mdp_client, "lists", "GET_LIST", "url"] 0] = .ok _ := rfl
  have hrun : run ([.client ["c1", "", k_mdp_client, "lists", "GET_LIST", "url"] 0,
      .client ["c2", "", k_mdp_client, "lists", "GET_LIST", "url"] 0] ++
      [.worker ["w1", "", k_mdpw_worker, k_mdpw_ready, "lists"] 0 0]) = .ok _ := rfl
  exact ⟨_, hrun, by decide, by decide, by decide, (requests_once hpast hrun).2.2.2⟩

end BrokerState

end ShoppingApp
