import ShoppingApp.Verify.CloudMode
import ShoppingApp.System.MainLoop

/-!
# What cloud mode says about the broker

The broker's main loop and its clients, with the heartbeats between them. Only the loop's heartbeats
to clients are such messages (`step_beats`, `round_beats`), and only a HEARTBEAT of a client brings
its name to the broker. So a client in cloud mode has sent a HEARTBEAT that came to the broker, and
a worker was waiting there when it answered, not long ago (`cloud_mode_recent`).
-/

namespace ShoppingApp

open Replication (Run)

namespace BrokerState

variable {b b' : BrokerState} {event : Event}

/-- The heartbeats to clients among what the broker has sent. -/
def beats (log : List BrokerAct) : List ZMsg :=
  log.filterMap fun act =>
    match act with
    | .toClientHeartbeat frames => some frames
    | _ => none

theorem beats_append (log acts : List BrokerAct) : beats (log ++ acts) = beats log ++ beats acts :=
  List.filterMap_append

/-- Nothing happens that has to do with heartbeats to clients. -/
structure Aside (b b' : BrokerState) : Prop where
  beats : beats b'.log = beats b.log
  senders : b'.m_client_senders = b.m_client_senders

namespace Aside

theorem refl (b : BrokerState) : Aside b b := ⟨rfl, rfl⟩

theorem trans {b'' : BrokerState} (h : Aside b b') (h' : Aside b' b'') : Aside b b'' :=
  ⟨h'.beats.trans h.beats, h'.senders.trans h.senders⟩

theorem send (b : BrokerState) {act : BrokerAct} (h : BrokerState.beats [act] = []) :
    Aside b (b.send act) :=
  ⟨by rw [BrokerState.send, beats_append, h, List.append_nil], rfl⟩

theorem erase (b : BrokerState) (wrk : ℕ) (w : BrokerWorker) : Aside b (b.erase wrk w) := by
  unfold BrokerState.erase
  cases w.m_service <;> exact ⟨rfl, rfl⟩

theorem push (b : BrokerState) (name : String) (msg : ZMsg) : Aside b (b.push name msg) :=
  ⟨(beats_append b.log _).trans (List.append_nil _), rfl⟩

theorem assign (b : BrokerState) (name : String) (wrk : ℕ) (w : BrokerWorker)
    (request : ℕ × ZMsg) (requests : List (ℕ × ZMsg)) :
    Aside b (b.assign name wrk w request requests) :=
  ⟨(beats_append b.log _).trans (List.append_nil _), rfl⟩

end Aside

/-! ## What the broker does aside -/

/-- Unless it fails, a computation has nothing to do with heartbeats to clients. -/
abbrev EndsAside (b : BrokerState) (x : Except BrokerFault BrokerState) : Prop :=
  Ends (fun _ => True) (Aside b) x

theorem ends_any {α : Type} (x : Except BrokerFault α) :
    Ends (fun _ => True) (fun _ => True) x := by
  cases x <;> trivial

theorem worker_delete_aside (b : BrokerState) (wrk : ℕ) (disconnect : Bool) :
    EndsAside b (b.worker_delete wrk disconnect) := by
  refine (ends_any (b.deref wrk)).bind fun w _ => ?_
  cases disconnect with
  | false => exact .erase b wrk w
  | true => exact (Aside.send b rfl).trans (.erase _ wrk w)

theorem purge_workers_aside (b : BrokerState) (now : Int) :
    EndsAside b (b.purge_workers now) := by
  refine (ends_any (b.toCull now _)).bind fun culled _ => ?_
  refine Ends.foldlM culled (fun wrk _ b₁ hb₁ => ?_) (.refl b)
  exact (b₁.worker_delete_aside wrk false).imp fun _ hb₂ => hb₁.trans hb₂

theorem service_require_aside (b : BrokerState) (name : String) :
    EndsAside b (b.service_require name) := by
  unfold service_require
  split_ifs
  · trivial
  · split
    · exact .refl b
    · exact ⟨rfl, rfl⟩

theorem dispatchLoop_aside (name : String) (fuel : ℕ) : ∀ b : BrokerState,
    EndsAside b (dispatchLoop name fuel b) := by
  induction fuel with
  | zero => exact .refl
  | succ fuel ih =>
    intro b
    unfold dispatchLoop
    split
    · refine (ends_any _).bind fun wrk _ => (ends_any _).bind fun w _ => ?_
      exact (ih _).imp fun _ hb' => (Aside.assign b name wrk w _ _).trans hb'
    · exact .refl b

theorem service_dispatch_aside (b : BrokerState) (name : String) (msg : Option ZMsg) (now : Int) :
    EndsAside b (b.service_dispatch name msg now) := by
  have hrest : ∀ b₁, Aside b b₁ → EndsAside b
      (b₁.purge_workers now >>= fun b₂ =>
        dispatchLoop name (b₂.service name).m_requests.length b₂) := fun b₁ hb₁ =>
    (b₁.purge_workers_aside now).bind fun b₂ hb₂ =>
      (dispatchLoop_aside name _ b₂).imp fun _ hb₃ => (hb₁.trans hb₂).trans hb₃
  cases msg with
  | none => exact hrest b (.refl b)
  | some msg => exact hrest _ (.push b name msg)

theorem worker_waiting_aside (b : BrokerState) (wrk : ℕ) (clock now : Int) :
    EndsAside b (b.worker_waiting wrk clock now) := by
  refine (ends_any (b.deref wrk)).bind fun w _ => ?_
  cases w.m_service with
  | none => trivial
  | some name =>
    have henlist : Aside b (b.enlist wrk w name clock) := ⟨rfl, rfl⟩
    exact (service_dispatch_aside _ name none now).imp fun _ hb' => henlist.trans hb'

theorem worker_process_aside (b : BrokerState) (sender : String) (msg : ZMsg) (clock now : Int) :
    EndsAside b (b.worker_process sender msg clock now) := by
  cases msg with
  | nil => trivial
  | cons command msg =>
    have hrequire : Ends (fun _ => True) (fun r => Aside b r.1) (b.worker_require sender) := by
      unfold worker_require
      split_ifs
      · trivial
      · split
        · exact .refl b
        · exact ⟨rfl, rfl⟩
    refine hrequire.bind fun r hr => ?_
    obtain ⟨b₀, wrk⟩ := r
    have hrest : ∀ {x}, EndsAside b₀ x → EndsAside b x :=
      fun hx => hx.imp fun _ hb' => Aside.trans hr hb'
    refine hrest ?_
    dsimp only
    split_ifs
    · unfold processReady
      split_ifs
      · exact worker_delete_aside b₀ wrk true
      · exact worker_delete_aside b₀ wrk true
      · cases msg with
        | nil => trivial
        | cons service_name msg =>
          refine (service_require_aside b₀ _).bind fun b₁ hb₁ => ?_
          refine (ends_any (b₁.deref wrk)).bind fun w _ => ?_
          refine (worker_waiting_aside _ wrk clock now).imp fun _ hb' => hb₁.trans ?_
          exact ⟨hb'.beats, hb'.senders⟩
    · unfold processOccupied
      split
      · trivial
      · split
        · trivial
        · refine (ends_any _).bind fun w _ => ?_
          cases w.m_service with
          | none => trivial
          | some name => exact ⟨rfl, rfl⟩
    · unfold processReply
      split_ifs
      · split
        · trivial
        · refine (ends_any _).bind fun w _ => ?_
          cases w.m_service with
          | none => trivial
          | some name =>
            refine (worker_waiting_aside _ wrk clock now).imp fun _ hb' => ?_
            exact (Aside.send b₀ rfl).trans hb'
      · exact worker_delete_aside b₀ wrk true
    · unfold processHeartbeat
      split_ifs
      · exact (ends_any _).bind fun w _ => ⟨rfl, rfl⟩
      · exact worker_delete_aside b₀ wrk true
    · exact worker_delete_aside b₀ wrk false
    · exact .refl b₀

/-- The message is the HEARTBEAT of a client. -/
def Announces (x : String) : ZMsg → Prop
  | sender :: _empty :: header :: service :: _body :: _ =>
    cStr sender = x ∧ cStr header = k_mdp_client ∧ cStr service = "HEARTBEAT"
  | _ => False

/-- What the broker knows of clients after a message of one. -/
theorem client_process_beats (b : BrokerState) (sender : String) (msg : ZMsg) (now : Int) :
    Ends (fun _ => True) (fun b' => beats b'.log = beats b.log ∧
      ∀ x ∈ b'.m_client_senders.elems, x ∈ b.m_client_senders.elems ∨
        sender = x ∧ ∃ service body rest, msg = service :: body :: rest ∧
          cStr service = "HEARTBEAT") (b.client_process sender msg now) := by
  have haside : ∀ {x}, EndsAside b x → Ends (fun _ => True)
      (fun b' => beats b'.log = beats b.log ∧
        ∀ x ∈ b'.m_client_senders.elems, x ∈ b.m_client_senders.elems ∨
          sender = x ∧ ∃ service body rest, msg = service :: body :: rest ∧
            cStr service = "HEARTBEAT") x := fun hx =>
    hx.imp fun _ hb' => ⟨hb'.beats, fun x hx => .inl (hb'.senders ▸ hx)⟩
  unfold client_process
  split
  · rename_i service_name body rest
    dsimp only
    split_ifs with hheartbeat hreserved
    · refine ⟨rfl, fun x hx => ?_⟩
      rcases SortedSet.mem_insert.1 hx with rfl | hx
      · exact .inr ⟨rfl, service_name, body, rest, rfl, hheartbeat⟩
      · exact .inl hx
    · exact haside ((service_require_aside b _).bind fun b₁ hb₁ => hb₁)
    · refine haside ((service_require_aside b _).bind fun b₁ hb₁ => ?_)
      exact (service_dispatch_aside b₁ _ _ now).imp fun _ hb' => hb₁.trans hb'
  · trivial

/-! ## What the broker does to its clients -/

/-- Beside the heartbeats to clients, nothing is one; only HEARTBEATs of clients bring names. -/
theorem step_beats (h : b.step event = .ok b') (hevent : event ≠ .clientHeartbeat) :
    beats b'.log = beats b.log ∧
      ∀ x ∈ b'.m_client_senders.elems, x ∈ b.m_client_senders.elems ∨
        ∃ frames now, event = .client frames now ∧ Announces x frames := by
  have haside : EndsAside b (b.step event) → beats b'.log = beats b.log ∧
      ∀ x ∈ b'.m_client_senders.elems, x ∈ b.m_client_senders.elems ∨
        ∃ frames now, event = .client frames now ∧ Announces x frames := fun hends =>
    have hb' := hends.of_ok h
    ⟨hb'.beats, fun x hx => .inl (hb'.senders ▸ hx)⟩
  cases event with
  | client frames now =>
    unfold step at h
    dsimp only at h
    split at h
    · rename_i sender empty header msg
      split_ifs at h with hheader
      · obtain ⟨hbeats, hsenders⟩ := (client_process_beats b (cStr sender) msg now).of_ok h
        refine ⟨hbeats, fun x hx => (hsenders x hx).imp_right ?_⟩
        rintro ⟨rfl, service, body, rest, rfl, hservice⟩
        exact ⟨_, now, rfl, rfl, hheader, hservice⟩
      · cases h
        exact ⟨rfl, fun x hx => .inl hx⟩
    · cases h
  | worker frames clock now =>
    refine haside ?_
    unfold step
    dsimp only
    split
    · split_ifs
      · exact worker_process_aside b _ _ clock now
      · exact .refl b
    · trivial
  | heartbeat now =>
    refine haside ((purge_workers_aside b now).bind fun b₁ hb₁ => ?_)
    refine Ends.foldlM _ (fun wrk _ b₂ hb₂ => ?_) hb₁
    exact (ends_any (b₂.deref wrk)).bind fun w _ => hb₂.trans (.send b₂ rfl)
  | clientHeartbeat => exact absurd rfl hevent

theorem foldlM_step_beats {events : List Event} (h : events.foldlM step b = .ok b')
    (hevents : .clientHeartbeat ∉ events) :
    beats b'.log = beats b.log ∧
      ∀ x ∈ b'.m_client_senders.elems, x ∈ b.m_client_senders.elems ∨
        ∃ frames now, .client frames now ∈ events ∧ Announces x frames := by
  induction events generalizing b with
  | nil =>
    cases h
    exact ⟨rfl, fun x hx => .inl hx⟩
  | cons event events ih =>
    rw [List.foldlM_cons] at h
    cases hstep : b.step event with
    | error f =>
      rw [hstep] at h
      cases h
    | ok b₁ =>
      rw [hstep] at h
      obtain ⟨hnot, hevents⟩ := not_or.1 (mt List.mem_cons.2 hevents)
      obtain ⟨hbeats, hsenders⟩ := step_beats hstep (Ne.symm hnot)
      obtain ⟨hbeats', hsenders'⟩ := ih h hevents
      refine ⟨hbeats'.trans hbeats, fun x hx => ?_⟩
      rcases hsenders' x hx with hx | ⟨frames, now, hmem, hannounces⟩
      · refine (hsenders x hx).imp_right fun ⟨frames, now, heq, hannounces⟩ => ?_
        exact ⟨frames, now, heq ▸ List.mem_cons_self, hannounces⟩
      · exact .inr ⟨frames, now, List.mem_cons_of_mem _ hmem, hannounces⟩

theorem clientHeartbeats_beats (client_senders : List String) : ∀ b : BrokerState,
    let b' := client_senders.foldl
      (fun b client_sender => b.send (.toClientHeartbeat (clientHeartbeat client_sender))) b
    beats b'.log = beats b.log ++ client_senders.map clientHeartbeat ∧
      b'.m_client_senders = b.m_client_senders ∧ b'.m_waiting = b.m_waiting := by
  induction client_senders with
  | nil => exact fun b => ⟨(List.append_nil _).symm, rfl, rfl⟩
  | cons client_sender client_senders ih =>
    intro b
    obtain ⟨hbeats, hsame⟩ := ih (b.send (.toClientHeartbeat (clientHeartbeat client_sender)))
    refine ⟨hbeats.trans ?_, hsame⟩
    rw [send, beats_append, List.append_assoc, List.map_cons]
    rfl

end BrokerState

/-! ## Rounds -/

namespace MainLoop

open BrokerState (Event beats Announces)

variable {m m' : MainLoop} {poll : Poll}

/-- The state from which a round sends its heartbeats to clients. -/
def Worked (m : MainLoop) (poll : Poll) (b : BrokerState) : Prop :=
  (m.workEvents poll).foldlM BrokerState.step m.broker = .ok b

/-- The names to which a round sends heartbeats, from such a state. -/
def beaten (m : MainLoop) (poll : Poll) (b : BrokerState) : List String :=
  if m.heartbeat_at_client ≤ poll.client_clock ∧ b.m_waiting.elems ≠ [] then
    b.m_client_senders.elems
  else []

theorem clientHeartbeat_not_mem (m : MainLoop) (poll : Poll) :
    .clientHeartbeat ∉ m.workEvents poll := by
  unfold workEvents clientEvents workerEvents heartbeatEvents
  cases poll.client <;> cases poll.worker <;> split_ifs <;> simp

theorem client_mem_workEvents {frames : ZMsg} {now : Int}
    (h : .client frames now ∈ m.workEvents poll) : poll.client = some (frames, now) := by
  unfold workEvents clientEvents workerEvents heartbeatEvents at h
  cases hclient : poll.client <;> cases poll.worker <;> split_ifs at h <;> simp_all

/-- **What a round sends to clients**: a heartbeat to every name that the broker knows, if they are
due and a worker waits. A name is known from before, or from a HEARTBEAT that the round has
found. -/
theorem round_beats (h : m.round poll = .ok m') :
    ∃ b, m.Worked poll b ∧
      beats m'.broker.log = beats m.broker.log ++
        (m.beaten poll b).map BrokerState.clientHeartbeat ∧
      m'.broker.m_client_senders = b.m_client_senders ∧ m'.broker.m_waiting = b.m_waiting ∧
      ∀ x ∈ b.m_client_senders.elems, x ∈ m.broker.m_client_senders.elems ∨
        ∃ frames now, poll.client = some (frames, now) ∧ Announces x frames := by
  rw [round_eq] at h
  cases hwork : (m.workEvents poll).foldlM BrokerState.step m.broker with
  | error f =>
    rw [hwork] at h
    cases h
  | ok b =>
    rw [hwork] at h
    obtain ⟨hbeats, hsenders⟩ :=
      BrokerState.foldlM_step_beats hwork (clientHeartbeat_not_mem m poll)
    have hafter : ∃ b', m' = m.after poll b b' ∧
        beats b'.log = beats b.log ++ (m.beaten poll b).map BrokerState.clientHeartbeat ∧
        b'.m_client_senders = b.m_client_senders ∧ b'.m_waiting = b.m_waiting := by
      unfold clientHeartbeatEvents at h
      unfold beaten
      by_cases hdue : m.heartbeat_at_client ≤ poll.client_clock
      · rw [if_pos hdue] at h
        simp only [bind, Except.bind, foldlM_singleton] at h
        unfold BrokerState.step at h
        dsimp only at h
        by_cases hnone : b.m_waiting.elems = []
        · rw [if_pos hnone] at h
          cases h
          refine ⟨b, rfl, ?_, rfl, rfl⟩
          rw [if_neg fun hboth => hboth.2 hnone, List.map_nil, List.append_nil]
        · rw [if_neg hnone] at h
          cases h
          rw [if_pos ⟨hdue, hnone⟩]
          exact ⟨_, rfl, BrokerState.clientHeartbeats_beats _ b⟩
      · rw [if_neg hdue] at h
        cases h
        refine ⟨b, rfl, ?_, rfl, rfl⟩
        rw [if_neg fun hboth => hdue hboth.1, List.map_nil, List.append_nil]
    obtain ⟨b', rfl, hbeats', hsenders', hwaiting'⟩ := hafter
    refine ⟨b, hwork, hbeats'.trans (by rw [hbeats]), hsenders', hwaiting', fun x hx => ?_⟩
    refine (hsenders x hx).imp_right fun ⟨frames, now, hmem, hannounces⟩ => ?_
    exact ⟨frames, now, client_mem_workEvents hmem, hannounces⟩

end MainLoop

/-! ## The broker and its clients -/

open BrokerState (Announces beats clientHeartbeat)
open Client (Mdcli)

/-- The rounds of the broker's main loop and what it has come to, the clients, and the heartbeats
that have been sent to them, each with the reading of the broker's clock before it. -/
structure Cloud (κ : Type*) where
  polls : List Poll
  loop : MainLoop
  clients : κ → Mdcli
  heartbeats : List (ZMsg × Int)

namespace Cloud

variable {κ : Type*} [DecidableEq κ]

def init (now now_client : Int) (clients : κ → Mdcli) : Cloud κ :=
  ⟨[], .init now now_client, clients, []⟩

/-- A round of the broker, or a call of a client. A HEARTBEAT that the broker finds under the name
of a client has been sent by the client; a heartbeat that a client takes has been sent to it, less
than `delay` before. Messages may be lost, reordered or repeated. -/
inductive Step (client_id : κ → String) (delay : Int) : Cloud κ → Cloud κ → Prop
  | round (s : Cloud κ) (poll : Poll) (loop : MainLoop) (hround : s.loop.round poll = .ok loop)
      (hsent : ∀ i frames now, poll.client = some (frames, now) → Announces (client_id i) frames →
        ∃ msg ∈ (s.clients i).sent, frames = client_id i :: msg) :
      Step client_id delay s ⟨s.polls ++ [poll], loop, s.clients,
        s.heartbeats ++ ((beats loop.broker.log).drop (beats s.loop.broker.log).length).map
          fun frames => (frames, poll.client_clock)⟩
  | call (s : Cloud κ) (i : κ) (call : Client.Call) (m : Mdcli)
      (hstep : (s.clients i).step call = some m)
      (htaken : ∀ msg clock, call = .heartbeat msg clock →
        ∃ sent_at, (client_id i :: msg, sent_at) ∈ s.heartbeats ∧ clock < sent_at + delay) :
      Step client_id delay s { s with clients := Function.update s.clients i m }

/-- In one of the rounds, at the given time, the broker has sent a heartbeat to a client, whose
HEARTBEAT had come, and a worker was waiting. -/
def Answered (now now_client : Int) (polls : List Poll) (client : String) (sent_at : Int) : Prop :=
  ∃ past poll rest m b, polls = past ++ poll :: rest ∧
    MainLoop.start_brokering now now_client past = .ok m ∧ m.Worked poll b ∧
    client ∈ b.m_client_senders.elems ∧ b.m_waiting.elems ≠ [] ∧ sent_at = poll.client_clock

variable {now now_client delay : Int} {client_id : κ → String} {s t : Cloud κ}

theorem Answered.round {polls : List Poll} {client : String} {sent_at : Int}
    (h : Answered now now_client polls client sent_at) (poll : Poll) :
    Answered now now_client (polls ++ [poll]) client sent_at := by
  obtain ⟨past, before, rest, m, b, rfl, h⟩ := h
  exact ⟨past, before, rest ++ [poll], m, b, List.append_assoc _ _ _, h⟩

/-- What is known of heartbeats in every state. -/
structure Known (now now_client delay : Int) (client_id : κ → String) (s : Cloud κ) : Prop where
  loop : MainLoop.start_brokering now now_client s.polls = .ok s.loop
  names : ∀ x ∈ s.loop.broker.m_client_senders.elems, cStr x = x
  announced : ∀ i, client_id i ∈ s.loop.broker.m_client_senders.elems → (s.clients i).sent ≠ []
  sent : ∀ beat ∈ s.heartbeats, ∃ client, beat.1 = clientHeartbeat client ∧ cStr client = client ∧
    (∀ i, client_id i = client → (s.clients i).sent ≠ []) ∧
    Answered now now_client s.polls client beat.2
  mode : ∀ i, (s.clients i).cloud_mode = true → (s.clients i).sent ≠ [] ∧
    ∃ sent_at, Answered now now_client s.polls (client_id i) sent_at ∧
      (s.clients i).n_heartbeat_expiry < sent_at + delay + 2500

omit [DecidableEq κ] in
theorem Known.init {clients : κ → Mdcli} (hclients : ∀ i, (clients i).cloud_mode = false) :
    Known now now_client delay client_id (init now now_client clients) where
  loop := rfl
  names := fun _ hx => absurd hx List.not_mem_nil
  announced := fun _ hi => absurd hi List.not_mem_nil
  sent := fun _ hbeat => absurd hbeat List.not_mem_nil
  mode := fun i hi => absurd ((hclients i).symm.trans hi) Bool.false_ne_true

omit [DecidableEq κ] in
theorem Known.round (h : Known now now_client delay client_id s) {poll : Poll} {loop : MainLoop}
    (hround : s.loop.round poll = .ok loop)
    (hsent : ∀ i frames now, poll.client = some (frames, now) → Announces (client_id i) frames →
      ∃ msg ∈ (s.clients i).sent, frames = client_id i :: msg) :
    Known now now_client delay client_id ⟨s.polls ++ [poll], loop, s.clients,
      s.heartbeats ++ ((beats loop.broker.log).drop (beats s.loop.broker.log).length).map
        fun frames => (frames, poll.client_clock)⟩ := by
  obtain ⟨b, hworked, hbeats, hsenders, -, hfrom⟩ := MainLoop.round_beats hround
  have hnames : ∀ x ∈ b.m_client_senders.elems, cStr x = x := by
    intro x hx
    rcases hfrom x hx with hx | ⟨frames, now, -, hannounces⟩
    · exact h.names x hx
    · unfold Announces at hannounces
      split at hannounces
      · exact hannounces.1 ▸ ZMsg.cStr_cStr _
      · exact hannounces.elim
  have hannounced : ∀ i, client_id i ∈ b.m_client_senders.elems → (s.clients i).sent ≠ [] := by
    intro i hi
    rcases hfrom _ hi with hi | ⟨frames, now, hclient, hannounces⟩
    · exact h.announced i hi
    · obtain ⟨msg, hmsg, -⟩ := hsent i frames now hclient hannounces
      exact List.ne_nil_of_mem hmsg
  have hloop : MainLoop.start_brokering now now_client (s.polls ++ [poll]) = .ok loop := by
    have hpast := h.loop
    unfold MainLoop.start_brokering at hpast ⊢
    rw [List.foldlM_append, hpast]
    change (s.loop.round poll >>= pure) = .ok loop
    rw [bind_pure, hround]
  refine ⟨hloop, ?_, ?_, ?_, ?_⟩
  · exact fun x hx => hnames x (hsenders ▸ hx)
  · exact fun i hi => hannounced i (hsenders ▸ hi)
  · intro beat hbeat
    rcases List.mem_append.1 hbeat with hbeat | hbeat
    · obtain ⟨client, heq, hname, hsome, hanswered⟩ := h.sent beat hbeat
      exact ⟨client, heq, hname, hsome, hanswered.round poll⟩
    · rw [hbeats, List.drop_left, List.map_map, List.mem_map] at hbeat
      obtain ⟨client, hclient, rfl⟩ := hbeat
      unfold MainLoop.beaten at hclient
      split_ifs at hclient with hdue
      · refine ⟨client, rfl, hnames client hclient, fun i hi => hannounced i (hi ▸ hclient), ?_⟩
        exact ⟨s.polls, poll, [], s.loop, b, rfl, h.loop, hworked, hclient, hdue.2, rfl⟩
      · exact absurd hclient List.not_mem_nil
  · intro i hi
    obtain ⟨hsome, sent_at, hanswered, hexpiry⟩ := h.mode i hi
    exact ⟨hsome, sent_at, hanswered.round poll, hexpiry⟩

omit [DecidableEq κ] in
/-- What a call leaves of cloud mode, or finds out. -/
theorem Known.step_mode (h : Known now now_client delay client_id s) {i : κ} {call : Client.Call}
    {m : Mdcli} (hstep : (s.clients i).step call = some m)
    (htaken : ∀ msg clock, call = .heartbeat msg clock →
      ∃ sent_at, (client_id i :: msg, sent_at) ∈ s.heartbeats ∧ clock < sent_at + delay)
    (hmode : m.cloud_mode = true) :
    (s.clients i).sent ≠ [] ∧ ∃ sent_at, Answered now now_client s.polls (client_id i) sent_at ∧
      m.n_heartbeat_expiry < sent_at + delay + 2500 := by
  cases hbeat : call.beat with
  | none =>
    obtain ⟨hexpiry, hon⟩ := Mdcli.step_quiet hstep hbeat
    rw [hexpiry]
    exact h.mode i (hon.1 hmode).1
  | some clock =>
    cases call with
    | heartbeat msg clock' =>
      have hclock : (if Client.Beats msg then some clock' else none) = some clock := hbeat
      split_ifs at hclock
      cases hclock
      obtain ⟨sent_at, hmem, hsoon⟩ := htaken msg clock rfl
      obtain ⟨client, hframes, hname, hsome, hanswered⟩ := h.sent _ hmem
      have hclient : client_id i = client := (List.cons.inj hframes).1.trans hname
      rw [Mdcli.step_beat hstep hbeat]
      refine ⟨hsome i hclient, sent_at, hclient ▸ hanswered, ?_⟩
      change clock + 2500 < sent_at + delay + 2500
      omega
    | reply msg => cases hbeat
    | timeout => cases hbeat

theorem Known.call (h : Known now now_client delay client_id s) {i : κ} {call : Client.Call}
    {m : Mdcli}
    (hstep : (s.clients i).step call = some m)
    (htaken : ∀ msg clock, call = .heartbeat msg clock →
      ∃ sent_at, (client_id i :: msg, sent_at) ∈ s.heartbeats ∧ clock < sent_at + delay) :
    Known now now_client delay client_id
      { s with clients := Function.update s.clients i m } := by
  have hsent : ∀ k, (s.clients k).sent ≠ [] → (Function.update s.clients i m k).sent ≠ [] := by
    intro k hk
    rw [Function.update_apply]
    split_ifs with heq
    · subst heq
      exact mt (fun hnil => List.subset_nil.1 (hnil ▸ Mdcli.step_sent hstep)) hk
    · exact hk
  refine ⟨h.loop, h.names, fun k hk => hsent k (h.announced k hk), fun beat hbeat => ?_, ?_⟩
  · obtain ⟨client, heq, hname, hsome, hanswered⟩ := h.sent beat hbeat
    exact ⟨client, heq, hname, fun k hk => hsent k (hsome k hk), hanswered⟩
  · intro k hk
    by_cases heq : k = i
    · subst heq
      dsimp only at hk ⊢
      rw [Function.update_self] at hk
      obtain ⟨hsome, hanswered⟩ := h.step_mode hstep htaken hk
      refine ⟨hsent k hsome, ?_⟩
      rw [Function.update_self]
      exact hanswered
    · dsimp only at hk ⊢
      rw [Function.update_of_ne heq] at hk ⊢
      exact h.mode k hk

theorem run_known {clock n_heartbeat_expiry : κ → Int}
    (h : Run (Step client_id delay) (init now now_client fun i =>
      Mdcli.connect_to_broker (clock i) (n_heartbeat_expiry i)) s) :
    Known now now_client delay client_id s := by
  refine Run.invariant (Known now now_client delay client_id) (.init fun _ => rfl) ?_ h
  intro s t hs hst
  cases hst with
  | round poll loop hround hsent => exact hs.round hround hsent
  | call i call m hstep htaken => exact hs.call hstep htaken

/-- **Cloud mode comes from the broker, and not long ago.** Whatever the broker's rounds find and
however the calls of the clients fall between them: if a call that times out leaves a client in
cloud mode, the client has sent a HEARTBEAT, and in a round less than `delay + 2500` before, the
broker had that HEARTBEAT and a worker was waiting. -/
theorem cloud_mode_recent {clock n_heartbeat_expiry : κ → Int}
    (h : Run (Step client_id delay) (init now now_client fun i =>
      Mdcli.connect_to_broker (clock i) (n_heartbeat_expiry i)) s)
    (i : κ) (time later : Int) (hmode : ((s.clients i).timeout time later).cloud_mode = true) :
    (s.clients i).sent ≠ [] ∧
      ∃ sent_at, Answered now now_client s.polls (client_id i) sent_at ∧
        later < sent_at + delay + 2500 := by
  obtain ⟨hon, hover⟩ := (Mdcli.timeout_cloud_mode _ time later).1 hmode
  obtain ⟨hsent, sent_at, hanswered, hexpiry⟩ := (run_known h).mode i hon
  exact ⟨hsent, sent_at, hanswered, (not_le.1 hover).trans hexpiry⟩

/-- The readings of the clock before heartbeats to clients are no later than the others may be. -/
def ClientPrompt (now now_client : Int) (polls : List Poll) : Prop :=
  ∀ past poll future m, polls = past ++ poll :: future →
    MainLoop.start_brokering now now_client past = .ok m →
    poll.client_clock < m.now + m.timeout + n_heartbeat_interval

omit [DecidableEq κ] in
/-- When a heartbeat to a client is sent, a waiting worker has been heard from of late. -/
theorem Answered.heard {polls : List Poll} {client : String} {sent_at : Int} {loop : MainLoop}
    (h : Answered now now_client polls client sent_at)
    (hloop : MainLoop.start_brokering now now_client polls = .ok loop)
    (htimely : MainLoop.Timely now now_client polls)
    (hprompt : ClientPrompt now now_client polls) :
    ∃ past future identity heard, polls = past ++ future ∧
      BrokerState.lastHeard identity ((MainLoop.init now now_client).trace past) = some heard ∧
      sent_at < heard + n_heartbeat_expiry + 2 * n_heartbeat_interval := by
  obtain ⟨past, poll, rest, m, b, rfl, hpast, hworked, -, hwaiting, rfl⟩ := h
  -- the loop after the round that sends it
  obtain ⟨m', hround⟩ : ∃ m', m.round poll = .ok m' := by
    unfold MainLoop.start_brokering at hpast hloop
    rw [List.foldlM_append, hpast] at hloop
    cases hround : m.round poll with
    | error f =>
      change (m.round poll >>= fun m' => rest.foldlM MainLoop.round m') = .ok loop at hloop
      rw [hround] at hloop
      cases hloop
    | ok m' => exact ⟨m', rfl⟩
  have hafter : MainLoop.start_brokering now now_client (past ++ [poll]) = .ok m' := by
    unfold MainLoop.start_brokering at hpast ⊢
    rw [List.foldlM_append, hpast]
    change (m.round poll >>= pure) = .ok m'
    rw [bind_pure, hround]
  have htimely' : MainLoop.Timely now now_client (past ++ [poll]) := by
    intro before poll' between m₁ heq hrun
    refine htimely before poll' (between ++ rest) m₁ ?_ hrun
    rw [← List.singleton_append, ← List.append_assoc, heq, List.append_assoc, List.cons_append]
  obtain ⟨b', hworked', -, -, hsame, -⟩ := MainLoop.round_beats hround
  obtain rfl : b = b' := Except.ok.inj (hworked.symm.trans hworked')
  obtain ⟨wrk, wrks, hwrk⟩ := List.exists_cons_of_ne_nil hwaiting
  have hwrk' : wrk ∈ m'.broker.m_waiting.elems := by
    rw [hsame, hwrk]
    exact List.mem_cons_self
  obtain ⟨w, heard, -, hlast, hdue⟩ := MainLoop.waiting_due hafter htimely' wrk hwrk'
  refine ⟨past ++ [poll], rest, w.m_identity, heard, by rw [List.append_assoc]; rfl, hlast, ?_⟩
  have hclient := hprompt past poll rest m rfl hpast
  rw [(MainLoop.start_brokering_paced hpast htimely'.past).wait] at hclient
  have hlater : m.heartbeat_at ≤ m'.heartbeat_at := by
    obtain ⟨b₁, b₂, rfl⟩ := MainLoop.round_after hround
    unfold MainLoop.after n_heartbeat_interval
    dsimp only
    split_ifs <;> omega
  omega

/-- **Cloud mode comes from a worker.** If moreover the broker's clock does not go back and none of
its rounds takes too long, the broker has heard from a worker less than `delay`, 2500 ms and five
intervals before. -/
theorem cloud_mode_worker {clock n_heartbeat_expiry : κ → Int}
    (h : Run (Step client_id delay) (init now now_client fun i =>
      Mdcli.connect_to_broker (clock i) (n_heartbeat_expiry i)) s)
    (htimely : MainLoop.Timely now now_client s.polls)
    (hprompt : ClientPrompt now now_client s.polls)
    (i : κ) (time later : Int) (hmode : ((s.clients i).timeout time later).cloud_mode = true) :
    ∃ past future identity heard, s.polls = past ++ future ∧
      BrokerState.lastHeard identity ((MainLoop.init now now_client).trace past) = some heard ∧
      later < heard + delay + 2500 + 5 * n_heartbeat_interval := by
  obtain ⟨hon, hover⟩ := (Mdcli.timeout_cloud_mode _ time later).1 hmode
  have hknown := run_known h
  obtain ⟨-, sent_at, hanswered, hexpiry⟩ := hknown.mode i hon
  obtain ⟨past, future, identity, heard, hpolls, hlast, hsent⟩ :=
    hanswered.heard hknown.loop htimely hprompt
  refine ⟨past, future, identity, heard, hpolls, hlast, ?_⟩
  unfold ShoppingApp.n_heartbeat_expiry n_heartbeat_liveness at hsent
  omega

/-- A HEARTBEAT of a client, in a round that sends heartbeats. -/
def announceRound : Poll :=
  { MainLoop.heartbeatRound with
    client := some ("client1" :: Client.send "HEARTBEAT" "" [], 2500) }

/-- A round of which it is known that it does not fail. -/
def roundOf (m : MainLoop) (poll : Poll) : MainLoop :=
  match m.round poll with
  | .ok m' => m'
  | .error _ => m

/-- A client that is not in the cloud, one that has sent its HEARTBEAT, and one that has got an
answer. -/
def apart : Mdcli := .connect_to_broker 0 0

def announced : Mdcli := apart.timeout 2500 2500

def connected : Mdcli := { announced with n_heartbeat_expiry := 5010, cloud_mode := true }

theorem run_announced : ∃ s, Run (Step (fun _ : Unit => "client1") 100)
      (init 0 0 fun _ => .connect_to_broker 0 0) s ∧
    s.polls = [MainLoop.readyRound, announceRound] ∧
    ((s.clients ()).timeout 5000 5000).cloud_mode = true := by
  let loop₁ := roundOf (.init 0 0) MainLoop.readyRound
  let loop₂ := roundOf loop₁ announceRound
  refine ⟨_, Relation.ReflTransGen.refl
    |>.tail (.round _ MainLoop.readyRound loop₁ rfl ?ready)
    |>.tail (.call _ () (.timeout 2500 2500) announced rfl ?timeout)
    |>.tail (.round _ announceRound loop₂ rfl ?announce)
    |>.tail (.call _ () (.heartbeat ["", k_mdp_client, k_mdpc_heartbeat, "heartbeat"] 2510)
      connected rfl ?taken), rfl, rfl⟩
  case ready => exact fun _ _ _ h => nomatch h
  case timeout => exact fun _ _ h => nomatch h
  case announce =>
    intro i frames now hclient _
    cases hclient
    exact ⟨_, List.mem_singleton_self _, rfl⟩
  case taken =>
    intro msg clock hcall
    cases hcall
    exact ⟨2501, List.mem_singleton_self _, by decide⟩

theorem timely_announced : MainLoop.Timely 0 0 [MainLoop.readyRound, announceRound] ∧
    ClientPrompt 0 0 [MainLoop.readyRound, announceRound] := by
  constructor
  · rintro past poll future m heq hrun
    rcases past with _ | ⟨first, _ | ⟨second, past⟩⟩
    · cases heq
      cases hrun
      refine
        ⟨⟨?_, by decide, fun _ => by decide, fun _ => by decide⟩, by decide, fun _ => by decide⟩
      intro frames clock now hworker
      cases hworker
      decide
    · cases heq
      cases hrun
      exact ⟨⟨nofun, by decide, fun _ => by decide, fun _ => by decide⟩, by decide,
        fun _ => by decide⟩
    · simp at heq
  · rintro past poll future m heq hrun
    rcases past with _ | ⟨first, _ | ⟨second, past⟩⟩
    · cases heq
      cases hrun
      decide
    · cases heq
      cases hrun
      decide
    · simp at heq

theorem cloud_mode_recent_announced :
    ∃ s, Run (Step (fun _ : Unit => "client1") 100)
        (init 0 0 fun _ => .connect_to_broker 0 0) s ∧
      (s.clients ()).sent ≠ [] ∧ ∃ sent_at, Answered 0 0 s.polls "client1" sent_at ∧
        5000 < sent_at + 100 + 2500 := by
  obtain ⟨s, hrun, -, hmode⟩ := run_announced
  exact ⟨s, hrun, cloud_mode_recent hrun () 5000 5000 hmode⟩

theorem cloud_mode_worker_announced :
    ∃ past future identity heard, [MainLoop.readyRound, announceRound] = past ++ future ∧
      BrokerState.lastHeard identity ((MainLoop.init 0 0).trace past) = some heard ∧
      5000 < heard + 100 + 2500 + 5 * n_heartbeat_interval := by
  obtain ⟨s, hrun, hpolls, hmode⟩ := run_announced
  have htimely : MainLoop.Timely 0 0 s.polls ∧ ClientPrompt 0 0 s.polls := hpolls ▸ timely_announced
  rw [← hpolls]
  exact cloud_mode_worker hrun htimely.1 htimely.2 () 5000 5000 hmode

end Cloud

end ShoppingApp
