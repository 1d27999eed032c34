import ShoppingApp.Broker.MainLoop
import ShoppingApp.System.BrokerTimes

/-!
# Runs of the broker's main loop

The loop is the broker of `BrokerState` on the events that its rounds make of what they find
(`start_brokering_run`), so that what holds of every run of the one holds of the other. Heartbeats
are never early and, if rounds do not take too long, never skipped (`heartbeat_cadence`); so a
worker that goes on waiting for work has been heard from of late (`waiting_heard`).
-/

namespace ShoppingApp

open BrokerState (Event)

namespace MainLoop

variable {m m' : MainLoop} {poll : Poll} {polls : List Poll} {now now_client : Int}

/-! ## Rounds as events -/

def clientEvents (poll : Poll) : List Event :=
  (poll.client.map fun (frames, now) => Event.client frames now).toList

def workerEvents (poll : Poll) : List Event :=
  (poll.worker.map fun (frames, clock, now) => Event.worker frames clock now).toList

def heartbeatEvents (m : MainLoop) (poll : Poll) : List Event :=
  if m.heartbeat_at ≤ poll.clock then [.heartbeat poll.purge] else []

def clientHeartbeatEvents (m : MainLoop) (poll : Poll) : List Event :=
  if m.heartbeat_at_client ≤ poll.client_clock then [.clientHeartbeat] else []

/-- The events of a round up to the heartbeats to workers, in order. -/
def workEvents (m : MainLoop) (poll : Poll) : List Event :=
  clientEvents poll ++ workerEvents poll ++ m.heartbeatEvents poll

/-- The events of a round, in order. -/
def events (m : MainLoop) (poll : Poll) : List Event :=
  m.workEvents poll ++ m.clientHeartbeatEvents poll

/-- The loop after a round, with the broker before and after the heartbeats to clients. -/
def after (m : MainLoop) (poll : Poll) (b b' : BrokerState) : MainLoop where
  broker := b'
  now := if m.heartbeat_at ≤ poll.clock then poll.again else poll.clock
  heartbeat_at := if m.heartbeat_at ≤ poll.clock then m.heartbeat_at + n_heartbeat_interval
    else m.heartbeat_at
  heartbeat_at_client :=
    if m.heartbeat_at_client ≤ poll.client_clock ∧ b.m_waiting.elems ≠ []
      then m.heartbeat_at_client + n_heartbeat_interval else m.heartbeat_at_client
  published := m.published ++ poll.xsub.toList

theorem foldlM_singleton (b : BrokerState) (event : Event) :
    [event].foldlM BrokerState.step b = b.step event := bind_pure (b.step event)

theorem client_requests_eq (m : MainLoop) (poll : Poll) :
    m.client_requests poll = (do
      let b ← (clientEvents poll).foldlM BrokerState.step m.broker
      return { m with broker := b }) := by
  unfold client_requests clientEvents
  cases poll.client with
  | none => rfl
  | some message =>
    obtain ⟨frames, now⟩ := message
    dsimp only [Option.map_some, Option.toList_some]
    rw [foldlM_singleton]
    rfl

theorem worker_requests_eq (m : MainLoop) (poll : Poll) :
    m.worker_requests poll = (do
      let b ← (workerEvents poll).foldlM BrokerState.step m.broker
      return { m with broker := b }) := by
  unfold worker_requests workerEvents
  cases poll.worker with
  | none => rfl
  | some message =>
    obtain ⟨frames, clock, now⟩ := message
    dsimp only [Option.map_some, Option.toList_some]
    rw [foldlM_singleton]
    rfl

theorem list_updates_eq (m : MainLoop) (poll : Poll) :
    m.list_updates poll = { m with published := m.published ++ poll.xsub.toList } := by
  unfold list_updates
  cases poll.xsub with
  | none => rw [Option.toList_none, List.append_nil]
  | some msg => rfl

theorem heartbeats_eq (m : MainLoop) (poll : Poll) :
    m.heartbeats poll = (do
      let b ← (m.heartbeatEvents poll).foldlM BrokerState.step m.broker
      return { m.after poll b b with
        heartbeat_at_client := m.heartbeat_at_client
        published := m.published }) := by
  unfold heartbeats heartbeatEvents after
  dsimp only
  split_ifs with hdue
  · rw [foldlM_singleton]
    unfold take
    cases m.broker.step (.heartbeat poll.purge) <;> rfl
  · rfl

theorem client_heartbeats_eq (m : MainLoop) (poll : Poll) :
    m.client_heartbeats poll = (do
      let b ← (m.clientHeartbeatEvents poll).foldlM BrokerState.step m.broker
      return { m with
        broker := b
        heartbeat_at_client :=
          if m.heartbeat_at_client ≤ poll.client_clock ∧ m.broker.m_waiting.elems ≠ []
            then m.heartbeat_at_client + n_heartbeat_interval else m.heartbeat_at_client }) := by
  unfold client_heartbeats clientHeartbeatEvents
  by_cases hdue : m.heartbeat_at_client ≤ poll.client_clock
  · rw [if_pos hdue, if_pos hdue, foldlM_singleton]
    by_cases hnone : m.broker.m_waiting.elems = []
    · rw [if_pos hnone, if_neg fun h => h.2 hnone]
      unfold BrokerState.step
      dsimp only
      rw [if_pos hnone]
      rfl
    · rw [if_neg hnone, if_pos ⟨hdue, hnone⟩]
      unfold take
      cases m.broker.step .clientHeartbeat <;> rfl
  · rw [if_neg hdue, if_neg hdue, if_neg fun h => hdue h.1]
    rfl

/-- **A round is its events, and what becomes of the loop's variables.** -/
theorem round_eq (m : MainLoop) (poll : Poll) :
    m.round poll = (do
      let b ← (m.workEvents poll).foldlM BrokerState.step m.broker
      let b' ← (m.clientHeartbeatEvents poll).foldlM BrokerState.step b
      return m.after poll b b') := by
  unfold round workEvents
  rw [client_requests_eq, List.foldlM_append, List.foldlM_append]
  cases (clientEvents poll).foldlM BrokerState.step m.broker with
  | error f => rfl
  | ok b₁ =>
    dsimp only [bind, Except.bind, pure, Except.pure]
    rw [worker_requests_eq]
    dsimp only
    cases (workerEvents poll).foldlM BrokerState.step b₁ with
    | error f => rfl
    | ok b₂ =>
      dsimp only [bind, Except.bind, pure, Except.pure]
      rw [list_updates_eq, heartbeats_eq]
      unfold heartbeatEvents
      dsimp only
      cases (if m.heartbeat_at ≤ poll.clock then [Event.heartbeat poll.purge] else []).foldlM
          BrokerState.step b₂ with
      | error f => rfl
      | ok b₃ =>
        dsimp only [bind, Except.bind, pure, Except.pure]
        rw [client_heartbeats_eq]
        rfl

/-! ## Runs as events -/

/-- The events of some rounds, in order. -/
def trace (m : MainLoop) : List Poll → List Event
  | [] => []
  | poll :: polls => m.events poll ++
    match m.round poll with
    | .ok m' => m'.trace polls
    | .error _ => []

theorem round_broker (m : MainLoop) (poll : Poll) :
    (m.round poll).map broker = (m.events poll).foldlM BrokerState.step m.broker := by
  rw [round_eq, events, List.foldlM_append]
  cases (m.workEvents poll).foldlM BrokerState.step m.broker with
  | error f => rfl
  | ok b =>
    dsimp only [bind, Except.bind]
    cases (m.clientHeartbeatEvents poll).foldlM BrokerState.step b <;> rfl

/-- The broker at the end, and how a run that fails does so. -/
theorem trace_run (m : MainLoop) (polls : List Poll) :
    (polls.foldlM round m).map broker = (m.trace polls).foldlM BrokerState.step m.broker := by
  induction polls generalizing m with
  | nil => rfl
  | cons poll polls ih =>
    rw [List.foldlM_cons, trace, List.foldlM_append, ← round_broker]
    cases hround : m.round poll with
    | error f => rfl
    | ok m' => exact ih m'

theorem trace_concat (poll : Poll) (h : polls.foldlM round m = .ok m') :
    m.trace (polls ++ [poll]) = m.trace polls ++ m'.events poll := by
  induction polls generalizing m with
  | nil =>
    cases h
    change m'.trace [poll] = m'.events poll
    rw [trace]
    cases m'.round poll with
    | error f => exact List.append_nil _
    | ok m' => exact List.append_nil _
  | cons first polls ih =>
    rw [List.foldlM_cons] at h
    rw [List.cons_append, trace, trace]
    cases hround : m.round first with
    | error f =>
      rw [hround] at h
      cases h
    | ok m₁ =>
      rw [hround] at h
      dsimp only
      rw [ih h, List.append_assoc]

/-- What holds before the first round and is kept by every round holds of every run. -/
theorem start_brokering_induction {P : List Poll → MainLoop → Prop}
    (hinit : P [] (init now now_client))
    (hround : ∀ polls m poll m', start_brokering now now_client polls = .ok m → P polls m →
      m.round poll = .ok m' → P (polls ++ [poll]) m')
    (h : start_brokering now now_client polls = .ok m) : P polls m := by
  induction polls using List.reverseRecOn generalizing m with
  | nil =>
    cases h
    exact hinit
  | append_singleton polls poll ih =>
    unfold start_brokering at h
    rw [List.foldlM_append] at h
    cases hpolls : polls.foldlM round (init now now_client) with
    | error f =>
      rw [hpolls] at h
      cases h
    | ok m₁ =>
      rw [hpolls] at h
      change (m₁.round poll >>= pure) = .ok m at h
      rw [bind_pure] at h
      exact hround polls m₁ poll m hpolls (ih hpolls) h

theorem round_after (h : m.round poll = .ok m') : ∃ b b', m' = m.after poll b b' := by
  rw [round_eq] at h
  cases hbefore : (m.workEvents poll).foldlM BrokerState.step m.broker with
  | error f =>
    rw [hbefore] at h
    cases h
  | ok b =>
    rw [hbefore] at h
    dsimp only [bind, Except.bind] at h
    cases hafter : (m.clientHeartbeatEvents poll).foldlM BrokerState.step b with
    | error f =>
      rw [hafter] at h
      cases h
    | ok b' =>
      rw [hafter] at h
      cases h
      exact ⟨b, b', rfl⟩

/-- The message of a client that an event brings, with the reading of the clock beside it. -/
def Event.fromClient : Event → Option (ZMsg × Int)
  | .client frames now => some (frames, now)
  | _ => none

def Event.fromWorker : Event → Option (ZMsg × Int × Int)
  | .worker frames clock now => some (frames, clock, now)
  | _ => none

theorem events_fromClient (m : MainLoop) (poll : Poll) :
    (m.events poll).filterMap Event.fromClient = poll.client.toList := by
  unfold events workEvents clientEvents workerEvents heartbeatEvents clientHeartbeatEvents
  cases poll.client <;> cases poll.worker <;> split_ifs <;> rfl

theorem events_fromWorker (m : MainLoop) (poll : Poll) :
    (m.events poll).filterMap Event.fromWorker = poll.worker.toList := by
  unfold events workEvents clientEvents workerEvents heartbeatEvents clientHeartbeatEvents
  cases poll.client <;> cases poll.worker <;> split_ifs <;> rfl

/-- **The loop is the broker on the events of its rounds.** It ends as the broker does on them; if
it does not fail, they bring every message that was found, in order and once, and every update that
was found has been sent on as it was read. (What `ZMsg.recv` reads and `ZMsg.send` writes is not
always what was on the wire: `ZMsg.send_recv_iff`.) -/
theorem start_brokering_run (now now_client : Int) (polls : List Poll) :
    (start_brokering now now_client polls).map broker =
      BrokerState.run ((init now now_client).trace polls) ∧
    ∀ m, start_brokering now now_client polls = .ok m →
      m.published = polls.filterMap Poll.xsub ∧
      ((init now now_client).trace polls).filterMap Event.fromClient = polls.filterMap Poll.client ∧
      ((init now now_client).trace polls).filterMap Event.fromWorker =
        polls.filterMap Poll.worker := by
  refine ⟨trace_run _ _, fun m h => ?_⟩
  refine start_brokering_induction (P := fun polls m => m.published = polls.filterMap Poll.xsub ∧
    ((init now now_client).trace polls).filterMap Event.fromClient = polls.filterMap Poll.client ∧
    ((init now now_client).trace polls).filterMap Event.fromWorker = polls.filterMap Poll.worker)
    ⟨rfl, rfl, rfl⟩ ?_ h
  rintro polls m poll m' hpolls ⟨hpublished, hclient, hworker⟩ hround
  have hsingle : ∀ {α : Type} (f : Poll → Option α), [poll].filterMap f = (f poll).toList := by
    intro α f
    rw [List.filterMap_cons]
    cases f poll <;> rfl
  rw [trace_concat poll hpolls]
  simp only [List.filterMap_append, hsingle]
  obtain ⟨b, b', rfl⟩ := round_after hround
  refine ⟨?_, ?_, ?_⟩
  · rw [← hpublished]
    rfl
  · rw [hclient, events_fromClient]
  · rw [hworker, events_fromWorker]

/-- A round in which a worker is ready, and one that finds an update and sends heartbeats. -/
def readyRound : Poll where
  client := none
  worker := some (["w1", "", k_mdpw_worker, k_mdpw_ready, "lists"], 10, 10)
  xsub := none
  clock := 10
  purge := 10
  again := 10
  client_clock := 10

def heartbeatRound : Poll where
  client := none
  worker := none
  xsub := some ["url", "[]"]
  clock := 2500
  purge := 2500
  again := 2501
  client_clock := 2501

theorem start_brokering_run_ready :
    ∃ m, start_brokering 0 0 [readyRound, heartbeatRound] = .ok m ∧
      BrokerState.run ((init 0 0).trace [readyRound, heartbeatRound]) = .ok m.broker ∧
      m.published = [["url", "[]"]] := by
  obtain ⟨m, hrun⟩ : ∃ m, start_brokering 0 0 [readyRound, heartbeatRound] = .ok m := ⟨_, rfl⟩
  obtain ⟨hbroker, hfound⟩ := start_brokering_run 0 0 [readyRound, heartbeatRound]
  rw [hrun] at hbroker
  exact ⟨m, hrun, hbroker.symm, (hfound m hrun).1⟩

/-! ## The times of heartbeats -/

/-- The clock does not go back. -/
structure Forward (m : MainLoop) (poll : Poll) : Prop where
  worker : ∀ frames clock now, poll.worker = some (frames, clock, now) → m.now ≤ clock
  clock : m.now ≤ poll.clock
  purge : m.heartbeat_at ≤ poll.clock → poll.clock ≤ poll.purge
  again : m.heartbeat_at ≤ poll.clock → poll.purge ≤ poll.again

/-- A round takes less than an interval longer than it may wait. -/
structure Prompt (m : MainLoop) (poll : Poll) : Prop where
  clock : poll.clock < m.now + m.timeout + n_heartbeat_interval
  again : m.heartbeat_at ≤ poll.clock → poll.again < m.now + m.timeout + n_heartbeat_interval

/-- The clock does not go back, and no round takes too long. -/
def Timely (now now_client : Int) (polls : List Poll) : Prop :=
  ∀ past poll future m, polls = past ++ poll :: future →
    start_brokering now now_client past = .ok m → Forward m poll ∧ Prompt m poll

theorem Timely.past (h : Timely now now_client (polls ++ [poll])) : Timely now now_client polls :=
  fun before poll' between m heq hrun =>
    h before poll' (between ++ [poll]) m (by rw [heq, List.append_assoc]; rfl) hrun

/-- The readings of the clock at the rounds of heartbeats. -/
def purges (events : List Event) : List Int :=
  events.filterMap fun
    | .heartbeat now => some now
    | _ => none

theorem events_purges (m : MainLoop) (poll : Poll) :
    purges (m.events poll) = if m.heartbeat_at ≤ poll.clock then [poll.purge] else [] := by
  unfold purges events workEvents clientEvents workerEvents heartbeatEvents clientHeartbeatEvents
  cases poll.client <;> cases poll.worker <;> split_ifs <;> rfl

/-- The loop after `k` rounds of heartbeats, and in time for the next one. -/
structure Paced (now : Int) (k : ℕ) (m : MainLoop) : Prop where
  due : m.heartbeat_at = now + n_heartbeat_interval * (k + 1)
  begun : m.heartbeat_at - n_heartbeat_interval ≤ m.now
  ahead : m.now < m.heartbeat_at

theorem Paced.wait {k : ℕ} (h : Paced now k m) : m.now + m.timeout = m.heartbeat_at := by
  have hahead := h.ahead
  unfold timeout
  dsimp only
  rw [if_neg (by omega)]
  omega

theorem Paced.round {k : ℕ} (h : Paced now k m) (hforward : Forward m poll)
    (hprompt : Prompt m poll) (hround : m.round poll = .ok m') :
    Paced now (k + (purges (m.events poll)).length) m' := by
  obtain ⟨b, b', rfl⟩ := round_after hround
  have hclock := hprompt.clock
  have hstart := hforward.clock
  have hbegun := h.begun
  rw [h.wait] at hclock
  rw [events_purges]
  by_cases hdue : m.heartbeat_at ≤ poll.clock
  · have hagain := hprompt.again hdue
    have hpurge := hforward.purge hdue
    have hlast := hforward.again hdue
    rw [h.wait] at hagain
    rw [if_pos hdue, List.length_singleton]
    unfold after
    constructor
    · dsimp only
      rw [if_pos hdue, h.due, Nat.cast_add_one, mul_add_one n_heartbeat_interval ((k : Int) + 1),
        add_assoc]
    · dsimp only
      rw [if_pos hdue, if_pos hdue]
      omega
    · dsimp only
      rw [if_pos hdue, if_pos hdue]
      exact hagain
  · rw [if_neg hdue, List.length_nil, Nat.add_zero]
    unfold after
    constructor
    · dsimp only
      rw [if_neg hdue]
      exact h.due
    · dsimp only
      rw [if_neg hdue, if_neg hdue]
      omega
    · dsimp only
      rw [if_neg hdue, if_neg hdue]
      exact not_le.1 hdue

theorem start_brokering_paced (h : start_brokering now now_client polls = .ok m)
    (htimely : Timely now now_client polls) :
    Paced now (purges ((init now now_client).trace polls)).length m := by
  refine start_brokering_induction (P := fun polls m => Timely now now_client polls →
    Paced now (purges ((init now now_client).trace polls)).length m) ?_ ?_ h htimely
  · intro _
    refine ⟨?_, ?_, ?_⟩
    · change now + n_heartbeat_interval = now + n_heartbeat_interval * ((0 : ℕ) + 1)
      rw [Nat.cast_zero, zero_add, mul_one]
    · change now + n_heartbeat_interval - n_heartbeat_interval ≤ now
      omega
    · change now < now + n_heartbeat_interval
      unfold n_heartbeat_interval
      omega
  · intro polls m poll m' hpolls hpaced hround htimely
    obtain ⟨hforward, hprompt⟩ := htimely polls poll [] m rfl hpolls
    rw [trace_concat poll hpolls, purges, List.filterMap_append, List.length_append]
    exact (hpaced htimely.past).round hforward hprompt hround

/-- **No round of heartbeats is early or skipped.** If the clock does not go back and no round takes
too long, there has been one for each whole interval since the start, each within the interval after
it was due. -/
theorem heartbeat_cadence (h : start_brokering now now_client polls = .ok m)
    (htimely : Timely now now_client polls) :
    ((purges ((init now now_client).trace polls)).length : Int) =
      (m.now - now) / n_heartbeat_interval ∧
    ∀ (k : ℕ) (p : Int), (purges ((init now now_client).trace polls))[k]? = some p →
      now + n_heartbeat_interval * (k + 1) ≤ p ∧
        p < now + n_heartbeat_interval * (k + 1) + n_heartbeat_interval := by
  constructor
  · obtain ⟨hdue, hbegun, hahead⟩ := start_brokering_paced h htimely
    generalize (purges ((init now now_client).trace polls)).length = k at hdue ⊢
    unfold n_heartbeat_interval at *
    omega
  · refine start_brokering_induction (P := fun polls m => Timely now now_client polls →
      ∀ (k : ℕ) (p : Int), (purges ((init now now_client).trace polls))[k]? = some p →
        now + n_heartbeat_interval * (k + 1) ≤ p ∧
          p < now + n_heartbeat_interval * (k + 1) + n_heartbeat_interval)
        (fun _ k p hk => nomatch hk)
      ?_ h htimely
    intro polls m poll m' hpolls hpast hround htimely k p hk
    have hpaced : Paced now (purges ((init now now_client).trace polls)).length m :=
      start_brokering_paced hpolls htimely.past
    obtain ⟨hforward, hprompt⟩ := htimely polls poll [] m rfl hpolls
    have hsplit : purges ((init now now_client).trace (polls ++ [poll])) =
        purges ((init now now_client).trace polls) ++ purges (m.events poll) := by
      rw [trace_concat poll hpolls]
      exact List.filterMap_append
    rw [hsplit] at hk
    generalize purges ((init now now_client).trace polls) = before at hpaced hk hpast
    by_cases hlt : k < before.length
    · rw [List.getElem?_append_left hlt] at hk
      exact hpast htimely.past k p hk
    · -- the new one is the next in line
      rw [List.getElem?_append_right (not_lt.1 hlt), events_purges] at hk
      split_ifs at hk with hdue
      · have hlast : k - before.length = 0 ∧ poll.purge = p := by
          cases hlast : k - before.length with
          | zero =>
            rw [hlast] at hk
            exact ⟨rfl, Option.some.inj hk⟩
          | succ n =>
            rw [hlast] at hk
            cases hk
        obtain ⟨hlast, rfl⟩ := hlast
        have hk : k = before.length := by omega
        have hagain := hprompt.again hdue
        rw [hpaced.wait, hpaced.due] at hagain
        rw [hk, ← hpaced.due]
        have hpurge := hforward.purge hdue
        have hafter := hforward.again hdue
        exact ⟨hdue.trans hpurge, hafter.trans_lt (by rw [hpaced.due]; exact hagain)⟩
      · cases hk

theorem timely_ready : Timely 0 0 [readyRound, heartbeatRound] := by
  rintro past poll future m heq hrun
  rcases past with _ | ⟨first, _ | ⟨second, past⟩⟩
  · cases heq
    cases hrun
    refine ⟨⟨?_, by decide, fun _ => by decide, fun _ => by decide⟩, by decide, fun _ => by decide⟩
    intro frames clock now hworker
    cases hworker
    decide
  · cases heq
    cases hrun
    exact
      ⟨⟨nofun, by decide, fun _ => by decide, fun _ => by decide⟩, by decide, fun _ => by decide⟩
  · simp at heq

theorem heartbeat_cadence_ready :
    ∃ m, start_brokering 0 0 [readyRound, heartbeatRound] = .ok m ∧
      ((purges ((init 0 0).trace [readyRound, heartbeatRound])).length : Int) =
        (m.now - 0) / n_heartbeat_interval := by
  obtain ⟨m, hrun⟩ : ∃ m, start_brokering 0 0 [readyRound, heartbeatRound] = .ok m := ⟨_, rfl⟩
  exact ⟨m, hrun, (heartbeat_cadence hrun timely_ready).1⟩

/-! ## Silent workers -/

open BrokerState (Fresh Linked Staffed run_linked run_staffed)

/-- What holds of the broker at the start of a round holds at its end, if the events keep it. -/
theorem start_brokering_broker (h : start_brokering now now_client polls = .ok m) :
    BrokerState.run ((init now now_client).trace polls) = .ok m.broker := by
  have hrun := trace_run (init now now_client) polls
  rw [show polls.foldlM round (init now now_client) = .ok m from h] at hrun
  exact hrun.symm

theorem run_prefix {past more : List Event} {b : BrokerState}
    (h : BrokerState.run (past ++ more) = .ok b) : ∃ b₀, BrokerState.run past = .ok b₀ := by
  unfold BrokerState.run at h ⊢
  rw [List.foldlM_append] at h
  cases hpast : past.foldlM BrokerState.step BrokerState.new with
  | error f =>
    rw [hpast] at h
    cases h
  | ok b₀ => exact ⟨b₀, rfl⟩

/-- What a round hears, it hears after the last one. -/
theorem Forward.heard (h : Forward m poll) {event : Event} (hevent : event ∈ m.events poll)
    {identity : String} {clock : Int} (hheard : event.heard identity = some clock) :
    m.now ≤ clock := by
  unfold events workEvents clientEvents workerEvents heartbeatEvents clientHeartbeatEvents at hevent
  simp only [List.mem_append, Option.mem_toList, Option.map_eq_some_iff] at hevent
  rcases hevent with ((⟨_, _, rfl⟩ | ⟨⟨frames, clock', now⟩, hworker, rfl⟩) | hevent) | hevent
  · cases hheard
  · have hle : m.now ≤ clock' := h.worker frames clock' now hworker
    unfold BrokerState.Event.heard at hheard
    split at hheard
    · rename_i heq
      split_ifs at hheard
      cases heq
      cases hheard
      exact hle
    · cases hheard
  · split_ifs at hevent
    · cases List.mem_singleton.1 hevent
      cases hheard
    · cases hevent
  · split_ifs at hevent
    · cases List.mem_singleton.1 hevent
      cases hheard
    · cases hevent

/-- Messages leave the waiting workers due after `bound`, if they are heard late enough. -/
theorem fresh_messages {bound : Int} {past events : List Event} {b b' : BrokerState}
    (hpast : BrokerState.run past = .ok b) (hfresh : Fresh bound b)
    (hheard : ∀ event ∈ events, ∀ identity clock,
      event.heard identity = some clock → bound < clock + n_heartbeat_expiry)
    (hrun : BrokerState.run (past ++ events) = .ok b') : Fresh bound b' := by
  induction events using List.reverseRecOn generalizing b' with
  | nil =>
    rw [List.append_nil, hpast, Except.ok.injEq] at hrun
    exact hrun ▸ hfresh
  | append_singleton events event ih =>
    have hstaffed := run_staffed hrun
    rw [← List.append_assoc] at hrun
    obtain ⟨b₁, hbefore, hstep⟩ := BrokerState.run_concat.1 hrun
    have h₁ : Fresh bound b₁ :=
      ih (fun event' hevent => hheard event' (List.mem_append_left _ hevent)) hbefore
    exact h₁.step (run_linked hbefore) hstaffed hstep
      (hheard event (List.mem_append_right _ (List.mem_singleton_self _)))

/-- A round leaves the waiting workers due after the last round of heartbeats was. -/
theorem round_fresh {past : List Event} (hpast : BrokerState.run past = .ok m.broker)
    (hbegun : m.heartbeat_at - n_heartbeat_interval ≤ m.now) (hforward : Forward m poll)
    (hfresh : Fresh (m.heartbeat_at - n_heartbeat_interval) m.broker)
    (hround : m.round poll = .ok m') :
    Fresh (m'.heartbeat_at - n_heartbeat_interval) m'.broker := by
  have hrun : BrokerState.run (past ++ m.events poll) = .ok m'.broker := by
    unfold BrokerState.run at hpast ⊢
    rw [List.foldlM_append, hpast]
    exact (round_broker m poll).symm.trans (by rw [hround]; rfl)
  obtain ⟨b, b', rfl⟩ := round_after hround
  have hheartbeat_at : (m.after poll b b').heartbeat_at = if m.heartbeat_at ≤ poll.clock
      then m.heartbeat_at + n_heartbeat_interval else m.heartbeat_at := rfl
  rw [hheartbeat_at]
  split_ifs with hdue
  · -- the purge leaves those that are due after its reading of the clock
    rw [add_sub_cancel_right]
    unfold events workEvents heartbeatEvents at hrun
    rw [if_pos hdue, ← List.append_assoc, ← List.append_assoc] at hrun
    obtain ⟨b₂, hpurged⟩ := run_prefix hrun
    obtain ⟨b₁, hbefore, hstep⟩ := BrokerState.run_concat.1 hpurged
    have hfresh₂ : Fresh m.heartbeat_at b₂ := fun x hx w hw =>
      (hdue.trans (hforward.purge hdue)).trans_lt
        (BrokerState.fresh_heartbeat (run_linked hbefore) hstep x hx w hw)
    refine fresh_messages hpurged hfresh₂ (fun event hevent identity clock hclock => ?_) hrun
    unfold clientHeartbeatEvents at hevent
    split_ifs at hevent
    · cases List.mem_singleton.1 hevent
      cases hclock
    · cases hevent
  · refine fresh_messages hpast hfresh (fun event hevent identity clock hclock => ?_) hrun
    have hlate := hforward.heard hevent hclock
    have hpositive : 0 < n_heartbeat_expiry := by decide
    omega

/-- A waiting worker has been heard from less than four intervals before the next round of
heartbeats is due. -/
theorem waiting_due (h : start_brokering now now_client polls = .ok m)
    (htimely : Timely now now_client polls) :
    ∀ wrk ∈ m.broker.m_waiting.elems, ∃ w clock, m.broker.workers.find? wrk = some w ∧
      BrokerState.lastHeard w.m_identity ((init now now_client).trace polls) = some clock ∧
      m.heartbeat_at < clock + n_heartbeat_expiry + n_heartbeat_interval := by
  have hfresh : Fresh (m.heartbeat_at - n_heartbeat_interval) m.broker := by
    refine start_brokering_induction (P := fun polls m => Timely now now_client polls →
      Fresh (m.heartbeat_at - n_heartbeat_interval) m.broker) (fun _ _ hx => nomatch hx) ?_ h
      htimely
    intro polls m poll m' hpolls hpast hround htimely
    have hforward := (htimely polls poll [] m rfl hpolls).1
    have hbegun := (start_brokering_paced hpolls htimely.past).begun
    exact round_fresh (start_brokering_broker hpolls) hbegun hforward (hpast htimely.past) hround
  intro wrk hwrk
  have hrun := start_brokering_broker h
  obtain ⟨w, hw⟩ := (run_linked hrun).waiting hwrk
  obtain ⟨clock, hlast, hexpiry⟩ := BrokerState.expiry_heard hrun hw
    fun hnone => run_staffed hrun wrk hwrk ⟨w, hw, hnone⟩
  have hdue := hfresh wrk hwrk w hw
  refine ⟨w, clock, hw, hlast, ?_⟩
  rw [hexpiry] at hdue
  omega

/-- **Who waits for work has been heard from of late.** If the clock does not go back and no round
takes too long, after every round each waiting worker was heard from less than four intervals
ago. -/
theorem waiting_heard (h : start_brokering now now_client polls = .ok m)
    (htimely : Timely now now_client polls) :
    ∀ wrk ∈ m.broker.m_waiting.elems, ∃ w clock, m.broker.workers.find? wrk = some w ∧
      BrokerState.lastHeard w.m_identity ((init now now_client).trace polls) = some clock ∧
      m.now < clock + n_heartbeat_expiry + n_heartbeat_interval := by
  intro wrk hwrk
  obtain ⟨w, clock, hw, hlast, hdue⟩ := waiting_due h htimely wrk hwrk
  exact ⟨w, clock, hw, hlast, (start_brokering_paced h htimely).ahead.trans hdue⟩

theorem waiting_heard_ready :
    ∃ m, start_brokering 0 0 [readyRound, heartbeatRound] = .ok m ∧
      0 ∈ m.broker.m_waiting.elems ∧ ∃ w clock, m.broker.workers.find? 0 = some w ∧
        BrokerState.lastHeard w.m_identity ((init 0 0).trace [readyRound, heartbeatRound]) =
          some clock ∧ m.now < clock + n_heartbeat_expiry + n_heartbeat_interval := by
  obtain ⟨m, hrun, hwaiting⟩ : ∃ m, start_brokering 0 0 [readyRound, heartbeatRound] = .ok m ∧
      0 ∈ m.broker.m_waiting.elems := ⟨_, rfl, by decide⟩
  exact ⟨m, hrun, hwaiting, waiting_heard hrun timely_ready 0 hwaiting⟩

end MainLoop

end ShoppingApp
