import ShoppingApp.Lib.Lease
import ShoppingApp.Lib.Replication
import ShoppingApp.System.BrokerDisconnects
import ShoppingApp.System.MainLoop
import ShoppingApp.System.ReservedNames
import ShoppingApp.Verify.Recv

/-!
# The broker and its workers

The broker's main loop and any number of workers, each in its own loop. A worker is started at any
time; its iterations find anything on its sockets, and what it says reaches the broker in order,
some time after it was said. If no worker is away from the clock for as long as `gap` and no message
is on its way for as long as `delay`, and both leave a worker time for a HEARTBEAT, then the broker
never drops a worker that it has registered or tells one to disconnect (`workforce_kept`), whatever
else it is sent and however its rounds and the iterations of the workers fall together.

A worker that is to connect a second time ends, since its address is bound already; a run in which
that happens goes on as long as the worker is not missed.
-/

namespace ShoppingApp

open ConsistentHashing (Hash)
open Replication (Run)

namespace BrokerState

variable {b b' : BrokerState} {event : Event} {identity name : String} {last : Int}

/-! ## One worker and one event -/

/-- The event brings nothing of the worker. -/
def Event.Without (identity : String) (event : Event) : Prop :=
  ∀ command msg, event.message ≠ some (identity, command, msg)

/-- A worker that the broker knows nothing of. -/
structure Unheard (b : BrokerState) (identity : String) : Prop where
  unknown : b.m_workers.find? identity = none
  untold : identity ∉ b.disconnects

/-- A worker that is registered for a service, and due no earlier than if it had been heard from at
`last`. -/
def OnBooks (b : BrokerState) (identity name : String) (last : Int) : Prop :=
  ∃ wrk w, b.m_workers.find? identity = some wrk ∧ b.workers.find? wrk = some w ∧
    w.m_service = some name ∧ last + n_heartbeat_expiry ≤ w.m_expiry

theorem OnBooks.mono {b : BrokerState} {earlier : Int} (h : OnBooks b identity name last)
    (hle : earlier ≤ last) : OnBooks b identity name earlier := by
  obtain ⟨wrk, w, hfind, hw, hname, hexpiry⟩ := h
  exact ⟨wrk, w, hfind, hw, hname, (Int.add_le_add_right hle _).trans hexpiry⟩

theorem heard_message_of {clock : Int} (h : event.heard identity = some clock) :
    ∃ command msg, event.message = some (identity, command, msg) := by
  unfold Event.heard at h
  split at h
  · rename_i sender empty header command msg clock' now
    split_ifs at h with hheard
    obtain ⟨hheader, rfl, -⟩ := hheard
    exact ⟨cStr command, msg, if_pos hheader⟩
  · cases h

theorem Event.Without.heard (h : event.Without identity) : event.heard identity = none := by
  cases hheard : event.heard identity with
  | none => rfl
  | some clock =>
    obtain ⟨command, msg, hmessage⟩ := heard_message_of hheard
    exact absurd hmessage (h command msg)

theorem Event.Without.not_quits (h : event.Without identity) : ¬ event.quits identity :=
  fun ⟨command, msg, hmessage, _⟩ => h command msg hmessage

theorem step_untold (hlinked : Linked b) (hstep : b.step event = .ok b')
    (huntold : identity ∉ b.disconnects)
    (hdue : ∀ command msg, event.message = some (identity, command, msg) →
      ¬ Dismisses (b.m_workers.find? identity).isSome identity command) :
    identity ∉ b'.disconnects := by
  rw [step_disconnects hlinked hstep, List.mem_append, mem_dismissed]
  rintro (htold | ⟨command, msg, hmessage, hdismisses⟩)
  · exact huntold htold
  · exact hdue command msg hmessage hdismisses

/-- A worker is registered by its own messages only. -/
theorem step_unknown (hlinked : Linked b) (hstep : b.step event = .ok b')
    (hwithout : event.Without identity) (hunknown : b.m_workers.find? identity = none) :
    b'.m_workers.find? identity = none := by
  cases hfind : b'.m_workers.find? identity with
  | none => rfl
  | some wrk =>
    obtain ⟨w, hw, rfl⟩ := (step_linked hlinked hstep).worker hfind
    have hfate : Fate b event wrk (b'.workers.find? wrk) := step_fate hlinked hstep wrk
    rw [hw] at hfate
    cases hfate with
    | kept v hv =>
      rw [show b.m_workers.find? v.m_identity = some wrk from hlinked.identity hv] at hunknown
      cases hunknown
    | made _ clock hnone hheard =>
      rw [hwithout.heard] at hheard
      cases hheard
    | unserved _ hnone hserved hsent =>
      obtain ⟨command, msg, hmessage⟩ := hsent
      exact absurd hmessage (hwithout command msg)

theorem Unheard.step (h : Unheard b identity) (hlinked : Linked b) (hstep : b.step event = .ok b')
    (hwithout : event.Without identity) : Unheard b' identity :=
  ⟨step_unknown hlinked hstep hwithout h.unknown, step_untold hlinked hstep h.untold
    fun command msg hmessage => absurd hmessage (hwithout command msg)⟩

/-- A worker that neither starts anew nor leaves, and whose time is not over, stays on the books. -/
theorem OnBooks.step {last' : Int} (h : OnBooks b identity name last) (hlinked : Linked b)
    (hstep : b.step event = .ok b') (hquits : ¬ event.quits identity)
    (hlast : last' ≤ (event.heard identity).getD last)
    (hreading : ∀ now, event.reading = some now → now < last' + n_heartbeat_expiry) :
    OnBooks b' identity name last' := by
  obtain ⟨wrk, w, hfind, hw, hname, hexpiry⟩ := h
  obtain ⟨v, hv, rfl⟩ := hlinked.worker hfind
  rw [hw, Option.some.injEq] at hv
  subst hv
  have hafter : last' + n_heartbeat_expiry ≤ event.expiryAfter w := by
    unfold Event.expiryAfter
    cases hheard : event.heard w.m_identity with
    | none =>
      rw [hheard, Option.getD_none] at hlast
      exact (Int.add_le_add_right hlast _).trans hexpiry
    | some clock =>
      rw [hheard, Option.getD_some] at hlast
      exact Int.add_le_add_right hlast _
  have hfate : Fate b event wrk (b'.workers.find? wrk) := step_fate hlinked hstep wrk
  cases hfind' : b'.workers.find? wrk with
  | some v =>
    rw [hfind'] at hfate
    cases hfate with
    | kept u hu =>
      rw [hw, Option.some.injEq] at hu
      subst hu
      have hregistered := (step_linked hlinked hstep).identity hfind'
      exact ⟨wrk, _, hregistered, hfind', hname, hafter⟩
    | made _ _ hnone =>
      rw [hw] at hnone
      cases hnone
    | unserved _ hnone =>
      rw [hw] at hnone
      cases hnone
  | none =>
    rw [hfind'] at hfate
    cases hfate with
    | quit u hu hquits' =>
      rw [hw, Option.some.injEq] at hu
      exact absurd (hu ▸ hquits') hquits
    | late u now hu hnow hover =>
      rw [hw, Option.some.injEq] at hu
      subst hu
      exact absurd (hafter.trans hover) (hreading now hnow).not_ge
    | absent hnone =>
      rw [hw] at hnone
      cases hnone

/-- An identity that the broker takes, such as the text of a UUID. -/
structure Named (identity : String) : Prop where
  nonempty : identity ≠ ""
  cStr : ShoppingApp.cStr identity = identity
  free : reserved identity = false

variable {command : String} {msg : ZMsg} {clock now : Int}

/-- The message of an event from a worker. -/
theorem message_envelope (hcStr : cStr identity = identity) :
    (Event.worker (identity :: Worker.envelope command msg) clock now).message =
      some (identity, cStr command, msg) := by
  unfold Worker.envelope ZMsg.push_front Event.message
  dsimp only
  rw [if_pos (by decide), hcStr, ZMsg.cStr_cStr]

theorem heard_envelope (hcStr : cStr identity = identity) :
    (Event.worker (identity :: Worker.envelope command msg) clock now).heard identity =
      if cStr command ∈ [k_mdpw_ready, k_mdpw_reply, k_mdpw_heartbeat] then some clock
        else none := by
  unfold Worker.envelope ZMsg.push_front
  rw [heard_message (by decide), hcStr, ZMsg.cStr_cStr]
  simp only [true_and]

/-- A new worker's READY puts it on the books. -/
theorem step_ready {m_service : String} (hlinked : Linked b) (hnamed : Named identity)
    (hservice : cStr m_service ≠ "") (hunknown : b.m_workers.find? identity = none)
    (hstep : b.step (.worker (identity :: Worker.envelope k_mdpw_ready [m_service]) clock now) =
      .ok b') (hnow : now < clock + n_heartbeat_expiry) :
    OnBooks b' identity (cStr m_service) clock := by
  have hprocess : b.worker_process identity (k_mdpw_ready :: [m_service]) clock now = .ok b' := by
    rw [← hstep, step_envelope, hnamed.cStr]
    rfl
  obtain ⟨b₁, w, hlinked₁, -, hw, hid, hname, hwaits⟩ := worker_process_waits [] clock now hlinked
    hnamed.cStr hunknown hnamed.nonempty hnamed.free hservice
  obtain ⟨b₂, wrk, v, acts, hwaiting, hfind, hv, hserved, -⟩ :=
    worker_waiting_live hlinked₁ hw hname hnow
  rw [← hwaits, hprocess, Except.ok.injEq] at hwaiting
  subst hwaiting
  rw [hid] at hfind
  obtain ⟨u, hu, hidentity⟩ := (step_linked hlinked hstep).worker hfind
  rw [hv, Option.some.injEq] at hu
  subst hu
  refine ⟨wrk, v, hfind, hv, hserved, ?_⟩
  have hfate := step_fate hlinked hstep wrk
  rw [hv] at hfate
  cases hfate with
  | kept u hu =>
    have hknown : b.m_workers.find? u.m_identity = some wrk := hlinked.identity hu
    dsimp only at hidentity
    rw [hidentity, hunknown] at hknown
    cases hknown
  | made _ clock' hnone hheard hexpiry =>
    rw [hidentity, heard_envelope hnamed.cStr, if_pos (by decide), Option.some.injEq] at hheard
    rw [hexpiry, hheard]
  | unserved _ hnone hnoservice =>
    rw [hserved] at hnoservice
    cases hnoservice

end BrokerState

/-! ## What a worker has said -/

/-- What a worker says after its READY. -/
def Talk (msg : ZMsg) : Prop :=
  ∃ command ∈ [k_mdpw_heartbeat, k_mdpw_reply, k_mdpw_worker_occupied], ∃ rest,
    msg = Worker.envelope command rest

/-- What lets the broker's time for a worker start anew. -/
def Renews (msg : ZMsg) : Prop :=
  commandOf msg = some k_mdpw_heartbeat ∨ commandOf msg = some k_mdpw_reply

namespace Talk

variable {identity : String} {msg : ZMsg}

/-- A worker that has said READY neither says it again nor leaves. -/
theorem not_quits (h : Talk msg) (hcStr : cStr identity = identity) (clock now : Int) :
    ¬ (BrokerState.Event.worker (identity :: msg) clock now).quits identity := by
  obtain ⟨command, hcommand, rest, rfl⟩ := h
  rintro ⟨command', msg', hmessage, hquits⟩
  rw [BrokerState.message_envelope hcStr] at hmessage
  cases hmessage
  revert hcommand hquits
  simp only [List.mem_cons, List.not_mem_nil, or_false]
  rintro (rfl | rfl | rfl) <;> decide

theorem heard_renews {clock now : Int} (h : Talk msg) (hcStr : cStr identity = identity)
    (hrenews : Renews msg) :
    (BrokerState.Event.worker (identity :: msg) clock now).heard identity = some clock := by
  obtain ⟨command, -, rest, rfl⟩ := h
  unfold Renews at hrenews
  rw [commandOf_envelope, Option.some.injEq, Option.some.injEq] at hrenews
  rw [BrokerState.heard_envelope hcStr, if_pos]
  rcases hrenews with heq | heq
  · rw [heq]
    decide
  · rw [heq]
    decide

theorem heard_other {clock now : Int} (h : Talk msg) (hcStr : cStr identity = identity)
    (hother : ¬ Renews msg) :
    (BrokerState.Event.worker (identity :: msg) clock now).heard identity = none := by
  obtain ⟨command, hcommand, rest, rfl⟩ := h
  unfold Renews at hother
  rw [commandOf_envelope, Option.some.injEq, Option.some.injEq, not_or] at hother
  rw [BrokerState.heard_envelope hcStr, if_neg]
  simp only [List.mem_cons, List.not_mem_nil, or_false] at hcommand ⊢
  rintro (hready | hreply | hheartbeat)
  · revert hready
    rcases hcommand with rfl | rfl | rfl <;> decide
  · exact hother.2 hreply
  · exact hother.1 hheartbeat

end Talk

/-- What is on its way from a worker, after what was sent at `last`. -/
structure Pending (gap checked due last : Int) (queue : List (ZMsg × Int)) : Prop where
  talk : ∀ message ∈ queue, Talk message.1
  spaced : Lease.Spaced Renews Mdwrk.m_heartbeat gap checked due last queue

/-- An iteration in time. -/
theorem Pending.speaks {gap checked last clock due : Int} {queue : List (ZMsg × Int)} {m : Mdwrk}
    {said : List ZMsg} {returned : Bool} (h : Pending gap checked m.m_heartbeat_at last queue)
    (hspeaks : m.Speaks clock said due returned) (hclock : checked ≤ clock)
    (hgap : clock < checked + gap) :
    Pending gap clock due last (queue ++ said.map fun msg => (msg, clock)) := by
  have hperiod : 0 < Mdwrk.m_heartbeat := by decide
  have hdue := h.spaced.due_le
  constructor
  · intro message hmem
    rcases List.mem_append.1 hmem with hmem | hmem
    · exact h.talk message hmem
    · obtain ⟨msg, hmsg, rfl⟩ := List.mem_map.1 hmem
      cases hspeaks with
      | reply answer => exact ⟨k_mdpw_reply, by decide, answer, List.mem_singleton.1 hmsg⟩
      | work answer =>
        rcases List.mem_cons.1 hmsg with rfl | hmsg
        · exact ⟨k_mdpw_worker_occupied, by decide, _, rfl⟩
        · exact ⟨k_mdpw_reply, by decide, answer, List.mem_singleton.1 hmsg⟩
      | quiet => cases hmsg
      | beat => exact ⟨k_mdpw_heartbeat, by decide, [], List.mem_singleton.1 hmsg⟩
  · cases hspeaks with
    | reply answer =>
      exact h.spaced.renew hperiod hgap (by omega) (.inr (commandOf_envelope _ _))
    | work answer =>
      -- only the reply after it renews
      have hother :
          ¬ Renews (Worker.envelope k_mdpw_worker_occupied [cStr m.worker.worker_id]) := by
        unfold Renews
        rw [commandOf_envelope]
        decide
      have hsaid : Lease.Spaced Renews Mdwrk.m_heartbeat gap clock m.m_heartbeat_at last
          ((queue ++ [(_, clock)]) ++ [(Worker.envelope k_mdpw_reply answer, clock)]) :=
        (h.spaced.say clock hother).renew hperiod hgap (by omega) (.inr (commandOf_envelope _ _))
      rw [List.append_assoc] at hsaid
      exact hsaid
    | quiet hearly =>
      rw [List.map_nil, List.append_nil]
      exact h.spaced.quiet hclock hearly
    | beat hlate =>
      exact h.spaced.renew hperiod hgap (by omega) (.inl (commandOf_envelope _ _))

/-! ## Runs -/

/-- A worker that has been started, what it has said that has not arrived yet, with the times, and
when it has last looked at the clock. -/
structure Hand where
  mdwrk : Mdwrk
  outgoing : List (ZMsg × Int)
  checked : Int

/-- The broker's main loop and the workers that have been started. -/
structure Workforce (ι : Type*) where
  loop : MainLoop
  hands : ι → Option Hand

/-- A time at which the worker has not been away, and none of its messages on its way, for too
long. -/
structure Hand.Prompt (gap delay : Int) (hand : Hand) (reading : Int) : Prop where
  here : reading < hand.checked + gap
  arriving : ∀ message ∈ hand.outgoing, reading < message.2 + delay

namespace Workforce

/-- The service that `run_worker` starts a worker for. -/
def service : String := "LIST_MANAGEMENT"

def ready : ZMsg := Mdwrk.send_to_broker k_mdpw_ready service []

variable {ι : Type*}

/-- A message that a round finds: the oldest one of a worker, no earlier than it was said, or
somebody else's. -/
inductive Arrives [DecidableEq ι] (worker_id : ι → String) (hands : ι → Option Hand) :
    Option (ZMsg × Int × Int) → (ι → Option Hand) → Prop
  | nothing : Arrives worker_id hands none hands
  | message (i : ι) (hand : Hand) (msg : ZMsg) (sent : Int) (rest : List (ZMsg × Int))
      (clock now : Int) (hhand : hands i = some hand) (hout : hand.outgoing = (msg, sent) :: rest)
      (hsent : sent ≤ clock) :
      Arrives worker_id hands (some (worker_id i :: msg, clock, now))
        (Function.update hands i (some { hand with outgoing := rest }))
  | stranger (frames : ZMsg) (clock now : Int)
      (hsender : ∀ i, frames.head?.map cStr ≠ some (worker_id i)) :
      Arrives worker_id hands (some (frames, clock, now)) hands

/-- A worker is started, an iteration that a worker survives, or a round of the broker, at the end
of which no worker is missed. -/
inductive Step [DecidableEq ι] (generateHash : Hash) (text : JsonText) (worker_id : ι → String)
    (gap delay : Int) (s : Workforce ι) : Workforce ι → Prop
  | start (i : ι) (m_worker_pull_bind m_connect_to_worker : String) (db : Database) (clock : Int)
      (mdwrk : Mdwrk) (sends : Sends) (hnew : s.hands i = none)
      (hconnect : (Mdwrk.new m_worker_pull_bind m_connect_to_worker service db).connect_to_broker
        generateHash text (worker_id i) clock = .ok (mdwrk, sends)) :
      Step generateHash text worker_id gap delay s { s with
        hands := Function.update s.hands i
          (some ⟨mdwrk, sends.broker.map fun msg => (msg, clock), clock⟩) }
  | turn (i : ι) (hand : Hand) (look : Look) (mdwrk : Mdwrk) (sends : Sends) (returned : Bool)
      (hhand : s.hands i = some hand)
      (hiteration : hand.mdwrk.iteration generateHash text look = some (mdwrk, sends, returned))
      (hclock : hand.checked ≤ look.clock) (hgap : look.clock < hand.checked + gap) :
      Step generateHash text worker_id gap delay s { s with
        hands := Function.update s.hands i (some ⟨mdwrk,
          hand.outgoing ++ sends.broker.map fun msg => (msg, look.clock), look.clock⟩) }
  | round (poll : Poll) (loop : MainLoop) (hands : ι → Option Hand)
      (harrives : Arrives worker_id s.hands poll.worker hands)
      (hprompt : ∀ i hand event reading, s.hands i = some hand → event ∈ s.loop.events poll →
        event.reading = some reading → hand.Prompt gap delay reading)
      (hround : s.loop.round poll = .ok loop) :
      Step generateHash text worker_id gap delay s ⟨loop, hands⟩

def init (now now_client : Int) : Workforce ι := ⟨MainLoop.init now now_client, fun _ => none⟩

/-! ## How the broker stands to a worker -/

open BrokerState (Event Linked OnBooks Named step_linked)

theorem ready_eq : ready = Worker.envelope k_mdpw_ready [service] := by
  unfold ready Mdwrk.send_to_broker
  rw [if_neg (by decide)]
  rfl

/-- The worker's READY is on its way and the broker has never heard of it, or the worker is on the
books. -/
inductive Standing (gap : Int) (identity : String) (b : BrokerState) (hand : Hand) : Prop
  | coming (sent : Int) (rest : List (ZMsg × Int)) (hout : hand.outgoing = (ready, sent) :: rest)
      (hunheard : b.Unheard identity)
      (hpending : Pending gap hand.checked hand.mdwrk.m_heartbeat_at sent rest)
  | onBooks (last : Int) (hbooks : OnBooks b identity service last)
      (huntold : identity ∉ b.disconnects)
      (hpending : Pending gap hand.checked hand.mdwrk.m_heartbeat_at last hand.outgoing)

variable {gap delay : Int} {identity : String} {b b' : BrokerState} {hand : Hand}
  {event : Event} {msg : ZMsg} {clock now : Int}

/-- What each event of a round finds. -/
def PromptFor (gap delay : Int) (hand : Hand) (event : Event) : Prop :=
  ∀ reading, event.reading = some reading → hand.Prompt gap delay reading

section

variable (hdelay : 0 ≤ delay) (hfits : Mdwrk.m_heartbeat + gap + delay ≤ n_heartbeat_expiry)

include hdelay hfits

/-- At such a time no worker's time is over. -/
theorem reading_lt {due last reading : Int} {queue : List (ZMsg × Int)}
    (h : Pending gap hand.checked due last queue) (hprompt : hand.Prompt gap delay reading)
    (hqueue : ∀ message ∈ queue, message ∈ hand.outgoing) :
    reading < last + n_heartbeat_expiry := by
  have hlt := h.spaced.reading_lt hdelay hprompt.here fun message hmem =>
    hprompt.arriving message (hqueue message hmem)
  omega

theorem Standing.without (h : Standing gap identity b hand) (hlinked : Linked b)
    (hstep : b.step event = .ok b') (hwithout : event.Without identity)
    (hprompt : PromptFor gap delay hand event) : Standing gap identity b' hand := by
  cases h with
  | coming sent rest hout hunheard hpending =>
    exact .coming sent rest hout (hunheard.step hlinked hstep hwithout) hpending
  | onBooks last hbooks huntold hpending =>
    have huntold' := BrokerState.step_untold hlinked hstep huntold
      fun command msg hmessage => absurd hmessage (hwithout command msg)
    refine .onBooks last (hbooks.step hlinked hstep hwithout.not_quits ?_ fun now hnow => ?_)
      huntold' hpending
    · rw [hwithout.heard, Option.getD_none]
    · exact reading_lt hdelay hfits hpending (hprompt now hnow) fun _ => id

/-- The worker's oldest message arrives. -/
theorem Standing.arrives {sent : Int} {rest : List (ZMsg × Int)}
    (h : Standing gap identity b hand) (hlinked : Linked b) (hnamed : Named identity)
    (hout : hand.outgoing = (msg, sent) :: rest) (hsent : sent ≤ clock)
    (hstep : b.step (.worker (identity :: msg) clock now) = .ok b')
    (hprompt : hand.Prompt gap delay now) :
    Standing gap identity b' { hand with outgoing := rest } := by
  have hrest : ∀ message ∈ rest, message ∈ hand.outgoing := by
    rw [hout]
    exact fun message hmem => List.mem_cons_of_mem _ hmem
  cases h with
  | coming sent' rest' hout' hunheard hpending =>
    rw [hout, List.cons.injEq, Prod.mk.injEq] at hout'
    obtain ⟨⟨rfl, rfl⟩, rfl⟩ := hout'
    have hnow := reading_lt hdelay hfits hpending hprompt hrest
    rw [ready_eq] at hstep
    have hbooks := BrokerState.step_ready hlinked hnamed (by decide) hunheard.unknown hstep
      (by omega)
    refine .onBooks sent (hbooks.mono hsent) ?_ hpending
    refine BrokerState.step_untold hlinked hstep hunheard.untold fun command msg hmessage => ?_
    rw [BrokerState.message_envelope hnamed.cStr] at hmessage
    cases hmessage
    rw [hunheard.unknown]
    rintro (hreply | hheartbeat | ⟨-, hreserved⟩)
    · exact absurd hreply (by decide)
    · exact absurd hheartbeat (by decide)
    · rw [hnamed.free] at hreserved
      cases hreserved
  | onBooks last hbooks huntold hpending =>
    obtain ⟨htalk, hspaced⟩ := hpending
    rw [hout] at htalk hspaced
    have hmsg : Talk msg := htalk _ List.mem_cons_self
    have hquits := hmsg.not_quits hnamed.cStr clock now
    have huntold' : identity ∉ b'.disconnects := by
      obtain ⟨wrk, -, hfind, -⟩ := hbooks
      refine BrokerState.step_untold hlinked hstep huntold fun command frames hmessage hdue => ?_
      rw [hfind] at hdue
      exact hquits ⟨command, frames, hmessage, .inl hdue⟩
    have hrest' : ∀ message ∈ rest, Talk message.1 :=
      fun message hmem => htalk message (List.mem_cons_of_mem _ hmem)
    -- the time starts anew, or goes on
    cases hspaced with
    | renewal hrenews _ hspaced =>
      have hpending : Pending gap hand.checked hand.mdwrk.m_heartbeat_at sent rest :=
        ⟨hrest', hspaced⟩
      refine .onBooks sent (hbooks.step hlinked hstep hquits ?_ fun reading hreading => ?_)
        huntold' hpending
      · rw [hmsg.heard_renews hnamed.cStr hrenews]
        exact hsent
      · cases hreading
        exact reading_lt hdelay hfits hpending hprompt hrest
    | other hother hspaced =>
      have hpending : Pending gap hand.checked hand.mdwrk.m_heartbeat_at last rest :=
        ⟨hrest', hspaced⟩
      refine .onBooks last (hbooks.step hlinked hstep hquits ?_ fun reading hreading => ?_)
        huntold' hpending
      · rw [hmsg.heard_other hnamed.cStr hother, Option.getD_none]
      · cases hreading
        exact reading_lt hdelay hfits hpending hprompt hrest

end

/-! ## Rounds -/

theorem without_of_quiet (h : event.message = none) : event.Without identity :=
  fun command msg hmessage => by rw [h] at hmessage; cases hmessage

theorem without_of_sender {frames : ZMsg} (h : frames.head?.map cStr ≠ some identity) :
    (Event.worker frames clock now).Without identity := by
  intro command msg hmessage
  unfold Event.message at hmessage
  split at hmessage
  · rename_i heq
    cases heq
    split_ifs at hmessage
    cases hmessage
    exact h rfl
  · cases hmessage

/-- The events of a round, apart from what it finds from workers, bring nothing of a worker. -/
theorem events_split (m : MainLoop) (poll : Poll) : ∃ before after : List Event,
    m.events poll = before ++ (MainLoop.workerEvents poll ++ after) ∧
      (∀ event ∈ before, event.message = none) ∧ ∀ event ∈ after, event.message = none := by
  refine ⟨MainLoop.clientEvents poll, m.heartbeatEvents poll ++ m.clientHeartbeatEvents poll, ?_,
    fun event hmem => ?_, fun event hmem => ?_⟩
  · unfold MainLoop.events MainLoop.workEvents
    simp only [List.append_assoc]
  · unfold MainLoop.clientEvents at hmem
    cases hclient : poll.client with
    | none =>
      rw [hclient] at hmem
      cases hmem
    | some message =>
      rw [hclient] at hmem
      rw [List.mem_singleton.1 hmem]
      rfl
  · rcases List.mem_append.1 hmem with hmem | hmem
    · unfold MainLoop.heartbeatEvents at hmem
      split_ifs at hmem
      · rw [List.mem_singleton.1 hmem]
        rfl
      · cases hmem
    · unfold MainLoop.clientHeartbeatEvents at hmem
      split_ifs at hmem
      · rw [List.mem_singleton.1 hmem]
        rfl
      · cases hmem

theorem workerEvents_of {poll : Poll} {frames : ZMsg}
    (h : poll.worker = some (frames, clock, now)) :
    MainLoop.workerEvents poll = [.worker frames clock now] := by
  unfold MainLoop.workerEvents
  rw [h]
  rfl

theorem foldlM_append_ok {before after : List Event}
    (h : (before ++ after).foldlM BrokerState.step b = .ok b') :
    ∃ b₁, before.foldlM BrokerState.step b = .ok b₁ ∧
      after.foldlM BrokerState.step b₁ = .ok b' := by
  rw [List.foldlM_append] at h
  cases hbefore : before.foldlM BrokerState.step b with
  | error f =>
    rw [hbefore] at h
    cases h
  | ok b₁ =>
    rw [hbefore] at h
    exact ⟨b₁, rfl, h⟩

/-- What holds of the broker and all workers. -/
structure Staffing (worker_id : ι → String) (gap : Int) (s : Workforce ι) : Prop where
  linked : Linked s.loop.broker
  unheard : ∀ i, s.hands i = none → s.loop.broker.Unheard (worker_id i)
  standing : ∀ i hand, s.hands i = some hand →
    Standing gap (worker_id i) s.loop.broker hand

variable {worker_id : ι → String} {s t : Workforce ι} {generateHash : Hash} {text : JsonText}
  {loop : MainLoop} {i : ι}

/-- Something becomes of one worker. -/
theorem Staffing.update [DecidableEq ι] (hlinked : Linked loop.broker)
    (hothers : ∀ j, j ≠ i →
      (s.hands j = none → loop.broker.Unheard (worker_id j)) ∧
        ∀ hand, s.hands j = some hand → Standing gap (worker_id j) loop.broker hand)
    (hown : Standing gap (worker_id i) loop.broker hand) :
    Staffing worker_id gap ⟨loop, Function.update s.hands i (some hand)⟩ := by
  refine ⟨hlinked, fun j hnone => ?_, fun j hand' hhand' => ?_⟩
  · by_cases hne : j = i
    · subst hne
      dsimp only at hnone
      rw [Function.update_self] at hnone
      cases hnone
    · dsimp only at hnone
      rw [Function.update_of_ne hne] at hnone
      exact (hothers j hne).1 hnone
  · by_cases hne : j = i
    · subst hne
      dsimp only at hhand'
      rw [Function.update_self, Option.some.injEq] at hhand'
      subst hhand'
      exact hown
    · dsimp only at hhand'
      rw [Function.update_of_ne hne] at hhand'
      exact (hothers j hne).2 hand' hhand'

section

variable (hdelay : 0 ≤ delay) (hfits : Mdwrk.m_heartbeat + gap + delay ≤ n_heartbeat_expiry)

include hdelay hfits

theorem Standing.events {events : List Event} (h : Standing gap identity b hand)
    (hlinked : Linked b) (hrun : events.foldlM BrokerState.step b = .ok b')
    (hwithout : ∀ event ∈ events, event.Without identity)
    (hprompt : ∀ event ∈ events, PromptFor gap delay hand event) :
    Linked b' ∧ Standing gap identity b' hand := by
  refine BrokerState.run_keeps (fun b => Standing gap identity b hand)
    (fun event hmem _ _ hlinked h hstep => ?_) hlinked h hrun
  exact h.without hdelay hfits hlinked hstep (hwithout event hmem) (hprompt event hmem)

variable {poll : Poll}

/-- A round that brings nothing of a worker. -/
theorem Staffing.others (h : Staffing worker_id gap s)
    (hprompt : ∀ hand, s.hands i = some hand →
      ∀ event ∈ s.loop.events poll, PromptFor gap delay hand event)
    (hrun : (s.loop.events poll).foldlM BrokerState.step s.loop.broker = .ok loop.broker)
    (hwithout : ∀ event ∈ s.loop.events poll, event.Without (worker_id i)) :
    (s.hands i = none → loop.broker.Unheard (worker_id i)) ∧
      ∀ hand, s.hands i = some hand → Standing gap (worker_id i) loop.broker hand := by
  refine ⟨fun hnone => ?_, fun hand hhand => ?_⟩
  · exact (BrokerState.run_keeps (fun b => b.Unheard (worker_id i))
      (fun event hmem _ _ hlinked hunheard hstep =>
        hunheard.step hlinked hstep (hwithout event hmem)) h.linked (h.unheard i hnone) hrun).2
  · exact ((h.standing i hand hhand).events hdelay hfits h.linked hrun hwithout
      (hprompt hand hhand)).2

/-- A round that brings the worker's oldest message. -/
theorem Staffing.arrives {sent : Int} {rest : List (ZMsg × Int)} (h : Staffing worker_id gap s)
    (hnamed : Named (worker_id i)) (hhand : s.hands i = some hand)
    (hout : hand.outgoing = (msg, sent) :: rest) (hsent : sent ≤ clock)
    (hpoll : poll.worker = some (worker_id i :: msg, clock, now))
    (hprompt : ∀ event ∈ s.loop.events poll, PromptFor gap delay hand event)
    (hrun : (s.loop.events poll).foldlM BrokerState.step s.loop.broker = .ok loop.broker) :
    Standing gap (worker_id i) loop.broker { hand with outgoing := rest } := by
  obtain ⟨before, after, heq, hbefore, hafter⟩ := events_split s.loop poll
  rw [workerEvents_of hpoll] at heq
  rw [heq] at hrun hprompt
  obtain ⟨b₁, hrun₁, hrun⟩ := foldlM_append_ok hrun
  rw [List.singleton_append, List.foldlM_cons] at hrun
  -- up to the message, the message, and what comes after it
  obtain ⟨hlinked₁, hstanding₁⟩ := (h.standing i hand hhand).events hdelay hfits h.linked hrun₁
    (fun event hmem => without_of_quiet (hbefore event hmem))
    fun event hmem => hprompt event (List.mem_append_left _ hmem)
  cases hstep : b₁.step (.worker (worker_id i :: msg) clock now) with
  | error f =>
    rw [hstep] at hrun
    cases hrun
  | ok b₂ =>
    rw [hstep] at hrun
    have hmessage : hand.Prompt gap delay now := by
      refine hprompt (.worker (worker_id i :: msg) clock now) (List.mem_append_right _ ?_) now rfl
      exact List.mem_append_left _ (List.mem_singleton_self _)
    have hstanding₂ := hstanding₁.arrives hdelay hfits hlinked₁ hnamed hout hsent hstep hmessage
    refine (hstanding₂.events hdelay hfits (step_linked hlinked₁ hstep) hrun
      (fun event hmem => without_of_quiet (hafter event hmem)) fun event hmem reading hreading =>
        ?_).2
    have hlater := hprompt event (List.mem_append_right _ (List.mem_append_right _ hmem)) reading
      hreading
    refine ⟨hlater.here, fun message hmem => hlater.arriving message ?_⟩
    rw [hout]
    exact List.mem_cons_of_mem _ hmem

theorem Staffing.round [DecidableEq ι] {hands : ι → Option Hand} (h : Staffing worker_id gap s)
    (hinjective : Function.Injective worker_id) (hnamed : ∀ i, Named (worker_id i))
    (harrives : Arrives worker_id s.hands poll.worker hands)
    (hprompt : ∀ i hand event reading, s.hands i = some hand → event ∈ s.loop.events poll →
      event.reading = some reading → hand.Prompt gap delay reading)
    (hround : s.loop.round poll = .ok loop) : Staffing worker_id gap ⟨loop, hands⟩ := by
  have hrun : (s.loop.events poll).foldlM BrokerState.step s.loop.broker = .ok loop.broker := by
    rw [← MainLoop.round_broker, hround]
    rfl
  have hlinked : Linked loop.broker :=
    (BrokerState.run_keeps (fun _ => True) (fun _ _ _ _ _ _ _ => trivial) h.linked trivial hrun).1
  have hpromptFor : ∀ i hand, s.hands i = some hand →
      ∀ event ∈ s.loop.events poll, PromptFor gap delay hand event :=
    fun i hand hhand event hmem reading => hprompt i hand event reading hhand hmem
  obtain ⟨before, after, heq, hbefore, hafter⟩ := events_split s.loop poll
  -- all but what comes from a worker is without any of them
  have hwithout : ∀ i, (∀ event ∈ MainLoop.workerEvents poll, event.Without (worker_id i)) →
      ∀ event ∈ s.loop.events poll, event.Without (worker_id i) := by
    intro i hworker event hmem
    rw [heq] at hmem
    rcases List.mem_append.1 hmem with hmem | hmem
    · exact without_of_quiet (hbefore event hmem)
    · exact (List.mem_append.1 hmem).elim (hworker event) fun hmem =>
        without_of_quiet (hafter event hmem)
  have hothers : (∀ i, ∀ event ∈ MainLoop.workerEvents poll, event.Without (worker_id i)) →
      Staffing worker_id gap ⟨loop, s.hands⟩ := fun hworker => {
    linked := hlinked
    unheard := fun i => (h.others hdelay hfits (hpromptFor i) hrun (hwithout i (hworker i))).1
    standing := fun i => (h.others hdelay hfits (hpromptFor i) hrun (hwithout i (hworker i))).2 }
  generalize hpoll : poll.worker = found at harrives
  cases harrives with
  | nothing =>
    refine hothers fun i event hmem => ?_
    unfold MainLoop.workerEvents at hmem
    rw [hpoll] at hmem
    cases hmem
  | stranger frames clock now hsender =>
    refine hothers fun i event hmem => ?_
    rw [workerEvents_of hpoll] at hmem
    rw [List.mem_singleton.1 hmem]
    exact without_of_sender (hsender i)
  | message i hand msg sent rest clock now hhand hout hsent =>
    have hj : ∀ j, j ≠ i → ∀ event ∈ MainLoop.workerEvents poll, event.Without (worker_id j) := by
      intro j hne event hmem
      rw [workerEvents_of hpoll] at hmem
      rw [List.mem_singleton.1 hmem]
      refine without_of_sender fun heq => hne (hinjective ?_)
      rw [List.head?_cons, Option.map_some, (hnamed i).cStr] at heq
      exact (Option.some.inj heq).symm
    refine .update hlinked (fun j hne => ?_) ?_
    · exact h.others hdelay hfits (hpromptFor j) hrun (hwithout j (hj j hne))
    · exact h.arrives hdelay hfits (hnamed i) hhand hout hsent hpoll (hpromptFor i hand hhand) hrun

end

/-! ## Steps of a worker -/

/-- A worker is started: it says READY. -/
theorem Staffing.start [DecidableEq ι] {m_worker_pull_bind m_connect_to_worker : String}
    {db : Database} {mdwrk : Mdwrk} {sends : Sends} (h : Staffing worker_id gap s)
    (hnew : s.hands i = none)
    (hconnect : (Mdwrk.new m_worker_pull_bind m_connect_to_worker service db).connect_to_broker
      generateHash text (worker_id i) clock = .ok (mdwrk, sends)) :
    Staffing worker_id gap { s with
      hands := Function.update s.hands i
        (some ⟨mdwrk, sends.broker.map fun msg => (msg, clock), clock⟩) } := by
  have hconnected := Mdwrk.connect_to_broker_connected hconnect
  have hdue := hconnected.due
  refine .update h.linked (fun j _ => ⟨h.unheard j, h.standing j⟩) ?_
  have hperiod : 0 < Mdwrk.m_heartbeat := by decide
  have hspaced : Lease.Spaced Renews Mdwrk.m_heartbeat gap clock mdwrk.m_heartbeat_at clock [] :=
    .nil (Int.le_refl clock) (by omega) (by omega)
  refine .coming clock [] ?_ (h.unheard i hnew) ⟨fun message hmem => ?_, hspaced⟩
  · rw [hconnected.sent]
    rfl
  · cases hmem

/-- An iteration in time. -/
theorem Staffing.turn [DecidableEq ι] {look : Look} {mdwrk : Mdwrk} {sends : Sends}
    {returned : Bool} (h : Staffing worker_id gap s) (hhand : s.hands i = some hand)
    (hbound : hand.mdwrk.m_worker_pull = true)
    (hiteration : hand.mdwrk.iteration generateHash text look = some (mdwrk, sends, returned))
    (hclock : hand.checked ≤ look.clock) (hgap : look.clock < hand.checked + gap) :
    Staffing worker_id gap { s with
      hands := Function.update s.hands i (some ⟨mdwrk,
        hand.outgoing ++ sends.broker.map fun msg => (msg, look.clock), look.clock⟩) } := by
  have hspeaks := (Mdwrk.iteration_turn hbound hiteration).speaks
  refine .update h.linked (fun j _ => ⟨h.unheard j, h.standing j⟩) ?_
  cases h.standing i hand hhand with
  | coming sent rest hout hunheard hpending =>
    refine .coming sent _ ?_ hunheard (hpending.speaks hspeaks hclock hgap)
    dsimp only
    rw [hout]
    rfl
  | onBooks last hbooks huntold hpending =>
    exact .onBooks last hbooks huntold (hpending.speaks hspeaks hclock hgap)

/-- Every worker that has been started is connected. -/
def Bound (s : Workforce ι) : Prop :=
  ∀ i hand, s.hands i = some hand → hand.mdwrk.m_worker_pull = true

theorem Bound.update [DecidableEq ι] (h : Bound s) (hown : hand.mdwrk.m_worker_pull = true) :
    Bound ⟨loop, Function.update s.hands i (some hand)⟩ := by
  intro j hand' hhand'
  dsimp only at hhand'
  by_cases hne : j = i
  · subst hne
    rw [Function.update_self, Option.some.injEq] at hhand'
    subst hhand'
    exact hown
  · rw [Function.update_of_ne hne] at hhand'
    exact h j hand' hhand'

theorem Bound.step [DecidableEq ι] (h : Bound s)
    (hstep : Step generateHash text worker_id gap delay s t) : Bound t := by
  cases hstep with
  | start i _ _ _ _ _ _ _ hconnect =>
    exact h.update (Mdwrk.connect_to_broker_connected hconnect).bound
  | turn i hand look mdwrk sends returned hhand hiteration =>
    exact h.update (Mdwrk.iteration_turn (h i hand hhand) hiteration).bound
  | round poll loop hands harrives =>
    generalize poll.worker = found at harrives
    cases harrives with
    | nothing => exact h
    | stranger => exact h
    | message i hand _ _ _ _ _ hhand => exact h.update (h i hand hhand)

/-! ## The result -/

/-- **The broker keeps its workers.** In every run of the broker's loop and the loops of its
workers, no worker is ever told to disconnect, and it is on the books as soon as its READY has
arrived. -/
theorem workforce_kept [DecidableEq ι] {now now_client : Int}
    (hinjective : Function.Injective worker_id) (hnamed : ∀ i, Named (worker_id i))
    (hdelay : 0 ≤ delay) (hfits : Mdwrk.m_heartbeat + gap + delay ≤ n_heartbeat_expiry)
    (hrun : Run (Step generateHash text worker_id gap delay) (init now now_client) s)
    (hhand : s.hands i = some hand) :
    worker_id i ∉ s.loop.broker.disconnects ∧
      ((∃ sent rest, hand.outgoing = (ready, sent) :: rest ∧
        s.loop.broker.m_workers.find? (worker_id i) = none) ∨
      ∃ wrk w, s.loop.broker.m_workers.find? (worker_id i) = some wrk ∧
        s.loop.broker.workers.find? wrk = some w ∧ w.m_service = some service) := by
  obtain ⟨hstaffing, -⟩ : Staffing worker_id gap s ∧ Bound s := by
    refine Run.invariant (fun s => Staffing worker_id gap s ∧ Bound s) ?_
      (fun s t h hstep => ⟨?_, h.2.step hstep⟩) hrun
    · exact ⟨⟨Linked.new, fun _ _ => ⟨rfl, List.not_mem_nil⟩, fun _ _ hnone => nomatch hnone⟩,
        fun _ _ hnone => nomatch hnone⟩
    · obtain ⟨h, hbound⟩ := h
      cases hstep with
      | start i _ _ _ _ _ _ hnew hconnect => exact h.start hnew hconnect
      | turn i hand look mdwrk sends returned hhand hiteration hclock hgap =>
        exact h.turn hhand (hbound i hand hhand) hiteration hclock hgap
      | round poll loop hands harrives hprompt hround =>
        exact h.round hdelay hfits hinjective hnamed harrives hprompt hround
  cases hstaffing.standing i hand hhand with
  | coming sent rest hout hunheard =>
    exact ⟨hunheard.untold, .inl ⟨sent, rest, hout, hunheard.unknown⟩⟩
  | onBooks last hbooks huntold =>
    obtain ⟨wrk, w, hfind, hw, hname, -⟩ := hbooks
    exact ⟨huntold, .inr ⟨wrk, w, hfind, hw, hname⟩⟩

/-- A round in which the READY of a worker arrives. -/
def arrival : Poll where
  client := none
  worker := some ("w1" :: ready, 1000, 1000)
  xsub := none
  clock := 1000
  purge := 1000
  again := 1000
  client_clock := 1000

/-- A worker is on the books when it has its first HEARTBEAT on its way. -/
theorem workforce_kept_one : ∃ (s : Workforce Unit) (hand : Hand),
    Run (Step (fun _ => 0) ⟨fun _ => none, fun _ => ""⟩ (fun _ => "w1") 2600 2400) (init 0 0) s ∧
      s.hands () = some hand ∧
      hand.outgoing = [(Mdwrk.send_to_broker k_mdpw_heartbeat "" [], 2500)] ∧
      "w1" ∉ s.loop.broker.disconnects ∧
      ∃ wrk w, s.loop.broker.m_workers.find? "w1" = some wrk ∧
        s.loop.broker.workers.find? wrk = some w ∧ w.m_service = some service := by
  let step : Workforce Unit → Workforce Unit → Prop :=
    Step (fun _ => 0) ⟨fun _ => none, fun _ => ""⟩ (fun _ => "w1") 2600 2400
  have hstart : Run step (init 0 0) _ := .single (.start () "tcp://*:5555" "" ∅ 0 _ _ rfl rfl)
  have hround : Run step (init 0 0) _ := hstart.tail
    (.round arrival _ _ (.message () _ ready 0 [] 1000 1000 rfl rfl (by decide))
      (fun _ hand event reading hhand hmem hreading => by
        cases hhand
        rw [List.mem_singleton.1 hmem] at hreading
        cases hreading
        refine ⟨by decide, fun message hmem => ?_⟩
        rw [List.mem_singleton.1 hmem]
        decide) rfl)
  have hturn : Run step (init 0 0) _ := hround.tail
    (.turn () _ ⟨none, none, ("w2", 2500), 2500⟩ _ _ _ rfl rfl (by decide) (by decide))
  refine ⟨_, _, hturn, rfl, rfl, ?_⟩
  have hkept := workforce_kept (i := ()) (fun _ _ _ => rfl)
    (fun _ => ⟨by decide, by decide, by decide⟩) (by decide) (by decide) hturn rfl
  refine ⟨hkept.1, hkept.2.resolve_left ?_⟩
  rintro ⟨sent, rest, hout, -⟩
  cases hout

end Workforce

end ShoppingApp
