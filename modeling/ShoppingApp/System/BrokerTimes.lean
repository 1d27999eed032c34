import ShoppingApp.System.BrokerFates

/-!
# The broker's workers and the clock

At any time a worker of a service is due `n_heartbeat_expiry` after the broker has last heard from
it (`expiry_heard`), and one that keeps talking is never dropped (`worker_kept`). Only what the
broker hears from a worker makes it wait (`step_expiry`), and a round of heartbeats drops all silent
ones that do (`heartbeat_round`).
-/

namespace ShoppingApp

open Replication (Run)

namespace BrokerState

variable {b b' b₁ : BrokerState} {wrk : ℕ} {w : BrokerWorker} {name : String} {event : Event}
  {clock now : Int}

/-! ## Runs -/

/-- The reading of the clock when a worker was last heard from. -/
def lastHeard (identity : String) (events : List Event) : Option Int :=
  (events.filterMap (Event.heard identity)).getLast?

theorem lastHeard_append (identity : String) (events : List Event) (event : Event) :
    lastHeard identity (events ++ [event]) =
      (event.heard identity).or (lastHeard identity events) := by
  unfold lastHeard
  rw [List.filterMap_append, List.filterMap_cons]
  cases event.heard identity with
  | none => simp
  | some clock => simp

theorem run_concat {past : List Event} :
    run (past ++ [event]) = .ok b ↔ ∃ b₀, run past = .ok b₀ ∧ b₀.step event = .ok b := by
  unfold run
  rw [List.foldlM_append]
  cases hpast : past.foldlM step new with
  | error f => exact ⟨nofun, fun ⟨_, h, _⟩ => nomatch h⟩
  | ok b₀ =>
    change (b₀.step event >>= pure) = .ok b ↔ _
    rw [bind_pure]
    exact ⟨fun h => ⟨b₀, rfl, h⟩, fun ⟨_, h, hstep⟩ => by cases h; exact hstep⟩

/-- The worker is due `n_heartbeat_expiry` after it was last heard from. -/
def OnTime (events : List Event) (w : BrokerWorker) : Prop :=
  ∃ clock, lastHeard w.m_identity events = some clock ∧ w.m_expiry = clock + n_heartbeat_expiry

theorem OnTime.expiryAfter {events : List Event} (h : OnTime events w) :
    OnTime (events ++ [event]) { w with m_expiry := event.expiryAfter w } := by
  obtain ⟨clock, hlast, hexpiry⟩ := h
  unfold OnTime
  rw [lastHeard_append]
  dsimp only
  rw [Event.expiryAfter]
  cases hheard : event.heard w.m_identity with
  | none => exact ⟨clock, hlast, hexpiry⟩
  | some reading => exact ⟨reading, rfl, rfl⟩

/-- A worker of a service is due three intervals after the broker last heard from it. -/
theorem expiry_heard {events : List Event} (h : run events = .ok b)
    (hw : b.workers.find? wrk = some w) (hserved : w.m_service ≠ none) : OnTime events w := by
  induction events using List.reverseRecOn generalizing b wrk w with
  | nil =>
    cases h
    cases hw
  | append_singleton past event ih =>
    obtain ⟨b₀, hpast, hstep⟩ := run_concat.1 h
    have hfate : Fate b₀ event wrk (b.workers.find? wrk) := step_fate (run_linked hpast) hstep wrk
    rw [hw] at hfate
    cases hfate with
    | kept v hv => exact (ih hpast hv hserved).expiryAfter
    | made _ clock _ hheard hexpiry =>
      refine ⟨clock, ?_, hexpiry⟩
      rw [lastHeard_append, hheard]
      rfl
    | unserved _ _ hnone => exact absurd hnone hserved

/-- The event does not come too late for the worker. -/
def InTime (identity : String) (events : List Event) (event : Event) : Prop :=
  ∀ now clock, event.reading = some now →
    lastHeard identity (events ++ [event]) = some clock → now < clock + n_heartbeat_expiry

/-- **A worker of a service that neither starts anew nor leaves is kept as long as no event comes
too late for it.** -/
theorem worker_kept {past more : List Event} {b₀ : BrokerState} (hpast : run past = .ok b₀)
    (hw : b₀.workers.find? wrk = some w) (hserved : w.m_service ≠ none)
    (hrun : run (past ++ more) = .ok b)
    (hstays : ∀ before event after, more = before ++ event :: after →
      ¬ event.quits w.m_identity ∧ InTime w.m_identity (past ++ before) event) :
    b.m_workers.find? w.m_identity = some wrk ∧ ∃ v, b.workers.find? wrk = some v ∧
      v.m_identity = w.m_identity ∧ v.m_service = w.m_service ∧ OnTime (past ++ more) v := by
  have hkept : ∃ v, b.workers.find? wrk = some v ∧ v.m_identity = w.m_identity ∧
      v.m_service = w.m_service := by
    induction more using List.reverseRecOn generalizing b with
    | nil =>
      rw [List.append_nil, hpast, Except.ok.injEq] at hrun
      exact ⟨w, hrun ▸ hw, rfl, rfl⟩
    | append_singleton more event ih =>
      rw [← List.append_assoc] at hrun
      obtain ⟨b₁, hmore, hstep⟩ := run_concat.1 hrun
      obtain ⟨v, hv, hidentity, hservice⟩ := ih hmore fun before event' after heq =>
        hstays before event' (after ++ [event]) (by rw [heq, List.append_assoc]; rfl)
      obtain ⟨hquits, hin⟩ := hstays more event [] rfl
      have hfate : Fate b₁ event wrk (b.workers.find? wrk) :=
        step_fate (run_linked hmore) hstep wrk
      -- of what can become of the worker, only that it stays is left
      generalize b.workers.find? wrk = r at hfate ⊢
      cases hfate with
      | kept v' hv' =>
        rw [hv, Option.some.injEq] at hv'
        subst hv'
        exact ⟨_, rfl, hidentity, hservice⟩
      | quit v' hv' hquits' =>
        rw [hv, Option.some.injEq] at hv'
        subst hv'
        exact absurd (hidentity ▸ hquits') hquits
      | late v' now hv' hreading hover =>
        rw [hv, Option.some.injEq] at hv'
        subst hv'
        have hontime : OnTime (past ++ more) v :=
          expiry_heard hmore hv fun hnone => hserved (hservice ▸ hnone)
        obtain ⟨clock, hlast, hexpiry⟩ : OnTime (past ++ more ++ [event]) _ := hontime.expiryAfter
        dsimp only at hlast hexpiry
        rw [hidentity] at hlast
        rw [hexpiry] at hover
        exact absurd (hin now clock hreading hlast) hover.not_gt
      | absent hnone =>
        rw [hv] at hnone
        cases hnone
      | made v' clock hnone =>
        rw [hv] at hnone
        cases hnone
      | unserved v' hnone =>
        rw [hv] at hnone
        cases hnone
  obtain ⟨v, hv, hidentity, hservice⟩ := hkept
  refine ⟨hidentity ▸ (run_linked hrun).identity hv, v, hv, hidentity, hservice, ?_⟩
  exact expiry_heard hrun hv fun hnone => hserved (hservice ▸ hnone)

theorem worker_kept_heartbeat :
    ∃ b, run ([fromWorker "w1" k_mdpw_ready ["lists"] 0 0] ++
        [fromWorker "w1" k_mdpw_heartbeat [] 2500 2500, .heartbeat 9000]) = .ok b ∧
      b.m_workers.find? "w1" = some 0 := by
  obtain ⟨b₀, hpast, hw⟩ : ∃ b₀, run [fromWorker "w1" k_mdpw_ready ["lists"] 0 0] = .ok b₀ ∧
      b₀.workers.find? 0 = some ⟨"w1", some "lists", 7500⟩ := ⟨_, rfl, by decide⟩
  obtain ⟨b, hrun⟩ : ∃ b, run ([fromWorker "w1" k_mdpw_ready ["lists"] 0 0] ++
      [fromWorker "w1" k_mdpw_heartbeat [] 2500 2500, .heartbeat 9000]) = .ok b := ⟨_, rfl⟩
  refine ⟨b, hrun, (worker_kept hpast hw (by decide) hrun ?_).1⟩
  intro before event after heq
  rcases before with _ | ⟨heartbeat, _ | ⟨round, before⟩⟩
  · cases heq
    refine ⟨?_, fun now clock hreading hlast => ?_⟩
    · rintro ⟨command, msg, hmessage, hquits⟩
      cases hmessage
      exact absurd hquits (by decide)
    · cases hreading
      cases hlast
      decide
  · cases heq
    refine ⟨?_, fun now clock hreading hlast => ?_⟩
    · rintro ⟨command, msg, hmessage, -⟩
      cases hmessage
    · cases hreading
      cases hlast
      decide
  · simp at heq

/-! ## Workers that wait -/

/-- Every waiting worker has a service. -/
def Staffed (b : BrokerState) : Prop := ∀ wrk ∈ b.m_waiting.elems, ¬ b.Unserved wrk

variable {who : ℕ → Prop} {again : Prop}

theorem Quiet.waiting (h : Quiet who b b') {x : ℕ} (hx : x ∈ b'.m_waiting.elems) :
    x ∈ b.m_waiting.elems := by
  cases h with
  | erase wrk w =>
    rw [erase_m_waiting] at hx
    exact (SortedSet.mem_erase.1 hx).1
  | unlist => exact (SortedSet.mem_erase.1 hx).1
  | addService => exact hx
  | attach => exact hx
  | touch => exact hx
  | toWorker => exact hx
  | toClient => exact hx
  | toClientHeartbeat => exact hx
  | client => exact hx

theorem Quiet.staffed (h : Quiet who b b') (hstaffed : Staffed b) : Staffed b' :=
  fun x hx hunserved => hstaffed x (h.waiting hx) (h.unserved hunserved)

theorem Arrive.staffed (h : Arrive again who name b b') (hstaffed : Staffed b) : Staffed b' := by
  intro x hx hunserved
  have hbefore := h.unserved hunserved
  cases h with
  | enlist wrk w clock hw hwho hname =>
    rcases SortedSet.mem_insert.1 hx with rfl | hx
    · obtain ⟨v, hv, hnone⟩ := hbefore
      rw [hw, Option.some.injEq] at hv
      rw [← hv, hname] at hnone
      cases hnone
    · exact hstaffed x hx hbefore
  | push => exact hstaffed x hx hbefore

theorem run_staffed {events : List Event} (h : run events = .ok b) : Staffed b := by
  refine (run_keeps Staffed ?_ Linked.new (fun _ hx => nomatch hx) h).2
  intro event _ b₁ b₂ hlinked hstaffed hstep
  obtain ⟨b₀, who, hrequired, -, hhandled⟩ := step_stepped hlinked hstep
  have hstaffed₀ : Linked b₀ ∧ Staffed b₀ := by
    refine ⟨hrequired.linked hlinked, ?_⟩
    cases hrequired with
    | known => exact hstaffed
    | register sender hsender hcStr hnone =>
      intro x hx hunserved
      -- the worker just made does not wait
      obtain ⟨v, hv⟩ := hlinked.waiting hx
      obtain ⟨v', hv', hnone'⟩ := hunserved
      rw [register, SortedMap.find?_set_ne _ _ (hlinked.fresh hv).ne] at hv'
      exact hstaffed x hx ⟨v', hv', hnone'⟩
  refine (hhandled.keeps (fun b => Staffed b) ?_ ?_ ?_ hstaffed₀.2)
  · exact fun _ _ hb hquiet => hquiet.staffed hb
  · exact fun _ _ _ hb harrive => harrive.staffed hb
  · intro name b b' hb hassign
    cases hassign with
    | assign => exact fun x hx => hb x (SortedSet.mem_erase.1 hx).1

/-! ## Who comes to wait -/

theorem Handled.waiting (h : Handled again who b b') {x : ℕ} (hx : x ∈ b'.m_waiting.elems) :
    x ∈ b.m_waiting.elems ∨ who x := by
  refine h.keeps (fun b₁ => x ∈ b₁.m_waiting.elems → x ∈ b.m_waiting.elems ∨ who x)
    (fun _ _ hb hquiet hx => hb (hquiet.waiting hx)) ?_ ?_ .inl hx
  · intro name b₁ b₂ hb harrive hx
    cases harrive with
    | enlist wrk w clock hw hwho =>
      rcases SortedSet.mem_insert.1 hx with rfl | hx
      · exact .inr hwho
      · exact hb hx
    | push => exact hb hx
  · intro name b₁ b₂ hb hassign hx
    cases hassign with
    | assign => exact hb (SortedSet.mem_erase.1 hx).1

theorem Quiets.waiting (h : Quiets who b b') {x : ℕ} (hx : x ∈ b'.m_waiting.elems) :
    x ∈ b.m_waiting.elems :=
  Run.invariant (fun b₁ => x ∈ b₁.m_waiting.elems → x ∈ b.m_waiting.elems) id
    (fun _ _ hb hquiet hx => hb (hquiet.waiting hx)) h hx

/-- Only a message that the broker hears a worker by makes it wait. -/
theorem worker_process_waiting {sender : String} {b₀ : BrokerState}
    (h : Entered b sender b₀ wrk w) (hrequire : b.worker_require sender = .ok (b₀, wrk))
    (command : String) (msg : ZMsg) (clock now : Int) :
    Ends (fun _ => True) (fun b' => ∀ x ∈ b'.m_waiting.elems, x ∈ b₀.m_waiting.elems ∨
        x = wrk ∧ cStr command ∈ [k_mdpw_ready, k_mdpw_reply, k_mdpw_heartbeat])
      (b.worker_process sender (command :: msg) clock now) := by
  have hsession := h.session
  rw [worker_process_eq hrequire]
  have hsettled : ∀ {worker_ready : Bool} {b' : BrokerState},
      cStr command ∈ [k_mdpw_ready, k_mdpw_reply, k_mdpw_heartbeat] →
      Settled True b₀ worker_ready wrk b' → ∀ x ∈ b'.m_waiting.elems, x ∈ b₀.m_waiting.elems ∨
        x = wrk ∧ cStr command ∈ [k_mdpw_ready, k_mdpw_reply, k_mdpw_heartbeat] :=
    fun hcommand hb' x hx => (hb'.1.waiting hx).imp_right fun heq => ⟨heq, hcommand⟩
  split_ifs with hready hoccupied hreply hheartbeat hdisconnect
  · refine (hsession.processReady_ends sender msg clock now).mono
      (fun _ _ => trivial) fun _ => hsettled ?_
    rw [hready]
    decide
  · exact (processOccupied_ends (· = wrk) hsession.linked msg).mono (fun _ _ => trivial)
      fun b' hb' x hx => .inl (hb'.1.waiting hx)
  · refine (hsession.processReply_ends (.inl trivial) msg clock now).mono
      (fun _ _ => trivial) fun _ => hsettled ?_
    rw [hreply]
    decide
  · refine (hsession.processHeartbeat_ends clock).mono
      (fun _ _ => trivial) fun _ => hsettled ?_
    rw [hheartbeat]
    decide
  · exact (worker_delete_ends (· = wrk) hsession.find (.inl rfl) false).mono (fun _ _ => trivial)
      fun b' hb' x hx => .inl (hb'.1.waiting hx)
  · exact fun x hx => .inl hx

/-- Who waits after an event waited before it, or was heard from in it. -/
theorem step_waiting (hlinked : Linked b) (hstep : b.step event = .ok b') {x : ℕ}
    (hx : x ∈ b'.m_waiting.elems) (hw : b.workers.find? x = some w) :
    x ∈ b.m_waiting.elems ∨ ∃ clock, event.heard w.m_identity = some clock := by
  have hquiet : event.message = none → x ∈ b.m_waiting.elems := by
    intro hnone
    obtain ⟨b₀, who, hrequired, hwho, hhandled⟩ := step_stepped hlinked hstep
    rcases hhandled.waiting hx with hx | hx
    · cases hrequired with
      | known => exact hx
      | register => exact hx
    · obtain ⟨sender, command, msg, hmessage, -⟩ := hwho x hx
      rw [hnone] at hmessage
      cases hmessage
  cases event with
  | client => exact .inl (hquiet rfl)
  | heartbeat => exact .inl (hquiet rfl)
  | clientHeartbeat => exact .inl (hquiet rfl)
  | worker frames clock now =>
    match frames, hquiet, hstep with
    | sender :: empty :: header :: command :: msg, hquiet, hstep =>
      by_cases hheader : cStr header = k_mdpw_worker
      · unfold step at hstep
        dsimp only at hstep
        rw [if_pos hheader] at hstep
        by_cases hsender : cStr sender = ""
        · have hrequire : b.worker_require (cStr sender) = .error .assertion := if_pos hsender
          unfold worker_process at hstep
          dsimp only at hstep
          rw [hrequire] at hstep
          cases hstep
        obtain ⟨b₀, wrk, v, hrequire, hentered⟩ :=
          worker_require_entered hlinked hsender (ZMsg.cStr_cStr sender)
        have hwaiting :=
          (worker_process_waiting hentered hrequire command msg clock now).of_ok hstep
        have hfound := hentered.found
        rcases hwaiting x hx with hx | ⟨rfl, hcommand⟩
        · rcases hentered.required with ⟨rfl, -⟩ | ⟨rfl, -⟩
          · exact .inl hx
          · exact .inl hx
        · refine .inr ⟨clock, ?_⟩
          rw [heard_message hheader]
          refine if_pos ⟨?_, hcommand⟩
          -- the worker that the message is from is the one that was there
          rcases hentered.required with ⟨rfl, hknown⟩ | ⟨rfl, hnone⟩
          · obtain ⟨u, hu, hidentity⟩ := hlinked.worker hknown
            rw [hw, Option.some.injEq] at hu
            rw [hu, hidentity]
          · rw [register, SortedMap.find?_set_self, Option.some.injEq] at hfound
            exact absurd hfound.symm (hlinked.fresh hw).ne
      · exact .inl (hquiet (if_neg hheader))
    | [], _, hstep => cases hstep
    | [_], _, hstep => cases hstep
    | [_, _], _, hstep => cases hstep
    | [_, _, _], hquiet, _ => exact .inl (hquiet rfl)

/-- The time of a waiting worker is what it was while it waited, or starts with the event. -/
theorem step_expiry (hlinked : Linked b) (hstaffed : Staffed b') (hstep : b.step event = .ok b')
    {x : ℕ} (hx : x ∈ b'.m_waiting.elems) (hw : b'.workers.find? x = some w) :
    x ∈ b.m_waiting.elems ∧ b.workers.find? x = some w ∨
      ∃ clock, event.heard w.m_identity = some clock ∧ w.m_expiry = clock + n_heartbeat_expiry := by
  have hfate : Fate b event x (b'.workers.find? x) := step_fate hlinked hstep x
  rw [hw] at hfate
  cases hfate with
  | kept v hv =>
    dsimp only
    rw [Event.expiryAfter]
    cases hheard : event.heard v.m_identity with
    | some clock => exact .inr ⟨clock, rfl, rfl⟩
    | none =>
      refine .inl ⟨(step_waiting hlinked hstep hx hv).resolve_right ?_, hv⟩
      rintro ⟨clock, hclock⟩
      rw [hheard] at hclock
      cases hclock
  | made _ clock _ hheard hexpiry => exact .inr ⟨clock, hheard, hexpiry⟩
  | unserved _ _ hnone => exact absurd ⟨w, hw, hnone⟩ (hstaffed x hx)

/-- Every waiting worker is due after `bound`. -/
def Fresh (bound : Int) (b : BrokerState) : Prop :=
  ∀ x ∈ b.m_waiting.elems, ∀ w, b.workers.find? x = some w → bound < w.m_expiry

theorem Fresh.step {bound : Int} (h : Fresh bound b) (hlinked : Linked b) (hstaffed : Staffed b')
    (hstep : b.step event = .ok b') (hheard : ∀ identity clock,
      event.heard identity = some clock → bound < clock + n_heartbeat_expiry) : Fresh bound b' := by
  intro x hx w hw
  rcases step_expiry hlinked hstaffed hstep hx hw with ⟨hx, hw⟩ | ⟨clock, hclock, hexpiry⟩
  · exact h x hx w hw
  · exact hexpiry ▸ hheard w.m_identity clock hclock

/-! ## Rounds of heartbeats -/

/-- The heartbeats to the workers at some addresses. -/
def heartbeats (workers : SortedMap ℕ BrokerWorker) (wrks : List ℕ) : List BrokerAct :=
  wrks.filterMap fun wrk => (workers.find? wrk).map fun w =>
    .toWorker (worker_send w k_mdpw_heartbeat "" [])

theorem heartbeats_cons {workers : SortedMap ℕ BrokerWorker} (hw : workers.find? wrk = some w)
    (wrks : List ℕ) : heartbeats workers (wrk :: wrks) =
      .toWorker (worker_send w k_mdpw_heartbeat "" []) :: heartbeats workers wrks := by
  rw [heartbeats, List.filterMap_cons, hw]
  rfl

theorem sendHeartbeats_eq {wrks : List ℕ} (h : ∀ wrk ∈ wrks, ∃ w, b.workers.find? wrk = some w) :
    b.sendHeartbeats wrks = .ok { b with log := b.log ++ heartbeats b.workers wrks } := by
  unfold sendHeartbeats
  induction wrks generalizing b with
  | nil => rw [heartbeats, List.filterMap_nil, List.append_nil]; rfl
  | cons wrk wrks ih =>
    obtain ⟨w, hw⟩ := h wrk List.mem_cons_self
    let b₁ := b.send (.toWorker (worker_send w k_mdpw_heartbeat "" []))
    have hrest : ∀ x ∈ wrks, ∃ v, b₁.workers.find? x = some v :=
      fun x hx => h x (List.mem_cons_of_mem _ hx)
    rw [List.foldlM_cons, deref_eq hw]
    refine (ih hrest).trans ?_
    rw [heartbeats_cons hw, ← List.singleton_append, ← List.append_assoc]
    rfl

/-- A round of heartbeats is a purge, and a message to every worker it leaves. -/
theorem step_heartbeat (hlinked : Linked b) (now : Int) :
    ∃ b₁, Linked b₁ ∧ Purged now b b₁ ∧ b.step (.heartbeat now) =
      .ok { b₁ with log := b₁.log ++ heartbeats b₁.workers b₁.m_waiting.elems } := by
  have hpurge := purge_workers_purged hlinked now
  cases hrun : b.purge_workers now with
  | error f => exact (hpurge.of_error hrun).elim
  | ok b₁ =>
    obtain ⟨hlinked₁, hpurged⟩ := hpurge.of_ok hrun
    refine ⟨b₁, hlinked₁, hpurged, ?_⟩
    unfold step
    dsimp only
    rw [hrun]
    exact sendHeartbeats_eq fun wrk hwrk => hlinked₁.waiting hwrk

theorem fresh_heartbeat (hlinked : Linked b) (hstep : b.step (.heartbeat now) = .ok b') :
    Fresh now b' := by
  obtain ⟨b₁, hlinked₁, hpurged, heq⟩ := step_heartbeat hlinked now
  rw [heq, Except.ok.injEq] at hstep
  subst hstep
  intro x hx w hw
  obtain ⟨-, hno⟩ := (hpurged.waiting x).1 hx
  have hfind : b.workers.find? x = some w := by
    have hbefore := hpurged.workers x
    rw [if_neg fun h => by rw [hno] at h; exact Bool.false_ne_true h.2] at hbefore
    exact hbefore.symm.trans hw
  by_contra hover
  rw [expired_iff.2 ⟨w, hfind, not_lt.1 hover⟩] at hno
  cases hno

/-- A waiting worker before a round of heartbeats, and what the round makes of it. -/
def Rounded (events : List Event) (now : Int) (b b' : BrokerState) (wrk : ℕ) : Prop :=
  ∃ w clock, b.workers.find? wrk = some w ∧ lastHeard w.m_identity events = some clock ∧
    (now < clock + n_heartbeat_expiry →
      b'.workers.find? wrk = some w ∧ wrk ∈ b'.m_waiting.elems) ∧
    (clock + n_heartbeat_expiry ≤ now → b'.workers.find? wrk = none ∧
      b'.m_workers.find? w.m_identity = none ∧ wrk ∉ b'.m_waiting.elems ∧
      ∀ name, wrk ∉ (b'.service name).m_waiting)

theorem Purged.unregistered (h : Purged now b b') (hlinked : Linked b) (hlinked' : Linked b')
    (hw : b.workers.find? wrk = some w) (hnone : b'.workers.find? wrk = none) :
    b'.m_workers.find? w.m_identity = none := by
  cases hfind : b'.m_workers.find? w.m_identity with
  | none => rfl
  | some x =>
    -- a worker still registered under the name would have been there before, beside this one
    obtain ⟨v, hv, hidentity⟩ := hlinked'.worker hfind
    have hbefore : b.workers.find? x = some v := by
      rw [h.workers] at hv
      split_ifs at hv
      exact hv
    have hx := hlinked.identity hbefore
    rw [hidentity, hlinked.identity hw, Option.some.injEq] at hx
    rw [← hx, hnone] at hv
    cases hv

/-- **A round of heartbeats goes to the waiting workers that were heard from in time, and drops
the others.** -/
theorem heartbeat_round {events : List Event} (h : run events = .ok b) (now : Int) :
    ∃ b', b.step (.heartbeat now) = .ok b' ∧
      (∀ wrk ∈ b.m_waiting.elems, Rounded events now b b' wrk) ∧
      (∀ wrk, wrk ∉ b.m_waiting.elems → b'.workers.find? wrk = b.workers.find? wrk ∧
        wrk ∉ b'.m_waiting.elems) ∧
      b'.log = b.log ++ heartbeats b.workers b'.m_waiting.elems := by
  have hlinked : Linked b := run_linked h
  obtain ⟨b₁, hlinked₁, hpurged, hstep⟩ := step_heartbeat hlinked now
  refine ⟨_, hstep, ?_, ?_, ?_⟩
  · intro wrk hwrk
    obtain ⟨w, hw⟩ := hlinked.waiting hwrk
    obtain ⟨clock, hlast, hexpiry⟩ : OnTime events w :=
      expiry_heard h hw fun hnone => run_staffed h wrk hwrk ⟨w, hw, hnone⟩
    have hexpired : b.expired now wrk = decide (clock + n_heartbeat_expiry ≤ now) := by
      rw [expired, hw, Option.any_some, hexpiry]
    refine ⟨w, clock, hw, hlast, fun hin => ?_, fun hover => ?_⟩
    · have hno : b.expired now wrk = false := hexpired.trans (decide_eq_false hin.not_ge)
      refine ⟨?_, (hpurged.waiting wrk).2 ⟨hwrk, hno⟩⟩
      change b₁.workers.find? wrk = some w
      rw [hpurged.workers, if_neg fun hx => by rw [hno] at hx; exact Bool.false_ne_true hx.2]
      exact hw
    · have hyes : b.expired now wrk = true := hexpired.trans (decide_eq_true hover)
      have hnone : b₁.workers.find? wrk = none := by
        rw [hpurged.workers, if_pos ⟨hwrk, hyes⟩]
      refine
        ⟨hnone, hpurged.unregistered hlinked hlinked₁ hw hnone, fun hx => ?_, fun name hx => ?_⟩
      · obtain ⟨v, hv⟩ := hlinked₁.waiting hx
        rw [hnone] at hv
        cases hv
      · have hlisted : wrk ∈ (b₁.service name).m_waiting := hx
        obtain ⟨v, hv, -⟩ := hlinked₁.listed hlisted
        rw [hnone] at hv
        cases hv
  · intro wrk hwrk
    refine ⟨?_, fun hx => hwrk ((hpurged.waiting wrk).1 hx).1⟩
    exact (hpurged.workers wrk).trans (if_neg fun hx => hwrk hx.1)
  · dsimp only
    rw [hpurged.log]
    refine congrArg (b.log ++ ·) (List.filterMap_congr fun wrk hwrk => ?_)
    obtain ⟨hbefore, hno⟩ := (hpurged.waiting wrk).1 hwrk
    rw [hpurged.workers, if_neg fun hx => by rw [hno] at hx; exact Bool.false_ne_true hx.2]

theorem heartbeat_round_two :
    ∃ b b', run [fromWorker "w1" k_mdpw_ready ["lists"] 0 0,
        fromWorker "w2" k_mdpw_ready ["lists"] 5000 5000] = .ok b ∧
      b.step (.heartbeat 8000) = .ok b' ∧ 0 ∉ b'.m_waiting.elems ∧ 1 ∈ b'.m_waiting.elems := by
  obtain ⟨b, hrun, hwaiting, hw₁, hw₂⟩ : ∃ b, run [fromWorker "w1" k_mdpw_ready ["lists"] 0 0,
        fromWorker "w2" k_mdpw_ready ["lists"] 5000 5000] = .ok b ∧ b.m_waiting.elems = [0, 1] ∧
      b.workers.find? 0 = some ⟨"w1", some "lists", 7500⟩ ∧
      b.workers.find? 1 = some ⟨"w2", some "lists", 12500⟩ :=
    ⟨_, rfl, by decide, by decide, by decide⟩
  obtain ⟨b', hstep, hround, -⟩ := heartbeat_round hrun 8000
  refine ⟨b, b', hrun, hstep, ?_, ?_⟩
  · obtain ⟨w, clock, hw, hlast, -, hover⟩ := hround 0 (by rw [hwaiting]; decide)
    rw [hw₁, Option.some.injEq] at hw
    subst hw
    cases hlast
    exact (hover (by decide)).2.2.1
  · obtain ⟨w, clock, hw, hlast, hin, -⟩ := hround 1 (by rw [hwaiting]; decide)
    rw [hw₂, Option.some.injEq] at hw
    subst hw
    cases hlast
    exact (hin (by decide)).2

end BrokerState

end ShoppingApp
