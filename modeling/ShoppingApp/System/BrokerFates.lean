import ShoppingApp.System.BrokerQueues

/-!
# What becomes of the broker's workers

A purge drops the waiting workers whose time is over and nothing else (`purge_workers_purged`), and
what an event makes of the worker at an address is one of a few things (`step_fate`): it stays, and
its time starts anew if it is heard from; it leaves; its time is over; or it is new.
-/

namespace ShoppingApp

open Replication (Run)

namespace BrokerState

variable {b b' b₁ : BrokerState} {wrk : ℕ} {w : BrokerWorker} {name : String} {event : Event}
  {clock now : Int}

/-! ## What a purge does -/

/-- A purge drops the waiting workers whose time is over, from everywhere. -/
structure Purged (now : Int) (b b' : BrokerState) : Prop where
  workers : ∀ x, b'.workers.find? x =
    if x ∈ b.m_waiting.elems ∧ b.expired now x = true then none else b.workers.find? x
  waiting : ∀ x, x ∈ b'.m_waiting.elems ↔ x ∈ b.m_waiting.elems ∧ b.expired now x = false
  listed : ∀ name, (b'.service name).m_waiting = (b.service name).m_waiting.filter fun x =>
    !(decide (x ∈ b.m_waiting.elems) && b.expired now x)
  log : b'.log = b.log

/-- What deleting a worker takes from a waiting list. -/
theorem Linked.erase_listed (h : Linked b) (hw : b.workers.find? wrk = some w) (name : String) :
    ((b.erase wrk w).service name).m_waiting = (b.service name).m_waiting.filter (· ≠ wrk) := by
  rw [service_erase]
  split_ifs with hname
  · rfl
  · refine (List.filter_eq_self.2 fun x hx => ?_).symm
    have hne : x ≠ wrk := by
      rintro rfl
      obtain ⟨v, hv, hserved⟩ := h.listed hx
      rw [hw, Option.some.injEq] at hv
      exact hname (hv ▸ hserved)
    exact decide_eq_true hne

theorem deleteAll_removes : ∀ (wrks : List ℕ) {b : BrokerState}, Linked b → wrks.Nodup →
    (∀ wrk ∈ wrks, wrk ∈ b.m_waiting.elems) →
    Ends Never (fun b' => Linked b' ∧
      (∀ x, b'.workers.find? x = if x ∈ wrks then none else b.workers.find? x) ∧
      (∀ x, x ∈ b'.m_waiting.elems ↔ x ∈ b.m_waiting.elems ∧ x ∉ wrks) ∧
      (∀ name, (b'.service name).m_waiting =
        (b.service name).m_waiting.filter fun x => !decide (x ∈ wrks)) ∧ b'.log = b.log)
      (wrks.foldlM (fun b wrk => b.worker_delete wrk false) b) := by
  intro wrks
  induction wrks with
  | nil =>
    intro b h _ _
    refine ⟨h, fun x => ?_, fun x => ?_, fun name => ?_, rfl⟩
    · rw [if_neg List.not_mem_nil]
    · exact ⟨fun hx => ⟨hx, List.not_mem_nil⟩, And.left⟩
    · exact (List.filter_eq_self.2 fun x _ => by simp).symm
  | cons wrk wrks ih =>
    intro b h hnodup hwaiting
    obtain ⟨hwrk, hnodup⟩ := List.nodup_cons.1 hnodup
    have hmem := hwaiting wrk List.mem_cons_self
    obtain ⟨w, hw⟩ := h.waiting hmem
    have hlinked : Linked (b.erase wrk w) := h.erase hw
    rw [List.foldlM_cons]
    unfold worker_delete
    rw [deref_eq hw]
    -- The workers still to be deleted are others than the one just deleted.
    have hrest : ∀ x ∈ wrks, x ∈ (b.erase wrk w).m_waiting.elems := by
      intro x hx
      rw [erase_m_waiting]
      have hne : x ≠ wrk := fun heq => hwrk (heq ▸ hx)
      exact SortedSet.mem_erase.2 ⟨hwaiting x (List.mem_cons_of_mem _ hx), hne⟩
    refine (ih hlinked hnodup hrest).imp fun b' ⟨hb', hworkers, hm_waiting, hlisted, hlog⟩ => ?_
    refine ⟨hb', fun x => ?_, fun x => ?_, fun name => ?_, hlog.trans (erase_log b wrk w)⟩
    · rw [hworkers, erase_workers, SortedMap.find?_erase]
      by_cases hx : x = wrk
      · rw [if_pos (List.mem_cons.2 (.inl hx)), if_pos hx, ite_self]
      · rw [if_neg hx]
        refine if_congr ?_ rfl rfl
        rw [List.mem_cons, or_iff_right hx]
    · rw [hm_waiting, erase_m_waiting, SortedSet.mem_erase, List.mem_cons, not_or, and_assoc]
    · rw [hlisted, h.erase_listed hw, List.filter_filter]
      refine List.filter_congr fun x _ => ?_
      by_cases hx : x = wrk <;> simp [hx, hwrk]

theorem purge_workers_purged (h : Linked b) (now : Int) :
    Ends Never (fun b' => Linked b' ∧ Purged now b b') (b.purge_workers now) := by
  unfold purge_workers
  rw [toCull_eq now fun wrk hwrk => h.waiting hwrk]
  have hnodup : b.m_waiting.elems.Nodup := b.m_waiting.sorted.imp ne_of_lt
  have hmem : ∀ x, x ∈ b.m_waiting.elems.filter (b.expired now) ↔
      x ∈ b.m_waiting.elems ∧ b.expired now x = true := fun x => List.mem_filter
  refine (deleteAll_removes _ h (hnodup.filter _) fun wrk hwrk => ((hmem wrk).1 hwrk).1).imp ?_
  rintro b' ⟨hb', hworkers, hm_waiting, hlisted, hlog⟩
  refine ⟨hb', fun x => ?_, fun x => ?_, fun name => ?_, hlog⟩
  · rw [hworkers]
    exact if_congr (hmem x) rfl rfl
  · rw [hm_waiting, hmem, not_and, Bool.not_eq_true]
    exact ⟨fun ⟨hx, hno⟩ => ⟨hx, hno hx⟩, fun ⟨hx, hno⟩ => ⟨hx, fun _ => hno⟩⟩
  · rw [hlisted]
    refine List.filter_congr fun x _ => ?_
    simp only [hmem, Bool.decide_and, Bool.decide_eq_true]

/-! ## What becomes of a worker -/

/-- The reading of the clock by which a worker's time starts anew, if the event is a READY, REPLY or
HEARTBEAT of the worker. -/
def Event.heard (identity : String) : Event → Option Int
  | .worker (sender :: _ :: header :: command :: _) clock _ =>
    if cStr header = k_mdpw_worker ∧ cStr sender = identity ∧
      cStr command ∈ [k_mdpw_ready, k_mdpw_reply, k_mdpw_heartbeat] then some clock else none
  | _ => none

/-- The reading of the clock that times are compared with. -/
def Event.reading : Event → Option Int
  | .client _ now => some now
  | .worker _ _ now => some now
  | .heartbeat now => some now
  | .clientHeartbeat => none

/-- The worker says that it is new, although it is known, or that it leaves. -/
def Event.quits (identity : String) (event : Event) : Prop :=
  ∃ command msg, event.message = some (identity, command, msg) ∧
    (command = k_mdpw_ready ∨ command = k_mdpw_disconnect)

/-- When the worker's time is over after the event. -/
def Event.expiryAfter (event : Event) (w : BrokerWorker) : Int :=
  (event.heard w.m_identity).elim w.m_expiry (· + n_heartbeat_expiry)

/-- What an event makes of the worker at an address. -/
inductive Fate (b : BrokerState) (event : Event) (x : ℕ) : Option BrokerWorker → Prop
  | kept (w : BrokerWorker) (hw : b.workers.find? x = some w) :
      Fate b event x (some { w with m_expiry := event.expiryAfter w })
  | quit (w : BrokerWorker) (hw : b.workers.find? x = some w)
      (hquits : event.quits w.m_identity) : Fate b event x none
  | late (w : BrokerWorker) (now : Int) (hw : b.workers.find? x = some w)
      (hreading : event.reading = some now) (hover : event.expiryAfter w ≤ now) :
      Fate b event x none
  | absent (hnone : b.workers.find? x = none) : Fate b event x none
  | made (w : BrokerWorker) (clock : Int) (hnone : b.workers.find? x = none)
      (hheard : event.heard w.m_identity = some clock)
      (hexpiry : w.m_expiry = clock + n_heartbeat_expiry) : Fate b event x (some w)
  | unserved (w : BrokerWorker) (hnone : b.workers.find? x = none) (hserved : w.m_service = none)
      (hsent : ∃ command msg, event.message = some (w.m_identity, command, msg)) :
      Fate b event x (some w)

/-- The worker stays as it is, or is dropped when its time is over. -/
def Spared (now : Int) (b b' : BrokerState) (x : ℕ) : Prop :=
  b'.workers.find? x = b.workers.find? x ∨
    b'.workers.find? x = none ∧ b.expired now x = true

theorem Purged.spared (h : Purged now b b') (x : ℕ) : Spared now b b' x := by
  unfold Spared
  rw [h.workers]
  split_ifs with hx
  · exact .inr ⟨rfl, hx.2⟩
  · exact .inl rfl

/-- What is said of the worker before is all that counts. -/
theorem Spared.congr {x : ℕ} (h : Spared now b₁ b' x)
    (hfind : b₁.workers.find? x = b.workers.find? x) : Spared now b b' x := by
  unfold Spared expired at h ⊢
  rw [hfind] at h
  exact h

theorem expired_iff : b.expired now wrk = true ↔
    ∃ w, b.workers.find? wrk = some w ∧ w.m_expiry ≤ now := by
  unfold expired
  rw [Option.any_eq_true]
  simp only [decide_eq_true_eq]

/-- Who is spared is kept, if the event does not bring anything of the worker. -/
theorem Spared.fate {x : ℕ} (h : Spared now b b' x)
    (hreading : event.reading = some now) (hheard : ∀ w, b.workers.find? x = some w →
      event.heard w.m_identity = none) : Fate b event x (b'.workers.find? x) := by
  have hsame : ∀ w, b.workers.find? x = some w → event.expiryAfter w = w.m_expiry := by
    intro w hw
    rw [Event.expiryAfter, hheard w hw]
    rfl
  rcases h with heq | ⟨hnone, hexpired⟩
  · rw [heq]
    cases hw : b.workers.find? x with
    | none => exact .absent hw
    | some w =>
      have hkept : Fate b event x (some { w with m_expiry := event.expiryAfter w }) := .kept w hw
      rw [hsame w hw] at hkept
      exact hkept
  · obtain ⟨w, hw, hover⟩ := expired_iff.1 hexpired
    rw [hnone]
    exact .late w now hw hreading (by rw [hsame w hw]; exact hover)

theorem Assigns.workers (h : Assigns name b b') : b'.workers = b.workers := by
  refine Run.invariant (fun b₁ => b₁.workers = b.workers) rfl (fun b₁ b₂ hb₁ hassign => ?_) h
  cases hassign with
  | assign => exact hb₁

theorem service_dispatch_spared (h : Linked b) (name : String) (msg : Option ZMsg) (now : Int) :
    Ends Never (fun b' => ∀ x, Spared now b b' x) (b.service_dispatch name msg now) := by
  have hdispatch : ∀ {b₀ : BrokerState}, Linked b₀ → b₀.workers = b.workers →
      Ends Never (fun b' => ∀ x, Spared now b b' x) (do
        let b ← b₀.purge_workers now
        dispatchLoop name (b.service name).m_requests.length b) := by
    intro b₀ h₀ hworkers
    refine (purge_workers_purged h₀ now).bind fun b₁ ⟨h₁, hpurged⟩ => ?_
    refine (dispatchLoop_ends name _ h₁ rfl).imp fun b' hb' x => ?_
    have hspared : Spared now b b₁ x := (hpurged.spared x).congr (by rw [hworkers])
    unfold Spared
    rw [Assigns.workers hb'.1]
    exact hspared
  unfold service_dispatch
  cases msg with
  | none => exact hdispatch h rfl
  | some msg => exact hdispatch (h.push name msg) rfl

theorem worker_waiting_spared (h : Linked b) (hw : b.workers.find? wrk = some w)
    (hname : w.m_service = some name) (clock now : Int) :
    Ends Never (fun b' => ∀ x, Spared now (b.enlist wrk w name clock) b' x)
      (b.worker_waiting wrk clock now) := by
  rw [worker_waiting_eq hw hname]
  exact service_dispatch_spared (h.enlist hw hname clock) name none now

/-- Others are spared, and worker `wrk` becomes `r`, unless its time is over then. -/
structure Leaves (now : Int) (wrk : ℕ) (r : Option BrokerWorker) (b b' : BrokerState) : Prop where
  others : ∀ x, x ≠ wrk → Spared now b b' x
  own : b'.workers.find? wrk = r ∨
    b'.workers.find? wrk = none ∧ ∃ v, r = some v ∧ v.m_expiry ≤ now

theorem Leaves.of_eq (hw : b.workers.find? wrk = some w) (h : b'.workers = b.workers) :
    Leaves now wrk (some w) b b' :=
  ⟨fun _ _ => .inl (by rw [h]), .inl (by rw [h, hw])⟩

theorem worker_delete_leaves (hw : b.workers.find? wrk = some w) (disconnect : Bool) :
    Ends Never (Leaves now wrk none b) (b.worker_delete wrk disconnect) := by
  refine (worker_delete_ends (· = wrk) hw (.inl rfl) disconnect).imp fun b' ⟨_, hworkers, _⟩ => ?_
  refine ⟨fun x hx => .inl ?_, .inl ?_⟩
  · rw [hworkers, SortedMap.find?_erase, if_neg hx]
  · rw [hworkers, SortedMap.find?_erase, if_pos rfl]

theorem worker_waiting_leaves (h : Linked b) (hw : b.workers.find? wrk = some w)
    (hname : w.m_service = some name) (clock now : Int) :
    Ends Never (Leaves now wrk (some { w with m_expiry := clock + n_heartbeat_expiry }) b)
      (b.worker_waiting wrk clock now) := by
  have hfind : ∀ x, (b.enlist wrk w name clock).workers.find? x =
      if x = wrk then some { w with m_expiry := clock + n_heartbeat_expiry }
      else b.workers.find? x := fun x => SortedMap.find?_set _ _ _ _
  refine (worker_waiting_spared h hw hname clock now).imp fun b' hb' => ⟨fun x hx => ?_, ?_⟩
  · exact (hb' x).congr (by rw [hfind, if_neg hx])
  · have hspared := hb' wrk
    unfold Spared expired at hspared
    rw [hfind, if_pos rfl, Option.any_some, decide_eq_true_eq] at hspared
    exact hspared.imp_right fun ⟨hnone, hover⟩ => ⟨hnone, _, rfl, hover⟩

/-- A worker that is new gets a service and waits, or is deleted. -/
theorem processReady_leaves (h : Session b false wrk w) (sender : String) (msg : ZMsg)
    (clock now : Int) :
    Ends (fun _ => True) (fun b' => Leaves now wrk none b b' ∨ ∃ name, Leaves now wrk
        (some { w with m_service := some name, m_expiry := clock + n_heartbeat_expiry }) b b')
      (b.processReady sender false wrk msg clock now) := by
  unfold processReady
  rw [if_neg Bool.false_ne_true]
  split_ifs
  · exact (worker_delete_leaves h.find true).mono (fun _ _ => trivial) fun b' hb' => .inl hb'
  · cases msg with
    | nil => trivial
    | cons service_name msg =>
      obtain ⟨hnone, -⟩ := h.new rfl
      refine Ends.bind ((service_require_ends (· = wrk) b (cStr service_name)).mono
        (fun _ _ => trivial) fun _ h => h) fun b₁ hb₁ => ?_
      obtain ⟨hquiets, hservice, hworkers, -⟩ := hb₁
      have hw : b₁.workers.find? wrk = some w := hworkers ▸ h.find
      rw [deref_eq hw]
      let w' : BrokerWorker := { w with m_service := some (cStr service_name) }
      have hlinked : Linked (b₁.setWorker wrk w') := (h.linked.quiets hquiets).quiet
        (.attach b₁ wrk w (cStr service_name) hw (rfl : (· = wrk) wrk) hnone hservice)
      have hfind : ∀ x, (b₁.setWorker wrk w').workers.find? x =
          if x = wrk then some w' else b.workers.find? x := fun x => by
        rw [← hworkers]
        exact SortedMap.find?_set _ _ _ _
      refine (worker_waiting_leaves hlinked (by rw [hfind, if_pos rfl]) rfl clock now).mono
        (fun _ _ => trivial) fun b' hb' => .inr ⟨cStr service_name, fun x hx => ?_, hb'.own⟩
      exact (hb'.others x hx).congr (by rw [hfind, if_neg hx])

theorem processOccupied_workers (b : BrokerState) (msg : ZMsg) :
    Ends (fun _ => True) (fun b' => b'.workers = b.workers) (b.processOccupied msg) := by
  unfold processOccupied
  cases msg with
  | nil => trivial
  | cons named msg =>
    dsimp only
    cases b.m_workers.find? (cStr named) with
    | none => trivial
    | some wrk =>
      dsimp only
      unfold deref
      cases b.workers.find? wrk with
      | none => trivial
      | some w =>
        dsimp only [bind, Except.bind]
        cases w.m_service with
        | none => trivial
        | some name => exact (rfl : (b.unlist wrk name).workers = b.workers)

theorem processReply_leaves (h : Session b true wrk w) (msg : ZMsg) (clock now : Int) :
    Ends (fun _ => True)
      (Leaves now wrk (some { w with m_expiry := clock + n_heartbeat_expiry }) b)
      (b.processReply true wrk msg clock now) := by
  unfold processReply
  rw [if_pos rfl]
  cases msg.unwrap with
  | none => trivial
  | some unwrapped =>
    obtain ⟨client, msg⟩ := unwrapped
    dsimp only
    rw [deref_eq h.find]
    dsimp only [bind, Except.bind]
    cases hname : w.m_service with
    | none => trivial
    | some name =>
      let frames := (msg.wrap k_mdp_client name).wrap client ""
      have hquiet : Quiet (· = wrk) b (b.send (.toClient frames)) := .toClient b frames
      have hlinked : Linked (b.send (.toClient frames)) := h.linked.quiet hquiet
      refine (worker_waiting_leaves hlinked h.find hname clock now).mono (fun _ _ => trivial)
        fun b' hb' => ⟨hb'.others, ?_⟩
      have hown := hb'.own
      rw [hname] at hown
      exact hown

theorem processHeartbeat_leaves (hw : b.workers.find? wrk = some w) (clock : Int) :
    Ends Never (Leaves now wrk (some { w with m_expiry := clock + n_heartbeat_expiry }) b)
      (b.processHeartbeat true wrk clock) := by
  unfold processHeartbeat
  rw [if_pos rfl, deref_eq hw]
  refine ⟨fun x hx => .inl ?_, .inl ?_⟩
  · exact SortedMap.find?_set_ne _ _ hx
  · exact SortedMap.find?_set_self _ _ _

/-- What a message makes of its worker, which is `w`. -/
inductive Answer (worker_ready : Bool) (command : String) (w : BrokerWorker) (clock : Int) :
    Option BrokerWorker → Prop
  | leaves (h : worker_ready = true → command = k_mdpw_ready ∨ command = k_mdpw_disconnect) :
      Answer worker_ready command w clock none
  | renewed (hready : worker_ready = true)
      (hcommand : command = k_mdpw_reply ∨ command = k_mdpw_heartbeat) :
      Answer worker_ready command w clock (some { w with m_expiry := clock + n_heartbeat_expiry })
  | same (hcommand : command ∉ [k_mdpw_ready, k_mdpw_reply, k_mdpw_heartbeat]) :
      Answer worker_ready command w clock (some w)
  | attached (hready : worker_ready = false) (hcommand : command = k_mdpw_ready) (name : String) :
      Answer worker_ready command w clock
        (some { w with m_service := some name, m_expiry := clock + n_heartbeat_expiry })

theorem worker_process_answer {sender : String} {b₀ : BrokerState}
    (h : Entered b sender b₀ wrk w) (hrequire : b.worker_require sender = .ok (b₀, wrk))
    (command : String) (msg : ZMsg) (clock now : Int) :
    Ends (fun _ => True) (fun b' => ∃ r, Leaves now wrk r b₀ b' ∧
        Answer (b.m_workers.find? sender).isSome (cStr command) w clock r)
      (b.worker_process sender (command :: msg) clock now) := by
  have hsession := h.session
  have hw := hsession.find
  rw [worker_process_eq hrequire]
  generalize (b.m_workers.find? sender).isSome = worker_ready at hsession ⊢
  have hdelete : ∀ disconnect, (worker_ready = true →
      cStr command = k_mdpw_ready ∨ cStr command = k_mdpw_disconnect) →
      Ends (fun _ => True) (fun b' => ∃ r, Leaves now wrk r b₀ b' ∧
        Answer worker_ready (cStr command) w clock r) (b₀.worker_delete wrk disconnect) :=
    fun disconnect hleaves => (worker_delete_leaves hw disconnect).mono (fun _ _ => trivial)
      fun b' hb' => ⟨none, hb', .leaves hleaves⟩
  split_ifs with hready hoccupied hreply hheartbeat hdisconnect
  · cases worker_ready with
    | true => exact hdelete true fun _ => .inl hready
    | false =>
      refine (processReady_leaves hsession sender msg clock now).imp fun b' hb' => ?_
      rcases hb' with hb' | ⟨name, hb'⟩
      · exact ⟨none, hb', .leaves nofun⟩
      · exact ⟨_, hb', .attached rfl hready name⟩
  · refine (processOccupied_workers b₀ msg).imp fun b' hb' => ⟨some w, .of_eq hw hb', .same ?_⟩
    rw [hoccupied]
    decide
  · cases worker_ready with
    | true =>
      exact (processReply_leaves hsession msg clock now).imp
        fun b' hb' => ⟨_, hb', .renewed rfl (.inl hreply)⟩
    | false => exact hdelete true nofun
  · cases worker_ready with
    | true =>
      exact (processHeartbeat_leaves hw clock).mono (fun _ _ => trivial)
        fun b' hb' => ⟨_, hb', .renewed rfl (.inr hheartbeat)⟩
    | false => exact hdelete true nofun
  · exact hdelete false fun _ => .inr hdisconnect
  · refine ⟨some w, .of_eq hw rfl, .same ?_⟩
    simp only [List.mem_cons, List.not_mem_nil, or_false, not_or]
    exact ⟨hready, hreply, hheartbeat⟩

/-- A message of a worker, as an event. -/
theorem heard_message {sender empty header command : String} {msg : ZMsg}
    (hheader : cStr header = k_mdpw_worker) (identity : String) :
    (Event.worker (sender :: empty :: header :: command :: msg) clock now).heard identity =
      if cStr sender = identity ∧ cStr command ∈ [k_mdpw_ready, k_mdpw_reply, k_mdpw_heartbeat]
        then some clock else none := by
  unfold Event.heard
  simp only [hheader, true_and]

/-- What a message does to a worker that it is not from. -/
theorem Leaves.fate_others {r : Option BrokerWorker} {b₀ : BrokerState} {sender : String} {x : ℕ}
    (h : Leaves now wrk r b₀ b') (hentered : Entered b sender b₀ wrk w) (hlinked : Linked b)
    (hreading : event.reading = some now)
    (hheard : ∀ identity, identity ≠ sender → event.heard identity = none) (hx : x ≠ wrk) :
    Fate b event x (b'.workers.find? x) := by
  have hfind : b₀.workers.find? x = b.workers.find? x := by
    rcases hentered.required with ⟨rfl, -⟩ | ⟨rfl, hnone⟩
    · rfl
    · have hwrk := hentered.found
      rw [register, SortedMap.find?_set_self, Option.some.injEq] at hwrk
      rw [register, SortedMap.find?_set_ne _ _ (hwrk ▸ hx)]
  refine ((h.others x hx).congr hfind).fate hreading fun v hv => hheard _ ?_
  rintro rfl
  -- a worker of the sender's name would be the one found
  have hwrk : b.m_workers.find? v.m_identity = some wrk := by
    rcases hentered.required with ⟨-, hknown⟩ | ⟨-, hnone⟩
    · exact hknown
    · rw [hlinked.identity hv] at hnone
      cases hnone
  rw [hlinked.identity hv, Option.some.injEq] at hwrk
  exact hx hwrk

/-- What a message does to the worker it is from, which the broker knows. -/
theorem Leaves.fate_known {r : Option BrokerWorker} {sender command : String} {msg : ZMsg}
    (h : Leaves now wrk r b b') (hw : b.workers.find? wrk = some w) (hid : w.m_identity = sender)
    (hanswer : Answer true command w clock r)
    (hmessage : event.message = some (sender, command, msg)) (hreading : event.reading = some now)
    (hheard : event.heard sender =
      if command ∈ [k_mdpw_ready, k_mdpw_reply, k_mdpw_heartbeat] then some clock else none) :
    Fate b event wrk (b'.workers.find? wrk) := by
  -- the worker with its time after the event, or dropped when that is over
  have hkept : r = some { w with m_expiry := event.expiryAfter w } →
      Fate b event wrk (b'.workers.find? wrk) := by
    rintro rfl
    rcases h.own with heq | ⟨hnone, v, hv, hover⟩
    · rw [heq]
      exact .kept w hw
    · cases hv
      rw [hnone]
      exact .late w now hw hreading hover
  have hexpiry : ∀ e, event.heard sender = e →
      event.expiryAfter w = e.elim w.m_expiry (· + n_heartbeat_expiry) := by
    rintro e rfl
    rw [Event.expiryAfter, hid]
  cases hanswer with
  | leaves hleaves =>
    have hnone : b'.workers.find? wrk = none := h.own.elim id And.left
    rw [hnone]
    exact .quit w hw ⟨command, msg, hid ▸ hmessage, hleaves rfl⟩
  | renewed hready hcommand =>
    refine hkept ?_
    rw [hexpiry (some clock) ?_]
    · rfl
    · rw [hheard, if_pos]
      rcases hcommand with rfl | rfl <;> decide
  | same hcommand =>
    refine hkept ?_
    rw [hexpiry none (hheard.trans (if_neg hcommand))]
    rfl
  | attached hready => cases hready

/-- What a message does to a worker that is made for it. -/
theorem Leaves.fate_new {r : Option BrokerWorker} {b₀ : BrokerState} {sender command : String}
    {msg : ZMsg} (h : Leaves now wrk r b₀ b') (hfind : b.workers.find? wrk = none)
    (hid : w.m_identity = sender) (hnone : w.m_service = none)
    (hanswer : Answer false command w clock r)
    (hmessage : event.message = some (sender, command, msg))
    (hheard : event.heard sender =
      if command ∈ [k_mdpw_ready, k_mdpw_reply, k_mdpw_heartbeat] then some clock else none) :
    Fate b event wrk (b'.workers.find? wrk) := by
  rcases h.own with heq | ⟨hgone, -⟩
  · rw [heq]
    cases hanswer with
    | leaves => exact .absent hfind
    | renewed hready => cases hready
    | same => exact .unserved w hfind hnone ⟨command, msg, hid ▸ hmessage⟩
    | attached hready hcommand name =>
      refine .made { w with m_service := some name, m_expiry := clock + n_heartbeat_expiry } clock
        hfind ?_ rfl
      change event.heard w.m_identity = some clock
      rw [hid, hheard, hcommand]
      exact if_pos (by decide)
  · rw [hgone]
    exact .absent hfind

theorem Fate.of_workers (h : b'.workers = b.workers)
    (hheard : ∀ identity, event.heard identity = none) (x : ℕ) :
    Fate b event x (b'.workers.find? x) := by
  rw [h]
  cases hw : b.workers.find? x with
  | none => exact .absent hw
  | some w =>
    have hkept : Fate b event x (some { w with m_expiry := event.expiryAfter w }) := .kept w hw
    rw [Event.expiryAfter, hheard] at hkept
    exact hkept

theorem client_process_spared (h : Linked b) (sender : String) (msg : ZMsg) (now : Int) :
    Ends (fun _ => True) (fun b' => ∀ x, Spared now b b' x) (b.client_process sender msg now) := by
  unfold client_process
  split
  · rename_i service_name body rest
    by_cases hheartbeat : cStr service_name = "HEARTBEAT"
    · dsimp only
      rw [if_pos hheartbeat]
      exact fun x => .inl rfl
    · dsimp only
      rw [if_neg hheartbeat]
      refine Ends.bind ((service_require_ends (fun _ => False) b (cStr service_name)).mono
        (fun _ _ => trivial) fun _ h => h) fun b₁ hb₁ => ?_
      obtain ⟨hquiets, -, hworkers, -⟩ := hb₁
      split_ifs
      · exact fun x => .inl (by rw [hworkers])
      · refine (service_dispatch_spared (h.quiets hquiets) (cStr service_name) _ now).mono
          (fun _ _ => trivial) fun b' hb' x => (hb' x).congr (by rw [hworkers])
  · trivial

theorem sendHeartbeats_workers (b : BrokerState) (wrks : List ℕ) :
    Ends (fun _ => True) (fun b' => b'.workers = b.workers ∧ b'.m_waiting = b.m_waiting)
      (b.sendHeartbeats wrks) := by
  unfold sendHeartbeats
  refine Ends.foldlM wrks (fun wrk _ b₁ hb₁ => ?_) ⟨rfl, rfl⟩
  unfold deref
  cases b₁.workers.find? wrk with
  | none => trivial
  | some w => exact hb₁

theorem clientHeartbeats_workers (b : BrokerState) (client_senders : List String) :
    (client_senders.foldl (fun b client_sender =>
      b.send (.toClientHeartbeat (clientHeartbeat client_sender))) b).workers = b.workers := by
  induction client_senders generalizing b with
  | nil => rfl
  | cons client_sender client_senders ih => exact ih _

/-- **What becomes of every worker in an event.** -/
theorem step_fate (hlinked : Linked b) (hstep : b.step event = .ok b') (x : ℕ) :
    Fate b event x (b'.workers.find? x) := by
  suffices hends : Ends (fun _ => True) (fun b' => Fate b event x (b'.workers.find? x))
      (b.step event) from hends.of_ok hstep
  cases event with
  | client frames now =>
    unfold step
    dsimp only
    split
    · split_ifs
      · exact (client_process_spared hlinked _ _ now).imp
          fun b' hb' => (hb' x).fate rfl fun _ _ => rfl
      · exact .of_workers rfl (fun _ => rfl) x
    · trivial
  | worker frames clock now =>
    unfold step
    dsimp only
    split
    · rename_i sender empty header msg
      split_ifs with hheader
      · cases msg with
        | nil => trivial
        | cons command msg =>
          by_cases hsender : cStr sender = ""
          · have hrequire : b.worker_require (cStr sender) = .error .assertion := if_pos hsender
            unfold worker_process
            dsimp only
            rw [hrequire]
            trivial
          obtain ⟨b₀, wrk, w, hrequire, hentered⟩ :=
            worker_require_entered hlinked hsender (ZMsg.cStr_cStr sender)
          refine (worker_process_answer hentered hrequire command msg clock now).imp
            fun b' hb' => ?_
          obtain ⟨r, hleaves, hanswer⟩ := hb'
          have hmessage : (Event.worker (sender :: empty :: header :: command :: msg) clock
              now).message = some (cStr sender, cStr command, msg) := if_pos hheader
          have hheard : ∀ identity, (Event.worker (sender :: empty :: header :: command :: msg) clock
              now).heard identity =
                if cStr sender = identity ∧
                  cStr command ∈ [k_mdpw_ready, k_mdpw_reply, k_mdpw_heartbeat]
                then some clock else none := heard_message hheader
          by_cases hx : x = wrk
          · subst hx
            have hown := hheard (cStr sender)
            simp only [true_and] at hown
            obtain ⟨v, hv, hid⟩ := hentered.session.linked.worker hentered.found
            rw [hentered.session.find, Option.some.injEq] at hv
            subst hv
            rcases hentered.required with ⟨rfl, hknown⟩ | ⟨rfl, hnone⟩
            · rw [hknown, Option.isSome_some] at hanswer
              exact hleaves.fate_known hentered.session.find hid hanswer hmessage rfl hown
            · rw [hnone, Option.isSome_none] at hanswer
              obtain ⟨hserved, -⟩ := hentered.session.new (by rw [hnone]; rfl)
              refine hleaves.fate_new ?_ hid hserved hanswer hmessage hown
              have hwrk := hentered.found
              rw [register, SortedMap.find?_set_self, Option.some.injEq] at hwrk
              cases hfind : b.workers.find? x with
              | none => rfl
              | some v => exact absurd hwrk.symm (hlinked.fresh hfind).ne
          · refine hleaves.fate_others hentered hlinked rfl (fun identity hne => ?_) hx
            rw [hheard]
            exact if_neg fun h => hne h.1.symm
      · refine .of_workers rfl (fun identity => ?_) x
        cases msg with
        | nil => rfl
        | cons command msg => exact if_neg fun h => hheader h.1
    · trivial
  | heartbeat now =>
    unfold step
    refine Ends.bind ((purge_workers_purged hlinked now).mono (fun _ _ => trivial) fun _ h => h)
      fun b₁ hb₁ => ?_
    have hpurged := hb₁.2
    refine (sendHeartbeats_workers b₁ _).imp fun b' hb' => ?_
    rw [hb'.1]
    exact (hpurged.spared x).fate rfl fun _ _ => rfl
  | clientHeartbeat =>
    unfold step
    dsimp only
    split_ifs
    · exact .of_workers rfl (fun _ => rfl) x
    · exact .of_workers (b.clientHeartbeats_workers _) (fun _ => rfl) x

end BrokerState

end ShoppingApp
