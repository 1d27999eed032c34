import ShoppingApp.Verify.BrokerEvents

/-!
# The workers of the broker

Over whole runs of the broker: no list names a deleted worker, the two kinds of waiting lists agree
as long as no waiting worker sends a REPLY, and the broker keeps to registered workers with services
exactly as long as it gets no message of a worker that breaks `Expected`.
-/

namespace ShoppingApp

namespace BrokerState

variable {b b' : BrokerState} {wrk : ℕ} {w : BrokerWorker} {name : String} {events : List Event}
  {who : ℕ → Prop}

/-- A message of a worker, as it comes from the socket. -/
def fromWorker (identity command : String) (msg : ZMsg) (clock now : Int) : Event :=
  .worker (identity :: "" :: k_mdpw_worker :: command :: msg) clock now

/-! ## Deleted workers -/

/-- Every worker in a waiting list is registered under its identity, and nothing that comes next
touches a worker that has been deleted. -/
theorem waiting_registered (h : run events = .ok b) :
    (∀ wrk, (wrk ∈ b.m_waiting.elems ∨ ∃ name, wrk ∈ (b.service name).m_waiting) →
      ∃ w, b.workers.find? wrk = some w ∧ b.m_workers.find? w.m_identity = some wrk) ∧
    ∀ event, b.step event ≠ .error .dangling := by
  have hlinked : Linked b := run_linked h
  constructor
  · intro wrk hwrk
    have hlive : ∃ w, b.workers.find? wrk = some w := by
      rcases hwrk with hwaiting | ⟨name, hlisted⟩
      · exact hlinked.waiting hwaiting
      · obtain ⟨w, hw, -⟩ := hlinked.listed hlisted
        exact ⟨w, hw⟩
    obtain ⟨w, hw⟩ := hlive
    exact ⟨w, hw, hlinked.identity hw⟩
  · intro event herror
    exact ((step_ends True hlinked event (.inl trivial)).of_error herror).1 rfl

theorem waiting_registered_ready :
    ∃ b, run [fromWorker "w1" k_mdpw_ready ["lists"] 0 0] = .ok b ∧
      (b.service "lists").m_waiting = [0] ∧ 0 ∈ b.m_waiting.elems ∧
      (∃ w, b.workers.find? 0 = some w ∧ b.m_workers.find? w.m_identity = some 0) ∧
      ∀ event, b.step event ≠ .error .dangling := by
  have hrun : run [fromWorker "w1" k_mdpw_ready ["lists"] 0 0] = .ok _ := rfl
  have h := waiting_registered hrun
  exact ⟨_, hrun, by decide, by decide, h.1 0 (.inl (by decide)), h.2⟩

/-! ## Waiting lists -/

/-- A worker is in the list of all waiting workers if and only if it is in the list of its service,
and there it is once and in no other list. -/
def WaitingAgree (b : BrokerState) : Prop :=
  ∀ wrk w, b.workers.find? wrk = some w →
    (wrk ∈ b.m_waiting.elems ↔
      ∃ name, w.m_service = some name ∧ wrk ∈ (b.service name).m_waiting) ∧
    ∀ name, wrk ∈ (b.service name).m_waiting →
      w.m_service = some name ∧ (b.service name).m_waiting.count wrk = 1

/-- `WaitingAgree`, in the form that the changes of the state keep. -/
structure Agree (b : BrokerState) : Prop where
  waiting : ∀ wrk ∈ b.m_waiting.elems, ∃ name, wrk ∈ (b.service name).m_waiting
  listed : ∀ name, ∀ wrk ∈ (b.service name).m_waiting, wrk ∈ b.m_waiting.elems
  nodup : ∀ name, (b.service name).m_waiting.Nodup

namespace Agree

theorem waitingAgree (h : Agree b) (hlinked : Linked b) : b.WaitingAgree := by
  intro wrk w hw
  have howner : ∀ name, wrk ∈ (b.service name).m_waiting → w.m_service = some name := by
    intro name hwrk
    obtain ⟨v, hv, hname⟩ := hlinked.listed hwrk
    rw [hw, Option.some.injEq] at hv
    rw [hv, hname]
  refine ⟨⟨fun hwrk => ?_, fun ⟨name, _, hwrk⟩ => h.listed name wrk hwrk⟩, fun name hwrk => ?_⟩
  · obtain ⟨name, hname⟩ := h.waiting wrk hwrk
    exact ⟨name, howner name hname, hname⟩
  · exact ⟨howner name hwrk, List.count_eq_one_of_mem (h.nodup name) hwrk⟩

/-- The lists stay as they are. -/
theorem congr (h : Agree b) (hm_waiting : b'.m_waiting = b.m_waiting)
    (hservice : ∀ name, (b'.service name).m_waiting = (b.service name).m_waiting) : Agree b' where
  waiting wrk hwrk := by
    obtain ⟨name, hname⟩ := h.waiting wrk (hm_waiting ▸ hwrk)
    exact ⟨name, by rw [hservice]; exact hname⟩
  listed name wrk hwrk := by
    rw [hm_waiting]
    exact h.listed name wrk (hservice name ▸ hwrk)
  nodup name := by
    rw [hservice]
    exact h.nodup name

/-- A worker leaves all lists. -/
theorem remove (h : Agree b) (wrk : ℕ) (hm_waiting : b'.m_waiting = b.m_waiting.erase wrk)
    (hsub : ∀ name, (b'.service name).m_waiting.Sublist (b.service name).m_waiting)
    (hmem : ∀ name x, x ∈ (b'.service name).m_waiting ↔
      x ∈ (b.service name).m_waiting ∧ x ≠ wrk) : Agree b' where
  waiting x hx := by
    rw [hm_waiting] at hx
    obtain ⟨hx, hne⟩ := SortedSet.mem_erase.1 hx
    obtain ⟨name, hname⟩ := h.waiting x hx
    exact ⟨name, (hmem name x).2 ⟨hname, hne⟩⟩
  listed name x hx := by
    obtain ⟨hx, hne⟩ := (hmem name x).1 hx
    rw [hm_waiting]
    exact SortedSet.mem_erase.2 ⟨h.listed name x hx, hne⟩
  nodup name := (h.nodup name).sublist (hsub name)

/-- The lists of the other services do not have a worker of service `name`. -/
theorem not_listed (hlinked : Linked b) (hw : b.workers.find? wrk = some w)
    (hname : w.m_service = some name) {name' : String} (hne : name' ≠ name) :
    wrk ∉ (b.service name').m_waiting := by
  intro hwrk
  obtain ⟨v, hv, hname'⟩ := hlinked.listed hwrk
  rw [hw, Option.some.injEq] at hv
  rw [← hv, hname, Option.some.injEq] at hname'
  exact hne hname'.symm

theorem unlist (h : Agree b) (hlinked : Linked b) (hw : b.workers.find? wrk = some w)
    (hname : w.m_service = some name) : Agree (b.unlist wrk name) := by
  refine h.remove wrk rfl (unlist_waiting_sublist b wrk name) fun name' x => ?_
  rw [service_unlist]
  split_ifs with heq
  · rw [heq, List.mem_filter, decide_eq_true_iff]
  · refine ⟨fun hx => ⟨hx, ?_⟩, And.left⟩
    rintro rfl
    exact not_listed hlinked hw hname heq hx

theorem erase (h : Agree b) (hlinked : Linked b) (hw : b.workers.find? wrk = some w) :
    Agree (b.erase wrk w) := by
  refine h.remove wrk (erase_m_waiting b wrk w) (erase_waiting_sublist b wrk w) fun name x => ?_
  refine ⟨hlinked.of_mem_erase hw, fun ⟨hx, hne⟩ => ?_⟩
  rw [service_erase]
  split_ifs
  · exact List.mem_filter.2 ⟨hx, decide_eq_true hne⟩
  · exact hx

theorem assign (h : Agree b) (hlinked : Linked b) (hassign : Assign name b b') : Agree b' := by
  cases hassign with
  | assign wrk w request requests hw hwaiting hrequests =>
    obtain ⟨v, hv, hname⟩ := hlinked.listed hwaiting
    refine h.remove wrk rfl (fun name' => ?_) fun name' x => ?_
    · rw [service_assign]
      split_ifs with heq
      · rw [heq]
        exact List.erase_sublist
      · exact List.Sublist.refl _
    · rw [service_assign]
      split_ifs with heq
      · rw [heq, (h.nodup name).mem_erase_iff]
        exact and_comm
      · refine ⟨fun hx => ⟨hx, ?_⟩, And.left⟩
        rintro rfl
        exact not_listed hlinked hv hname heq hx

/-- Only a worker that waits already can be queued a second time. -/
theorem arrive (h : Agree b) (harrive : Arrive False who name b b') : Agree b' := by
  cases harrive with
  | enlist wrk w clock hw hwho hname hnew =>
    have hnew : wrk ∉ b.m_waiting.elems := hnew.resolve_left id
    have hmem : ∀ name' x, x ∈ ((b.enlist wrk w name clock).service name').m_waiting ↔
        x ∈ (b.service name').m_waiting ∨ x = wrk ∧ name' = name := by
      intro name' x
      rw [service_enlist]
      split_ifs with heq
      · rw [heq, List.mem_append, List.mem_singleton]
        simp only [and_true]
      · simp only [heq, and_false, or_false]
    constructor
    · intro x hx
      rcases SortedSet.mem_insert.1 hx with rfl | hx
      · exact ⟨name, (hmem name x).2 (.inr ⟨rfl, rfl⟩)⟩
      · obtain ⟨name', hx⟩ := h.waiting x hx
        exact ⟨name', (hmem name' x).2 (.inl hx)⟩
    · intro name' x hx
      rcases (hmem name' x).1 hx with hx | ⟨rfl, -⟩
      · exact SortedSet.mem_insert.2 (.inr (h.listed name' x hx))
      · exact SortedSet.mem_insert.2 (.inl rfl)
    · intro name'
      rw [service_enlist]
      split_ifs with heq
      · refine (h.nodup name).append (List.nodup_singleton wrk) ?_
        rw [List.disjoint_singleton]
        exact fun hx => hnew (h.listed name wrk hx)
      · exact h.nodup name'
  | push msg =>
    refine h.congr rfl fun name' => ?_
    rw [service_push]
    split_ifs with heq
    · rw [heq]
    · rfl

theorem quiet (h : Agree b) (hlinked : Linked b) (hquiet : Quiet who b b') : Agree b' := by
  cases hquiet with
  | addService name hname => exact h.congr rfl fun name' => by rw [service_addService hname]
  | erase wrk w hw => exact h.erase hlinked hw
  | attach => exact h.congr rfl fun _ => rfl
  | touch => exact h.congr rfl fun _ => rfl
  | unlist wrk w name hw hname => exact h.unlist hlinked hw hname
  | toWorker => exact h.congr rfl fun _ => rfl
  | toClient => exact h.congr rfl fun _ => rfl
  | toClientHeartbeat => exact h.congr rfl fun _ => rfl
  | client => exact h.congr rfl fun _ => rfl

theorem handled (h : Agree b) (hlinked : Linked b) (hhandled : Handled False who b b') :
    Agree b' := by
  refine (hhandled.keeps (fun b₁ => Linked b₁ ∧ Agree b₁) ?_ ?_ ?_ ⟨hlinked, h⟩).2
  · exact fun _ _ ⟨hlinked, h⟩ hquiet => ⟨hlinked.quiet hquiet, h.quiet hlinked hquiet⟩
  · exact fun _ _ _ ⟨hlinked, h⟩ harrive => ⟨hlinked.arrive harrive, h.arrive harrive⟩
  · exact fun _ _ _ ⟨hlinked, h⟩ hassign => ⟨hlinked.assigned hassign, h.assign hlinked hassign⟩

end Agree

/-- As long as no waiting worker sends a REPLY the waiting lists agree, so that purging sees every
expired worker of a service. -/
theorem waiting_agree (h : run events = .ok b)
    (hbusy : ∀ past event future b₁, events = past ++ event :: future → run past = .ok b₁ →
      b₁.RepliesBusy event) :
    b.WaitingAgree ∧ ∀ now name wrk w, wrk ∈ (b.service name).m_waiting →
      b.workers.find? wrk = some w → w.m_expiry ≤ now →
      ∃ culled, b.toCull now b.m_waiting.elems = .ok culled ∧ wrk ∈ culled := by
  have hagree : Agree b := by
    have hends : Ends (fun _ => True) (fun b₁ => Linked b₁ ∧ Agree b₁)
        (events.foldlM step BrokerState.new) := by
      refine Ends.foldlM_run ⟨Linked.new, ⟨nofun, nofun, fun _ => .nil⟩⟩ events
        fun past event future b₁ heq hpast ⟨hlinked, hagree⟩ => ?_
      refine (step_ends False hlinked event
        (.inr (hbusy past event future b₁ heq hpast))).mono (fun _ _ => trivial) ?_
      rintro b₂ ⟨⟨b₀, who, hrequired, -, hhandled⟩, -⟩
      have hagree₀ : Agree b₀ := by
        cases hrequired with
        | known => exact hagree
        | register => exact hagree.congr rfl fun _ => rfl
      exact ⟨(hrequired.linked hlinked).handled hhandled,
        hagree₀.handled (hrequired.linked hlinked) hhandled⟩
    exact (hends.of_ok h).2
  have hlinked : Linked b := run_linked h
  refine ⟨hagree.waitingAgree hlinked, fun now name wrk w hwrk hw hexpired => ?_⟩
  refine ⟨_, toCull_eq now fun x hx => hlinked.waiting hx, List.mem_filter.2 ?_⟩
  refine ⟨hagree.listed name wrk hwrk, ?_⟩
  rw [expired, hw]
  exact decide_eq_true hexpired

theorem waiting_agree_reply :
    ∃ b, run [fromWorker "w1" k_mdpw_ready ["lists"] 0 0,
        .client ["c1", "", k_mdp_client, "lists", "GET_LIST", "url"] 1,
        fromWorker "w1" k_mdpw_reply ["c1", "", "reply"] 2 2] = .ok b ∧
      (b.service "lists").m_waiting = [0] ∧ b.WaitingAgree := by
  have hrun : run [fromWorker "w1" k_mdpw_ready ["lists"] 0 0,
      .client ["c1", "", k_mdp_client, "lists", "GET_LIST", "url"] 1,
      fromWorker "w1" k_mdpw_reply ["c1", "", "reply"] 2 2] = .ok _ := rfl
  refine ⟨_, hrun, by decide, (waiting_agree hrun ?_).1⟩
  intro past event future b₁ heq hpast sender command msg hmessage hidle
  obtain ⟨hreply, wrk, hfind, hwaiting⟩ := hidle
  rcases past with _ | ⟨ready, _ | ⟨request, _ | ⟨reply, past⟩⟩⟩
  · cases heq
    cases hmessage
    exact absurd hreply (by decide)
  · cases heq
    cases hmessage
  · cases heq
    cases hpast
    exact List.not_mem_nil hwaiting
  · simp at heq

/-- A worker whose request crosses with forwarded work replies twice, the second time while it is
waiting, and is queued for its service twice. -/
theorem waiting_worker_queued_again :
    ∃ b, run [fromWorker "w1" k_mdpw_ready ["lists"] 0 0,
        .client ["c1", "", k_mdp_client, "lists", "GET_LIST", "url"] 1,
        fromWorker "w1" k_mdpw_worker_occupied ["w1"] 2 2,
        fromWorker "w1" k_mdpw_reply ["c2", "", "reply"] 3 3,
        fromWorker "w1" k_mdpw_reply ["c1", "", "reply"] 4 4] = .ok b ∧
      (b.service "lists").m_waiting = [0, 0] ∧ ¬ b.WaitingAgree := by
  refine ⟨_, rfl, by decide, fun h => ?_⟩
  have hcount := (h 0 ⟨"w1", some "lists", 7504⟩ (by decide)).2 "lists" (by decide)
  exact absurd hcount.2 (by decide)

/-! ## Workers and their services -/

/-- The broker does not follow a null service or look up an unknown identity, and afterwards every
registered worker has a service. -/
def Survives (b : BrokerState) (event : Event) : Prop :=
  (∀ f, b.step event = .error f → f ≠ .nullService ∧ f ≠ .outOfRange) ∧
  ∀ b', b.step event = .ok b' → ∀ identity wrk, b'.m_workers.find? identity = some wrk →
    ∃ w name, b'.workers.find? wrk = some w ∧ w.m_service = some name

theorem Served.worker (h : Served b) (hlinked : Linked b) {identity : String}
    (hfind : b.m_workers.find? identity = some wrk) :
    ∃ w name, b.workers.find? wrk = some w ∧ w.m_service = some name := by
  obtain ⟨w, hw, -⟩ := hlinked.worker hfind
  cases hservice : w.m_service with
  | none => exact absurd ⟨w, hw, hservice⟩ (h wrk)
  | some name => exact ⟨w, name, hw, hservice⟩

theorem Survives.served {event : Event} (h : Survives b event) (hlinked : Linked b')
    (hstep : b.step event = .ok b') : Served b' := by
  rintro wrk ⟨w, hw, hnone⟩
  obtain ⟨v, name, hv, hname⟩ := h.2 b' hstep w.m_identity wrk (hlinked.identity hw)
  rw [hw, Option.some.injEq] at hv
  rw [← hv, hnone] at hname
  cases hname

theorem survives_of_expects (hlinked : Linked b) (hserved : Served b) {event : Event}
    (hexpects : b.Expects event) : b.Survives event := by
  have hends := step_ends True hlinked event (.inl trivial)
  refine ⟨fun f hf => ?_, fun b' hstep identity wrk hfind => ?_⟩
  · rcases (hends.of_error hf).2 hserved hexpects with rfl | rfl
    · exact ⟨by decide, by decide⟩
    · exact ⟨by decide, by decide⟩
  · obtain ⟨-, hserved'⟩ := hends.of_ok hstep
    exact (hserved' hserved hexpects).worker (step_linked hlinked hstep) hfind

theorem step_of_message {event : Event} {sender command : String} {msg : ZMsg}
    (h : event.message = some (sender, command, msg)) :
    ∃ part clock now, cStr part = command ∧ cStr sender = sender ∧
      ∀ b, step b event = b.worker_process sender (part :: msg) clock now := by
  unfold Event.message at h
  split at h
  · rename_i sender' empty header part msg' clock now
    split_ifs at h with hheader
    cases h
    exact ⟨part, clock, now, rfl, ZMsg.cStr_cStr sender', fun b => if_pos hheader⟩
  · cases h

/-- A message from an unknown worker that neither registers it nor lets it be deleted. -/
theorem unserved_of_unregistered (hlinked : Linked b) {sender part : String} {msg : ZMsg}
    (hsender : sender ≠ "") (hcStr : cStr sender = sender) (hnone : b.m_workers.find? sender = none)
    (hpart : cStr part = k_mdpw_worker_occupied ∧ msg ≠ [] ∨
      cStr part ∉ [k_mdpw_ready, k_mdpw_worker_occupied, k_mdpw_reply, k_mdpw_heartbeat,
        k_mdpw_disconnect]) (clock now : Int) :
    Ends (fun f => f = .nullService ∨ f = .outOfRange) (fun b' => b'.Unserved b.next)
      (b.worker_process sender (part :: msg) clock now) := by
  have hlinked₀ : Linked (b.register sender) := hlinked.register hsender hcStr hnone
  have hunserved : (b.register sender).Unserved b.next :=
    ⟨⟨sender, none, 0⟩, SortedMap.find?_set_self _ _ _, rfl⟩
  rw [worker_process_eq (worker_require_unknown hsender hnone)]
  rcases hpart with ⟨hoccupied, hmsg⟩ | hunknown
  · rw [hoccupied, if_neg (by decide), if_pos rfl]
    cases msg with
    | nil => exact absurd rfl hmsg
    | cons named msg =>
      unfold processOccupied
      dsimp only
      cases hfind : (b.register sender).m_workers.find? (cStr named) with
      | none => exact .inr rfl
      | some wrk =>
        obtain ⟨w, hw, -⟩ := hlinked₀.worker hfind
        dsimp only
        rw [deref_eq hw]
        dsimp only [bind, Except.bind]
        cases w.m_service with
        | none => exact .inl rfl
        | some name => exact hunserved
  · simp only [List.mem_cons, List.not_mem_nil, or_false, not_or] at hunknown
    obtain ⟨hready, hoccupied, hreply, hheartbeat, hdisconnect⟩ := hunknown
    rw [if_neg hready, if_neg hoccupied, if_neg hreply, if_neg hheartbeat, if_neg hdisconnect]
    exact hunserved

theorem expects_of_survives (hlinked : Linked b) {event : Event} (h : b.Survives event) :
    b.Expects event := by
  intro sender command msg hmessage hsender
  obtain ⟨part, clock, now, rfl, hcStr, hstep⟩ := step_of_message hmessage
  have hprocess := hstep b
  -- A sender that is unknown would stay without service, if the broker went on at all.
  have hregistered : (cStr part = k_mdpw_worker_occupied ∧ msg ≠ [] ∨
      cStr part ∉ [k_mdpw_ready, k_mdpw_worker_occupied, k_mdpw_reply, k_mdpw_heartbeat,
        k_mdpw_disconnect]) → b.Registered sender := by
    intro hpart
    by_contra hunregistered
    have hnone : b.m_workers.find? sender = none := by
      rw [Registered, Bool.not_eq_true, Option.isSome_eq_false_iff, Option.isNone_iff_eq_none]
        at hunregistered
      exact hunregistered
    have hends := unserved_of_unregistered hlinked hsender hcStr hnone hpart clock now
    rw [← hprocess] at hends
    cases hrun : b.step event with
    | error f =>
      obtain ⟨hnull, hrange⟩ := h.1 f hrun
      rcases hends.of_error hrun with hf | hf
      · exact hnull hf
      · exact hrange hf
    | ok b' => exact h.served (step_linked hlinked hrun) hrun b.next (hends.of_ok hrun)
  refine ⟨fun hoccupied named hnamed => ?_, fun hunknown => hregistered (.inr hunknown)⟩
  cases msg with
  | nil => cases hnamed
  | cons named' msg =>
    cases hnamed
    have hsender' := hregistered (.inl ⟨hoccupied, List.cons_ne_nil _ _⟩)
    refine ⟨hsender', ?_⟩
    by_contra hunregistered
    have hnone : b.m_workers.find? (cStr named) = none := by
      rw [Registered, Bool.not_eq_true, Option.isSome_eq_false_iff, Option.isNone_iff_eq_none]
        at hunregistered
      exact hunregistered
    obtain ⟨wrk, hwrk⟩ := Option.isSome_iff_exists.1 hsender'
    have hcrash : b.step event = .error .outOfRange := by
      rw [hprocess, worker_process_eq (worker_require_known hsender hwrk), hoccupied,
        if_neg (by decide), if_pos rfl]
      unfold processOccupied
      dsimp only
      rw [hnone]
    exact (h.1 _ hcrash).2 rfl

/-- The broker survives every event of a run just when it expects every one. -/
theorem survives_iff (events : List Event) :
    (∀ past event future b, events = past ++ event :: future → run past = .ok b →
      b.Survives event) ↔
    ∀ past event future b, events = past ++ event :: future → run past = .ok b →
      b.Expects event := by
  constructor
  · intro h past event future b heq hpast
    exact expects_of_survives (run_linked hpast) (h past event future b heq hpast)
  · intro h past event future b heq hpast
    have hends : Ends (fun _ => True) (fun b₁ => Linked b₁ ∧ Served b₁)
        (past.foldlM step BrokerState.new) := by
      refine Ends.foldlM_run ⟨Linked.new, fun wrk hwrk => nomatch hwrk⟩ past
        fun before event' between b₁ hbefore hrun ⟨hlinked, hserved⟩ => ?_
      have hexpects : b₁.Expects event' := by
        refine h before event' (between ++ event :: future) b₁ ?_ hrun
        rw [heq, hbefore, List.append_assoc]
        rfl
      refine (step_ends True hlinked event' (.inl trivial)).mono
        (fun _ _ => trivial) ?_
      exact fun b₂ hb₂ => ⟨hb₂.1.linked hlinked, hb₂.2 hserved hexpects⟩
    obtain ⟨hlinked, hserved⟩ := hends.of_ok hpast
    exact survives_of_expects hlinked hserved (h past event future b heq hpast)

/-- A worker that has been purged says that it is occupied: it is registered again, without a
service, and the broker follows its null service. -/
theorem purged_worker_occupied :
    ∃ b, run [fromWorker "w1" k_mdpw_ready ["lists"] 0 0, .heartbeat 7500] = .ok b ∧
      b.step (fromWorker "w1" k_mdpw_worker_occupied ["w1"] 7501 7501) = .error .nullService ∧
      ¬ b.Survives (fromWorker "w1" k_mdpw_worker_occupied ["w1"] 7501 7501) := by
  refine ⟨_, rfl, by decide, fun h => ?_⟩
  exact (h.1 .nullService (by decide)).1 rfl

end BrokerState

end ShoppingApp
