import ShoppingApp.System.BrokerReplies

/-!
# Reserved names

Names that begin with `mmi.` are the broker's own. The broker looks for the first of the characters
of `mmi.` instead, so it also drops requests for other services and refuses other workers
(`reserved_names_iff`). A worker that is not refused waits or gets a request, unless its time is
over before the broker looks at it.
-/

namespace ShoppingApp

open Replication (Run)

/-- A name that begins with `mmi.` -/
def MmiName (name : String) : Prop := "mmi.".toList <+: name.toList

instance (name : String) : Decidable (MmiName name) :=
  inferInstanceAs (Decidable ("mmi.".toList <+: name.toList))

namespace BrokerState

variable {b b' : BrokerState} {wrk : ℕ} {w : BrokerWorker} {name identity : String}

theorem reserved_of_mmi (h : MmiName name) : reserved name = true := by
  obtain ⟨rest, hrest⟩ := h
  obtain rfl : name = "mmi." ++ String.ofList rest := by
    have hlist : (String.ofList rest).toList = rest := String.toList_ofList
    rw [← String.toList_inj, String.toList_append, hlist, hrest]
  have hsize : 4 ≤ ("mmi." ++ String.ofList rest).utf8ByteSize := by
    rw [String.utf8ByteSize_append]
    exact Nat.le_add_right 4 _
  unfold reserved
  rw [decide_eq_true hsize, String.toList_append]
  rfl

theorem not_mmi_of_not_reserved (h : reserved name = false) : ¬ MmiName name := fun hmmi => by
  rw [reserved_of_mmi hmmi] at h
  cases h

theorem ne_empty_of_reserved (h : reserved name = true) : name ≠ "" := by
  rintro rfl
  cases h

/-! ## Requests -/

/-- Nothing is sent or queued. -/
def Discarded (b : BrokerState) (r : Except BrokerFault BrokerState) : Prop :=
  ∃ b', r = .ok b' ∧ b'.log = b.log ∧
    ∀ name, (b'.service name).m_requests = (b.service name).m_requests

/-- The request is queued for the service before anything else happens. -/
def Queued (b : BrokerState) (name : String) (msg : ZMsg) (r : Except BrokerFault BrokerState) :
    Prop :=
  ∃ b' acts, r = .ok b' ∧ b'.log = b.log ++ .queue name (b.next, msg) :: acts

theorem Queued.not_discarded {msg : ZMsg} {r : Except BrokerFault BrokerState}
    (h : Queued b name msg r) : ¬ Discarded b r := by
  obtain ⟨b', acts, rfl, hlog⟩ := h
  rintro ⟨b'', hr, hlog', -⟩
  cases hr
  rw [hlog] at hlog'
  have hlength := congrArg List.length hlog'
  rw [List.length_append, List.length_cons] at hlength
  omega

section Client

variable {service_name : String} (sender body : String) (rest : ZMsg) (now : Int)

theorem client_process_reserved (b : BrokerState) (hheartbeat : cStr service_name ≠ "HEARTBEAT")
    (hreserved : reserved (cStr service_name) = true) :
    Discarded b (b.client_process sender (service_name :: body :: rest) now) := by
  obtain ⟨b₁, hrequire, hlog, -, hservice⟩ :=
    b.service_require_eq (ne_empty_of_reserved hreserved)
  refine ⟨b₁, ?_, hlog, fun name => by rw [hservice]⟩
  unfold client_process
  dsimp only
  rw [if_neg hheartbeat, hrequire, hreserved]
  rfl

theorem client_process_queued (hlinked : Linked b) (hheartbeat : cStr service_name ≠ "HEARTBEAT")
    (hne : cStr service_name ≠ "") (hreserved : reserved (cStr service_name) = false) :
    Queued b (cStr service_name) (ZMsg.wrap (body :: rest) sender "")
      (b.client_process sender (service_name :: body :: rest) now) := by
  obtain ⟨b₁, hrequire, hlog, hnext, -⟩ := b.service_require_eq hne
  have hquiets := ((service_require_ends (fun _ => False) b _).of_ok hrequire).1
  obtain ⟨b', acts, hrun, hacts⟩ := service_dispatch_queues (hlinked.quiets hquiets)
    (cStr service_name) (ZMsg.wrap (body :: rest) sender "") now
  refine ⟨b', acts, ?_, by rw [hacts, hlog, hnext]⟩
  unfold client_process
  dsimp only
  rw [if_neg hheartbeat, hrequire, hreserved]
  exact hrun

theorem client_process_unnamed (b : BrokerState) (hempty : cStr service_name = "") :
    b.client_process sender (service_name :: body :: rest) now = .error .assertion := by
  unfold client_process service_require
  dsimp only
  rw [hempty]
  rfl

end Client

/-! ## Workers -/

/-- The worker is not registered, and all that is sent is a DISCONNECT to it. -/
def Refused (b : BrokerState) (identity : String) (r : Except BrokerFault BrokerState) : Prop :=
  ∃ b' w, r = .ok b' ∧ b'.m_workers.find? identity = none ∧ w.m_identity = identity ∧
    b'.log = b.log ++ [.toWorker (worker_send w k_mdpw_disconnect "" [])]

/-- The worker is registered for the service, and it waits or has been sent a request. -/
def Attached (b : BrokerState) (identity name : String) (r : Except BrokerFault BrokerState) :
    Prop :=
  ∃ b' wrk w acts, r = .ok b' ∧ b'.m_workers.find? identity = some wrk ∧
    b'.workers.find? wrk = some w ∧ w.m_service = some name ∧ b'.log = b.log ++ acts ∧
      (wrk ∈ b'.m_waiting.elems ∧ wrk ∈ (b'.service name).m_waiting ∨
        ∃ request, .request name request (worker_send w k_mdpw_request "" request.2) ∈ acts)

theorem Attached.not_refused {r : Except BrokerFault BrokerState} (h : Attached b identity name r) :
    ¬ Refused b identity r := by
  obtain ⟨b', wrk, w, acts, rfl, hregistered, -⟩ := h
  rintro ⟨b'', v, hr, hnone, -⟩
  cases hr
  rw [hregistered] at hnone
  cases hnone

theorem Attached.of_log {b₁ : BrokerState} {r : Except BrokerFault BrokerState}
    (hlog : b₁.log = b.log) (h : Attached b₁ identity name r) : Attached b identity name r := by
  obtain ⟨b', wrk, w, acts, hr, hregistered, hfind, hname, hlog', hkept⟩ := h
  exact ⟨b', wrk, w, acts, hr, hregistered, hfind, hname, hlog ▸ hlog', hkept⟩

/-- A worker that waits for work of a service. -/
structure Enlisted (b : BrokerState) (name : String) (wrk : ℕ) (w : BrokerWorker) : Prop where
  find : b.workers.find? wrk = some w
  waiting : wrk ∈ b.m_waiting.elems
  listed : wrk ∈ (b.service name).m_waiting

theorem Enlisted.new (b : BrokerState) (wrk : ℕ) (w : BrokerWorker) (name : String) (clock : Int) :
    Enlisted (b.enlist wrk w name clock) name wrk
      { w with m_expiry := clock + n_heartbeat_expiry } where
  find := SortedMap.find?_set_self _ _ _
  waiting := SortedSet.mem_insert.2 (.inl rfl)
  listed := by
    rw [service_enlist, if_pos rfl]
    exact List.mem_append_right _ (List.mem_singleton_self wrk)

theorem Enlisted.erase (h : Enlisted b name wrk w) {x : ℕ} (hx : wrk ≠ x) (v : BrokerWorker) :
    Enlisted (b.erase x v) name wrk w where
  find := by
    rw [erase_workers, SortedMap.find?_erase, if_neg hx]
    exact h.find
  waiting := by
    rw [erase_m_waiting]
    exact SortedSet.mem_erase.2 ⟨h.waiting, hx⟩
  listed := by
    rw [service_erase]
    split_ifs
    · exact List.mem_filter.2 ⟨h.listed, decide_eq_true hx⟩
    · exact h.listed

/-- What deleting workers keeps, purging keeps, if it is not lost with a worker whose time is
over. -/
theorem purge_workers_keeps (P : BrokerState → Prop) (hlinked : Linked b) {now : Int}
    (herase : ∀ b' x v, b.expired now x = true → P b' → P (b'.erase x v)) (hb : P b) :
    Ends (fun _ => True) P (b.purge_workers now) := by
  unfold purge_workers
  rw [toCull_eq now fun wrk hwrk => hlinked.waiting hwrk]
  refine Ends.foldlM _ (fun x hx b₁ hb₁ => ?_) hb
  unfold worker_delete
  cases b₁.deref x with
  | error f => trivial
  | ok v => exact herase b₁ x v (List.mem_filter.1 hx).2 hb₁

theorem expired_eq (h : b.workers.find? wrk = some w) (now : Int) :
    b.expired now wrk = decide (w.m_expiry ≤ now) := by
  unfold expired
  rw [h]
  rfl

theorem Enlisted.purge (h : Enlisted b name wrk w) (hlinked : Linked b) {now : Int}
    (hlive : now < w.m_expiry) :
    Ends Never (fun b' => Linked b' ∧ Enlisted b' name wrk w ∧ b'.log = b.log)
      (b.purge_workers now) := by
  have hlog := b.purge_workers_log now
  have hother : ∀ x, b.expired now x = true → wrk ≠ x := by
    rintro x hx rfl
    rw [expired_eq h.find, decide_eq_true_eq] at hx
    omega
  have hkept := purge_workers_keeps (fun b' => Enlisted b' name wrk w) hlinked
    (fun b' x v hx hb' => hb'.erase (hother x hx) v) h
  refine ((purge_workers_ends (fun _ => False) hlinked now).and (hkept.and hlog)).imp ?_
  exact fun b' ⟨hquiets, hb', hlog'⟩ => ⟨hlinked.quiets hquiets, hb', hlog'⟩

/-- A worker that waits and whose time is over is not registered any longer after a purge. -/
theorem purge_workers_gone (hlinked : Linked b) (hw : b.workers.find? wrk = some w)
    (hwaiting : wrk ∈ b.m_waiting.elems) {now : Int} (hover : w.m_expiry ≤ now) :
    Ends (fun _ => True) (fun b' => b'.m_workers.find? w.m_identity = none)
      (b.purge_workers now) := by
  have hloop : ∀ (wrks : List ℕ) (b : BrokerState),
      wrk ∈ wrks ∧ b.workers.find? wrk = some w ∨ b.m_workers.find? w.m_identity = none →
      Ends (fun _ => True) (fun b' => b'.m_workers.find? w.m_identity = none)
        (wrks.foldlM (fun b wrk => b.worker_delete wrk false) b) := by
    intro wrks
    induction wrks with
    | nil => exact fun b hb => hb.resolve_left fun hmem => List.not_mem_nil hmem.1
    | cons x wrks ih =>
      intro b hb
      rw [List.foldlM_cons]
      unfold worker_delete deref
      cases hx : b.workers.find? x with
      | none => trivial
      | some v =>
        refine ih (b.erase x v) ?_
        rw [erase_workers, SortedMap.find?_erase, erase_m_workers, SortedMap.find?_erase]
        rcases hb with ⟨hmem, hfind⟩ | hnone
        · by_cases hne : wrk = x
          · subst hne
            rw [hfind, Option.some.injEq] at hx
            exact .inr (if_pos (hx ▸ rfl))
          · exact .inl ⟨(List.mem_cons.1 hmem).resolve_left hne, (if_neg hne).trans hfind⟩
        · right
          split_ifs
          · rfl
          · exact hnone
  unfold purge_workers
  rw [toCull_eq now fun wrk hwrk => hlinked.waiting hwrk]
  refine hloop _ b (.inl ⟨List.mem_filter.2 ⟨hwaiting, ?_⟩, hw⟩)
  rw [expired_eq hw, decide_eq_true hover]

/-- Dispatching takes a worker off the lists only to send it a request. -/
theorem Enlisted.assigns (hb : Enlisted b name wrk w) (h : Assigns name b b') :
    ∃ acts, b'.log = b.log ++ acts ∧ b'.workers.find? wrk = some w ∧
      (wrk ∈ b'.m_waiting.elems ∧ wrk ∈ (b'.service name).m_waiting ∨
        ∃ request, .request name request (worker_send w k_mdpw_request "" request.2) ∈ acts) := by
  induction h with
  | refl => exact ⟨[], (List.append_nil _).symm, hb.find, .inl ⟨hb.waiting, hb.listed⟩⟩
  | tail _ hassign ih =>
    obtain ⟨acts, hlog, hfind, hkept⟩ := ih
    cases hassign with
    | assign x v request requests hv hwaiting hrequests =>
      let act := BrokerAct.request name request (worker_send v k_mdpw_request "" request.2)
      refine ⟨acts ++ [act], ?_, hfind, ?_⟩
      · rw [← List.append_assoc, ← hlog]
        rfl
      · rcases hkept with ⟨hwrk, hlisted⟩ | ⟨request', hmem⟩
        · by_cases hx : wrk = x
          · subst hx
            rw [hfind, Option.some.injEq] at hv
            subst hv
            exact .inr ⟨request, List.mem_append_right _ (List.mem_singleton_self _)⟩
          · refine .inl ⟨SortedSet.mem_erase.2 ⟨hwrk, hx⟩, ?_⟩
            rw [service_assign, if_pos rfl]
            exact (List.mem_erase_of_ne hx).2 hlisted
        · exact .inr ⟨request', List.mem_append_left _ hmem⟩

theorem worker_waiting_live (hlinked : Linked b) (hw : b.workers.find? wrk = some w)
    (hname : w.m_service = some name) {clock now : Int}
    (hlive : now < clock + n_heartbeat_expiry) :
    Attached b w.m_identity name (b.worker_waiting wrk clock now) := by
  let w' := { w with m_expiry := clock + n_heartbeat_expiry }
  have hends : Ends Never (fun b' => Linked b' ∧ ∃ acts, b'.log = b.log ++ acts ∧
      b'.workers.find? wrk = some w' ∧
      (wrk ∈ b'.m_waiting.elems ∧ wrk ∈ (b'.service name).m_waiting ∨
        ∃ request, .request name request (worker_send w' k_mdpw_request "" request.2) ∈ acts))
      (b.worker_waiting wrk clock now) := by
    rw [worker_waiting_eq hw hname]
    have henlisted := Enlisted.new b wrk w name clock
    refine (henlisted.purge (hlinked.enlist hw hname clock) hlive).bind fun b₁ hb₁ => ?_
    obtain ⟨hlinked₁, henlisted₁, hlog₁⟩ := hb₁
    refine (dispatchLoop_ends name _ hlinked₁ rfl).imp fun b' hb' => ?_
    obtain ⟨acts, hlog, hkept⟩ := henlisted₁.assigns hb'.1
    rw [hlog₁] at hlog
    exact ⟨Run.invariant Linked hlinked₁ (fun _ _ h => h.assigned) hb'.1, acts, hlog, hkept⟩
  cases hrun : b.worker_waiting wrk clock now with
  | error f => exact (hends.of_error hrun).elim
  | ok b' =>
    obtain ⟨hlinked', acts, hlog, hfind, hkept⟩ := hends.of_ok hrun
    have hregistered : b'.m_workers.find? w'.m_identity = some wrk := hlinked'.identity hfind
    exact ⟨b', wrk, w', acts, rfl, hregistered, hfind, hname, hlog, hkept⟩

theorem worker_waiting_over (hlinked : Linked b) (hw : b.workers.find? wrk = some w)
    (hname : w.m_service = some name) {clock now : Int}
    (hover : clock + n_heartbeat_expiry ≤ now) {name' : String} :
    ¬ Attached b w.m_identity name' (b.worker_waiting wrk clock now) := by
  have hgone : Ends (fun _ => True) (fun b' => b'.m_workers.find? w.m_identity = none)
      (b.worker_waiting wrk clock now) := by
    rw [worker_waiting_eq hw hname]
    have henlisted := Enlisted.new b wrk w name clock
    have hlinked' := hlinked.enlist hw hname clock
    have hends := (purge_workers_ends (fun _ => False) hlinked' now).and
      (purge_workers_gone hlinked' henlisted.find henlisted.waiting hover)
    refine Ends.bind (hends.mono (fun _ _ => trivial) fun _ h => h) fun b₁ hb₁ => ?_
    obtain ⟨hquiets, hnone⟩ := hb₁
    refine (dispatchLoop_ends name _ (hlinked'.quiets hquiets) rfl).mono (fun _ _ => trivial)
      fun b' hb' => ?_
    exact Run.invariant (fun b => b.m_workers.find? w.m_identity = none) hnone
      (fun _ _ h hassign => by cases hassign; exact h) hb'.1
  rintro ⟨b', wrk', w', acts, hrun, hregistered, -⟩
  rw [hgone.of_ok hrun] at hregistered
  cases hregistered

section Ready

variable {service_name : String} (rest : ZMsg) (clock now : Int)

/-- A first READY: the worker is registered before its name is looked at. -/
theorem worker_process_ready (hnone : b.m_workers.find? identity = none) (hne : identity ≠ "")
    (msg : ZMsg) : b.worker_process identity (k_mdpw_ready :: msg) clock now =
      (b.register identity).processReady identity false b.next msg clock now := by
  have hready : cStr k_mdpw_ready = k_mdpw_ready := by decide
  rw [worker_process_eq (worker_require_unknown hne hnone), hready, if_pos rfl, hnone]
  rfl

theorem worker_process_refused (hnone : b.m_workers.find? identity = none)
    (hreserved : reserved identity = true) (msg : ZMsg) :
    Refused b identity (b.worker_process identity (k_mdpw_ready :: msg) clock now) := by
  let w : BrokerWorker := ⟨identity, none, 0⟩
  let b₁ := (b.register identity).send (.toWorker (worker_send w k_mdpw_disconnect "" []))
  have hw : (b.register identity).workers.find? b.next = some w := SortedMap.find?_set_self _ _ _
  refine ⟨b₁.erase b.next w, w, ?_, ?_, rfl, erase_log b₁ b.next w⟩
  · rw [worker_process_ready clock now hnone (ne_empty_of_reserved hreserved)]
    unfold processReady worker_delete
    rw [if_neg Bool.false_ne_true, if_pos hreserved, deref_eq hw]
    rfl
  · rw [erase_m_workers, SortedMap.find?_erase]
    exact if_pos rfl

/-- A first READY with a name that is not reserved: the worker waits for work of its service, in a
state in which that service is there. -/
theorem worker_process_waits (hlinked : Linked b) (hcStr : cStr identity = identity)
    (hnone : b.m_workers.find? identity = none) (hne : identity ≠ "")
    (hreserved : reserved identity = false) (hservice : cStr service_name ≠ "") :
    ∃ b₁ w, Linked b₁ ∧ b₁.log = b.log ∧ b₁.workers.find? b.next = some w ∧
      w.m_identity = identity ∧ w.m_service = some (cStr service_name) ∧
      b.worker_process identity (k_mdpw_ready :: service_name :: rest) clock now =
        b₁.worker_waiting b.next clock now := by
  let w : BrokerWorker := ⟨identity, none, 0⟩
  let w' : BrokerWorker := ⟨identity, some (cStr service_name), 0⟩
  have hregister := hlinked.register hne hcStr hnone
  have hw : (b.register identity).workers.find? b.next = some w := SortedMap.find?_set_self _ _ _
  obtain ⟨b₁, hrequire, hlog, -, -⟩ := (b.register identity).service_require_eq hservice
  obtain ⟨hquiets, hfound, hworkers, -⟩ :=
    (service_require_ends (fun _ => False) (b.register identity) _).of_ok hrequire
  have hw₁ : b₁.workers.find? b.next = some w := hworkers ▸ hw
  have hlinked₁ := hregister.quiets hquiets
  refine ⟨b₁.setWorker b.next w', w', ?_, hlog, SortedMap.find?_set_self _ _ _, rfl, rfl, ?_⟩
  · refine hlinked₁.setWorker hw₁ w' rfl (fun name hname => nomatch hname) fun name hname => ?_
    cases hname
    exact hfound
  · rw [worker_process_ready clock now hnone hne]
    unfold processReady
    rw [if_neg Bool.false_ne_true, hreserved, if_neg Bool.false_ne_true]
    dsimp only [bind, Except.bind]
    rw [hrequire]
    dsimp only
    rw [deref_eq hw₁]

/-- A first READY without an identity or without a service stops the broker. -/
theorem worker_process_unnamed (hnone : b.m_workers.find? identity = none)
    (hreserved : reserved identity = false) (h : identity = "" ∨ cStr service_name = "") :
    b.worker_process identity (k_mdpw_ready :: service_name :: rest) clock now =
      .error .assertion := by
  by_cases hne : identity = ""
  · subst hne
    rfl
  · rw [worker_process_ready clock now hnone hne]
    unfold processReady service_require
    dsimp only
    rw [if_neg Bool.false_ne_true, hreserved, if_neg Bool.false_ne_true, h.resolve_left hne]
    rfl

end Ready

/-! ## Both -/

/-- Exactly the requests for names with `mmi.` are discarded; the others are queued. -/
def RequestSorted (b : BrokerState) (sender service_name body : String) (rest : ZMsg) (now : Int) :
    Prop :=
  let r := b.client_process sender (service_name :: body :: rest) now
  (Discarded b r ↔ MmiName (cStr service_name)) ∧
    (¬ MmiName (cStr service_name) →
      Queued b (cStr service_name) (ZMsg.wrap (body :: rest) sender "") r)

/-- Exactly the new workers with `mmi.` are refused; the others are attached to their service. -/
def ReadySorted (b : BrokerState) (identity service_name : String) (rest : ZMsg)
    (clock now : Int) : Prop :=
  let r := b.worker_process identity (k_mdpw_ready :: service_name :: rest) clock now
  (Refused b identity r ↔ MmiName identity) ∧
    (¬ MmiName identity → Attached b identity (cStr service_name) r)

theorem requestSorted_iff (hlinked : Linked b) (sender : String) {service_name : String}
    (body : String) (rest : ZMsg) (now : Int) (hheartbeat : cStr service_name ≠ "HEARTBEAT") :
    RequestSorted b sender service_name body rest now ↔ MmiName (cStr service_name) ∨
      cStr service_name ≠ "" ∧ reserved (cStr service_name) = false := by
  constructor
  · rintro ⟨hdiscarded, hqueued⟩
    refine or_iff_not_imp_left.2 fun hmmi => ⟨fun hempty => ?_, ?_⟩
    · obtain ⟨b', acts, hrun, -⟩ := hqueued hmmi
      rw [client_process_unnamed sender body rest now b hempty] at hrun
      cases hrun
    · refine Bool.eq_false_iff.2 fun hreserved => hmmi (hdiscarded.1 ?_)
      exact client_process_reserved sender body rest now b hheartbeat hreserved
  · rintro (hmmi | ⟨hne, hreserved⟩)
    · have hdiscarded := client_process_reserved sender body rest now b hheartbeat
        (reserved_of_mmi hmmi)
      exact ⟨iff_of_true hdiscarded hmmi, fun hnot => absurd hmmi hnot⟩
    · have hqueued := client_process_queued sender body rest now hlinked hheartbeat hne hreserved
      have hmmi : ¬ MmiName (cStr service_name) := not_mmi_of_not_reserved hreserved
      exact ⟨iff_of_false hqueued.not_discarded hmmi, fun _ => hqueued⟩

theorem readySorted_iff (hlinked : Linked b) (hcStr : cStr identity = identity)
    (service_name : String) (rest : ZMsg) (clock now : Int)
    (hnone : b.m_workers.find? identity = none) :
    ReadySorted b identity service_name rest clock now ↔ MmiName identity ∨
      identity ≠ "" ∧ reserved identity = false ∧ cStr service_name ≠ "" ∧
        now < clock + n_heartbeat_expiry := by
  constructor
  · rintro ⟨hrefused, hattached⟩
    refine or_iff_not_imp_left.2 fun hmmi => ?_
    have hreserved : reserved identity = false := Bool.eq_false_iff.2 fun hreserved =>
      hmmi (hrefused.1 (worker_process_refused clock now hnone hreserved _))
    have hattached := hattached hmmi
    have hnamed : ¬ (identity = "" ∨ cStr service_name = "") := fun hunnamed => by
      obtain ⟨b', wrk, w, acts, hrun, -⟩ := hattached
      rw [worker_process_unnamed rest clock now hnone hreserved hunnamed] at hrun
      cases hrun
    obtain ⟨hne, hservice⟩ := not_or.1 hnamed
    refine ⟨hne, hreserved, hservice, lt_of_not_ge fun hover => ?_⟩
    obtain ⟨b₁, w, hlinked₁, hlog, hw, rfl, hname, hrun⟩ :=
      worker_process_waits rest clock now hlinked hcStr hnone hne hreserved hservice
    rw [hrun] at hattached
    exact worker_waiting_over hlinked₁ hw hname hover (hattached.of_log hlog.symm)
  · rintro (hmmi | ⟨hne, hreserved, hservice, hlive⟩)
    · have hrefused := worker_process_refused clock now hnone (reserved_of_mmi hmmi)
        (service_name :: rest)
      exact ⟨iff_of_true hrefused hmmi, fun hnot => absurd hmmi hnot⟩
    · obtain ⟨b₁, w, hlinked₁, hlog, hw, rfl, hname, hrun⟩ :=
        worker_process_waits rest clock now hlinked hcStr hnone hne hreserved hservice
      have hattached := (worker_waiting_live hlinked₁ hw hname hlive).of_log hlog
      rw [← hrun] at hattached
      have hmmi : ¬ MmiName w.m_identity := not_mmi_of_not_reserved hreserved
      exact ⟨iff_of_false hattached.not_refused hmmi, fun _ => hattached⟩

/-- **Which names the broker sorts as it should**, in every state that it comes to. A request:
exactly if its service's name begins with `mmi.`, or is not empty and not taken for reserved. A
first READY: exactly if the identity begins with `mmi.`, or neither it nor the service is empty, it
is not taken for reserved, and its time is not over when the broker looks. -/
theorem reserved_names_iff {events : List Event} (hrun : run events = .ok b) :
    (∀ (sender service_name body : String) (rest : ZMsg) (now : Int),
      cStr service_name ≠ "HEARTBEAT" →
        (RequestSorted b sender service_name body rest now ↔ MmiName (cStr service_name) ∨
          cStr service_name ≠ "" ∧ reserved (cStr service_name) = false)) ∧
    ∀ (sender service_name : String) (rest : ZMsg) (clock now : Int),
      b.m_workers.find? (cStr sender) = none →
        (ReadySorted b (cStr sender) service_name rest clock now ↔ MmiName (cStr sender) ∨
          cStr sender ≠ "" ∧ reserved (cStr sender) = false ∧ cStr service_name ≠ "" ∧
            now < clock + n_heartbeat_expiry) := by
  have hlinked := run_linked hrun
  refine ⟨fun sender service_name body rest now hheartbeat => ?_,
    fun sender service_name rest clock now hnone => ?_⟩
  · exact requestSorted_iff hlinked sender body rest now hheartbeat
  · exact readySorted_iff hlinked (ZMsg.cStr_cStr sender) service_name rest clock now hnone

/-- A new broker takes a request for the service `echo`, and attaches a worker of it. -/
theorem reserved_names_iff_new :
    RequestSorted new "client1" "echo" "GET_LIST" ["msla-user1"] 0 ∧
      ReadySorted new (cStr "worker1") "echo" [] 0 0 := by
  have hrun : run [] = .ok new := rfl
  obtain ⟨hrequest, hready⟩ := reserved_names_iff hrun
  exact ⟨(hrequest _ _ _ _ _ (by decide)).2 (.inr (by decide)),
    (hready _ _ _ _ _ rfl).2 (.inr (by decide))⟩

/-- A request for a service whose name begins like `mmi.` is discarded. -/
theorem items_discarded :
    ¬ ∀ (events : List Event) (b : BrokerState), run events = .ok b →
      (∀ (sender service_name body : String) (rest : ZMsg) (now : Int),
        cStr service_name ≠ "HEARTBEAT" → RequestSorted b sender service_name body rest now) ∧
      ∀ (sender service_name : String) (rest : ZMsg) (clock now : Int),
        b.m_workers.find? (cStr sender) = none →
          ReadySorted b (cStr sender) service_name rest clock now := by
  intro h
  have hsorted := (h [] new rfl).1 "client1" "items" "GET_LIST" ["msla-user1"] 0 (by decide)
  have hdiscarded : Discarded new
      (new.client_process "client1" ["items", "GET_LIST", "msla-user1"] 0) :=
    client_process_reserved "client1" "GET_LIST" ["msla-user1"] 0 new (by decide) (by decide)
  exact absurd (hsorted.1.1 hdiscarded) (by decide)

end BrokerState

end ShoppingApp
