import ShoppingApp.Verify.BrokerState

/-!
# What the broker's functions do

In a state whose tables fit together (`Linked`) the functions of the broker never touch a worker
that has been deleted, and each is a sequence of the changes of `Quiet`, `Arrive` and `Assign`. An
event registers the sender of a worker's message if need be and then is `Handled`
(`step_ends`).
-/

namespace ShoppingApp

namespace BrokerState

variable {b b' : BrokerState} {wrk : ℕ} {w : BrokerWorker} {name : String} {again : Prop}
  {who : ℕ → Prop}

/-- The crashes that are about the form of a message. -/
def Mild (f : BrokerFault) : Prop := f = .assertion ∨ f = .nullFrame

/-- No crash. -/
def Never (_ : BrokerFault) : Prop := False

theorem Never.mild {f : BrokerFault} (h : Never f) : Mild f := h.elim

theorem Mild.ne_dangling {f : BrokerFault} (h : Mild f) : f ≠ .dangling := by
  rcases h with rfl | rfl <;> decide

theorem deref_eq (h : b.workers.find? wrk = some w) : b.deref wrk = .ok w := by
  unfold deref
  rw [h]

/-! ## Workers without service -/

/-- A worker that no service owns. -/
def Unserved (b : BrokerState) (wrk : ℕ) : Prop :=
  ∃ w, b.workers.find? wrk = some w ∧ w.m_service = none

/-- Every worker has a service. -/
def Served (b : BrokerState) : Prop := ∀ wrk, ¬ b.Unserved wrk

theorem unserved_of_erase {x : ℕ} (h : (b.erase wrk w).Unserved x) : b.Unserved x := by
  obtain ⟨v, hv, hnone⟩ := h
  rw [erase_workers, SortedMap.find?_erase] at hv
  split_ifs at hv
  exact ⟨v, hv, hnone⟩

theorem unserved_of_setWorker (h : b.workers.find? wrk = some w) (w' : BrokerWorker)
    (hservice : w'.m_service = none → w.m_service = none) {x : ℕ}
    (hx : (b.setWorker wrk w').Unserved x) : b.Unserved x := by
  obtain ⟨v, hv, hnone⟩ := hx
  rw [setWorker, SortedMap.find?_set] at hv
  split_ifs at hv with heq
  · cases hv
    exact ⟨w, heq ▸ h, hservice hnone⟩
  · exact ⟨v, hv, hnone⟩

theorem Quiet.unserved (h : Quiet who b b') {x : ℕ} (hx : b'.Unserved x) : b.Unserved x := by
  cases h with
  | erase wrk w hw => exact unserved_of_erase hx
  | attach wrk w name hw hwho hnone => exact unserved_of_setWorker hw _ (fun _ => hnone) hx
  | touch wrk w expiry hw =>
    exact unserved_of_setWorker hw { w with m_expiry := expiry } (fun hnone => hnone) hx
  | addService => exact hx
  | unlist => exact hx
  | toWorker => exact hx
  | toClient => exact hx
  | toClientHeartbeat => exact hx
  | client => exact hx

theorem Arrive.unserved (h : Arrive again who name b b') {x : ℕ} (hx : b'.Unserved x) :
    b.Unserved x := by
  cases h with
  | enlist wrk w clock hw =>
    let w' := { w with m_expiry := clock + n_heartbeat_expiry }
    exact unserved_of_setWorker hw w' (fun hnone => hnone) hx
  | push msg => exact hx

/-- Handling an event takes no worker's service away. -/
theorem Handled.unserved (h : Handled again who b b') {x : ℕ} (hx : b'.Unserved x) :
    b.Unserved x := by
  refine h.keeps (fun b₁ => b₁.Unserved x → b.Unserved x)
    (fun _ _ hb₁ hquiet hx => hb₁ (hquiet.unserved hx))
    (fun _ _ _ hb₁ harrive hx => hb₁ (harrive.unserved hx)) ?_ (fun hx => hx) hx
  intro _ _ _ hb₁ hassign hx
  cases hassign with
  | assign => exact hb₁ hx

/-! ## Deleting and purging -/

theorem worker_delete_ends (who : ℕ → Prop) (h : b.workers.find? wrk = some w)
    (hwho : who wrk ∨ wrk ∈ b.m_waiting.elems) (disconnect : Bool) :
    Ends Never (fun b' => Quiets who b b' ∧ b'.workers = b.workers.erase wrk ∧
      b'.m_waiting = b.m_waiting.erase wrk) (b.worker_delete wrk disconnect) := by
  unfold worker_delete
  rw [deref_eq h]
  cases disconnect with
  | false => exact ⟨.single (.erase b wrk w h hwho), erase_workers b wrk w, erase_m_waiting b wrk w⟩
  | true =>
    exact ⟨(Relation.ReflTransGen.single (.toWorker b _)).tail (.erase _ wrk w h hwho),
      erase_workers (b.send _) wrk w, erase_m_waiting (b.send _) wrk w⟩

/-- A worker whose time is over. -/
def expired (b : BrokerState) (now : Int) (wrk : ℕ) : Bool :=
  (b.workers.find? wrk).any fun w => decide (w.m_expiry ≤ now)

theorem toCull_eq (now : Int) {wrks : List ℕ}
    (h : ∀ wrk ∈ wrks, ∃ w, b.workers.find? wrk = some w) :
    b.toCull now wrks = .ok (wrks.filter (b.expired now)) := by
  induction wrks with
  | nil => rfl
  | cons wrk wrks ih =>
    obtain ⟨w, hw⟩ := h wrk List.mem_cons_self
    have hexpired : b.expired now wrk = decide (w.m_expiry ≤ now) := by
      rw [expired, hw]
      rfl
    rw [toCull, deref_eq hw, ih fun x hx => h x (List.mem_cons_of_mem _ hx), List.filter_cons,
      hexpired]
    by_cases hle : w.m_expiry ≤ now
    · rw [if_pos (decide_eq_true hle)]
      exact congrArg Except.ok (if_pos hle)
    · rw [if_neg (by simpa using hle)]
      exact congrArg Except.ok (if_neg hle)

theorem deleteAll_ends : ∀ (wrks : List ℕ) {b : BrokerState}, Linked b → wrks.Nodup →
    (∀ wrk ∈ wrks, wrk ∈ b.m_waiting.elems) →
    Ends Never (Quiets who b) (wrks.foldlM (fun b wrk => b.worker_delete wrk false) b) := by
  intro wrks
  induction wrks with
  | nil => intro b _ _ _; exact Relation.ReflTransGen.refl
  | cons wrk wrks ih =>
    intro b h hnodup hwaiting
    obtain ⟨hwrk, hnodup⟩ := List.nodup_cons.1 hnodup
    have hmem := hwaiting wrk List.mem_cons_self
    obtain ⟨w, hw⟩ := h.waiting hmem
    rw [List.foldlM_cons]
    refine (worker_delete_ends who hw (.inr hmem) false).bind fun b₁ hb₁ => ?_
    obtain ⟨hquiets, -, hm_waiting⟩ := hb₁
    -- The workers still to be deleted are others than the one just deleted.
    have hrest : ∀ x ∈ wrks, x ∈ b₁.m_waiting.elems := by
      intro x hx
      rw [hm_waiting]
      have hne : x ≠ wrk := fun heq => hwrk (heq ▸ hx)
      exact SortedSet.mem_erase.2 ⟨hwaiting x (List.mem_cons_of_mem _ hx), hne⟩
    exact (ih (h.quiets hquiets) hnodup hrest).imp fun b' hb' => hquiets.trans hb'

theorem purge_workers_ends (who : ℕ → Prop) (h : Linked b) (now : Int) :
    Ends Never (Quiets who b) (b.purge_workers now) := by
  unfold purge_workers
  rw [toCull_eq now fun wrk hwrk => h.waiting hwrk]
  have hnodup : b.m_waiting.elems.Nodup := b.m_waiting.sorted.imp ne_of_lt
  exact deleteAll_ends _ h (hnodup.filter _) fun wrk hwrk => List.mem_of_mem_filter hwrk

/-! ## Dispatching -/

theorem service_require_ends (who : ℕ → Prop) (b : BrokerState) (name : String) :
    Ends Mild (fun b' => Quiets who b b' ∧ (b'.m_services.find? name).isSome ∧
      b'.workers = b.workers ∧ b'.m_waiting = b.m_waiting) (b.service_require name) := by
  unfold service_require
  split_ifs with hname
  · exact .inl rfl
  · cases hfind : b.m_services.find? name with
    | some srv => exact ⟨.refl, by rw [hfind]; rfl, rfl, rfl⟩
    | none =>
      refine ⟨.single (.addService b name hfind), ?_, rfl, rfl⟩
      rw [setService, SortedMap.find?_set_self]
      rfl

theorem mostRecent_ends : ∀ (rest : List ℕ) (wrk : ℕ),
    (∀ x ∈ wrk :: rest, ∃ w, b.workers.find? x = some w) →
    Ends Never (fun chosen => chosen ∈ wrk :: rest) (b.mostRecent wrk rest) := by
  intro rest
  induction rest with
  | nil => intro wrk _; exact List.mem_singleton_self wrk
  | cons next rest ih =>
    intro wrk hlive
    obtain ⟨w, hw⟩ := hlive wrk List.mem_cons_self
    obtain ⟨n, hn⟩ := hlive next (List.mem_cons_of_mem _ List.mem_cons_self)
    have hsub : ∀ x ∈ (if n.m_expiry > w.m_expiry then next else wrk) :: rest,
        x ∈ wrk :: next :: rest := by
      intro x hx
      rcases List.mem_cons.1 hx with rfl | hx
      · split_ifs
        · exact List.mem_cons_of_mem _ List.mem_cons_self
        · exact List.mem_cons_self
      · exact List.mem_cons_of_mem _ (List.mem_cons_of_mem _ hx)
    rw [mostRecent, deref_eq hn, deref_eq hw]
    exact (ih _ fun x hx => hlive x (hsub x hx)).imp fun chosen => hsub chosen

/-- With one iteration for each request the loop ends with an empty list. -/
theorem dispatchLoop_ends (name : String) : ∀ (fuel : ℕ) {b : BrokerState}, Linked b →
    (b.service name).m_requests.length = fuel →
    Ends Never (fun b' => Assigns name b b' ∧ Conserving b' name) (dispatchLoop name fuel b) := by
  intro fuel
  induction fuel with
  | zero =>
    intro b _ hfuel
    exact ⟨.refl, .inl (List.length_eq_zero_iff.1 hfuel)⟩
  | succ fuel ih =>
    intro b h hfuel
    cases hrequests : (b.service name).m_requests with
    | nil =>
      rw [hrequests] at hfuel
      cases hfuel
    | cons request requests =>
      cases hwaiting : (b.service name).m_waiting with
      | nil =>
        rw [dispatchLoop, hwaiting]
        exact ⟨.refl, .inr hwaiting⟩
      | cons first rest =>
        have hlive : ∀ x ∈ first :: rest, ∃ w, b.workers.find? x = some w := by
          intro x hx
          obtain ⟨w, hw, -⟩ := h.listed (hwaiting ▸ hx)
          exact ⟨w, hw⟩
        rw [dispatchLoop, hwaiting, hrequests]
        refine (mostRecent_ends rest first hlive).bind fun wrk hwrk => ?_
        obtain ⟨w, hw⟩ := hlive wrk hwrk
        rw [deref_eq hw]
        have hstep : Assign name b (b.assign name wrk w request requests) :=
          .assign b wrk w request requests hw (hwaiting ▸ hwrk) hrequests
        have hlength : ((b.assign name wrk w request requests).service name).m_requests.length =
            fuel := by
          rw [service_assign, if_pos rfl]
          rw [hrequests, List.length_cons] at hfuel
          exact Nat.succ_injective hfuel
        exact (ih (h.assign name wrk w request requests) hlength).imp fun b' hb' =>
          ⟨.head hstep hb'.1, hb'.2⟩

theorem service_dispatch_none_ends (who : ℕ → Prop) (h : Linked b) (name : String) (now : Int) :
    Ends Never (Dispatched who name b) (b.service_dispatch name none now) := by
  unfold service_dispatch
  refine (purge_workers_ends who h now).bind fun b₁ h₁ => ?_
  exact (dispatchLoop_ends name _ (h.quiets h₁) rfl).imp fun b' hb' => ⟨b₁, h₁, hb'⟩

theorem service_dispatch_some_ends (who : ℕ → Prop) (h : Linked b) (name : String) (msg : ZMsg)
    (now : Int) :
    Ends Never (Dispatched who name (b.push name msg))
      (b.service_dispatch name (some msg) now) := by
  have hpush : Linked (b.push name msg) := h.push name msg
  unfold service_dispatch
  refine (purge_workers_ends who hpush now).bind fun b₁ h₁ => ?_
  exact (dispatchLoop_ends name _ (hpush.quiets h₁) rfl).imp fun b' hb' => ⟨b₁, h₁, hb'⟩

/-! ## Messages of workers -/

theorem worker_waiting_eq (hw : b.workers.find? wrk = some w) {name : String}
    (hname : w.m_service = some name) (clock now : Int) :
    b.worker_waiting wrk clock now =
      (b.enlist wrk w name clock).service_dispatch name none now := by
  unfold worker_waiting
  rw [deref_eq hw]
  dsimp only [bind, Except.bind]
  rw [hname]

/-- Only a worker without service cannot be queued. -/
theorem worker_waiting_ends (again : Prop) (h : Linked b) (hw : b.workers.find? wrk = some w)
    (hnew : again ∨ wrk ∉ b.m_waiting.elems) (clock now : Int) :
    Ends (fun f => f = .nullService ∧ w.m_service = none) (Handled again (· = wrk) b)
      (b.worker_waiting wrk clock now) := by
  unfold worker_waiting
  rw [deref_eq hw]
  dsimp only [bind, Except.bind]
  cases hname : w.m_service with
  | none => exact ⟨rfl, rfl⟩
  | some name =>
    refine (service_dispatch_none_ends (· = wrk) (h.enlist hw hname clock) name now).mono
      (fun _ => False.elim) fun b' hb' => ?_
    exact .dispatch name .refl (.enlist b wrk w clock hw rfl hname hnew) hb'

/-- A worker whose message is processed. One that is new has no service and does not wait. -/
structure Session (b : BrokerState) (worker_ready : Bool) (wrk : ℕ) (w : BrokerWorker) : Prop where
  linked : Linked b
  find : b.workers.find? wrk = some w
  new : worker_ready = false → w.m_service = none ∧ wrk ∉ b.m_waiting.elems

/-- An event is handled, and a worker that is new gets a service or is deleted. -/
def Settled (again : Prop) (b : BrokerState) (worker_ready : Bool) (wrk : ℕ) (b' : BrokerState) :
    Prop :=
  Handled again (· = wrk) b b' ∧ (worker_ready = false → ¬ b'.Unserved wrk)

variable {worker_ready : Bool}

namespace Session

theorem worker_delete_ends (h : Session b worker_ready wrk w) (disconnect : Bool) :
    Ends Never (Settled again b worker_ready wrk) (b.worker_delete wrk disconnect) := by
  refine (BrokerState.worker_delete_ends (· = wrk) h.find (.inl rfl) disconnect).imp
    fun b' hb' => ?_
  obtain ⟨hquiets, hworkers, -⟩ := hb'
  refine ⟨.quiet hquiets, fun _ => ?_⟩
  rintro ⟨v, hv, -⟩
  rw [hworkers, SortedMap.find?_erase, if_pos rfl] at hv
  cases hv

theorem processReady_ends (h : Session b worker_ready wrk w) (sender : String) (msg : ZMsg)
    (clock now : Int) :
    Ends Mild (Settled again b worker_ready wrk)
      (b.processReady sender worker_ready wrk msg clock now) := by
  unfold processReady
  split_ifs with hready hreserved
  · exact (h.worker_delete_ends true).mono (fun _ => Never.mild) fun _ hb' => hb'
  · exact (h.worker_delete_ends true).mono (fun _ => Never.mild) fun _ hb' => hb'
  · obtain ⟨hnone, hwaiting⟩ := h.new (Bool.eq_false_iff.2 hready)
    cases msg with
    | nil => exact .inr rfl
    | cons service_name msg =>
      refine (service_require_ends (· = wrk) b (cStr service_name)).bind fun b₁ hb₁ => ?_
      obtain ⟨hquiets, hservice, hworkers, hm_waiting⟩ := hb₁
      have hw : b₁.workers.find? wrk = some w := hworkers ▸ h.find
      rw [deref_eq hw]
      have hattach : Quiet (· = wrk) b₁
          (b₁.setWorker wrk { w with m_service := some (cStr service_name) }) :=
        .attach b₁ wrk w (cStr service_name) hw rfl hnone hservice
      have hfind : (b₁.setWorker wrk { w with m_service := some (cStr service_name) }).workers.find?
          wrk = some { w with m_service := some (cStr service_name) } :=
        SortedMap.find?_set_self _ _ _
      have hnew : wrk ∉ b₁.m_waiting.elems := hm_waiting ▸ hwaiting
      have hlinked := (h.linked.quiets hquiets).quiet hattach
      refine (worker_waiting_ends again hlinked hfind (.inr hnew) clock now).mono
        (fun _ hf => nomatch hf.2) fun b' hb' => ?_
      refine ⟨Handled.after (hquiets.tail hattach) hb', fun _ hunserved => ?_⟩
      obtain ⟨v, hv, hv_none⟩ := hb'.unserved hunserved
      rw [hfind] at hv
      cases hv
      cases hv_none

theorem processReply_ends (h : Session b worker_ready wrk w)
    (hagain : again ∨ wrk ∉ b.m_waiting.elems) (msg : ZMsg) (clock now : Int) :
    Ends (fun f => Mild f ∨ f = .nullService ∧ worker_ready = true ∧ b.Unserved wrk)
      (Settled again b worker_ready wrk) (b.processReply worker_ready wrk msg clock now) := by
  unfold processReply
  split_ifs with hready
  · cases msg.unwrap with
    | none => exact .inl (.inr rfl)
    | some unwrapped =>
      obtain ⟨client, msg⟩ := unwrapped
      dsimp only
      rw [deref_eq h.find]
      dsimp only [bind, Except.bind]
      cases hname : w.m_service with
      | none => exact .inr ⟨rfl, hready, w, h.find, hname⟩
      | some name =>
        let frames := (msg.wrap k_mdp_client name).wrap client ""
        have hsend : Quiet (· = wrk) b (b.send (.toClient frames)) := .toClient b frames
        refine (worker_waiting_ends again (h.linked.quiet hsend) h.find hagain clock
          now).mono (fun _ hf => ?_) fun b' hb' => ?_
        · rw [hname] at hf
          cases hf.2
        · refine ⟨Handled.after (.single hsend) hb', fun hnew => ?_⟩
          rw [hready] at hnew
          cases hnew
  · exact (h.worker_delete_ends true).mono (fun _ hf => .inl hf.mild) fun _ hb' => hb'

theorem processHeartbeat_ends (h : Session b worker_ready wrk w) (clock : Int) :
    Ends Never (Settled again b worker_ready wrk) (b.processHeartbeat worker_ready wrk clock) := by
  unfold processHeartbeat
  split_ifs with hready
  · rw [deref_eq h.find]
    refine ⟨.quiet (.single (.touch b wrk w _ h.find rfl)), fun hnew => ?_⟩
    rw [hready] at hnew
    cases hnew
  · exact h.worker_delete_ends true

end Session

/-- An identity that the broker knows. -/
def Registered (b : BrokerState) (identity : String) : Prop :=
  (b.m_workers.find? identity).isSome

/-- What is said of a worker is not about its service, unless it or its service is missing. -/
theorem processOccupied_ends (who : ℕ → Prop) (h : Linked b) (msg : ZMsg) :
    Ends (fun f => f ≠ .dangling ∧
        ((∀ named ∈ msg.head?, b.Served ∧ b.Registered (cStr named)) → Mild f))
      (fun b' => Quiets who b b' ∧ msg ≠ []) (b.processOccupied msg) := by
  unfold processOccupied
  cases msg with
  | nil => exact ⟨by decide, fun _ => .inr rfl⟩
  | cons named msg =>
    dsimp only [List.head?]
    cases hfind : b.m_workers.find? (cStr named) with
    | none =>
      refine ⟨by decide, fun hnamed => ?_⟩
      have hregistered := (hnamed named rfl).2
      rw [Registered, hfind] at hregistered
      cases hregistered
    | some wrk =>
      obtain ⟨w, hw, -⟩ := h.worker hfind
      dsimp only
      rw [deref_eq hw]
      dsimp only [bind, Except.bind]
      cases hname : w.m_service with
      | none => exact ⟨by decide, fun hnamed => absurd ⟨w, hw, hname⟩ ((hnamed named rfl).1 wrk)⟩
      | some name => exact ⟨.single (.unlist b wrk w name hw hname), List.cons_ne_nil _ _⟩

/-- How the worker of a message is found: it is known, or made. -/
structure Entered (b : BrokerState) (sender : String) (b₀ : BrokerState) (wrk : ℕ)
    (w : BrokerWorker) : Prop where
  required : b₀ = b ∧ b.m_workers.find? sender = some wrk ∨
    b₀ = b.register sender ∧ b.m_workers.find? sender = none
  found : b₀.m_workers.find? sender = some wrk
  session : Session b₀ (b.m_workers.find? sender).isSome wrk w
  unserved : ∀ x, b₀.Unserved x → b.Unserved x ∨ x = wrk ∧ ¬ b.Registered sender

theorem worker_require_known {sender : String} (hsender : sender ≠ "")
    (hfind : b.m_workers.find? sender = some wrk) : b.worker_require sender = .ok (b, wrk) := by
  unfold worker_require
  rw [if_neg hsender, hfind]

theorem worker_require_unknown {sender : String} (hsender : sender ≠ "")
    (hfind : b.m_workers.find? sender = none) :
    b.worker_require sender = .ok (b.register sender, b.next) := by
  unfold worker_require
  rw [if_neg hsender, hfind]

theorem worker_require_entered (h : Linked b) {sender : String} (hsender : sender ≠ "")
    (hcStr : cStr sender = sender) :
    ∃ b₀ wrk w, b.worker_require sender = .ok (b₀, wrk) ∧ Entered b sender b₀ wrk w := by
  cases hfind : b.m_workers.find? sender with
  | some wrk =>
    obtain ⟨w, hw, -⟩ := h.worker hfind
    refine ⟨b, wrk, w, worker_require_known hsender hfind, .inl ⟨rfl, hfind⟩, hfind, ⟨h, hw, fun hnew => ?_⟩,
      fun x hx => .inl hx⟩
    rw [hfind] at hnew
    cases hnew
  | none =>
    let w : BrokerWorker := ⟨sender, none, 0⟩
    have hw : (b.register sender).workers.find? b.next = some w := SortedMap.find?_set_self _ _ _
    refine ⟨b.register sender, b.next, w, worker_require_unknown hsender hfind, .inr ⟨rfl, hfind⟩,
      SortedMap.find?_set_self _ _ _, ⟨h.register hsender hcStr hfind, hw, fun _ => ⟨rfl, fun hwaiting => ?_⟩⟩, ?_⟩
    · -- A worker that waits is older than one that is made.
      obtain ⟨v, hv⟩ := h.waiting hwaiting
      exact (h.fresh hv).false
    · rintro x ⟨v, hv, hnone⟩
      rw [register, SortedMap.find?_set] at hv
      split_ifs at hv with hx
      · exact .inr ⟨hx, by rw [Registered, hfind]; exact Bool.false_ne_true⟩
      · exact .inl ⟨v, hv, hnone⟩

/-- WORKER_OCCUPIED and unknown commands come from workers that are registered, and WORKER_OCCUPIED
is about one. -/
def Expected (b : BrokerState) (sender command : String) (msg : ZMsg) : Prop :=
  sender ≠ "" →
    (command = k_mdpw_worker_occupied →
      ∀ named ∈ msg.head?, b.Registered sender ∧ b.Registered (cStr named)) ∧
    (command ∉ [k_mdpw_ready, k_mdpw_worker_occupied, k_mdpw_reply, k_mdpw_heartbeat,
      k_mdpw_disconnect] → b.Registered sender)

/-- A REPLY of a worker that is waiting. -/
def IdleReply (b : BrokerState) (sender command : String) : Prop :=
  command = k_mdpw_reply ∧
    ∃ wrk, b.m_workers.find? sender = some wrk ∧ wrk ∈ b.m_waiting.elems

namespace Entered

variable {sender : String} {b₀ : BrokerState}

theorem served (h : Entered b sender b₀ wrk w) (hserved : b.Served)
    (hsettled : Settled again b₀ (b.m_workers.find? sender).isSome wrk b') : b'.Served := by
  intro x hx
  rcases h.unserved x (hsettled.1.unserved hx) with hx' | ⟨rfl, hnew⟩
  · exact hserved x hx'
  · exact hsettled.2 (Bool.eq_false_iff.2 hnew) hx

theorem served_of_registered (h : Entered b sender b₀ wrk w) (hserved : b.Served)
    (hregistered : b.Registered sender) : b₀.Served := by
  intro x hx
  rcases h.unserved x hx with hx' | ⟨-, hnew⟩
  · exact hserved x hx'
  · exact hnew hregistered

theorem registered (h : Entered b sender b₀ wrk w) {identity : String}
    (hregistered : b.Registered identity) : b₀.Registered identity := by
  rcases h.required with ⟨rfl, -⟩ | ⟨rfl, -⟩
  · exact hregistered
  · unfold Registered register
    dsimp only
    rw [SortedMap.find?_set]
    split_ifs
    · rfl
    · exact hregistered

end Entered

/-- The sender of a message is registered if it is unknown. -/
inductive Required (b : BrokerState) : BrokerState → Prop
  | known : Required b b
  | register (sender : String) (hsender : sender ≠ "") (hcStr : cStr sender = sender)
      (h : b.m_workers.find? sender = none) :
      Required b (b.register sender)

theorem Required.linked {b₀ : BrokerState} (h : Required b b₀) (hlinked : Linked b) :
    Linked b₀ := by
  cases h with
  | known => exact hlinked
  | register sender hsender hcStr hnone => exact hlinked.register hsender hcStr hnone

/-- What a message with command `command` does. -/
def Processed (again : Prop) (b : BrokerState) (sender command : String) (msg : ZMsg)
    (b' : BrokerState) : Prop :=
  ∃ b₀ wrk, Required b b₀ ∧ b₀.m_workers.find? sender = some wrk ∧
    Handled again (· = wrk) b₀ b' ∧ (b.Served → b.Expected sender command msg → b'.Served)

/-- How a message with command `command` can crash the broker. -/
def Fatal (b : BrokerState) (sender command : String) (msg : ZMsg) (f : BrokerFault) : Prop :=
  f ≠ .dangling ∧ (b.Served → b.Expected sender command msg → Mild f)

/-- Once the sender is found or registered, its command says what happens. -/
theorem worker_process_eq {sender : String} {b₀ : BrokerState}
    (hrequire : b.worker_require sender = .ok (b₀, wrk)) (command : String) (msg : ZMsg)
    (clock now : Int) :
    b.worker_process sender (command :: msg) clock now =
      if cStr command = k_mdpw_ready then
        b₀.processReady sender (b.m_workers.find? sender).isSome wrk msg clock now
      else if cStr command = k_mdpw_worker_occupied then b₀.processOccupied msg
      else if cStr command = k_mdpw_reply then
        b₀.processReply (b.m_workers.find? sender).isSome wrk msg clock now
      else if cStr command = k_mdpw_heartbeat then
        b₀.processHeartbeat (b.m_workers.find? sender).isSome wrk clock
      else if cStr command = k_mdpw_disconnect then b₀.worker_delete wrk false
      else .ok b₀ := by
  unfold worker_process
  dsimp only
  rw [hrequire]
  rfl

theorem worker_process_ends (h : Linked b) {sender : String} (hcStr : cStr sender = sender)
    (command : String) (msg : ZMsg) (clock now : Int)
    (hagain : again ∨ ¬ b.IdleReply sender (cStr command)) :
    Ends (Fatal b sender (cStr command) msg) (Processed again b sender (cStr command) msg)
      (b.worker_process sender (command :: msg) clock now) := by
  by_cases hsender : sender = ""
  · have hrequire : b.worker_require sender = .error .assertion := if_pos hsender
    unfold worker_process
    dsimp only
    rw [hrequire]
    exact ⟨by decide, fun _ _ => .inl rfl⟩
  obtain ⟨b₀, wrk, w, hrequire, hentered⟩ := worker_require_entered h hsender hcStr
  have hrequired : Required b b₀ := by
    rcases hentered.required with ⟨rfl, -⟩ | ⟨rfl, hnone⟩
    · exact .known
    · exact .register sender hsender hcStr hnone
  have hmild : ∀ f, Mild f → Fatal b sender (cStr command) msg f :=
    fun f hf => ⟨hf.ne_dangling, fun _ _ => hf⟩
  have hsettled : ∀ b', Settled again b₀ (b.m_workers.find? sender).isSome wrk b' →
      Processed again b sender (cStr command) msg b' :=
    fun b' hb' => ⟨b₀, wrk, hrequired, hentered.found, hb'.1,
      fun hserved _ => hentered.served hserved hb'⟩
  rw [worker_process_eq hrequire]
  split_ifs with hready hoccupied hreply hheartbeat hdisconnect
  · exact (hentered.session.processReady_ends sender msg clock now).mono hmild hsettled
  · refine (processOccupied_ends (· = wrk) hentered.session.linked msg).mono (fun f hf => ?_)
      fun b' ⟨hquiets, hmsg⟩ => ?_
    · refine ⟨hf.1, fun hserved hexpected => hf.2 fun named hnamed => ?_⟩
      obtain ⟨hregistered, hnamed⟩ := (hexpected hsender).1 hoccupied named hnamed
      exact ⟨hentered.served_of_registered hserved hregistered, hentered.registered hnamed⟩
    · have hhandled : Handled again (· = wrk) b₀ b' := .quiet hquiets
      refine ⟨b₀, wrk, hrequired, hentered.found, hhandled, fun hserved hexpected => ?_⟩
      cases msg with
      | nil => exact absurd rfl hmsg
      | cons named msg =>
        have hregistered := ((hexpected hsender).1 hoccupied named rfl).1
        intro x hx
        exact hentered.served_of_registered hserved hregistered x (hhandled.unserved hx)
  · have hnew : again ∨ wrk ∉ b₀.m_waiting.elems := by
      refine hagain.imp_right fun hidle hwaiting => ?_
      rcases hentered.required with ⟨rfl, hfind⟩ | ⟨rfl, hnone⟩
      · exact hidle ⟨hreply, wrk, hfind, hwaiting⟩
      · exact (hentered.session.new (by rw [hnone]; rfl)).2 hwaiting
    refine (hentered.session.processReply_ends hnew msg clock now).mono (fun f hf => ?_) hsettled
    rcases hf with hf | ⟨rfl, hregistered, hunserved⟩
    · exact hmild f hf
    · refine ⟨by decide, fun hserved _ => ?_⟩
      exact absurd hunserved (hentered.served_of_registered hserved hregistered wrk)
  · exact (hentered.session.processHeartbeat_ends clock).mono (fun _ => False.elim) hsettled
  · exact (hentered.session.worker_delete_ends false).mono (fun _ => False.elim) hsettled
  · refine ⟨b₀, wrk, hrequired, hentered.found, .quiet .refl, fun hserved hexpected => ?_⟩
    have hunknown : cStr command ∉ [k_mdpw_ready, k_mdpw_worker_occupied, k_mdpw_reply,
        k_mdpw_heartbeat, k_mdpw_disconnect] := by
      simp only [List.mem_cons, List.not_mem_nil, or_false, not_or]
      exact ⟨hready, hoccupied, hreply, hheartbeat, hdisconnect⟩
    exact hentered.served_of_registered hserved ((hexpected hsender).2 hunknown)

/-! ## Events -/

/-- The message of a worker: its sender, command, and the rest. -/
def Event.message : Event → Option (String × String × ZMsg)
  | .worker (sender :: _ :: header :: command :: msg) _ _ =>
    if cStr header = k_mdpw_worker then some (cStr sender, cStr command, msg) else none
  | _ => none

theorem client_process_ends (h : Linked b) (sender : String) (msg : ZMsg) (now : Int) :
    Ends Mild (Handled again who b) (b.client_process sender msg now) := by
  unfold client_process
  split
  · rename_i service_name body rest
    by_cases hheartbeat : cStr service_name = "HEARTBEAT"
    · dsimp only
      rw [if_pos hheartbeat]
      exact .quiet (.single (.client b sender))
    · dsimp only
      rw [if_neg hheartbeat]
      refine (service_require_ends who b (cStr service_name)).bind fun b₁ hb₁ => ?_
      split_ifs with hreserved
      · exact .quiet hb₁.1
      · refine (service_dispatch_some_ends who (h.quiets hb₁.1) (cStr service_name) _ now).mono
          (fun _ => Never.mild) fun b' hb' => ?_
        exact .dispatch _ hb₁.1 (.push b₁ _) hb'
  · exact .inl rfl

theorem sendHeartbeats_ends {wrks : List ℕ} (h : ∀ wrk ∈ wrks, ∃ w, b.workers.find? wrk = some w) :
    Ends Never (Quiets who b) (b.sendHeartbeats wrks) := by
  have hsent : Ends Never (fun b₁ => Quiets who b b₁ ∧ b₁.workers = b.workers)
      (b.sendHeartbeats wrks) := by
    unfold sendHeartbeats
    refine Ends.foldlM wrks (fun wrk hwrk b₁ ⟨hquiets, hworkers⟩ => ?_) ⟨.refl, rfl⟩
    obtain ⟨w, hw⟩ := h wrk hwrk
    rw [deref_eq (hworkers ▸ hw)]
    exact ⟨hquiets.tail (.toWorker b₁ _), hworkers⟩
  exact hsent.imp fun b' hb' => hb'.1

theorem clientHeartbeats_quiets (b : BrokerState) (client_senders : List String) :
    Quiets who b (client_senders.foldl
      (fun b client_sender => b.send (.toClientHeartbeat (clientHeartbeat client_sender))) b) := by
  induction client_senders generalizing b with
  | nil => exact .refl
  | cons client_sender client_senders ih =>
    exact .head (.toClientHeartbeat b (clientHeartbeat client_sender)) (ih _)

/-- The event is not a message of a worker that breaks `Expected`. -/
def Expects (b : BrokerState) (event : Event) : Prop :=
  ∀ sender command msg, event.message = some (sender, command, msg) → b.Expected sender command msg

/-- The event is not a REPLY of a worker that is waiting. -/
def RepliesBusy (b : BrokerState) (event : Event) : Prop :=
  ∀ sender command msg, event.message = some (sender, command, msg) → ¬ b.IdleReply sender command

/-- The worker that sends the event. -/
def Sends (b : BrokerState) (event : Event) (wrk : ℕ) : Prop :=
  ∃ sender command msg, event.message = some (sender, command, msg) ∧
    b.m_workers.find? sender = some wrk

/-- What an event does: its sender is looked up, and then it acts on no other worker. -/
def Stepped (again : Prop) (b : BrokerState) (event : Event) (b' : BrokerState) : Prop :=
  ∃ b₀ who, Required b b₀ ∧ (∀ wrk, who wrk → b₀.Sends event wrk) ∧ Handled again who b₀ b'

theorem step_ends (again : Prop) (h : Linked b) (event : Event)
    (hagain : again ∨ b.RepliesBusy event) :
    Ends (fun f => f ≠ .dangling ∧ (b.Served → b.Expects event → Mild f))
      (fun b' => Stepped again b event b' ∧ (b.Served → b.Expects event → b'.Served))
      (b.step event) := by
  have hmild : ∀ f, Mild f → f ≠ .dangling ∧ (b.Served → b.Expects event → Mild f) :=
    fun f hf => ⟨hf.ne_dangling, fun _ _ => hf⟩
  have hhandled : ∀ b', Handled again (fun _ => False) b b' →
      Stepped again b event b' ∧ (b.Served → b.Expects event → b'.Served) :=
    fun b' hb' => ⟨⟨b, _, .known, fun _ => False.elim, hb'⟩,
      fun hserved _ x hx => hserved x (hb'.unserved hx)⟩
  unfold step
  split
  · rename_i frames now
    split
    · split_ifs with hheader
      · exact (client_process_ends h _ _ now).mono hmild hhandled
      · exact hhandled b (.quiet .refl)
    · exact hmild _ (.inr rfl)
  · rename_i frames clock now
    split
    · rename_i sender empty header msg
      split_ifs with hheader
      · cases msg with
        | nil => exact hmild _ (.inl rfl)
        | cons command msg =>
          have hmessage : (Event.worker (sender :: empty :: header :: command :: msg) clock
              now).message = some (cStr sender, cStr command, msg) := if_pos hheader
          refine (worker_process_ends h (ZMsg.cStr_cStr sender) command msg clock now
            (hagain.imp_right fun hbusy => hbusy _ _ _ hmessage)).mono (fun f hf => ?_) ?_
          · exact ⟨hf.1, fun hserved hexpects => hf.2 hserved (hexpects _ _ _ hmessage)⟩
          · rintro b' ⟨b₀, wrk, hrequired, hfound, hb', hserved'⟩
            refine ⟨⟨b₀, _, hrequired, ?_, hb'⟩, fun hserved hexpects =>
              hserved' hserved (hexpects _ _ _ hmessage)⟩
            rintro x rfl
            exact ⟨_, _, _, hmessage, hfound⟩
      · exact hhandled b (.quiet .refl)
    · exact hmild _ (.inr rfl)
  · rename_i now
    have hpurged : Ends Never (Quiets (fun _ => False) b)
        (b.purge_workers now >>= fun b => b.sendHeartbeats b.m_waiting.elems) :=
      (purge_workers_ends _ h now).bind fun b₁ hquiets =>
        (sendHeartbeats_ends fun wrk hwrk => (h.quiets hquiets).waiting hwrk).imp
          fun b' hb' => hquiets.trans hb'
    exact hpurged.mono (fun _ => False.elim) fun b' hb' => hhandled b' (.quiet hb')
  · split_ifs with hnone
    · exact hhandled b (.quiet .refl)
    · exact hhandled _ (.quiet (b.clientHeartbeats_quiets _))

theorem Stepped.linked {event : Event} (h : Stepped again b event b') (hlinked : Linked b) :
    Linked b' := by
  obtain ⟨b₀, who, hrequired, -, hhandled⟩ := h
  exact (hrequired.linked hlinked).handled hhandled

theorem step_stepped (h : Linked b) {event : Event} (hstep : b.step event = .ok b') :
    Stepped True b event b' := ((step_ends True h event (.inl trivial)).of_ok hstep).1

theorem step_linked (h : Linked b) {event : Event} (hstep : b.step event = .ok b') : Linked b' :=
  (step_stepped h hstep).linked h

/-- What every event keeps, a run keeps. -/
theorem run_keeps (P : BrokerState → Prop) {events : List Event}
    (hstep : ∀ event ∈ events, ∀ b₁ b₂, Linked b₁ → P b₁ → b₁.step event = .ok b₂ → P b₂)
    (hlinked : Linked b) (hb : P b) (h : events.foldlM step b = .ok b') : Linked b' ∧ P b' := by
  have hends : Ends (fun _ => True) (fun b₁ => Linked b₁ ∧ P b₁) (events.foldlM step b) := by
    refine Ends.foldlM events (fun event hevent b₁ ⟨hlinked₁, hb₁⟩ => ?_) ⟨hlinked, hb⟩
    cases hrun : b₁.step event with
    | error f => trivial
    | ok b₂ => exact ⟨step_linked hlinked₁ hrun, hstep event hevent b₁ b₂ hlinked₁ hb₁ hrun⟩
  exact hends.of_ok h

/-- The broker's tables fit together in every state that it comes to. -/
theorem run_linked {events : List Event} (h : run events = .ok b) : Linked b :=
  (run_keeps (fun _ => True) (fun _ _ _ _ _ _ _ => trivial) Linked.new trivial h).1

end BrokerState

end ShoppingApp
