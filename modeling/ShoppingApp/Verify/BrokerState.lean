import ShoppingApp.Broker.BrokerState
import ShoppingApp.Lib.Replication

/-!
# What the broker's functions do

Every change of the broker's state is one of a few: quiet ones, which queue nothing (`Quiet`), the
arrival of a worker or a request at a service (`Arrive`), and the assignment of a request to a
worker (`Assign`). An event is a sequence of these (`Handled`), and one that lets something arrive
dispatches until the service has no request or no worker left.
-/

namespace ShoppingApp

open Replication (Run)

namespace BrokerState

variable {b b' : BrokerState} {wrk : ℕ} {w : BrokerWorker} {name : String}

/-! ## Lookups after an update -/

@[simp] theorem service_setService (b : BrokerState) (name name' : String) (srv : BrokerService) :
    (b.setService name srv).service name' = if name' = name then srv else b.service name' := by
  unfold service setService
  dsimp only
  rw [SortedMap.find?_set]
  split_ifs <;> rfl

theorem service_addService (h : b.m_services.find? name = none) (name' : String) :
    (b.setService name ⟨[], []⟩).service name' = b.service name' := by
  rw [service_setService]
  split_ifs with hname
  · rw [hname, service, h]
    rfl
  · rfl

theorem service_unlist (b : BrokerState) (wrk : ℕ) (name name' : String) :
    (b.unlist wrk name).service name' =
      if name' = name then ⟨(b.service name).m_requests,
        (b.service name).m_waiting.filter (· ≠ wrk)⟩
      else b.service name' :=
  service_setService _ _ _ _

theorem unlist_waiting_sublist (b : BrokerState) (wrk : ℕ) (name name' : String) :
    ((b.unlist wrk name).service name').m_waiting.Sublist (b.service name').m_waiting := by
  rw [service_unlist]
  split_ifs with heq
  · rw [heq]
    exact List.filter_sublist
  · exact List.Sublist.refl _

theorem service_assign (b : BrokerState) (name : String) (wrk : ℕ) (w : BrokerWorker)
    (request : ℕ × ZMsg) (requests : List (ℕ × ZMsg)) (name' : String) :
    (b.assign name wrk w request requests).service name' =
      if name' = name then ⟨requests, (b.service name).m_waiting.erase wrk⟩
      else b.service name' :=
  service_setService _ _ _ _

theorem service_push (b : BrokerState) (name : String) (msg : ZMsg) (name' : String) :
    (b.push name msg).service name' =
      if name' = name then ⟨(b.service name).m_requests ++ [(b.next, msg)],
        (b.service name).m_waiting⟩
      else b.service name' :=
  service_setService _ _ _ _

theorem service_enlist (b : BrokerState) (wrk : ℕ) (w : BrokerWorker) (name : String)
    (clock : Int) (name' : String) :
    (b.enlist wrk w name clock).service name' =
      if name' = name then ⟨(b.service name).m_requests, (b.service name).m_waiting ++ [wrk]⟩
      else b.service name' :=
  service_setService _ _ _ _

/-- The service of a deleted worker loses it, and only that service does. -/
theorem service_erase (b : BrokerState) (wrk : ℕ) (w : BrokerWorker) (name : String) :
    (b.erase wrk w).service name =
      if w.m_service = some name then ⟨(b.service name).m_requests,
        (b.service name).m_waiting.filter (· ≠ wrk)⟩
      else b.service name := by
  unfold erase
  cases hservice : w.m_service with
  | none => rfl
  | some name' =>
    refine (service_unlist b wrk name' name).trans ?_
    by_cases hname : name = name'
    · rw [if_pos hname, if_pos (congrArg some hname.symm), hname]
    · rw [if_neg hname, if_neg fun heq => hname (Option.some_injective _ heq).symm]

theorem erase_waiting_sublist (b : BrokerState) (wrk : ℕ) (w : BrokerWorker) (name : String) :
    ((b.erase wrk w).service name).m_waiting.Sublist (b.service name).m_waiting := by
  rw [service_erase]
  split_ifs
  · exact List.filter_sublist
  · exact List.Sublist.refl _

theorem erase_workers (b : BrokerState) (wrk : ℕ) (w : BrokerWorker) :
    (b.erase wrk w).workers = b.workers.erase wrk := by
  unfold erase
  cases w.m_service <;> rfl

theorem erase_m_workers (b : BrokerState) (wrk : ℕ) (w : BrokerWorker) :
    (b.erase wrk w).m_workers = b.m_workers.erase w.m_identity := by
  unfold erase
  cases w.m_service <;> rfl

theorem erase_m_waiting (b : BrokerState) (wrk : ℕ) (w : BrokerWorker) :
    (b.erase wrk w).m_waiting = b.m_waiting.erase wrk := by
  unfold erase
  cases w.m_service <;> rfl

theorem erase_next (b : BrokerState) (wrk : ℕ) (w : BrokerWorker) :
    (b.erase wrk w).next = b.next := by
  unfold erase
  cases w.m_service <;> rfl

theorem erase_log (b : BrokerState) (wrk : ℕ) (w : BrokerWorker) :
    (b.erase wrk w).log = b.log := by
  unfold erase
  cases w.m_service <;> rfl

theorem isSome_setService (b : BrokerState) (name : String) (srv : BrokerService)
    {name' : String} (h : (b.m_services.find? name').isSome) :
    ((b.setService name srv).m_services.find? name').isSome := by
  unfold setService
  dsimp only
  rw [SortedMap.find?_set]
  split_ifs
  · rfl
  · exact h

theorem isSome_erase (b : BrokerState) (wrk : ℕ) (w : BrokerWorker)
    (h : (b.m_services.find? name).isSome) : ((b.erase wrk w).m_services.find? name).isSome := by
  unfold erase
  cases w.m_service with
  | none => exact h
  | some name' => exact isSome_setService b name' _ h

/-! ## Changes of the state -/

/-- Changes that queue nothing. A worker that changes is one of `who`, and one that is deleted is
one of them or waits. -/
inductive Quiet (who : ℕ → Prop) : BrokerState → BrokerState → Prop
  | addService (b : BrokerState) (name : String) (h : b.m_services.find? name = none) :
      Quiet who b (b.setService name ⟨[], []⟩)
  | erase (b : BrokerState) (wrk : ℕ) (w : BrokerWorker) (h : b.workers.find? wrk = some w)
      (hwho : who wrk ∨ wrk ∈ b.m_waiting.elems) : Quiet who b (b.erase wrk w)
  | attach (b : BrokerState) (wrk : ℕ) (w : BrokerWorker) (name : String)
      (h : b.workers.find? wrk = some w) (hwho : who wrk) (hnone : w.m_service = none)
      (hname : (b.m_services.find? name).isSome) :
      Quiet who b (b.setWorker wrk { w with m_service := some name })
  | touch (b : BrokerState) (wrk : ℕ) (w : BrokerWorker) (expiry : Int)
      (h : b.workers.find? wrk = some w) (hwho : who wrk) :
      Quiet who b (b.setWorker wrk { w with m_expiry := expiry })
  | unlist (b : BrokerState) (wrk : ℕ) (w : BrokerWorker) (name : String)
      (h : b.workers.find? wrk = some w) (hname : w.m_service = some name) :
      Quiet who b (b.unlist wrk name)
  | toWorker (b : BrokerState) (frames : ZMsg) : Quiet who b (b.send (.toWorker frames))
  | toClient (b : BrokerState) (frames : ZMsg) : Quiet who b (b.send (.toClient frames))
  | toClientHeartbeat (b : BrokerState) (frames : ZMsg) :
      Quiet who b (b.send (.toClientHeartbeat frames))
  | client (b : BrokerState) (sender : String) :
      Quiet who b { b with m_client_senders := b.m_client_senders.insert sender }

/-- A worker or a request arrives at a service. With `again`, the worker may be waiting already. -/
inductive Arrive (again : Prop) (who : ℕ → Prop) (name : String) :
    BrokerState → BrokerState → Prop
  | enlist (b : BrokerState) (wrk : ℕ) (w : BrokerWorker) (clock : Int)
      (h : b.workers.find? wrk = some w) (hwho : who wrk) (hname : w.m_service = some name)
      (hnew : again ∨ wrk ∉ b.m_waiting.elems) : Arrive again who name b (b.enlist wrk w name clock)
  | push (b : BrokerState) (msg : ZMsg) : Arrive again who name b (b.push name msg)

/-- The first request of a service is sent to one of its waiting workers. -/
inductive Assign (name : String) : BrokerState → BrokerState → Prop
  | assign (b : BrokerState) (wrk : ℕ) (w : BrokerWorker) (request : ℕ × ZMsg)
      (requests : List (ℕ × ZMsg)) (h : b.workers.find? wrk = some w)
      (hwaiting : wrk ∈ (b.service name).m_waiting)
      (hrequests : (b.service name).m_requests = request :: requests) :
      Assign name b (b.assign name wrk w request requests)

abbrev Quiets (who : ℕ → Prop) := Run (Quiet who)

abbrev Assigns (name : String) := Run (Assign name)

/-- A service has no request or no worker left. -/
def Conserving (b : BrokerState) (name : String) : Prop :=
  (b.service name).m_requests = [] ∨ (b.service name).m_waiting = []

/-- Requests of a service are assigned after some quiet changes, until one of its lists is empty. -/
def Dispatched (who : ℕ → Prop) (name : String) (b b' : BrokerState) : Prop :=
  ∃ b₁, Quiets who b b₁ ∧ Assigns name b₁ b' ∧ Conserving b' name

/-- What an event does, after its worker has been looked up. -/
inductive Handled (again : Prop) (who : ℕ → Prop) : BrokerState → BrokerState → Prop
  | quiet {b b' : BrokerState} (h : Quiets who b b') : Handled again who b b'
  | dispatch {b b₁ b₂ b' : BrokerState} (name : String) (h : Quiets who b b₁)
      (harrive : Arrive again who name b₁ b₂) (hdispatch : Dispatched who name b₂ b') :
      Handled again who b b'

variable {again : Prop} {who : ℕ → Prop}

theorem Handled.after {b₁ : BrokerState} (h : Quiets who b b₁) (h' : Handled again who b₁ b') :
    Handled again who b b' := by
  cases h' with
  | quiet h' => exact .quiet (h.trans h')
  | dispatch name h' harrive hdispatch => exact .dispatch name (h.trans h') harrive hdispatch

/-- What quiet changes, arrivals and assignments keep, every event keeps. -/
theorem Handled.keeps (P : BrokerState → Prop) (hquiet : ∀ b b', P b → Quiet who b b' → P b')
    (harrive : ∀ name b b', P b → Arrive again who name b b' → P b')
    (hassign : ∀ name b b', P b → Assign name b b' → P b') (hb : P b)
    (h : Handled again who b b') : P b' := by
  cases h with
  | quiet hquiets => exact Run.invariant P hb hquiet hquiets
  | dispatch name hquiets harrived hdispatch =>
    obtain ⟨b₁, hquiets', hassigns, -⟩ := hdispatch
    have harrived : P _ := harrive name _ _ (Run.invariant P hb hquiet hquiets) harrived
    have hpurged : P b₁ := Run.invariant P harrived hquiet hquiets'
    exact Run.invariant P hpurged (hassign name) hassigns

/-! ## Links -/

/-- The broker's tables fit together: identities lead to workers and back, workers to services, and
waiting lists to workers. -/
structure Linked (b : BrokerState) : Prop where
  worker : ∀ {identity wrk}, b.m_workers.find? identity = some wrk →
    ∃ w, b.workers.find? wrk = some w ∧ w.m_identity = identity
  identity : ∀ {wrk w}, b.workers.find? wrk = some w → b.m_workers.find? w.m_identity = some wrk
  named : ∀ {wrk w}, b.workers.find? wrk = some w →
    w.m_identity ≠ "" ∧ cStr w.m_identity = w.m_identity
  fresh : ∀ {wrk w}, b.workers.find? wrk = some w → wrk < b.next
  owner : ∀ {wrk w name}, b.workers.find? wrk = some w → w.m_service = some name →
    (b.m_services.find? name).isSome
  waiting : ∀ {wrk}, wrk ∈ b.m_waiting.elems → ∃ w, b.workers.find? wrk = some w
  listed : ∀ {name wrk}, wrk ∈ (b.service name).m_waiting →
    ∃ w, b.workers.find? wrk = some w ∧ w.m_service = some name

namespace Linked

theorem new : Linked new where
  worker := nofun
  identity := nofun
  named := nofun
  fresh := nofun
  owner := nofun
  waiting := nofun
  listed := nofun

/-- No worker appears, and the waiting lists only lose workers. -/
theorem shrink (h : Linked b) (hworkers : b'.workers = b.workers)
    (hm_workers : b'.m_workers = b.m_workers) (hnext : b.next ≤ b'.next)
    (hservices : ∀ name, (b.m_services.find? name).isSome → (b'.m_services.find? name).isSome)
    (hwaiting : ∀ wrk ∈ b'.m_waiting.elems, wrk ∈ b.m_waiting.elems)
    (hlisted : ∀ name, ∀ wrk ∈ (b'.service name).m_waiting, wrk ∈ (b.service name).m_waiting) :
    Linked b' where
  worker := by rw [hm_workers, hworkers]; exact h.worker
  identity := by rw [hm_workers, hworkers]; exact h.identity
  named := by rw [hworkers]; exact h.named
  fresh := by rw [hworkers]; exact fun hw => (h.fresh hw).trans_le hnext
  owner := by rw [hworkers]; exact fun hw hname => hservices _ (h.owner hw hname)
  waiting := by rw [hworkers]; exact fun hwrk => h.waiting (hwaiting _ hwrk)
  listed := by rw [hworkers]; exact fun hwrk => h.listed (hlisted _ _ hwrk)

/-- The sockets and the senders of the clients are not linked to anything. -/
theorem untouched (h : Linked b) (hworkers : b'.workers = b.workers)
    (hm_workers : b'.m_workers = b.m_workers) (hnext : b'.next = b.next)
    (hm_services : b'.m_services = b.m_services) (hm_waiting : b'.m_waiting = b.m_waiting) :
    Linked b' := by
  have hservice : ∀ name, b'.service name = b.service name := fun name => by
    unfold BrokerState.service
    rw [hm_services]
  refine h.shrink hworkers hm_workers hnext.ge (fun name hname => ?_) (fun x hx => ?_)
    fun name x hx => ?_
  · rw [hm_services]
    exact hname
  · exact hm_waiting ▸ hx
  · exact hservice name ▸ hx

/-- A worker changes, but not its identity, and it keeps a service it has. -/
theorem setWorker (h : Linked b) (hw : b.workers.find? wrk = some w) (w' : BrokerWorker)
    (hidentity : w'.m_identity = w.m_identity)
    (hkeep : ∀ name, w.m_service = some name → w'.m_service = some name)
    (howner : ∀ name, w'.m_service = some name → (b.m_services.find? name).isSome) :
    Linked (b.setWorker wrk w') := by
  have hfind : ∀ x, (b.setWorker wrk w').workers.find? x =
      if x = wrk then some w' else b.workers.find? x := fun x => SortedMap.find?_set _ _ _ _
  constructor
  · intro identity x hx
    obtain ⟨v, hv, hid⟩ := h.worker hx
    rw [hfind]
    split_ifs with hxw
    · subst hxw
      rw [hw, Option.some.injEq] at hv
      subst hv
      exact ⟨w', rfl, hidentity.trans hid⟩
    · exact ⟨v, hv, hid⟩
  · intro x v hv
    rw [hfind] at hv
    split_ifs at hv with hxw
    · cases hv
      rw [hidentity, hxw]
      exact h.identity hw
    · exact h.identity hv
  · intro x v hv
    rw [hfind] at hv
    split_ifs at hv
    · cases hv
      rw [hidentity]
      exact h.named hw
    · exact h.named hv
  · intro x v hv
    rw [hfind] at hv
    split_ifs at hv with hxw
    · rw [hxw]
      exact h.fresh hw
    · exact h.fresh hv
  · intro x v name hv hname
    rw [hfind] at hv
    split_ifs at hv with hxw
    · cases hv
      exact howner name hname
    · exact h.owner hv hname
  · intro x hx
    rw [hfind]
    split_ifs
    · exact ⟨w', rfl⟩
    · exact h.waiting hx
  · intro name x hx
    obtain ⟨v, hv, hname⟩ := h.listed hx
    rw [hfind]
    split_ifs with hxw
    · subst hxw
      rw [hw, Option.some.injEq] at hv
      subst hv
      exact ⟨w', rfl, hkeep name hname⟩
    · exact ⟨v, hv, hname⟩

theorem touch (h : Linked b) (hw : b.workers.find? wrk = some w) (expiry : Int) :
    Linked (b.setWorker wrk { w with m_expiry := expiry }) :=
  h.setWorker hw _ rfl (fun _ hname => hname) fun _ hname => h.owner hw hname

theorem addService (h : Linked b) (hname : b.m_services.find? name = none) :
    Linked (b.setService name ⟨[], []⟩) := by
  refine h.shrink rfl rfl le_rfl (fun _ => isSome_setService b name _)
    (fun _ hx => hx) fun name' x hx => ?_
  rw [service_addService hname] at hx
  exact hx

theorem unlist (h : Linked b) (wrk : ℕ) (name : String) : Linked (b.unlist wrk name) := by
  refine h.shrink rfl rfl le_rfl (fun _ => isSome_setService b name _)
    (fun x hx => (SortedSet.mem_erase.1 hx).1) fun name' x hx => ?_
  rw [service_unlist] at hx
  split_ifs at hx with hname
  · rw [hname]
    exact List.mem_of_mem_filter hx
  · exact hx

theorem assign (h : Linked b) (name : String) (wrk : ℕ) (w : BrokerWorker)
    (request : ℕ × ZMsg) (requests : List (ℕ × ZMsg)) :
    Linked (b.assign name wrk w request requests) := by
  refine h.shrink rfl rfl le_rfl (fun _ => isSome_setService b name _)
    (fun x hx => (SortedSet.mem_erase.1 hx).1) fun name' x hx => ?_
  rw [service_assign] at hx
  split_ifs at hx with hname
  · rw [hname]
    exact List.mem_of_mem_erase hx
  · exact hx

theorem push (h : Linked b) (name : String) (msg : ZMsg) : Linked (b.push name msg) := by
  refine h.shrink rfl rfl (Nat.le_succ _) (fun _ => isSome_setService b name _)
    (fun _ hx => hx) fun name' x hx => ?_
  rw [service_push] at hx
  split_ifs at hx with hname
  · rw [hname]
    exact hx
  · exact hx

theorem enlist (h : Linked b) (hw : b.workers.find? wrk = some w)
    (hname : w.m_service = some name) (clock : Int) : Linked (b.enlist wrk w name clock) := by
  have hlisted : ∀ {name' x}, x ∈ ((b.enlist wrk w name clock).service name').m_waiting →
      ∃ v, b.workers.find? x = some v ∧ v.m_service = some name' := by
    intro name' x hx
    rw [service_enlist] at hx
    split_ifs at hx with hname'
    · rcases List.mem_append.1 hx with hx | hx
      · rw [hname']
        exact h.listed hx
      · rw [List.mem_singleton.1 hx, hname']
        exact ⟨w, hw, hname⟩
    · exact h.listed hx
  have hqueued : Linked ({ b with m_waiting := b.m_waiting.insert wrk }.setService name
      ⟨(b.service name).m_requests, (b.service name).m_waiting ++ [wrk]⟩) := by
    refine ⟨h.worker, h.identity, h.named, h.fresh, ?_, ?_, hlisted⟩
    · exact fun hv hname' => isSome_setService b name _ (h.owner hv hname')
    · intro x hx
      rcases SortedSet.mem_insert.1 hx with rfl | hx
      · exact ⟨w, hw⟩
      · exact h.waiting hx
  exact hqueued.touch hw _

theorem register (h : Linked b) {identity : String} (hidentity : identity ≠ "")
    (hcStr : cStr identity = identity) (hnone : b.m_workers.find? identity = none) :
    Linked (b.register identity) := by
  have hfind : ∀ x, (b.register identity).workers.find? x =
      if x = b.next then some ⟨identity, none, 0⟩ else b.workers.find? x :=
    fun x => SortedMap.find?_set _ _ _ _
  have hm_workers : ∀ id, (b.register identity).m_workers.find? id =
      if id = identity then some b.next else b.m_workers.find? id :=
    fun x => SortedMap.find?_set _ _ _ _
  have hkeep : ∀ {x v}, b.workers.find? x = some v →
      (b.register identity).workers.find? x = some v := by
    intro x v hv
    rw [hfind, if_neg (h.fresh hv).ne]
    exact hv
  constructor
  · intro id x hx
    rw [hm_workers] at hx
    split_ifs at hx with hid
    · cases hx
      exact ⟨_, by rw [hfind, if_pos rfl], hid.symm⟩
    · obtain ⟨v, hv, hid'⟩ := h.worker hx
      exact ⟨v, hkeep hv, hid'⟩
  · intro x v hv
    rw [hfind] at hv
    rw [hm_workers]
    split_ifs at hv with hx
    · cases hv
      rw [if_pos rfl, hx]
    · have hid : v.m_identity ≠ identity := by
        intro heq
        have hreg := h.identity hv
        rw [heq, hnone] at hreg
        cases hreg
      rw [if_neg hid]
      exact h.identity hv
  · intro x v hv
    rw [hfind] at hv
    split_ifs at hv
    · cases hv
      exact ⟨hidentity, hcStr⟩
    · exact h.named hv
  · intro x v hv
    rw [hfind] at hv
    split_ifs at hv with hx
    · rw [hx]
      exact Nat.lt_succ_self _
    · exact (h.fresh hv).trans (Nat.lt_succ_self _)
  · intro x v name hv hname
    rw [hfind] at hv
    split_ifs at hv with hx
    · cases hv
      cases hname
    · exact h.owner hv hname
  · intro x hx
    obtain ⟨v, hv⟩ := h.waiting hx
    exact ⟨v, hkeep hv⟩
  · intro name x hx
    obtain ⟨v, hv, hname⟩ := h.listed hx
    exact ⟨v, hkeep hv, hname⟩

theorem of_mem_erase (h : Linked b) (hw : b.workers.find? wrk = some w) {x : ℕ}
    (hx : x ∈ ((b.erase wrk w).service name).m_waiting) :
    x ∈ (b.service name).m_waiting ∧ x ≠ wrk := by
  rw [service_erase] at hx
  split_ifs at hx with hname
  · exact ⟨List.mem_of_mem_filter hx, of_decide_eq_true (List.mem_filter.1 hx).2⟩
  · refine ⟨hx, ?_⟩
    rintro rfl
    obtain ⟨v, hv, hname'⟩ := h.listed hx
    rw [hw, Option.some.injEq] at hv
    exact hname (hv ▸ hname')

/-- A deleted worker is in no table and no list any more. -/
theorem erase (h : Linked b) (hw : b.workers.find? wrk = some w) : Linked (b.erase wrk w) := by
  have hfind : ∀ x, (b.erase wrk w).workers.find? x =
      if x = wrk then none else b.workers.find? x := by
    intro x
    rw [erase_workers]
    exact SortedMap.find?_erase _ _ _
  have hm_workers : ∀ id, (b.erase wrk w).m_workers.find? id =
      if id = w.m_identity then none else b.m_workers.find? id := by
    intro id
    rw [erase_m_workers]
    exact SortedMap.find?_erase _ _ _
  constructor
  · intro id x hx
    rw [hm_workers] at hx
    split_ifs at hx with hid
    obtain ⟨v, hv, hid'⟩ := h.worker hx
    have hne : x ≠ wrk := by
      rintro rfl
      rw [hw, Option.some.injEq] at hv
      exact hid (by rw [hv, hid'])
    exact ⟨v, by rw [hfind, if_neg hne]; exact hv, hid'⟩
  · intro x v hv
    rw [hfind] at hv
    split_ifs at hv with hx
    have hid : v.m_identity ≠ w.m_identity := by
      intro heq
      have hreg := h.identity hv
      rw [heq, h.identity hw, Option.some.injEq] at hreg
      exact hx hreg.symm
    rw [hm_workers, if_neg hid]
    exact h.identity hv
  · intro x v hv
    rw [hfind] at hv
    split_ifs at hv
    exact h.named hv
  · intro x v hv
    rw [hfind] at hv
    split_ifs at hv
    rw [erase_next]
    exact h.fresh hv
  · intro x v name hv hname
    rw [hfind] at hv
    split_ifs at hv
    exact isSome_erase b wrk w (h.owner hv hname)
  · intro x hx
    rw [erase_m_waiting] at hx
    obtain ⟨hx, hne⟩ := SortedSet.mem_erase.1 hx
    obtain ⟨v, hv⟩ := h.waiting hx
    exact ⟨v, by rw [hfind, if_neg hne]; exact hv⟩
  · intro name x hx
    obtain ⟨hx, hne⟩ := h.of_mem_erase hw hx
    obtain ⟨v, hv, hname⟩ := h.listed hx
    exact ⟨v, by rw [hfind, if_neg hne]; exact hv, hname⟩

theorem quiet (h : Linked b) (hquiet : Quiet who b b') : Linked b' := by
  cases hquiet with
  | addService name hname => exact h.addService hname
  | erase wrk w hw => exact h.erase hw
  | attach wrk w name hw hwho hnone hname =>
    refine h.setWorker hw _ rfl (fun name' hname' => ?_) fun name' hname' => ?_
    · rw [hnone] at hname'
      cases hname'
    · cases hname'
      exact hname
  | touch wrk w expiry hw => exact h.touch hw expiry
  | unlist wrk w name hw hname => exact h.unlist wrk name
  | toWorker frames => exact h.untouched rfl rfl rfl rfl rfl
  | toClient frames => exact h.untouched rfl rfl rfl rfl rfl
  | toClientHeartbeat frames => exact h.untouched rfl rfl rfl rfl rfl
  | client sender => exact h.untouched rfl rfl rfl rfl rfl

theorem arrive (h : Linked b) (harrive : Arrive again who name b b') : Linked b' := by
  cases harrive with
  | enlist wrk w clock hw hwho hname hnew => exact h.enlist hw hname clock
  | push msg => exact h.push name msg

theorem assigned (h : Linked b) (hassign : Assign name b b') : Linked b' := by
  cases hassign with
  | assign wrk w request requests => exact h.assign name wrk w request requests

theorem quiets (h : Linked b) (hquiets : Quiets who b b') : Linked b' :=
  Run.invariant Linked h (fun _ _ h => h.quiet) hquiets

theorem handled (h : Linked b) (hhandled : Handled again who b b') : Linked b' :=
  hhandled.keeps Linked (fun _ _ h => h.quiet) (fun _ _ _ h => h.arrive)
    (fun _ _ _ h => h.assigned) h

end Linked

end BrokerState

end ShoppingApp
