import ShoppingApp.Worker.MajWorker
import ShoppingApp.Verify.RequestHandler
import ShoppingApp.Verify.ConsistentHashing

/-!
# Which workers a request reaches

The loop over the targets forwards the request to the targets before the worker itself and before
the first one without a socket (`forwardLoop_eq`). The targets are distinct, so a request reaches
every worker responsible for it exactly if no socket is missing and the worker, when it is a
target, is the last one (`recvRequest_reaches_iff`).
-/

namespace ShoppingApp

open ConsistentHashing (Hash)

namespace Worker

variable {generateHash : Hash}

/-! ## Targets -/

theorem distributeLoop_nodup (ch : ConsistentHashing) : ∀ (n : Nat) (next_worker : String)
    {targets : List String}, targets.Nodup →
    (distributeLoop generateHash ch n next_worker targets).Nodup := by
  intro n
  induction n with
  | zero => intro next_worker targets h; exact h
  | succ n ih =>
    intro next_worker targets h
    unfold distributeLoop
    dsimp only
    split_ifs with hnew
    · refine ih _ (List.nodup_append.2 ⟨h, List.nodup_singleton _, ?_⟩)
      intro a ha b hb hab
      rw [List.mem_singleton] at hb
      exact hnew.2 (hb ▸ hab ▸ ha)
    · exact h

theorem distribute_work_nodup (w : Worker) (url_list : String) :
    (w.distribute_work generateHash url_list).Nodup :=
  distributeLoop_nodup w.ch _ _ (List.nodup_singleton _)

theorem distributeLoop_prefix (ch : ConsistentHashing) : ∀ (n : Nat) (next_worker : String)
    (targets : List String), targets <+: distributeLoop generateHash ch n next_worker targets := by
  intro n
  induction n with
  | zero => intro next_worker targets; exact List.prefix_refl targets
  | succ n ih =>
    intro next_worker targets
    unfold distributeLoop
    dsimp only
    split_ifs
    · exact (List.prefix_append targets _).trans (ih _ _)
    · exact List.prefix_refl targets

/-- The primary worker is the first target. -/
theorem distribute_work_head (w : Worker) (url_list : String) :
    (w.distribute_work generateHash url_list).head? =
      some (w.ch.getServer generateHash url_list) := by
  have hprefix : [w.ch.getServer generateHash url_list] <+:
      w.distribute_work generateHash url_list := distributeLoop_prefix w.ch _ _ _
  obtain ⟨rest, hrest⟩ := hprefix
  rw [← hrest]
  rfl

theorem distributeLoop_subset {ch : ConsistentHashing} (h : ch.ring.entries ≠ []) :
    ∀ (n : Nat) (next_worker : String) {targets : List String},
      targets ⊆ ch.ring.entries.map Prod.snd →
      distributeLoop generateHash ch n next_worker targets ⊆ ch.ring.entries.map Prod.snd := by
  intro n
  induction n with
  | zero => intro next_worker targets hsub; exact hsub
  | succ n ih =>
    intro next_worker targets hsub
    unfold distributeLoop
    dsimp only
    split_ifs
    · apply ih
      apply List.append_subset.2
      exact ⟨hsub, List.cons_subset.2 ⟨ConsistentHashing.getNextServer_mem h _, List.nil_subset _⟩⟩
    · exact hsub

/-- All targets are on the ring. -/
theorem distribute_work_subset {w : Worker} (h : w.ch.ring.entries ≠ []) (url_list : String) :
    w.distribute_work generateHash url_list ⊆ w.ch.ring.entries.map Prod.snd :=
  distributeLoop_subset h _ _
    (List.cons_subset.2 ⟨ConsistentHashing.getServer_mem h _, List.nil_subset _⟩)

/-! ## The loop over the targets -/

/-- A target that the loop forwards to, if it gets there. -/
def forwardsTo (generateHash : Hash) (w : Worker) (worker : String) : Bool :=
  decide (worker ≠ w.m_worker_pull_bind_complete) &&
    (w.ch.getPushSocketViaServer generateHash worker).isSome

/-- The RECV_WORK message for a target. -/
def forwardOf (generateHash : Hash) (w : Worker) (msg : ZMsg) (worker : String) : Forward :=
  ⟨worker, (w.ch.getPushSocketViaServer generateHash worker).getD ⟨""⟩,
    envelope k_mdpw_recv_work (msg.wrap w.m_reply_to "")⟩

/-- How the loop ends, from the targets it does not forward to. -/
def endingOf (w : Worker) (msg : ZMsg) : List String → Ending
  | [] => .free
  | worker :: _ => if worker = w.m_worker_pull_bind_complete then .handle msg else .nullSocket

/-- **What the loop does**: it forwards until it meets the worker itself or a missing socket. -/
theorem forwardLoop_eq (w : Worker) (msg : ZMsg) : ∀ targets : List String,
    w.forwardLoop generateHash targets msg =
      ((targets.takeWhile (forwardsTo generateHash w)).map (forwardOf generateHash w msg),
        endingOf w msg (targets.dropWhile (forwardsTo generateHash w))) := by
  intro targets
  induction targets with
  | nil => rfl
  | cons worker targets ih =>
    unfold forwardLoop
    by_cases hown : worker = w.m_worker_pull_bind_complete
    · have hno : forwardsTo generateHash w worker = false := by simp [forwardsTo, hown]
      rw [if_pos hown, List.takeWhile_cons, List.dropWhile_cons, hno]
      simp [endingOf, hown]
    · rw [if_neg hown]
      cases hsocket : w.ch.getPushSocketViaServer generateHash worker with
      | none =>
        have hno : forwardsTo generateHash w worker = false := by simp [forwardsTo, hsocket]
        rw [List.takeWhile_cons, List.dropWhile_cons, hno]
        simp [endingOf, hown]
      | some socket =>
        have hyes : forwardsTo generateHash w worker = true := by
          simp [forwardsTo, hsocket, hown]
        have hmsg : (ZMsg.unwrap (msg.wrap w.m_reply_to "")).elim (msg.wrap w.m_reply_to "")
            Prod.snd = msg := by
          rw [ZMsg.unwrap_wrap]
          rfl
        dsimp only
        rw [hmsg, ih, List.takeWhile_cons, List.dropWhile_cons, hyes]
        simp [forwardOf, hsocket]

/-- With a socket for every target but the worker itself, no null socket is used. -/
theorem forwardLoop_ne_nullSocket {w : Worker} {targets : List String}
    (h : ∀ worker ∈ targets, worker ≠ w.m_worker_pull_bind_complete →
      (w.ch.getPushSocketViaServer generateHash worker).isSome = true) (msg : ZMsg) :
    (w.forwardLoop generateHash targets msg).2 ≠ .nullSocket := by
  rw [forwardLoop_eq]
  cases hstop : targets.dropWhile (forwardsTo generateHash w) with
  | nil => exact nofun
  | cons worker rest =>
    have hmem : worker ∈ targets :=
      (List.dropWhile_sublist _).subset (hstop ▸ List.mem_cons_self)
    have hno : forwardsTo generateHash w worker = false := by
      have hhead := List.head?_dropWhile_not (forwardsTo generateHash w) targets
      rw [hstop] at hhead
      exact hhead
    have hown : worker = w.m_worker_pull_bind_complete := by
      by_contra hne
      rw [forwardsTo, h worker hmem hne, decide_eq_true hne] at hno
      cases hno
    change endingOf w msg (worker :: rest) ≠ .nullSocket
    rw [endingOf, if_pos hown]
    exact nofun

/-! ## Reaching every target -/

/-- The worker handles the request itself if it is a target and not otherwise, and each other
target, and nobody else, gets one message with the request over its socket. -/
structure Reaches (generateHash : Hash) (w : Worker) (targets : List String) (msg : ZMsg)
    (forwards : List Forward) (ending : Ending) : Prop where
  handled : ending = .handle msg ↔ w.m_worker_pull_bind_complete ∈ targets
  once : ∀ worker, (forwards.map Forward.worker).count worker =
    if worker ∈ targets ∧ worker ≠ w.m_worker_pull_bind_complete then 1 else 0
  carries : ∀ f ∈ forwards, w.ch.getPushSocketViaServer generateHash f.worker = some f.socket ∧
    f.msg = envelope k_mdpw_recv_work (msg.wrap w.m_reply_to "")

theorem map_worker_forwardOf (w : Worker) (msg : ZMsg) (targets : List String) :
    (targets.map (forwardOf generateHash w msg)).map Forward.worker = targets := by
  rw [List.map_map]
  exact List.map_id targets

theorem forwardOf_carries {w : Worker} {msg : ZMsg} {targets : List String} {f : Forward}
    (hf : f ∈ (targets.takeWhile (forwardsTo generateHash w)).map (forwardOf generateHash w msg)) :
    w.ch.getPushSocketViaServer generateHash f.worker = some f.socket ∧
      f.msg = envelope k_mdpw_recv_work (msg.wrap w.m_reply_to "") := by
  obtain ⟨worker, hworker, rfl⟩ := List.mem_map.1 hf
  have hyes := List.mem_takeWhile_imp hworker
  unfold forwardsTo at hyes
  rw [Bool.and_eq_true] at hyes
  obtain ⟨socket, hsocket⟩ := Option.isSome_iff_exists.1 hyes.2
  unfold forwardOf
  rw [hsocket]
  exact ⟨rfl, rfl⟩

theorem forwardsTo_own (w : Worker) :
    forwardsTo generateHash w w.m_worker_pull_bind_complete = false := by
  simp [forwardsTo]

theorem Reaches.mem_takeWhile {w : Worker} {msg : ZMsg} {targets : List String}
    (h : Reaches generateHash w targets msg (w.forwardLoop generateHash targets msg).1
      (w.forwardLoop generateHash targets msg).2) {worker : String} (hmem : worker ∈ targets)
    (hne : worker ≠ w.m_worker_pull_bind_complete) :
    worker ∈ targets.takeWhile (forwardsTo generateHash w) := by
  have honce := h.once worker
  rw [forwardLoop_eq, map_worker_forwardOf, if_pos ⟨hmem, hne⟩] at honce
  apply List.count_pos_iff.1
  omega

/-- If the request reaches all, nothing but the worker itself is left where the loop stops. -/
theorem Reaches.getLast? {w : Worker} {msg : ZMsg} {targets : List String}
    (hnodup : targets.Nodup)
    (h : Reaches generateHash w targets msg (w.forwardLoop generateHash targets msg).1
      (w.forwardLoop generateHash targets msg).2)
    (hown : w.m_worker_pull_bind_complete ∈ targets) :
    targets.getLast? = some w.m_worker_pull_bind_complete := by
  have hsplit := List.takeWhile_append_dropWhile (p := forwardsTo generateHash w) (l := targets)
  have hdisjoint := List.nodup_append.1 (hsplit ▸ hnodup)
  have hrest : ∀ worker ∈ targets.dropWhile (forwardsTo generateHash w),
      worker = w.m_worker_pull_bind_complete := by
    intro worker hworker
    by_contra hne
    have hmem : worker ∈ targets := by
      rw [← hsplit]
      exact List.mem_append_right _ hworker
    exact hdisjoint.2.2 worker (h.mem_takeWhile hmem hne) worker hworker rfl
  have hownmem : w.m_worker_pull_bind_complete ∈
      targets.dropWhile (forwardsTo generateHash w) := by
    rw [← hsplit, List.mem_append] at hown
    refine hown.resolve_left fun hleft => ?_
    have := List.mem_takeWhile_imp hleft
    rw [forwardsTo_own] at this
    cases this
  have hlast : targets.dropWhile (forwardsTo generateHash w) = [w.m_worker_pull_bind_complete] := by
    cases hdrop : targets.dropWhile (forwardsTo generateHash w) with
    | nil =>
      rw [hdrop] at hownmem
      cases hownmem
    | cons worker rest =>
      rw [hdrop] at hrest hdisjoint
      obtain rfl := hrest worker List.mem_cons_self
      have hempty : rest = [] := by
        apply List.eq_nil_iff_forall_not_mem.2
        intro worker hworker
        have heq := hrest worker (List.mem_cons_of_mem _ hworker)
        exact (List.nodup_cons.1 hdisjoint.2.1).1 (heq ▸ hworker)
      rw [hempty]
  rw [← hsplit, hlast, List.getLast?_append]
  rfl

/-- A worker that is the last target forwards to all others first. -/
theorem reaches_of_last (w : Worker) (msg : ZMsg) {others : List String}
    (hnodup : (others ++ [w.m_worker_pull_bind_complete]).Nodup)
    (hyes : ∀ worker ∈ others, forwardsTo generateHash w worker = true) :
    Reaches generateHash w (others ++ [w.m_worker_pull_bind_complete]) msg
      (w.forwardLoop generateHash (others ++ [w.m_worker_pull_bind_complete]) msg).1
      (w.forwardLoop generateHash (others ++ [w.m_worker_pull_bind_complete]) msg).2 := by
  have hdisjoint := List.nodup_append.1 hnodup
  have hne : ∀ worker ∈ others, worker ≠ w.m_worker_pull_bind_complete := fun worker hworker =>
    hdisjoint.2.2 worker hworker _ (List.mem_singleton_self _)
  have htake : (others ++ [w.m_worker_pull_bind_complete]).takeWhile
      (forwardsTo generateHash w) = others := by
    rw [List.takeWhile_append_of_pos hyes, List.takeWhile_cons, forwardsTo_own]
    simp
  have hdrop : (others ++ [w.m_worker_pull_bind_complete]).dropWhile
      (forwardsTo generateHash w) = [w.m_worker_pull_bind_complete] := by
    rw [List.dropWhile_append_of_pos hyes, List.dropWhile_cons, forwardsTo_own]
    simp
  refine ⟨?_, fun worker => ?_, ?_⟩
  · rw [forwardLoop_eq, hdrop]
    simp [endingOf]
  · rw [forwardLoop_eq, map_worker_forwardOf, htake, hdisjoint.1.count]
    congr 1
    simp only [List.mem_append, List.mem_singleton, eq_iff_iff]
    constructor
    · intro hmem
      exact ⟨.inl hmem, hne worker hmem⟩
    · rintro ⟨hmem | hmem, hne'⟩
      · exact hmem
      · exact absurd hmem hne'
  · rw [forwardLoop_eq]
    exact fun f hf => forwardOf_carries hf

/-- A worker that is no target forwards to all. -/
theorem reaches_of_not_mem (w : Worker) (msg : ZMsg) {targets : List String}
    (hnodup : targets.Nodup) (hown : w.m_worker_pull_bind_complete ∉ targets)
    (hyes : ∀ worker ∈ targets, forwardsTo generateHash w worker = true) :
    Reaches generateHash w targets msg (w.forwardLoop generateHash targets msg).1
      (w.forwardLoop generateHash targets msg).2 := by
  have htake : targets.takeWhile (forwardsTo generateHash w) = targets :=
    List.takeWhile_eq_self_iff.2 hyes
  have hdrop : targets.dropWhile (forwardsTo generateHash w) = [] :=
    List.dropWhile_eq_nil_iff.2 hyes
  refine ⟨?_, fun worker => ?_, ?_⟩
  · rw [forwardLoop_eq, hdrop]
    simp [endingOf, hown]
  · rw [forwardLoop_eq, map_worker_forwardOf, htake, hnodup.count]
    congr 1
    rw [eq_iff_iff]
    exact ⟨fun hmem => ⟨hmem, fun h => hown (h ▸ hmem)⟩, And.left⟩
  · rw [forwardLoop_eq]
    exact fun f hf => forwardOf_carries hf

/-- The loop reaches all targets exactly if no socket is missing and the worker is not before
another target. -/
theorem forwardLoop_reaches_iff (w : Worker) (msg : ZMsg) {targets : List String}
    (hnodup : targets.Nodup) :
    Reaches generateHash w targets msg (w.forwardLoop generateHash targets msg).1
        (w.forwardLoop generateHash targets msg).2 ↔
      (∀ worker ∈ targets, worker ≠ w.m_worker_pull_bind_complete →
          (w.ch.getPushSocketViaServer generateHash worker).isSome) ∧
        (w.m_worker_pull_bind_complete ∈ targets →
          targets.getLast? = some w.m_worker_pull_bind_complete) := by
  constructor
  · intro h
    refine ⟨fun worker hmem hne => ?_, h.getLast? hnodup⟩
    have hyes := List.mem_takeWhile_imp (h.mem_takeWhile hmem hne)
    unfold forwardsTo at hyes
    rw [Bool.and_eq_true] at hyes
    exact hyes.2
  · rintro ⟨hsockets, hlast⟩
    have hyes : ∀ worker ∈ targets, worker ≠ w.m_worker_pull_bind_complete →
        forwardsTo generateHash w worker = true := by
      intro worker hmem hne
      unfold forwardsTo
      rw [hsockets worker hmem hne, Bool.and_true]
      exact decide_eq_true hne
    by_cases hown : w.m_worker_pull_bind_complete ∈ targets
    · obtain ⟨others, rfl⟩ : ∃ others, targets = others ++ [w.m_worker_pull_bind_complete] :=
        ⟨_, (List.dropLast_append_getLast? _ (hlast hown)).symm⟩
      have hdisjoint := (List.nodup_append.1 hnodup).2.2
      refine reaches_of_last w msg hnodup fun worker hworker => ?_
      apply hyes worker (List.mem_append_left _ hworker)
      exact hdisjoint worker hworker _ (List.mem_singleton_self _)
    · refine reaches_of_not_mem w msg hnodup hown fun worker hmem => ?_
      apply hyes worker hmem
      rintro rfl
      exact hown hmem

/-! ## From a message to the reply -/

theorem openEnvelope_envelope (command : String) (h : cStr command = command) (msg : ZMsg) :
    openEnvelope command (envelope command msg) = some msg := by
  have hheader : cStr k_mdpw_worker = k_mdpw_worker := by decide
  unfold envelope openEnvelope ZMsg.push_front
  dsimp only
  rw [ZMsg.cStr_empty, hheader, h, h, if_pos ⟨rfl, rfl, rfl⟩]

/-- The ring is not empty and the worker can send to each server on it but itself. -/
structure Connected (generateHash : Hash) (w : Worker) : Prop where
  nonempty : w.ch.ring.entries ≠ []
  socket : ∀ server ∈ w.ch.ring.entries.map Prod.snd, server ≠ w.m_worker_pull_bind_complete →
    w.ch.getPushSocketViaServer generateHash server = some ⟨server⟩

/-- The targets before the worker itself; all of them if it is none. -/
def targetsAhead (generateHash : Hash) (w : Worker) (url_list : String) : List String :=
  (w.distribute_work generateHash url_list).takeWhile (forwardsTo generateHash w)

theorem Connected.forwardsTo_iff {w : Worker} (h : Connected generateHash w) {url_list : String}
    {worker : String} (hmem : worker ∈ w.distribute_work generateHash url_list) :
    forwardsTo generateHash w worker = true ↔ worker ≠ w.m_worker_pull_bind_complete := by
  unfold forwardsTo
  constructor
  · intro hyes
    rw [Bool.and_eq_true] at hyes
    exact of_decide_eq_true hyes.1
  · intro hne
    rw [h.socket worker (distribute_work_subset h.nonempty url_list hmem) hne, decide_eq_true hne]
    rfl

theorem Connected.endpoint {w : Worker} (h : Connected generateHash w) {url_list worker : String}
    (hmem : worker ∈ targetsAhead generateHash w url_list) (msg : ZMsg) :
    worker ∈ w.ch.ring.entries.map Prod.snd ∧
      (forwardOf generateHash w msg worker).socket.endpoint = worker := by
  have htarget := List.takeWhile_subset _ hmem
  have hring := distribute_work_subset h.nonempty url_list htarget
  have hne := (h.forwardsTo_iff htarget).1 (List.mem_takeWhile_imp hmem)
  refine ⟨hring, ?_⟩
  unfold forwardOf
  rw [h.socket worker hring hne]
  rfl

/-- The worker finds itself first exactly if it is the primary one. -/
theorem Connected.targetsAhead_eq_nil_iff {w : Worker} (h : Connected generateHash w)
    (url_list : String) :
    targetsAhead generateHash w url_list = [] ↔
      w.m_worker_pull_bind_complete = w.ch.getServer generateHash url_list := by
  have hhead : (w.distribute_work generateHash url_list).head? =
      some (w.ch.getServer generateHash url_list) := w.distribute_work_head url_list
  have hiff : ∀ worker ∈ w.distribute_work generateHash url_list,
      (forwardsTo generateHash w worker = true ↔ worker ≠ w.m_worker_pull_bind_complete) :=
    fun _ hmem => h.forwardsTo_iff hmem
  unfold targetsAhead
  cases htargets : w.distribute_work generateHash url_list with
  | nil =>
    rw [htargets] at hhead
    cases hhead
  | cons worker targets =>
    rw [htargets] at hhead hiff
    cases hhead
    have hworker := hiff _ List.mem_cons_self
    rw [List.takeWhile_cons]
    by_cases hown : w.m_worker_pull_bind_complete = w.ch.getServer generateHash url_list
    · rw [if_neg (fun hyes => hworker.1 hyes hown.symm)]
      exact ⟨fun _ => hown, fun _ => rfl⟩
    · rw [if_pos (hworker.2 (Ne.symm hown))]
      exact ⟨fun hnil => absurd hnil (List.cons_ne_nil _ _), fun heq => absurd heq hown⟩

/-- The loop of a connected worker forwards to the targets ahead, and handles the request or is
free. -/
theorem Connected.forwardLoop {w : Worker} (h : Connected generateHash w) (url_list : String)
    (msg : ZMsg) :
    w.forwardLoop generateHash (w.distribute_work generateHash url_list) msg =
        ((targetsAhead generateHash w url_list).map (forwardOf generateHash w msg),
          .handle msg) ∨
      w.forwardLoop generateHash (w.distribute_work generateHash url_list) msg =
          ((targetsAhead generateHash w url_list).map (forwardOf generateHash w msg), .free) ∧
        targetsAhead generateHash w url_list ≠ [] := by
  have hsplit : targetsAhead generateHash w url_list ++ (w.distribute_work generateHash
      url_list).dropWhile (forwardsTo generateHash w) = w.distribute_work generateHash url_list :=
    List.takeWhile_append_dropWhile
  rw [forwardLoop_eq]
  cases hdrop : (w.distribute_work generateHash url_list).dropWhile (forwardsTo generateHash w) with
  | nil =>
    refine .inr ⟨rfl, ?_⟩
    rw [hdrop, List.append_nil] at hsplit
    rw [hsplit]
    intro hnil
    have hhead : (w.distribute_work generateHash url_list).head? =
      some (w.ch.getServer generateHash url_list) := w.distribute_work_head url_list
    rw [hnil] at hhead
    cases hhead
  | cons worker rest =>
    have hmem : worker ∈ w.distribute_work generateHash url_list := by
      rw [← hsplit, hdrop]
      exact List.mem_append_right _ List.mem_cons_self
    have hno : ¬ forwardsTo generateHash w worker = true := by
      have hhead := List.head?_dropWhile_not (forwardsTo generateHash w)
        (w.distribute_work generateHash url_list)
      rw [hdrop] at hhead
      simpa using hhead
    have hown : worker = w.m_worker_pull_bind_complete := by
      by_contra hne
      exact hno ((h.forwardsTo_iff hmem).2 hne)
    exact .inl (congrArg (Prod.mk _) (if_pos hown))

/-! ## A request -/

/-- The request as `handle_request` takes it. -/
def requestOf (request_type url_list : String) (body : ZMsg) : ZMsg :=
  ((ZMsg.push_front body url_list).push_front request_type).push_front ""

theorem recvRequest_eq (w : Worker) (client request_type url_list : String) (body : ZMsg) :
    w.recvRequest generateHash (client :: "" :: request_type :: url_list :: body) =
      some ({ w with m_reply_to := cStr client },
        { w with m_reply_to := cStr client }.forwardLoop generateHash
          (w.distribute_work generateHash (cStr url_list))
          (requestOf request_type url_list body)) := rfl

/-- **A request reaches every worker responsible for it** exactly if the worker that receives it
has a socket for each other target and is, if it is a target, the last of them. -/
theorem recvRequest_reaches_iff (w : Worker) (client request_type url_list : String)
    (body : ZMsg) :
    ∃ w' forwards ending,
      w.recvRequest generateHash (client :: "" :: request_type :: url_list :: body) =
        some (w', forwards, ending) ∧
      (Reaches generateHash w' (w.distribute_work generateHash (cStr url_list))
          (requestOf request_type url_list body) forwards ending ↔
        (∀ worker ∈ w.distribute_work generateHash (cStr url_list),
            worker ≠ w.m_worker_pull_bind_complete →
            (w.ch.getPushSocketViaServer generateHash worker).isSome) ∧
          (w.m_worker_pull_bind_complete ∈ w.distribute_work generateHash (cStr url_list) →
            (w.distribute_work generateHash (cStr url_list)).getLast? =
              some w.m_worker_pull_bind_complete)) := by
  refine ⟨_, _, _, recvRequest_eq w client request_type url_list body, ?_⟩
  exact forwardLoop_reaches_iff { w with m_reply_to := cStr client } _
    (w.distribute_work_nodup (cStr url_list))

/-- A worker answers a request it handles with the reply of `handleRequest`. -/
theorem handle_request_requestOf {text : JsonText} {db : Database} {r : ShoppingList}
    {request_type : String} {body : ZMsg} (url_list : String) (hdb : db.WF) (hr : r.WF)
    (hc : RequestHandler.Carries text (cStr request_type) body r) :
    ∃ res db' published, db'.WF ∧
      RequestHandler.handleRequest text (cStr url_list) (cStr request_type) body db =
        some (res, db') ∧
      handle_request text (requestOf request_type url_list body) db =
        some ⟨[cStr res.reply], published, db'⟩ := by
  obtain ⟨res, hres⟩ := RequestHandler.handleRequest_carries (cStr url_list) hdb hr hc
  have hwf := RequestHandler.storeAfter_wf hdb hr (cStr url_list) (cStr request_type)
  have hhandle : ∃ published, handle_request text (requestOf request_type url_list body) db =
      some ⟨[cStr res.reply], published, RequestHandler.storeAfter (cStr url_list)
        (cStr request_type) r db⟩ := by
    unfold requestOf ZMsg.push_front handle_request
    dsimp only
    rw [ZMsg.cStr_cStr, ZMsg.cStr_cStr, hres]
    exact ⟨_, rfl⟩
  obtain ⟨published, hhandle⟩ := hhandle
  exact ⟨res, _, published, hwf, hres, hhandle⟩

/-- A client's request as the worker gets it, and as it is forwarded. -/
def requestFrames (client request_type url_list : String) (body : ZMsg) : ZMsg :=
  envelope k_mdpw_request (ZMsg.wrap (request_type :: url_list :: body) client "")

def workFrames (client request_type url_list : String) (body : ZMsg) : ZMsg :=
  envelope k_mdpw_recv_work ((requestOf request_type url_list body).wrap client "")

def replyFrames (client : String) (reply : ZMsg) : ZMsg :=
  envelope k_mdpw_reply (reply.wrap client "")

/-- **What a connected worker makes of a request**: it forwards to the targets before itself, and
replies once. The primary worker's reply is that of `handleRequest`. -/
theorem onRequest_eq {text : JsonText} {w : Worker} {r : ShoppingList}
    {client request_type : String} {body : ZMsg} (h : Connected generateHash w)
    (hdb : w.db.WF) (hr : r.WF) (hc : RequestHandler.Carries text (cStr request_type) body r)
    (hclient : cStr client ≠ "") (url_list : String) :
    ∃ db' published reply, db'.WF ∧
      w.onRequest generateHash text (requestFrames client request_type url_list body) =
        some ⟨{ w with m_reply_to := "", db := db' },
          (targetsAhead generateHash w (cStr url_list)).map
            (forwardOf generateHash { w with m_reply_to := cStr client }
              (requestOf request_type url_list body)),
          none, published, replyFrames (cStr client) reply⟩ ∧
      (w.m_worker_pull_bind_complete = w.ch.getServer generateHash (cStr url_list) →
        ∃ res, RequestHandler.handleRequest text (cStr url_list) (cStr request_type) body w.db =
          some (res, db') ∧ reply = [cStr res.reply]) := by
  obtain ⟨res, db', published, hdb', hres, hhandle⟩ :=
    handle_request_requestOf url_list hdb hr hc
  have hopen := openEnvelope_envelope k_mdpw_request (by decide)
    (ZMsg.wrap (request_type :: url_list :: body) client "")
  have hrecv : w.recvRequest generateHash (ZMsg.wrap (request_type :: url_list :: body) client "") =
      some ({ w with m_reply_to := cStr client },
        { w with m_reply_to := cStr client }.forwardLoop generateHash
          (w.distribute_work generateHash (cStr url_list))
          (requestOf request_type url_list body)) := by
    rw [← ZMsg.cStr_cStr client]
    exact recvRequest_eq w (cStr client) request_type url_list body
  have hsend : ∀ reply : ZMsg, { w with m_reply_to := cStr client, db := db' }.sendReply reply =
      some ({ w with m_reply_to := "", db := db' }, replyFrames (cStr client) reply) :=
    fun reply => if_neg hclient
  have hfree : ∀ reply : ZMsg, { w with m_reply_to := cStr client }.sendReply reply =
      some ({ w with m_reply_to := "" }, replyFrames (cStr client) reply) :=
    fun reply => if_neg hclient
  have hconnected : Connected generateHash { w with m_reply_to := cStr client } :=
    ⟨h.nonempty, h.socket⟩
  have hloop := hconnected.forwardLoop (cStr url_list) (requestOf request_type url_list body)
  unfold onRequest requestFrames
  rw [hopen, Option.bind_eq_bind, Option.bind_some, hrecv, Option.bind_eq_bind, Option.bind_some]
  rcases hloop with hloop | ⟨hloop, hahead⟩
  · refine ⟨db', published, [cStr res.reply], hdb', ?_, fun _ => ⟨res, hres, rfl⟩⟩
    rw [show Worker.forwardLoop _ _ (w.distribute_work generateHash _) _ = _ from hloop]
    dsimp only
    rw [hhandle, Option.bind_eq_bind, Option.bind_some, hsend]
    rfl
  · refine ⟨w.db, none, freeReply, hdb, ?_, fun hown => ?_⟩
    · rw [show Worker.forwardLoop _ _ (w.distribute_work generateHash _) _ = _ from hloop]
      dsimp only
      rw [hfree]
      rfl
    · exact absurd ((hconnected.targetsAhead_eq_nil_iff (cStr url_list)).2 hown) hahead

/-- A target that gets work handles it and replies once. -/
theorem onRecvWork_eq {text : JsonText} {w : Worker} {r : ShoppingList}
    {client request_type : String} {body : ZMsg} (hdb : w.db.WF) (hr : r.WF)
    (hc : RequestHandler.Carries text (cStr request_type) body r) (hclient : cStr client ≠ "")
    (url_list : String) :
    ∃ db' published reply, db'.WF ∧
      w.onRecvWork text (workFrames client request_type url_list body) =
        some ⟨{ w with m_reply_to := "", db := db' }, [],
          some (envelope k_mdpw_worker_occupied (ZMsg.push_front [] w.worker_id)), published,
          replyFrames (cStr client) reply⟩ := by
  obtain ⟨res, db', published, hdb', -, hhandle⟩ := handle_request_requestOf url_list hdb hr hc
  have hopen := openEnvelope_envelope k_mdpw_recv_work (by decide)
    ((requestOf request_type url_list body).wrap client "")
  have hsend : { w with m_reply_to := cStr client, db := db' }.sendReply [cStr res.reply] =
      some ({ w with m_reply_to := "", db := db' }, replyFrames (cStr client) [cStr res.reply]) :=
    if_neg hclient
  refine ⟨db', published, [cStr res.reply], hdb', ?_⟩
  unfold onRecvWork workFrames
  rw [hopen, Option.bind_eq_bind, Option.bind_some, ZMsg.unwrap_wrap, Option.bind_eq_bind,
    Option.bind_some]
  dsimp only
  rw [hhandle, Option.bind_eq_bind, Option.bind_some, hsend]
  rfl

/-- Two workers on a ring, and the one before the other. -/
def sampleHash (key : String) : Nat :=
  if key = "tcp://localhost:5600" then 20 else if key = "tcp://localhost:5601" then 30 else 10

def sampleRing : ConsistentHashing :=
  (((ConsistentHashing.new 1).addServer sampleHash "tcp://localhost:5600").addServer sampleHash
    "tcp://localhost:5601").addPushSocketViaServer sampleHash "tcp://localhost:5601"
    ⟨"tcp://localhost:5601"⟩

def firstWorker : Worker :=
  ⟨"tcp://localhost:5600", "worker0", "", sampleRing, ∅, 2⟩

/-- The first target handles the request and does not send it to the second one. -/
theorem recvRequest_missesTarget :
    firstWorker.distribute_work sampleHash "msla-user1" =
        ["tcp://localhost:5600", "tcp://localhost:5601"] ∧
      sampleRing.getPushSocketViaServer sampleHash "tcp://localhost:5601" =
        some ⟨"tcp://localhost:5601"⟩ ∧
      firstWorker.recvRequest sampleHash ["client1", "", "GET_LIST", "msla-user1"] =
        some ({ firstWorker with m_reply_to := "client1" }, [],
          .handle ["", "GET_LIST", "msla-user1"]) ∧
      ¬ Reaches sampleHash { firstWorker with m_reply_to := "client1" }
        (firstWorker.distribute_work sampleHash "msla-user1") ["", "GET_LIST", "msla-user1"] []
        (.handle ["", "GET_LIST", "msla-user1"]) := by
  have htargets : firstWorker.distribute_work sampleHash "msla-user1" =
      ["tcp://localhost:5600", "tcp://localhost:5601"] := by decide
  refine ⟨htargets, by decide, rfl, ?_⟩
  intro h
  have honce := h.once "tcp://localhost:5601"
  rw [htargets] at honce
  revert honce
  decide

end Worker

end ShoppingApp
