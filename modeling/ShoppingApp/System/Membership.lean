import ShoppingApp.Verify.Ring
import Mathlib.Data.List.Induction
import Mathlib.Logic.Relation

/-!
# Workers joining a ring

Any number of workers start, each but the first through one that is running, and tell each other
about the ring over channels that keep the order of messages between two workers. BROADCAST_RING
replaces a ring, so a worker can lose servers; exactly the runs in which each such message carries
the servers that its receiver has lose none, and then all workers end up with one ring
(`membership_kept_iff`).
-/

namespace ShoppingApp

open ConsistentHashing (Hash Node View addresses)

/-- The workers that have started, the last one first, the ring and sockets of each, and the
messages on their way from a worker to an endpoint. -/
structure Membership (ι : Type*) where
  started : List ι
  nodes : ι → ConsistentHashing
  channel : ι → String → List RingMessage

namespace Membership

variable {ι : Type*} [DecidableEq ι] (generateHash : Hash) (addr : ι → String)

def init : Membership ι := ⟨[], fun _ => .new 1, fun _ _ => []⟩

/-- The first worker starts; a worker starts through one that is running; the oldest message from
`i` to `j` arrives. -/
inductive Event (ι : Type*)
  | start (i : ι)
  | join (i via : ι)
  | deliver (i j : ι)

/-- Worker `i` moves to a ring and sends messages. -/
def put (s : Membership ι) (i : ι) (out : ConsistentHashing × List (Socket × RingMessage)) :
    Membership ι :=
  { s with
    nodes := Function.update s.nodes i out.1
    channel := fun k endpoint =>
      if k = i then
        s.channel k endpoint ++ (out.2.filter fun sent => sent.1 = ⟨endpoint⟩).map Prod.snd
      else s.channel k endpoint }

/-- What is left of the channel from `i` to an endpoint. -/
def leave (s : Membership ι) (i : ι) (endpoint : String) (rest : List RingMessage) :
    Membership ι :=
  { s with channel := fun k e => if k = i ∧ e = endpoint then rest else s.channel k e }

def step (s : Membership ι) : Event ι → Option (Membership ι)
  | .start i =>
    if s.started = [] then
      some (put { s with started := [i] } i
        (ConsistentHashing.connect_to_broker generateHash (addr i) ""))
    else none
  | .join i via =>
    if i ∉ s.started ∧ via ∈ s.started then
      some (put { s with started := i :: s.started } i
        (ConsistentHashing.connect_to_broker generateHash (addr i) (addr via)))
    else none
  | .deliver i j =>
    if j ∈ s.started then
      match s.channel i (addr j) with
      | [] => none
      | msg :: rest => some ((s.leave i (addr j) rest).put j
          ((s.nodes j).onRingMessage generateHash (addr j) msg))
    else none

def exec (events : List (Event ι)) : Option (Membership ι) :=
  events.foldlM (step generateHash addr) init

/-! ## What is claimed of a run, and when it holds -/

/-- No ring loses a server from `s` to `t`. -/
def NoLoss (s t : Membership ι) : Prop :=
  ∀ i ∈ s.started, addresses (s.nodes i).ring ⊆ addresses (t.nodes i).ring

/-- Every message has arrived. -/
def Quiet (s : Membership ι) : Prop :=
  ∀ i ∈ s.started, ∀ j ∈ s.started, s.channel i (addr j) = []

/-- All running workers hold one ring, with all of them on it. -/
def Agreed (s : Membership ι) : Prop :=
  ∀ i ∈ s.started, (∀ j ∈ s.started, (s.nodes i).ring = (s.nodes j).ring) ∧
    ∀ j ∈ s.started, addr j ∈ addresses (s.nodes i).ring

/-- A BROADCAST_RING that arrives next carries all servers its receiver has. -/
def Covers (s : Membership ι) : Event ι → Prop
  | .deliver i j => ∀ ring servers rest,
      s.channel i (addr j) = .broadcast_ring ring servers :: rest →
      addresses (s.nodes j).ring ⊆ addresses ring
  | _ => True

variable {generateHash addr} {s t : Membership ι}

/-- What an event does. -/
theorem step_cases {e : Event ι} (h : s.step generateHash addr e = some t) :
    (∃ i, e = .start i ∧ s.started = [] ∧ t = put { s with started := [i] } i
      (ConsistentHashing.connect_to_broker generateHash (addr i) "")) ∨
    (∃ i via, e = .join i via ∧ i ∉ s.started ∧ via ∈ s.started ∧
      t = put { s with started := i :: s.started } i
        (ConsistentHashing.connect_to_broker generateHash (addr i) (addr via))) ∨
    ∃ i j msg rest, e = .deliver i j ∧ j ∈ s.started ∧ s.channel i (addr j) = msg :: rest ∧
      t = (s.leave i (addr j) rest).put j
        ((s.nodes j).onRingMessage generateHash (addr j) msg) := by
  cases e with
  | start i =>
    unfold step at h
    dsimp only at h
    split_ifs at h with hnone
    cases h
    exact .inl ⟨i, rfl, hnone, rfl⟩
  | join i via =>
    unfold step at h
    dsimp only at h
    split_ifs at h with hok
    cases h
    exact .inr (.inl ⟨i, via, rfl, hok.1, hok.2, rfl⟩)
  | deliver i j =>
    unfold step at h
    dsimp only at h
    split_ifs at h with hj
    split at h
    · cases h
    · rename_i msg rest hchannel
      cases h
      exact .inr (.inr ⟨i, j, msg, rest, rfl, hj, hchannel, rfl⟩)

/-! ## Messages -/

theorem mem_channel_put {i k : ι} {out : ConsistentHashing × List (Socket × RingMessage)}
    {endpoint : String} {msg : RingMessage} :
    msg ∈ (s.put i out).channel k endpoint ↔
      msg ∈ s.channel k endpoint ∨ k = i ∧ (⟨endpoint⟩, msg) ∈ out.2 := by
  unfold put
  by_cases hk : k = i
  · simp [hk]
  · simp [hk]

theorem mem_of_mem_leave {i k : ι} {endpoint e : String} {msg m : RingMessage}
    {rest : List RingMessage} (hs : s.channel i endpoint = msg :: rest)
    (h : m ∈ (s.leave i endpoint rest).channel k e) : m ∈ s.channel k e := by
  unfold leave at h
  dsimp only at h
  split_ifs at h with hke
  · rw [hke.1, hke.2, hs]
    exact List.mem_cons_of_mem _ h
  · exact h

theorem mem_leave {i k : ι} {endpoint e : String} {msg m : RingMessage}
    {rest : List RingMessage} (hs : s.channel i endpoint = msg :: rest)
    (h : m ∈ s.channel k e) :
    (k = i ∧ e = endpoint ∧ m = msg) ∨ m ∈ (s.leave i endpoint rest).channel k e := by
  unfold leave
  dsimp only
  split_ifs with hke
  · rw [hke.1, hke.2, hs, List.mem_cons] at h
    exact h.imp_left fun hm => ⟨hke.1, hke.2, hm⟩
  · exact .inr h

theorem nodes_put_self (s : Membership ι) (i : ι)
    (out : ConsistentHashing × List (Socket × RingMessage)) : (s.put i out).nodes i = out.1 :=
  Function.update_self _ _ _

theorem nodes_put_ne (s : Membership ι) {i j : ι} (h : j ≠ i)
    (out : ConsistentHashing × List (Socket × RingMessage)) :
    (s.put i out).nodes j = s.nodes j :=
  Function.update_of_ne h _ _

/-! ## Rings and messages name running workers -/

/-- The address of a running worker. -/
def Known (addr : ι → String) (s : Membership ι) (a : String) : Prop := ∃ i ∈ s.started, addr i = a

/-- A message of worker `k`: its own address, or a ring of running workers. -/
def Valid (generateHash : Hash) (addr : ι → String) (s : Membership ι) (k : ι) :
    RingMessage → Prop
  | .join_ring a => a = addr k
  | .broadcast_ring ring servers => View generateHash (Known addr s) ring servers

structure Sound (generateHash : Hash) (addr : ι → String) (s : Membership ι) : Prop where
  node : ∀ i ∈ s.started, Node generateHash (Known addr s) (addr i) (s.nodes i)
  flight : ∀ k endpoint msg, msg ∈ s.channel k endpoint →
    k ∈ s.started ∧ Known addr s endpoint ∧ Valid generateHash addr s k msg

theorem Sound.put {i : ι} {out : ConsistentHashing × List (Socket × RingMessage)}
    (hi : i ∈ s.started)
    (hother : ∀ j ∈ s.started, j ≠ i →
      Node generateHash (Known addr s) (addr j) (s.nodes j))
    (hflight : ∀ k endpoint msg, msg ∈ s.channel k endpoint →
      k ∈ s.started ∧ Known addr s endpoint ∧ Valid generateHash addr s k msg)
    (hnode : Node generateHash (Known addr s) (addr i) out.1)
    (hout : ∀ sent ∈ out.2, Known addr s sent.1.endpoint ∧ Valid generateHash addr s i sent.2) :
    Sound generateHash addr (s.put i out) := by
  refine ⟨fun j hj => ?_, fun k endpoint msg hm => ?_⟩
  · by_cases hji : j = i
    · subst hji
      rw [nodes_put_self]
      exact hnode
    · rw [nodes_put_ne s hji]
      exact hother j hj hji
  · rcases mem_channel_put.1 hm with hold | ⟨rfl, hnew⟩
    · exact hflight k endpoint msg hold
    · exact ⟨hi, hout _ hnew⟩

omit [DecidableEq ι] in
theorem Known.mono (hsub : s.started ⊆ t.started) {a : String} (h : Known addr s a) :
    Known addr t a := by
  obtain ⟨i, hi, rfl⟩ := h
  exact ⟨i, hsub hi, rfl⟩

omit [DecidableEq ι] in
theorem Valid.mono (hsub : s.started ⊆ t.started) {k : ι} {msg : RingMessage}
    (h : Valid generateHash addr s k msg) : Valid generateHash addr t k msg := by
  cases msg with
  | join_ring a => exact h
  | broadcast_ring ring servers => exact View.mono h fun a ha => ha.mono hsub

omit [DecidableEq ι] in
theorem known_inj (hinj : Function.Injective (generateHash ∘ addr)) (a b : String)
    (ha : Known addr s a) (hb : Known addr s b) (hab : generateHash a = generateHash b) :
    a = b := by
  obtain ⟨i, -, rfl⟩ := ha
  obtain ⟨j, -, rfl⟩ := hb
  rw [hinj hab]

theorem localEndpoint_ne_empty (a : String) : localEndpoint a ≠ "" := by
  intro h
  have hlist := congrArg String.toList h
  unfold localEndpoint at hlist
  rw [String.toList_append] at hlist
  revert hlist
  simp

section Steps

variable (hinj : Function.Injective (generateHash ∘ addr))
  (hlocal : ∀ i, localEndpoint (addr i) = addr i)

include hinj hlocal in
omit [DecidableEq ι] in
/-- A running worker that gets a message keeps a sound ring and sends sound messages. -/
theorem Sound.receive (h : Sound generateHash addr s) {i j : ι} (hj : j ∈ s.started)
    {msg : RingMessage} (hmsg : msg ∈ s.channel i (addr j)) :
    Node generateHash (Known addr s) (addr j)
        ((s.nodes j).onRingMessage generateHash (addr j) msg).1 ∧
      ∀ sent ∈ ((s.nodes j).onRingMessage generateHash (addr j) msg).2,
        Known addr s sent.1.endpoint ∧ Valid generateHash addr s j sent.2 := by
  obtain ⟨hi, -, hvalid⟩ := h.flight i (addr j) msg hmsg
  cases msg with
  | join_ring a =>
    obtain rfl : a = addr i := hvalid
    obtain ⟨hnode, -, -, hsent⟩ := (h.node j hj).onJoinRing
      (known_inj hinj) ⟨i, hi, rfl⟩ (hlocal i)
    refine ⟨hnode, fun sent hmem => ?_⟩
    obtain ⟨hknown, heq⟩ := hsent sent hmem
    rw [heq]
    exact ⟨hknown, hnode.view⟩
  | broadcast_ring ring servers =>
    obtain ⟨hnode, -⟩ := (h.node j hj).onBroadcastRing (known_inj hinj) hvalid
    exact ⟨hnode, fun sent hmem => absurd hmem List.not_mem_nil⟩

include hinj hlocal in
theorem Sound.step (h : Sound generateHash addr s) {e : Event ι}
    (hst : s.step generateHash addr e = some t) : Sound generateHash addr t := by
  rcases step_cases hst with ⟨i, -, hnone, rfl⟩ | ⟨i, via, -, -, hvia, rfl⟩ |
    ⟨i, j, msg, rest, -, hj, hchannel, rfl⟩
  · have hown : Known addr { s with started := [i] } (addr i) :=
      ⟨i, List.mem_singleton_self i, rfl⟩
    obtain ⟨hnode, -, hsent⟩ := Node.first (known_inj hinj) hown
    refine .put (List.mem_singleton_self i) (fun j hj hne => ?_) (fun k endpoint msg hm => ?_) hnode
      (fun sent hmem => ?_)
    · exact absurd (List.mem_singleton.1 hj) hne
    · have hk := (h.flight k endpoint msg hm).1
      rw [hnone] at hk
      cases hk
    · rw [hsent] at hmem
      cases hmem
  · have hsub : s.started ⊆ i :: s.started := List.subset_cons_self i s.started
    have hknown : Known addr { s with started := i :: s.started } (addr via) :=
      ⟨via, hsub hvia, rfl⟩
    have hne : addr via ≠ "" := by
      rw [← hlocal via]
      exact localEndpoint_ne_empty _
    obtain ⟨hnode, -, hsent⟩ :=
      Node.joining (known_inj hinj) (addr i) hknown hne
    refine .put List.mem_cons_self (fun j hj hne => ?_) (fun k endpoint msg hm => ?_) hnode
      (fun sent hmem => ?_)
    · have hold := (List.mem_cons.1 hj).resolve_left hne
      exact (h.node j hold).mono fun a ha => ha.mono hsub
    · obtain ⟨hk, hknown, hvalid⟩ := h.flight k endpoint msg hm
      exact ⟨hsub hk, hknown.mono hsub, hvalid.mono hsub⟩
    · rw [hsent, List.mem_singleton] at hmem
      subst hmem
      exact ⟨hknown, rfl⟩
  · obtain ⟨hnode, hsent⟩ := h.receive hinj hlocal hj (hchannel ▸ List.mem_cons_self)
    refine .put hj (fun k hk _ => h.node k hk) (fun k endpoint m hm => ?_) hnode hsent
    exact h.flight k endpoint m (mem_of_mem_leave hchannel hm)

end Steps

/-! ## What spreads while no ring loses a server -/

/-- The workers on a list of servers have all of them, or are being sent them. -/
def Settled (addr : ι → String) (s : Membership ι) (servers : List String) : Prop :=
  ∀ m, addr m ∈ servers → servers ⊆ addresses (s.nodes m).ring ∨
    ∃ k ring ss, .broadcast_ring ring ss ∈ s.channel k (addr m) ∧ servers ⊆ addresses ring

/-- Worker `p` is on the ring of `i`, which is on that of `p` or has told it. -/
structure Link (addr : ι → String) (s : Membership ι) (i p : ι) : Prop where
  left : i ∈ s.started
  right : p ∈ s.started
  holds : addr p ∈ addresses (s.nodes i).ring
  told : addr i ∈ addresses (s.nodes p).ring ∨ .join_ring (addr i) ∈ s.channel i (addr p)

/-- A running worker has itself on its ring, or has told another, or is being told. -/
def Heard (addr : ι → String) (s : Membership ι) (i : ι) : Prop :=
  addr i ∈ addresses (s.nodes i).ring ∨
    (∃ p ∈ s.started, .join_ring (addr i) ∈ s.channel i (addr p)) ∨
    ∃ k ring ss, .broadcast_ring ring ss ∈ s.channel k (addr i) ∧ addr i ∈ addresses ring

structure Spreads (addr : ι → String) (s : Membership ι) : Prop where
  settled : ∀ i ∈ s.started, Settled addr s (addresses (s.nodes i).ring) ∨
    addr i ∉ addresses (s.nodes i).ring
  sent : ∀ k endpoint ring servers, .broadcast_ring ring servers ∈ s.channel k endpoint →
    Settled addr s (addresses ring)
  heard : ∀ i ∈ s.started, Heard addr s i
  linked : ∀ i ∈ s.started, ∀ j ∈ s.started, Relation.EqvGen (Link addr s) i j

/-- What one step without loss leaves of rings and messages: an address that arrives is put on the
ring and sent back, a ring that arrives is kept. -/
structure Evolves (addr : ι → String) (s t : Membership ι) : Prop where
  started : s.started ⊆ t.started
  kept : NoLoss s t
  joined : ∀ k, ∀ p ∈ s.started, .join_ring (addr k) ∈ s.channel k (addr p) →
    .join_ring (addr k) ∈ t.channel k (addr p) ∨
      addr k ∈ addresses (t.nodes p).ring ∧ (k ≠ p → ∃ servers,
        .broadcast_ring (t.nodes p).ring servers ∈ t.channel p (addr k))
  arrived : ∀ k, ∀ m ∈ s.started, ∀ ring servers,
    .broadcast_ring ring servers ∈ s.channel k (addr m) →
    .broadcast_ring ring servers ∈ t.channel k (addr m) ∨
      addresses ring ⊆ addresses (t.nodes m).ring

section Evolves

omit [DecidableEq ι]

theorem Evolves.settled (h : Evolves addr s t) {servers : List String}
    (hstarted : ∀ m, addr m ∈ servers → m ∈ s.started) (hs : Settled addr s servers) :
    Settled addr t servers := by
  intro m hm
  rcases hs m hm with hhas | ⟨k, ring, ss, hsent, hsub⟩
  · exact .inl (List.Subset.trans hhas (h.kept m (hstarted m hm)))
  · rcases h.arrived k m (hstarted m hm) ring ss hsent with hstill | hhas
    · exact .inr ⟨k, ring, ss, hstill, hsub⟩
    · exact .inl (List.Subset.trans hsub hhas)

theorem Evolves.link (h : Evolves addr s t) {i p : ι} (hl : Link addr s i p) :
    Link addr t i p := by
  refine ⟨h.started hl.left, h.started hl.right, h.kept i hl.left hl.holds, ?_⟩
  rcases hl.told with hon | hjoin
  · exact .inl (h.kept p hl.right hon)
  · rcases h.joined i p hl.right hjoin with hstill | ⟨hon, -⟩
    · exact .inr hstill
    · exact .inl hon

theorem Evolves.heard (h : Evolves addr s t) {i : ι} (hi : i ∈ s.started)
    (hh : Heard addr s i) : Heard addr t i := by
  rcases hh with hon | ⟨p, hp, hjoin⟩ | ⟨k, ring, ss, hsent, hmem⟩
  · exact .inl (h.kept i hi hon)
  · rcases h.joined i p hp hjoin with hstill | ⟨hon, hback⟩
    · exact .inr (.inl ⟨p, h.started hp, hstill⟩)
    · by_cases hip : i = p
      · subst hip
        exact .inl hon
      · obtain ⟨servers, hsent⟩ := hback hip
        exact .inr (.inr ⟨p, _, servers, hsent, hon⟩)
  · rcases h.arrived k i hi ring ss hsent with hstill | hhas
    · exact .inr (.inr ⟨k, ring, ss, hstill, hmem⟩)
    · exact .inl (hhas hmem)

end Evolves

/-! ## Steps without loss -/

section Steps

variable (hinj : Function.Injective (generateHash ∘ addr))
  (hlocal : ∀ i, localEndpoint (addr i) = addr i)

include hinj in
omit [DecidableEq ι] in
theorem addr_injective : Function.Injective addr := fun i j hij => by
  apply hinj
  exact congrArg generateHash hij

include hinj in
omit [DecidableEq ι] in
/-- Known addresses are those of running workers. -/
theorem started_of_known {m : ι} (h : Known addr s (addr m)) : m ∈ s.started := by
  obtain ⟨i, hi, him⟩ := h
  rw [← addr_injective hinj him]
  exact hi

/-- A worker that starts leaves the others as they are. -/
theorem evolves_put_new {started : List ι} {i : ι}
    (hsub : s.started ⊆ started) (hi : i ∉ s.started)
    (out : ConsistentHashing × List (Socket × RingMessage)) :
    Evolves addr s (put { s with started := started } i out) := by
  have hnode : ∀ j ∈ s.started, (put { s with started := started } i out).nodes j = s.nodes j :=
    fun j hj => nodes_put_ne _ (fun hji : j = i => hi (hji ▸ hj)) out
  refine ⟨hsub, fun j hj => ?_, fun k p _ hjoin => ?_, fun k m _ ring servers hsent => ?_⟩
  · rw [hnode j hj]
    exact List.Subset.refl _
  · exact .inl (mem_channel_put.2 (.inl hjoin))
  · exact .inl (mem_channel_put.2 (.inl hsent))

theorem mem_channel_deliver {i j k : ι} {e : String} {msg m : RingMessage}
    {rest : List RingMessage} {out : ConsistentHashing × List (Socket × RingMessage)}
    (hs : s.channel i (addr j) = msg :: rest) (h : m ∈ s.channel k e) :
    (k = i ∧ e = addr j ∧ m = msg) ∨
      m ∈ ((s.leave i (addr j) rest).put j out).channel k e :=
  (mem_leave hs h).imp_right fun hleft => mem_channel_put.2 (.inl hleft)

include hinj hlocal in
/-- A JOIN_RING that arrives. -/
theorem evolves_join (h : Sound generateHash addr s) {i j : ι} (hj : j ∈ s.started) {a : String}
    {rest : List RingMessage} (hchannel : s.channel i (addr j) = .join_ring a :: rest) :
    Evolves addr s ((s.leave i (addr j) rest).put j ((s.nodes j).onJoinRing generateHash a)) ∧
      Settled addr ((s.leave i (addr j) rest).put j ((s.nodes j).onJoinRing generateHash a))
        (addresses ((s.nodes j).onJoinRing generateHash a).1.ring) := by
  have hmsg : .join_ring a ∈ s.channel i (addr j) := hchannel ▸ List.mem_cons_self
  obtain ⟨hi, -, hvalid⟩ := h.flight i (addr j) _ hmsg
  obtain rfl : a = addr i := hvalid
  have haddr := addr_injective hinj
  obtain ⟨hnode, hring, hback, -⟩ := (h.node j hj).onJoinRing (known_inj hinj)
    ⟨i, hi, rfl⟩ (hlocal i)
  refine ⟨⟨List.Subset.refl _, fun k hk => ?_, fun k p _ hjoin => ?_,
    fun k m _ ring servers hsent => ?_⟩, fun m hm => ?_⟩
  · by_cases hkj : k = j
    · subst hkj
      rw [nodes_put_self]
      exact fun b hb => (hring b).2 (.inr hb)
    · rw [nodes_put_ne _ hkj]
      exact List.Subset.refl _
  · rcases mem_channel_deliver hchannel hjoin with ⟨rfl, hp, -⟩ | hstill
    · obtain rfl := haddr hp
      rw [nodes_put_self]
      have hon := (hring (addr k)).2 (.inl rfl)
      refine .inr ⟨hon, fun hkp => ?_⟩
      have hsent := hback (addr k) hon fun heq => hkp (haddr heq)
      exact ⟨_, mem_channel_put.2 (.inr ⟨rfl, hsent⟩)⟩
    · exact .inl hstill
  · rcases mem_channel_deliver hchannel hsent with ⟨-, -, hne⟩ | hstill
    · cases hne
    · exact .inl hstill
  · by_cases hmj : m = j
    · subst hmj
      rw [nodes_put_self]
      exact .inl (List.Subset.refl _)
    · have hsent := hback (addr m) hm fun heq => hmj (haddr heq)
      exact .inr ⟨j, _, _, mem_channel_put.2 (.inr ⟨rfl, hsent⟩), List.Subset.refl _⟩

include hinj in
/-- A BROADCAST_RING that arrives and carries all servers of its receiver. -/
theorem evolves_broadcast (h : Sound generateHash addr s) {i j : ι} (hj : j ∈ s.started)
    {ring : SortedMap Nat String} {servers : List String} {rest : List RingMessage}
    (hchannel : s.channel i (addr j) = .broadcast_ring ring servers :: rest)
    (hcovers : addresses (s.nodes j).ring ⊆ addresses ring) :
    Evolves addr s ((s.leave i (addr j) rest).put j
      ((s.nodes j).onBroadcastRing generateHash (addr j) ring servers, [])) := by
  have hmsg : .broadcast_ring ring servers ∈ s.channel i (addr j) :=
    hchannel ▸ List.mem_cons_self
  obtain ⟨-, -, hvalid⟩ := h.flight i (addr j) _ hmsg
  obtain ⟨-, hring⟩ := (h.node j hj).onBroadcastRing (known_inj hinj) hvalid
  refine ⟨List.Subset.refl _, fun k hk => ?_, fun k p _ hjoin => ?_,
    fun k m _ ring' servers' hsent => ?_⟩
  · by_cases hkj : k = j
    · subst hkj
      rw [nodes_put_self, hring]
      exact hcovers
    · rw [nodes_put_ne _ hkj]
      exact List.Subset.refl _
  · rcases mem_channel_deliver hchannel hjoin with ⟨-, -, hne⟩ | hstill
    · cases hne
    · exact .inl hstill
  · rcases mem_channel_deliver hchannel hsent with ⟨-, hm, heq⟩ | hstill
    · obtain rfl := addr_injective hinj hm
      cases heq
      rw [nodes_put_self, hring]
      exact .inr (List.Subset.refl _)
    · exact .inl hstill

include hinj in
/-- What is left to check when a running worker moves to a ring that is on its way to the others. -/
theorem Spreads.deliver (hsound : Sound generateHash addr s) (h : Spreads addr s) {i j : ι}
    {msg : RingMessage} {rest : List RingMessage}
    {out : ConsistentHashing × List (Socket × RingMessage)}
    (hchannel : s.channel i (addr j) = msg :: rest)
    (hevolves : Evolves addr s ((s.leave i (addr j) rest).put j out))
    (hsettled : Settled addr ((s.leave i (addr j) rest).put j out) (addresses out.1.ring))
    (hsent : ∀ sent ∈ out.2, ∃ servers, sent.2 = .broadcast_ring out.1.ring servers) :
    Spreads addr ((s.leave i (addr j) rest).put j out) := by
  have hkeep : ∀ {servers}, (∀ a ∈ servers, Known addr s a) → Settled addr s servers →
      Settled addr ((s.leave i (addr j) rest).put j out) servers := fun hknown hs =>
    hevolves.settled (fun m hm => started_of_known hinj (hknown _ hm)) hs
  refine ⟨fun k hk => ?_, fun k e ring servers hmem => ?_, fun k hk => ?_,
    fun k hk l hl => ?_⟩
  · by_cases hkj : k = j
    · subst hkj
      rw [nodes_put_self]
      exact .inl hsettled
    · rw [nodes_put_ne _ hkj]
      exact (h.settled k hk).imp_left fun hs => hkeep (hsound.node k hk).view.known hs
  · rcases mem_channel_put.1 hmem with hold | ⟨-, hnew⟩
    · have hs := mem_of_mem_leave hchannel hold
      have hview : View generateHash (Known addr s) ring servers :=
        (hsound.flight k e _ hs).2.2
      exact hkeep hview.known (h.sent k e ring servers hs)
    · obtain ⟨servers', heq⟩ := hsent _ hnew
      cases heq
      exact hsettled
  · exact hevolves.heard hk (h.heard k hk)
  · exact (h.linked k hk l hl).mono fun _ _ => hevolves.link

include hinj in
theorem Spreads.start (hsound : Sound generateHash addr s) (hnone : s.started = []) (i : ι) :
    Spreads addr (put { s with started := [i] } i
      (ConsistentHashing.connect_to_broker generateHash (addr i) "")) := by
  have hown : Known addr { s with started := [i] } (addr i) :=
    ⟨i, List.mem_singleton_self i, rfl⟩
  obtain ⟨-, hring, hsent⟩ := Node.first (known_inj hinj) hown
  refine ⟨fun k hk => ?_, fun k e ring servers hmem => ?_, fun k hk => ?_, fun k hk l hl => ?_⟩
  · obtain rfl := List.mem_singleton.1 hk
    refine .inl fun m hm => .inl ?_
    rw [nodes_put_self] at hm ⊢
    rw [addr_injective hinj ((hring _).1 hm), nodes_put_self]
    exact List.Subset.refl _
  · rcases mem_channel_put.1 hmem with hold | ⟨-, hnew⟩
    · have hk := (hsound.flight k e _ hold).1
      rw [hnone] at hk
      cases hk
    · rw [hsent] at hnew
      cases hnew
  · obtain rfl := List.mem_singleton.1 hk
    left
    rw [nodes_put_self]
    exact (hring _).2 rfl
  · obtain rfl := List.mem_singleton.1 hk
    obtain rfl := List.mem_singleton.1 hl
    exact .refl _

include hinj hlocal in
theorem Spreads.joining (hsound : Sound generateHash addr s) (h : Spreads addr s) {i via : ι}
    (hi : i ∉ s.started) (hvia : via ∈ s.started)
    (hevolves : Evolves addr s (put { s with started := i :: s.started } i
      (ConsistentHashing.connect_to_broker generateHash (addr i) (addr via)))) :
    Spreads addr (put { s with started := i :: s.started } i
      (ConsistentHashing.connect_to_broker generateHash (addr i) (addr via))) := by
  have hknown : Known addr s (addr via) := ⟨via, hvia, rfl⟩
  have hne : addr via ≠ "" := by
    rw [← hlocal via]
    exact localEndpoint_ne_empty _
  obtain ⟨-, hring, hsent⟩ := Node.joining (known_inj hinj) (addr i) hknown hne
  have hold : ∀ k ∈ i :: s.started, k ≠ i → k ∈ s.started := fun k hk hki =>
    (List.mem_cons.1 hk).resolve_left hki
  have hkeep : ∀ {servers}, (∀ a ∈ servers, Known addr s a) → Settled addr s servers → _ :=
    fun hk hs => hevolves.settled (fun m hm => started_of_known hinj (hk _ hm)) hs
  have hjoin : .join_ring (addr i) ∈ (put { s with started := i :: s.started } i
      (ConsistentHashing.connect_to_broker generateHash (addr i) (addr via))).channel i
        (addr via) := by
    refine mem_channel_put.2 (.inr ⟨rfl, ?_⟩)
    rw [hsent]
    exact List.mem_singleton_self _
  have hlink : Link addr (put { s with started := i :: s.started } i
      (ConsistentHashing.connect_to_broker generateHash (addr i) (addr via))) i via := by
    refine ⟨List.mem_cons_self, List.mem_cons_of_mem _ hvia, ?_, .inr hjoin⟩
    rw [nodes_put_self]
    exact (hring _).2 rfl
  -- all are linked to the worker it joins through
  have hlinked : ∀ k ∈ i :: s.started, Relation.EqvGen (Link addr (put
      { s with started := i :: s.started } i
      (ConsistentHashing.connect_to_broker generateHash (addr i) (addr via)))) k via := by
    intro k hk
    by_cases hki : k = i
    · subst hki
      exact .rel _ _ hlink
    · exact (h.linked k (hold k hk hki) via hvia).mono fun _ _ => hevolves.link
  refine ⟨fun k hk => ?_, fun k e ring servers hmem => ?_, fun k hk => ?_, fun k hk l hl => ?_⟩
  · by_cases hki : k = i
    · subst hki
      rw [nodes_put_self]
      refine .inr fun hmem => hi ?_
      rw [addr_injective hinj ((hring _).1 hmem)]
      exact hvia
    · rw [nodes_put_ne _ hki]
      exact (h.settled k (hold k hk hki)).imp_left
        (hkeep (hsound.node k (hold k hk hki)).view.known)
  · rcases mem_channel_put.1 hmem with hs | ⟨-, hnew⟩
    · have hview : View generateHash (Known addr s) ring servers :=
        (hsound.flight k e _ hs).2.2
      exact hkeep hview.known (h.sent k e ring servers hs)
    · rw [hsent, List.mem_singleton] at hnew
      cases hnew
  · by_cases hki : k = i
    · subst hki
      exact .inr (.inl ⟨via, List.mem_cons_of_mem _ hvia, hjoin⟩)
    · exact hevolves.heard (hold k hk hki) (h.heard k (hold k hk hki))
  · exact .trans _ _ _ (hlinked k hk) (.symm _ _ (hlinked l hl))

include hinj hlocal in
/-- A step that meets the condition keeps what spreads, and loses no server. -/
theorem Spreads.step (hsound : Sound generateHash addr s) (h : Spreads addr s) {e : Event ι}
    (hst : s.step generateHash addr e = some t) (hcovers : s.Covers addr e) :
    Spreads addr t ∧ NoLoss s t := by
  rcases step_cases hst with ⟨i, -, hnone, rfl⟩ | ⟨i, via, -, hi, hvia, rfl⟩ |
    ⟨i, j, msg, rest, rfl, hj, hchannel, rfl⟩
  · refine ⟨.start hinj hsound hnone i, fun k hk => ?_⟩
    rw [hnone] at hk
    cases hk
  · have hevolves : Evolves addr s _ := evolves_put_new (List.subset_cons_self i s.started) hi
      (ConsistentHashing.connect_to_broker generateHash (addr i) (addr via))
    exact ⟨h.joining hinj hlocal hsound hi hvia hevolves, hevolves.kept⟩
  · have hflight := hsound.flight i (addr j) msg (hchannel ▸ List.mem_cons_self)
    cases msg with
    | join_ring a =>
      obtain ⟨hevolves, hsettled⟩ := evolves_join hinj hlocal hsound hj hchannel
      obtain rfl : a = addr i := hflight.2.2
      obtain ⟨-, -, -, hsent⟩ := (hsound.node j hj).onJoinRing (known_inj hinj)
        ⟨i, hflight.1, rfl⟩ (hlocal i)
      exact ⟨h.deliver hinj hsound hchannel hevolves hsettled fun sent hmem =>
        ⟨_, (hsent sent hmem).2⟩, hevolves.kept⟩
    | broadcast_ring ring servers =>
      have hevolves := evolves_broadcast hinj hsound hj hchannel
        (hcovers ring servers rest hchannel)
      have hview : View generateHash (Known addr s) ring servers := hflight.2.2
      obtain ⟨-, hring⟩ := (hsound.node j hj).onBroadcastRing (known_inj hinj) hview
      have hsettled := hevolves.settled
        (fun m hm => started_of_known hinj (hview.known _ hm))
        (h.sent i _ ring servers (hchannel ▸ List.mem_cons_self))
      refine ⟨h.deliver hinj hsound hchannel hevolves ?_ fun sent hmem =>
        absurd hmem List.not_mem_nil, hevolves.kept⟩
      have hout : ((s.nodes j).onRingMessage generateHash (addr j)
          (.broadcast_ring ring servers)).1.ring = ring := hring
      rw [hout]
      exact hsettled

omit [DecidableEq ι] in
/-- **When every message has arrived, all workers hold one ring.** -/
theorem Spreads.agreed (hsound : Sound generateHash addr s) (h : Spreads addr s)
    (hquiet : s.Quiet addr) : s.Agreed addr := by
  have hnothing : ∀ k, ∀ m ∈ s.started, ∀ msg, msg ∉ s.channel k (addr m) := by
    intro k m hm msg hmem
    have hk := (hsound.flight k (addr m) msg hmem).1
    rw [hquiet k hk m hm] at hmem
    cases hmem
  have hself : ∀ i ∈ s.started, addr i ∈ addresses (s.nodes i).ring := by
    intro i hi
    rcases h.heard i hi with hon | ⟨p, hp, hjoin⟩ | ⟨k, ring, ss, hsent, -⟩
    · exact hon
    · exact absurd hjoin (hnothing i p hp _)
    · exact absurd hsent (hnothing k i hi _)
  -- a ring is held by all workers on it
  have hspread : ∀ i ∈ s.started, ∀ j ∈ s.started, addr j ∈ addresses (s.nodes i).ring →
      addresses (s.nodes i).ring ⊆ addresses (s.nodes j).ring := by
    intro i hi j hj hmem
    have hsettled := (h.settled i hi).resolve_right fun hno => hno (hself i hi)
    rcases hsettled j hmem with hsub | ⟨k, ring, ss, hsent, -⟩
    · exact hsub
    · exact absurd hsent (hnothing k j hj _)
  have hsame : ∀ i j, Relation.EqvGen (Link addr s) i j →
      ∀ a, a ∈ addresses (s.nodes i).ring ↔ a ∈ addresses (s.nodes j).ring := by
    intro i j hij
    induction hij with
    | rel i j hl =>
      have htold := hl.told.resolve_right (hnothing i j hl.right _)
      exact fun a => ⟨fun ha => hspread i hl.left j hl.right hl.holds ha,
        fun ha => hspread j hl.right i hl.left htold ha⟩
    | refl i => exact fun a => Iff.rfl
    | symm i j _ ih => exact fun a => (ih a).symm
    | trans i j k _ _ ih₁ ih₂ => exact fun a => (ih₁ a).trans (ih₂ a)
  refine fun i hi => ⟨fun j hj => ?_, fun j hj => ?_⟩
  · exact (hsound.node i hi).view.ring_ext (hsound.node j hj).view
      (hsame i j (h.linked i hi j hj))
  · exact (hsame j i (h.linked j hj i hi) (addr j)).1 (hself j hj)

/-! ## Runs -/

theorem exec_append (events : List (Event ι)) (e : Event ι) :
    exec generateHash addr (events ++ [e]) =
      (exec generateHash addr events).bind fun s => s.step generateHash addr e := by
  unfold exec
  rw [List.foldlM_append]
  simp

include hinj hlocal in
theorem exec_sound {events : List (Event ι)} :
    ∀ {s : Membership ι}, exec generateHash addr events = some s →
      Sound generateHash addr s := by
  induction events using List.reverseRecOn with
  | nil =>
    intro s h
    cases h
    exact ⟨fun i hi => absurd hi List.not_mem_nil, fun k e m hm => absurd hm List.not_mem_nil⟩
  | append_singleton events e ih =>
    intro t h
    rw [exec_append] at h
    obtain ⟨s, hs, hst⟩ := Option.bind_eq_some_iff.1 h
    exact (ih hs).step hinj hlocal hst

/-- Every step of a run meets the condition. -/
def AllCover (generateHash : Hash) (addr : ι → String) (events : List (Event ι)) : Prop :=
  ∀ pre e post, events = pre ++ e :: post → ∀ s, exec generateHash addr pre = some s →
    s.Covers addr e

include hinj hlocal in
theorem exec_spreads {events : List (Event ι)} :
    AllCover generateHash addr events →
      ∀ {s : Membership ι}, exec generateHash addr events = some s → Spreads addr s := by
  induction events using List.reverseRecOn with
  | nil =>
    intro _ s h
    cases h
    exact ⟨fun i hi => absurd hi List.not_mem_nil, fun k e r ss hm => absurd hm List.not_mem_nil,
      fun i hi => absurd hi List.not_mem_nil, fun i hi => absurd hi List.not_mem_nil⟩
  | append_singleton events e ih =>
    intro hall t h
    rw [exec_append] at h
    obtain ⟨s, hs, hst⟩ := Option.bind_eq_some_iff.1 h
    have hprefix : AllCover generateHash addr events := fun pre e' post heq =>
      hall pre e' (post ++ [e]) (by rw [heq]; simp)
    have hcovers : s.Covers addr e := hall events e [] rfl s hs
    exact ((ih hprefix hs).step hinj hlocal (exec_sound hinj hlocal hs) hst hcovers).1

/-- No step of a run loses a server, and when every message has arrived all workers hold one ring,
with all of them on it. -/
def MembershipKept (generateHash : Hash) (addr : ι → String) (events : List (Event ι)) : Prop :=
  (∀ pre e post, events = pre ++ e :: post → ∀ s t, exec generateHash addr pre = some s →
    s.step generateHash addr e = some t → NoLoss s t) ∧
  ∀ pre post, events = pre ++ post → ∀ s, exec generateHash addr pre = some s →
    s.Quiet addr → s.Agreed addr

include hinj hlocal in
/-- **Membership is kept** in exactly the runs in which each BROADCAST_RING that arrives carries
all servers its receiver has. -/
theorem membership_kept_iff (events : List (Event ι)) :
    MembershipKept generateHash addr events ↔ AllCover generateHash addr events := by
  constructor
  · intro h pre e post heq s hs
    cases e with
    | start i => trivial
    | join i via => trivial
    | deliver i j =>
      intro ring servers rest hchannel
      have hsound := exec_sound hinj hlocal hs
      obtain ⟨-, hknown, hview⟩ := hsound.flight i (addr j) _ (hchannel ▸ List.mem_cons_self)
      have hj := started_of_known hinj hknown
      have hst : s.step generateHash addr (.deliver i j) = some ((s.leave i (addr j) rest).put j
          ((s.nodes j).onBroadcastRing generateHash (addr j) ring servers, [])) := by
        unfold Membership.step
        dsimp only
        rw [if_pos hj, hchannel]
        rfl
      have hkept := h.1 pre _ post heq s _ hs hst j hj
      rw [nodes_put_self, ((hsound.node j hj).onBroadcastRing (known_inj hinj) hview).2] at hkept
      exact hkept
  · intro h
    refine ⟨fun pre e post heq s t hs hst => ?_, fun pre post heq s hs hquiet => ?_⟩
    · have hpre : AllCover generateHash addr pre := fun pre' e' post' heq' =>
        h pre' e' (post' ++ e :: post) (by rw [heq, heq']; simp)
      exact ((exec_spreads hinj hlocal hpre hs).step hinj hlocal (exec_sound hinj hlocal hs) hst
        (h pre e post heq s hs)).2
    · have hpre : AllCover generateHash addr pre := fun pre' e' post' heq' =>
        h pre' e' (post' ++ post) (by rw [heq, heq']; simp)
      exact (exec_spreads hinj hlocal hpre hs).agreed (exec_sound hinj hlocal hs) hquiet

end Steps

/-- Three workers, with hashes in the order of their ports. -/
def sampleAddr (i : Fin 3) : String :=
  ["tcp://localhost:5600", "tcp://localhost:5601", "tcp://localhost:5602"].get i

def sampleHash (key : String) : Nat :=
  if key = "tcp://localhost:5600" then 10 else if key = "tcp://localhost:5601" then 20 else 30

theorem sampleHash_injective : Function.Injective (sampleHash ∘ sampleAddr) := by
  intro i j
  revert i j
  decide

theorem sampleAddr_local (i : Fin 3) : localEndpoint (sampleAddr i) = sampleAddr i := by
  revert i
  decide

/-- The second worker joins, and all messages arrive. -/
theorem membership_kept_iff_two :
    MembershipKept sampleHash sampleAddr [.start 0, .join 1 0, .deliver 1 0, .deliver 0 1] ↔
      AllCover sampleHash sampleAddr [.start 0, .join 1 0, .deliver 1 0, .deliver 0 1] :=
  membership_kept_iff sampleHash_injective sampleAddr_local _

/-- The third worker joins through the second, which has not heard from the first. -/
def overlappingJoins : List (Event (Fin 3)) :=
  [.start 0, .join 1 0, .join 2 1, .deliver 1 0, .deliver 2 1]

/-- Overlapping joins: the first worker loses the second one, and when all messages have arrived
the workers hold different rings. -/
theorem overlappingJoins_lose :
    (exec sampleHash sampleAddr
        (overlappingJoins ++ [.deliver 1 0, .deliver 0 1, .deliver 1 2])).map
      (fun s => (List.ofFn fun i => addresses (s.nodes i).ring,
        List.ofFn fun i => List.ofFn fun j => (s.channel i (sampleAddr j)).length)) =
      some ([["tcp://localhost:5600", "tcp://localhost:5602"],
        ["tcp://localhost:5600", "tcp://localhost:5601"],
        ["tcp://localhost:5600", "tcp://localhost:5602"]],
        [[0, 0, 0], [0, 0, 0], [0, 0, 0]]) ∧
    ¬ ∀ events, MembershipKept sampleHash sampleAddr events := by
  refine ⟨by decide, fun h => ?_⟩
  have hbefore : (exec sampleHash sampleAddr overlappingJoins).map
      (fun s => (decide (0 ∈ s.started), decide ("tcp://localhost:5601" ∈
        addresses (s.nodes 0).ring))) = some (true, true) := by decide
  have hafter : (exec sampleHash sampleAddr (overlappingJoins ++ [.deliver 1 0])).map
      (fun s => decide ("tcp://localhost:5601" ∈ addresses (s.nodes 0).ring)) = some false := by
    decide
  obtain ⟨s, hs, hon⟩ := Option.map_eq_some_iff.1 hbefore
  obtain ⟨t, ht, hoff⟩ := Option.map_eq_some_iff.1 hafter
  rw [Prod.mk.injEq] at hon
  rw [exec_append, hs] at ht
  have hloss := (h (overlappingJoins ++ [.deliver 1 0])).1 overlappingJoins (.deliver 1 0) [] rfl
    s t hs ht 0 (of_decide_eq_true hon.1)
  exact of_decide_eq_false hoff (hloss (of_decide_eq_true hon.2))

end Membership

end ShoppingApp
