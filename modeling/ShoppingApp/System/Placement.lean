import ShoppingApp.Verify.Clockwise
import ShoppingApp.Worker.MajWorker
import Mathlib.Data.List.Dedup

/-!
# Which workers a list is placed on

The loop of `distribute_work` walks on round the ring and stops when it comes back to a target
(`distributeLoop_eq`). So the workers responsible for a url are the first ones in the order in which
they are met from its hash on (`Clockwise`), which depends on the servers alone and not on how the
ring was built: workers that know the same servers agree (`distribute_work_clockwise`).
-/

namespace ShoppingApp

open ConsistentHashing (Hash Exact addServers)

namespace Worker

variable {generateHash : Hash}

/-- The servers, each once, as they are met going round the ring from `start` on. -/
structure Clockwise (generateHash : Hash) (servers : List String) (start : Nat)
    (order : List String) : Prop where
  mem : ∀ server, server ∈ order ↔ server ∈ servers
  met : order.Pairwise fun a b => Circle.Before start (generateHash a) (generateHash b)

namespace Clockwise

variable {servers servers' order order' : List String} {start : Nat}

theorem nodup (h : Clockwise generateHash servers start order) : order.Nodup :=
  h.met.imp fun hab heq => hab.ne (congrArg generateHash heq)

theorem length_eq (h : Clockwise generateHash servers start order) :
    order.length = servers.dedup.length := by
  have hperm : order.Perm servers.dedup :=
    (List.perm_ext_iff_of_nodup h.nodup servers.nodup_dedup).2 fun server => by
      rw [h.mem, List.mem_dedup]
  exact hperm.length_eq

/-- There is one such order for a set of servers. -/
theorem unique (h : Clockwise generateHash servers start order)
    (h' : Clockwise generateHash servers' start order')
    (hsame : ∀ server, server ∈ servers ↔ server ∈ servers') : order = order' := by
  have hirr : Std.Irrefl fun a b => Circle.Before start (generateHash a) (generateHash b) :=
    ⟨fun _ haa => haa.ne rfl⟩
  have hasymm : Std.Antisymm fun a b => Circle.Before start (generateHash a) (generateHash b) :=
    ⟨fun _ _ hab hba => absurd hab hba.asymm⟩
  refine h.met.eq_of_mem_iff h'.met fun server => ?_
  rw [h.mem, h'.mem, hsame]

end Clockwise

/-! ## The loop of distribute_work -/

variable {ch : ConsistentHashing}

theorem key_of_mem_turn (h : Exact generateHash ch) {start : Nat} {e : Nat × String}
    (he : e ∈ ch.ring.turn start) : e.2 ∈ ch.servers ∧ e.1 = generateHash e.2 :=
  (h.find e.1 e.2).1 ((SortedMap.find?_eq_some _).2 (SortedMap.mem_turn.1 he))

/-- The servers of an exact ring in the order of a turn. -/
theorem clockwise_turn (h : Exact generateHash ch) (start : Nat) :
    Clockwise generateHash ch.servers start ((ch.ring.turn start).map Prod.snd) where
  mem server := by
    rw [List.mem_map]
    constructor
    · rintro ⟨e, he, rfl⟩
      exact (key_of_mem_turn h he).1
    · intro hserver
      have hfind := (h.find _ server).2 ⟨hserver, rfl⟩
      exact ⟨_, SortedMap.mem_turn.2 ((SortedMap.find?_eq_some _).1 hfind), rfl⟩
  met := by
    refine List.pairwise_map.2 ((ch.ring.turn_pairwise start).imp_of_mem fun ha hb hab => ?_)
    rw [← (key_of_mem_turn h ha).2, ← (key_of_mem_turn h hb).2]
    exact hab

/-- **What the loop does**: it goes on from the target found last and takes the servers of the turn
one after another, as many as it has iterations or until it comes round. -/
theorem distributeLoop_eq (h : Exact generateHash ch) (hnames : ∀ server ∈ ch.servers, server ≠ "")
    {start : Nat} : ∀ (n : Nat) {before after : List (Nat × String)} {e : Nat × String},
      ch.ring.turn start = before ++ e :: after →
      distributeLoop generateHash ch n e.2 ((before ++ [e]).map Prod.snd) =
        ((ch.ring.turn start).map Prod.snd).take (before.length + 1 + n) := by
  intro n
  induction n with
  | zero =>
    intro before after e hturn
    have hcut : (before ++ e :: after).map Prod.snd =
        (before ++ [e]).map Prod.snd ++ after.map Prod.snd := by simp
    rw [hturn, distributeLoop, hcut, List.take_left']
    simp
  | succ n ih =>
    intro before after e hturn
    have hnodup := (clockwise_turn h start).nodup
    have hkey := (key_of_mem_turn h (hturn ▸ List.mem_append_right before List.mem_cons_self)).2
    have hrotate : ch.ring.turn (generateHash e.2) = e :: (after ++ before) := by
      rw [← hkey]
      exact SortedMap.turn_rotate hturn
    rw [distributeLoop, ConsistentHashing.getNextServer_eq hrotate]
    cases after with
    | nil =>
      -- the loop has come round: the next server is the first target
      have hround : ((([] ++ before).head?).getD e).2 ∈ (before ++ [e]).map Prod.snd := by
        cases before <;> simp
      rw [if_neg fun hnew => hnew.2 hround, hturn, List.take_of_length_le]
      simp
    | cons next after =>
      have hnext := key_of_mem_turn h
        (hturn ▸ List.mem_append_right before (List.mem_cons_of_mem _ List.mem_cons_self))
      rw [List.append_cons] at hturn
      have hnew : next.2 ∉ (before ++ [e]).map Prod.snd := by
        rw [hturn, List.map_append] at hnodup
        intro hmem
        exact (List.nodup_append.1 hnodup).2.2 _ hmem _ List.mem_cons_self rfl
      rw [List.cons_append, List.head?_cons, Option.getD_some,
        if_pos ⟨hnames next.2 hnext.1, hnew⟩]
      have hlast := ih hturn
      rw [List.map_append] at hlast
      refine hlast.trans (congrArg (List.take · _) ?_)
      rw [List.length_append, List.length_singleton]
      omega

theorem distribute_work_eq {w : Worker} (h : Exact generateHash w.ch)
    (hnames : ∀ server ∈ w.ch.servers, server ≠ "") (hne : w.ch.servers ≠ []) (url_list : String) :
    w.distribute_work generateHash url_list =
      ((w.ch.ring.turn (generateHash url_list)).map Prod.snd).take (w.numberOfReplicas + 1) := by
  have hclockwise := clockwise_turn h (generateHash url_list)
  cases hturn : w.ch.ring.turn (generateHash url_list) with
  | nil =>
    obtain ⟨server, hserver⟩ := List.exists_mem_of_ne_nil _ hne
    have hmem := (hclockwise.mem server).2 hserver
    rw [hturn] at hmem
    cases hmem
  | cons e rest =>
    have hfirst : w.ch.getServer generateHash url_list = e.2 := by
      rw [ConsistentHashing.getServer_eq, hturn]
      rfl
    have hturn_nil : w.ch.ring.turn (generateHash url_list) = [] ++ e :: rest := hturn
    have hloop := distributeLoop_eq h hnames w.numberOfReplicas hturn_nil
    unfold distribute_work
    dsimp only
    rw [hfirst, ← hturn, Nat.add_comm]
    simpa using hloop

/-! ## Agreement -/

/-- The worker's ring and servers are what adding the servers one after another makes. -/
structure Knows (generateHash : Hash) (w : Worker) (servers : List String) : Prop where
  ring : w.ch.ring = (addServers generateHash 1 servers).ring
  servers : w.ch.servers = (addServers generateHash 1 servers).servers

namespace Knows

variable {w : Worker} {servers : List String}

theorem mem (h : Knows generateHash w servers) (server : String) :
    server ∈ w.ch.servers ↔ server ∈ servers := by
  rw [h.servers, ConsistentHashing.mem_servers_addServers]

theorem exact (h : Knows generateHash w servers)
    (hinj : Set.InjOn generateHash {server | server ∈ servers}) : Exact generateHash w.ch := by
  have hadded : Exact generateHash (addServers generateHash 1 servers) :=
    ConsistentHashing.addServers_exact hinj
  refine ⟨?_, fun hash server => ?_⟩
  · rw [h.servers]
    exact hadded.nodup
  · rw [h.ring, h.servers]
    exact hadded.find hash server

/-- The workers responsible for a url are the first ones in the order in which they are met. -/
theorem placed (h : Knows generateHash w servers) (hne : servers ≠ [])
    (hnames : ∀ server ∈ servers, server ≠ "")
    (hinj : Set.InjOn generateHash {server | server ∈ servers}) (url_list : String) :
    ∃ order, Clockwise generateHash servers (generateHash url_list) order ∧
      w.distribute_work generateHash url_list = order.take (w.numberOfReplicas + 1) := by
  have hexact := h.exact hinj
  have hclockwise := clockwise_turn hexact (generateHash url_list)
  have hne' : w.ch.servers ≠ [] := by
    obtain ⟨server, hserver⟩ := List.exists_mem_of_ne_nil _ hne
    exact List.ne_nil_of_mem ((h.mem server).2 hserver)
  refine ⟨_, ⟨fun server => ?_, hclockwise.met⟩, distribute_work_eq hexact ?_ hne' url_list⟩
  · rw [hclockwise.mem, h.mem]
  · exact fun server hserver => hnames server ((h.mem server).1 hserver)

end Knows

/-- **Workers agree on where a list is placed.** With a hash that keeps the servers apart, the
workers responsible for a url are the first servers met from its hash on, as many as there are
replicas and one more or all if there are fewer, all different; and they are the same for every
worker that knows the same servers, in whatever order they were added. -/
theorem distribute_work_clockwise {servers : List String} (hne : servers ≠ [])
    (hnames : ∀ server ∈ servers, server ≠ "")
    (hinj : Set.InjOn generateHash {server | server ∈ servers}) {w : Worker}
    (hw : Knows generateHash w servers) (url_list : String) :
    (∃ order, Clockwise generateHash servers (generateHash url_list) order ∧
        w.distribute_work generateHash url_list = order.take (w.numberOfReplicas + 1)) ∧
      (w.distribute_work generateHash url_list).length =
        min servers.dedup.length (w.numberOfReplicas + 1) ∧
      (w.distribute_work generateHash url_list).Nodup ∧
      ∀ (servers' : List String) (w' : Worker), (∀ server, server ∈ servers' ↔ server ∈ servers) →
        Knows generateHash w' servers' → w'.numberOfReplicas = w.numberOfReplicas →
        w'.distribute_work generateHash url_list = w.distribute_work generateHash url_list := by
  obtain ⟨order, horder, htargets⟩ := hw.placed hne hnames hinj url_list
  refine ⟨⟨order, horder, htargets⟩, ?_, ?_, fun servers' w' hsame hw' hreplicas => ?_⟩
  · rw [htargets, List.length_take, horder.length_eq, Nat.min_comm]
  · rw [htargets]
    exact horder.nodup.sublist (List.take_sublist _ _)
  · have hne' : servers' ≠ [] := by
      obtain ⟨server, hserver⟩ := List.exists_mem_of_ne_nil _ hne
      exact List.ne_nil_of_mem ((hsame server).2 hserver)
    obtain ⟨order', horder', htargets'⟩ := hw'.placed hne'
      (fun server hserver => hnames server ((hsame server).1 hserver))
      (hinj.mono fun server => (hsame server).1) url_list
    rw [htargets', htargets, horder'.unique horder hsame, hreplicas]

/-- A worker that knows the servers, with two replicas. -/
def ringWorker (servers : List String) : Worker :=
  ⟨"tcp://localhost:5600", "w1", "", addServers ConsistentHashing.textHash 1 servers, ∅, 2⟩

/-- More replicas than other servers, and servers added in another order and twice. -/
theorem distribute_work_clockwise_two :
    (ringWorker ["tcp://localhost:5600", "tcp://localhost:5601"]).distribute_work
        ConsistentHashing.textHash "msla-user1" =
        ["tcp://localhost:5600", "tcp://localhost:5601"] ∧
      (ringWorker ["tcp://localhost:5601", "tcp://localhost:5600",
        "tcp://localhost:5601"]).distribute_work ConsistentHashing.textHash "msla-user1" =
        ["tcp://localhost:5600", "tcp://localhost:5601"] := by
  have hknows : Knows ConsistentHashing.textHash
      (ringWorker ["tcp://localhost:5600", "tcp://localhost:5601"])
      ["tcp://localhost:5600", "tcp://localhost:5601"] := ⟨rfl, rfl⟩
  have hplaced := distribute_work_clockwise (by decide) (by decide)
    ConsistentHashing.textHash_injective.injOn hknows "msla-user1"
  have hfirst : (ringWorker ["tcp://localhost:5600", "tcp://localhost:5601"]).distribute_work
      ConsistentHashing.textHash "msla-user1" =
      ["tcp://localhost:5600", "tcp://localhost:5601"] := by decide +kernel
  have hsame : ∀ server, server ∈ ["tcp://localhost:5601", "tcp://localhost:5600",
      "tcp://localhost:5601"] ↔ server ∈ ["tcp://localhost:5600", "tcp://localhost:5601"] := by
    intro server
    simp only [List.mem_cons, List.not_mem_nil, or_false]
    tauto
  exact ⟨hfirst, (hplaced.2.2.2 _ (ringWorker _) hsame ⟨rfl, rfl⟩ rfl).trans hfirst⟩

end Worker

end ShoppingApp
