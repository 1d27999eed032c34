import ShoppingApp.Lib.Circle
import ShoppingApp.Verify.ConsistentHashing

/-!
# Lookups as turns round the ring

`getServer` finds the first server of the turn from the hash of a key, `getNextServer` the one after
it, coming back to the first one. So a server that is added takes over the keys on the arc up to its
hash, and the servers of all other keys stay (`getServer_addServer`).
-/

namespace ShoppingApp

namespace ConsistentHashing

open Circle

variable {generateHash : Hash} {ch : ConsistentHashing}

/-! ## Lookups -/

theorem getServer_eq (ch : ConsistentHashing) (key : String) :
    ch.getServer generateHash key =
      ((ch.ring.turn (generateHash key)).head?.map Prod.snd).getD "" := by
  have hcut := (ch.ring.lowerBound_spec (generateHash key)).1
  unfold getServer entriesFrom SortedMap.turn
  cases habove : (ch.ring.lowerBound (generateHash key)).2 with
  | nil =>
    rw [habove, List.append_nil] at hcut
    rw [List.nil_append, ← hcut]
    cases ch.ring.entries <;> rfl
  | cons e above => rfl

/-- After the first server of a turn comes the second one, or the first one again. -/
theorem getNextServer_eq {key : String} {e : Nat × String} {rest : List (Nat × String)}
    (h : ch.ring.turn (generateHash key) = e :: rest) :
    ch.getNextServer generateHash key = (rest.head?.getD e).2 := by
  have hcut := (ch.ring.lowerBound_spec (generateHash key)).1
  unfold SortedMap.turn at h
  unfold getNextServer entriesFrom
  cases habove : (ch.ring.lowerBound (generateHash key)).2 with
  | nil =>
    rw [habove, List.append_nil] at hcut
    rw [habove, List.nil_append, ← hcut] at h
    rw [h]
    cases rest <;> rfl
  | cons first above =>
    rw [habove, List.cons_append, List.cons.injEq] at h
    obtain ⟨rfl, rfl⟩ := h
    cases above with
    | nil =>
      -- behind the last entry of the ring comes its first one
      rw [habove] at hcut
      rw [hcut]
      cases (ch.ring.lowerBound (generateHash key)).1 <;> rfl
    | cons second above => rfl

/-! ## Rings made by adding servers -/

/-- A new ring to which servers are added, one after another. -/
def addServers (generateHash : Hash) (virtualNodes : Nat) (servers : List String) :
    ConsistentHashing :=
  servers.foldl (addServer generateHash) (new virtualNodes)

variable {virtualNodes : Nat} {servers : List String}

theorem addServers_append (server : String) :
    addServers generateHash virtualNodes (servers ++ [server]) =
      (addServers generateHash virtualNodes servers).addServer generateHash server := by
  unfold addServers
  rw [List.foldl_append]
  rfl

theorem mem_servers_addServers {server : String} :
    server ∈ (addServers generateHash virtualNodes servers).servers ↔ server ∈ servers := by
  induction servers using List.reverseRecOn with
  | nil => exact Iff.rfl
  | append_singleton servers other ih =>
    rw [addServers_append, mem_servers_addServer, ih, List.mem_append, List.mem_singleton, or_comm]

/-- With a hash that keeps the servers apart the ring is exact. -/
theorem addServers_exact (hinj : Set.InjOn generateHash {server | server ∈ servers}) :
    Exact generateHash (addServers generateHash virtualNodes servers) := by
  induction servers using List.reverseRecOn with
  | nil => exact Exact.new virtualNodes
  | append_singleton servers server ih =>
    have hsub : {other | other ∈ servers} ⊆ {other | other ∈ servers ++ [server]} :=
      fun _ hother => List.mem_append_left _ hother
    rw [addServers_append]
    refine (ih (hinj.mono hsub)).addServer fun other hother heq => ?_
    rw [mem_servers_addServers] at hother
    exact hinj (hsub hother) (List.mem_append_right _ (List.mem_singleton_self server)) heq

/-- Whatever the hash, only servers that were added are on the ring. -/
theorem addServers_known {hash : Nat} {server : String}
    (h : (addServers generateHash virtualNodes servers).ring.find? hash = some server) :
    server ∈ servers := by
  induction servers using List.reverseRecOn with
  | nil => cases h
  | append_singleton servers other ih =>
    rw [addServers_append, addServer] at h
    split_ifs at h
    · exact List.mem_append_left _ (ih h)
    · dsimp only at h
      rw [SortedMap.find?_set] at h
      split_ifs at h
      · cases h
        exact List.mem_append_right _ (List.mem_singleton_self _)
      · exact List.mem_append_left _ (ih h)

/-! ## A server more -/

theorem addServer_new_ring {server : String} (h : server ∉ ch.servers) :
    (ch.addServer generateHash server).ring = ch.ring.set (generateHash server) server := by
  rw [addServer, if_neg h]

/-- **A new server moves only the keys it takes over**: afterwards a key has the new server or the
one it had, and it has the new one exactly if its hash is on the arc that ends at the new hash and
starts just after the previous one. -/
theorem getServer_addServer (virtualNodes : Nat) (servers : List String) (server key : String) :
    (((addServers generateHash virtualNodes servers).addServer generateHash server).getServer
          generateHash key = server ∨
        ((addServers generateHash virtualNodes servers).addServer generateHash server).getServer
          generateHash key =
            (addServers generateHash virtualNodes servers).getServer generateHash key) ∧
      (server ∉ (addServers generateHash virtualNodes servers).servers →
        (addServers generateHash virtualNodes servers).ring.find? (generateHash server) = none →
        (((addServers generateHash virtualNodes servers).addServer generateHash server).getServer
            generateHash key = server ↔
          TakesOver (addServers generateHash virtualNodes servers).ring.keys
            (generateHash server) (generateHash key))) := by
  set ch := addServers generateHash virtualNodes servers
  constructor
  · by_cases hknown : server ∈ ch.servers
    · rw [addServer, if_pos hknown]
      exact .inr rfl
    · rw [getServer_eq, getServer_eq, addServer_new_ring hknown]
      rcases ch.ring.head?_turn_set (generateHash server) (generateHash key) server with hnew | hold
      · rw [hnew]
        exact .inl rfl
      · rw [hold]
        exact .inr rfl
  · intro hnew hfree
    rw [← SortedMap.head?_turn_set_new hfree _ server, getServer_eq, addServer_new_ring hnew]
    constructor
    · intro hserver
      rcases ch.ring.head?_turn_set (generateHash server) (generateHash key) server with hhead | hold
      · exact hhead
      · cases hhead : (ch.ring.turn (generateHash key)).head? with
        | none =>
          -- a ring with a server is not empty
          have hmem : (generateHash server, server) ∈
              (ch.ring.set (generateHash server) server).turn (generateHash key) :=
            SortedMap.mem_turn.2 ((SortedMap.find?_eq_some _).1 (SortedMap.find?_set_self _ _ _))
          rw [List.head?_eq_none_iff.1 (hold.trans hhead)] at hmem
          cases hmem
        | some e =>
          rw [hold, hhead] at hserver
          obtain rfl : e.2 = server := hserver
          have hentry := (SortedMap.head?_turn_eq_some.1 hhead).1
          refine absurd ?_ hnew
          exact mem_servers_addServers.2 (addServers_known ((SortedMap.find?_eq_some _).2 hentry))
    · intro hhead
      rw [hhead]
      rfl

/-- The new server has the smallest hash; the key's is above the largest. -/
theorem getServer_addServer_wraps :
    let ch := addServers String.length 1 ["tcp://localhost:5600", "tcp://localhost:15601"]
    ch.getServer String.length "msla-06caa5f-aeed-4b81-b045" = "tcp://localhost:5600" ∧
      (ch.addServer String.length "tcp://host:5602").getServer String.length
        "msla-06caa5f-aeed-4b81-b045" = "tcp://host:5602" :=
  ⟨by decide +kernel, ((getServer_addServer 1 _ "tcp://host:5602" "msla-06caa5f-aeed-4b81-b045").2
    (by decide +kernel) (by decide +kernel)).2 (by decide +kernel)⟩

end ConsistentHashing

end ShoppingApp
