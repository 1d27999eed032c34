import ShoppingApp.Server.ConsistentHashing
import Mathlib.Data.List.Induction
import Mathlib.Data.List.TakeDrop
import Mathlib.Data.Nat.Digits.Defs

/-!
# What is on the ring

`addServer` enters a server under the hash of its name, `removeServer` erases the hashes of the
numbered names. With a hash that keeps names apart the two never meet: a server that is removed
stays on the ring, and the ring is that of the servers exactly as long as no server is removed
that is there (`ring_exact_iff`).
-/

namespace ShoppingApp

namespace ConsistentHashing

variable {generateHash : Hash}

/-! ## Lookups -/

theorem entriesFrom_subset (ch : ConsistentHashing) (key : String) :
    ch.entriesFrom generateHash key ⊆ ch.ring.entries := by
  unfold entriesFrom
  have hsub : (ch.ring.lowerBound (generateHash key)).2 ⊆ ch.ring.entries := by
    unfold SortedMap.lowerBound
    rw [List.span_eq_takeWhile_dropWhile]
    exact (List.dropWhile_sublist _).subset
  split
  · exact List.Subset.refl _
  · exact hsub

theorem entriesFrom_ne_nil {ch : ConsistentHashing} (h : ch.ring.entries ≠ []) (key : String) :
    ch.entriesFrom generateHash key ≠ [] := by
  unfold entriesFrom
  split
  · exact h
  · rename_i hne
    exact hne

/-- The server found for a key is on the ring. -/
theorem getServer_mem {ch : ConsistentHashing} (h : ch.ring.entries ≠ []) (key : String) :
    ch.getServer generateHash key ∈ ch.ring.entries.map Prod.snd := by
  unfold getServer
  have hsub : ch.entriesFrom generateHash key ⊆ ch.ring.entries := entriesFrom_subset ch key
  cases hfrom : ch.entriesFrom generateHash key with
  | nil => exact absurd hfrom (entriesFrom_ne_nil h key)
  | cons e es =>
    rw [hfrom] at hsub
    exact List.mem_map_of_mem (hsub List.mem_cons_self)

theorem getNextServer_mem {ch : ConsistentHashing} (h : ch.ring.entries ≠ []) (key : String) :
    ch.getNextServer generateHash key ∈ ch.ring.entries.map Prod.snd := by
  unfold getNextServer
  have hsub : ch.entriesFrom generateHash key ⊆ ch.ring.entries := entriesFrom_subset ch key
  split
  · rename_i hnil
    exact absurd hnil (entriesFrom_ne_nil h key)
  · rename_i e _ hfrom
    rw [hfrom] at hsub
    exact List.mem_map_of_mem (hsub (List.mem_cons_of_mem _ List.mem_cons_self))
  · cases hring : ch.ring.entries with
    | nil => exact absurd hring h
    | cons e es => exact List.mem_map_of_mem List.mem_cons_self

theorem getPreviousServer_mem {ch : ConsistentHashing} (h : ch.ring.entries ≠ []) (key : String) :
    ch.getPreviousServer generateHash key ∈ ch.ring.entries.map Prod.snd := by
  have hsub : (ch.ring.lowerBound (generateHash key)).1 ⊆ ch.ring.entries := by
    unfold SortedMap.lowerBound
    rw [List.span_eq_takeWhile_dropWhile]
    exact (List.takeWhile_sublist _).subset
  unfold getPreviousServer
  dsimp only
  split
  · rename_i e hlast
    have hmem := List.mem_of_getLast? hlast
    split_ifs at hmem with hend
    · cases hmem
    · exact List.mem_map_of_mem (hsub hmem)
  · split
    · rename_i e hlast
      exact List.mem_map_of_mem (List.mem_of_getLast? hlast)
    · rename_i hlast
      exact absurd (List.getLast?_eq_none_iff.1 hlast) h

/-- The servers found for a key; none are found on an empty ring. -/
def lookups (generateHash : Hash) (ch : ConsistentHashing) (key : String) : List String :=
  if ch.ring.entries = [] then []
  else [ch.getServer generateHash key, ch.getNextServer generateHash key,
    ch.getPreviousServer generateHash key]

theorem lookups_subset (ch : ConsistentHashing) (key : String) :
    ch.lookups generateHash key ⊆ ch.ring.entries.map Prod.snd := by
  unfold lookups
  split_ifs with hring
  · exact List.nil_subset _
  · intro server hserver
    simp only [List.mem_cons, List.not_mem_nil, or_false] at hserver
    obtain rfl | rfl | rfl := hserver
    · exact getServer_mem hring key
    · exact getNextServer_mem hring key
    · exact getPreviousServer_mem hring key

/-! ## Calls -/

inductive Call
  | addServer (server : String)
  | removeServer (server : String)
  deriving DecidableEq

def call (generateHash : Hash) (ch : ConsistentHashing) : Call → ConsistentHashing
  | .addServer server => ch.addServer generateHash server
  | .removeServer server => ch.removeServer generateHash server

/-- What a sequence of calls makes of a new ring. -/
def calls (generateHash : Hash) (virtualNodes : Nat) (cs : List Call) : ConsistentHashing :=
  cs.foldl (call generateHash) (new virtualNodes)

theorem calls_append (virtualNodes : Nat) (cs : List Call) (c : Call) :
    calls generateHash virtualNodes (cs ++ [c]) =
      (calls generateHash virtualNodes cs).call generateHash c := by
  unfold calls
  rw [List.foldl_append]
  rfl

/-- The servers are distinct, and the ring has one entry for each, under its hash. -/
structure Exact (generateHash : Hash) (ch : ConsistentHashing) : Prop where
  nodup : ch.servers.Nodup
  find : ∀ hash server, ch.ring.find? hash = some server ↔
    server ∈ ch.servers ∧ hash = generateHash server

/-- What is claimed of a sequence of calls: the ring is that of the servers after each of them, a
removed server is not found until it is added again, and the others stay. -/
structure Keeps (generateHash : Hash) (virtualNodes : Nat) (cs : List Call) : Prop where
  exact : ∀ past rest, cs = past ++ rest → Exact generateHash (calls generateHash virtualNodes past)
  gone : ∀ past server since rest, cs = (past ++ [.removeServer server]) ++ since ++ rest →
    .addServer server ∉ since → ∀ key, server ∉
      (calls generateHash virtualNodes (past ++ [.removeServer server] ++ since)).lookups
        generateHash key
  others : ∀ past server rest, cs = (past ++ [.removeServer server]) ++ rest → ∀ other ≠ server,
    (calls generateHash virtualNodes past).ring.find? (generateHash other) = some other →
    (calls generateHash virtualNodes (past ++ [.removeServer server])).ring.find?
      (generateHash other) = some other

/-- No call removes a server that is there. -/
def RemovesNone (generateHash : Hash) (virtualNodes : Nat) (cs : List Call) : Prop :=
  ∀ past server rest, cs = (past ++ [.removeServer server]) ++ rest →
    server ∉ (calls generateHash virtualNodes past).servers

variable {ch : ConsistentHashing}

theorem Exact.new (virtualNodes : Nat) : Exact generateHash (new virtualNodes) where
  nodup := List.nodup_nil
  find hash server := by simp [ConsistentHashing.new]

theorem Exact.lookups_subset (h : Exact generateHash ch) (key : String) :
    ch.lookups generateHash key ⊆ ch.servers := by
  intro server hserver
  obtain ⟨e, he, rfl⟩ := List.mem_map.1 (ConsistentHashing.lookups_subset ch key hserver)
  exact ((h.find e.1 e.2).1 ((SortedMap.find?_eq_some _).2 he)).1

theorem Exact.addServer (h : Exact generateHash ch) {server : String}
    (hinj : ∀ other ∈ ch.servers, generateHash other = generateHash server → other = server) :
    Exact generateHash (ch.addServer generateHash server) := by
  unfold ConsistentHashing.addServer
  split_ifs with hknown
  · exact h
  · refine ⟨?_, ?_⟩
    · refine List.nodup_append.2 ⟨h.nodup, List.nodup_singleton _, ?_⟩
      rintro other hother _ hmem rfl
      rw [List.mem_singleton] at hmem
      exact hknown (hmem ▸ hother)
    · intro hash other
      dsimp only
      rw [SortedMap.find?_set, List.mem_append, List.mem_singleton]
      split_ifs with hhash
      · constructor
        · intro heq
          cases heq
          exact ⟨.inr rfl, hhash⟩
        · rintro ⟨hmem | rfl, hother⟩
          · rw [hinj other hmem (hother.symm.trans hhash)]
          · rfl
      · rw [h.find]
        constructor
        · rintro ⟨hmem, rfl⟩
          exact ⟨.inl hmem, rfl⟩
        · rintro ⟨hmem | rfl, hother⟩
          · exact ⟨hmem, hother⟩
          · exact absurd hother hhash

theorem removeServer_unknown {server : String} (h : server ∉ ch.servers) :
    ch.removeServer generateHash server = ch := by
  unfold removeServer
  rw [if_pos h]

theorem mem_servers_addServer {server other : String} :
    other ∈ (ch.addServer generateHash server).servers ↔ other = server ∨ other ∈ ch.servers := by
  unfold addServer
  split_ifs with hknown
  · constructor
    · exact .inr
    · rintro (rfl | hmem)
      · exact hknown
      · exact hmem
  · rw [List.mem_append, List.mem_singleton, or_comm]

theorem servers_removeServer (server : String) :
    (ch.removeServer generateHash server).servers = ch.servers.erase server := by
  by_cases hknown : server ∈ ch.servers
  · simp [removeServer, hknown]
  · rw [removeServer_unknown hknown, List.erase_of_not_mem hknown]

/-! ## Removing a server -/

theorem numbered_ne (server : String) (i : Nat) : server ++ toString i ≠ server := by
  intro h
  have hlen : (server ++ toString i).length = server.length := by rw [h]
  rw [String.length_append] at hlen
  have hpos : 0 < (toString i).length := Nat.length_repr_pos
  omega

/-- A removed server keeps its entry: none of the numbered names has its hash. -/
theorem find?_removeServer (hinj : Function.Injective generateHash) (ch : ConsistentHashing)
    (server : String) :
    (ch.removeServer generateHash server).ring.find? (generateHash server) =
      ch.ring.find? (generateHash server) := by
  by_cases hknown : server ∈ ch.servers
  · unfold removeServer
    have hnumbered : generateHash server ∉
        (List.range ch.numberOfVirtualNodes).map fun i => generateHash (server ++ toString i) := by
      intro hmem
      obtain ⟨i, -, hi⟩ := List.mem_map.1 hmem
      exact numbered_ne server i (hinj hi)
    rw [if_neg (not_not_intro hknown)]
    exact (SortedMap.find?_foldl_erase _ _ _ _).trans (if_neg hnumbered)
  · rw [removeServer_unknown hknown]

theorem not_exact_removeServer (hinj : Function.Injective generateHash)
    (h : Exact generateHash ch) {server : String} (hknown : server ∈ ch.servers) :
    ¬ Exact generateHash (ch.removeServer generateHash server) := by
  intro hexact
  have hfind := (h.find _ server).2 ⟨hknown, rfl⟩
  rw [← find?_removeServer hinj, hexact.find] at hfind
  have hmem := hfind.1
  rw [servers_removeServer, List.Nodup.mem_erase_iff h.nodup] at hmem
  exact hmem.1 rfl

/-! ## Sequences of calls -/

variable {virtualNodes : Nat} {cs : List Call}

/-- As long as none that is there is removed, the ring is exact. -/
theorem RemovesNone.exact (hinj : Function.Injective generateHash)
    (h : RemovesNone generateHash virtualNodes cs) : ∀ past rest, cs = past ++ rest →
    Exact generateHash (calls generateHash virtualNodes past) := by
  intro past
  induction past using List.reverseRecOn with
  | nil => intro rest _; exact Exact.new virtualNodes
  | append_singleton past c ih =>
    intro rest hcs
    have hpast := ih (c :: rest) (by rw [hcs, List.append_assoc]; rfl)
    rw [calls_append]
    cases c with
    | addServer server => exact hpast.addServer fun _ _ heq => hinj heq
    | removeServer server =>
      change Exact generateHash (removeServer generateHash _ server)
      rw [removeServer_unknown (h past server rest hcs)]
      exact hpast

/-- A server that is not there comes back with `addServer` only. -/
theorem not_mem_servers_of_since {server : String} (past : List Call)
    (h : server ∉ (calls generateHash virtualNodes past).servers) : ∀ since : List Call,
    .addServer server ∉ since →
    server ∉ (calls generateHash virtualNodes (past ++ since)).servers := by
  intro since
  induction since using List.reverseRecOn with
  | nil => intro _; rwa [List.append_nil]
  | append_singleton since c ih =>
    intro hadd
    have hsince := ih fun hmem => hadd (List.mem_append_left _ hmem)
    rw [← List.append_assoc, calls_append]
    cases c with
    | addServer other =>
      intro hmem
      rcases mem_servers_addServer.1 hmem with rfl | hmem
      · exact hadd (List.mem_append_right _ (List.mem_singleton_self _))
      · exact hsince hmem
    | removeServer other =>
      intro hmem
      rw [call, servers_removeServer] at hmem
      exact hsince (List.mem_of_mem_erase hmem)

theorem RemovesNone.calls_removeServer (h : RemovesNone generateHash virtualNodes cs)
    {past rest : List Call} {server : String} (hcs : cs = (past ++ [.removeServer server]) ++ rest) :
    calls generateHash virtualNodes (past ++ [.removeServer server]) =
      calls generateHash virtualNodes past := by
  rw [calls_append]
  exact removeServer_unknown (h past server rest hcs)

/-- With a hash without collisions, a sequence of calls keeps the ring of exactly the servers if
and only if it never removes a server that is there. -/
theorem ring_exact_iff (hinj : Function.Injective generateHash) :
    Keeps generateHash virtualNodes cs ↔ RemovesNone generateHash virtualNodes cs := by
  constructor
  · intro h past server rest hcs hknown
    have hpast := h.exact past _ (hcs.trans (List.append_assoc ..))
    have hafter := h.exact _ rest hcs
    rw [calls_append] at hafter
    exact not_exact_removeServer hinj hpast hknown hafter
  · intro h
    refine ⟨h.exact hinj, ?_, ?_⟩
    · intro past server since rest hcs hadd key hfound
      have hknown : server ∉ (calls generateHash virtualNodes
          (past ++ [.removeServer server])).servers := by
        have hrest := hcs.trans (List.append_assoc ..)
        rw [h.calls_removeServer hrest]
        exact h past server _ hrest
      exact not_mem_servers_of_since _ hknown since hadd
        ((h.exact hinj _ rest hcs).lookups_subset key hfound)
    · intro past server rest hcs other _ hfind
      rwa [h.calls_removeServer hcs]

/-- A hash without collisions: a name as a number whose digits are its characters. -/
def textHash (name : String) : Nat := Nat.ofDigits 1114113 (name.toList.map fun c => c.toNat + 1)

theorem textHash_injective : Function.Injective textHash := by
  have hdigits : ∀ name : String, Nat.digits 1114113 (textHash name) =
      name.toList.map fun c => c.toNat + 1 := by
    intro name
    refine Nat.digits_ofDigits 1114113 (by omega) _ ?_ ?_
    · intro d hd
      obtain ⟨c, -, rfl⟩ := List.mem_map.1 hd
      have hvalid : c.toNat < 0xd800 ∨ 0xdfff < c.toNat ∧ c.toNat < 0x110000 := c.valid
      omega
    · intro hne
      obtain ⟨c, -, hc⟩ := List.mem_map.1 (List.getLast_mem hne)
      omega
  intro a b hab
  have hchars := hdigits a
  rw [hab, hdigits b] at hchars
  refine String.toList_injective (List.map_injective_iff.2 ?_ hchars.symm)
  intro c d hcd
  exact Char.toNat_inj.1 (Nat.succ_injective hcd)

theorem ring_exact_iff_unknown :
    Keeps textHash 2 [.addServer "tcp://localhost:5600", .removeServer "tcp://localhost:5601"] := by
  refine (ring_exact_iff textHash_injective).2 ?_
  intro past server rest hcs
  rcases past with _ | ⟨c, _ | ⟨d, past⟩⟩
  · simp at hcs
  · simp only [List.cons_append, List.nil_append, List.cons.injEq, Call.removeServer.injEq] at hcs
    obtain ⟨rfl, rfl, -⟩ := hcs
    decide +kernel
  · simp at hcs

/-- The removed server is still on the ring, and found. -/
theorem removed_server_found :
    let cs := [.addServer "tcp://localhost:5600", .removeServer "tcp://localhost:5600"]
    (calls textHash 1 cs).servers = [] ∧
      (calls textHash 1 cs).getServer textHash "msla-user1" = "tcp://localhost:5600" ∧
      ¬ Keeps textHash 1 cs := by
  refine ⟨by decide +kernel, by decide +kernel, fun h => ?_⟩
  have hgone := h.gone [.addServer "tcp://localhost:5600"] "tcp://localhost:5600" [] [] rfl
    List.not_mem_nil "msla-user1"
  exact hgone (by decide +kernel)

end ConsistentHashing

end ShoppingApp
