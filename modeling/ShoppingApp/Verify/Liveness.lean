import ShoppingApp.Worker.Liveness

/-!
# A worker whose broker is silent

Two idle iterations take the counter from three to zero without meeting the condition that connects
again, and the third one takes it below zero. What the loop should do (`Counts`) it does as long as
no third iteration comes that counts down (`counts_iff`); until then it never connects by itself
(`idle_never_connects`).
-/

namespace ShoppingApp

namespace Worker

variable {its : List Iteration} {it : Iteration} {n : Nat}

/-- No message at all. -/
def Iteration.Idle (it : Iteration) : Prop := it.broker = none ∧ it.peer = none

/-- What the loop is meant to do: the counter is never decremented at zero, and as many idle
iterations in a row as it starts from connect to the broker again. -/
structure Counts (its : List Iteration) : Prop where
  positive : .decrement 0 ∉ actions n_heartbeat_liveness its
  reconnects : ∀ past stretch rest, its = past ++ stretch ++ rest →
    stretch.length = n_heartbeat_liveness.toNat → (∀ it ∈ stretch, it.Idle) →
      .connect_to_broker ∈ actions (livenessAfter n_heartbeat_liveness past) stretch

/-- How many iterations without a message from another worker there have been since the last
message from the broker, from `n` before the iteration. The iteration of that message is one of
them, unless it was a REQUEST. -/
def Iteration.missed (n : Nat) (it : Iteration) : Nat :=
  let n := if it.broker.isSome then 0 else n
  if it.broker = some k_mdpw_request ∨ it.peer.isSome then n else n + 1

def missed (n : Nat) (its : List Iteration) : Nat := its.foldl Iteration.missed n

/-- The counter by that number. -/
def count : Nat → UInt64
  | 0 => 3
  | 1 => 1
  | _ => 0

theorem countDown_count : ∀ {n : Nat}, n < 2 →
    (countDown (count n)).1 = count (n + 1) ∧ .decrement 0 ∉ (countDown (count n)).2 ∧
      .connect_to_broker ∉ (countDown (count n)).2
  | 0, _ => by decide
  | 1, _ => by decide
  | n + 2, h => absurd h (by omega)

/-- Whether an iteration counts down is up to the other workers. -/
theorem onPeer_count {peer : Option String} (h : (if peer.isSome then n else n + 1) ≤ 2) :
    (onPeer (count n) peer).1 = count (if peer.isSome then n else n + 1) ∧
      .decrement 0 ∉ (onPeer (count n) peer).2 ∧ .connect_to_broker ∉ (onPeer (count n) peer).2 := by
  cases peer with
  | some command => exact ⟨rfl, List.not_mem_nil, List.not_mem_nil⟩
  | none => exact countDown_count (Nat.lt_of_succ_le h)

theorem missed_silent (peer : Option String) :
    (Iteration.mk none peer).missed n = if peer.isSome then n else n + 1 := by
  simp [Iteration.missed]

theorem missed_request (peer : Option String) :
    (Iteration.mk (some k_mdpw_request) peer).missed n = 0 := by
  simp [Iteration.missed]

theorem missed_command {command : String} (h : command ≠ k_mdpw_request) (peer : Option String) :
    (Iteration.mk (some command) peer).missed n = if peer.isSome then 0 else 0 + 1 := by
  simp [Iteration.missed, h]

/-- An iteration after which there is no third one that counts down. -/
theorem iteration_count (h : it.missed n ≤ 2) :
    (iteration (count n) it).1 = count (it.missed n) ∧
      .decrement 0 ∉ (iteration (count n) it).2 := by
  obtain ⟨_ | command, peer⟩ := it
  · rw [missed_silent] at h ⊢
    obtain ⟨hcount, hpositive, -⟩ := onPeer_count h
    exact ⟨hcount, hpositive⟩
  · unfold iteration
    dsimp only
    split_ifs with hrequest hheartbeat hdisconnect
    · rw [hrequest, missed_request]
      exact ⟨rfl, List.not_mem_nil⟩
    all_goals
      rw [missed_command hrequest] at h ⊢
      obtain ⟨hcount, hpositive, -⟩ := onPeer_count h
    · exact ⟨hcount, hpositive⟩
    · exact ⟨hcount, fun hmem => hpositive (List.mem_of_ne_of_mem Action.noConfusion hmem)⟩
    · exact ⟨hcount, hpositive⟩

/-- The third one that counts down does so from zero. -/
theorem iteration_overdue (hn : n ≤ 2) (h : 2 < it.missed n) :
    .decrement 0 ∈ (iteration (count n) it).2 := by
  obtain ⟨_ | command, peer⟩ := it
  · rw [missed_silent] at h
    cases peer with
    | some command => exact absurd hn (not_le.2 h)
    | none =>
      obtain rfl : n = 2 := le_antisymm hn (Nat.le_of_lt_succ h)
      decide
  · -- the message has just set the counter back
    by_cases hrequest : command = k_mdpw_request
    · rw [hrequest, missed_request] at h
      omega
    · rw [missed_command hrequest] at h
      split_ifs at h <;> omega

/-- The counter is not decremented at zero as long as no third iteration counts down. -/
theorem decrement_zero_iff : ∀ {its : List Iteration} {n : Nat}, n ≤ 2 →
    (.decrement 0 ∉ actions (count n) its ↔ ∀ past, past <+: its → missed n past ≤ 2)
  | [], n, hn => by
    refine ⟨fun _ past hpast => ?_, fun _ => List.not_mem_nil⟩
    rw [List.prefix_nil.1 hpast]
    exact hn
  | it :: its, n, hn => by
    rw [actions, List.mem_append, not_or]
    by_cases h : it.missed n ≤ 2
    · obtain ⟨hcount, hpositive⟩ := iteration_count h
      rw [hcount, decrement_zero_iff h]
      constructor
      · rintro ⟨-, hrest⟩ past hpast
        rcases List.prefix_cons_iff.1 hpast with rfl | ⟨past', rfl, hpast'⟩
        · exact hn
        · exact hrest past' hpast'
      · exact fun hall => ⟨hpositive, fun past hpast =>
          hall (it :: past) (List.prefix_cons_iff.2 (.inr ⟨past, rfl, hpast⟩))⟩
    · refine ⟨fun hpositive => absurd (iteration_overdue hn (not_le.1 h)) hpositive.1,
        fun hall => absurd (hall [it] ⟨its, rfl⟩) h⟩

theorem missed_idle : ∀ {stretch : List Iteration} {n : Nat}, (∀ it ∈ stretch, it.Idle) →
    missed n stretch = n + stretch.length
  | [], _, _ => rfl
  | it :: stretch, n, h => by
    obtain ⟨hbroker, hpeer⟩ := h it List.mem_cons_self
    have hit : it.missed n = n + 1 := by simp [Iteration.missed, hbroker, hpeer]
    have hrest := missed_idle (n := n + 1) fun it hmem => h it (List.mem_cons_of_mem _ hmem)
    rw [List.length_cons, missed, List.foldl_cons, hit]
    exact hrest.trans (by omega)

/-- **When a worker counts the broker's silence as it should**: exactly as long as there are never
three iterations without a message from another worker since the last message from the broker. -/
theorem counts_iff (its : List Iteration) :
    Counts its ↔ ∀ past, past <+: its → missed 0 past ≤ 2 := by
  have hpositive : .decrement 0 ∉ actions n_heartbeat_liveness its ↔ _ :=
    decrement_zero_iff (Nat.zero_le 2)
  constructor
  · exact fun h => hpositive.1 h.positive
  · refine fun h => ⟨hpositive.2 h, fun past stretch rest hits hlength hidle => ?_⟩
    -- three idle iterations in a row are one too many
    have hmissed : missed 0 (past ++ stretch) ≤ 2 := h _ ⟨rest, hits.symm⟩
    have hlong : missed 0 (past ++ stretch) = missed 0 past + stretch.length := by
      rw [missed, List.foldl_append]
      exact missed_idle hidle
    have hthree : n_heartbeat_liveness.toNat = 3 := rfl
    omega

/-- Three idle iterations in a row. -/
theorem idle_wraps : ¬ ∀ its, Counts its := fun h =>
  absurd (h [⟨none, none⟩, ⟨none, none⟩, ⟨none, none⟩]).positive (by decide)

theorem livenessAfter_count : ∀ {its : List Iteration} {n : Nat},
    (∀ past, past <+: its → missed n past ≤ 2) →
      livenessAfter (count n) its = count (missed n its)
  | [], _, _ => rfl
  | it :: its, n, h => by
    have hit := iteration_count (h [it] ⟨its, rfl⟩)
    rw [livenessAfter, List.foldl_cons, hit.1]
    exact livenessAfter_count fun past hpast =>
      h (it :: past) (List.prefix_cons_iff.2 (.inr ⟨past, rfl, hpast⟩))

/-- A worker that counts as it should never connects by itself. -/
theorem idle_never_connects {past : List Iteration} (h : Counts (past ++ [it])) (hidle : it.Idle) :
    .connect_to_broker ∉ (iteration (livenessAfter n_heartbeat_liveness past) it).2 := by
  have hmissed : ∀ past', past' <+: past ++ [it] → missed 0 past' ≤ 2 :=
    (decrement_zero_iff (Nat.zero_le 2)).1 h.positive
  have hpast := livenessAfter_count fun past' hpast' =>
    hmissed past' (hpast'.trans (List.prefix_append past [it]))
  have hit : missed 0 (past ++ [it]) ≤ 2 := hmissed _ List.prefix_rfl
  obtain ⟨hbroker, hpeer⟩ := hidle
  rw [missed, List.foldl_append] at hit
  have hnext : missed 0 past + 1 ≤ 2 := by
    simpa [Iteration.missed, hbroker, hpeer, missed] using hit
  unfold iteration
  rw [hbroker, hpeer]
  change .connect_to_broker ∉ (countDown (livenessAfter (count 0) past)).2
  rw [hpast]
  exact (countDown_count hnext).2.2

end Worker

end ShoppingApp
