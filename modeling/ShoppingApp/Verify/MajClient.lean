import ShoppingApp.Client.MajClient
import ShoppingApp.Verify.MajWorker

/-!
# Which updates a client receives

The loops of `receive_updates` look for the end of the queue, not for the end of a message
(`recvParts_eq`): one call takes all that is queued, and returns the first two parts of it. So calls
repeated until nothing comes return the first update that is queued and no other
(`receive_all_published`), and every update exactly if no more than one is queued
(`receive_all_exact_iff`).
-/

namespace ShoppingApp

namespace Client

theorem recvParts_eq (queue : List String) : ∀ msg : ZMsg,
    recvParts msg queue = (msg ++ queue.map cStr, []) := by
  induction queue with
  | nil =>
    intro msg
    rw [List.map_nil, List.append_nil]
    rfl
  | cons part queue ih =>
    intro msg
    rw [recvParts, ih, ZMsg.push_back, List.append_assoc, List.map_cons]
    rfl

/-- One call takes all that is queued. -/
theorem receive_updates_eq (queue : List String) :
    receive_updates queue = ((queue.take 2).map cStr, []) := by
  cases queue with
  | nil => rfl
  | cons url queue =>
    have hmsg : ZMsg.push_back [] url ++ queue.map cStr = (url :: queue).map cStr := rfl
    have hidem : cStr ∘ cStr = cStr := funext ZMsg.cStr_cStr
    rw [receive_updates, recvParts_eq, hmsg, List.map_take, List.map_take, List.map_map, hidem]

theorem length_receive_updates_lt {queue : List String} (h : (receive_updates queue).1 ≠ []) :
    (receive_updates queue).2.length < queue.length := by
  cases queue with
  | nil => exact absurd rfl h
  | cons url queue =>
    rw [receive_updates_eq]
    exact Nat.succ_pos _

/-- The results of calls of `receive_updates` until one returns none. -/
def receive_all (queue : List String) : List (List String) :=
  if h : (receive_updates queue).1 = [] then []
  else
    have := length_receive_updates_lt h
    (receive_updates queue).1 :: receive_all (receive_updates queue).2
termination_by queue.length

theorem receive_all_nil : receive_all [] = [] := by
  unfold receive_all
  exact dif_pos rfl

theorem receive_all_cons (url : String) (queue : List String) :
    receive_all (url :: queue) = [((url :: queue).take 2).map cStr] := by
  have hcall := receive_updates_eq (url :: queue)
  have hsome : (receive_updates (url :: queue)).1 ≠ [] := by
    rw [hcall]
    exact List.cons_ne_nil _ _
  unfold receive_all
  rw [dif_neg hsome]
  dsimp only
  rw [hcall, receive_all_nil]

/-! ## Updates -/

/-- An update as the client should receive it: the url and the text of the list. -/
def update (p : String × String) : List String := [cStr p.1, cStr p.2]

/-- The parts that are queued after some updates have been published. -/
def queued (published : List (String × String)) : List String :=
  published.flatMap fun p => Worker.publish_to_broker p.1 p.2

/-- Of the updates that are queued, the first is received and the others are lost. -/
theorem receive_all_queued (published : List (String × String)) :
    receive_all (queued published) = (published.take 1).map update := by
  cases published with
  | nil => exact receive_all_nil
  | cons p published =>
    obtain ⟨url, list⟩ := p
    have hqueued : queued ((url, list) :: published) =
        cStr url :: cStr list :: queued published := rfl
    rw [hqueued, receive_all_cons]
    change [[cStr (cStr url), cStr (cStr list)]] = [[cStr url, cStr list]]
    rw [ZMsg.cStr_cStr, ZMsg.cStr_cStr]

/-- **Calls that are repeated until nothing comes return the updates that are queued**, each once
and in order, exactly if no more than one is queued. -/
theorem receive_all_exact_iff (published : List (String × String)) :
    receive_all (queued published) = published.map update ↔ published.length ≤ 1 := by
  rw [receive_all_queued]
  constructor
  · intro h
    have hlength := congrArg List.length h
    rw [List.length_map, List.length_map, List.length_take] at hlength
    omega
  · intro h
    rw [List.take_of_length_le h]

/-- Two updates are queued, and the second is lost. -/
theorem second_update_lost :
    receive_all (queued [("msla-user1", "[1]"), ("msla-user2", "[2]")]) = [["msla-user1", "[1]"]] ∧
      ¬ ∀ published, receive_all (queued published) = published.map update := by
  have hreceived : receive_all (queued [("msla-user1", "[1]"), ("msla-user2", "[2]")]) =
      [["msla-user1", "[1]"]] := receive_all_queued _
  refine ⟨hreceived, fun h => ?_⟩
  have hall := h [("msla-user1", "[1]"), ("msla-user2", "[2]")]
  rw [hreceived] at hall
  exact absurd hall (by decide)

end Client

end ShoppingApp
