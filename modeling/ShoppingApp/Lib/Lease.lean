import Mathlib.Order.Basic

/-!
# Leases renewed through a queue

A keeper lets a lease run for some time from each message that renews it. The holder's messages
reach it in order, some time after they were sent. The holder looks at the clock now and then, and
sends a message that renews when one is due, which is never later than a period after the last one
was. What is in the queue at any moment then lies close enough together (`Spaced`), so that the
keeper, whenever it looks, sees that the last message to reach it is not long ago
(`Spaced.reading_lt`).
-/

namespace Lease

variable {α : Type*} {renews : α → Prop} {period gap delay : Int}

/-- Messages on their way, with the times at which they were sent: those that renew are no more than
a period and a gap apart, from the last one that has reached the keeper on, and the next one is due
a period after the last one at most. The holder has last looked at the clock at `checked`. -/
inductive Spaced (renews : α → Prop) (period gap checked due : Int) :
    Int → List (α × Int) → Prop
  | nil {last : Int} (hpast : last ≤ checked) (hchecked : checked < last + period)
      (hdue : due ≤ last + period) : Spaced renews period gap checked due last []
  | renewal {last sent : Int} {msg : α} {queue : List (α × Int)} (hrenews : renews msg)
      (hsent : sent < last + period + gap) (h : Spaced renews period gap checked due sent queue) :
      Spaced renews period gap checked due last ((msg, sent) :: queue)
  | other {last sent : Int} {msg : α} {queue : List (α × Int)} (hother : ¬ renews msg)
      (h : Spaced renews period gap checked due last queue) :
      Spaced renews period gap checked due last ((msg, sent) :: queue)

namespace Spaced

variable {checked due last clock : Int} {queue : List (α × Int)} {msg : α}

/-- A keeper that looks while the holder has not been away, and no message on its way, for too long
finds the lease running. -/
theorem reading_lt {reading : Int} (h : Spaced renews period gap checked due last queue)
    (hdelay : 0 ≤ delay) (hchecked : reading < checked + gap)
    (hqueue : ∀ message ∈ queue, reading < message.2 + delay) :
    reading < last + period + gap + delay := by
  induction h with
  | nil => omega
  | renewal _ hsent =>
    have hmessage := hqueue _ List.mem_cons_self
    dsimp only at hmessage
    omega
  | other _ _ ih => exact ih fun message hmem => hqueue message (List.mem_cons_of_mem _ hmem)

/-- The next message is due a period after the holder has looked, at most. -/
theorem due_le (h : Spaced renews period gap checked due last queue) : due ≤ checked + period := by
  induction h with
  | nil => omega
  | renewal _ _ _ ih => exact ih
  | other _ _ ih => exact ih

/-- The holder looks and nothing is due. -/
theorem quiet (h : Spaced renews period gap checked due last queue) (hclock : checked ≤ clock)
    (hearly : clock < due) : Spaced renews period gap clock due last queue := by
  induction h with
  | nil => exact .nil (by omega) (by omega) (by omega)
  | renewal hrenews hsent _ ih => exact .renewal hrenews hsent ih
  | other hother _ ih => exact .other hother ih

/-- The holder says something else. -/
theorem say (sent : Int) (h : Spaced renews period gap checked due last queue)
    (hother : ¬ renews msg) :
    Spaced renews period gap checked due last (queue ++ [(msg, sent)]) := by
  induction h with
  | nil hpast hchecked hdue => exact .other hother (.nil hpast hchecked hdue)
  | renewal hrenews hsent _ ih => exact .renewal hrenews hsent ih
  | other hother' _ ih => exact .other hother' ih

/-- The holder looks in time and says something that renews. -/
theorem renew {due' : Int} (h : Spaced renews period gap checked due last queue)
    (hperiod : 0 < period) (hgap : clock < checked + gap) (hdue : due' ≤ clock + period)
    (hrenews : renews msg) :
    Spaced renews period gap clock due' last (queue ++ [(msg, clock)]) := by
  induction h with
  | nil => exact .renewal hrenews (by omega) (.nil (Int.le_refl clock) (by omega) hdue)
  | renewal hrenews' hsent _ ih => exact .renewal hrenews' hsent ih
  | other hother _ ih => exact .other hother ih

end Spaced

end Lease
