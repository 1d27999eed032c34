import Mathlib.Order.WithBot
import Mathlib.Data.Int.Order.Basic

/-!
# The lattice of one causal dot

A dot is a mark that one write leaves. A replica has either not seen it, or holds it live with a
value, or has seen it and no longer holds it. These are the elements of `WithBot (WithTop V)`:
`⊥` unseen, a value live, `⊤` dead. A merge of two replicas that keeps a dot when both hold it, or
when one holds it and the other has not seen it, is the join of this lattice as long as both hold
it with one value (`of_mergeLive`), so every law of such merges is a law of `⊔`.
-/

/-- What a replica knows of one dot. -/
abbrev DotState (V : Type*) := WithBot (WithTop V)

namespace DotState

variable {V : Type*}

/-- The state of a dot that is live with the given value, if any, and seen or not. -/
def of : Option V → Bool → DotState V
  | some v, _ => ((v : WithTop V) : WithBot (WithTop V))
  | none, true => ((⊤ : WithTop V) : WithBot (WithTop V))
  | none, false => ⊥

/-- The value under which the dot is live. -/
def live : DotState V → Option V
  | some (some v) => some v
  | _ => none

/-- Whether the dot has been seen. -/
def seen : DotState V → Bool
  | none => false
  | some _ => true

@[simp] theorem live_of (l : Option V) (s : Bool) : (of l s).live = l := by
  cases l <;> cases s <;> rfl

/-- The merge rule of causal containers: a dot live on both sides stays with its value on the left;
a dot live on one side stays unless the other side has seen it. -/
def mergeLive : Option V → Bool → Option V → Bool → Option V
  | some v, _, some _, _ => some v
  | some v, _, none, seenRight => if seenRight then none else some v
  | none, seenLeft, some w, _ => if seenLeft then none else some w
  | none, _, none, _ => none

theorem mergeLive_eq_some {la lb : Option V} {sa sb : Bool} {v : V}
    (h : mergeLive la sa lb sb = some v) : la = some v ∨ lb = some v := by
  unfold mergeLive at h
  split at h
  · exact .inl h
  · split_ifs at h
    exact .inl h
  · split_ifs at h
    exact .inr h
  · cases h

variable [SemilatticeSup V]

/-- **The merge rule is the join**, where the sides agree. Live dots count as seen on both sides. -/
theorem of_mergeLive {la lb : Option V} {sa sb : Bool} (ha : la.isSome → sa = true)
    (hb : lb.isSome → sb = true) (hab : ∀ v w, la = some v → lb = some w → v = w) :
    of (mergeLive la sa lb sb) (sa || sb) = of la sa ⊔ of lb sb := by
  cases la with
  | none =>
    cases lb with
    | none => cases sa <;> cases sb <;> rfl
    | some w => obtain rfl : sb = true := hb rfl; cases sa <;> rfl
  | some v =>
    obtain rfl : sa = true := ha rfl
    cases lb with
    | none => cases sb <;> rfl
    | some w =>
      obtain rfl : v = w := hab v w rfl rfl
      exact (sup_idem _).symm

/-- A dot only moves up: from unseen to anything, and from live to dead or a larger value. -/
theorem of_le_of {l l' : Option V} {s s' : Bool} (hs : s = true → s' = true)
    (hl : ∀ v, l = some v → l' = none ∧ s' = true ∨ ∃ w, l' = some w ∧ v ≤ w)
    (hd : l = none → s = true → l' = none) : of l s ≤ of l' s' := by
  cases l with
  | none =>
    cases s with
    | false => exact bot_le
    | true =>
      rw [hd rfl rfl, hs rfl]
  | some v =>
    rcases hl v rfl with ⟨rfl, rfl⟩ | ⟨w, rfl, hvw⟩
    · exact WithBot.coe_le_coe.2 le_top
    · exact WithBot.coe_le_coe.2 (WithTop.coe_le_coe.2 hvw)

end DotState
