import ShoppingApp.Lib.Replication

/-!
# Registers with one writer each

Replicas know a value of each register. Only the owner of a register writes it, and writes no
smaller value than before. Any part of what a replica knows can be sent, and whatever has been sent
can be merged anywhere, at any time and any number of times. Then nobody knows more of a register
than its owner (`Run.bound`).
-/

namespace Registers

open Replication

/-- What each replica knows, and all that has been sent. -/
structure System (ι χ V : Type*) where
  now : ι → χ → V
  sent : Set (χ → V)

variable {ι χ V : Type*} [DecidableEq ι]

/-- Replica `i` then knows `v`. -/
def System.put (s : System ι χ V) (i : ι) (v : χ → V) : System ι χ V :=
  ⟨Function.update s.now i v, s.sent⟩

@[simp] theorem System.now_put_self (s : System ι χ V) (i : ι) (v : χ → V) :
    (s.put i v).now i = v := by
  simp [System.put]

theorem System.now_put_ne (s : System ι χ V) {i j : ι} (h : j ≠ i) (v : χ → V) :
    (s.put i v).now j = s.now j := by
  simp [System.put, h]

variable [SemilatticeSup V]

inductive Step (Owns : ι → χ → Prop) : System ι χ V → System ι χ V → Prop
  | write (s : System ι χ V) (i : ι) (v : χ → V) (hle : s.now i ≤ v)
      (hown : ∀ x, ¬ Owns i x → v x = s.now i x) : Step Owns s (s.put i v)
  | send (s : System ι χ V) (i : ι) (v : χ → V) (h : v ≤ s.now i) :
      Step Owns s ⟨s.now, insert v s.sent⟩
  | merge (s : System ι χ V) (i : ι) (v : χ → V) (h : v ∈ s.sent) :
      Step Owns s (s.put i (s.now i ⊔ v))

/-- All that is known or sent is at most `b`, which has the owners' values; registers that nobody
owns have their first values. -/
structure Bound (Owns : ι → χ → Prop) (first : χ → V) (s : System ι χ V) (b : χ → V) : Prop where
  own : ∀ i x, Owns i x → b x = s.now i x
  free : ∀ x, (∀ i, ¬ Owns i x) → b x = first x
  now : ∀ i, s.now i ≤ b
  sent : ∀ v ∈ s.sent, v ≤ b

variable {Owns : ι → χ → Prop} {first b v : χ → V} {s s' : System ι χ V} {i : ι}

/-- The bound after the owner of some registers has written them. -/
theorem Bound.write (hunique : ∀ i j x, Owns i x → Owns j x → i = j) (h : Bound Owns first s b)
    (hle : s.now i ≤ v) (hown : ∀ x, ¬ Owns i x → v x = s.now i x) :
    Bound Owns first (s.put i v) (b ⊔ v) := by
  -- what `v` does not write is below the bound
  have hbelow : ∀ x, ¬ Owns i x → (b ⊔ v) x = b x := by
    intro x hx
    rw [Pi.sup_apply, hown x hx, sup_of_le_left (h.now i x)]
  refine ⟨fun j x hj => ?_, fun x hx => ?_, fun j => ?_, fun w hw => ?_⟩
  · by_cases hji : j = i
    · subst hji
      rw [System.now_put_self, Pi.sup_apply, h.own j x hj, sup_of_le_right (hle x)]
    · rw [System.now_put_ne s hji, hbelow x fun hi => hji (hunique j i x hj hi)]
      exact h.own j x hj
  · rw [hbelow x (hx i)]
    exact h.free x hx
  · by_cases hji : j = i
    · subst hji
      rw [System.now_put_self]
      exact le_sup_right
    · rw [System.now_put_ne s hji]
      exact (h.now j).trans le_sup_left
  · exact (h.sent w hw).trans le_sup_left

omit [DecidableEq ι] in
theorem Bound.send (h : Bound Owns first s b) (hv : v ≤ s.now i) :
    Bound Owns first ⟨s.now, insert v s.sent⟩ b := by
  refine ⟨h.own, h.free, h.now, ?_⟩
  rintro w (rfl | hw)
  · exact hv.trans (h.now i)
  · exact h.sent w hw

theorem Bound.merge (h : Bound Owns first s b) (hv : v ∈ s.sent) :
    Bound Owns first (s.put i (s.now i ⊔ v)) b := by
  refine ⟨fun j x hj => ?_, h.free, fun j => ?_, h.sent⟩
  · by_cases hji : j = i
    · subst hji
      -- an owner learns nothing of its registers
      have hle : v x ≤ s.now j x := (h.sent v hv x).trans (h.own j x hj).le
      rw [System.now_put_self, Pi.sup_apply, sup_of_le_left hle]
      exact h.own j x hj
    · rw [System.now_put_ne s hji]
      exact h.own j x hj
  · by_cases hji : j = i
    · subst hji
      rw [System.now_put_self]
      exact sup_le (h.now j) (h.sent v hv)
    · rw [System.now_put_ne s hji]
      exact h.now j

theorem Step.bound (hunique : ∀ i j x, Owns i x → Owns j x → i = j)
    (h : ∃ b, Bound Owns first s b) (hst : Step Owns s s') : ∃ b, Bound Owns first s' b := by
  obtain ⟨b, hb⟩ := h
  cases hst with
  | write i v hle hown => exact ⟨b ⊔ v, hb.write hunique hle hown⟩
  | send i v hv => exact ⟨b, hb.send hv⟩
  | merge i v hv => exact ⟨b, hb.merge hv⟩

/-- **Nobody is ahead of an owner**, after any run from a state where all know the first values. -/
theorem Run.bound (hunique : ∀ i j x, Owns i x → Owns j x → i = j)
    (h : Run (Step Owns) ⟨fun _ => first, {first}⟩ s) : ∃ b, Bound Owns first s b := by
  have hfirst : Bound Owns first ⟨fun _ : ι => first, {first}⟩ first := by
    refine ⟨fun _ _ _ => rfl, fun _ _ => rfl, fun _ => le_rfl, ?_⟩
    rintro v rfl
    exact le_rfl
  exact h.invariant (fun s => ∃ b, Bound Owns first s b) ⟨first, hfirst⟩
    fun _ _ hb hst => hst.bound hunique hb

end Registers
