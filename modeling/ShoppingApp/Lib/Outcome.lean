import Mathlib.Data.List.Induction
import Mathlib.Tactic.TypeStar

/-!
# How a computation that can fail ends

`Ends E P x` says that `x` returns a value with `P` or fails with an error in `E`. The rules follow
the ways such computations are put together; a loop keeps what its body keeps (`Ends.foldlM`), and a
`while` loop ends if each round takes down a number that its invariant bounds it by
(`whileLoop_ends`).
-/

universe u

variable {ε : Type*} {α β : Type u} {E E' : ε → Prop} {P Q : α → Prop} {x : Except ε α}

/-- `x` returns a value with `P`, or fails with an error in `E`. -/
def Ends (E : ε → Prop) (P : α → Prop) : Except ε α → Prop
  | .ok a => P a
  | .error e => E e

namespace Ends

theorem of_ok (h : Ends E P x) {a : α} (hx : x = .ok a) : P a := by
  rw [hx] at h
  exact h

theorem of_error (h : Ends E P x) {e : ε} (hx : x = .error e) : E e := by
  rw [hx] at h
  exact h

theorem mono (h : Ends E P x) (hE : ∀ e, E e → E' e) (hP : ∀ a, P a → Q a) : Ends E' Q x := by
  cases x with
  | ok a => exact hP a h
  | error e => exact hE e h

theorem imp (h : Ends E P x) (hP : ∀ a, P a → Q a) : Ends E Q x := h.mono (fun _ he => he) hP

theorem and (h : Ends E P x) (h' : Ends E' Q x) : Ends E (fun a => P a ∧ Q a) x := by
  cases x with
  | ok a => exact ⟨h, h'⟩
  | error e => exact h

theorem bind {f : α → Except ε β} {R : β → Prop} (h : Ends E P x)
    (hf : ∀ a, P a → Ends E R (f a)) : Ends E R (x >>= f) := by
  cases x with
  | ok a => exact hf a h
  | error e => exact h

/-- A loop keeps what its body keeps on the elements it visits. -/
theorem foldlM {ι : Type*} {f : α → ι → Except ε α} :
    ∀ (bs : List ι), (∀ b ∈ bs, ∀ a, P a → Ends E P (f a b)) →
      ∀ {a : α}, P a → Ends E P (bs.foldlM f a) := by
  intro bs
  induction bs with
  | nil => intro _ a ha; exact ha
  | cons b bs ih =>
    intro hf a ha
    rw [List.foldlM_cons]
    have hbs : ∀ b ∈ bs, ∀ a, P a → Ends E P (f a b) :=
      fun b hb => hf b (List.mem_cons_of_mem _ hb)
    exact Ends.bind (hf b List.mem_cons_self a ha) fun a' ha' => ih hbs ha'

/-- Every element ends as one does. -/
theorem mapM {ι : Type*} {f : ι → Except ε α} : ∀ (bs : List ι), (∀ b ∈ bs, Ends E P (f b)) →
    Ends E (fun as => ∀ a ∈ as, P a) (bs.mapM f) := by
  intro bs
  induction bs with
  | nil => exact fun _ a ha => absurd ha List.not_mem_nil
  | cons b bs ih =>
    intro hf
    rw [List.mapM_cons]
    refine (hf b List.mem_cons_self).bind fun a ha => ?_
    refine (ih fun b hb => hf b (List.mem_cons_of_mem _ hb)).bind fun as has => ?_
    exact List.forall_mem_cons.2 ⟨ha, has⟩

/-- A loop keeps what each step keeps that it takes from a state it has come to. -/
theorem foldlM_run {ι : Type*} {f : α → ι → Except ε α} {a : α} (ha : P a) (bs : List ι)
    (hf : ∀ past b future a', bs = past ++ b :: future → past.foldlM f a = .ok a' → P a' →
      Ends E P (f a' b)) : Ends E P (bs.foldlM f a) := by
  induction bs using List.reverseRecOn with
  | nil => exact ha
  | append_singleton past b ih =>
    have hpast : Ends E P (past.foldlM f a) := by
      refine ih fun before b' between a' heq => ?_
      exact hf before b' (between ++ [b]) a' (by rw [heq, List.append_assoc]; rfl)
    rw [List.foldlM_append]
    cases hrun : past.foldlM f a with
    | error e => exact hpast.of_error hrun
    | ok a' =>
      have hstep : Ends E P (f a' b) := hf past b [] a' rfl hrun (hpast.of_ok hrun)
      change Ends E P (f a' b >>= pure)
      exact hstep.bind fun a'' ha'' => ha''

end Ends

/-! ## while loops -/

/-- `while (cond) body`, for at most the given number of looks at the condition. -/
def whileLoop (cond : α → Bool) (body : α → Except ε α) : ℕ → α → Option (Except ε α)
  | 0, _ => none
  | fuel + 1, a =>
    if cond a then
      match body a with
      | .ok a' => whileLoop cond body fuel a'
      | .error e => some (.error e)
    else some (.ok a)

/-- `inv n a` says that the loop may come to `a` with at most `n` rounds to go. -/
theorem whileLoop_ends {cond : α → Bool} {body : α → Except ε α} {inv : ℕ → α → Prop}
    (hbody : ∀ n a, inv n a → cond a = true → Ends E (fun a' => ∃ m < n, inv m a') (body a)) :
    ∀ {fuel n : ℕ} {a : α}, inv n a → n < fuel →
      ∃ r, whileLoop cond body fuel a = some r ∧
        Ends E (fun a' => cond a' = false ∧ ∃ m ≤ n, inv m a') r := by
  intro fuel
  induction fuel with
  | zero => exact fun _ hfuel => absurd hfuel (Nat.not_lt_zero _)
  | succ fuel ih =>
    intro n a ha hfuel
    unfold whileLoop
    by_cases hcond : cond a = true
    · rw [if_pos hcond]
      have hround := hbody n a ha hcond
      cases hrun : body a with
      | error e => exact ⟨.error e, rfl, hround.of_error hrun⟩
      | ok a' =>
        obtain ⟨m, hm, ha'⟩ := hround.of_ok hrun
        obtain ⟨r, hloop, hends⟩ := ih ha' (by omega : m < fuel)
        refine ⟨r, hloop, hends.imp fun a'' ⟨hend, l, hl, hinv⟩ => ?_⟩
        exact ⟨hend, l, by omega, hinv⟩
    · rw [if_neg hcond]
      exact ⟨.ok a, rfl, Bool.eq_false_iff.2 hcond, n, Nat.le_refl n, ha⟩
