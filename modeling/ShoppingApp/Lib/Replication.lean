import Mathlib.Order.Lattice
import Mathlib.Data.Finset.Lattice.Fold
import Mathlib.Logic.Relation

/-!
# Replicas over a join-semilattice

Any number of replicas hold a value of a join-semilattice with a bottom. An operation replaces one
replica's value by a larger one; a merge joins one replica's value with any value that some replica
has or ever had. Every value is then the join of what the operations it has received contributed
(`Run.explained`), so replicas that have received the same operations hold the same value
(`Run.converge`), whatever the delays, reorderings and repetitions on the way.
-/

namespace Replication

/-- A run: finitely many steps one after another. -/
abbrev Run {σ : Type*} (step : σ → σ → Prop) : σ → σ → Prop := Relation.ReflTransGen step

namespace Run

variable {σ τ : Type*} {step : σ → σ → Prop} {s t : σ}

/-- What holds at the start and is kept by every step holds after every run. -/
theorem invariant (Inv : σ → Prop) (hinit : Inv s) (hstep : ∀ a b, Inv a → step a b → Inv b)
    (h : Run step s t) : Inv t := by
  induction h with
  | refl => exact hinit
  | tail _ hab ih => exact hstep _ _ ih hab

/-- A run is simulated by a run of another system when every step is. -/
theorem simulate {step' : τ → τ → Prop} (R : σ → τ → Prop) {s' : τ} (hinit : R s s')
    (hstep : ∀ a b a', R a a' → step a b → ∃ b', Run step' a' b' ∧ R b b') (h : Run step s t) :
    ∃ t', Run step' s' t' ∧ R t t' := by
  induction h with
  | refl => exact ⟨s', .refl, hinit⟩
  | tail _ hab ih =>
    obtain ⟨a', hrun, hR⟩ := ih
    obtain ⟨b', hrun', hR'⟩ := hstep _ _ _ hR hab
    exact ⟨b', hrun.trans hrun', hR'⟩

end Run

/-! ## Runs that remember

What can be seen in a state is added to a set, so that a statement may speak of all that has been
seen in a run.
-/

/-- A step, and what is seen after it. -/
def Recording {σ α : Type*} (step : σ → σ → Prop) (seen : σ → Set α) (a b : σ × Set α) : Prop :=
  step a.1 b.1 ∧ b.2 = a.2 ∪ seen b.1

namespace Run

variable {σ α : Type*} {step : σ → σ → Prop} {seen : σ → Set α} {s t : σ}

/-- One step more, recorded. -/
theorem record {a : σ × Set α} {E : Set α} (h : Run (Recording step seen) a (s, E))
    (hst : step s t) : Run (Recording step seen) a (t, E ∪ seen t) :=
  h.tail ⟨hst, rfl⟩

/-- Every run can be recorded. -/
theorem recording (h : Run step s t) (E : Set α) :
    ∃ F, Run (Recording step seen) (s, E) (t, F) := by
  induction h with
  | refl => exact ⟨E, .refl⟩
  | tail _ hab ih =>
    obtain ⟨F, hrun⟩ := ih
    exact ⟨_, hrun.record hab⟩

end Run

variable {ι L : Type*}

/-- A replica's value and the numbers of the operations it has received. -/
structure Snapshot (L : Type*) where
  value : L
  received : Finset ℕ

/-- Replicas, every snapshot there has been, and the number of operations so far. -/
structure System (ι L : Type*) where
  now : ι → Snapshot L
  past : Set (Snapshot L)
  clock : ℕ

/-- Replica `i` moves to snapshot `t`. -/
def System.put [DecidableEq ι] (s : System ι L) (i : ι) (t : Snapshot L) (clock : ℕ) :
    System ι L :=
  ⟨Function.update s.now i t, insert t s.past, clock⟩

variable [SemilatticeSup L] [OrderBot L] [DecidableEq ι]

/-- All replicas at the bottom, nothing received. -/
def System.init : System ι L := ⟨fun _ => ⟨⊥, ∅⟩, {⟨⊥, ∅⟩}, 0⟩

/-- One operation or one merge. -/
inductive Step : System ι L → System ι L → Prop
  | op {s : System ι L} (i : ι) (x : L) (h : (s.now i).value ≤ x) :
      Step s (s.put i ⟨x, insert s.clock (s.now i).received⟩ (s.clock + 1))
  | merge {s : System ι L} (i : ι) (t : Snapshot L) (h : t ∈ s.past) :
      Step s (s.put i ⟨(s.now i).value ⊔ t.value, (s.now i).received ∪ t.received⟩ s.clock)

/-- `δ` explains a snapshot: its value is the join of its operations' contributions. -/
structure Explained (δ : ℕ → L) (clock : ℕ) (t : Snapshot L) : Prop where
  below : ∀ o ∈ t.received, o < clock
  value_eq : t.value = t.received.sup δ

theorem Explained.update {δ : ℕ → L} {n : ℕ} {t : Snapshot L} (h : Explained δ n t) (x : L) :
    Explained (Function.update δ n x) (n + 1) t := by
  refine ⟨fun o ho => Nat.lt_succ_of_lt (h.below o ho), h.value_eq.trans ?_⟩
  refine Finset.sup_congr rfl fun o ho => ?_
  rw [Function.update_of_ne (h.below o ho).ne]

theorem Explained.op {δ : ℕ → L} {n : ℕ} {t : Snapshot L} (h : Explained δ n t) {x : L}
    (hx : t.value ≤ x) :
    Explained (Function.update δ n x) (n + 1) ⟨x, insert n t.received⟩ := by
  have hold := h.update x
  refine ⟨fun o ho => ?_, ?_⟩
  · rcases Finset.mem_insert.1 ho with rfl | ho
    · exact Nat.lt_succ_self _
    · exact hold.below o ho
  · rw [Finset.sup_insert, Function.update_self, ← hold.value_eq, sup_eq_left.2 hx]

theorem Explained.merge {δ : ℕ → L} {n : ℕ} {t u : Snapshot L} (h : Explained δ n t)
    (h' : Explained δ n u) : Explained δ n ⟨t.value ⊔ u.value, t.received ∪ u.received⟩ := by
  refine ⟨fun o ho => ?_, ?_⟩
  · rcases Finset.mem_union.1 ho with ho | ho
    · exact h.below o ho
    · exact h'.below o ho
  · rw [Finset.sup_union, ← h.value_eq, ← h'.value_eq]

/-- Every snapshot there is or has been is explained by one contribution per operation. -/
structure AllExplained (δ : ℕ → L) (s : System ι L) : Prop where
  past : ∀ t ∈ s.past, Explained δ s.clock t
  now : ∀ i, s.now i ∈ s.past

theorem AllExplained.put {δ : ℕ → L} {s : System ι L} {clock : ℕ} {t : Snapshot L}
    (hpast : ∀ u ∈ s.past, Explained δ clock u) (hnow : ∀ i, s.now i ∈ s.past) (i : ι)
    (ht : Explained δ clock t) : AllExplained δ (s.put i t clock) := by
  refine ⟨fun u hu => ?_, fun j => ?_⟩
  · rcases Set.mem_insert_iff.1 hu with rfl | hu
    · exact ht
    · exact hpast u hu
  · by_cases hj : j = i
    · subst hj; simp [System.put]
    · exact Set.mem_insert_of_mem _ (by simpa [System.put, hj] using hnow j)

theorem Step.explained {s t : System ι L} (h : ∃ δ, AllExplained δ s) (hst : Step s t) :
    ∃ δ, AllExplained δ t := by
  obtain ⟨δ, hpast, hnow⟩ := h
  cases hst with
  | op i x hx =>
    exact ⟨_, .put (fun u hu => (hpast u hu).update x) hnow i ((hpast _ (hnow i)).op hx)⟩
  | merge i t ht => exact ⟨δ, .put hpast hnow i ((hpast _ (hnow i)).merge (hpast t ht))⟩

omit [DecidableEq ι] in
theorem System.init_explained : AllExplained (fun _ => ⊥) (System.init : System ι L) := by
  refine ⟨fun t ht => ?_, fun _ => rfl⟩
  obtain rfl : t = ⟨⊥, ∅⟩ := ht
  exact ⟨fun o ho => by simp at ho, by simp⟩

/-- **Every value is the join of the contributions of the operations received.** -/
theorem Run.explained {s : System ι L} (h : Run Step System.init s) : ∃ δ, AllExplained δ s :=
  h.invariant (fun s => ∃ δ, AllExplained δ s) ⟨_, System.init_explained⟩
    fun _ _ => Step.explained

/-- **Convergence.** Snapshots that have received the same operations have the same value. -/
theorem Run.converge {s : System ι L} (h : Run Step System.init s) {t u : Snapshot L}
    (ht : t ∈ s.past) (hu : u ∈ s.past) (heq : t.received = u.received) : t.value = u.value := by
  obtain ⟨δ, hδ⟩ := h.explained
  rw [(hδ.past t ht).value_eq, (hδ.past u hu).value_eq, heq]

end Replication
