import Mathlib.Algebra.BigOperators.Group.Finset.Basic
import Mathlib.Data.Finset.Lattice.Fold
import Mathlib.Order.Lattice.Nat

/-!
# Ledgers with several authors

A ledger has numbered entries, each by one author and of one amount on one key. Whoever knows a set
of entries knows, with an entry, all earlier ones of its author (`Closed`). Then the balance of a
key is the sum, over the authors, of what the author has put on it up to the last entry known
(`balance_eq_sum_total`), and the last entries of a union of two known sets are found without
looking at amounts (`isLast_union`).
-/

open Finset

/-- Who made an entry, on which key, and of which amount. -/
structure Ledger (α κ M : Type*) where
  author : ℕ → α
  key : ℕ → κ
  amount : ℕ → M

namespace Ledger

variable {α κ M : Type*}

/-- Entries of one author on one key. -/
def Same (L : Ledger α κ M) (j k : ℕ) : Prop := L.author j = L.author k ∧ L.key j = L.key k

/-- With an entry, all earlier ones of its author. -/
def Closed (L : Ledger α κ M) (R : Finset ℕ) : Prop :=
  ∀ k ∈ R, ∀ j < k, L.author j = L.author k → j ∈ R

/-- The last entry of its author on its key. -/
def IsLast (L : Ledger α κ M) (R : Finset ℕ) (k : ℕ) : Prop := k ∈ R ∧ ∀ j ∈ R, L.Same j k → j ≤ k

variable {L : Ledger α κ M} {R S : Finset ℕ} {k : ℕ}

theorem Closed.union (hR : L.Closed R) (hS : L.Closed S) : L.Closed (R ∪ S) := by
  intro k hk j hj hauthor
  rcases mem_union.1 hk with hk | hk
  · exact mem_union_left _ (hR k hk j hj hauthor)
  · exact mem_union_right _ (hS k hk j hj hauthor)

/-! ## Last entries -/

/-- One author has one last entry on a key. -/
theorem IsLast.eq {j : ℕ} (hj : L.IsLast R j) (hk : L.IsLast R k) (h : L.Same j k) : j = k :=
  le_antisymm (hk.2 j hj.1 h) (hj.2 k hk.1 ⟨h.1.symm, h.2.symm⟩)

/-- An entry stays the last in a union when it is on both sides, or on one and unknown on the
other. -/
theorem isLast_union (hR : L.Closed R) (hS : L.Closed S) :
    L.IsLast (R ∪ S) k ↔ L.IsLast R k ∧ L.IsLast S k ∨ L.IsLast R k ∧ k ∉ S ∨
      k ∉ R ∧ L.IsLast S k := by
  -- an entry that one side does not know is followed by none that it knows
  have hunknown : ∀ {T : Finset ℕ}, L.Closed T → k ∉ T → ∀ j ∈ T, L.Same j k → j ≤ k := by
    intro T hT hk j hj hsame
    by_contra hlt
    exact hk (hT j hj k (Nat.lt_of_not_le hlt) hsame.1.symm)
  constructor
  · rintro ⟨hmem, hle⟩
    have hleR : ∀ j ∈ R, L.Same j k → j ≤ k := fun j hj => hle j (mem_union_left _ hj)
    have hleS : ∀ j ∈ S, L.Same j k → j ≤ k := fun j hj => hle j (mem_union_right _ hj)
    by_cases hkR : k ∈ R
    · by_cases hkS : k ∈ S
      · exact .inl ⟨⟨hkR, hleR⟩, hkS, hleS⟩
      · exact .inr (.inl ⟨⟨hkR, hleR⟩, hkS⟩)
    · have hkS : k ∈ S := (mem_union.1 hmem).resolve_left hkR
      exact .inr (.inr ⟨hkR, hkS, hleS⟩)
  · rintro (⟨hkR, hkS⟩ | ⟨hkR, hnot⟩ | ⟨hnot, hkS⟩)
    · refine ⟨mem_union_left _ hkR.1, fun j hj hsame => ?_⟩
      rcases mem_union.1 hj with hj | hj
      · exact hkR.2 j hj hsame
      · exact hkS.2 j hj hsame
    · refine ⟨mem_union_left _ hkR.1, fun j hj hsame => ?_⟩
      rcases mem_union.1 hj with hj | hj
      · exact hkR.2 j hj hsame
      · exact hunknown hS hnot j hj hsame
    · refine ⟨mem_union_right _ hkS.1, fun j hj hsame => ?_⟩
      rcases mem_union.1 hj with hj | hj
      · exact hunknown hR hnot j hj hsame
      · exact hkS.2 j hj hsame

/-- A new entry is the last one, and of the others those of another author or key stay. -/
theorem isLast_insert {n : ℕ} (hR : ∀ j ∈ R, j < n) :
    L.IsLast (insert n R) k ↔ k = n ∨ L.IsLast R k ∧ ¬ L.Same n k := by
  constructor
  · rintro ⟨hmem, hle⟩
    rcases mem_insert.1 hmem with rfl | hk
    · exact .inl rfl
    · refine .inr ⟨⟨hk, fun j hj => hle j (mem_insert_of_mem hj)⟩, fun hsame => ?_⟩
      exact absurd (hle n (mem_insert_self _ _) hsame) (Nat.not_le_of_lt (hR k hk))
  · rintro (rfl | ⟨⟨hk, hle⟩, hother⟩)
    · refine ⟨mem_insert_self _ _, fun j hj _ => ?_⟩
      rcases mem_insert.1 hj with rfl | hj
      · exact le_rfl
      · exact (hR j hj).le
    · refine ⟨mem_insert_of_mem hk, fun j hj hsame => ?_⟩
      rcases mem_insert.1 hj with rfl | hj
      · exact absurd hsame hother
      · exact hle j hj hsame

/-! ## Totals and balances -/

section Totals

variable [DecidableEq α] [DecidableEq κ]

instance (L : Ledger α κ M) (j k : ℕ) : Decidable (L.Same j k) :=
  inferInstanceAs (Decidable (_ ∧ _))

instance (L : Ledger α κ M) (R : Finset ℕ) (k : ℕ) : Decidable (L.IsLast R k) :=
  inferInstanceAs (Decidable (_ ∧ _))

/-- The last known entry of the author of `k` on the key of `k`. -/
def last (L : Ledger α κ M) (R : Finset ℕ) (k : ℕ) : ℕ := (R.filter fun j => L.Same j k).sup id

theorem isLast_last (hk : k ∈ R) : L.IsLast R (L.last R k) ∧ L.Same (L.last R k) k := by
  have hne : (R.filter fun j => L.Same j k).Nonempty := ⟨k, mem_filter.2 ⟨hk, rfl, rfl⟩⟩
  obtain ⟨m, hm, hmax⟩ := exists_mem_eq_sup _ hne id
  rw [mem_filter] at hm
  have hlast : L.last R k = m := hmax
  rw [hlast]
  refine ⟨⟨hm.1, fun j hj hsame => ?_⟩, hm.2⟩
  have hjk : L.Same j k := ⟨hsame.1.trans hm.2.1, hsame.2.trans hm.2.2⟩
  have hle : j ≤ (R.filter fun j => L.Same j k).sup id :=
    le_sup (f := id) (mem_filter.2 ⟨hj, hjk⟩)
  rwa [hmax] at hle

variable [AddCommMonoid M]

/-- What an author has put on a key before entry `n`. -/
def sumBefore (L : Ledger α κ M) (n : ℕ) (a : α) (x : κ) : M :=
  ∑ j ∈ range n with L.author j = a ∧ L.key j = x, L.amount j

/-- What the author of entry `k` has put on its key up to `k`. -/
def total (L : Ledger α κ M) (k : ℕ) : M := L.sumBefore (k + 1) (L.author k) (L.key k)

/-- The amounts on a key among the entries known. -/
def balance (L : Ledger α κ M) (R : Finset ℕ) (x : κ) : M := ∑ k ∈ R with L.key k = x, L.amount k

/-- **A balance is the sum of the running totals at the last entries.** -/
theorem balance_eq_sum_total (h : L.Closed R) (x : κ) :
    L.balance R x = ∑ k ∈ R with L.key k = x ∧ L.IsLast R k, L.total k := by
  have hmaps : ∀ k ∈ R.filter (fun k => L.key k = x),
      L.last R k ∈ R.filter fun k => L.key k = x ∧ L.IsLast R k := by
    intro k hk
    rw [mem_filter] at hk
    obtain ⟨hlast, hsame⟩ := isLast_last (L := L) hk.1
    exact mem_filter.2 ⟨hlast.1, hsame.2.trans hk.2, hlast⟩
  unfold balance
  rw [← sum_fiberwise_of_maps_to hmaps]
  refine sum_congr rfl fun m hm => ?_
  rw [mem_filter] at hm
  obtain ⟨hmR, hkey, hlast⟩ := hm
  unfold total sumBefore
  congr 1
  ext j
  simp only [mem_filter, mem_range]
  constructor
  · rintro ⟨⟨hj, -⟩, rfl⟩
    obtain ⟨-, hsame⟩ := isLast_last (L := L) hj
    exact ⟨Nat.lt_succ_of_le (hlast.2 j hj ⟨hsame.1.symm, hsame.2.symm⟩), hsame.1.symm,
      hsame.2.symm⟩
  · rintro ⟨hlt, hauthor, hsame⟩
    have hj : j ∈ R := by
      rcases (Nat.lt_succ_iff.1 hlt).eq_or_lt with rfl | hlt
      · exact hmR
      · exact h m hmR j hlt hauthor
    obtain ⟨hjlast, hjsame⟩ := isLast_last (L := L) hj
    exact ⟨⟨hj, hsame.trans hkey⟩,
      hjlast.eq hlast ⟨hjsame.1.trans hauthor, hjsame.2.trans hsame⟩⟩

/-- Whoever knows all of an author's entries so far knows its total. -/
theorem IsLast.sumBefore_eq {n : ℕ} (h : L.IsLast R k) (hR : ∀ j ∈ R, j < n)
    (hall : ∀ j < n, L.author j = L.author k → j ∈ R) :
    L.sumBefore n (L.author k) (L.key k) = L.total k := by
  unfold total sumBefore
  congr 1
  ext j
  simp only [mem_filter, mem_range]
  refine and_congr_left fun hsame => ⟨fun hlt => ?_, fun hlt => ?_⟩
  · exact Nat.lt_succ_of_le (h.2 j (hall j hlt hsame.1) hsame)
  · exact (Nat.le_of_lt_succ hlt).trans_lt (hR k h.1)

theorem sumBefore_eq_zero {n : ℕ} {a : α} {x : κ} (hall : ∀ j < n, L.author j = a → j ∈ R)
    (hnone : ∀ j ∈ R, L.author j = a → L.key j ≠ x) : L.sumBefore n a x = 0 := by
  refine sum_eq_zero fun j hj => ?_
  rw [mem_filter, mem_range] at hj
  exact absurd hj.2.2 (hnone j (hall j hj.1 hj.2.1) hj.2.1)

end Totals

/-! ## Writing an entry -/

/-- Write entry `n`. -/
def record (L : Ledger α κ M) (n : ℕ) (a : α) (x : κ) (m : M) : Ledger α κ M :=
  ⟨Function.update L.author n a, Function.update L.key n x, Function.update L.amount n m⟩

variable {n : ℕ} {a : α} {x : κ} {m : M}

@[simp] theorem record_author_self : (L.record n a x m).author n = a := Function.update_self _ _ _

@[simp] theorem record_key_self : (L.record n a x m).key n = x := Function.update_self _ _ _

@[simp] theorem record_amount_self : (L.record n a x m).amount n = m := Function.update_self _ _ _

theorem record_author (h : k < n) : (L.record n a x m).author k = L.author k :=
  Function.update_of_ne h.ne _ _

theorem record_key (h : k < n) : (L.record n a x m).key k = L.key k :=
  Function.update_of_ne h.ne _ _

theorem record_amount (h : k < n) : (L.record n a x m).amount k = L.amount k :=
  Function.update_of_ne h.ne _ _

theorem same_record {j : ℕ} (hj : j < n) (hk : k < n) :
    (L.record n a x m).Same j k ↔ L.Same j k := by
  unfold Same
  rw [record_author hj, record_author hk, record_key hj, record_key hk]

theorem isLast_record (hR : ∀ j ∈ R, j < n) :
    (L.record n a x m).IsLast R k ↔ L.IsLast R k := by
  refine and_congr_right fun hk => forall₂_congr fun j hj => ?_
  rw [same_record (hR j hj) (hR k hk)]

theorem Closed.record (h : L.Closed R) (hR : ∀ j ∈ R, j < n) : (L.record n a x m).Closed R := by
  intro k hk j hj hauthor
  rw [record_author (hR k hk), record_author (hj.trans (hR k hk))] at hauthor
  exact h k hk j hj hauthor

/-- Who knows all earlier entries of the author knows a closed set with the new one. -/
theorem Closed.insert_record (h : L.Closed R) (hR : ∀ j ∈ R, j < n)
    (hall : ∀ j < n, L.author j = a → j ∈ R) : (L.record n a x m).Closed (insert n R) := by
  intro k hk j hj hauthor
  rcases mem_insert.1 hk with rfl | hk
  · rw [record_author_self, record_author hj] at hauthor
    exact mem_insert_of_mem (hall j hj hauthor)
  · exact mem_insert_of_mem (h.record hR k hk j hj hauthor)

section Totals

variable [DecidableEq α] [DecidableEq κ] [AddCommMonoid M]

theorem sumBefore_record (h : k ≤ n) (b : α) (y : κ) :
    (L.record n a x m).sumBefore k b y = L.sumBefore k b y := by
  refine sum_congr (filter_congr fun j hj => ?_) fun j hj => ?_
  · rw [record_author ((mem_range.1 hj).trans_le h), record_key ((mem_range.1 hj).trans_le h)]
  · rw [record_amount ((mem_range.1 (mem_filter.1 hj).1).trans_le h)]

theorem total_record (h : k < n) : (L.record n a x m).total k = L.total k := by
  unfold total
  rw [sumBefore_record h, record_author h, record_key h]

/-- The new entry adds its amount to what its author had put on the key. -/
theorem total_record_self : (L.record n a x m).total n = L.sumBefore n a x + m := by
  have hold := sumBefore_record (L := L) (m := m) (a := a) (x := x) (le_refl n) a x
  unfold total
  rw [record_author_self, record_key_self, ← hold]
  unfold sumBefore
  rw [sum_filter, sum_filter, sum_range_succ]
  simp

end Totals

end Ledger
