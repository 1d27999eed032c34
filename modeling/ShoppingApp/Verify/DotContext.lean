import ShoppingApp.Crdt.DotContext

/-!
# Dot contexts as sets of dots

`contains` reads a context as a set of dots. On dots with non-negative sequence numbers `compact`
keeps that set (`contains_compact`), `join` is union (`contains_join`), and two compacted contexts
with the same set are equal (`Compacted.ext`), so equations between contexts reduce to equations
between sets.
-/

namespace ShoppingApp

namespace DotContext

/-- Clock values and sequence numbers are non-negative. -/
structure NonNeg (c : DotContext) : Prop where
  vc : ∀ {r n}, c.vc.find? r = some n → 0 ≤ n
  dc : ∀ d ∈ c.dc.elems, 0 ≤ d.second

/-- `compact` leaves the dot `d` where it is. -/
def Open (vc : VectorClock) (d : Dot) : Prop :=
  (vc.find? d.first = none → d.second ≠ 0) ∧ ∀ n, vc.find? d.first = some n → n + 1 < d.second

/-- No dot of the cloud can be moved into the clock. -/
def Compacted (c : DotContext) : Prop := ∀ d ∈ c.dc.elems, Open c.vc d

/-- The clock covers `d`. -/
def Covers (vc : VectorClock) (d : Dot) : Prop := ∃ n, vc.find? d.first = some n ∧ d.second ≤ n

theorem contains_iff (c : DotContext) (d : Dot) :
    c.contains d = true ↔ Covers c.vc d ∨ d ∈ c.dc.elems := by
  unfold contains Covers SortedSet.contains
  cases h : c.vc.find? d.first <;> simp

@[simp] theorem contains_empty (d : Dot) : (∅ : DotContext).contains d = false := by
  simp [contains, SortedSet.contains]

/-- A context without cloud sees every dot below one that it sees. -/
theorem contains_of_le {c : DotContext} (hc : c.dc = ∅) {d e : Dot} (h : c.contains d = true)
    (hfirst : e.first = d.first) (hle : e.second ≤ d.second) : c.contains e = true := by
  rw [contains_iff] at h ⊢
  rcases h with ⟨n, hn, hdn⟩ | hmem
  · exact .inl ⟨n, hfirst ▸ hn, hle.trans hdn⟩
  · rw [hc] at hmem
    cases hmem

theorem nonNeg_iff {c : DotContext} :
    NonNeg c ↔ (∀ e ∈ c.vc.entries, 0 ≤ e.2) ∧ ∀ d ∈ c.dc.elems, 0 ≤ d.second := by
  constructor
  · exact fun h => ⟨fun e he => h.vc ((SortedMap.find?_eq_some _).2 he), h.dc⟩
  · exact fun h => ⟨fun hn => h.1 _ ((SortedMap.find?_eq_some _).1 hn), h.2⟩

instance (c : DotContext) : Decidable (NonNeg c) := decidable_of_iff' _ nonNeg_iff

theorem NonNeg.empty : NonNeg ∅ := ⟨fun h => by simp at h, fun d hd => by simp at hd⟩

/-! ## The scan -/

/-- Writing `n` at `r` covers the dots up to `n` of `r`, and what was covered of the others. -/
theorem covers_set {vc : VectorClock} {r : String} {n : Int} {d : Dot} :
    Covers (vc.set r n) d ↔ (d.first = r ∧ d.second ≤ n) ∨ (d.first ≠ r ∧ Covers vc d) := by
  unfold Covers
  rw [SortedMap.find?_set]
  by_cases h : d.first = r <;> simp [h]

/-- A first dot of a replica that becomes its clock entry. -/
theorem covers_insert_first {vc : VectorClock} {d e : Dot} (hnone : vc.find? e.first = none)
    (hle : d.first = e.first → d.second ≤ e.second → d.second = e.second) :
    Covers (vc.insert e.first e.second) d ↔ Covers vc d ∨ d = e := by
  unfold Covers
  rw [SortedMap.find?_insert, hnone]
  by_cases hf : d.first = e.first
  · have heq : d = e ↔ d.second ≤ e.second := by
      constructor
      · rintro rfl; exact le_rfl
      · exact fun h => Dot.ext hf (hle hf h)
    simp [hf, hnone, heq]
  · have hne : d ≠ e := fun h => hf (h ▸ rfl)
    simp [hf, hne]

/-- The dot after a replica's clock entry. -/
theorem covers_set_next {vc : VectorClock} {d e : Dot} {n : Int}
    (hsome : vc.find? e.first = some n) (hnext : e.second = n + 1) :
    Covers (vc.set e.first (n + 1)) d ↔ Covers vc d ∨ d = e := by
  rw [covers_set]
  unfold Covers
  by_cases hf : d.first = e.first
  · have heq : d = e ↔ d.second = n + 1 := by
      constructor
      · rintro rfl; exact hnext
      · exact fun h => Dot.ext hf (h.trans hnext.symm)
    rw [hf, hsome, heq]
    simp only [true_and, ne_eq, not_true_eq_false, false_and, or_false,
      Option.some.injEq, exists_eq_left']
    omega
  · have hne : d ≠ e := fun h => hf (h ▸ rfl)
    simp [hf, hne]

theorem compactScan_covers {d : Dot} (hd : 0 ≤ d.second) : ∀ (ds : List Dot) (vc : VectorClock),
    (Covers (compactScan vc ds).1 d ∨ d ∈ (compactScan vc ds).2.1) ↔ (Covers vc d ∨ d ∈ ds)
  | [], _ => Iff.rfl
  | e :: ds, vc => by
    unfold compactScan
    split
    · rename_i hnone
      split_ifs with h0
      · -- a first dot numbered 0 becomes the clock entry
        have hcov : Covers (vc.insert e.first e.second) d ↔ Covers vc d ∨ d = e :=
          covers_insert_first hnone fun _ hle => by omega
        rw [compactScan_covers hd ds, hcov, List.mem_cons, or_assoc]
      · have ih := compactScan_covers hd ds vc
        simp only [List.mem_cons]
        rw [or_left_comm, ih, or_left_comm]
    · rename_i n hsome
      split_ifs with h1 h2
      · rw [compactScan_covers hd ds, covers_set_next hsome h1.symm, List.mem_cons, or_assoc]
      · have hcov : d = e → Covers vc d := by
          rintro rfl; exact ⟨n, hsome, h2⟩
        rw [compactScan_covers hd ds, List.mem_cons]
        tauto
      · have ih := compactScan_covers hd ds vc
        simp only [List.mem_cons]
        rw [or_left_comm, ih, or_left_comm]

/-- A scan forgets no dot, whatever its number. -/
theorem compactScan_covers_of {d : Dot} : ∀ (ds : List Dot) (vc : VectorClock),
    Covers vc d ∨ d ∈ ds → Covers (compactScan vc ds).1 d ∨ d ∈ (compactScan vc ds).2.1
  | [], _, h => h
  | e :: ds, vc, h => by
    rw [List.mem_cons] at h
    unfold compactScan
    split
    · rename_i hnone
      split_ifs with h0
      · refine compactScan_covers_of ds _ ?_
        unfold Covers at h ⊢
        rw [SortedMap.find?_insert, hnone]
        rcases h with ⟨n, hn, hle⟩ | rfl | hmem
        · have hne : d.first ≠ e.first := fun heq => by
            rw [heq, hnone] at hn
            cases hn
          rw [if_neg hne]
          exact .inl ⟨n, hn, hle⟩
        · rw [if_pos rfl]
          exact .inl ⟨_, rfl, le_rfl⟩
        · exact .inr hmem
      · have ih := compactScan_covers_of (d := d) ds vc
        simp only [List.mem_cons]
        tauto
    · rename_i n hsome
      split_ifs with h1 h2
      · refine compactScan_covers_of ds _ ?_
        rw [covers_set_next hsome h1.symm, or_assoc]
        exact h
      · refine compactScan_covers_of ds _ ?_
        rcases h with hcov | rfl | hmem
        · exact .inl hcov
        · exact .inl ⟨n, hsome, h2⟩
        · exact .inr hmem
      · have ih := compactScan_covers_of (d := d) ds vc
        simp only [List.mem_cons]
        tauto

/-- A scan that leaves the flag down changes nothing. -/
theorem compactScan_unflagged : ∀ (ds : List Dot) (vc : VectorClock),
    (compactScan vc ds).2.2 = false →
      compactScan vc ds = (vc, ds, false) ∧ ∀ d ∈ ds, Open vc d
  | [], _, _ => ⟨rfl, fun _ h => by cases h⟩
  | e :: ds, vc, h => by
    unfold compactScan at h ⊢
    split at h
    · rename_i hnone
      split_ifs at h with h0
      obtain ⟨heq, hopen⟩ := compactScan_unflagged ds vc h
      simp only [h0, if_false, heq]
      refine ⟨trivial, fun d hd => ?_⟩
      rcases List.mem_cons.1 hd with rfl | hd
      · exact ⟨fun _ => h0, fun n hn => by rw [hnone] at hn; cases hn⟩
      · exact hopen d hd
    · rename_i n hsome
      split_ifs at h with h1 h2
      obtain ⟨heq, hopen⟩ := compactScan_unflagged ds vc h
      simp only [h1, h2, if_false, heq]
      refine ⟨trivial, fun d hd => ?_⟩
      rcases List.mem_cons.1 hd with rfl | hd
      · refine ⟨fun hn => ?_, fun m hm => ?_⟩
        · rw [hsome] at hn; cases hn
        · obtain rfl : n = m := Option.some.inj (hsome.symm.trans hm)
          omega
      · exact hopen d hd

theorem compactScan_of_open : ∀ (ds : List Dot) (vc : VectorClock), (∀ d ∈ ds, Open vc d) →
    compactScan vc ds = (vc, ds, false)
  | [], _, _ => rfl
  | e :: ds, vc, h => by
    have ih := compactScan_of_open ds vc fun d hd => h d (List.mem_cons_of_mem _ hd)
    obtain ⟨hnone, hsome⟩ := h e List.mem_cons_self
    unfold compactScan
    split
    · rename_i hn
      simp [hnone hn, ih]
    · rename_i n hn
      have := hsome n hn
      rw [if_neg (by omega), if_neg (by omega), ih]

/-- A scan that raises the flag erases a dot. -/
theorem compactScan_flagged : ∀ (ds : List Dot) (vc : VectorClock),
    (compactScan vc ds).2.2 = true → (compactScan vc ds).2.1.length < ds.length
  | [], _, h => by cases h
  | e :: ds, vc, h => by
    have hlen : ∀ vc', (compactScan vc' ds).2.1.length ≤ ds.length := fun vc' =>
      (compactScan_sublist ds vc').length_le
    unfold compactScan at h ⊢
    split at h
    · rename_i hnone
      split_ifs at h with h0
      · simp only [h0, if_true, List.length_cons]
        exact Nat.lt_succ_of_le (hlen _)
      · simp only [h0, if_false, List.length_cons]
        exact Nat.succ_lt_succ (compactScan_flagged ds vc h)
    · rename_i n hsome
      split_ifs at h with h1 h2
      · simp only [h1, if_true, List.length_cons]
        exact Nat.lt_succ_of_le (hlen _)
      · simp only [h1, h2, if_true, if_false, List.length_cons]
        exact Nat.lt_succ_of_le (hlen _)
      · simp only [h1, h2, if_false, List.length_cons]
        exact Nat.succ_lt_succ (compactScan_flagged ds vc h)

theorem compactScan_nonNeg : ∀ (ds : List Dot) (vc : VectorClock),
    (∀ r n, vc.find? r = some n → 0 ≤ n) → (∀ d ∈ ds, 0 ≤ d.second) →
    ∀ r n, (compactScan vc ds).1.find? r = some n → 0 ≤ n
  | [], _, hvc, _ => hvc
  | e :: ds, vc, hvc, hds => by
    have hds' : ∀ d ∈ ds, 0 ≤ d.second := fun d hd => hds d (List.mem_cons_of_mem _ hd)
    have he : 0 ≤ e.second := hds e List.mem_cons_self
    unfold compactScan
    split
    · rename_i hnone
      split_ifs with h0
      · refine compactScan_nonNeg ds _ (fun r n hn => ?_) hds'
        rw [SortedMap.find?_insert, hnone] at hn
        split_ifs at hn
        · cases hn; exact he
        · exact hvc r n hn
      · exact compactScan_nonNeg ds vc hvc hds'
    · rename_i m hsome
      split_ifs with h1 h2
      · refine compactScan_nonNeg ds _ (fun r n hn => ?_) hds'
        rw [SortedMap.find?_set] at hn
        split_ifs at hn
        · cases hn; omega
        · exact hvc r n hn
      · exact compactScan_nonNeg ds vc hvc hds'
      · exact compactScan_nonNeg ds vc hvc hds'

/-! ## compact -/

theorem contains_compactPass (c : DotContext) {d : Dot} (hd : 0 ≤ d.second) :
    (compactPass c).1.contains d = c.contains d := by
  rw [Bool.eq_iff_iff, contains_iff, contains_iff]
  exact compactScan_covers hd _ _

theorem NonNeg.compactPass {c : DotContext} (h : NonNeg c) : NonNeg (compactPass c).1 :=
  ⟨fun hn => compactScan_nonNeg _ _ (fun _ _ => h.vc) h.dc _ _ hn,
    fun d hd => h.dc d ((compactScan_sublist _ _).subset hd)⟩

/-- The loop ends within one pass per dot and one more, and what it ends with is compacted. -/
theorem compactLoop_spec : ∀ (fuel : Nat) (c : DotContext), c.dc.elems.length < fuel →
    ∃ c', compactLoop fuel c = some c' ∧ Compacted c' ∧ (NonNeg c → NonNeg c') ∧
      ∀ d : Dot, 0 ≤ d.second → c'.contains d = c.contains d
  | 0, _, h => absurd h (Nat.not_lt_zero _)
  | fuel + 1, c, h => by
    unfold compactLoop
    split_ifs with hflag
    · have hlt : (compactPass c).1.dc.elems.length < c.dc.elems.length :=
        compactScan_flagged _ _ hflag
      obtain ⟨c', hrun, hcomp, hnn, hcont⟩ := compactLoop_spec fuel (compactPass c).1 (by omega)
      refine ⟨c', hrun, hcomp, fun hc => hnn hc.compactPass, fun d hd => ?_⟩
      rw [hcont d hd, contains_compactPass c hd]
    · have hf : (compactScan c.vc c.dc.elems).2.2 = false := by
        simpa [compactPass] using hflag
      obtain ⟨heq, hopen⟩ := compactScan_unflagged _ _ hf
      refine ⟨_, rfl, ?_, NonNeg.compactPass, fun d => contains_compactPass c⟩
      simpa [Compacted, compactPass, heq] using hopen

theorem compactLoop_isSome (c : DotContext) :
    compactLoop (c.dc.elems.length + 1) c = some (compact c) := by
  obtain ⟨c', hrun, -⟩ := compactLoop_spec _ c (Nat.lt_succ_self _)
  rw [compact, hrun, Option.getD_some]

theorem compact_spec (c : DotContext) : Compacted (compact c) ∧ (NonNeg c → NonNeg (compact c)) ∧
    ∀ d : Dot, 0 ≤ d.second → (compact c).contains d = c.contains d := by
  obtain ⟨c', hrun, hspec⟩ := compactLoop_spec _ c (Nat.lt_succ_self _)
  have : compact c = c' := by rw [compact, hrun, Option.getD_some]
  rw [this]; exact hspec

theorem compact_compacted (c : DotContext) : Compacted (compact c) := (compact_spec c).1

theorem NonNeg.compact {c : DotContext} (h : NonNeg c) : NonNeg (compact c) :=
  (compact_spec c).2.1 h

/-- `compact` keeps the set of dots seen. -/
theorem contains_compact (c : DotContext) {d : Dot} (hd : 0 ≤ d.second) :
    (compact c).contains d = c.contains d :=
  (compact_spec c).2.2 d hd

/-- What a pass keeps, the `while` loop keeps. -/
theorem compactLoop_keeps {P : DotContext → Prop} (hpass : ∀ c, P c → P (compactPass c).1) :
    ∀ (fuel : Nat) (c c' : DotContext), compactLoop fuel c = some c' → P c → P c'
  | 0, _, _, hrun, _ => by cases hrun
  | fuel + 1, c, c', hrun, h => by
    unfold compactLoop at hrun
    split_ifs at hrun with hflag
    · exact compactLoop_keeps hpass fuel _ _ hrun (hpass c h)
    · cases hrun
      exact hpass c h

theorem compact_keeps {P : DotContext → Prop} (hpass : ∀ c, P c → P (compactPass c).1)
    {c : DotContext} (h : P c) : P (compact c) :=
  compactLoop_keeps hpass _ _ _ (compactLoop_isSome c) h

/-- `compact` forgets no dot, also none with a negative number. -/
theorem contains_compact_of_contains {c : DotContext} {d : Dot} (h : c.contains d = true) :
    (compact c).contains d = true := by
  refine compact_keeps (P := fun c => c.contains d = true) (fun c hc => ?_) h
  rw [contains_iff] at hc ⊢
  exact compactScan_covers_of _ _ hc

theorem Compacted.compact_eq {c : DotContext} (h : Compacted c) : compact c = c := by
  have hscan := compactScan_of_open _ _ h
  simp [compact, compactLoop, compactPass, hscan]

theorem Compacted.of_dc_empty {c : DotContext} (h : c.dc = ∅) : Compacted c := by
  intro d hd; rw [h] at hd; cases hd

/-! ## Compacted contexts are determined by their dots -/

/-- The clock entry of a compacted context is the length of the run of dots seen from 0 on. -/
theorem Compacted.find?_le {c c' : DotContext} (hnn : NonNeg c)
    (hc' : Compacted c') (hnn' : NonNeg c')
    (h : ∀ d : Dot, 0 ≤ d.second → c.contains d = c'.contains d) {r : String} {n : Int}
    (hn : c.vc.find? r = some n) :
    ∃ m, c'.vc.find? r = some m ∧ n ≤ m := by
  have h0 : 0 ≤ n := hnn.vc hn
  -- the dot 0 is seen, so the other side has a clock entry
  have hzero : c'.contains ⟨r, 0⟩ = true := by
    rw [← h _ le_rfl, contains_iff]; exact .inl ⟨n, hn, h0⟩
  cases hm : c'.vc.find? r with
  | none =>
    rcases (contains_iff _ _).1 hzero with ⟨m, hm', -⟩ | hmem
    · rw [hm] at hm'; cases hm'
    · exact absurd rfl ((hc' _ hmem).1 hm)
  | some m =>
    refine ⟨m, rfl, ?_⟩
    by_contra hlt
    have hm0 : 0 ≤ m + 1 := by
      have := hnn'.vc hm
      omega
    -- the first dot above the smaller entry is seen on one side only
    have hseen : c'.contains ⟨r, m + 1⟩ = true := by
      rw [← h _ hm0, contains_iff]; exact .inl ⟨n, hn, by simp only; omega⟩
    rcases (contains_iff _ _).1 hseen with ⟨m', hm', hle⟩ | hmem
    · rw [hm] at hm'; cases hm'; simp only at hle; omega
    · have := (hc' _ hmem).2 m hm; simp only at this; omega

theorem Compacted.dc_subset {c c' : DotContext} (hc : Compacted c) (hnn : NonNeg c)
    (hvc : c.vc = c'.vc) (h : ∀ d : Dot, 0 ≤ d.second → c.contains d = c'.contains d) {d : Dot}
    (hd : d ∈ c.dc.elems) : d ∈ c'.dc.elems := by
  have hseen : c'.contains d = true := by
    rw [← h d (hnn.dc d hd), contains_iff]; exact .inr hd
  rcases (contains_iff _ _).1 hseen with ⟨n, hn, hle⟩ | hmem
  · have := (hc d hd).2 n (hvc ▸ hn); omega
  · exact hmem

/-- **Canonical form.** Compacted contexts that contain the same dots are equal. -/
theorem Compacted.ext {c c' : DotContext} (hc : Compacted c) (hc' : Compacted c') (hnn : NonNeg c)
    (hnn' : NonNeg c') (h : ∀ d : Dot, 0 ≤ d.second → c.contains d = c'.contains d) : c = c' := by
  have h' : ∀ d : Dot, 0 ≤ d.second → c'.contains d = c.contains d := fun d hd => (h d hd).symm
  have hvc : c.vc = c'.vc := by
    refine SortedMap.ext_find fun r => ?_
    cases hn : c.vc.find? r with
    | none =>
      cases hm : c'.vc.find? r with
      | none => rfl
      | some m =>
        obtain ⟨n, hn', -⟩ := Compacted.find?_le hnn' hc hnn h' hm
        rw [hn] at hn'; cases hn'
    | some n =>
      obtain ⟨m, hm, hle⟩ := Compacted.find?_le hnn hc' hnn' h hn
      obtain ⟨n', hn', hle'⟩ := Compacted.find?_le hnn' hc hnn h' hm
      obtain rfl : n = n' := Option.some.inj (hn.symm.trans hn')
      rw [hm, le_antisymm hle hle']
  have hdc : c.dc = c'.dc := SortedSet.ext_mem fun d =>
    ⟨hc.dc_subset hnn hvc h, hc'.dc_subset hnn' hvc.symm h'⟩
  cases c; cases c'; cases hvc; cases hdc; rfl

/-- Passes beyond the last one change nothing. -/
theorem compactLoop_mono : ∀ {passes more : Nat} {c c' : DotContext}, passes ≤ more →
    compactLoop passes c = some c' → compactLoop more c = some c'
  | 0, _, _, _, _, hrun => by cases hrun
  | passes + 1, 0, _, _, hle, _ => absurd hle (Nat.not_succ_le_zero _)
  | passes + 1, more + 1, c, c', hle, hrun => by
    unfold compactLoop at hrun ⊢
    split_ifs at hrun ⊢ with hflag
    · exact compactLoop_mono (Nat.le_of_succ_le_succ hle) hrun
    · exact hrun

/-- **compact terminates and gives a canonical form**: its loop ends, after at most one pass for
each dot of the cloud and one more, the dots seen stay, a second call changes nothing, and two
results are equal if and only if the same dots have been seen. -/
theorem compact_canonical {c : DotContext} (hc : NonNeg c) :
    (∀ passes, c.dc.elems.length < passes → compactLoop passes c = some (compact c)) ∧
      (∀ d : Dot, 0 ≤ d.second → (compact c).contains d = c.contains d) ∧
      compact (compact c) = compact c ∧
      ∀ o : DotContext, NonNeg o →
        (compact c = compact o ↔ ∀ d : Dot, 0 ≤ d.second → c.contains d = o.contains d) := by
  refine ⟨fun passes hlt => ?_, fun d => contains_compact c, (compact_compacted c).compact_eq,
    fun o ho => ⟨fun heq d hd => ?_, fun h => ?_⟩⟩
  · exact compactLoop_mono hlt (compactLoop_isSome c)
  · rw [← contains_compact c hd, heq, contains_compact o hd]
  · refine (compact_compacted c).ext (compact_compacted o) hc.compact ho.compact fun d hd => ?_
    rw [contains_compact c hd, contains_compact o hd]
    exact h d hd

/-- Two dots of user1 follow on its clock entry; user2's first one numbered 0 is missing. -/
def gaps : DotContext :=
  ⟨(∅ : VectorClock).set "user1" 1, ((∅ : SortedSet Dot).insert ⟨"user1", 3⟩).insert ⟨"user1", 2⟩
    |>.insert ⟨"user2", 1⟩⟩

theorem compact_canonical_gaps :
    compact gaps = ⟨(∅ : VectorClock).set "user1" 3, (∅ : SortedSet Dot).insert ⟨"user2", 1⟩⟩ ∧
      (∀ passes, gaps.dc.elems.length < passes → compactLoop passes gaps = some (compact gaps)) ∧
      (∀ d : Dot, 0 ≤ d.second → (compact gaps).contains d = gaps.contains d) ∧
      compact (compact gaps) = compact gaps ∧
      ∀ o : DotContext, NonNeg o →
        (compact gaps = compact o ↔ ∀ d : Dot, 0 ≤ d.second → gaps.contains d = o.contains d) :=
  ⟨by decide +kernel, compact_canonical (by decide +kernel)⟩

/-! ## join -/

theorem find?_joinClock (vc ovc : VectorClock) (r : String) :
    (joinClock vc ovc).find? r =
      match vc.find? r, ovc.find? r with
      | none, o => o
      | some n, none => some n
      | some n, some m => some (max n m) := by
  rw [joinClock, SortedMap.find?_merge (fun _ _ => rfl) (fun _ _ => rfl) fun _ _ _ => rfl]
  cases vc.find? r <;> cases ovc.find? r <;> simp only [SortedMap.mergeAt]
  rename_i n m
  by_cases h : n < m
  · rw [if_pos h, max_eq_right h.le]
  · rw [if_neg h, max_eq_left (not_lt.1 h)]

theorem covers_joinClock {vc ovc : VectorClock} {d : Dot} :
    Covers (joinClock vc ovc) d ↔ Covers vc d ∨ Covers ovc d := by
  unfold Covers
  rw [find?_joinClock]
  cases vc.find? d.first <;> cases ovc.find? d.first <;> simp

theorem contains_join (c o : DotContext) {d : Dot} (hd : 0 ≤ d.second) :
    (c.join o).contains d = (c.contains d || o.contains d) := by
  rw [join, contains_compact _ hd, Bool.eq_iff_iff, Bool.or_eq_true, contains_iff, contains_iff,
    contains_iff, covers_joinClock, SortedSet.mem_foldl_insert]
  exact or_or_or_comm

/-- A join has seen what either side has. -/
theorem contains_join_of_or {c o : DotContext} {d : Dot}
    (h : c.contains d = true ∨ o.contains d = true) : (c.join o).contains d = true := by
  rw [join]
  apply contains_compact_of_contains
  rw [contains_iff, contains_iff] at h
  rw [contains_iff, covers_joinClock, SortedSet.mem_foldl_insert]
  tauto

theorem join_compacted (c o : DotContext) : Compacted (c.join o) := compact_compacted _

theorem NonNeg.join {c o : DotContext} (hc : NonNeg c) (ho : NonNeg o) : NonNeg (c.join o) := by
  refine NonNeg.compact ⟨fun {r n} hn => ?_, fun d hd => ?_⟩
  · simp only [find?_joinClock] at hn
    cases h1 : c.vc.find? r with
    | none => rw [h1] at hn; exact ho.vc hn
    | some m =>
      cases h2 : o.vc.find? r with
      | none => rw [h1, h2] at hn; exact hc.vc (h1.trans hn)
      | some m' =>
        rw [h1, h2] at hn
        cases hn
        exact le_max_of_le_left (hc.vc h1)
  · rcases (SortedSet.mem_foldl_insert _ _).1 hd with hd | hd
    · exact hc.dc d hd
    · exact ho.dc d hd

/-- Joins of contexts without dot clouds have no dot cloud. -/
theorem join_dc_empty {c o : DotContext} (hc : c.dc = ∅) (ho : o.dc = ∅) :
    c.join o = ⟨joinClock c.vc o.vc, ∅⟩ := by
  rw [join, hc, ho]
  exact (Compacted.of_dc_empty rfl).compact_eq

/-- Without dot clouds a join sees what either side sees, whatever the sequence number. -/
theorem contains_join_of_dc_empty {c o : DotContext} (hc : c.dc = ∅) (ho : o.dc = ∅) (d : Dot) :
    (c.join o).contains d = (c.contains d || o.contains d) := by
  rw [join_dc_empty hc ho, Bool.eq_iff_iff, Bool.or_eq_true, contains_iff, contains_iff,
    contains_iff, covers_joinClock, hc, ho]
  simp

theorem NonNeg.join_comm {c o : DotContext} (hc : NonNeg c) (ho : NonNeg o) :
    c.join o = o.join c :=
  (join_compacted _ _).ext (join_compacted _ _) (hc.join ho) (ho.join hc) fun d hd => by
    rw [contains_join _ _ hd, contains_join _ _ hd, Bool.or_comm]

theorem NonNeg.join_assoc {c o p : DotContext} (hc : NonNeg c) (ho : NonNeg o) (hp : NonNeg p) :
    (c.join o).join p = c.join (o.join p) :=
  (join_compacted _ _).ext (join_compacted _ _) ((hc.join ho).join hp) (hc.join (ho.join hp))
    fun d hd => by simp only [contains_join _ _ hd, Bool.or_assoc]

theorem NonNeg.join_self {c : DotContext} (hc : NonNeg c) (h : Compacted c) : c.join c = c :=
  (join_compacted _ _).ext h (hc.join hc) hc fun d hd => by rw [contains_join _ _ hd, Bool.or_self]

theorem empty_join {c : DotContext} (h : Compacted c) : (∅ : DotContext).join c = c := by
  have hvc : joinClock ∅ c.vc = c.vc := SortedMap.ext_find fun r => by simp [find?_joinClock]
  have hdc : c.dc.elems.foldl SortedSet.insert ∅ = c.dc := SortedSet.ext_mem fun d => by
    simp [SortedSet.mem_foldl_insert]
  rw [join, vc_empty, dc_empty, hvc, hdc]
  exact h.compact_eq

theorem join_empty {c : DotContext} (h : Compacted c) : c.join ∅ = c := by
  have hvc : joinClock c.vc ∅ = c.vc := SortedMap.ext_find fun r => by
    rw [find?_joinClock]; cases c.vc.find? r <;> rfl
  rw [join, vc_empty, dc_empty, hvc, SortedSet.elems_empty, List.foldl_nil]
  exact h.compact_eq

/-- **join is union of the dots seen**, in either order and grouping the same context. -/
theorem join_union {a b c : DotContext} (ha : NonNeg a) (hb : NonNeg b) (hc : NonNeg c) :
    (∀ d : Dot, 0 ≤ d.second →
        ((a.join b).contains d = true ↔ a.contains d = true ∨ b.contains d = true)) ∧
      a.join b = b.join a ∧ (a.join b).join c = a.join (b.join c) := by
  refine ⟨fun d hd => ?_, ha.join_comm hb, ha.join_assoc hb hc⟩
  rw [contains_join a b hd, Bool.or_eq_true]

/-- A dot of one side's cloud comes to lie under the other side's clock. -/
theorem join_union_gaps :
    gaps.join ⟨(∅ : VectorClock).set "user2" 0, ∅⟩ =
        ⟨((∅ : VectorClock).set "user1" 3).set "user2" 1, ∅⟩ ∧
      (∀ d : Dot, 0 ≤ d.second → ((gaps.join ⟨(∅ : VectorClock).set "user2" 0, ∅⟩).contains d =
        true ↔ gaps.contains d = true ∨
          DotContext.contains ⟨(∅ : VectorClock).set "user2" 0, ∅⟩ d = true)) ∧
      gaps.join ⟨(∅ : VectorClock).set "user2" 0, ∅⟩ =
        DotContext.join ⟨(∅ : VectorClock).set "user2" 0, ∅⟩ gaps ∧
      (gaps.join ⟨(∅ : VectorClock).set "user2" 0, ∅⟩).join gaps =
        gaps.join (DotContext.join ⟨(∅ : VectorClock).set "user2" 0, ∅⟩ gaps) :=
  ⟨by decide +kernel, join_union (by decide +kernel) (by decide +kernel) (by decide +kernel)⟩

/-! ## nextDot -/

theorem nextDot_first (c : DotContext) (id : String) : (c.nextDot id).1.first = id := by
  unfold nextDot; split <;> rfl

theorem nextDot_dc (c : DotContext) (id : String) : (c.nextDot id).2.dc = c.dc := by
  unfold nextDot; split <;> rfl

theorem nextDot_vc (c : DotContext) (id : String) :
    (c.nextDot id).2.vc = c.vc.set id (c.nextDot id).1.second := by
  unfold nextDot; split <;> rfl

theorem NonNeg.nextDot_pos {c : DotContext} (h : NonNeg c) (id : String) :
    0 < (c.nextDot id).1.second := by
  unfold nextDot
  split
  · exact Int.one_pos
  · rename_i n hn
    have := h.vc hn
    simp only; omega

theorem NonNeg.nextDot {c : DotContext} (h : NonNeg c) (id : String) : NonNeg (c.nextDot id).2 := by
  refine ⟨fun {r n} hn => ?_, fun d hd => h.dc d (nextDot_dc c id ▸ hd)⟩
  rw [nextDot_vc, SortedMap.find?_set] at hn
  split_ifs at hn
  · cases hn; exact (h.nextDot_pos id).le
  · exact h.vc hn

/-- In a compacted context only an id without clock entry can be given a dot that was seen: its
first one, out of the cloud. -/
theorem nextDot_unseen_iff {c : DotContext} (h : Compacted c) (id : String) :
    c.contains (c.nextDot id).1 = false ↔
      (c.vc.find? id = none → (⟨id, 1⟩ : Dot) ∉ c.dc.elems) := by
  rw [Bool.eq_false_iff, ne_eq, contains_iff]
  unfold nextDot Covers
  split
  · rename_i hn
    simp [hn]
  · rename_i n hn
    -- a dot of the cloud lies above the one after the clock entry
    have hcloud : (⟨id, n + 1⟩ : Dot) ∉ c.dc.elems := fun hmem => ((h _ hmem).2 n hn).ne rfl
    refine iff_of_true ?_ fun hnone => ?_
    · rintro (⟨m, hm, hle⟩ | hmem)
      · obtain rfl : n = m := Option.some.inj (hn.symm.trans hm)
        exact absurd hle (not_le.2 (Int.lt_succ n))
      · exact hcloud hmem
    · rw [hn] at hnone
      cases hnone

/-- Without a dot cloud the new dot is new. -/
theorem nextDot_fresh {c : DotContext} (h : c.dc = ∅) (id : String) :
    c.contains (c.nextDot id).1 = false := by
  rw [nextDot_unseen_iff (Compacted.of_dc_empty h), h]
  exact fun _ => List.not_mem_nil

/-- After `nextDot` the dots of its id up to the new one are seen, and those seen before. -/
theorem contains_nextDot {c : DotContext} (hc : c.dc = ∅) (id : String) (d : Dot) :
    (c.nextDot id).2.contains d =
      if d.first = id then decide (d.second ≤ (c.nextDot id).1.second) else c.contains d := by
  rw [Bool.eq_iff_iff, contains_iff, nextDot_vc, nextDot_dc, hc, covers_set]
  split_ifs with h
  · simp [h]
  · rw [contains_iff, hc]; simp [h]

theorem contains_nextDot_of_contains {c : DotContext} {id : String} {d : Dot}
    (h : c.contains d = true) : (c.nextDot id).2.contains d = true := by
  rw [contains_iff] at h ⊢
  rw [nextDot_vc, nextDot_dc, covers_set]
  rcases h with ⟨n, hn, hle⟩ | hmem
  · by_cases hf : d.first = id
    · refine .inl (.inl ⟨hf, ?_⟩)
      unfold nextDot
      rw [← hf, hn]
      exact hle.trans (Int.le_add_one le_rfl)
    · exact .inl (.inr ⟨hf, n, hn, hle⟩)
  · exact .inr hmem

theorem contains_nextDot_self (c : DotContext) (id : String) :
    (c.nextDot id).2.contains (c.nextDot id).1 = true := by
  rw [contains_iff, nextDot_vc, covers_set]
  exact .inl (.inl ⟨nextDot_first c id, le_rfl⟩)

/-- Of the dots numbered from 1, only the new one is new. -/
theorem contains_nextDot_iff {c : DotContext} {id : String} {d : Dot} (hd : 0 < d.second) :
    (c.nextDot id).2.contains d = true ↔ d = (c.nextDot id).1 ∨ c.contains d = true := by
  constructor
  · intro h
    rw [contains_iff, nextDot_vc, nextDot_dc, covers_set] at h
    rw [contains_iff]
    rcases h with (⟨hf, hle⟩ | ⟨-, hcov⟩) | hmem
    · unfold Covers
      unfold nextDot at hle ⊢
      split at hle
      · exact .inl (Dot.ext hf (le_antisymm hle hd))
      · rename_i n hn
        rcases hle.eq_or_lt with heq | hlt
        · exact .inl (Dot.ext hf heq)
        · exact .inr (.inl ⟨n, hf ▸ hn, Int.lt_add_one_iff.1 hlt⟩)
    · exact .inr (.inl hcov)
    · exact .inr (.inr hmem)
  · rintro (rfl | h)
    · exact contains_nextDot_self c id
    · exact contains_nextDot_of_contains h

/-! ### New dots -/

/-- What is asked of a new dot: it has not been seen before, is seen afterwards, and of the others
numbered from 1 the same are seen. -/
structure NewDot (c : DotContext) (id : String) : Prop where
  unseen : c.contains (c.nextDot id).1 = false
  seen : (c.nextDot id).2.contains (c.nextDot id).1 = true
  others : ∀ d : Dot, 1 ≤ d.second → d ≠ (c.nextDot id).1 →
    (c.nextDot id).2.contains d = c.contains d

theorem newDot_iff {c : DotContext} (h : Compacted c) (id : String) :
    NewDot c id ↔ (c.vc.find? id = none → (⟨id, 1⟩ : Dot) ∉ c.dc.elems) := by
  rw [← nextDot_unseen_iff h]
  refine ⟨NewDot.unseen, fun hunseen => ⟨hunseen, contains_nextDot_self c id, fun d hd hne => ?_⟩⟩
  rw [Bool.eq_iff_iff, contains_nextDot_iff hd]
  exact or_iff_right hne

theorem compactPass_dc_subset (c : DotContext) {d : Dot} (hd : d ∈ (compactPass c).1.dc.elems) :
    d ∈ c.dc.elems :=
  (compactScan_sublist _ _).subset hd

/-- A scan makes no clock entry for an id without dots numbered 0. -/
theorem compactScan_find?_none {id : String} : ∀ (ds : List Dot) (vc : VectorClock),
    (∀ d ∈ ds, d.second ≠ 0) → vc.find? id = none → (compactScan vc ds).1.find? id = none
  | [], _, _, h => h
  | e :: ds, vc, hds, h => by
    have hds' : ∀ d ∈ ds, d.second ≠ 0 := fun d hd => hds d (List.mem_cons_of_mem _ hd)
    unfold compactScan
    split
    · rw [if_neg (hds e List.mem_cons_self)]
      exact compactScan_find?_none ds vc hds' h
    · rename_i n hn
      have hne : id ≠ e.first := fun heq => by rw [← heq, h] at hn; cases hn
      split_ifs
      · refine compactScan_find?_none ds _ hds' ?_
        rw [SortedMap.find?_set_ne _ _ hne]
        exact h
      · exact compactScan_find?_none ds vc hds' h
      · exact compactScan_find?_none ds vc hds' h

/-- Clouds numbered from 1 give no id its first clock entry, and take none away. -/
theorem compact_find?_none_iff {c : DotContext} (hdc : ∀ d ∈ c.dc.elems, 1 ≤ d.second)
    (id : String) : (compact c).vc.find? id = none ↔ c.vc.find? id = none := by
  have hcloud : ∀ d ∈ (compact c).dc.elems, 1 ≤ d.second :=
    compact_keeps (P := fun c => ∀ d ∈ c.dc.elems, 1 ≤ d.second)
      (fun c hc d hd => hc d (compactPass_dc_subset c hd)) hdc
  constructor
  · intro hnone
    cases hn : c.vc.find? id with
    | none => rfl
    | some n =>
      -- a dot under the clock entry and below 1 is still under a clock entry
      have hseen : c.contains ⟨id, min n 0⟩ = true :=
        (contains_iff _ _).2 (.inl ⟨n, hn, min_le_left n 0⟩)
      rcases (contains_iff _ _).1 (contains_compact_of_contains hseen) with ⟨m, hm, -⟩ | hmem
      · rw [hnone] at hm
        cases hm
      · have hpos : 1 ≤ min n 0 := hcloud _ hmem
        omega
  · intro hnone
    have hkeep : (∀ d ∈ (compact c).dc.elems, d.second ≠ 0) ∧ (compact c).vc.find? id = none := by
      refine compact_keeps
        (P := fun c => (∀ d ∈ c.dc.elems, d.second ≠ 0) ∧ c.vc.find? id = none) ?_ ?_
      · intro c hc
        exact ⟨fun d hd => hc.1 d (compactPass_dc_subset c hd),
          compactScan_find?_none _ _ hc.1 hc.2⟩
      · exact ⟨fun d hd => (Int.one_pos.trans_le (hdc d hd)).ne', hnone⟩
    exact hkeep.2

end DotContext

end ShoppingApp
