import ShoppingApp.Lib.SortedMap
import Mathlib.Data.List.MinMax
import Mathlib.Data.List.TakeDrop
import Mathlib.Data.List.TakeWhile

/-!
# Going round a circle of keys

The keys of a linear order as a circle: upwards, and from the largest on to the smallest. `Before`
orders keys by when they are met going round from a given one, `TakesOver` says which keys a new one
is the next one of, and `SortedMap.turn` is one turn round the entries of a map. Every turn is in
that order (`turn_pairwise`), turns from different keys are rotations of each other (`turn_rotate`),
and a key that is written only changes who comes first where it takes over (`head?_turn_set`).
-/

namespace Circle

variable {K : Type*} [LinearOrder K]

/-- Going round from `start`, which is met first, `a` comes before `b`. -/
def Before (start a b : K) : Prop :=
  (start ≤ a ∧ (a < b ∨ b < start)) ∨ (a < b ∧ b < start)

/-- The keys after `p` and up to `s`: upwards from `p`, going on from the smallest if `s` is below
it. -/
def Arc (p s k : K) : Prop := if p < s then p < k ∧ k ≤ s else p < k ∨ k ≤ s

/-- The last of the keys that is met before `s`: the largest below it, or else the largest. -/
def previous (keys : List K) (s : K) : Option K := (keys.filter (· < s)).max?.or keys.max?

/-- The keys for which a new key `s` is the next one: those on the arc that ends at `s` and starts
just after the previous key, and all if there are no keys. -/
def TakesOver (keys : List K) (s k : K) : Prop :=
  match previous keys s with
  | none => True
  | some p => Arc p s k

instance (p s k : K) : Decidable (Arc p s k) :=
  inferInstanceAs (Decidable (if p < s then p < k ∧ k ≤ s else p < k ∨ k ≤ s))

instance (keys : List K) (s k : K) : Decidable (TakesOver keys s k) :=
  match h : previous keys s with
  | none => isTrue (by rw [TakesOver, h]; trivial)
  | some p => decidable_of_iff (Arc p s k) (by rw [TakesOver, h])

variable {start a b c : K}

theorem Before.trans (hab : Before start a b) (hbc : Before start b c) : Before start a c := by
  unfold Before at *
  grind

theorem Before.asymm (h : Before start a b) : ¬ Before start b a := by
  unfold Before at *
  grind

theorem Before.ne (h : Before start a b) : a ≠ b := by
  rintro rfl
  exact h.asymm h

theorem previous_eq_none {keys : List K} {s : K} : previous keys s = none ↔ keys = [] := by
  unfold previous
  rw [Option.or_eq_none_iff, List.max?_eq_none_iff, List.max?_eq_none_iff]
  constructor
  · exact fun h => h.2
  · rintro rfl
    exact ⟨rfl, rfl⟩

/-- The previous key is below `s` and the largest there, or all keys are above `s`. -/
theorem previous_eq_some {keys : List K} {s p : K} (h : previous keys s = some p) :
    p ∈ keys ∧ ((p < s ∧ ∀ q ∈ keys, q < s → q ≤ p) ∨ ∀ q ∈ keys, s ≤ q ∧ q ≤ p) := by
  unfold previous at h
  rcases Option.or_eq_some_iff.1 h with hbelow | ⟨hnone, hall⟩
  · obtain ⟨hmem, hmax⟩ := List.max?_eq_some_iff.1 hbelow
    obtain ⟨hp, hlt⟩ := List.mem_filter.1 hmem
    refine ⟨hp, .inl ⟨of_decide_eq_true hlt, fun q hq hqs => ?_⟩⟩
    exact hmax q (List.mem_filter.2 ⟨hq, decide_eq_true hqs⟩)
  · obtain ⟨hp, hmax⟩ := List.max?_eq_some_iff.1 hall
    refine ⟨hp, .inr fun q hq => ⟨?_, hmax q hq⟩⟩
    by_contra hlt
    have hmem : q ∈ keys.filter (· < s) := List.mem_filter.2 ⟨hq, by simpa using hlt⟩
    rw [List.max?_eq_none_iff.1 hnone] at hmem
    cases hmem

/-- **The arc of a new key**: it takes over the keys from which it is met before all others. -/
theorem takesOver_iff {keys : List K} {s : K} (hs : s ∉ keys) (k : K) :
    TakesOver keys s k ↔ ∀ q ∈ keys, Before k s q := by
  unfold TakesOver
  cases hprev : previous keys s with
  | none =>
    rw [previous_eq_none] at hprev
    subst hprev
    simp
  | some p =>
    obtain ⟨hp, hlargest⟩ := previous_eq_some hprev
    have hne : ∀ q ∈ keys, q ≠ s := fun q hq heq => hs (heq ▸ hq)
    dsimp only
    constructor
    · intro harc q hq
      have hqs := hne q hq
      rcases hlargest with ⟨hlt, hmax⟩ | hall
      · have hqp := hmax q hq
        unfold Arc Before at *
        grind
      · have hqp := hall q hq
        have hps := (hall p hp).1
        unfold Arc Before at *
        grind
    · intro hfirst
      have hfirstp := hfirst p hp
      unfold Arc Before at *
      grind

end Circle

namespace SortedMap

open Circle

variable {K V : Type*} [LinearOrder K]

/-- One turn round the entries, from the first at or above `k` on. -/
def turn (m : SortedMap K V) (k : K) : List (K × V) := (m.lowerBound k).2 ++ (m.lowerBound k).1

/-- The entries below `k` come first, then those at or above it. -/
theorem lowerBound_spec (m : SortedMap K V) (k : K) :
    m.entries = (m.lowerBound k).1 ++ (m.lowerBound k).2 ∧
      (∀ e ∈ (m.lowerBound k).1, e.1 < k) ∧ ∀ e ∈ (m.lowerBound k).2, k ≤ e.1 := by
  unfold lowerBound
  rw [List.span_eq_takeWhile_dropWhile]
  refine ⟨List.takeWhile_append_dropWhile.symm, fun e he => ?_, fun e he => ?_⟩
  · have hlt := List.mem_takeWhile_imp he
    exact of_decide_eq_true hlt
  · dsimp only at he
    have hsorted := m.sorted.sublist (List.dropWhile_sublist fun e => decide (e.1 < k))
    have hhead := List.head?_dropWhile_not (fun e : K × V => decide (e.1 < k)) m.entries
    cases hdrop : m.entries.dropWhile fun e => decide (e.1 < k) with
    | nil =>
      rw [hdrop] at he
      cases he
    | cons first rest =>
      rw [hdrop] at he hsorted hhead
      have hfirst : k ≤ first.1 := not_lt.1 (of_decide_eq_false hhead)
      rcases List.mem_cons.1 he with rfl | he
      · exact hfirst
      · exact hfirst.trans ((List.pairwise_cons.1 hsorted).1 e he).le

/-- Wherever the entries are cut between those below `k` and the others, that is the turn. -/
theorem turn_of_cut {m : SortedMap K V} {k : K} {below above : List (K × V)}
    (h : m.entries = below ++ above) (hbelow : ∀ e ∈ below, e.1 < k)
    (habove : ∀ e ∈ above, k ≤ e.1) : m.turn k = above ++ below := by
  have hstop : ∀ e ∈ above.head?, decide (e.1 < k) = false := fun e he =>
    decide_eq_false (not_lt.2 (habove e (List.mem_of_mem_head? he)))
  have hpos : ∀ e ∈ below, decide (e.1 < k) = true := fun e he => decide_eq_true (hbelow e he)
  unfold turn lowerBound
  rw [List.span_eq_takeWhile_dropWhile, h, List.takeWhile_append_of_pos hpos,
    List.dropWhile_append_of_pos hpos]
  cases above with
  | nil => simp
  | cons first rest =>
    have hfirst : decide (first.1 < k) = false := hstop first rfl
    simp [hfirst]

theorem turn_perm (m : SortedMap K V) (k : K) : (m.turn k).Perm m.entries := by
  rw [(m.lowerBound_spec k).1]
  exact List.perm_append_comm

theorem mem_turn {m : SortedMap K V} {k : K} {e : K × V} : e ∈ m.turn k ↔ e ∈ m.entries :=
  (m.turn_perm k).mem_iff

/-- A turn meets the keys in the order in which they come from `k`. -/
theorem turn_pairwise (m : SortedMap K V) (k : K) :
    (m.turn k).Pairwise fun a b => Before k a.1 b.1 := by
  obtain ⟨hcut, hbelow, habove⟩ := m.lowerBound_spec k
  have hsorted := m.sorted
  rw [hcut, List.pairwise_append] at hsorted
  obtain ⟨hsortedBelow, hsortedAbove, -⟩ := hsorted
  unfold turn
  refine List.pairwise_append.2 ⟨?_, ?_, fun a ha b hb => ?_⟩
  · exact hsortedAbove.imp_of_mem fun ha _ hab => .inl ⟨habove _ ha, .inl hab⟩
  · exact hsortedBelow.imp_of_mem fun _ hb hab => .inr ⟨hab, hbelow _ hb⟩
  · exact .inl ⟨habove a ha, .inr (hbelow b hb)⟩

/-- The turn from the key of an entry is the turn from anywhere else, rotated. -/
theorem turn_rotate {m : SortedMap K V} {k : K} {before after : List (K × V)} {e : K × V}
    (h : m.turn k = before ++ e :: after) : m.turn e.1 = (e :: after) ++ before := by
  obtain ⟨hcut, -, -⟩ := m.lowerBound_spec k
  have hsorted := m.sorted
  rw [hcut] at hsorted
  rcases List.append_eq_append_iff.1 h with ⟨mid, hmid, hbelow⟩ | ⟨mid, habove, hmid⟩
  · -- the entry is one of those below `k`
    rw [hbelow, List.append_assoc, List.cons_append] at hcut
    rw [hbelow, List.append_assoc, List.cons_append, List.pairwise_append,
      List.pairwise_cons] at hsorted
    obtain ⟨-, ⟨hafter, -⟩, hbefore⟩ := hsorted
    rw [turn_of_cut hcut (fun x hx => hbefore x hx e List.mem_cons_self) ?_, hmid]
    · simp
    · exact List.forall_mem_cons.2 ⟨le_rfl, fun x hx => (hafter x hx).le⟩
  · cases mid with
    | nil =>
      -- the entry is the first of those below `k`
      rw [List.nil_append] at hmid
      rw [← hmid, List.cons_append] at hcut
      rw [← hmid, List.cons_append, List.pairwise_cons] at hsorted
      obtain ⟨hafter, -⟩ := hsorted
      rw [List.append_nil] at habove
      have hcut_nil : m.entries = [] ++ e :: (after ++ (m.lowerBound k).2) := hcut
      rw [turn_of_cut hcut_nil (fun x hx => absurd hx List.not_mem_nil) ?_, habove]
      · simp
      · exact List.forall_mem_cons.2 ⟨le_rfl, fun x hx => (hafter x hx).le⟩
    | cons first mid =>
      rw [List.cons_append, List.cons.injEq] at hmid
      obtain ⟨rfl, rfl⟩ := hmid
      rw [habove, ← List.append_assoc] at hcut hsorted
      rw [List.pairwise_append, List.pairwise_cons] at hsorted
      obtain ⟨-, ⟨hafter, -⟩, hbefore⟩ := hsorted
      rw [turn_of_cut hcut (fun x hx => hbefore x hx e List.mem_cons_self) ?_]
      · simp
      · exact List.forall_mem_cons.2 ⟨le_rfl, fun x hx => (hafter x hx).le⟩

/-- The first entry of a turn is the one that is met before all others. -/
theorem head?_turn_eq_some {m : SortedMap K V} {k : K} {e : K × V} :
    (m.turn k).head? = some e ↔
      e ∈ m.entries ∧ ∀ q ∈ m.keys, q ≠ e.1 → Before k e.1 q := by
  have hmem : ∀ q, q ∈ m.keys ↔ ∃ x ∈ m.turn k, x.1 = q := by
    intro q
    unfold keys
    rw [List.mem_map]
    simp only [mem_turn]
  constructor
  · intro h
    obtain ⟨rest, hturn⟩ := List.head?_eq_some_iff.1 h
    have hpairwise := m.turn_pairwise k
    rw [hturn, List.pairwise_cons] at hpairwise
    refine ⟨mem_turn.1 (hturn ▸ List.mem_cons_self), fun q hq hne => ?_⟩
    obtain ⟨x, hx, rfl⟩ := (hmem q).1 hq
    rw [hturn] at hx
    rcases List.mem_cons.1 hx with rfl | hx
    · exact absurd rfl hne
    · exact hpairwise.1 x hx
  · rintro ⟨he, hfirst⟩
    obtain ⟨before, after, hturn⟩ := List.append_of_mem (mem_turn.2 he : e ∈ m.turn k)
    cases before with
    | nil =>
      rw [hturn]
      rfl
    | cons x before =>
      -- an entry before it would be met before it and after it
      have hpairwise := m.turn_pairwise k
      rw [hturn, List.cons_append, List.pairwise_cons] at hpairwise
      have hxe : Before k x.1 e.1 :=
        hpairwise.1 e (List.mem_append_right _ List.mem_cons_self)
      have hq : x.1 ∈ m.keys := (hmem x.1).2 ⟨x, hturn ▸ List.mem_cons_self, rfl⟩
      exact absurd hxe (hfirst x.1 hq hxe.ne).asymm

theorem mem_keys_set {m : SortedMap K V} {s q : K} {v : V} :
    q ∈ (m.set s v).keys ↔ q = s ∨ q ∈ m.keys := by
  rw [mem_keys, mem_keys]
  by_cases hq : q = s
  · simp [hq]
  · simp [find?_set, hq]

/-- After a key is written, a turn starts at it or where it did before. -/
theorem head?_turn_set (m : SortedMap K V) (s k : K) (v : V) :
    ((m.set s v).turn k).head? = some (s, v) ∨
      ((m.set s v).turn k).head? = (m.turn k).head? := by
  cases hhead : ((m.set s v).turn k).head? with
  | none =>
    have hmem : (s, v) ∈ (m.set s v).turn k := mem_turn.2 ((find?_eq_some _).1 (find?_set_self m s v))
    rw [List.head?_eq_none_iff.1 hhead] at hmem
    cases hmem
  | some e =>
    obtain ⟨he, hfirst⟩ := head?_turn_eq_some.1 hhead
    have hfind : (m.set s v).find? e.1 = some e.2 := (find?_eq_some _).2 he
    by_cases hes : e.1 = s
    · rw [hes, find?_set_self, Option.some.injEq] at hfind
      exact .inl (congrArg some (Prod.ext hes hfind.symm))
    · rw [find?_set_ne _ _ hes] at hfind
      refine .inr (head?_turn_eq_some.2 ⟨(find?_eq_some _).1 hfind, fun q hq => ?_⟩).symm
      exact hfirst q (mem_keys_set.2 (.inr hq))

/-- A turn starts at a new key exactly from the keys that it takes over. -/
theorem head?_turn_set_new {m : SortedMap K V} {s : K} (hs : m.find? s = none) (k : K) (v : V) :
    ((m.set s v).turn k).head? = some (s, v) ↔ TakesOver m.keys s k := by
  have hkeys : s ∉ m.keys := by
    rw [mem_keys, hs]
    rintro ⟨v, hv⟩
    cases hv
  rw [takesOver_iff hkeys, head?_turn_eq_some]
  constructor
  · rintro ⟨-, hfirst⟩ q hq
    have hne : q ≠ s := fun heq => hkeys (heq ▸ hq)
    exact hfirst q (mem_keys_set.2 (.inr hq)) hne
  · intro hfirst
    refine ⟨(find?_eq_some _).1 (find?_set_self m s v), fun q hq hne => ?_⟩
    exact hfirst q ((mem_keys_set.1 hq).resolve_left hne)

end SortedMap
