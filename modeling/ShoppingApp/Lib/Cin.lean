import Mathlib.Data.List.TakeWhile
import Mathlib.Order.Basic

/-!
# Formatted input

Extraction with `>>` into a `std::string` and into an `int` in the C locale. A stream is what has
not been read and whether an extraction has failed; one that has failed gives nothing until it is
cleared. Words with white space between them are read one by one (`Typed.readWord`), and numbers in
decimal are read as what they are (`Typed.readInt`).
-/

/-- What there is to read, and the stream's `failbit`. -/
structure Cin where
  input : List Char
  fail : Bool
  deriving DecidableEq

namespace Cin

/-- `isspace` -/
def isspace (c : Char) : Bool := c.toNat == 32 || (9 ≤ c.toNat && c.toNat ≤ 13)

def INT_MAX : Int := 2147483647

def INT_MIN : Int := -2147483648

/-- `>>` into a string; nothing is written if there is no word. -/
def readWord (c : Cin) : Option String × Cin :=
  if c.fail then (none, c)
  else
    match c.input.dropWhile isspace with
    | [] => (none, ⟨[], true⟩)
    | first :: rest =>
      (some (String.ofList ((first :: rest).takeWhile fun x => !isspace x)),
        ⟨(first :: rest).dropWhile fun x => !isspace x, false⟩)

/-- Whether a number is negative, and what comes after its sign. -/
def sign : List Char → Bool × List Char
  | '-' :: cs => (true, cs)
  | '+' :: cs => (false, cs)
  | cs => (false, cs)

/-- A number as an `int`: the nearest one, and a failure if it is another. -/
def fit (n : Int) (input : List Char) : Option Int × Cin :=
  if n > INT_MAX then (some INT_MAX, ⟨input, true⟩)
  else if n < INT_MIN then (some INT_MIN, ⟨input, true⟩)
  else (some n, ⟨input, false⟩)

/-- `>>` into an `int`. Nothing is written at the end of the input, and 0 where there is no
number. -/
def readInt (c : Cin) : Option Int × Cin :=
  if c.fail then (none, c)
  else
    match c.input.dropWhile isspace with
    | [] => (none, ⟨[], true⟩)
    | first :: rest =>
      let s := sign (first :: rest)
      let digits := s.2.takeWhile Char.isDigit
      let input := s.2.dropWhile Char.isDigit
      if digits = [] then (some 0, ⟨input, true⟩)
      else
        let n : Int := Nat.ofDigitChars 10 digits 0
        fit (if s.1 then -n else n) input

def clear (c : Cin) : Cin := { c with fail := false }

/-- `ignore` up to the end of the line -/
def ignoreLine (c : Cin) : Cin :=
  if c.fail then c else { c with input := (c.input.dropWhile fun x => x != '\n').tail }

theorem fit_of_le {n : Int} (hmin : INT_MIN ≤ n) (hmax : n ≤ INT_MAX) (input : List Char) :
    fit n input = (some n, ⟨input, false⟩) := by
  unfold fit
  rw [if_neg (by omega), if_neg (by omega)]

theorem fit_max {n m : Int} {input : List Char} (h : (fit n input).1 = some m) : m ≤ INT_MAX := by
  unfold fit at h
  split_ifs at h with hmax hmin
  · cases h
    exact Int.le_refl _
  · cases h
    decide
  · cases h
    exact Int.not_lt.1 hmax

/-- What is read into an `int` is one. -/
theorem readInt_max {c : Cin} {n : Int} (h : c.readInt.1 = some n) : n ≤ INT_MAX := by
  unfold readInt at h
  by_cases hfail : c.fail = true
  · rw [if_pos hfail] at h
    cases h
  · rw [if_neg hfail] at h
    split at h
    · cases h
    · rename_i first rest _
      dsimp only at h
      by_cases hdigits : (sign (first :: rest)).2.takeWhile Char.isDigit = []
      · rw [if_pos hdigits] at h
        cases h
        decide
      · rw [if_neg hdigits] at h
        exact fit_max h

theorem readInt_fail {c : Cin} (h : c.fail = true) : c.readInt = (none, c) := if_pos h

/-! ## Words with white space between them -/

/-- The input is some words, each after white space, and then the rest. -/
inductive Typed (rest : List Char) : List (List Char) → List Char → Prop
  | nil : Typed rest [] rest
  | cons {blanks word text : List Char} {words : List (List Char)}
      (hblanks : ∀ c ∈ blanks, isspace c = true) (hne : word ≠ [])
      (hword : ∀ c ∈ word, isspace c = false) (htext : ∀ c ∈ text.head?, isspace c = true)
      (h : Typed rest words text) : Typed rest (word :: words) (blanks ++ (word ++ text))

theorem takeWhile_stop {α : Type*} {p : α → Bool} {xs ys : List α} (hxs : ∀ x ∈ xs, p x = true)
    (hys : ∀ y ∈ ys.head?, p y = false) : (xs ++ ys).takeWhile p = xs := by
  rw [List.takeWhile_append_of_pos hxs]
  cases ys with
  | nil => simp
  | cons y ys => simp [hys y rfl]

theorem dropWhile_stop {α : Type*} {p : α → Bool} {xs ys : List α} (hxs : ∀ x ∈ xs, p x = true)
    (hys : ∀ y ∈ ys.head?, p y = false) : (xs ++ ys).dropWhile p = ys := by
  rw [List.dropWhile_append_of_pos hxs]
  cases ys with
  | nil => simp
  | cons y ys => simp [hys y rfl]

/-- Extraction begins at the first character that is no white space. -/
theorem skipws {blanks cs : List Char} (hblanks : ∀ c ∈ blanks, isspace c = true)
    (hcs : ∀ c ∈ cs.head?, isspace c = false) : (blanks ++ cs).dropWhile isspace = cs :=
  dropWhile_stop hblanks hcs

theorem Typed.readWord {rest word text : List Char} {words : List (List Char)}
    (h : Typed rest (word :: words) text) :
    ∃ text', (Cin.mk text false).readWord = (some (String.ofList word), ⟨text', false⟩) ∧
      Typed rest words text' := by
  cases h with
  | @cons blanks _ text' _ hblanks hne hword htext h =>
    obtain ⟨first, others, rfl⟩ := List.exists_cons_of_ne_nil hne
    have hfirst : ∀ c ∈ (first :: others ++ text').head?, isspace c = false := by
      rintro c ⟨⟩
      exact hword first List.mem_cons_self
    have hletters : ∀ c ∈ first :: others, (!isspace c) = true := fun c hc => by simp [hword c hc]
    have hblank : ∀ c ∈ text'.head?, (!isspace c) = false := fun c hc => by simp [htext c hc]
    refine ⟨text', ?_, h⟩
    unfold Cin.readWord
    rw [if_neg Bool.false_ne_true]
    dsimp only
    rw [skipws hblanks hfirst]
    change (some (String.ofList ((first :: others ++ text').takeWhile fun x => !isspace x)),
      (⟨(first :: others ++ text').dropWhile fun x => !isspace x, false⟩ : Cin)) = _
    rw [takeWhile_stop hletters hblank, dropWhile_stop hletters hblank]

/-- A word: not empty, and without white space. -/
def isWord (w : List Char) : Bool := !w.isEmpty && w.all fun c => !isspace c

theorem isWord_iff {w : List Char} : isWord w = true ↔ w ≠ [] ∧ ∀ c ∈ w, isspace c = false := by
  simp [isWord]

/-- Words after one blank each. -/
theorem Typed.spaced {rest : List Char} (hrest : rest.head?.all isspace = true)
    {words : List (List Char)} (hwords : words.all isWord = true) :
    Typed rest words (words.flatMap (fun w => ' ' :: w) ++ rest) := by
  induction words with
  | nil => exact .nil
  | cons w words ih =>
    rw [List.all_cons, Bool.and_eq_true] at hwords
    obtain ⟨hne, hword⟩ := isWord_iff.1 hwords.1
    have htext : ∀ c ∈ (words.flatMap (fun w => ' ' :: w) ++ rest).head?, isspace c = true := by
      cases words with
      | nil => exact fun c hc => (Option.all_eq_true _ _).1 hrest c hc
      | cons w' words =>
        rintro c ⟨⟩
        decide
    have hblank : ∀ c ∈ [' '], isspace c = true := List.all_eq_true.1 (by decide)
    rw [List.flatMap_cons, List.append_assoc]
    exact .cons hblank hne hword htext (ih hwords.2)

/-! ## Numbers -/

/-- A number in decimal. -/
def numeral (n : Int) : List Char :=
  if n < 0 then '-' :: Nat.toDigits 10 n.natAbs else Nat.toDigits 10 n.natAbs

theorem isDigit_toDigits (n : ℕ) : ∀ c ∈ Nat.toDigits 10 n, c.isDigit = true := fun _ hc =>
  Nat.isDigit_of_mem_toDigits (by decide) (by decide) hc

/-- A digit is neither white space nor a sign. -/
theorem not_blank_of_isDigit {c : Char} (h : c.isDigit = true) :
    isspace c = false ∧ c ≠ '-' ∧ c ≠ '+' := by
  obtain ⟨hlow, hhigh⟩ := Char.isDigit_iff_toNat.1 h
  have hlow : 48 ≤ c.toNat := hlow
  have hhigh : c.toNat ≤ 57 := hhigh
  refine ⟨?_, ?_, ?_⟩
  · simp only [isspace, Bool.or_eq_false_iff, Bool.and_eq_false_iff, beq_eq_false_iff_ne,
      decide_eq_false_iff_not]
    omega
  · rintro rfl
    exact absurd hlow (by decide)
  · rintro rfl
    exact absurd hlow (by decide)

/-- Without a sign, nothing is taken for one. -/
theorem sign_of_ne {c : Char} {cs : List Char} (hminus : c ≠ '-') (hplus : c ≠ '+') :
    sign (c :: cs) = (false, c :: cs) := by
  unfold sign
  split
  · rename_i heq
    cases heq
    exact absurd rfl hminus
  · rename_i heq
    cases heq
    exact absurd rfl hplus
  · rfl

theorem sign_numeral (n : Int) (text : List Char) :
    sign (numeral n ++ text) = (decide (n < 0), Nat.toDigits 10 n.natAbs ++ text) := by
  unfold numeral
  split_ifs with hn
  · rw [decide_eq_true hn]
    rfl
  · rw [decide_eq_false hn]
    obtain ⟨d, ds, hds⟩ :=
        List.exists_cons_of_ne_nil (Nat.toDigits_ne_nil (n := n.natAbs) (b := 10))
    have hd : d.isDigit = true :=
      isDigit_toDigits n.natAbs d (hds.symm ▸ List.mem_cons_self)
    obtain ⟨-, hminus, hplus⟩ := not_blank_of_isDigit hd
    rw [hds]
    exact sign_of_ne hminus hplus

/-- The value of the digits and the sign of a number. -/
theorem value_numeral (n : Int) :
    (if decide (n < 0) = true then -(n.natAbs : Int) else (n.natAbs : Int)) = n := by
  by_cases hn : n < 0
  · rw [if_pos (decide_eq_true hn)]
    omega
  · rw [if_neg (by simpa using hn)]
    omega

theorem Typed.readInt {rest text : List Char} {words : List (List Char)} {n : Int}
    (h : Typed rest (numeral n :: words) text) (hmin : INT_MIN ≤ n) (hmax : n ≤ INT_MAX) :
    ∃ text', (Cin.mk text false).readInt = (some n, ⟨text', false⟩) ∧
      Typed rest words text' := by
  cases h with
  | @cons blanks _ text' _ hblanks hne hword htext h =>
    refine ⟨text', ?_, h⟩
    have hend : ∀ c ∈ text'.head?, c.isDigit = false := by
      intro c hc
      by_contra hdigit
      have hblank := (not_blank_of_isDigit (Bool.not_eq_false _ ▸ hdigit)).1
      exact absurd (htext c hc) (by rw [hblank]; exact Bool.false_ne_true)
    have hsign := sign_numeral n text'
    obtain ⟨first, others, hnumeral⟩ := List.exists_cons_of_ne_nil hne
    rw [hnumeral] at hword hsign ⊢
    have hfirst : ∀ c ∈ (first :: others ++ text').head?, isspace c = false := by
      rintro c ⟨⟩
      exact hword first List.mem_cons_self
    unfold Cin.readInt
    rw [if_neg Bool.false_ne_true]
    dsimp only
    rw [skipws hblanks hfirst]
    rw [List.cons_append] at hsign ⊢
    dsimp only
    rw [hsign]
    dsimp only
    rw [takeWhile_stop (isDigit_toDigits n.natAbs) hend,
      dropWhile_stop (isDigit_toDigits n.natAbs) hend, if_neg Nat.toDigits_ne_nil,
      Nat.ofDigitChars_ten_toDigits, value_numeral, fit_of_le hmin hmax]

/-- Where there should be a number, another character is left in the stream, which has failed. -/
theorem readInt_junk {blanks junk : List Char} {c : Char}
    (hblanks : ∀ c ∈ blanks, isspace c = true) (hspace : isspace c = false)
    (hdigit : c.isDigit = false) (hminus : c ≠ '-') (hplus : c ≠ '+') :
    (Cin.mk (blanks ++ c :: junk) false).readInt = (some 0, ⟨c :: junk, true⟩) := by
  have hfirst : ∀ x ∈ (c :: junk).head?, isspace x = false := by
    rintro x ⟨⟩
    exact hspace
  unfold readInt
  rw [if_neg Bool.false_ne_true]
  dsimp only
  rw [skipws hblanks hfirst]
  dsimp only
  rw [sign_of_ne hminus hplus]
  simp [hdigit]

end Cin
