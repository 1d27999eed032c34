import Mathlib.Data.List.Basic

/-!
# Numbered messages

Messages that are on their way or have been sent, each with the number of what it is about. A
message is taken out at any position, so the order in which they arrive is free. What a message
adds and takes away is counted by the number it carries (`about_post`, `about_eraseIdx`).
-/

/-- Messages, each with the number of what it is about. -/
abbrev Mailbox (α : Type*) := List (ℕ × α)

namespace Mailbox

variable {α : Type*}

/-- The messages about one number. -/
def about (n : ℕ) (box : Mailbox α) : List α := (box.filter fun m => m.1 = n).map Prod.snd

/-- Messages about a number are added. -/
def post (box : Mailbox α) (n : ℕ) (msgs : List α) : Mailbox α :=
  box ++ msgs.map fun msg => (n, msg)

theorem mem_about {n : ℕ} {box : Mailbox α} {msg : α} : msg ∈ about n box ↔ (n, msg) ∈ box := by
  simp [about]

theorem mem_post {box : Mailbox α} {n j : ℕ} {msgs : List α} {msg : α} :
    (j, msg) ∈ box.post n msgs ↔ (j, msg) ∈ box ∨ j = n ∧ msg ∈ msgs := by
  unfold post
  rw [List.mem_append, List.mem_map]
  constructor
  · rintro (h | ⟨m, hm, heq⟩)
    · exact .inl h
    · cases heq
      exact .inr ⟨rfl, hm⟩
  · rintro (h | ⟨rfl, h⟩)
    · exact .inl h
    · exact .inr ⟨msg, h, rfl⟩

theorem about_post (box : Mailbox α) (n j : ℕ) (msgs : List α) :
    about j (box.post n msgs) = about j box ++ if n = j then msgs else [] := by
  unfold about post
  rw [List.filter_append, List.map_append]
  congr 1
  by_cases hn : n = j
  · rw [if_pos hn, List.filter_eq_self.2, List.map_map]
    · exact List.map_id msgs
    · intro m hm
      obtain ⟨msg, -, rfl⟩ := List.mem_map.1 hm
      exact decide_eq_true hn
  · rw [if_neg hn, List.filter_eq_nil_iff.2]
    · rfl
    · intro m hm
      obtain ⟨msg, -, rfl⟩ := List.mem_map.1 hm
      simpa using hn

theorem mem_of_mem_eraseIdx {box : Mailbox α} {k : ℕ} {m : ℕ × α} (h : m ∈ box.eraseIdx k) :
    m ∈ box :=
  (List.eraseIdx_sublist box k).subset h

/-- A message that is taken out was one of those about its number. -/
theorem about_eraseIdx {box : Mailbox α} {k n : ℕ} {msg : α} (h : box[k]? = some (n, msg)) (j : ℕ) :
    (about j box).length = (about j (box.eraseIdx k)).length + if n = j then 1 else 0 := by
  unfold about
  induction box generalizing k with
  | nil => cases h
  | cons m box ih =>
    cases k with
    | zero =>
      cases h
      rw [List.eraseIdx_cons_zero, List.filter_cons]
      by_cases hn : n = j
      · simp [hn]
      · simp [hn]
    | succ k =>
      have hbox := ih (k := k) h
      simp only [List.length_map] at hbox ⊢
      rw [List.eraseIdx_cons_succ, List.filter_cons, List.filter_cons]
      by_cases hm : decide (m.1 = j) = true
      · rw [if_pos hm, if_pos hm, List.length_cons, List.length_cons]
        omega
      · rw [if_neg hm, if_neg hm]
        omega

end Mailbox
