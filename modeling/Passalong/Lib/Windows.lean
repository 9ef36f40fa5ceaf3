import Mathlib

/-!
# Sliding windows

Times are natural numbers, in a list, the oldest first. A sliding counter forgets what is
as old as its window is wide, and says how much it still remembers.

- `forget width now l`: drops what has left the window from the front;
- `since t l`: how many entries are not before `t`; forgetting takes away none of them
  while the window that begins at `t` is not over (`since_forget`);
- `within t width l`: how many entries are in the window that begins at `t`. While it is
  not over, these are the entries since `t` (`within_eq_since`).
-/

namespace Lib

namespace Windows

/-- Drops what has left the window, from the front. -/
def forget (width now : Nat) : List Nat → List Nat
  | [] => []
  | x :: rest => if x + width ≤ now then forget width now rest else x :: rest

/-- How many entries are not before `t`. -/
def since (t : Nat) (l : List Nat) : Nat := l.countP (t ≤ ·)

/-- How many entries are in the window that begins at `t`. -/
def within (t width : Nat) (l : List Nat) : Nat := l.countP fun x => t ≤ x && x < t + width

variable {t width now : Nat} {l : List Nat}

theorem length_forget_le (width now : Nat) (l : List Nat) :
    (forget width now l).length ≤ l.length := by
  induction l with
  | nil => exact Nat.le_refl 0
  | cons x rest ih =>
    unfold forget
    by_cases h : x + width ≤ now
    · rw [if_pos h]
      exact Nat.le_succ_of_le ih
    · rw [if_neg h]

/-- What is forgotten was before every window that is not over. -/
theorem since_forget (h : now < t + width) : since t (forget width now l) = since t l := by
  induction l with
  | nil => rfl
  | cons x rest ih =>
    unfold forget
    by_cases hx : x + width ≤ now
    · have hbefore : ¬t ≤ x := by omega
      rw [if_pos hx, ih]
      simp only [since, List.countP_cons, decide_eq_true_eq, if_neg hbefore, Nat.add_zero]
    · rw [if_neg hx]

@[simp] theorem since_append (t : Nat) (l m : List Nat) :
    since t (l ++ m) = since t l + since t m := List.countP_append

theorem since_singleton (t x : Nat) : since t [x] = if t ≤ x then 1 else 0 := by
  simp [since, List.countP_cons]

theorem since_le_length (t : Nat) (l : List Nat) : since t l ≤ l.length := List.countP_le_length

/-- Nothing is since a time that is still to come. -/
theorem since_eq_zero (h : ∀ x ∈ l, x < t) : since t l = 0 := by
  refine List.countP_eq_zero.mpr fun x hx => ?_
  have := h x hx
  simp only [decide_eq_true_eq]
  omega

@[simp] theorem within_append (t width : Nat) (l m : List Nat) :
    within t width (l ++ m) = within t width l + within t width m := List.countP_append

/-- An entry outside the window. -/
theorem within_singleton_of_not {x : Nat} (h : ¬(t ≤ x ∧ x < t + width)) :
    within t width [x] = 0 := by
  refine List.countP_eq_zero.mpr fun y hy => ?_
  rw [List.mem_singleton.mp hy]
  simpa using h

/-- As long as the window is not over, it holds what is since its beginning. -/
theorem within_eq_since (h : ∀ x ∈ l, x < t + width) : within t width l = since t l := by
  refine List.countP_congr fun x hx => ?_
  simp [h x hx]

end Windows

end Lib
