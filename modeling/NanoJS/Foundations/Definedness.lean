import Mathlib.Data.Nat.Init

/-!
# Values that may be undefined

A variable holds a value, which may be there because the call that should have put it there did not
(`Cell`). A program that uses variables is run on whatever they hold, and beside it runs the
conjunction of what it has used (`Tracked`): the run is sound when every value it has used is
defined. The comparison of two arrays is sound exactly when they are defined to the end, or up to
their first difference (`sound_compare_iff`).
-/

/-- What a variable holds, and whether it was put there. -/
structure Cell (α : Type) where
  value : α
  defined : Bool
  deriving DecidableEq

/-- A variable that a call fills in if it succeeds, and leaves as it is otherwise. -/
def Cell.filled {α : Type} (answer : Option α) (left : α) : Cell α :=
  ⟨answer.getD left, answer.isSome⟩

/-- The result of a run, and whether all values it has used are defined. -/
structure Tracked (α : Type) where
  value : α
  sound : Bool
  deriving DecidableEq

namespace Tracked

variable {α β : Type}

instance : Monad Tracked where
  pure a := ⟨a, true⟩
  bind x f := ⟨(f x.value).value, x.sound && (f x.value).sound⟩

/-- Using what a variable holds. -/
def use (c : Cell α) : Tracked α := ⟨c.value, c.defined⟩

@[simp] theorem value_pure (a : α) : (pure a : Tracked α).value = a := rfl

@[simp] theorem sound_pure (a : α) : (pure a : Tracked α).sound = true := rfl

@[simp] theorem value_bind (x : Tracked α) (f : α → Tracked β) :
    (x >>= f).value = (f x.value).value := rfl

@[simp] theorem sound_bind (x : Tracked α) (f : α → Tracked β) :
    (x >>= f).sound = (x.sound && (f x.value).sound) := rfl

@[simp] theorem value_use (c : Cell α) : (use c).value = c.value := rfl

@[simp] theorem sound_use (c : Cell α) : (use c).sound = c.defined := rfl

/-! ## Comparing arrays -/

variable [DecidableEq α]

/-- The comparison of `n` elements from position `i` on, which stops at a difference. -/
def compare (a b : ℕ → Cell α) : ℕ → ℕ → Tracked Bool
  | _, 0 => pure true
  | i, n + 1 => do
    let x ← use (a i)
    let y ← use (b i)
    if x ≠ y then pure false else compare a b (i + 1) n

theorem value_compare_succ (a b : ℕ → Cell α) (i n : ℕ) :
    (compare a b i (n + 1)).value =
      if (a i).value = (b i).value then (compare a b (i + 1) n).value else false := by
  by_cases h : (a i).value = (b i).value <;> simp [compare, h]

theorem sound_compare_succ (a b : ℕ → Cell α) (i n : ℕ) :
    (compare a b i (n + 1)).sound =
      ((a i).defined && (b i).defined &&
        (decide ((a i).value ≠ (b i).value) || (compare a b (i + 1) n).sound)) := by
  by_cases h : (a i).value = (b i).value <;> simp [compare, h, Bool.and_assoc]

theorem value_compare (a b : ℕ → Cell α) (i n : ℕ) :
    (compare a b i n).value = true ↔ ∀ j, i ≤ j → j < i + n → (a j).value = (b j).value := by
  induction n generalizing i with
  | zero =>
    refine iff_of_true rfl fun j hi hj => ?_
    omega
  | succ n ih =>
    rw [value_compare_succ]
    by_cases h : (a i).value = (b i).value
    · rw [if_pos h, ih]
      constructor
      · intro hrest j hi hj
        rcases Nat.eq_or_lt_of_le hi with rfl | hlt
        · exact h
        · exact hrest j hlt (by omega)
      · intro hall j hi hj
        exact hall j (by omega) (by omega)
    · rw [if_neg h]
      exact iff_of_false (by simp) fun hall => h (hall i (Nat.le_refl i) (by omega))

/-- Two arrays that are defined up to some position are compared soundly when they are defined to
the end, or differ before that position. -/
theorem sound_compare_iff (a b : ℕ → Cell α) {m : ℕ}
    (hm : ∀ j, ((a j).defined && (b j).defined) = true ↔ j < m) (i n : ℕ) :
    (compare a b i n).sound = true ↔
      n = 0 ∨ i + n ≤ m ∨ ∃ j, i ≤ j ∧ j < i + n ∧ j < m ∧ (a j).value ≠ (b j).value := by
  induction n generalizing i with
  | zero => exact iff_of_true rfl (.inl rfl)
  | succ n ih =>
    rw [sound_compare_succ, Bool.and_eq_true, hm i, Bool.or_eq_true, decide_eq_true_eq, ih]
    constructor
    · rintro ⟨hi, hne | rfl | hend | ⟨j, hij, hj, hjm, hne⟩⟩
      · exact .inr (.inr ⟨i, Nat.le_refl i, by omega, hi, hne⟩)
      · exact .inr (.inl (by omega))
      · exact .inr (.inl (by omega))
      · exact .inr (.inr ⟨j, by omega, by omega, hjm, hne⟩)
    · rintro (h | hend | ⟨j, hij, hj, hjm, hne⟩)
      · cases h
      · exact ⟨by omega, .inr (.inr (.inl (by omega)))⟩
      · refine ⟨by omega, ?_⟩
        rcases Nat.eq_or_lt_of_le hij with rfl | hlt
        · exact .inl hne
        · exact .inr (.inr (.inr ⟨j, hlt, by omega, hjm, hne⟩))

end Tracked
