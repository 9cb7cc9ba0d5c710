import Mathlib.Data.Nat.Find
import Mathlib.Logic.Relation
import Mathlib.Order.WellFounded

/-!
# Labelled transition systems: invariants and fair progress

A system is a relation `step : S → L → S → Prop`. Two rules are all that is used of it:

* `Reachable.invariant`: what holds initially and is preserved by every step of a reachable state
  holds of every reachable state;
* `Run.eventually_of_rank`: along a weakly fair run, a rank that the owner of a state lowers at
  each of its steps, and that nobody else raises, is driven to the goal.
-/

namespace Transition

variable {S L A H : Type*}

/-! ## Reachability -/

/-- The states reached from an initial state. -/
inductive Reachable (init : S → Prop) (step : S → L → S → Prop) : S → Prop
  | start {s : S} : init s → Reachable init step s
  | tail {s : S} {l : L} {s' : S} : Reachable init step s → step s l s' → Reachable init step s'

/-- **The invariant rule.** A step may use that the state it leaves is reachable. -/
theorem Reachable.invariant {init : S → Prop} {step : S → L → S → Prop} {I : S → Prop}
    (h₀ : ∀ s, init s → I s)
    (hstep : ∀ s l s', Reachable init step s → I s → step s l s' → I s') {s : S}
    (h : Reachable init step s) : I s := by
  induction h with
  | start h => exact h₀ _ h
  | tail hr hl ih => exact hstep _ _ _ hr ih hl

/-- What fewer steps reach, more steps reach. -/
theorem Reachable.mono {init : S → Prop} {step step' : S → L → S → Prop}
    (hstep : ∀ s l s', step s l s' → step' s l s') {s : S} (h : Reachable init step s) :
    Reachable init step' s := by
  induction h with
  | start h => exact .start h
  | tail _ hl ih => exact ih.tail (hstep _ _ _ hl)

/-! ## Recorded runs -/

/-- The states of a run beside a record `h` of its steps, which begins as `h₀`. -/
abbrev Recording (init : S → Prop) (step : S → L → S → Prop) (record : H → S → L → H) (h₀ : H) :
    S × H → Prop :=
  Reachable (fun x => init x.1 ∧ x.2 = h₀)
    fun x (l : L) x' => step x.1 l x'.1 ∧ x'.2 = record x.2 x.1 l

namespace Recording

variable {init : S → Prop} {step : S → L → S → Prop} {record : H → S → L → H} {h₀ h : H}
  {s s' : S}

theorem reachable {x : S × H} (hx : Recording init step record h₀ x) : Reachable init step x.1 := by
  induction hx with
  | start h => exact .start h.1
  | tail _ hl ih => exact ih.tail hl.1

theorem tail (hx : Recording init step record h₀ (s, h)) {l : L} (hl : step s l s') :
    Recording init step record h₀ (s', record h s l) :=
  Reachable.tail hx ⟨hl, rfl⟩

/-- Every run can be recorded. -/
theorem of_reachable (hs : Reachable init step s) : ∃ h, Recording init step record h₀ (s, h) := by
  induction hs with
  | start hs => exact ⟨h₀, .start ⟨hs, rfl⟩⟩
  | tail _ hl ih =>
    obtain ⟨h, hx⟩ := ih
    exact ⟨_, Recording.tail hx hl⟩

end Recording

/-! ## Runs and fairness -/

/-- Some step of the actor `a` leaves `s`. -/
def Enabled (step : S → L → S → Prop) (actor : L → A) (a : A) (s : S) : Prop :=
  ∃ l s', actor l = a ∧ step s l s'

/-- An infinite run, whose moments are steps or idle. -/
structure Run (step : S → L → S → Prop) where
  state : ℕ → S
  label : ℕ → Option L
  idle : ∀ n, label n = none → state (n + 1) = state n
  moves : ∀ n l, label n = some l → step (state n) l (state (n + 1))

namespace Run

variable {step : S → L → S → Prop} (r : Run step) (actor : L → A)

/-- **Weak fairness**: an actor that from some moment on could always step does step. -/
def Fair : Prop :=
  ∀ a n, (∀ m, n ≤ m → Enabled step actor a (r.state m)) →
    ∃ m, n ≤ m ∧ ∃ l, r.label m = some l ∧ actor l = a

variable {r}

/-- An inductive invariant that holds at some moment holds from then on. -/
theorem invariant_of_le {I : S → Prop} {m n : ℕ} (hm : I (r.state m)) (hmn : m ≤ n)
    (hstep : ∀ s l s', I s → step s l s' → I s') : I (r.state n) := by
  induction n, hmn using Nat.le_induction with
  | base => exact hm
  | succ n _ ih =>
    rcases hl : r.label n with _ | l
    · rw [r.idle n hl]; exact ih
    · exact hstep _ _ _ ih (r.moves n l hl)

/-- An inductive invariant that holds at the start holds throughout. -/
theorem invariant {I : S → Prop} (h₀ : I (r.state 0))
    (hstep : ∀ s l s', I s → step s l s' → I s') (n : ℕ) : I (r.state n) :=
  invariant_of_le h₀ n.zero_le hstep

/-- What holds at some moment holds from then on, or some step ends it. -/
theorem stays_or_leaves {P : S → Prop} {n : ℕ} (hn : P (r.state n)) :
    (∀ m, n ≤ m → P (r.state m)) ∨
      ∃ m, n ≤ m ∧ P (r.state m) ∧ ¬P (r.state (m + 1)) ∧
        ∃ l, step (r.state m) l (r.state (m + 1)) := by
  by_contra hnot
  rw [not_or, not_exists] at hnot
  refine hnot.1 fun m hnm => ?_
  induction m, hnm using Nat.le_induction with
  | base => exact hn
  | succ m hnm ih =>
    by_contra hleft
    refine hnot.2 m ⟨hnm, ih, hleft, ?_⟩
    rcases hl : r.label m with _ | l
    · rw [r.idle m hl] at hleft
      exact absurd ih hleft
    · exact ⟨l, r.moves m l hl⟩

/-- **Until.** What every other step preserves holds until the first step whose label is a
`goal`. -/
theorem until_label {P : S → Prop} {goal : L → Prop} {n : ℕ} (hn : P (r.state n))
    (hstep : ∀ s l s', P s → ¬goal l → step s l s' → P s')
    (hgoal : ∃ m, n ≤ m ∧ ∃ l, r.label m = some l ∧ goal l) :
    ∃ m, n ≤ m ∧ P (r.state m) ∧ ∃ l, r.label m = some l ∧ goal l := by
  classical
  refine ⟨Nat.find hgoal, (Nat.find_spec hgoal).1, ?_, (Nat.find_spec hgoal).2⟩
  suffices h : ∀ m, n ≤ m → m ≤ Nat.find hgoal → P (r.state m) from
    h _ (Nat.find_spec hgoal).1 le_rfl
  intro m hnm
  induction m, hnm using Nat.le_induction with
  | base => exact fun _ => hn
  | succ m hnm ih =>
    intro hm
    have hP := ih (Nat.le_of_succ_le hm)
    rcases hl : r.label m with _ | l
    · rw [r.idle m hl]; exact hP
    · refine hstep _ _ _ hP (fun hg => ?_) (r.moves m l hl)
      exact Nat.find_min hgoal hm ⟨hnm, l, hl, hg⟩

/-- **Descent.** As long as the goal is ahead, the rank becomes lower at some later moment. -/
theorem eventually_of_descent {R : Type*} [Preorder R] [WellFoundedLT R] (rank : S → R)
    {goal : ℕ → Prop} {n₀ : ℕ} (h : ∀ n, n₀ ≤ n → (∀ m, n ≤ m → ¬goal m) →
      ∃ m, n ≤ m ∧ rank (r.state m) < rank (r.state n)) : ∃ m, n₀ ≤ m ∧ goal m := by
  by_contra hne
  rw [not_exists] at hne
  suffices hno : ∀ k n, n₀ ≤ n → rank (r.state n) = k → False from hno _ n₀ le_rfl rfl
  intro k
  induction k using WellFoundedLT.induction with
  | ind k ih =>
    intro n hn hk
    obtain ⟨m, hm, hlt⟩ := h n hn fun m hm hgoal => hne m ⟨hn.trans hm, hgoal⟩
    exact ih _ (hk ▸ hlt) m (hn.trans hm) rfl

/-- **Fair progress.** While the goal is not reached, the owner of the state can step and each of
its steps lowers the rank; a step of another actor lowers the rank or leaves rank and owner. Then
a fair run reaches the goal. -/
theorem eventually_of_rank {R : Type*} [Preorder R] [WellFoundedLT R] (I goal : S → Prop)
    (owner : S → A) (rank : S → R)
    (hfair : r.Fair actor) (hI : ∀ n, I (r.state n))
    (henabled : ∀ s, I s → ¬goal s → Enabled step actor (owner s) s)
    (howner : ∀ s l s', I s → ¬goal s → step s l s' → actor l = owner s →
      goal s' ∨ rank s' < rank s)
    (hother : ∀ s l s', I s → ¬goal s → step s l s' → actor l ≠ owner s →
      goal s' ∨ rank s' < rank s ∨ (rank s' = rank s ∧ owner s' = owner s)) :
    ∃ n, goal (r.state n) := by
  by_contra hne
  rw [not_exists] at hne
  -- a moment from which the rank never drops below its value there
  suffices h : ∀ k n, rank (r.state n) = k → False from h _ 0 rfl
  intro k
  induction k using WellFoundedLT.induction with
  | ind k ih =>
  intro n hn
  have hnext : ∀ m, rank (r.state m) = k → rank (r.state (m + 1)) = k ∧
      owner (r.state (m + 1)) = owner (r.state m) ∧
      ∀ l, r.label m = some l → actor l ≠ owner (r.state m) := by
    intro m hm
    have hlow : ¬rank (r.state (m + 1)) < rank (r.state m) := fun h =>
      ih _ (hm ▸ h) (m + 1) rfl
    rcases hl : r.label m with _ | l
    · rw [r.idle m hl]
      exact ⟨hm, rfl, by simp⟩
    · have hs := r.moves m l hl
      by_cases ha : actor l = owner (r.state m)
      · rcases howner _ _ _ (hI m) (hne m) hs ha with h | h
        · exact absurd h (hne _)
        · exact absurd h hlow
      · rcases hother _ _ _ (hI m) (hne m) hs ha with h | h | ⟨h₁, h₂⟩
        · exact absurd h (hne _)
        · exact absurd h hlow
        · refine ⟨h₁.trans hm, h₂, fun l' hl' => ?_⟩
          obtain rfl := Option.some.inj hl'
          exact ha
  have hconst : ∀ d, rank (r.state (n + d)) = k ∧
      owner (r.state (n + d)) = owner (r.state n) := by
    intro d
    induction d with
    | zero => exact ⟨hn, rfl⟩
    | succ d ihd =>
      obtain ⟨h₁, h₂, -⟩ := hnext (n + d) ihd.1
      exact ⟨h₁, h₂.trans ihd.2⟩
  have hlater : ∀ m, n ≤ m → rank (r.state m) = k ∧ owner (r.state m) = owner (r.state n) := by
    intro m hm
    have h := hconst (m - n)
    rwa [Nat.add_sub_cancel' hm] at h
  obtain ⟨m, hm, l, hl, ha⟩ := hfair (owner (r.state n)) n fun m hm => by
    have h := henabled _ (hI m) (hne m)
    rwa [(hlater m hm).2] at h
  exact (hnext m (hlater m hm).1).2.2 l hl (ha.trans (hlater m hm).2.symm)

/-! ### A run from a later moment, and a step before a run -/

variable {step : S → L → S → Prop}

/-- The run from the moment `n` on. -/
def drop (r : Run step) (n : ℕ) : Run step where
  state m := r.state (n + m)
  label m := r.label (n + m)
  idle m h := r.idle (n + m) h
  moves m l h := r.moves (n + m) l h

theorem Fair.drop {r : Run step} {actor : L → A} (h : r.Fair actor) (n : ℕ) :
    (r.drop n).Fair actor := by
  intro a m henabled
  obtain ⟨k, hk, l, hl, ha⟩ := h a (n + m) fun k hk => by
    obtain ⟨d, rfl⟩ := Nat.exists_eq_add_of_le ((Nat.le_add_right n m).trans hk)
    exact henabled d (by omega)
  obtain ⟨d, rfl⟩ := Nat.exists_eq_add_of_le ((Nat.le_add_right n m).trans hk)
  exact ⟨d, by omega, l, hl, ha⟩

/-- A run of fewer steps is one of more. -/
def weaken {step' : S → L → S → Prop} (r : Run step)
    (h : ∀ s l s', step s l s' → step' s l s') : Run step' where
  state := r.state
  label := r.label
  idle := r.idle
  moves n l hl := h _ _ _ (r.moves n l hl)

/-- A step, and then the run. -/
def cons {s : S} {l : L} (r : Run step) (h : step s l (r.state 0)) : Run step where
  state
    | 0 => s
    | n + 1 => r.state n
  label
    | 0 => some l
    | n + 1 => r.label n
  idle
    | 0, h => by cases h
    | n + 1, h => r.idle n h
  moves
    | 0, _, hl => Option.some.inj hl ▸ h
    | n + 1, l, h => r.moves n l h

theorem Fair.cons {s : S} {l : L} {r : Run step} {actor : L → A} (hr : r.Fair actor)
    (h : step s l (r.state 0)) : (r.cons h).Fair actor := by
  intro a n henabled
  obtain ⟨m, hm, hl⟩ := hr a (n - 1) fun m hm => henabled (m + 1) (by omega)
  exact ⟨m + 1, by omega, hl⟩

/-- **A run step by step**: when what holds at a moment allows a step to what is to hold at the
next. -/
theorem exists_of_next {J : ℕ → S → Prop} {R : ℕ → L → Prop}
    (h : ∀ n s, J n s → ∃ l s', step s l s' ∧ R n l ∧ J (n + 1) s') {s : S} (hs : J 0 s) :
    ∃ r : Run step, r.state 0 = s ∧ ∀ n, J n (r.state n) ∧ ∃ l, r.label n = some l ∧ R n l := by
  choose label next hstep hlabel hnext using h
  let states : ∀ n, {s // J n s} := fun n => Nat.rec ⟨s, hs⟩
    (fun n x => ⟨next n x.1 x.2, hnext n x.1 x.2⟩) n
  refine ⟨⟨fun n => (states n).1, fun n => some (label n _ (states n).2), by simp, ?_⟩, rfl,
    fun n => ⟨(states n).2, _, rfl, hlabel n _ _⟩⟩
  intro n l hl
  obtain rfl := Option.some.inj hl
  exact hstep n _ (states n).2

/-- Steps before a run. -/
theorem Fair.exists_after {r : Run step} {actor : L → A} (hr : r.Fair actor) {s : S}
    (h : Relation.ReflTransGen (fun s s' => ∃ l, step s l s') s (r.state 0)) :
    ∃ r' : Run step, r'.state 0 = s ∧ r'.Fair actor ∧
      ∃ d, ∀ n, r'.state (n + d) = r.state n ∧ r'.label (n + d) = r.label n := by
  induction h using Relation.ReflTransGen.head_induction_on with
  | refl => exact ⟨r, rfl, hr, 0, fun n => ⟨rfl, rfl⟩⟩
  | head hl _ ih =>
    obtain ⟨l, hl⟩ := hl
    obtain ⟨r', rfl, hfair, d, hd⟩ := ih
    exact ⟨r'.cons hl, rfl, hfair.cons hl, d + 1, hd⟩

end Run

end Transition
