import Mathlib.Algebra.Ring.Parity
import NanoJS.Events.Delivery

/-!
# What `removeListener` removes

`removeListener` compares source texts and splices the array that it walks over, so it may remove
another function of the same text, and passes over the entry behind a removed one. Over every list
of entries, it removes a function and nothing else exactly when, of the entries with its text, the
function itself is at the even places of each run of neighbours, and only there (`removes_iff`).
-/

namespace NanoJS

/-! ## Functions -/

/-- The function objects that may be entries: those of the user's program, and the wrappers that
`once` creates, one for each registration. -/
inductive FunctionObject
  | user (listener : ℕ)
  | onceWrapper (id : ℕ)
  deriving DecidableEq

/-- The function object that an entry is. -/
def Registration.function (r : Registration) : FunctionObject :=
  if r.once then .onceWrapper r.id else .user r.listener

/-- `listener.toString()` -/
def FunctionObject.toString (text : ℕ → JSString) : FunctionObject → JSString
  | user listener => text listener
  | onceWrapper _ => onceWrapperText

theorem Registration.toString_function (text : ℕ → JSString) (r : Registration) :
    r.function.toString text = r.toString text := by
  unfold function toString
  split <;> rfl

namespace EventEmitter

variable {V : Type*}

/-! ## The law -/

/-- After `removeListener(eventName, l)` no entry is `l`, the entries that are other functions
remain in their order, and the other events have the entries that they had. -/
structure Removes (text : ℕ → JSString) (s : EventEmitter V) (eventName : PropertyKey)
    (l : FunctionObject) : Prop where
  removed : ∀ r ∈ (s.removeListener text eventName (l.toString text)).events eventName,
    r.function ≠ l
  remain : ((s.removeListener text eventName (l.toString text)).events eventName).filter
    (·.function ≠ l) = (s.events eventName).filter (·.function ≠ l)
  others : ∀ e ≠ eventName,
    (s.removeListener text eventName (l.toString text)).events e = s.events e

/-- The entries, each with the number of its neighbours directly before it that satisfy `p`. -/
def runs (p : Registration → Bool) : ℕ → List Registration → List (ℕ × Registration)
  | _, [] => []
  | before, r :: events => (before, r) :: runs p (if p r then before + 1 else 0) events

/-- Of the entries with the text of `l`, those that are `l` have an even number of neighbours with
this text directly before them, and the others an odd number. -/
def Alternate (text : ℕ → JSString) (l : FunctionObject) (events : List Registration) : Prop :=
  ∀ x ∈ runs (fun r => r.toString text = l.toString text) 0 events,
    x.2.toString text = l.toString text → (x.2.function = l ↔ Even x.1)

/-! ## Kept and removed entries -/

theorem kept_perm (p : Registration → Bool) (l : List Registration) :
    (hits p l ++ kept p l).Perm l := by
  induction l using hits.induct p with
  | case1 => exact .nil
  | case2 a ha | case3 a ha => simp [hits, kept, ha]
  | case4 a b l ha ih =>
    rw [hits, if_pos ha, kept, if_pos ha]
    exact (List.perm_middle.trans (ih.cons b)).cons a
  | case5 a b l ha ih =>
    rw [hits, if_neg ha, kept, if_neg ha]
    exact List.perm_middle.trans (ih.cons a)

/-- If only entries of `t` are removed, and none is kept, the others are kept in their order. -/
theorem kept_eq_filter {p t : Registration → Bool} {l : List Registration}
    (hhits : ∀ r ∈ hits p l, t r = true) (hkept : ∀ r ∈ kept p l, t r = false) :
    kept p l = l.filter (!t ·) := by
  induction l using hits.induct p with
  | case1 => rfl
  | case2 a ha | case3 a ha => simp_all [hits, kept]
  | case4 a b l ha ih =>
    rw [hits, if_pos ha, List.forall_mem_cons] at hhits
    rw [kept, if_pos ha, List.forall_mem_cons] at hkept
    rw [kept, if_pos ha, List.filter_cons_of_neg (by simp [hhits.1]),
      List.filter_cons_of_pos (by simp [hkept.1]), ih hhits.2 hkept.2]
  | case5 a b l ha ih =>
    rw [hits, if_neg ha] at hhits
    rw [kept, if_neg ha, List.forall_mem_cons] at hkept
    rw [kept, if_neg ha, List.filter_cons_of_pos (by simp [hkept.1]), ih hhits hkept.2]

/-- What is kept are the entries that are not of `t` exactly when those of `t` are removed, and
nothing else is. -/
theorem kept_eq_filter_iff (p t : Registration → Bool) (l : List Registration) :
    kept p l = l.filter (!t ·) ↔
      (∀ r ∈ hits p l, t r = true) ∧ ∀ r ∈ kept p l, t r = false := by
  refine ⟨fun h => ?_, fun h => kept_eq_filter h.1 h.2⟩
  have hkept : ∀ r ∈ kept p l, t r = false := by
    intro r hr
    rw [h] at hr
    simpa using (List.mem_filter.1 hr).2
  refine ⟨?_, hkept⟩
  -- of the entries that are not of `t`, as many are kept as there are
  have hcount := (kept_perm p l).countP_eq (!t ·)
  have hall : (kept p l).countP (!t ·) = l.countP (!t ·) := by
    rw [List.countP_eq_length.2 (by simpa using hkept), h, List.countP_eq_length_filter]
  rw [List.countP_append, hall, Nat.add_eq_right, List.countP_eq_zero] at hcount
  simpa using hcount

/-! ## Runs of neighbours -/

theorem forall_runs_cons (p : Registration → Bool) (Q : ℕ × Registration → Prop) (before : ℕ)
    (a : Registration) (l : List Registration) :
    (∀ x ∈ runs p before (a :: l), Q x) ↔
      Q (before, a) ∧ ∀ x ∈ runs p (if p a then before + 1 else 0) l, Q x := by
  rw [runs, List.forall_mem_cons]

/-- The entries that are removed are those at the even places of the runs. -/
theorem hits_iff_runs {p t : Registration → Bool} (htp : ∀ r, t r = true → p r = true)
    {before : ℕ} (hbefore : Even before) (l : List Registration) :
    ((∀ r ∈ hits p l, t r = true) ∧ ∀ r ∈ kept p l, t r = false) ↔
      ∀ x ∈ runs p before l, p x.2 = true → (t x.2 = true ↔ Even x.1) := by
  -- an entry that does not match is no entry of `t`
  have hnot : ∀ {r}, ¬p r = true → t r = false := fun hr =>
    Bool.eq_false_iff.2 fun ht => hr (htp _ ht)
  induction l using hits.induct p generalizing before with
  | case1 => simp [hits, kept, runs]
  | case2 a ha => simp [hits, kept, runs, ha, hbefore]
  | case3 a ha => simp [hits, kept, runs, ha, hnot ha]
  | case4 a b l ha ih =>
    have hodd : ¬Even (before + 1) := Nat.not_even_iff_odd.2 hbefore.add_one
    have hrest : Even (if p b = true then before + 1 + 1 else 0) := by
      split
      · exact hbefore.add even_two
      · exact Even.zero
    have hb : (p b = true → (t b = true ↔ Even (before + 1))) ↔ t b = false := by
      constructor
      · intro h
        by_contra ht
        have htrue : t b = true := by simpa using ht
        exact hodd ((h (htp b htrue)).1 htrue)
      · intro ht _
        simp [ht, hodd]
    rw [hits, if_pos ha, kept, if_pos ha, List.forall_mem_cons, List.forall_mem_cons,
      forall_runs_cons, if_pos ha, forall_runs_cons, hb]
    have hih := ih hrest
    simp only [ha, hbefore, iff_true, forall_const, ← hih]
    tauto
  | case5 a b l ha ih =>
    rw [hits, if_neg ha, kept, if_neg ha, List.forall_mem_cons, forall_runs_cons, if_neg ha]
    have hih := ih Even.zero
    simp only [ha, hnot ha, true_and, false_implies, Bool.false_eq_true, ← hih]

/-! ## The result -/

theorem removes_iff_kept (text : ℕ → JSString) (s : EventEmitter V) (eventName : PropertyKey)
    (l : FunctionObject) : s.Removes text eventName l ↔
      kept (fun r => r.toString text = l.toString text) (s.events eventName) =
        (s.events eventName).filter (fun r => !decide (r.function = l)) := by
  have hevents : (s.removeListener text eventName (l.toString text)).events eventName =
      kept (fun r => r.toString text = l.toString text) (s.events eventName) := by
    unfold removeListener events
    cases hl : s.listener eventName with
    | none => simp [hl, kept]
    | some entries => simp [spliced_eq]
  have hothers : ∀ e ≠ eventName,
      (s.removeListener text eventName (l.toString text)).events e = s.events e := by
    intro e he
    unfold removeListener events
    cases s.listener eventName with
    | none => rfl
    | some entries => simp [he]
  have hfilter : (fun r : Registration => !decide (r.function = l)) =
      fun r => decide (r.function ≠ l) := by
    funext r
    simp
  rw [hfilter, ← hevents]
  constructor
  · rintro ⟨hremoved, hremain, -⟩
    rw [← hremain, List.filter_eq_self.2 (by simpa using hremoved)]
  · intro h
    refine ⟨fun r hr => ?_, ?_, hothers⟩
    · rw [h] at hr
      simpa using (List.mem_filter.1 hr).2
    · rw [h, List.filter_filter]
      simp

/-- **`removeListener` removes the listener, and only it,** exactly when, in each run of neighbours
with its text, the even places and no others are taken by the function itself. -/
theorem removes_iff (text : ℕ → JSString) (s : EventEmitter V) (eventName : PropertyKey)
    (l : FunctionObject) :
    s.Removes text eventName l ↔ Alternate text l (s.events eventName) := by
  have htext : ∀ r : Registration, decide (r.function = l) = true →
      decide (r.toString text = l.toString text) = true := by
    intro r hr
    rw [decide_eq_true_eq] at hr ⊢
    rw [← hr, r.toString_function]
  rw [removes_iff_kept, kept_eq_filter_iff, hits_iff_runs htext Even.zero]
  simp only [Alternate, decide_eq_true_eq]

/-- `e.on('x', f); e.on('x', f); e.removeListener('x', f)` leaves `f`, and
`e.on('x', g); e.removeListener('x', f)` removes `g`, which has the text of `f`. -/
theorem removes_neighbour :
    ¬(((new : EventEmitter Value).register 0 false eventX).register 0 false eventX).Removes
        twoListeners eventX (.user 0) ∧
      ¬((new : EventEmitter Value).register 1 false eventX).Removes twoListeners eventX
        (.user 2) := by
  constructor
  · intro h
    exact h.removed ⟨1, eventX, 0, false⟩ (by decide) rfl
  · intro h
    exact absurd h.remain (by decide)

end EventEmitter

end NanoJS
