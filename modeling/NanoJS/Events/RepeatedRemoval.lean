import NanoJS.Events.Tally

/-!
# Removing a listener again and again

A call of `removeListener` leaves every second entry of each run of neighbours with the text of the
listener. After `n` calls every `2 ^ n`-th is left (`repeated_removal`), so that the number of calls
that are needed grows with the logarithm of the longest run, and one that has as many entries as
`2 ^ n` is not gone after `n` calls.
-/

namespace NanoJS.EventEmitter

variable {V : Type*} (p : Registration → Bool)

/-! ## The entries that stay -/

/-- After `n` calls: an entry that does not match, and every `2 ^ n`-th of a run of those that
do. -/
def Stays (n : ℕ) (x : ℕ × Registration) : Bool := !p x.2 || decide (2 ^ n ∣ x.1 + 1)

/-- An entry that stays has half as many neighbours that match before it. -/
def halve (x : ℕ × Registration) : ℕ × Registration := (x.1 / 2, x.2)

variable {p}

theorem stays_one {x : ℕ × Registration} (hx : p x.2 = true) : Stays p 1 x = decide (Odd x.1) := by
  have hodd : 2 ∣ x.1 + 1 ↔ Odd x.1 := by
    rw [← even_iff_two_dvd, Nat.even_add_one, Nat.not_even_iff_odd]
  rw [Stays, hx, pow_one, decide_eq_decide.2 hodd]
  rfl

theorem stays_succ (n : ℕ) (x : ℕ × Registration) :
    Stays p (n + 1) x = (Stays p 1 x && Stays p n (halve x)) := by
  unfold Stays halve
  cases hx : p x.2 with
  | false => rfl
  | true =>
    simp only [Bool.not_true, Bool.false_or, pow_one, ← Bool.decide_and, decide_eq_decide]
    constructor
    · intro h
      have htwo : 2 ∣ x.1 + 1 := (dvd_pow_self 2 (Nat.succ_ne_zero n)).trans h
      obtain ⟨j, hj⟩ := htwo
      have hhalf : x.1 / 2 + 1 = j := by omega
      rw [hj, pow_succ, mul_comm (2 ^ n) 2] at h
      rw [hhalf]
      exact ⟨⟨j, hj⟩, Nat.dvd_of_mul_dvd_mul_left Nat.two_pos h⟩
    · rintro ⟨⟨j, hj⟩, h⟩
      have hhalf : x.1 / 2 + 1 = j := by omega
      rw [hhalf] at h
      rw [hj, pow_succ, mul_comm (2 ^ n) 2]
      exact Nat.mul_dvd_mul_left 2 h

/-! ## Runs of neighbours -/

/-- **One call.** The runs of what is left are those of the entries, halved. -/
theorem runs_kept {before : ℕ} (hbefore : Even before) (l : List Registration) :
    runs p (before / 2) (kept p l) = ((runs p before l).filter (Stays p 1)).map halve := by
  induction l using hits.induct p generalizing before with
  | case1 => rfl
  | case2 a ha =>
    have hout : ¬Stays p 1 (before, a) = true := by
      rw [stays_one (x := (before, a)) ha, decide_eq_true_eq, Nat.not_odd_iff_even]
      exact hbefore
    rw [kept, if_pos ha, runs, runs, runs, List.filter_cons_of_neg hout]
    rfl
  | case3 a ha =>
    have hin : Stays p 1 (before, a) = true := by simp [Stays, ha]
    rw [kept, if_neg ha, runs, runs, runs, runs, List.filter_cons_of_pos hin]
    rfl
  | case4 a b l ha ih =>
    have hodd : Odd (before + 1) := hbefore.add_one
    have hout : ¬Stays p 1 (before, a) = true := by
      rw [stays_one (x := (before, a)) ha, decide_eq_true_eq, Nat.not_odd_iff_even]
      exact hbefore
    -- the entry behind the removed one stays, whether it matches or not
    have hin : Stays p 1 (before + 1, b) = true := by
      cases hb : p b with
      | false => simp [Stays, hb]
      | true => rw [stays_one (x := (before + 1, b)) hb, decide_eq_true hodd]
    have hhalf : (before + 1) / 2 = before / 2 := Nat.succ_div_of_not_dvd
      (by rwa [← even_iff_two_dvd, Nat.not_even_iff_odd])
    have hrest : Even (if p b = true then before + 1 + 1 else 0) := by
      split
      · exact hbefore.add even_two
      · exact Even.zero
    have hnext : (if p b = true then before + 1 + 1 else 0) / 2 =
        if p b = true then before / 2 + 1 else 0 := by
      split
      · exact Nat.add_div_right before Nat.two_pos
      · rfl
    rw [kept, if_pos ha, runs, runs, if_pos ha, runs, List.filter_cons_of_neg hout,
      List.filter_cons_of_pos hin, List.map_cons, ← ih hrest, hnext, halve, hhalf]
  | case5 a b l ha ih =>
    have hin : Stays p 1 (before, a) = true := by simp [Stays, ha]
    rw [kept, if_neg ha, runs, if_neg ha, runs, if_neg ha, List.filter_cons_of_pos hin,
      List.map_cons, ← ih Even.zero]
    rfl

theorem map_snd_runs (before : ℕ) (l : List Registration) :
    (runs p before l).map Prod.snd = l := by
  induction l generalizing before with
  | nil => rfl
  | cons a l ih => rw [runs, List.map_cons, ih]

/-- **`n` calls.** -/
theorem iterate_kept (n : ℕ) (l : List Registration) :
    (kept p)^[n] l = ((runs p 0 l).filter (Stays p n)).map Prod.snd := by
  induction n generalizing l with
  | zero =>
    have hall : ∀ x ∈ runs p 0 l, Stays p 0 x = true := fun x _ => by simp [Stays]
    rw [List.filter_eq_self.2 hall, map_snd_runs]
    rfl
  | succ n ih =>
    have hstays : Stays p (n + 1) = fun x => Stays p 1 x && (Stays p n ∘ halve) x := by
      funext x
      exact stays_succ n x
    have hsnd : Prod.snd ∘ halve = Prod.snd (α := ℕ) (β := Registration) := rfl
    rw [Function.iterate_succ_apply, ih, ← Nat.zero_div 2, runs_kept Even.zero, List.filter_map,
      List.map_map, List.filter_filter, hsnd, hstays]
    simp only [Nat.zero_div, Bool.and_comm]

/-- A run has an entry at each of its places. -/
theorem exists_run_at {before j : ℕ} (l : List Registration) {x : ℕ × Registration}
    (hx : x ∈ runs p before l) (hp : p x.2 = true) (hj : j ≤ x.1) (hbefore : before ≤ j) :
    ∃ y ∈ runs p before l, p y.2 = true ∧ y.1 = j := by
  induction l generalizing before with
  | nil => cases hx
  | cons a l ih =>
    rw [runs] at hx ⊢
    rcases List.mem_cons.1 hx with rfl | hx
    · exact ⟨_, .head _, hp, Nat.le_antisymm hbefore hj⟩
    · by_cases ha : p a = true
      · rcases Nat.eq_or_lt_of_le hbefore with rfl | hlt
        · exact ⟨_, .head _, ha, rfl⟩
        · rw [if_pos ha] at hx ⊢
          obtain ⟨y, hy, hyp, hyj⟩ := ih hx hlt
          exact ⟨y, .tail _ hy, hyp, hyj⟩
      · rw [if_neg ha] at hx ⊢
        obtain ⟨y, hy, hyp, hyj⟩ := ih hx (Nat.zero_le j)
        exact ⟨y, .tail _ hy, hyp, hyj⟩

/-- None that matches is left when every run is shorter than `2 ^ n`, and only then. -/
theorem forall_iterate_kept_iff (n : ℕ) (l : List Registration) :
    (∀ r ∈ (kept p)^[n] l, p r = false) ↔
      ∀ x ∈ runs p 0 l, p x.2 = true → x.1 + 1 < 2 ^ n := by
  rw [iterate_kept]
  constructor
  · intro h x hx hp
    by_contra hlong
    have hpos := Nat.two_pow_pos n
    obtain ⟨y, hy, hyp, hyj⟩ := exists_run_at (j := 2 ^ n - 1) l hx hp (by omega) (Nat.zero_le _)
    have hstays : Stays p n y = true := by
      rw [Stays, hyj, Nat.sub_add_cancel hpos]
      simp
    have hgone := h y.2 (List.mem_map_of_mem (List.mem_filter.2 ⟨hy, hstays⟩))
    rw [hyp] at hgone
    cases hgone
  · intro h r hr
    obtain ⟨x, hx, rfl⟩ := List.mem_map.1 hr
    obtain ⟨hx, hstays⟩ := List.mem_filter.1 hx
    by_contra hp
    have hp : p x.2 = true := by simpa using hp
    rw [Stays, hp, Bool.not_true, Bool.false_or, decide_eq_true_eq] at hstays
    exact absurd (Nat.le_of_dvd (Nat.succ_pos _) hstays) (Nat.not_le.2 (h x hx hp))

/-! ## The result -/

/-- What a call leaves in the arrays. -/
theorem listener_removeListener (text : ℕ → JSString) (eventName : PropertyKey) (source : JSString)
    (s : EventEmitter V) : (s.removeListener text eventName source).listener =
      Function.update s.listener eventName
        ((s.listener eventName).map (kept fun r => r.toString text = source)) := by
  unfold removeListener
  cases hl : s.listener eventName with
  | none => exact (Function.update_eq_self_iff.2 hl.symm).symm
  | some events => rw [Option.map_some, ← spliced_eq]

theorem listener_iterate_removeListener (text : ℕ → JSString) (eventName : PropertyKey)
    (source : JSString) (n : ℕ) (s : EventEmitter V) :
    ((removeListener text eventName source)^[n] s).listener =
      Function.update s.listener eventName
        ((s.listener eventName).map (kept fun r => r.toString text = source)^[n]) := by
  induction n generalizing s with
  | zero => simp
  | succ n ih =>
    rw [Function.iterate_succ_apply, ih, listener_removeListener, Function.update_idem,
      Function.update_self, Option.map_map, Function.iterate_succ]

/-- **After `n` calls of `removeListener`,** every `2 ^ n`-th entry of each run of neighbours with
the text is left, the others of these are gone, and all other entries of all events are left. No
entry with the text is left if every run has less than `2 ^ n` entries, and only then. -/
theorem repeated_removal (text : ℕ → JSString) (s : EventEmitter V) (eventName : PropertyKey)
    (l : FunctionObject) (n : ℕ) :
    let p : Registration → Bool := fun r => r.toString text = l.toString text
    let s' := (removeListener text eventName (l.toString text))^[n] s
    s'.rawListners eventName =
        ((runs p 0 (s.rawListners eventName)).filter (Stays p n)).map Prod.snd ∧
      (∀ e ≠ eventName, s'.rawListners e = s.rawListners e) ∧
      ((∀ r ∈ s'.rawListners eventName, r.toString text ≠ l.toString text) ↔
        ∀ x ∈ runs p 0 (s.rawListners eventName), p x.2 = true → x.1 + 1 < 2 ^ n) := by
  intro p s'
  have hlistener : s'.listener = Function.update s.listener eventName
      ((s.listener eventName).map (kept p)^[n]) := listener_iterate_removeListener ..
  have hevents : s'.rawListners eventName = (kept p)^[n] (s.rawListners eventName) := by
    unfold rawListners
    rw [hlistener, Function.update_self]
    cases s.listener eventName with
    | none =>
      have hnil : kept p [] = [] := rfl
      exact (Function.iterate_fixed hnil n).symm
    | some events => rfl
  refine ⟨hevents.trans (iterate_kept n _), fun e he => ?_, ?_⟩
  · unfold rawListners
    rw [hlistener, Function.update_of_ne he]
  · rw [hevents, ← forall_iterate_kept_iff]
    exact forall₂_congr fun r _ => (decide_eq_false_iff_not (p := _ = _)).symm

end NanoJS.EventEmitter
