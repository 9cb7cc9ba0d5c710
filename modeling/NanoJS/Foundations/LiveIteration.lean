import Mathlib.Data.List.Basic
import Mathlib.Data.List.TakeDrop
import Mathlib.Tactic.Set

/-!
# Iteration over a list that changes

An iteration by positions visits the elements at the positions `0, 1, …` below the length that the
list had at its beginning. Meanwhile elements are appended, and others removed, so that those behind
them move to the front. `Awaits Q l next length todo` says that the elements in `Q` which an
iteration at `next` has not reached yet are `todo`; a removal keeps this if no awaited element that
stays moves in front of `next` (`Awaits.filter`).

Whatever is removed, `Visits` holds of an iteration over elements with ascending keys: it visits
them in this order, and at its end it has missed at most as many of those that were there when it
began as have been removed (`Visits.finish`).
-/

namespace LiveIteration

variable {α : Type*} {Q : α → Bool} {l todo : List α} {next length : ℕ} {a : α}

/-- The elements in `Q` from the position `next` on are `todo`, and all of them are below
`length`. -/
structure Awaits (Q : α → Bool) (l : List α) (next length : ℕ) (todo : List α) : Prop where
  todo_eq : todo = (l.drop next).filter Q
  within : ∀ a ∈ l.drop length, Q a = false

namespace Awaits

/-- An iteration that begins awaits all of `Q`. -/
theorem start (Q : α → Bool) (l : List α) : Awaits Q l 0 l.length (l.filter Q) :=
  ⟨rfl, by simp⟩

/-- At the end nothing is awaited. -/
theorem finish (h : Awaits Q l next length todo) (hnext : length ≤ next) : todo = [] := by
  rw [h.todo_eq, List.filter_eq_nil_iff]
  intro a ha
  have hlater : a ∈ l.drop length := (List.drop_sublist_drop_left l hnext).subset ha
  simp [h.within a hlater]

/-- An element of `Q` that is visited is the first that is awaited. -/
theorem visit (h : Awaits Q l next length todo) (ha : l[next]? = some a) (hQ : Q a = true) :
    ∃ rest, todo = a :: rest ∧ Awaits Q l (next + 1) length rest := by
  have hdrop := List.drop_eq_getElem?_toList_append (l := l) (i := next)
  rw [ha] at hdrop
  refine ⟨_, ?_, rfl, h.within⟩
  rw [h.todo_eq, hdrop]
  exact List.filter_cons_of_pos hQ

/-- Another element, or none, changes nothing. -/
theorem pass (h : Awaits Q l next length todo) (ha : ∀ a, l[next]? = some a → Q a = false) :
    Awaits Q l (next + 1) length todo := by
  have hdrop := List.drop_eq_getElem?_toList_append (l := l) (i := next)
  refine ⟨?_, h.within⟩
  rw [h.todo_eq, hdrop]
  cases hnext : l[next]? with
  | none => rfl
  | some a => exact List.filter_cons_of_neg (by simp [ha a hnext])

/-- What is appended is not awaited. -/
theorem append (h : Awaits Q l next length todo) (ha : Q a = false) :
    Awaits Q (l ++ [a]) next length todo := by
  have hlast : ∀ n, ∀ x ∈ [a].drop n, Q x = false := by
    intro n x hx
    rw [List.mem_singleton.1 (List.mem_of_mem_drop hx)]
    exact ha
  constructor
  · rw [List.drop_append, List.filter_append, ← h.todo_eq,
      List.filter_eq_nil_iff.2 fun x hx => by simp [hlast _ x hx], List.append_nil]
  · intro x hx
    rw [List.drop_append, List.mem_append] at hx
    exact hx.elim (h.within x) (hlast _ x)

/-- **Removal.** `X` says which of the awaited elements are removed; the others must not move in
front of `next`. -/
theorem filter (h : Awaits Q l next length todo) {keep X : α → Bool}
    (hX : ∀ a ∈ l.drop next, Q a = true → keep a = !X a)
    (hstay : ∀ a ∈ l.drop next, Q a = true → keep a = true → a ∉ (l.filter keep).take next) :
    Awaits Q (l.filter keep) next length (todo.filter fun a => !X a) := by
  constructor
  · have hsplit : l.filter keep = (l.take next).filter keep ++ (l.drop next).filter keep := by
      rw [← List.filter_append, List.take_append_drop]
    have hshort : ((l.take next).filter keep).length ≤ next :=
      Nat.le_trans (List.length_filter_le ..) (List.length_take_le ..)
    rw [hsplit] at hstay
    -- what moves in front of `next` is not awaited
    set m := next - ((l.take next).filter keep).length
    have hmoved : (((l.drop next).filter keep).take m).filter Q = [] := by
      rw [List.filter_eq_nil_iff]
      intro a ha hQ
      obtain ⟨hdrop, hkeep⟩ := List.mem_filter.1 (List.mem_of_mem_take ha)
      apply hstay a hdrop hQ hkeep
      rw [List.take_append, List.mem_append]
      exact .inr ha
    have hrest : (((l.drop next).filter keep).drop m).filter Q =
        ((l.drop next).filter keep).filter Q := by
      conv_rhs => rw [← List.take_append_drop m ((l.drop next).filter keep), List.filter_append,
        hmoved, List.nil_append]
    rw [hsplit, List.drop_append, List.drop_eq_nil_of_le hshort, List.nil_append, hrest, h.todo_eq,
      List.filter_filter, List.filter_filter]
    apply List.filter_congr
    intro a ha
    cases hQ : Q a with
    | false => simp
    | true => simp [hX a ha hQ]
  · intro a ha
    exact h.within a ((List.filter_sublist.drop length).subset ha)

/-- Then an element in `Q` in front of `next` is one that has been passed. -/
theorem mem_take_of_filter {keep : α → Bool}
    (hstay : ∀ a ∈ l.drop next, Q a = true → keep a = true → a ∉ (l.filter keep).take next)
    {a : α} (hQ : Q a = true) (ha : a ∈ (l.filter keep).take next) : a ∈ l.take next := by
  obtain ⟨hal, hkeep⟩ := List.mem_filter.1 (List.mem_of_mem_take ha)
  rw [← List.take_append_drop next l, List.mem_append] at hal
  exact hal.resolve_right fun hdrop => hstay a hdrop hQ hkeep ha

end Awaits

/-! ## Whatever is removed -/

/-- The iteration is at `next`. So far it has visited `visited` elements, `served` of them with keys
below `born`, and `removed` elements have been removed, and the keys of those that it may visit yet
are not below `after`. -/
structure Visits (key : α → ℕ) (born : ℕ) (l : List α)
    (next length visited served removed after : ℕ) : Prop where
  next_le : next ≤ length
  visited_le : visited ≤ next
  length_le : length ≤ l.countP (key · < born) + removed
  missed_le : served = next ∨ length ≤ served + removed
  ahead : ∀ a ∈ l.drop next, after ≤ key a

namespace Visits

variable {key : α → ℕ} {born visited served removed after : ℕ}

/-- At the beginning the keys of all elements are below `born`. -/
theorem start (hborn : ∀ a ∈ l, key a < born) : Visits key born l 0 l.length 0 0 0 0 := by
  refine ⟨Nat.zero_le _, Nat.le_refl _, ?_, .inl rfl, fun _ _ => Nat.zero_le _⟩
  rw [List.countP_eq_length.2 fun a ha => decide_eq_true (hborn a ha)]
  exact Nat.le_refl _

/-- Where the elements from `next` on are later ones, those that were there when the iteration began
have been visited, removed or moved. -/
theorem missed (h : Visits key born l next length visited served removed after)
    (hlater : ∀ a ∈ l.drop next, born ≤ key a) : length ≤ served + removed := by
  rcases h.missed_le with hserved | hmissed
  · have hfront : l.countP (key · < born) ≤ next := by
      have hnone : (l.drop next).countP (key · < born) = 0 :=
        List.countP_eq_zero.2 fun a ha => by simpa using hlater a ha
      conv_lhs => rw [← List.take_append_drop next l, List.countP_append, hnone, Nat.add_zero]
      exact Nat.le_trans List.countP_le_length (List.length_take_le next l)
    have hle := h.length_le
    omega
  · exact hmissed

/-- An element is visited. -/
theorem visit (h : Visits key born l next length visited served removed after)
    (hnext : next < length) (ha : l[next]? = some a) (hsorted : l.Pairwise (key · < key ·)) :
    after ≤ key a ∧ Visits key born l (next + 1) length (visited + 1)
      (if key a < born then served + 1 else served) removed (key a + 1) := by
  have hdrop : l.drop next = a :: l.drop (next + 1) := by
    rw [List.drop_eq_getElem?_toList_append, ha]
    rfl
  have hpair := hsorted.sublist (List.drop_sublist next l)
  rw [hdrop, List.pairwise_cons] at hpair
  refine ⟨h.ahead a (hdrop ▸ .head _), hnext, Nat.succ_le_succ h.visited_le, h.length_le, ?_,
    fun b hb => Nat.succ_le_of_lt (hpair.1 b hb)⟩
  by_cases hold : key a < born
  · rw [if_pos hold]
    rcases h.missed_le with hserved | hmissed
    · exact .inl (congrArg (· + 1) hserved)
    · exact .inr (by omega)
  · rw [if_neg hold]
    refine .inr (h.missed fun b hb => ?_)
    rw [hdrop, List.mem_cons] at hb
    rcases hb with rfl | hb
    · exact Nat.not_lt.1 hold
    · exact Nat.le_trans (Nat.not_lt.1 hold) (Nat.le_of_lt (hpair.1 b hb))

/-- A position that is not in the list any more. -/
theorem skip (h : Visits key born l next length visited served removed after)
    (hnext : next < length) (ha : l[next]? = none) :
    Visits key born l (next + 1) length visited served removed after := by
  have hlen : l.length ≤ next := List.getElem?_eq_none_iff.1 ha
  have hmissed : length ≤ served + removed := by
    apply h.missed
    rw [List.drop_eq_nil_of_le hlen]
    exact fun b hb => absurd hb List.not_mem_nil
  refine ⟨hnext, Nat.le_succ_of_le h.visited_le, h.length_le, .inr hmissed, ?_⟩
  rw [List.drop_eq_nil_of_le (Nat.le_succ_of_le hlen)]
  exact fun b hb => absurd hb List.not_mem_nil

theorem append (h : Visits key born l next length visited served removed after)
    (ha : after ≤ key a) : Visits key born (l ++ [a]) next length visited served removed after := by
  refine ⟨h.next_le, h.visited_le, ?_, h.missed_le, ?_⟩
  · have hle := h.length_le
    rw [List.countP_append]
    omega
  · intro b hb
    rw [List.drop_append, List.mem_append] at hb
    rcases hb with hb | hb
    · exact h.ahead b hb
    · rw [List.mem_singleton.1 (List.mem_of_mem_drop hb)]
      exact ha

/-- At most `n` elements are removed. -/
theorem filter (h : Visits key born l next length visited served removed after) {keep : α → Bool}
    {n : ℕ} (hn : l.length ≤ (l.filter keep).length + n) :
    Visits key born (l.filter keep) next length visited served (removed + n) after := by
  have hle := h.length_le
  -- those of them that were there when the iteration began are not more
  have hold : l.countP (key · < born) ≤ (l.filter keep).countP (key · < born) + n := by
    have hsplit := List.countP_eq_countP_filter_add l (key · < born) keep
    have hlength := List.length_eq_length_filter_add (l := l) keep
    have hgone := List.countP_le_length (p := (key · < born)) (l := l.filter (!keep ·))
    omega
  refine ⟨h.next_le, h.visited_le, by omega, ?_, fun b hb => ?_⟩
  · exact h.missed_le.imp_right fun hmissed => by omega
  · exact h.ahead b ((List.filter_sublist.drop next).subset hb)

/-- **At the end** it has missed at most as many of the elements that were there when it began as
have been removed. -/
theorem finish (h : Visits key born l next length visited served removed after)
    (hnext : length ≤ next) : length ≤ served + removed := by
  rcases h.missed_le with hserved | hmissed
  · omega
  · exact hmissed

end Visits

end LiveIteration
