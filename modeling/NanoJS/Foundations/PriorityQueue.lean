import Mathlib.Data.List.Perm.Basic
import Mathlib.Order.Lattice

/-!
# Priority queues up to their layout

A priority queue is a list read up to permutation: `Top less l` says which element the queue may
show as its top (any element that no other exceeds; the queue's layout decides between ties), and
`Pop less l j l'` that popping it leaves the elements `l'`. When `less` orders by a key, the
greatest element first having the least key, the top has the least key (`Top.key_le`). A `Layout` is
an implementation, in which the layout determines the top. Popping as long as the top is due takes
the due elements, each once, so that none exceeds an earlier one (`Layout.drain_filter`,
`Layout.drain_sorted`).
-/

namespace PriorityQueue

variable {α K : Type*} (less : α → α → Prop)

/-- What the queue shows as its top: nothing when it is empty, else an element no other exceeds. -/
def Top (l : List α) : Option α → Prop
  | none => l = []
  | some j => j ∈ l ∧ ∀ x ∈ l, ¬less j x

/-- Popping the top `j` of `l` leaves the elements `l'`. -/
def Pop (l : List α) (j : α) (l' : List α) : Prop :=
  l.Perm (j :: l') ∧ ∀ x ∈ l, ¬less j x

variable {less} {l l' : List α} {j x : α}

theorem Pop.perm (h : Pop less l j l') : l.Perm (j :: l') := h.1

theorem Pop.mem_of_mem (h : Pop less l j l') (hx : x ∈ l') : x ∈ l :=
  h.1.mem_iff.2 (List.mem_cons_of_mem j hx)

theorem Pop.mem (h : Pop less l j l') : j ∈ l := h.1.mem_iff.2 List.mem_cons_self

theorem Pop.length (h : Pop less l j l') : l.length = l'.length + 1 := h.1.length_eq

/-- The top that a scan from the back of the list finds: the last element that no other exceeds. -/
def scanTop (less : α → α → Prop) [DecidableRel less] : List α → Option α
  | [] => none
  | x :: l =>
    match scanTop less l with
    | none => some x
    | some j => if less j x then some x else some j

theorem scanTop_top [DecidableRel less] (hirrefl : ∀ a, ¬less a a)
    (htrans : ∀ a b c, less a b → less b c → less a c) (l : List α) :
    Top less l (scanTop less l) := by
  induction l with
  | nil => exact rfl
  | cons x l ih =>
    unfold scanTop
    cases hj : scanTop less l with
    | none =>
      rw [hj] at ih
      have hl : l = [] := ih
      subst hl
      exact ⟨List.mem_cons_self, by simpa using hirrefl x⟩
    | some j =>
      rw [hj] at ih
      by_cases hlt : less j x
      · simp only [hlt, if_true]
        refine ⟨List.mem_cons_self, fun y hy => ?_⟩
        rcases List.mem_cons.1 hy with rfl | hy
        · exact hirrefl y
        · exact fun h => ih.2 y hy (htrans j x y hlt h)
      · simp only [hlt, if_false]
        refine ⟨List.mem_cons_of_mem x ih.1, fun y hy => ?_⟩
        rcases List.mem_cons.1 hy with rfl | hy
        · exact hlt
        · exact ih.2 y hy

/-- When nothing exceeds itself and exceeding is transitive, the queue shows something. -/
theorem Top.exists (hirrefl : ∀ a, ¬less a a) (htrans : ∀ a b c, less a b → less b c → less a c)
    (l : List α) : ∃ o, Top less l o := by
  classical exact ⟨_, scanTop_top hirrefl htrans l⟩

/-- A top can be popped. -/
theorem Top.pop (h : Top less l (some j)) : ∃ l', Pop less l j l' := by
  obtain ⟨s, t, rfl⟩ := List.append_of_mem h.1
  exact ⟨s ++ t, List.perm_middle, h.2⟩

/-- The top has the least key, when a smaller key exceeds a greater one. -/
theorem Top.key_le [LinearOrder K] {key : α → K} (hkey : ∀ a b, key b < key a → less a b)
    (h : Top less l (some j)) (hx : x ∈ l) : key j ≤ key x :=
  not_lt.1 fun hlt => h.2 x hx (hkey j x hlt)

theorem Pop.key_le [LinearOrder K] {key : α → K} (hkey : ∀ a b, key b < key a → less a b)
    (h : Pop less l j l') (hx : x ∈ l') : key j ≤ key x :=
  not_lt.1 fun hlt => h.2 x (h.mem_of_mem hx) (hkey j x hlt)

/-! ## Draining a queue -/

/-- A priority queue as it is implemented: its layout, the list, determines which element is the
top and what popping leaves. -/
structure Layout (less : α → α → Prop) where
  top : List α → Option α
  pop : List α → List α
  top_spec (l : List α) : Top less l (top l)
  pop_perm (l : List α) (j : α) : top l = some j → l.Perm (j :: pop l)

namespace Layout

/-- The implementation that scans the list for its top. -/
def scan (less : α → α → Prop) [DecidableRel less] [DecidableEq α] (hirrefl : ∀ a, ¬less a a)
    (htrans : ∀ a b c, less a b → less b c → less a c) : Layout less where
  top := scanTop less
  pop l := ((scanTop less l).map l.erase).getD l
  top_spec := scanTop_top hirrefl htrans
  pop_perm l j h := by
    have htop := scanTop_top hirrefl htrans l
    rw [h] at htop
    rw [h]
    exact List.perm_cons_erase htop.1

variable (q : Layout less)

theorem pop_pop (h : q.top l = some j) : Pop less l j (q.pop l) :=
  have htop := q.top_spec l
  ⟨q.pop_perm l j h, (h ▸ htop : Top less l (some j)).2⟩

theorem top_eq_none (h : q.top l = none) : l = [] :=
  have htop := q.top_spec l
  (h ▸ htop : Top less l none)

theorem length_pop_lt (h : 0 < l.length) : (q.pop l).length < l.length := by
  cases hj : q.top l with
  | none => simp [q.top_eq_none hj] at h
  | some j =>
    have hlen := (q.pop_pop hj).length
    omega

/-- What is left in the queue, and what is taken in this order, when the top is popped as long as
it is `due`. -/
def drain (due : α → Bool) (l : List α) : List α × List α :=
  match _h : q.top l with
  | none => (l, [])
  | some j =>
    if due j then
      let rest := drain due (q.pop l)
      (rest.1, j :: rest.2)
    else (l, [])
termination_by l.length
decreasing_by
  have hlen := (q.pop_pop _h).length
  omega

variable (due : α → Bool) (l : List α)

/-- The top is due. -/
theorem drain_take (h : q.top l = some j) (hdue : due j = true) :
    q.drain due l = ((q.drain due (q.pop l)).1, j :: (q.drain due (q.pop l)).2) := by
  rw [drain]
  split
  · simp_all
  · simp_all

/-- The top is not due, or there is none. -/
theorem drain_stop (h : ∀ j, q.top l = some j → due j = false) : q.drain due l = (l, []) := by
  rw [drain]
  split
  · rfl
  · simp_all

theorem drain_perm : l.Perm ((q.drain due l).1 ++ (q.drain due l).2) := by
  fun_induction drain q due l with
  | case1 l h => simp
  | case2 l j h hdue rest ih =>
    have hpop := q.pop_perm l j h
    exact hpop.trans ((ih.cons j).trans List.perm_middle.symm)
  | case3 l j h hdue => simp

theorem drain_taken (hj : j ∈ (q.drain due l).2) : due j = true := by
  fun_induction drain q due l with
  | case1 l h => simp at hj
  | case2 l j' h hdue rest ih =>
    rcases List.mem_cons.1 hj with rfl | hj
    · exact hdue
    · exact ih hj
  | case3 l j' h hdue => simp at hj

/-- When what exceeds a due element is due, nothing due is left. -/
theorem drain_left (hmono : ∀ a b, ¬less a b → due b = true → due a = true)
    (hj : j ∈ (q.drain due l).1) : due j = false := by
  fun_induction drain q due l with
  | case1 l h => simp [q.top_eq_none h] at hj
  | case2 l j' h hdue rest ih => exact ih hj
  | case3 l j' h hdue =>
    have hle := (q.pop_pop h).2 j hj
    by_contra hne
    exact hdue (hmono j' j hle (by simpa using hne))

/-- What is taken earlier is not exceeded by what is taken later. -/
theorem drain_sorted : (q.drain due l).2.Pairwise fun a b => ¬less a b := by
  fun_induction drain q due l with
  | case1 l h => exact .nil
  | case2 l j h hdue rest ih =>
    refine ih.cons fun x hx => ?_
    have hpop := q.pop_pop h
    exact hpop.2 x (hpop.mem_of_mem ((q.drain_perm due _).mem_iff.2 (List.mem_append_right _ hx)))
  | case3 l j h hdue => exact .nil

/-- **Draining splits the queue**: it takes the due elements, each once, and leaves the others. -/
theorem drain_filter (hmono : ∀ a b, ¬less a b → due b = true → due a = true) :
    (q.drain due l).2.Perm (l.filter due) := by
  have hleft : (q.drain due l).1.filter due = [] :=
    List.filter_eq_nil_iff.2 fun x hx => by simp [q.drain_left due l hmono hx]
  have htaken : (q.drain due l).2.filter due = (q.drain due l).2 :=
    List.filter_eq_self.2 fun x hx => q.drain_taken due l hx
  have hsplit := (q.drain_perm due l).filter due
  rw [List.filter_append, hleft, htaken, List.nil_append] at hsplit
  exact hsplit.symm

end Layout

end PriorityQueue
