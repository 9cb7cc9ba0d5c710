import Mathlib.Data.List.Perm.Basic
import Mathlib.Data.List.Nodup
import Mathlib.Order.Nat

/-!
# Identities handed out by a counter

A list of identities in use below a counter `n`. A step permutes the list, releases one of its
members, or adds the counter's value and increments it (`Recycles`); each keeps the identities
distinct and below the counter (`Below.recycle`).
-/

namespace FreshIds

/-- The identities of `l` are distinct and below `n`. -/
structure Below (l : List ℕ) (n : ℕ) : Prop where
  nodup : l.Nodup
  lt : ∀ i ∈ l, i < n

/-- A step of the list in use and of the counter. -/
inductive Recycles (l : List ℕ) (n : ℕ) (l' : List ℕ) (n' : ℕ) : Prop
  | keep (hp : l'.Perm l) (hn : n ≤ n')
  | release (i : ℕ) (hp : l.Perm (i :: l')) (hn : n ≤ n')
  | take (hp : l'.Perm (n :: l)) (hn : n' = n + 1)

theorem Below.nil (n : ℕ) : Below [] n := ⟨List.nodup_nil, by simp⟩

theorem Below.recycle {l l' : List ℕ} {n n' : ℕ} (h : Below l n) (hr : Recycles l n l' n') :
    Below l' n' := by
  cases hr with
  | keep hp hn =>
    exact ⟨hp.nodup_iff.2 h.nodup, fun i hi => lt_of_lt_of_le (h.lt i (hp.mem_iff.1 hi)) hn⟩
  | release i hp hn =>
    have hnd := hp.nodup_iff.1 h.nodup
    exact ⟨(List.nodup_cons.1 hnd).2,
      fun j hj => lt_of_lt_of_le (h.lt j (hp.mem_iff.2 (List.mem_cons_of_mem i hj))) hn⟩
  | take hp hn =>
    subst hn
    refine ⟨hp.nodup_iff.2 (List.nodup_cons.2 ⟨fun hm => lt_irrefl n (h.lt n hm), h.nodup⟩),
      fun i hi => ?_⟩
    rcases List.mem_cons.1 (hp.mem_iff.1 hi) with rfl | hi
    · exact i.lt_succ_self
    · exact lt_trans (h.lt i hi) n.lt_succ_self

/-- Beside identities that stay in use. -/
theorem Recycles.append_left {l l' : List ℕ} {n n' : ℕ} (h : Recycles l n l' n') (k : List ℕ) :
    Recycles (k ++ l) n (k ++ l') n' := by
  cases h with
  | keep hp hn => exact .keep (hp.append_left k) hn
  | release i hp hn => exact .release i ((hp.append_left k).trans List.perm_middle) hn
  | take hp hn => exact .take ((hp.append_left k).trans List.perm_middle) hn

end FreshIds
