import Mathlib.Data.Fintype.Card
import Mathlib.Logic.Relation

/-!
# Finite graphs without cycles

A graph is a relation `r` of its nodes. From a node all paths come to an end if it is accessible for
the opposite relation. Where only finitely many nodes can be reached, that is so exactly when none
of them is on a cycle (`acc_iff_no_cycle`).
-/

open Relation

variable {α : Type*} {r : α → α → Prop} {a : α}

namespace Acyclic

/-- A node that is accessible is on no cycle. -/
theorem not_cycle (h : Acc (flip r) a) : ¬TransGen r a a := by
  have hacc : Acc (TransGen (flip r)) a := h.transGen
  intro hcycle
  have hback : TransGen (flip r) a a := transGen_swap.2 hcycle
  clear h hcycle
  induction hacc with
  | intro a _ ih => exact ih a hback hback

/-- What is reached from an accessible node is accessible. -/
theorem acc_of_reaches (h : Acc (flip r) a) {b : α} (hab : ReflTransGen r a b) :
    Acc (flip r) b := by
  induction hab with
  | refl => exact h
  | tail _ hbc ih => exact ih.inv hbc

/-- **No cycle is reached exactly when all paths come to an end.** -/
theorem acc_iff_no_cycle (hfin : {b | ReflTransGen r a b}.Finite) :
    Acc (flip r) a ↔ ∀ b, ReflTransGen r a b → ¬TransGen r b b := by
  constructor
  · intro h b hab
    exact not_cycle (acc_of_reaches h hab)
  · intro h
    have : Finite {b | ReflTransGen r a b} := hfin
    -- on the nodes that are reached, paths are a finite order
    let R : {b | ReflTransGen r a b} → {b | ReflTransGen r a b} → Prop := fun x y =>
      TransGen r y.1 x.1
    have : IsTrans _ R := ⟨fun x y z hxy hyz => hyz.trans hxy⟩
    have : Std.Irrefl R := ⟨fun x hx => h x.1 x.2 hx⟩
    have hwf : WellFounded R := Finite.wellFounded_of_trans_of_irrefl R
    have hall : ∀ x : {b | ReflTransGen r a b}, Acc (flip r) x.1 := by
      intro x
      induction x using hwf.induction with
      | _ x ih => exact ⟨_, fun y hxy => ih ⟨y, x.2.tail hxy⟩ (.single hxy)⟩
    exact hall ⟨a, .refl⟩

end Acyclic
