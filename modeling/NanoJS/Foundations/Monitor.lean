import NanoJS.Foundations.Transition
import Mathlib.Data.List.Forall2

/-!
# Monitors

A monitor reads the events of a log, one at a time, and rejects some. What a system logs is accepted
in every reachable state, when a relation between its states and those of the monitor is kept by
every step, the monitor reading what the step logs (`Monitor.run_of_reachable`).

A monitor of activities that nest keeps a list of them, the innermost first.
-/

/-- A state to begin with, and the state after an event, if it is not rejected. -/
structure Monitor (E Q : Type*) where
  start : Q
  next : Q → E → Option Q

namespace Monitor

variable {E Q S L : Type*} (M : Monitor E Q)

/-- The state after a log, whose latest event comes first. -/
def run : List E → Option Q
  | [] => some M.start
  | e :: log => (run log).bind fun q => M.next q e

/-- No event of the log is rejected. -/
def Accepts (log : List E) : Prop := (M.run log).isSome = true

instance (log : List E) : Decidable (M.Accepts log) := inferInstanceAs (Decidable (_ = true))

variable {M}

theorem run_cons {log : List E} {q q' : Q} {e : E} (hlog : M.run log = some q)
    (he : M.next q e = some q') : M.run (e :: log) = some q' := by
  rw [run, hlog]
  exact he

/-- A step logs an event that the monitor reads, or nothing. -/
inductive Reads (M : Monitor E Q) (log : List E) (q : Q) : List E → Q → Prop
  | event {e q'} (h : M.next q e = some q') : Reads M log q (e :: log) q'
  | silent : Reads M log q log q

/-- **The rule for monitors.** -/
theorem run_of_reachable {init : S → Prop} {step : S → L → S → Prop} (log : S → List E)
    (R : S → Q → Prop) (h₀ : ∀ s, init s → log s = [] ∧ R s M.start)
    (hstep : ∀ s l s' q, Transition.Reachable init step s → R s q → step s l s' →
      ∃ q', M.Reads (log s) q (log s') q' ∧ R s' q')
    {s : S} (h : Transition.Reachable init step s) : ∃ q, M.run (log s) = some q ∧ R s q := by
  induction h with
  | start hs =>
    obtain ⟨hlog, hR⟩ := h₀ _ hs
    exact ⟨M.start, by rw [hlog]; rfl, hR⟩
  | @tail s l s' hr hl ih =>
    obtain ⟨q, hrun, hR⟩ := ih
    obtain ⟨q', hreads, hR'⟩ := hstep s l s' q hr hR hl
    refine ⟨q', ?_, hR'⟩
    generalize log s' = next at hreads
    cases hreads with
    | event he => exact run_cons hrun he
    | silent => exact hrun

theorem accepts_of_run {log : List E} {q : Q} (h : M.run log = some q) : M.Accepts log := by
  rw [Accepts, h]
  rfl

/-! ## Nested activities -/

variable {A D : Type*}

/-- Something happens in the innermost activity. -/
def innermost (f : D → Option D) : List D → Option (List D)
  | [] => none
  | d :: rest => (f d).map (· :: rest)

/-- The innermost activity ends. -/
def leave (p : D → Bool) : List D → Option (List D)
  | [] => none
  | d :: rest => if p d then some rest else none

theorem innermost_cons {f : D → Option D} {d d' : D} (rest : List D) (h : f d = some d') :
    innermost f (d :: rest) = some (d' :: rest) := by
  rw [innermost, h]
  rfl

theorem leave_cons {p : D → Bool} {d : D} (rest : List D) (h : p d = true) :
    leave p (d :: rest) = some rest :=
  if_pos h

/-- What is known of the innermost activity. -/
theorem exists_innermost {R : A → D → Prop} {l : List A} {ds : List D} (h : List.Forall₂ R l ds)
    {a : A} {rest : List A} (hl : l = a :: rest) :
    ∃ d drest, ds = d :: drest ∧ R a d ∧ List.Forall₂ R rest drest := by
  rw [hl, List.forall₂_cons_left_iff] at h
  obtain ⟨d, drest, hd, hrest, hds⟩ := h
  exact ⟨d, drest, hds, hd, hrest⟩

/-- What is known of each activity changes. -/
theorem forall₂_map {R R' : A → D → Prop} {l : List A} {ds : List D} (h : List.Forall₂ R l ds)
    (change : D → D) (hchange : ∀ a ∈ l, ∀ d, R a d → R' a (change d)) :
    List.Forall₂ R' l (ds.map change) := by
  rw [List.forall₂_map_right_iff]
  have hall := (List.forall₂_and_left l ds).2 ⟨fun _ ha => ha, h⟩
  exact hall.imp fun a d ha => hchange a ha.1 d ha.2

end Monitor
