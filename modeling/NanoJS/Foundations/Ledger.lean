import Mathlib.Data.List.Perm.Basic
import Mathlib.Data.List.Nodup
import Mathlib.Data.List.Count
import Mathlib.Order.Nat

/-!
# A ledger of jobs

What a loop does to the jobs it is given, without their places: a job is registered, moved,
invoked, and then either deleted (a job to run once) or kept (one that repeats). `Sound` counts,
for each job, its registrations against its invocations and its presence in the ledger; it is kept
by every step, so a ledger that holds nothing has invoked every job to run once as often as it was
registered (`Sound.invoked_of_empty`), and no job is held more often than it was registered
(`Sound.held_le`). A stretch of a run that begins with nothing held is the run of a ledger of its
own (`Since`).
-/

variable {K : Type*}

/-- The jobs that are present, the one whose function is being executed, and the history. -/
structure Ledger (K : Type*) where
  held : List K
  running : Option K
  registered : List K
  invoked : List K

namespace Ledger

/-- The entries of a ledger. `once` tells the jobs to run once. -/
inductive Step (once : K → Bool) (b b' : Ledger K) : Prop
  | move (hh : b'.held.Perm b.held) (hr : b'.running = b.running)
      (hg : b'.registered = b.registered) (hi : b'.invoked = b.invoked)
  | register (k : K) (hh : b'.held.Perm (k :: b.held)) (hr : b'.running = b.running)
      (hg : b'.registered = k :: b.registered) (hi : b'.invoked = b.invoked)
  | invoke (k : K) (hk : k ∈ b.held) (hb : b.running = none) (hh : b'.held.Perm b.held)
      (hr : b'.running = some k) (hg : b'.registered = b.registered)
      (hi : b'.invoked = k :: b.invoked)
  | delete (k : K) (hk : once k = true) (hb : b.running = some k)
      (hh : b.held.Perm (k :: b'.held)) (hr : b'.running = none)
      (hg : b'.registered = b.registered) (hi : b'.invoked = b.invoked)
  | keep (k : K) (hk : once k = false) (hb : b.running = some k) (hh : b'.held.Perm b.held)
      (hr : b'.running = none) (hg : b'.registered = b.registered)
      (hi : b'.invoked = b.invoked)

def empty : Ledger K := ⟨[], none, [], []⟩

variable {once : K → Bool} {b b' : Ledger K}

/-! ## What a step does to the jobs present -/

namespace Step

variable {k : K}

theorem held_register (h : Step once b b') (hg : b'.registered = k :: b.registered) :
    b'.held.Perm (k :: b.held) := by
  cases h with
  | register j hh hr hg' hi =>
    obtain rfl : j = k := (List.cons.inj (hg'.symm.trans hg)).1
    exact hh
  | move hh hr hg' | invoke _ _ _ hh hr hg' | delete _ _ _ hh hr hg' | keep _ _ _ hh hr hg' =>
    exact absurd (hg.symm.trans hg') (List.cons_ne_self k _)

/-- When nothing is registered and no job is deleted. -/
theorem held_move (h : Step once b b') (hg : b'.registered = b.registered)
    (hr : ∀ k, b.running = some k → once k = false ∨ b'.running = some k) :
    b'.held.Perm b.held := by
  cases h with
  | register j hh hr' hg' hi => exact absurd (hg'.symm.trans hg) (List.cons_ne_self j _)
  | delete j hj hb hh hr' hg' hi =>
    rcases hr j hb with h | h
    · rw [hj] at h
      cases h
    · rw [hr'] at h
      cases h
  | move hh | invoke _ _ _ hh | keep _ _ _ hh => exact hh

/-- When the function of a job to run once has returned. -/
theorem held_delete (h : Step once b b') (hb : b.running = some k) (hr : b'.running = none)
    (hk : once k = true) : b.held.Perm (k :: b'.held) := by
  cases h with
  | move hh hr' | register _ hh hr' =>
    rw [hr, hb] at hr'
    cases hr'
  | invoke j hj hb' =>
    rw [hb] at hb'
    cases hb'
  | delete j hj hb' hh =>
    obtain rfl : k = j := Option.some.inj (hb.symm.trans hb')
    exact hh
  | keep j hj hb' =>
    obtain rfl : k = j := Option.some.inj (hb.symm.trans hb')
    rw [hk] at hj
    cases hj

end Step

/-! ## Soundness -/

variable [DecidableEq K]

/-- Registrations are invocations and presences, the running job counting as both. -/
structure Sound (once : K → Bool) (b : Ledger K) : Prop where
  balance : ∀ k, once k = true →
    b.invoked.count k + b.held.count k = b.registered.count k + b.running.toList.count k
  repeating : ∀ k, once k = false → b.held.count k = b.registered.count k
  running : ∀ k, b.running = some k → 0 < b.invoked.count k ∧ k ∈ b.held

theorem sound_empty : (empty : Ledger K).Sound once :=
  ⟨by simp [empty], by simp [empty], by simp [empty]⟩

theorem Sound.step (h : b.Sound once) (hs : Step once b b') : b'.Sound once := by
  obtain ⟨hbal, hrep, hrun⟩ := h
  cases hs with
  | move hh hr hg hi =>
    refine ⟨fun k hk => by rw [hi, hg, hr, hh.count_eq]; exact hbal k hk,
      fun k hk => by rw [hg, hh.count_eq]; exact hrep k hk, fun k hk => ?_⟩
    rw [hi, hh.mem_iff]
    exact hrun k (hr ▸ hk)
  | register k hh hr hg hi =>
    refine ⟨?_, ?_, ?_⟩ <;> intro j hj
    · have := hbal j hj
      rw [hi, hg, hr, hh.count_eq, List.count_cons, List.count_cons]
      omega
    · rw [hg, hh.count_eq, List.count_cons, List.count_cons, hrep j hj]
    · rw [hi, hh.mem_iff]
      exact (hrun j (hr ▸ hj)).imp_right (List.mem_cons_of_mem k)
  | invoke k hk hb hh hr hg hi =>
    refine ⟨fun j hj => ?_, fun j hj => by rw [hg, hh.count_eq]; exact hrep j hj, ?_⟩
    · have := hbal j hj
      rw [hb] at this
      rw [hi, hg, hr, hh.count_eq, List.count_cons]
      simp only [Option.toList_none, List.count_nil, Option.toList_some, List.count_cons] at *
      omega
    · rw [hr, hi]
      rintro _ ⟨⟩
      exact ⟨by simp, hh.mem_iff.2 hk⟩
  | delete k hk hb hh hr hg hi =>
    refine ⟨fun j hj => ?_, fun j hj => ?_, by rw [hr]; simp⟩
    · have := hbal j hj
      rw [hb, hh.count_eq] at this
      rw [hi, hg, hr]
      simp only [Option.toList_none, List.count_nil, Option.toList_some, List.count_cons] at *
      omega
    · have := hrep j hj
      rw [hh.count_eq, List.count_cons] at this
      have hne : (k == j) = false := by
        rw [beq_eq_false_iff_ne]
        rintro rfl
        rw [hk] at hj
        cases hj
      rw [hg]
      simpa [hne] using this
  | keep k hk hb hh hr hg hi =>
    refine ⟨fun j hj => ?_, fun j hj => by rw [hg, hh.count_eq]; exact hrep j hj,
      by rw [hr]; simp⟩
    have hne : (k == j) = false := by
      rw [beq_eq_false_iff_ne]
      rintro rfl
      rw [hk] at hj
      cases hj
    have := hbal j hj
    rw [hb] at this
    rw [hi, hg, hr, hh.count_eq]
    simpa [List.count_cons, hne] using this

/-- A job is present at most as often as it was registered. -/
theorem Sound.held_le (h : b.Sound once) (k : K) : b.held.count k ≤ b.registered.count k := by
  cases hk : once k with
  | false => exact (h.repeating k hk).le
  | true =>
    have hbal := h.balance k hk
    rcases hr : b.running with _ | j
    · rw [hr, Option.toList_none, List.count_nil] at hbal
      omega
    · rw [hr, Option.toList_some, List.count_singleton] at hbal
      by_cases hj : j = k
      · subst hj
        have := (h.running j hr).1
        simp only [beq_self_eq_true, if_true] at hbal
        omega
      · simp only [beq_eq_false_iff_ne.2 hj, Bool.false_eq_true, if_false] at hbal
        omega

/-- The jobs present are distinct in what distinguishes the registered ones. -/
theorem Sound.nodup_map {I : Type*} [DecidableEq I] (h : b.Sound once) (f : K → I)
    (hf : (b.registered.map f).Nodup) : (b.held.map f).Nodup := by
  have hsub : b.held.Subperm b.registered := List.subperm_ext_iff.2 fun k _ => h.held_le k
  obtain ⟨l, hl, hs⟩ := hsub
  exact (hl.map f).nodup_iff.1 (hf.sublist (hs.map f))

/-- A job registered once and to run once is invoked at most once, and present until it is. -/
theorem Sound.once_invoked (h : b.Sound once) {k : K} (hk : once k = true)
    (hone : b.registered.count k = 1) :
    b.invoked.count k ≤ 1 ∧ (b.invoked.count k = 0 → k ∈ b.held) := by
  have hbal := h.balance k hk
  by_cases hr : b.running = some k
  · have hheld := List.count_pos_iff.2 (h.running k hr).2
    have hpos := (h.running k hr).1
    rw [hr, hone, Option.toList_some, List.count_singleton, beq_self_eq_true, if_pos rfl] at hbal
    exact ⟨by omega, fun h0 => by omega⟩
  · have hz : b.running.toList.count k = 0 := List.count_eq_zero.2 (by simpa using hr)
    exact ⟨by omega, fun h0 => List.count_pos_iff.1 (by omega)⟩

/-- **A ledger that holds nothing has invoked each job to run once as often as it was
registered**, and no repeating job was registered. -/
theorem Sound.invoked_of_empty (h : b.Sound once) (he : b.held = []) (hn : b.running = none)
    (k : K) :
    (once k = true → b.invoked.count k = b.registered.count k) ∧
      (once k = false → k ∉ b.registered) := by
  constructor <;> intro hk
  · have := h.balance k hk
    rw [he, hn] at this
    simpa using this
  · have := h.repeating k hk
    rw [he, List.count_nil] at this
    exact List.count_eq_zero.1 this.symm

/-! ## A stretch of a run -/

/-- The entries since `b₀`: what was registered and invoked, in front of the history of `b₀`, is
with the jobs that are present now a ledger by itself. -/
structure Since (once : K → Bool) (b₀ b : Ledger K) (registered invoked : List K) : Prop where
  registered_eq : b.registered = registered ++ b₀.registered
  invoked_eq : b.invoked = invoked ++ b₀.invoked
  sound : Sound once ⟨b.held, b.running, registered, invoked⟩
  subset : invoked ⊆ registered

namespace Since

variable {b₀ : Ledger K} {registered invoked : List K}

/-- The stretch begins when nothing is held. -/
theorem start (hh : b.held = []) (hr : b.running = none) : Since once b b [] [] := by
  refine ⟨rfl, rfl, ?_, List.Subset.refl _⟩
  rw [hh, hr]
  exact sound_empty

/-- What is held has been registered since. -/
theorem held_subset (h : Since once b₀ b registered invoked) : b.held ⊆ registered := fun k hk =>
  List.count_pos_iff.1 ((List.count_pos_iff.2 hk).trans_le (h.sound.held_le k))

theorem step (h : Since once b₀ b registered invoked) (hs : Step once b b') :
    ∃ registered' invoked', Since once b₀ b' registered' invoked' := by
  obtain ⟨hg₀, hi₀, hsound, hsub⟩ := h
  cases hs with
  | move hh hr hg hi =>
    exact ⟨registered, invoked, hg.trans hg₀, hi.trans hi₀, hsound.step (.move hh hr rfl rfl), hsub⟩
  | register k hh hr hg hi =>
    exact ⟨k :: registered, invoked, by rw [hg, hg₀, List.cons_append], hi.trans hi₀,
      hsound.step (.register k hh hr rfl rfl), List.subset_cons_of_subset _ hsub⟩
  | invoke k hk hb hh hr hg hi =>
    refine ⟨registered, k :: invoked, hg.trans hg₀, by rw [hi, hi₀, List.cons_append],
      hsound.step (.invoke k hk hb hh hr rfl rfl), List.cons_subset.2 ⟨?_, hsub⟩⟩
    exact held_subset ⟨hg₀, hi₀, hsound, hsub⟩ hk
  | delete k hk hb hh hr hg hi =>
    exact ⟨registered, invoked, hg.trans hg₀, hi.trans hi₀,
      hsound.step (.delete k hk hb hh hr rfl rfl), hsub⟩
  | keep k hk hb hh hr hg hi =>
    exact ⟨registered, invoked, hg.trans hg₀, hi.trans hi₀,
      hsound.step (.keep k hk hb hh hr rfl rfl), hsub⟩

end Since

end Ledger
