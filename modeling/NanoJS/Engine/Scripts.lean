import NanoJS.Engine.Intervals

/-!
# One script after another

`App::Start` runs the files of `argv` one after the other over one loop, with `Run` in between.
When `Run` returns nothing is held, so from the moment a script begins the ledger of the process is
that of a process of its own (`Sys.Steps.since`): what is held or invoked since then was registered
since then, and a `Run` that returns has invoked exactly once what was registered since
(`scripts_apart`).
-/

namespace NanoJS

open List

/-! ## Stretches of a run -/

/-- A step adds to the log. -/
theorem Step.log_suffix {s s' : Sys} {l : Label} (h : Step s l s') : s.log <:+ s'.log := by
  cases h with
  | timerCall | timerRegister | startWorker | invokeTimer | invokeCallback | watcherChange =>
    exact suffix_cons _ _
  | _ => exact suffix_refl _

theorem Sys.Steps.log_suffix {s s' : Sys} (h : s.Steps s') : s.log <:+ s'.log := by
  induction h with
  | refl => exact suffix_refl _
  | tail _ hl ih =>
    obtain ⟨l, hl⟩ := hl
    exact ih.trans hl.log_suffix

/-- Between two scripts no function is being executed. -/
theorem Pc.running_start : Pc.start.running = none := rfl

/-- **The ledger since a script began.** -/
theorem Sys.Steps.since {s₀ s : Sys} (h : s₀.Steps s) (hr : s₀.Reachable) (hp : s₀.pending = 0)
    (hrun : s₀.pc.running = none) :
    ∃ registered invoked, Ledger.Since JobKey.once s₀.ledger s.ledger registered invoked := by
  induction h with
  | refl => exact ⟨[], [], .start (held_of_pending hp) hrun⟩
  | tail hs hl ih =>
    obtain ⟨l, hl⟩ := hl
    obtain ⟨registered, invoked, h⟩ := ih
    exact h.step (hl.ledger (Sys.Reachable.control (Sys.Steps.reachable hs hr)))

/-- What the ledger has taken down since is what the log has. -/
theorem Sys.log_since {s₀ s : Sys} {registered invoked : List JobKey} {since : List Event}
    (h : Ledger.Since JobKey.once s₀.ledger s.ledger registered invoked)
    (hlog : s.log = since ++ s₀.log) :
    since.filterMap Event.registered? = registered ∧ since.filterMap Event.invoked? = invoked := by
  have hreg : s.registered = registered ++ s₀.registered := h.registered_eq
  have hinv : s.invoked = invoked ++ s₀.invoked := h.invoked_eq
  rw [Sys.registered, Sys.registered, hlog, filterMap_append] at hreg
  rw [Sys.invoked, Sys.invoked, hlog, filterMap_append] at hinv
  exact ⟨append_cancel_right hreg, append_cancel_right hinv⟩

/-! ## Threads -/

/-- The jobs that a thread works with. -/
def Thread.ids : Thread → List ℕ
  | .worker job _ => [job.id]
  | .watcher job _ => [job.id]
  | .posting job _ localJob => [job.id, localJob.id]

/-- The threads have been started since the identity `n` was free. -/
def Sys.StartedFrom (n : ℕ) (s : Sys) : Prop :=
  n ≤ s.nextId ∧ ∀ t ∈ s.threads, ∀ i ∈ t.ids, n ≤ i

theorem Step.startedFrom {n : ℕ} {s s' : Sys} {l : Label} (h : Step s l s')
    (hs : s.StartedFrom n) : s'.StartedFrom n := by
  obtain ⟨hn, hthreads⟩ := hs
  refine ⟨hn.trans h.nextId_le, ?_⟩
  cases h with
  | startWorker | watchFile =>
    exact forall_mem_cons.2 ⟨by simpa [Thread.ids] using hn, hthreads⟩
  | deliver ht | post ht | watcherStop ht =>
    rw [ht, forall_mem_append, forall_mem_cons] at hthreads
    exact forall_mem_append.2 ⟨hthreads.1, hthreads.2.2⟩
  | watcherChange ht | watcherPost ht =>
    rw [ht, forall_mem_append, forall_mem_cons] at hthreads
    obtain ⟨hpre, hjob, hpost⟩ := hthreads
    refine forall_mem_append.2 ⟨hpre, forall_mem_cons.2 ⟨?_, hpost⟩⟩
    simp_all [Thread.ids]
  | _ => exact hthreads

theorem Sys.Steps.startedFrom {n : ℕ} {s s' : Sys} (h : s.Steps s') (hs : s.StartedFrom n) :
    s'.StartedFrom n := by
  induction h with
  | refl => exact hs
  | tail _ hl ih =>
    obtain ⟨l, hl⟩ := hl
    exact hl.startedFrom ih

/-! ## The result -/

/-- **Scripts do not mix.** From the moment `App::Start` begins a script: every job that is in some
place, and every job whose function is called, was registered since, and is none of those registered
before; every thread was started since; and when `Run` has returned, every job registered since was
to run once and has been invoked exactly once since. -/
theorem scripts_apart {s₁ s₂ s : Sys} (h : s₁.Reachable) (hnext : Step s₁ .nextScript s₂)
    (hs : s₂.Steps s) :
    ∃ since, s.log = since ++ s₁.log ∧
      (∀ k ∈ s.held, k ∈ since.filterMap Event.registered?) ∧
      (∀ k ∈ since.filterMap Event.invoked?, k ∈ since.filterMap Event.registered?) ∧
      (∀ k ∈ since.filterMap Event.registered?, k ∉ s₁.registered) ∧
      (∀ t ∈ s.threads, ∀ i ∈ t.ids, s₁.nextId ≤ i) ∧
      (s.pc = .start → ∀ k ∈ since.filterMap Event.registered?, k.isInterval = false ∧
        (since.filterMap Event.invoked?).count k = 1) := by
  have hsteps : s₁.Steps s := .head ⟨_, hnext⟩ hs
  have hr := Sys.Steps.reachable hsteps h
  have hpc : s₁.pc = .start := by
    cases hnext
    assumption
  have hpending := Sys.Reachable.quiet h hpc
  obtain ⟨registered, invoked, hsince⟩ :=
    hsteps.since h hpending (by rw [hpc, Pc.running_start])
  obtain ⟨since, hlog⟩ := hsteps.log_suffix
  obtain ⟨hreg, hinv⟩ := Sys.log_since hsince hlog.symm
  have hnodup : s.registered.Nodup := (Sys.Reachable.registered_nodup hr).of_map
  rw [show s.registered = registered ++ s₁.registered from hsince.registered_eq,
    nodup_append] at hnodup
  refine ⟨since, hlog.symm, ?_, ?_, ?_, ?_, fun hover k hk => ?_⟩
  · rw [hreg]
    exact hsince.held_subset
  · rw [hreg, hinv]
    exact hsince.subset
  · rw [hreg]
    exact fun k hk hk' => hnodup.2.2 k hk k hk' rfl
  · refine (hsteps.startedFrom ⟨le_rfl, ?_⟩).2
    rw [(Sys.empty_of_pending hpending).2.2.2.2.2.2]
    simp
  · rw [hreg] at hk
    rw [hinv]
    have hheld := Sys.held_of_pending (Sys.Reachable.quiet hr hover)
    obtain ⟨hone, hrepeat⟩ := hsince.sound.invoked_of_empty hheld (by
      show s.pc.running = none
      rw [hover, Pc.running_start]) k
    have hcount : registered.count k = 1 := count_eq_one_of_mem hnodup.1 hk
    cases hi : k.isInterval with
    | false => exact ⟨rfl, (hone (by simp [JobKey.once, hi])).trans hcount⟩
    | true => exact absurd hk (hrepeat (by simp [JobKey.once, hi]))

/-- Two scripts: the first asks for the metadata of a file and its `Run` returns; the second sets a
timer. -/
theorem scripts_apart_two : ∃ s₁ s : Sys, s₁.registered = [⟨0, .user 0 0, false⟩] ∧
    s.held = [⟨1, .user 1 1, false⟩] ∧ ∃ since, s.log = since ++ s₁.log ∧
      ∀ k ∈ s.held, k ∈ since.filterMap Event.registered? := by
  have posted := ((((Transition.Reachable.start ⟨0, rfl⟩ : Sys.Reachable _).tail
    (.nextScript rfl)).tail (@Step.startWorker _ (.user 0 0) (.stat []) rfl rfl)).tail
    (@Step.scriptReturn _ false rfl rfl)).tail (@Step.post _ _ _ [] [] [] rfl rfl)
  have called := (((((posted.tail (.enterLoop rfl rfl)).tail (.getFront rfl rfl)).tail
    (@Step.build _ _ [.null] rfl)).tail (.drained rfl rfl)).tail (.timersDone rfl rfl)).tail
    (.invokeCallback rfl rfl rfl)
  have left := (((called.tail (@Step.callbackReturn _ false _ rfl rfl)).tail
    (@Step.updateTime _ none rfl rfl rfl)).tail (.updateDone rfl (by simp))).tail
    (.leaveLoop rfl rfl)
  obtain ⟨since, hlog, hheld, -⟩ := scripts_apart left (.nextScript rfl)
    (((Relation.ReflTransGen.single ⟨_, @Step.timerCall _ false (.user 1 1) [] 0 rfl rfl⟩).tail
      ⟨_, .timerRegister rfl⟩).tail ⟨_, .timerInsert rfl⟩)
  exact ⟨_, _, rfl, rfl, since, hlog, hheld⟩

end NanoJS
