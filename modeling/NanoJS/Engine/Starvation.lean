import NanoJS.Engine.Liveness

/-!
# Callbacks that begin reads starve the timers

`runCallbacks` returns when `callbackQueue` is empty, and the thread of a read adds to that queue
itself. So when each callback begins a read that is over before the callback returns, the loop
thread stays in `runCallbacks` and does not come by the timers again: from every state in which a
callback is being executed there is such a run, in which all threads make progress, every function
returns and the clock goes on (`reads_starve_timers`). That callbacks stop beginning reads is
therefore not too much to ask in `jobs_served`.
-/

namespace NanoJS

open List Transition

/-- The timers called so far, newest first. -/
def Sys.calledTimers (s : Sys) : List TimedJob := s.log.filterMap Event.timer?

/-! ## The threads have delivered -/

variable {s : Sys}

/-- The threads can deliver what they carry, wherever the loop thread is. -/
theorem Sys.exists_delivered (n : ℕ) (h : s.carried.length = n) : ∃ s', s.Steps s' ∧
    s'.carried = [] ∧ s'.pc = s.pc ∧ s'.native = s.native ∧ s'.log = s.log := by
  induction n using Nat.strong_induction_on generalizing s with
  | h n ih =>
    by_cases hnil : s.carried = []
    · exact ⟨s, .refl, hnil, rfl, rfl, rfl⟩
    · obtain ⟨job, hjob⟩ := exists_mem_of_ne_nil _ hnil
      obtain ⟨l, s₁, -, hs, hlt, hpc, hnative, hlog⟩ := exists_delivery hjob
      obtain ⟨s', hsteps, hnil', hpc', hnative', hlog'⟩ := ih _ (h ▸ hlt) rfl
      exact ⟨s', .head ⟨l, hs⟩ hsteps, hnil', hpc'.trans hpc, hnative'.trans hnative,
        hlog'.trans hlog⟩

/-! ## The round that does not end -/

/-- The five moments of a callback that reads: it begins the read, the thread delivers, it returns,
the next callback is called, and the clock goes on. -/
def Sys.reads (s : Sys) : ℕ → Prop
  | 0 => (∃ job, s.pc = .inCallback job) ∧ s.carried = []
  | 1 => (∃ job, s.pc = .inCallback job) ∧ ∃ job path post,
      s.threads = .worker job (.read path 0 0 0 0) :: post ∧ post.flatMap Thread.carried = []
  | 2 => (∃ job, s.pc = .inCallback job) ∧ s.carried = [] ∧ s.loop.callbackQueue.tail ≠ []
  | 3 => s.pc = .runCallbacks ∧ s.carried = [] ∧ s.loop.callbackQueue ≠ []
  | _ => (∃ job, s.pc = .inCallback job) ∧ s.carried = []

/-- At the moment `n`, when the timers of `called` had been called before. -/
structure Sys.Starving (called : List TimedJob) (n : ℕ) (s : Sys) : Prop where
  reachable : s.Reachable
  native : s.native = .idle
  called : s.calledTimers = called
  clock : n / 5 ≤ s.clock
  reads : s.reads (n % 5)

/-- What the labels of such a run are. -/
def starves (n : ℕ) (l : Label) : Prop :=
  (n % 5 = 2 → l.carrier = .loop) ∧ (n % 5 = 4 → l.carrier = .other)

theorem Sys.Starving.next {called : List TimedJob} {n : ℕ} (h : s.Starving called n) :
    ∃ l s', Step s l s' ∧ starves n l ∧ s'.Starving called (n + 1) := by
  obtain ⟨hr, hnative, hcalled, hclock, hreads⟩ := h
  have hcontrol := Sys.Reachable.control hr
  have hlt : n % 5 < 5 := Nat.mod_lt _ (by decide)
  have hdiv : n % 5 ≠ 4 → (n + 1) / 5 = n / 5 := fun h => by omega
  have hmod : n % 5 ≠ 4 → (n + 1) % 5 = n % 5 + 1 := fun h => by omega
  rcases hphase : n % 5 with _ | _ | _ | _ | k <;> rw [hphase] at hreads hdiv hmod
  · obtain ⟨⟨job, hpc⟩, hcarried⟩ := hreads
    have hs := @Step.startWorker s (.user 0 0) (.read [] 0 0 0 0) (by rw [hpc]; rfl) hnative
    refine ⟨_, _, hs, ⟨by omega, by omega⟩, hr.tail hs, hnative, hcalled,
      (hdiv (by decide)).trans_le hclock, ?_⟩
    rw [hmod (by decide)]
    exact ⟨⟨job, hpc⟩, _, _, _, rfl, hcarried⟩
  · obtain ⟨⟨job, hpc⟩, job', path, post, hthreads, hcarried⟩ := hreads
    obtain ⟨rest, hq⟩ := hcontrol.callback job hpc
    have hs := @Step.deliver s job' (.read path 0 0 0 0) [] [] post hthreads rfl
    refine ⟨_, _, hs, ⟨by omega, by omega⟩, hr.tail hs, hnative, hcalled,
      (hdiv (by decide)).trans_le hclock, ?_⟩
    rw [hmod (by decide)]
    exact ⟨⟨job, hpc⟩, hcarried, by simp [EventLoop.addCallbackJob, hq]⟩
  · obtain ⟨⟨job, hpc⟩, hcarried, hqueue⟩ := hreads
    have hs := @Step.callbackReturn s false job hpc hnative
    refine ⟨_, _, hs, ⟨fun _ => rfl, by omega⟩, hr.tail hs, hnative, hcalled,
      (hdiv (by decide)).trans_le hclock, ?_⟩
    rw [hmod (by decide)]
    exact ⟨rfl, hcarried, hqueue⟩
  · obtain ⟨hpc, hcarried, hqueue⟩ := hreads
    obtain ⟨job, rest, hq⟩ := exists_cons_of_ne_nil hqueue
    obtain ⟨args, hargs⟩ := (Sys.Reachable.prepared hr).args job (hq ▸ mem_cons_self)
    have hs := @Step.invokeCallback s job rest args hpc hq hargs
    refine ⟨_, _, hs, ⟨by omega, by omega⟩, hr.tail hs, hnative, hcalled,
      (hdiv (by decide)).trans_le hclock, ?_⟩
    rw [hmod (by decide)]
    exact ⟨⟨job, rfl⟩, hcarried⟩
  · obtain rfl : k = 0 := by omega
    have hs := @Step.tick s (s.clock + 1) (Nat.le_succ _)
    refine ⟨_, _, hs, ⟨by omega, fun _ => rfl⟩, hr.tail hs, hnative, hcalled, ?_, ?_⟩
    · show (n + 1) / 5 ≤ s.clock + 1
      omega
    · rw [show (n + 1) % 5 = 0 by omega]
      exact hreads

/-- Such a run is fair: every five moments the loop thread makes a step and the clock goes on, and
no thread has anything to deliver. -/
theorem Sys.Starving.fair {called : List TimedJob} {r : Run Step}
    (h : ∀ n, (r.state n).Starving called n ∧ ∃ l, r.label n = some l ∧ starves n l) :
    r.Fair Label.carrier := by
  intro a n henabled
  cases a with
  | loop =>
    obtain ⟨l, hl, hstarves⟩ := (h (5 * n + 2)).2
    exact ⟨5 * n + 2, by omega, l, hl, hstarves.1 (by omega)⟩
  | other =>
    obtain ⟨l, hl, hstarves⟩ := (h (5 * n + 4)).2
    exact ⟨5 * n + 4, by omega, l, hl, hstarves.2 (by omega)⟩
  | worker id =>
    have hreads := (h (5 * n)).1.reads
    rw [Nat.mul_mod_right] at hreads
    obtain ⟨l, s', hl, hs⟩ := henabled (5 * n) (by omega)
    obtain ⟨job, hjob, -⟩ := hs.carrier_moves hl
    rw [hreads.2] at hjob
    cases hjob

/-! ## The result -/

/-- **Reads starve the timers.** From every reachable state in which a callback is being executed,
whatever timers are due and whatever the threads have to deliver, there is a run that is fair to the
threads, in which the functions return and the clock goes on, and in which no timer is called. -/
theorem reads_starve_timers (hr : s.Reachable) {job : CallbackJob} (hpc : s.pc = .inCallback job)
    (hn : s.native = .idle) :
    ∃ r : Run Step, r.state 0 = s ∧ r.Fair Label.carrier ∧
      (∀ n, (r.state n).pc.inJs = true → ∃ m, n ≤ m ∧ (r.state m).pc.inJs = false) ∧
      (∀ t, ∃ n, t ≤ (r.state n).clock) ∧
      ∀ n, (r.state n).calledTimers = s.calledTimers := by
  obtain ⟨s', hsteps, hcarried, hpc', hnative, hlog⟩ := Sys.exists_delivered _ rfl
  have hstarving : s'.Starving s.calledTimers 0 :=
    ⟨hsteps.reachable hr, hnative.trans hn, congrArg (filterMap Event.timer?) hlog, Nat.zero_le _,
      ⟨job, hpc'.trans hpc⟩, hcarried⟩
  obtain ⟨q, rfl, hq⟩ := Run.exists_of_next (R := starves) (fun n s h => h.next) hstarving
  obtain ⟨r, rfl, hfair, d, hd⟩ := (Sys.Starving.fair hq).exists_after hsteps
  refine ⟨r, rfl, hfair, fun n _ => ⟨5 * n + 3 + d, by omega, ?_⟩, fun t => ⟨5 * t + d, ?_⟩,
    fun n => ?_⟩
  · have hreads := (hq (5 * n + 3)).1.reads
    rw [show (5 * n + 3) % 5 = 3 by omega] at hreads
    rw [(hd _).1, hreads.1]
    rfl
  · have hclock := (hq (5 * t)).1.clock
    rw [(hd _).1]
    omega
  · -- the log grows, and later no more timers are in it than at the start
    have hlater : (r.state (n + d)).calledTimers = (r.state 0).calledTimers := by
      rw [(hd n).1]
      exact (hq n).1.called
    have hgrows : ∀ {i j}, i ≤ j → (r.state i).calledTimers <:+ (r.state j).calledTimers := by
      intro i j hij
      exact r.invariant_of_le (I := fun s => (r.state i).calledTimers <:+ s.calledTimers)
        (suffix_refl _) hij fun _ _ _ hsuffix hs => hsuffix.trans (hs.log_suffix.filterMap _)
    refine ((hgrows n.zero_le).eq_of_length_le ?_).symm
    rw [← hlater]
    exact (hgrows (Nat.le_add_right n d)).length_le

/-- An interval that has been due for three seconds is not called. -/
theorem reads_starve_timers_interval : ∃ s : Sys, s.loop.heap = [oneInterval 2000] ∧
    s.clock = 5000 ∧ ∃ r : Run Step, r.state 0 = s ∧ r.Fair Label.carrier ∧
      (∀ t, ∃ n, t ≤ (r.state n).clock) ∧ ∀ n, (r.state n).calledTimers = [] := by
  have called := (((((Transition.Reachable.start ⟨1000, rfl⟩ : Sys.Reachable _).tail
    (.nextScript rfl)).tail (@Step.timerCall _ true (.user 0 0) [] 1000 rfl rfl)).tail
    (.timerRegister rfl)).tail (.timerInsert rfl)).tail
    (@Step.startWorker _ (.user 1 0) (.read [] 0 0 0 0) rfl rfl)
  have waiting := ((((called.tail (@Step.scriptReturn _ false rfl rfl)).tail
    (.enterLoop rfl rfl)).tail (.drained rfl rfl)).tail (.timersDone rfl rfl)).tail
    (@Step.tick _ 5000 (by decide))
  have reading := (waiting.tail (@Step.deliver _ _ _ [] [] [] rfl rfl)).tail
    (.invokeCallback rfl rfl rfl)
  obtain ⟨r, h₀, hfair, -, hclock, hnone⟩ := reads_starve_timers reading rfl rfl
  exact ⟨_, rfl, rfl, r, h₀, hfair, hclock, hnone⟩

end NanoJS
