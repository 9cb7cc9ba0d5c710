import NanoJS.Engine.Delivery

/-!
# Timers

What the loop knows of a timer's deadline. The loop time is the whole seconds of some earlier
clock reading, in milliseconds; the deadline of a timer is the sum, in `time_t`, of its duration and
of the loop time at a reading not before the call (`TimedJob.SetAt`); and a timer that is queued or
invoked is due (`Sys.Scheduled`). From this, a timer waits out its duration in real time exactly
under a condition on the call (`timer_not_early_iff`): the deadline is computed from whole seconds,
so the part of a second that had passed is lost, and a sum that does not fit is in the past.
-/

namespace NanoJS

open PriorityQueue FreshIds

/-! ## The call a timer stems from -/

/-- The timers that are registered: in the heap, in the queue, or being inserted. -/
def Sys.liveTimers (s : Sys) : List TimedJob :=
  s.loop.heap ++ s.loop.timersQueue ++ s.native.inserting

/-- The timer stems from a call at the clock reading `r`. -/
def Sys.CalledAt (s : Sys) (job : TimedJob) (r : ℕ) : Prop :=
  Event.timerCalled job.id r job.duration ∈ s.log

/-- The timer stems from a call at the clock reading `r`, and its deadline is computed from the loop
time at the reading `c`. -/
structure TimedJob.SetAt (job : TimedJob) (log : List Event) (r c : ℕ) : Prop where
  called : Event.timerCalled job.id r job.duration ∈ log
  le : r ≤ c
  timeOut : job.timeOut = timeT (toTimeT c * 1000 + job.duration)

/-- What holds of the timers of a reachable state. -/
structure Sys.Scheduled (s : Sys) : Prop where
  time : ∃ c ≤ s.clock, s.loop.currentTime = toTimeT c * 1000
  created : ∀ job, s.native = .created job → ∃ r ≤ s.clock, s.CalledAt job r
  live : ∀ job ∈ s.liveTimers, ∃ r, ∃ c ≤ s.clock, job.SetAt s.log r c ∧
    toTimeT c * 1000 ≤ s.loop.currentTime
  queued : ∀ job ∈ s.loop.timersQueue, job.timeOut ≤ s.loop.currentTime
  invoked : ∀ job t c, Event.timerInvoked job t c ∈ s.log →
    job.timeOut ≤ t ∧ (∃ c' ≤ c, t = toTimeT c' * 1000) ∧ ∃ r, ∃ c' ≤ c, job.SetAt s.log r c'

theorem toTimeT_mono {a b : ℕ} (h : a ≤ b) : toTimeT a * 1000 ≤ toTimeT b * 1000 := by
  simp only [toTimeT]
  omega

theorem TimedJob.SetAt.mono {job : TimedJob} {log log' : List Event} {r c : ℕ}
    (h : job.SetAt log r c)
    (hlog : ∀ id r d, Event.timerCalled id r d ∈ log → Event.timerCalled id r d ∈ log') :
    job.SetAt log' r c :=
  ⟨hlog _ _ _ h.called, h.le, h.timeOut⟩

/-- A step that leaves the timers, the loop time and their history. -/
theorem Sys.Scheduled.frame {s s' : Sys} (h : s.Scheduled) (hc : s.clock ≤ s'.clock)
    (ht : s'.loop.currentTime = s.loop.currentTime) (hn : s'.native = s.native)
    (hl : ∀ job ∈ s'.liveTimers, job ∈ s.liveTimers)
    (hq : ∀ job ∈ s'.loop.timersQueue, job ∈ s.loop.timersQueue)
    (hcalled : ∀ id r d, Event.timerCalled id r d ∈ s.log → Event.timerCalled id r d ∈ s'.log)
    (hinv : ∀ job t c, Event.timerInvoked job t c ∈ s'.log →
      Event.timerInvoked job t c ∈ s.log) : s'.Scheduled where
  time := let ⟨c, hc', h⟩ := h.time; ⟨c, hc'.trans hc, ht.trans h⟩
  created job hj :=
    let ⟨r, hr, hr'⟩ := h.created job (hn ▸ hj); ⟨r, hr.trans hc, hcalled _ _ _ hr'⟩
  live job hj :=
    let ⟨r, c, hle, hset, h⟩ := h.live job (hl job hj)
    ⟨r, c, hle.trans hc, hset.mono hcalled, ht ▸ h⟩
  queued job hj := ht ▸ h.queued job (hq job hj)
  invoked job t c hj :=
    let ⟨h₁, h₂, r, c', hle, hset⟩ := h.invoked job t c (hinv job t c hj)
    ⟨h₁, h₂, r, c', hle, hset.mono hcalled⟩

/-- The deadline of an interval that returns, computed from the loop time. -/
theorem TimedJob.SetAt.again {job : TimedJob} {log : List Event} {r c c₀ clock : ℕ}
    (h : job.SetAt log r c) (hc : c ≤ clock) (hle : toTimeT c * 1000 ≤ toTimeT c₀ * 1000)
    (hc₀ : c₀ ≤ clock) :
    ∃ c' ≤ clock, toTimeT c' * 1000 = toTimeT c₀ * 1000 ∧
      { job with timeOut := timeT (job.duration + toTimeT c₀ * 1000) }.SetAt log r c' := by
  -- the loop time may have been read in the second of the call and before it
  refine ⟨max r c₀, max_le (h.le.trans hc) hc₀, ?_⟩
  have htime : toTimeT (max r c₀) * 1000 = toTimeT c₀ * 1000 := by
    have := toTimeT_mono h.le
    rcases le_total r c₀ with hr | hr
    · rw [max_eq_right hr]
    · rw [max_eq_left hr]
      exact le_antisymm (this.trans hle) (toTimeT_mono hr)
  refine ⟨htime, h.called, le_max_left _ _, ?_⟩
  rw [htime, Int.add_comm]

theorem Step.scheduled {s s' : Sys} {l : Label} (h : Step s l s') (hf : s.Control)
    (hs : s.Scheduled) : s'.Scheduled := by
  obtain ⟨c₀, hc₀, ht₀⟩ := hs.time
  cases h with
  | tick h =>
    exact hs.frame h rfl rfl (fun _ => id) (fun _ => id) (fun _ _ _ => id) (fun _ _ _ => id)
  | @timerCall isInterval func args duration hjs hn =>
    refine ⟨hs.time, ?_, fun job hj => ?_, hs.queued, fun job t c hj => ?_⟩
    · rintro _ ⟨⟩
      exact ⟨s.clock, le_rfl, List.mem_cons_self⟩
    · obtain ⟨r, c, hc, hset, h⟩ := hs.live job (by
        simpa [Sys.liveTimers, Native.inserting, hn] using hj)
      exact ⟨r, c, hc, hset.mono fun _ _ _ => List.mem_cons_of_mem _, h⟩
    · obtain ⟨h₁, h₂, r, c', hc', hset⟩ := hs.invoked job t c (by simpa using hj)
      exact ⟨h₁, h₂, r, c', hc', hset.mono fun _ _ _ => List.mem_cons_of_mem _⟩
  | @timerRegister job hn =>
    have htime := ht₀.trans_le (toTimeT_mono hc₀)
    refine ⟨⟨s.clock, le_rfl, rfl⟩, by simp, fun job' hj => ?_, fun job' hj => ?_,
      fun job' t c hj => ?_⟩
    · simp only [Sys.liveTimers, Native.inserting, List.mem_append, List.mem_singleton] at hj
      rcases hj with hj | rfl
      · obtain ⟨r, c, hc, hset, h⟩ := hs.live job' (by
          simpa [Sys.liveTimers, Native.inserting, EventLoop.updateTime, EventLoop.registerJob,
            hn] using hj)
        exact ⟨r, c, hc, hset.mono fun _ _ _ => List.mem_cons_of_mem _, h.trans htime⟩
      · obtain ⟨r, hr, hcall⟩ := hs.created job hn
        exact ⟨r, s.clock, le_rfl, ⟨List.mem_cons_of_mem _ hcall, hr, rfl⟩, le_rfl⟩
    · exact (hs.queued job' hj).trans htime
    · obtain ⟨h₁, h₂, r, c', hc', hset⟩ := hs.invoked job' t c (by simpa using hj)
      exact ⟨h₁, h₂, r, c', hc', hset.mono fun _ _ _ => List.mem_cons_of_mem _⟩
  | @timerInsert job hn =>
    refine ⟨hs.time, by simp, fun job' hj => hs.live job' ?_, hs.queued, hs.invoked⟩
    simp only [Sys.liveTimers, Native.inserting, EventLoop.addJobToTimersHeap, hn] at hj ⊢
    grind
  | @timerReturn _ job hpc hn =>
    obtain ⟨rest, hq⟩ := hf.timer job hpc
    have htail : ∀ job' ∈ rest, job' ∈ s.loop.timersQueue := by
      intro job' hj
      rw [hq]
      exact List.mem_cons_of_mem _ hj
    cases hi : job.isInterval with
    | true =>
      rw [EventLoop.removeJob_interval _ hi]
      refine ⟨hs.time, by simp [hn], fun job' hj => ?_, fun job' hj => ?_, hs.invoked⟩
      · simp only [Sys.liveTimers, Native.inserting, hn, hq, List.tail_cons, List.append_nil,
          List.mem_append, List.mem_cons] at hj ⊢
        rcases hj with (rfl | hj) | hj
        · obtain ⟨r, c, hc, hset, hle⟩ := hs.live job (by simp [Sys.liveTimers, hq])
          obtain ⟨c', hc', htime, hset'⟩ := hset.again hc (hle.trans_eq ht₀) hc₀
          rw [ht₀]
          exact ⟨r, c', hc', hset', htime.le⟩
        · exact hs.live job' (by simp [Sys.liveTimers, hj])
        · exact hs.live job' (by simp [Sys.liveTimers, htail job' hj])
      · simp only [hq, List.tail_cons] at hj
        exact hs.queued job' (htail job' hj)
    | false =>
      refine hs.frame le_rfl (by simp [EventLoop.removeJob, hi, EventLoop.withdrawJob]) rfl
        (fun job' hj => ?_) (fun job' hj => ?_) (fun _ _ _ => id) (fun _ _ _ => id)
      · simp only [Sys.liveTimers, EventLoop.removeJob, hi, EventLoop.withdrawJob, hq,
          Bool.false_eq_true, if_false, List.tail_cons, List.mem_append, List.mem_cons] at hj ⊢
        tauto
      · simp only [EventLoop.removeJob, hi, EventLoop.withdrawJob, hq, Bool.false_eq_true,
          if_false, List.tail_cons] at hj
        exact htail job' hj
  | @invokeTimer job rest hpc hq =>
    refine ⟨hs.time, fun job' hj => ?_, fun job' hj => ?_, hs.queued, fun job' t c hj => ?_⟩
    · obtain ⟨r, hr, hr'⟩ := hs.created job' hj
      exact ⟨r, hr, List.mem_cons_of_mem _ hr'⟩
    · obtain ⟨r, c, hc, hset, h⟩ := hs.live job' hj
      exact ⟨r, c, hc, hset.mono fun _ _ _ => List.mem_cons_of_mem _, h⟩
    · rcases List.mem_cons.1 hj with he | hj
      · cases he
        obtain ⟨r, c, hc, hset, -⟩ := hs.live job (by simp [Sys.liveTimers, hq])
        exact ⟨hs.queued job (by simp [hq]), ⟨c₀, hc₀, ht₀⟩, r, c, hc,
          hset.mono fun _ _ _ => List.mem_cons_of_mem _⟩
      · obtain ⟨h₁, h₂, r, c', hc', hset⟩ := hs.invoked job' t c hj
        exact ⟨h₁, h₂, r, c', hc', hset.mono fun _ _ _ => List.mem_cons_of_mem _⟩
  | updateTime hpc hq hhead =>
    have htime := ht₀.trans_le (toTimeT_mono hc₀)
    refine ⟨⟨s.clock, le_rfl, rfl⟩, hs.created, fun job' hj => ?_,
      fun job' hj => (hs.queued job' hj).trans htime, hs.invoked⟩
    obtain ⟨r, c, hc, hset, h⟩ := hs.live job' hj
    exact ⟨r, c, hc, hset, h.trans htime⟩
  | @moveTimer job heap head hpc hdue hpop hhead =>
    refine ⟨hs.time, hs.created, fun job' hj => hs.live job' ?_, fun job' hj => ?_, hs.invoked⟩
    · simp only [Sys.liveTimers, EventLoop.addTimedJob, List.mem_append, List.mem_singleton]
        at hj ⊢
      rcases hj with (hj | hj | rfl) | hj
      · exact .inl (.inl (hpop.mem_of_mem hj))
      · exact .inl (.inr hj)
      · exact .inl (.inl hpop.mem)
      · exact .inr hj
    · simp only [EventLoop.addTimedJob, List.mem_append, List.mem_singleton] at hj
      rcases hj with hj | rfl
      · exact hs.queued job' hj
      · exact hdue
  | startWorker hjs hn | invokeCallback hpc hq hargs | watcherChange ht =>
    exact hs.frame le_rfl rfl rfl (fun _ => id) (fun _ => id)
      (fun _ _ _ => List.mem_cons_of_mem _) (fun _ _ _ hj => by simpa using hj)
  | _ =>
    exact hs.frame le_rfl rfl rfl (fun _ => id) (fun _ => id) (fun _ _ _ => id) (fun _ _ _ => id)

theorem Sys.Reachable.scheduled {s : Sys} (h : s.Reachable) : s.Scheduled :=
  Transition.Reachable.invariant (I := Sys.Scheduled)
    (by
      rintro _ ⟨ms, rfl⟩
      exact ⟨⟨ms, le_rfl, rfl⟩, by simp [initial], by simp [liveTimers, initial, EventLoop.new,
        Native.inserting], by simp [initial, EventLoop.new], by simp [initial]⟩)
    (fun _ _ _ hr hs hl => hl.scheduled (Reachable.control hr) hs) h

/-! ## The calls are told apart by their jobs -/

def Event.call? : Event → Option (ℕ × ℕ × ℤ)
  | .timerCalled id clock duration => some (id, clock, duration)
  | _ => none

/-- The calls of `setTimeOut` and `setInterval`: the job, the clock and the duration. -/
def Sys.calls (s : Sys) : List (ℕ × ℕ × ℤ) := s.log.filterMap Event.call?

theorem Step.recycles_calls {s s' : Sys} {l : Label} (h : Step s l s') :
    Recycles (s.calls.map (·.1)) s.nextId (s'.calls.map (·.1)) s'.nextId := by
  cases h with
  | timerCall hjs hn => exact .take (.refl _) rfl
  | startWorker hjs hn | watchFile hjs hn | watcherChange ht =>
    exact .keep (.refl _) (Nat.le_succ _)
  | _ => exact .keep (.refl _) le_rfl

theorem Sys.Reachable.below_calls {s : Sys} (h : s.Reachable) :
    Below (s.calls.map (·.1)) s.nextId :=
  Transition.Reachable.invariant (I := fun s => Below (s.calls.map (·.1)) s.nextId)
    (by rintro _ ⟨ms, rfl⟩; exact .nil _) (fun _ _ _ _ hb hl => hb.recycle hl.recycles_calls) h

theorem Sys.mem_calls {s : Sys} {id r : ℕ} {d : ℤ} (h : Event.timerCalled id r d ∈ s.log) :
    (id, r, d) ∈ s.calls :=
  List.mem_filterMap.2 ⟨_, h, rfl⟩

/-- A job stems from one call. -/
theorem Sys.Reachable.call_unique {s : Sys} (h : s.Reachable) {id r r' : ℕ} {d d' : ℤ}
    (h₁ : Event.timerCalled id r d ∈ s.log) (h₂ : Event.timerCalled id r' d' ∈ s.log) :
    r = r' ∧ d = d' := by
  have := List.inj_on_of_nodup_map (Reachable.below_calls h).nodup (mem_calls h₁) (mem_calls h₂) rfl
  simpa using this

/-! ## A run with one timer -/

/-- The timer of the run: called at the clock reading `r`, and registered when it reads `c`. -/
def oneTimer (r c : ℕ) (d : ℤ) : TimedJob :=
  { newTimedJob 0 r false (.user 0 0) [] d with timeOut := timeT (toTimeT c * 1000 + d) }

/-- The states of the run after the call. -/
def oneTimerSys (timer : TimedJob) (r clock : ℕ) (time : ℤ) (heap queue : List TimedJob) (pc : Pc)
    (log : List Event) : Sys where
  clock := clock
  loop :=
    { jobCount := 1
      shouldStop := false
      currentTime := time
      heap := heap
      callbackQueue := []
      timersQueue := queue
      mQu := [] }
  pc := pc
  native := .idle
  threads := []
  nextId := 1
  log := log ++ [.registered timer.key, .timerCalled 0 r timer.duration]

/-- A script sets a timer at `r`, which is registered at `c₁`, and the clock reads `c` when the loop
next looks at it. -/
theorem oneTimer_run (r c₁ c : ℕ) (d : ℤ) (hr : r ≤ c₁) (hc : c₁ ≤ c)
    (hdue : (oneTimer r c₁ d).timeOut ≤ toTimeT c * 1000) :
    (oneTimerSys (oneTimer r c₁ d) r c (toTimeT c * 1000) [] [oneTimer r c₁ d]
      (.inTimer (oneTimer r c₁ d))
      [.timerInvoked (oneTimer r c₁ d) (toTimeT c * 1000) c]).Reachable := by
  have htop : ∀ x ∈ [oneTimer r c₁ d], ¬heapLess (oneTimer r c₁ d) x := by
    simp [heapLess, timedJobComparator]
  have called : (oneTimerSys (oneTimer r c₁ d) r c₁ (toTimeT c₁ * 1000) [oneTimer r c₁ d] []
      .loopHead []).Reachable :=
    ((((((Transition.Reachable.start ⟨r, rfl⟩).tail (.nextScript rfl)).tail
      (@Step.timerCall _ false (.user 0 0) [] d rfl rfl)).tail (.tick hr)).tail
      (.timerRegister rfl)).tail (.timerInsert rfl)).tail (@Step.scriptReturn _ false rfl rfl)
  have waiting : (oneTimerSys (oneTimer r c₁ d) r c (toTimeT c₁ * 1000) [oneTimer r c₁ d] []
      .runCallbacks []).Reachable :=
    (((called.tail (.enterLoop rfl rfl)).tail (.drained rfl rfl)).tail (.timersDone rfl rfl)).tail
      (.tick hc)
  have moved : (oneTimerSys (oneTimer r c₁ d) r c (toTimeT c * 1000) [] [oneTimer r c₁ d]
      (.updateTimers none) []).Reachable :=
    (waiting.tail (@Step.updateTime _ (some (oneTimer r c₁ d)) rfl rfl ⟨List.mem_singleton.2 rfl,
      htop⟩)).tail (@Step.moveTimer _ _ [] none rfl hdue ⟨.refl _, htop⟩ rfl)
  exact (((moved.tail (.updateDone rfl (by simp))).tail (.enterLoop rfl rfl)).tail
    (.drained rfl rfl)).tail (.invokeTimer rfl rfl)

/-! ## Real time -/

/-- A run with one timer, registered before its duration is over, in which the timer is early. -/
theorem timer_early_run (r c₁ : ℕ) (d : ℤ) (hr : r ≤ c₁) (hc₁ : (c₁ : ℤ) < r + d)
    (hdue : timeT (toTimeT c₁ * 1000 + d) ≤ (r + d - 1) / 1000 * 1000) :
    ∃ s : Sys, s.Reachable ∧ ∃ job t c, Event.timerCalled job.id r d ∈ s.log ∧
      Event.timerInvoked job t c ∈ s.log ∧ ¬(r : ℤ) + d ≤ c := by
  -- the last clock reading at which the timer is early
  obtain ⟨c, hc⟩ : ∃ c : ℕ, (c : ℤ) = r + d - 1 := ⟨(r + d - 1).toNat, by omega⟩
  have hdue' : (oneTimer r c₁ d).timeOut ≤ toTimeT c * 1000 := by
    simp only [oneTimer, toTimeT] at hdue ⊢
    omega
  have hrun := oneTimer_run r c₁ c d hr (by omega) hdue'
  exact ⟨_, hrun, oneTimer r c₁ d, toTimeT c * 1000, c,
    by simp [oneTimerSys, oneTimer, newTimedJob], by simp [oneTimerSys], by omega⟩

/-- **A timer waits out its duration exactly when the part of the second that had passed at the
call fits into the rounding of its duration, and its deadline fits in `time_t`.** Each invocation of
the job of a call at `r` with the duration `d` happens when the clock reads at least `r + d`, in
every run, if and only if `d = 0`, or `r % 1000 ≤ -d % 1000` and the seconds of each clock reading
before `r + d`, in milliseconds, leave room for `d`. -/
theorem timer_not_early_iff (r : ℕ) (d : ℤ) (hd : 0 ≤ d) :
    (∀ s : Sys, s.Reachable → ∀ job t c, Event.timerCalled job.id r d ∈ s.log →
        Event.timerInvoked job t c ∈ s.log → (r : ℤ) + d ≤ c) ↔
      d = 0 ∨ ((r : ℤ) % 1000 ≤ -d % 1000 ∧ (r + d - 1) / 1000 * 1000 + d < 2 ^ 63) := by
  constructor
  · intro h
    by_contra hne
    obtain ⟨hd₀, hbad⟩ := not_or.1 hne
    suffices hearly : ∃ s : Sys, s.Reachable ∧ ∃ job t c, Event.timerCalled job.id r d ∈ s.log ∧
        Event.timerInvoked job t c ∈ s.log ∧ ¬(r : ℤ) + d ≤ c by
      obtain ⟨s, hs, job, t, c, hcall, hinv, hlt⟩ := hearly
      exact hlt (h s hs job t c hcall hinv)
    by_cases hfits : toTimeT r * 1000 + d < 2 ^ 63
    · by_cases hphase : (r : ℤ) % 1000 ≤ -d % 1000
      · -- the deadline wraps when the timer is registered late
        obtain ⟨c₁, hc₁⟩ : ∃ c₁ : ℕ, (c₁ : ℤ) = r + d - 1 := ⟨(r + d - 1).toNat, by omega⟩
        refine timer_early_run r c₁ d (by omega) (by omega) ?_
        have hwrap := @timeT_le_of_le (toTimeT c₁ * 1000 + d) (by simp only [toTimeT]; omega)
        simp only [toTimeT] at hwrap hfits ⊢
        omega
      · -- the loop finds the timer due before the last second is over
        refine timer_early_run r r d le_rfl (by omega) ?_
        have hlow : -2 ^ 63 ≤ toTimeT r * 1000 + d := by
          simp only [toTimeT]
          omega
        rw [InTimeT.timeT_eq ⟨hlow, hfits⟩]
        simp only [toTimeT]
        omega
    · -- the deadline wraps at once
      refine timer_early_run r r d le_rfl (by omega) ?_
      have hwrap := timeT_le_of_le (not_lt.1 hfits)
      simp only [toTimeT] at hwrap ⊢
      omega
  · intro hcond s hs job t c hcalled hinv
    obtain ⟨hdue, ⟨c', hc', rfl⟩, r', c₁, hc₁, hset⟩ :=
      (Sys.Reachable.scheduled hs).invoked job t c hinv
    obtain ⟨rfl, rfl⟩ := hs.call_unique hcalled hset.called
    have hle := hset.le
    by_contra hlt
    have hsum : InTimeT (toTimeT c₁ * 1000 + job.duration) := by
      simp only [InTimeT, toTimeT]
      omega
    rw [hset.timeOut, hsum.timeT_eq] at hdue
    simp only [toTimeT] at hdue
    omega

/-- A timer of half a second, set at 900 ms, is called at 1000 ms. -/
theorem timer_early : ∃ s : Sys, s.Reachable ∧ ∃ job t,
    Event.timerCalled job.id 900 500 ∈ s.log ∧ Event.timerInvoked job t 1000 ∈ s.log ∧
      ¬(900 : ℤ) + 500 ≤ (1000 : ℕ) :=
  ⟨_, oneTimer_run 900 900 1000 500 (by decide) (by decide) (by decide), oneTimer 900 900 500, 1000,
    by simp [oneTimerSys, oneTimer, newTimedJob], by simp [oneTimerSys, toTimeT], by decide⟩

/-- Set on a whole second, the same timer is called at the next one. -/
theorem timer_not_early_iff_whole_second : ∃ s : Sys, s.Reachable ∧
    Event.timerInvoked (oneTimer 1000 1000 500) 2000 2000 ∈ s.log ∧
      ((1000 : ℕ) : ℤ) + 500 ≤ (2000 : ℕ) :=
  have hrun := oneTimer_run 1000 1000 2000 500 (by decide) (by decide) (by decide)
  ⟨_, hrun, by simp [oneTimerSys, toTimeT], (timer_not_early_iff 1000 500 (by decide)).2 (by decide)
    _ hrun (oneTimer 1000 1000 500) 2000 2000 (by simp [oneTimerSys, oneTimer, newTimedJob])
    (by simp [oneTimerSys, toTimeT])⟩

end NanoJS
