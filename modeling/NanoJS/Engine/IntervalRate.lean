import NanoJS.Engine.Intervals
import NanoJS.Engine.TimerOrder

/-!
# How often a timer fires

A deadline is put `duration` after a loop time, as long as the sum fits in `time_t`, and a timer is
called when the loop time has come to it. The loop time has whole seconds, so it goes on by the
duration rounded up to seconds (`firingPeriod`) between two firings. In any window of a run in which
the deadlines of a timer fit, it therefore fires at most once more than this period fits into the
time that the loop has counted (`interval_rate`), and an interval of less than a second, once a
second.
-/

namespace NanoJS

open List

/-! ## Firings -/

/-- The function of the timer is called. -/
def Event.fires (id : ℕ) : Event → Bool
  | .timerInvoked job _ _ => job.id == id
  | _ => false

/-- How often the function of a timer has been called. -/
def Sys.firings (s : Sys) (id : ℕ) : ℕ := s.log.countP (Event.fires id)

/-- A duration, rounded up to whole seconds. -/
def firingPeriod (duration : ℤ) : ℤ := (duration + 999) / 1000 * 1000

/-- The timers that wait for their next call. -/
def Sys.waitingTimers (s : Sys) : List TimedJob :=
  s.loop.heap ++ s.pc.waiting s.loop.timersQueue ++ s.native.inserting

/-- How far a loop time is behind `base` at least, when a timer has fired `n` times since. -/
def paceTime (base duration : ℤ) (n : ℕ) : ℤ := base + (n - 1) * firingPeriod duration

/-- Since the loop time `base`, when the timer had fired `f` times: it has not fired faster than its
period, and is due a duration later. -/
structure Sys.Paced (id : ℕ) (base : ℤ) (f : ℕ) (s : Sys) : Prop where
  base_le : base ≤ s.loop.currentTime
  firings_le : f ≤ s.firings id
  fired : ∀ r d, Event.timerCalled id r d ∈ s.log → f < s.firings id →
    paceTime base d (s.firings id - f) ≤ s.loop.currentTime
  waiting : ∀ job ∈ s.waitingTimers, job.id = id → f < s.firings id →
    paceTime base job.duration (s.firings id - f) + job.duration ≤ job.timeOut

/-! ## Steps -/

/-- No timer with a new identity has fired. -/
theorem Sys.Reachable.firings_new {s : Sys} (h : s.Reachable) : s.firings s.nextId = 0 := by
  refine countP_eq_zero.2 fun e he => ?_
  cases e with
  | timerInvoked job t c =>
    obtain ⟨-, -, r, c', -, hset⟩ := (Sys.Reachable.scheduled h).invoked job t c he
    have hlt := (Sys.Reachable.below_calls h).lt _ (mem_map_of_mem (Sys.mem_calls hset.called))
    simpa [Event.fires] using hlt.ne
  | _ => simp [Event.fires]

/-- A step that calls no timer. What begins to wait is due its duration after the loop time, or has
not fired. -/
theorem Sys.Paced.keep {id f : ℕ} {base : ℤ} {s s' : Sys} (h : s.Paced id base f)
    (hle : s.loop.currentTime ≤ s'.loop.currentTime) (hf : s'.firings id = s.firings id)
    (hcalled : ∀ r d, Event.timerCalled id r d ∈ s'.log →
      Event.timerCalled id r d ∈ s.log ∨ s.firings id = 0)
    (hwait : ∀ job ∈ s'.waitingTimers, job.id = id → job ∈ s.waitingTimers ∨ s.firings id = 0 ∨
      ∃ r, Event.timerCalled id r job.duration ∈ s.log ∧
        s.loop.currentTime + job.duration ≤ job.timeOut) : s'.Paced id base f := by
  refine ⟨h.base_le.trans hle, hf ▸ h.firings_le, fun r d hc hpos => ?_, fun job hj hid hpos => ?_⟩
  · rw [hf] at hpos ⊢
    rcases hcalled r d hc with hc | hzero
    · exact (h.fired r d hc hpos).trans hle
    · omega
  · rw [hf] at hpos ⊢
    rcases hwait job hj hid with hold | hzero | ⟨r, hc, hlate⟩
    · exact h.waiting job hold hid hpos
    · omega
    · have := h.fired r _ hc hpos
      omega

/-- What is due at a loop time of whole seconds, from another one on, is due a period later. -/
theorem paceTime_succ {base now duration timeOut : ℤ} {n : ℕ} (hbase : base % 1000 = 0)
    (hnow : now % 1000 = 0) (hlate : paceTime base duration n + duration ≤ timeOut)
    (hdue : timeOut ≤ now) : paceTime base duration (n + 1) ≤ now := by
  simp only [paceTime, firingPeriod] at hlate ⊢
  push_cast
  have hmod : ((n : ℤ) - 1) * ((duration + 999) / 1000 * 1000) =
    ((n - 1) * ((duration + 999) / 1000)) * 1000 := by ring
  have hsucc : ((n : ℤ) + 1 - 1) * ((duration + 999) / 1000 * 1000) =
    ((n - 1) * ((duration + 999) / 1000)) * 1000 + (duration + 999) / 1000 * 1000 := by ring
  rw [hmod] at hlate
  rw [hsucc]
  omega

/-- The loop time has whole seconds. -/
theorem Sys.Scheduled.seconds {s : Sys} (h : s.Scheduled) : s.loop.currentTime % 1000 = 0 := by
  obtain ⟨c, -, htime⟩ := h.time
  rw [htime]
  exact Int.mul_emod_left _ _

/-- The call of a timer. -/
theorem Sys.Paced.invoke {id f : ℕ} {base : ℤ} {s : Sys} {job : TimedJob} {rest : List TimedJob}
    (h : s.Paced id base f) (hr : s.Reachable) (hbase : base % 1000 = 0)
    (hpc : s.pc = .runTimers) (hq : s.loop.timersQueue = job :: rest) :
    Sys.Paced id base f
      { s with
        pc := .inTimer job
        log := .timerInvoked job s.loop.getLoopTime s.clock :: s.log } := by
  have hsch := Sys.Reachable.scheduled hr
  have hfront : job ∈ s.loop.timersQueue := by simp [hq]
  have hwaiting : job ∈ s.waitingTimers := by simp [Sys.waitingTimers, Pc.waiting, hpc, hq]
  obtain ⟨r₀, c₀, -, ⟨hcall, -, -⟩, -⟩ := hsch.live job (by simp [Sys.liveTimers, hfront])
  by_cases hid : job.id = id
  · subst hid
    have hcount : ∀ log, countP (Event.fires job.id)
        (.timerInvoked job s.loop.getLoopTime s.clock :: log) =
          countP (Event.fires job.id) log + 1 :=
      fun log => countP_cons_of_pos (by simp [Event.fires])
    -- the first firing since is not before `base`, and a later one a period after the one before
    have hpace : paceTime base job.duration (s.firings job.id + 1 - f) ≤ s.loop.currentTime := by
      rcases h.firings_le.eq_or_lt with hfirst | hlater
      · have : s.firings job.id + 1 - f = 1 := by omega
        rw [this, paceTime]
        simpa using h.base_le
      · have hsucc : s.firings job.id + 1 - f = (s.firings job.id - f) + 1 := by omega
        rw [hsucc]
        exact paceTime_succ hbase hsch.seconds (h.waiting job hwaiting rfl hlater)
          (hsch.queued job hfront)
    refine ⟨h.base_le, ?_, fun r d hc _ => ?_, fun job' hj hid hpos => ?_⟩
    · rw [Sys.firings, hcount]
      exact h.firings_le.trans (Nat.le_succ _)
    · obtain ⟨-, rfl⟩ := hr.call_unique (by simpa using hc) hcall
      rw [Sys.firings, hcount]
      exact hpace
    · -- the timer is not waiting any more
      have hperm : s.liveTimers.Perm (job :: (s.loop.heap ++ rest ++ s.native.inserting)) := by
        rw [Sys.liveTimers, hq]
        exact perm_middle.append_right _
      have hnodup := (hperm.map TimedJob.id).nodup_iff.1 (Sys.Reachable.liveTimers_nodup hr)
      rw [map_cons, nodup_cons] at hnodup
      simp only [Sys.waitingTimers, Pc.waiting, hq, tail_cons] at hj
      exact absurd (mem_map.2 ⟨job', hj, hid⟩) hnodup.1
  · have hcount : ∀ log, countP (Event.fires id)
        (.timerInvoked job s.loop.getLoopTime s.clock :: log) = countP (Event.fires id) log :=
      fun log => countP_cons_of_neg (by simpa [Event.fires] using hid)
    refine h.keep le_rfl (hcount _) (fun r d hc => .inl (by simpa using hc))
      fun job' hj _ => .inl ?_
    simp only [Sys.waitingTimers, Pc.waiting, hpc, hq, tail_cons, mem_append, mem_cons] at hj ⊢
    tauto

theorem Step.paced {id f : ℕ} {base : ℤ} {s s' : Sys} {l : Label} (hs : Step s l s')
    (hr : s.Reachable) (hbase : base % 1000 = 0)
    (hfit : ∀ t, (id, t) ∈ l.deadlines s → InTimeT t) (h : s.Paced id base f) :
    s'.Paced id base f := by
  have hsch := Sys.Reachable.scheduled hr
  have hle := hs.currentTime_le hsch
  cases hs with
  | invokeTimer hpc hq => exact h.invoke hr hbase hpc hq
  | nextScript hpc | scriptReturn hpc | enterLoop hpc | leaveLoop hpc | drained hpc
  | timersDone hpc | updateTime hpc | updateDone hpc | getFront hpc | build hpc
  | callbackReturn hpc =>
    refine h.keep hle rfl (fun r d => .inl) fun job hj _ => .inl ?_
    simpa [Sys.waitingTimers, Pc.waiting, EventLoop.updateTime, EventLoop.addCallbackJob,
      EventLoop.removeJob, EventLoop.withdrawJob, hpc] using hj
  | timerCall hjs hn =>
    refine h.keep hle (by simp [Sys.firings, Event.fires]) (fun r d hc => ?_)
      fun job hj _ => .inl ?_
    · rcases mem_cons.1 hc with hc | hc
      · cases hc
        exact .inr (Sys.Reachable.firings_new hr)
      · exact .inl hc
    · simpa [Sys.waitingTimers, Native.inserting, hn] using hj
  | @timerRegister job hn =>
    refine h.keep hle (by simp [Sys.firings, Event.fires]) (fun r d hc => .inl (by simpa using hc))
      fun job' hj hid => ?_
    simp only [Sys.waitingTimers, Native.inserting, mem_append, mem_singleton] at hj
    rcases hj with hj | rfl
    · exact .inl (mem_append_left _ (mem_append.2 hj))
    · obtain ⟨r, -, hcall⟩ := hsch.created job hn
      have hin : InTimeT (toTimeT s.clock * 1000 + job.duration) :=
        hfit _ (by simp [Label.deadlines, Native.timers, hn, ← hid])
      refine .inr (.inr ⟨r, hid ▸ hcall, ?_⟩)
      simp only [EventLoop.getLoopTime, EventLoop.updateTime, hin.timeT_eq]
      exact Int.add_le_add_right hle _
  | timerInsert hn =>
    refine h.keep hle rfl (fun r d => .inl) fun job hj _ => .inl ?_
    simp only [Sys.waitingTimers, Native.inserting, EventLoop.addJobToTimersHeap, hn, append_nil,
      mem_append, mem_cons, not_mem_nil, or_false] at hj ⊢
    tauto
  | @timerReturn _ job hpc hn =>
    obtain ⟨rest, hq⟩ := (Sys.Reachable.control hr).timer job hpc
    refine h.keep hle rfl (fun r d => .inl) fun job' hj hid => ?_
    cases hi : job.isInterval with
    | false =>
      refine .inl ?_
      simpa [Sys.waitingTimers, Pc.waiting, EventLoop.removeJob, EventLoop.withdrawJob, hi, hpc]
        using hj
    | true =>
      rw [EventLoop.removeJob_interval _ hi] at hj
      simp only [Sys.waitingTimers, Pc.waiting, hpc, mem_append, mem_cons] at hj ⊢
      rcases hj with ((rfl | hj) | hj) | hj
      · obtain ⟨r, c, -, hset, -⟩ := hsch.live job (by simp [Sys.liveTimers, hq])
        have hin : InTimeT (s.loop.currentTime + job.duration) :=
          hfit _ (by simp [Label.deadlines, Pc.timer, hpc, hi, ← hid, EventLoop.getLoopTime])
        refine .inr (.inr ⟨r, hid ▸ hset.called, ?_⟩)
        rw [Int.add_comm job.duration, hin.timeT_eq]
      · exact .inl (.inl (.inl hj))
      · exact .inl (.inl (.inr hj))
      · exact .inl (.inr hj)
  | @moveTimer job heap head hpc hdue hpop hhead =>
    refine h.keep hle rfl (fun r d => .inl) fun job' hj _ => .inl ?_
    simp only [Sys.waitingTimers, Pc.waiting, EventLoop.addTimedJob, hpc, mem_append,
      mem_singleton] at hj ⊢
    rcases hj with (hj | hj | rfl) | hj
    · exact .inl (.inl (hpop.mem_of_mem hj))
    · exact .inl (.inr hj)
    · exact .inl (.inl hpop.mem)
    · exact .inr hj
  | invokeCallback hpc =>
    refine h.keep hle (by simp [Sys.firings, Event.fires]) (fun r d hc => .inl (by simpa using hc))
      fun job hj _ => .inl ?_
    simpa [Sys.waitingTimers, Pc.waiting, hpc] using hj
  | startWorker | watcherChange =>
    exact h.keep hle (by simp [Sys.firings, Event.fires]) (fun r d hc => .inl (by simpa using hc))
      fun job hj _ => .inl hj
  | _ => exact h.keep hle rfl (fun r d => .inl) fun job hj _ => .inl hj

/-! ## The result -/

/-- A window begins. -/
theorem Sys.paced_start (s : Sys) (id : ℕ) : s.Paced id s.loop.currentTime (s.firings id) :=
  ⟨le_rfl, le_rfl, fun _ _ _ h => absurd h (lt_irrefl _), fun _ _ _ h => absurd h (lt_irrefl _)⟩

/-- Steps which give the timer deadlines that fit in `time_t`. -/
abbrev Sys.FittingSteps (id : ℕ) : Sys → Sys → Prop :=
  Relation.ReflTransGen fun s s' => ∃ l, Step s l s' ∧ ∀ t, (id, t) ∈ l.deadlines s → InTimeT t

/-- One more step, which sets no deadline. -/
theorem Sys.FittingSteps.step {id : ℕ} {s s' s'' : Sys} {l : Label}
    (h : Sys.FittingSteps id s s') (hl : Step s' l s'') (hnone : l.deadlines s' = []) :
    Sys.FittingSteps id s s'' :=
  h.tail ⟨l, hl, by simp [hnone]⟩

theorem Sys.FittingSteps.paced {id f : ℕ} {base : ℤ} {s s' : Sys} (h : Sys.FittingSteps id s s')
    (hr : s.Reachable) (hbase : base % 1000 = 0) (hp : s.Paced id base f) :
    s'.Reachable ∧ s'.Paced id base f := by
  induction h with
  | refl => exact ⟨hr, hp⟩
  | tail _ hl ih =>
    obtain ⟨l, hl, hfit⟩ := hl
    exact ⟨ih.1.tail hl, hl.paced ih.1 hbase hfit ih.2⟩

/-- **How often a timer fires.** In any window of any run in which the deadlines of the timer fit in
`time_t`, a timer whose call had the duration `d > 0` fires at most once more than its period, the
duration rounded up to whole seconds, fits into the loop time that passes. -/
theorem interval_rate {s s' : Sys} {id r : ℕ} {d : ℤ} (hr : s.Reachable)
    (hs : Sys.FittingSteps id s s') (hd : 0 < d) (hcall : Event.timerCalled id r d ∈ s'.log) :
    (s'.firings id : ℤ) - s.firings id ≤
      1 + (s'.loop.currentTime - s.loop.currentTime) / firingPeriod d := by
  obtain ⟨-, hbase, hle, hfired, -⟩ :=
    hs.paced hr (Sys.Reachable.scheduled hr).seconds (s.paced_start id)
  have hperiod : 0 < firingPeriod d := by
    rw [firingPeriod]
    omega
  rw [← sub_le_iff_le_add', Int.le_ediv_iff_mul_le hperiod]
  rcases hle.eq_or_lt with hnone | hsome
  · have hneg : ((s'.firings id : ℤ) - s.firings id - 1) * firingPeriod d ≤ 0 :=
      Int.mul_nonpos_of_nonpos_of_nonneg (by omega) hperiod.le
    omega
  · have hpace := hfired r d hcall hsome
    rw [paceTime, Nat.cast_sub hle] at hpace
    omega

/-- An interval of half a second, set at 1000 ms, has fired at 2000 ms, and once. -/
theorem interval_rate_once : ∃ s s' : Sys, Sys.FittingSteps 0 s s' ∧ s'.firings 0 = 1 ∧
    (s'.firings 0 : ℤ) - s.firings 0 ≤
      1 + (s'.loop.currentTime - s.loop.currentTime) / firingPeriod 500 := by
  let job : TimedJob := { newTimedJob 0 1000 true (.user 0 0) [] 500 with timeOut := 1500 }
  have htop : ∀ x ∈ [job], ¬heapLess job x := by simp [heapLess, timedJobComparator]
  have called : Sys.FittingSteps 0 (Sys.initial 1000) _ := (Sys.FittingSteps.step .refl
    (.nextScript rfl) rfl).step (@Step.timerCall _ true (.user 0 0) [] 500 rfl rfl) rfl
  have registered := called.tail ⟨_, .timerRegister rfl, by
    simp [Label.deadlines, Native.timers, newTimedJob, Sys.initial, InTimeT, toTimeT]⟩
  have set := (Sys.FittingSteps.step registered (.timerInsert rfl) rfl).step
    (@Step.scriptReturn _ false rfl rfl) rfl
  have waiting := (((set.step (.enterLoop rfl rfl) rfl).step (.drained rfl rfl) rfl).step
    (.timersDone rfl rfl) rfl).step (@Step.tick _ 2000 (by decide)) rfl
  have moved := (waiting.step (@Step.updateTime _ (some job) rfl rfl ⟨.head _, htop⟩) rfl).step
    (@Step.moveTimer _ job [] none rfl (by decide) ⟨.refl _, htop⟩ rfl) rfl
  have fired := (((moved.step (.updateDone rfl (by simp)) rfl).step (.enterLoop rfl rfl) rfl).step
    (.drained rfl rfl) rfl).step (.invokeTimer rfl rfl) rfl
  exact ⟨_, _, fired, rfl, interval_rate (.start ⟨1000, rfl⟩) fired (r := 1000) (by decide)
    (.tail _ (.tail _ (.head _)))⟩

end NanoJS
