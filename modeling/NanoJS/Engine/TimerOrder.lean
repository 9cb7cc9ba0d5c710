import NanoJS.Engine.TimerCalls
import NanoJS.Engine.Timers

/-!
# Deadline order

The deadlines of the timers invoked over a run, followed by those in the queue, are in order, due,
and not after any deadline in the heap (`Sys.Ordered`). What enters the heap in the middle of a
batch, a new timer or an interval put back, has a deadline not before the loop time, if its duration
is not negative and the sum fits in `time_t`; `updateTimers` takes a least deadline out of the heap,
and nothing changes a deadline in it. So the timers of a run are invoked in the order of their
deadlines (`timers_in_order`).
-/

namespace NanoJS

open PriorityQueue List Transition

/-! ## The deadlines that have left the heap -/

def Event.deadline? : Event → Option ℤ
  | .timerInvoked job _ _ => some job.timeOut
  | _ => none

/-- The deadlines of the invoked timers, in the order of the invocations. -/
def Sys.fired (s : Sys) : List ℤ := (s.log.filterMap Event.deadline?).reverse

/-- The timers of the queue that are not invoked yet: the one being executed is still its front. -/
def Pc.waiting : Pc → List TimedJob → List TimedJob
  | .inTimer _, queue => queue.tail
  | _, queue => queue

/-- The deadlines that have left the heap: of the invoked timers, then of the queue. -/
def Sys.moved (s : Sys) : List ℤ :=
  s.fired ++ (s.pc.waiting s.loop.timersQueue).map TimedJob.timeOut

/-- The timers in the heap, or about to be. -/
def Sys.coming (s : Sys) : List TimedJob := s.loop.heap ++ s.native.inserting

/-- The durations passed to `setTimeOut` and `setInterval` so far are non-negative. -/
def Sys.NonnegDurations (s : Sys) : Prop :=
  ∀ id r d, Event.timerCalled id r d ∈ s.log → 0 ≤ d

structure Sys.Ordered (s : Sys) : Prop where
  sorted : s.moved.Pairwise (· ≤ ·)
  due : ∀ t ∈ s.moved, t ≤ s.loop.currentTime
  coming : ∀ t ∈ s.moved, ∀ job ∈ s.coming, t ≤ job.timeOut

/-! ## Steps -/

theorem Step.nonnegDurations {s s' : Sys} {l : Label} (h : Step s l s')
    (hd : s'.NonnegDurations) : s.NonnegDurations := by
  intro id r d hmem
  refine hd id r d ?_
  cases h with
  | timerCall | timerRegister | startWorker | invokeTimer | invokeCallback | watcherChange =>
    exact mem_cons_of_mem _ hmem
  | _ => exact hmem

/-- A step that takes nothing out of the heap. What it puts there is due at the loop time or
later. -/
theorem Sys.Ordered.keep {s s' : Sys} (h : s.Ordered) (hm : s'.moved = s.moved)
    (ht : s.loop.currentTime ≤ s'.loop.currentTime)
    (hc : ∀ job ∈ s'.coming, job ∈ s.coming ∨ s.loop.currentTime ≤ job.timeOut) :
    s'.Ordered where
  sorted := hm ▸ h.sorted
  due t hmem := (h.due t (hm ▸ hmem)).trans ht
  coming t hmem job hj := by
    rw [hm] at hmem
    rcases hc job hj with hj | hj
    · exact h.coming t hmem job hj
    · exact (h.due t hmem).trans hj

/-- A step that takes a least deadline, which is due, out of the heap. -/
theorem Sys.Ordered.take {s s' : Sys} (h : s.Ordered) (job : TimedJob)
    (hm : s'.moved = s.moved ++ [job.timeOut]) (hj : job ∈ s.coming)
    (hdue : job.timeOut ≤ s.loop.currentTime) (ht : s'.loop.currentTime = s.loop.currentTime)
    (hc : ∀ job' ∈ s'.coming, job' ∈ s.coming ∧ job.timeOut ≤ job'.timeOut) : s'.Ordered where
  sorted := by
    rw [hm, pairwise_append]
    refine ⟨h.sorted, pairwise_singleton _ _, fun t hmem _ hj' => ?_⟩
    rw [mem_singleton.1 hj']
    exact h.coming t hmem job hj
  due t hmem := by
    rw [ht]
    rw [hm, mem_append, mem_singleton] at hmem
    rcases hmem with hmem | rfl
    · exact h.due t hmem
    · exact hdue
  coming t hmem job' hj' := by
    obtain ⟨hj', hle⟩ := hc job' hj'
    rw [hm, mem_append, mem_singleton] at hmem
    rcases hmem with hmem | rfl
    · exact h.coming t hmem job' hj'
    · exact hle

theorem Step.ordered {s s' : Sys} {l : Label} (h : Step s l s') (hf : s.Control)
    (hs : s.Scheduled) (hd : s.NonnegDurations) (hfit : ∀ x ∈ l.deadlines s, InTimeT x.2)
    (ho : s.Ordered) : s'.Ordered := by
  have htime : s.loop.currentTime ≤ toTimeT s.clock * 1000 :=
    let ⟨_, hc, ht⟩ := hs.time
    ht.trans_le (toTimeT_mono hc)
  have hdur : ∀ {job : TimedJob} {r : ℕ}, s.CalledAt job r → 0 ≤ job.duration :=
    fun hc => hd _ _ _ hc
  cases h with
  | nextScript hpc | scriptReturn hpc | enterLoop hpc | leaveLoop hpc | getFront hpc | build hpc
  | drained hpc | timersDone hpc | invokeCallback hpc | callbackReturn hpc | updateDone hpc =>
    exact ho.keep (by simp [Sys.moved, Sys.fired, Event.deadline?, Pc.waiting, filterMap_cons, hpc,
      EventLoop.addCallbackJob, EventLoop.removeJob, EventLoop.withdrawJob]) le_rfl
      fun _ hj => .inl hj
  | @timerCall isInterval func args duration hjs hn =>
    refine ho.keep rfl le_rfl fun job hj => .inl ?_
    simpa [Sys.coming, Native.inserting, hn] using hj
  | @timerRegister job hn =>
    obtain ⟨r, -, hcalled⟩ := hs.created job hn
    have := hdur hcalled
    have hin : InTimeT (toTimeT s.clock * 1000 + job.duration) :=
      hfit (job.id, _) (by simp [Label.deadlines, Native.timers, hn])
    refine ho.keep rfl htime fun job' hj => ?_
    simp only [Sys.coming, Native.inserting, mem_append, mem_singleton] at hj
    rcases hj with hj | rfl
    · exact .inl (mem_append_left _ hj)
    · refine .inr ?_
      simp only [EventLoop.getLoopTime, EventLoop.updateTime, hin.timeT_eq]
      omega
  | @timerInsert job hn =>
    refine ho.keep rfl le_rfl fun job' hj => .inl ?_
    simp only [Sys.coming, Native.inserting, EventLoop.addJobToTimersHeap, hn, append_nil,
      mem_append, mem_cons, not_mem_nil, or_false] at hj ⊢
    exact hj.symm
  | @timerReturn _ job hpc hn =>
    obtain ⟨rest, hq⟩ := hf.timer job hpc
    cases hi : job.isInterval with
    | true =>
      obtain ⟨r, c, -, hset, -⟩ := hs.live job (by simp [Sys.liveTimers, hq])
      have := hdur hset.called
      have hin : InTimeT (s.loop.getLoopTime + job.duration) :=
        hfit (job.id, _) (by simp [Label.deadlines, Pc.timer, hpc, hi])
      rw [EventLoop.removeJob_interval _ hi]
      refine ho.keep (by simp [Sys.moved, Sys.fired, Pc.waiting, hpc]) le_rfl fun job' hj => ?_
      simp only [Sys.coming, mem_append, mem_cons] at hj ⊢
      rcases hj with (rfl | hj) | hj
      · rw [EventLoop.getLoopTime, Int.add_comm] at hin
        refine .inr ?_
        simp only [hin.timeT_eq]
        omega
      · exact .inl (.inl hj)
      · exact .inl (.inr hj)
    | false =>
      refine ho.keep (by simp [Sys.moved, Sys.fired, Pc.waiting, EventLoop.removeJob,
        EventLoop.withdrawJob, hi, hpc]) (by simp [EventLoop.removeJob, EventLoop.withdrawJob, hi])
        fun job' hj => .inl ?_
      simpa [Sys.coming, EventLoop.removeJob, EventLoop.withdrawJob, hi] using hj
  | @invokeTimer job rest hpc hq =>
    refine ho.keep ?_ le_rfl fun _ hj => .inl hj
    simp [Sys.moved, Sys.fired, Event.deadline?, Pc.waiting, hpc, hq]
  | updateTime hpc hq hhead =>
    refine ho.keep ?_ htime fun _ hj => .inl hj
    simp [Sys.moved, Sys.fired, Pc.waiting, EventLoop.updateTime, hpc]
  | @moveTimer job heap head hpc hdue hpop hhead =>
    have hnat : s.native = .idle := hf.native.resolve_right (by simp [hpc, Pc.inJs])
    have hcoming : s.coming = s.loop.heap := by simp [Sys.coming, Native.inserting, hnat]
    refine ho.take job ?_ (hcoming ▸ hpop.mem) hdue rfl fun job' hj => ?_
    · simp [Sys.moved, Sys.fired, Pc.waiting, EventLoop.addTimedJob, hpc]
    · have hj' : job' ∈ heap := by simpa [Sys.coming, Native.inserting, hnat] using hj
      exact ⟨hcoming ▸ hpop.mem_of_mem hj', hpop.key_le heapLess_of_timeOut_lt hj'⟩
  | _ => exact ho.keep rfl le_rfl fun _ hj => .inl hj

theorem TimerRun.ordered {s : Sys} {h : TimerHistory} (hr : TimerRun (s, h)) :
    s.NonnegDurations → (∀ x ∈ h.deadlines, InTimeT x.2) → s.Ordered :=
  Reachable.invariant
    (I := fun x => x.1.NonnegDurations → (∀ y ∈ x.2.deadlines, InTimeT y.2) → x.1.Ordered)
    (by
      rintro ⟨_, _⟩ ⟨⟨ms, rfl⟩, rfl⟩ - -
      have hmoved : (Sys.initial ms).moved = [] := rfl
      exact ⟨by simp [hmoved], by simp [hmoved], by simp [hmoved]⟩)
    (by
      rintro ⟨s, h⟩ l ⟨s', _⟩ hr ho ⟨hs, rfl⟩ hd hfit
      have hreach : s.Reachable := Recording.reachable hr
      exact hs.ordered (Sys.Reachable.control hreach) (Sys.Reachable.scheduled hreach)
        (hs.nonnegDurations hd) (fun x hx => hfit x (mem_append_right _ hx))
        (ho (hs.nonnegDurations hd) fun x hx => hfit x (mem_append_left _ hx))) hr

/-- **Timers fire in deadline order and never ahead of the loop clock.** When the durations are
non-negative and the deadlines fit in `time_t`, a timer that is invoked is due at the loop time, and
the deadlines in the order of the invocations do not decrease. -/
theorem timers_in_order {s : Sys} {h : TimerHistory} (hr : TimerRun (s, h))
    (hd : ∀ id r d, Event.timerCalled id r d ∈ s.log → 0 ≤ d)
    (hfit : ∀ x ∈ h.deadlines, InTimeT x.2) :
    (∀ job t c, Event.timerInvoked job t c ∈ s.log → job.timeOut ≤ t) ∧
      ((s.log.filterMap Event.deadline?).reverse).Pairwise (· ≤ ·) :=
  ⟨fun job t c hj => ((Sys.Reachable.scheduled (Recording.reachable hr)).invoked job t c hj).1,
    (pairwise_append.1 (TimerRun.ordered hr hd hfit).sorted).1⟩

/-- A timer of two seconds and then one of a second, set at 1000 ms: the second is called first. -/
theorem timers_in_order_twoTimers : ∃ s h, TimerRun (s, h) ∧
    h.calls.map TimerCall.duration = [2000, 1000] ∧
      (s.log.filterMap Event.deadline?).reverse = [2000, 3000] ∧
        ((s.log.filterMap Event.deadline?).reverse).Pairwise (· ≤ ·) := by
  let late : TimedJob := { newTimedJob 0 1000 false (.user 0 0) [] 2000 with timeOut := 3000 }
  let early : TimedJob := { newTimedJob 1 1000 false (.user 0 1) [] 1000 with timeOut := 2000 }
  have hearly : ∀ x ∈ [early, late], ¬heapLess early x := by
    simp [heapLess, timedJobComparator, early, late]
  have hlate : ∀ x ∈ [late], ¬heapLess late x := by simp [heapLess, timedJobComparator]
  have start : TimerRun (Sys.initial 1000, .empty) := .start ⟨⟨1000, rfl⟩, rfl⟩
  have set := ((((((start.tail (.nextScript rfl)).tail
    (@Step.timerCall _ false (.user 0 0) [] 2000 rfl rfl)).tail (.timerRegister rfl)).tail
    (.timerInsert rfl)).tail (@Step.timerCall _ false (.user 0 1) [] 1000 rfl rfl)).tail
    (.timerRegister rfl)).tail (.timerInsert rfl)
  have waiting := ((((set.tail (@Step.scriptReturn _ false rfl rfl)).tail
    (.enterLoop rfl rfl)).tail (.drained rfl rfl)).tail (.timersDone rfl rfl)).tail
    (@Step.tick _ 3000 (by decide))
  have moved := ((waiting.tail (@Step.updateTime _ (some early) rfl rfl ⟨.head _, hearly⟩)).tail
    (@Step.moveTimer _ early [late] (some late) rfl (by decide) ⟨.refl _, hearly⟩
      ⟨.head _, hlate⟩)).tail (@Step.moveTimer _ late [] none rfl (by decide) ⟨.refl _, hlate⟩ rfl)
  have first := ((((moved.tail (.updateDone rfl (by simp))).tail (.enterLoop rfl rfl)).tail
    (.drained rfl rfl)).tail (.invokeTimer rfl rfl)).tail (@Step.timerReturn _ false _ rfl rfl)
  have both := first.tail (.invokeTimer rfl rfl)
  refine ⟨_, _, both, rfl, by decide, (timers_in_order both (fun id r d hmem => ?_) ?_).2⟩
  · have hcall : (id, r, d) ∈ [(1, 1000, 1000), (0, 1000, 2000)] := Sys.mem_calls hmem
    simp only [mem_cons, Prod.mk.injEq, not_mem_nil, or_false] at hcall
    omega
  · have hdeadlines : ∀ x ∈ [((0 : ℕ), (3000 : ℤ)), (1, 2000)], InTimeT x.2 := by decide
    exact hdeadlines

end NanoJS
