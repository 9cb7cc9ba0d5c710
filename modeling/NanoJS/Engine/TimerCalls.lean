import NanoJS.Engine.Delivery

/-!
# The calls that timers stem from

A run is recorded beside its states: the calls of `setTimeOut` and `setInterval`, with what each
one stores in its job, the moves of `updateTimers`, and the sums that become deadlines. A job keeps
what its call stored, from the call on and for an interval over all its firings
(`TimerHistory.Traced`).
-/

namespace NanoJS

open List FreshIds Transition

/-! ## Recorded calls and moves -/

/-- A call of `setTimeOut` or `setInterval`: the job that it allocates, and what it stores there. -/
structure TimerCall where
  id : ℕ
  isInterval : Bool
  func : Closure
  args : List Value
  duration : ℤ
  deriving DecidableEq

/-- What a job keeps of its call. -/
def TimedJob.call (job : TimedJob) : TimerCall :=
  ⟨job.id, job.isInterval, job.func, job.args, job.duration⟩

def TimerCall.key (call : TimerCall) : JobKey := ⟨call.id, call.func, call.isInterval⟩

/-- The cached head of `updateTimers`. -/
def Pc.head : Pc → List TimedJob
  | .updateTimers head => head.toList
  | _ => []

/-- The timer whose function is being executed. -/
def Pc.timer : Pc → List TimedJob
  | .inTimer job => [job]
  | _ => []

/-- The timer that a call in progress has allocated. -/
def Native.timers : Native → List TimedJob
  | .idle => []
  | .created job | .registered job => [job]

/-- What a step from `s` adds to the calls. -/
def Label.timerCalls (s : Sys) : Label → List TimerCall
  | .timerCall isInterval func args duration => [⟨s.nextId, isInterval, func, args, duration⟩]
  | _ => []

/-- What a step from `s` moves to the queue, with the loop time. -/
def Label.timerMoves (s : Sys) : Label → List (ℕ × ℤ)
  | .moveTimer => s.pc.head.map fun job => (job.id, s.loop.getLoopTime)
  | _ => []

/-- The sums of a loop time and a duration that a step from `s` makes deadlines of, before `time_t`
cuts them: at the registration of a timer, and at the return of an interval. -/
def Label.deadlines (s : Sys) : Label → List (ℕ × ℤ)
  | .timerRegister => s.native.timers.map fun job => (job.id, toTimeT s.clock * 1000 + job.duration)
  | .jsReturn _ => (s.pc.timer.filter TimedJob.isInterval).map fun job =>
      (job.id, s.loop.getLoopTime + job.duration)
  | _ => []

/-- The calls, the timers moved to `timersQueue` with the loop times, and the timers given a
deadline with the sum that it is cut from, oldest first. -/
structure TimerHistory where
  calls : List TimerCall
  moves : List (ℕ × ℤ)
  deadlines : List (ℕ × ℤ)

namespace TimerHistory

def empty : TimerHistory := ⟨[], [], []⟩

/-- The history after a step that leaves the state `s`. -/
def record (h : TimerHistory) (s : Sys) (l : Label) : TimerHistory :=
  ⟨h.calls ++ l.timerCalls s, h.moves ++ l.timerMoves s, h.deadlines ++ l.deadlines s⟩

/-- The loop times at which a timer was moved. -/
def movesOf (h : TimerHistory) (id : ℕ) : List ℤ := (h.moves.filter (·.1 == id)).map Prod.snd

/-- The deadlines of the timer all fit in `time_t`. -/
def Fits (h : TimerHistory) (id : ℕ) : Prop := ∀ t, (id, t) ∈ h.deadlines → InTimeT t

theorem Fits.of_record {h : TimerHistory} {s : Sys} {l : Label} {id : ℕ}
    (hf : (h.record s l).Fits id) : h.Fits id :=
  fun t ht => hf t (mem_append_left _ ht)

theorem mem_movesOf {h : TimerHistory} {id : ℕ} {t : ℤ} :
    t ∈ h.movesOf id ↔ (id, t) ∈ h.moves := by
  simp [movesOf]

end TimerHistory

/-- The states of a run of the process, with the history of its timers. -/
abbrev TimerRun : Sys × TimerHistory → Prop :=
  Recording Sys.Init Step TimerHistory.record .empty

/-- Every run can be recorded. -/
theorem Sys.Reachable.timerRun {s : Sys} (h : s.Reachable) : ∃ history, TimerRun (s, history) :=
  Recording.of_reachable h

/-! ## Jobs keep what their call stored -/

/-- The timers that exist. -/
def Sys.timers (s : Sys) : List TimedJob :=
  s.loop.heap ++ s.loop.timersQueue ++ s.native.timers

/-- A step changes no timer in what it keeps of its call; a new timer is the one of a call. -/
theorem Step.timers {s s' : Sys} {l : Label} (h : Step s l s') (hf : s.Control) :
    s'.timers.map TimedJob.call ⊆ s.timers.map TimedJob.call ++ l.timerCalls s := by
  intro call hcall
  cases h with
  | timerCall hjs hn =>
    simpa [Sys.timers, Native.timers, Label.timerCalls, newTimedJob, TimedJob.call, hn]
      using hcall
  | timerRegister hn =>
    simpa [Sys.timers, Native.timers, Label.timerCalls, TimedJob.call, hn,
      EventLoop.registerJob, EventLoop.updateTime] using hcall
  | timerInsert hn =>
    simp only [Sys.timers, Native.timers, Label.timerCalls, hn, EventLoop.addJobToTimersHeap,
      map_append, map_cons, map_nil, mem_append, mem_cons, not_mem_nil, or_false] at hcall ⊢
    tauto
  | @timerReturn _ job hpc hn =>
    obtain ⟨rest, hq⟩ := hf.timer job hpc
    cases hi : job.isInterval <;>
    · simp only [Sys.timers, Native.timers, Label.timerCalls, hn, hq, hi, EventLoop.removeJob,
        EventLoop.addJobToTimersHeap, EventLoop.withdrawJob, EventLoop.getLoopTime,
        TimedJob.call, tail_cons, map_append, map_cons, map_nil, mem_append, mem_cons,
        not_mem_nil, or_false, if_true, if_false, Bool.false_eq_true] at hcall ⊢
      tauto
  | @moveTimer job heap head hpc hdue hpop hhead =>
    have hheap := (hpop.perm.map TimedJob.call).mem_iff (a := call)
    simp only [Sys.timers, Label.timerCalls, EventLoop.addTimedJob, map_append, map_cons, map_nil,
      mem_append, mem_cons, not_mem_nil, or_false] at hcall hheap ⊢
    tauto
  | _ => exact mem_append_left _ hcall

/-- A timer that is invoked is one that exists. -/
theorem Step.timerInvoked {s s' : Sys} {l : Label} (h : Step s l s') {job : TimedJob} {t : ℤ}
    {c : ℕ} (hj : Event.timerInvoked job t c ∈ s'.log) :
    Event.timerInvoked job t c ∈ s.log ∨ job ∈ s.timers := by
  cases h with
  | @invokeTimer job' rest hpc hq =>
    rcases mem_cons.1 hj with he | hj
    · cases he
      exact .inr (by simp [Sys.timers, hq])
    · exact .inl hj
  | timerCall | timerRegister | startWorker | invokeCallback | watcherChange =>
    exact .inl (by simpa using hj)
  | _ => exact .inl hj

namespace TimerHistory

/-- The timers that exist or were invoked stem from recorded calls, which have distinct jobs. -/
structure Traced (h : TimerHistory) (s : Sys) : Prop where
  timers : ∀ job ∈ s.timers, job.call ∈ h.calls
  invoked : ∀ job t c, Event.timerInvoked job t c ∈ s.log → job.call ∈ h.calls
  ids : Below (h.calls.map TimerCall.id) s.nextId

end TimerHistory

/-- The identities that calls have used. -/
theorem Step.timerCall_ids {s s' : Sys} {l : Label} (h : Step s l s') (calls : List TimerCall) :
    Recycles (calls.map TimerCall.id) s.nextId ((calls ++ l.timerCalls s).map TimerCall.id)
      s'.nextId := by
  cases h with
  | timerCall hjs hn => exact .take (by simp [Label.timerCalls]) rfl
  | startWorker | watchFile | watcherChange =>
    exact .keep (.of_eq (by simp [Label.timerCalls])) (Nat.le_succ _)
  | _ => exact .keep (.of_eq (by simp [Label.timerCalls])) le_rfl

theorem Step.traced {s s' : Sys} {l : Label} (hs : Step s l s') (hf : s.Control)
    {h : TimerHistory} (ht : h.Traced s) : (h.record s l).Traced s' := by
  refine ⟨fun job hj => ?_, fun job t c hj => ?_, ht.ids.recycle (hs.timerCall_ids _)⟩
  · rcases mem_append.1 (hs.timers hf (mem_map_of_mem hj)) with hcall | hcall
    · obtain ⟨old, hold, heq⟩ := mem_map.1 hcall
      exact mem_append_left _ (heq ▸ ht.timers old hold)
    · exact mem_append_right _ hcall
  · rcases hs.timerInvoked hj with hj | hj
    · exact mem_append_left _ (ht.invoked job t c hj)
    · exact mem_append_left _ (ht.timers job hj)

theorem TimerRun.traced {s : Sys} {h : TimerHistory} (hr : TimerRun (s, h)) : h.Traced s :=
  Reachable.invariant (I := fun x => x.2.Traced x.1)
    (by
      rintro ⟨_, _⟩ ⟨⟨ms, rfl⟩, rfl⟩
      exact ⟨by simp [Sys.timers, Sys.initial, EventLoop.new, Native.timers],
        by simp [Sys.initial], .nil _⟩)
    (by
      rintro ⟨s, h⟩ l ⟨s', _⟩ hr ht ⟨hs, rfl⟩
      exact hs.traced (Sys.Reachable.control (Recording.reachable hr)) ht) hr

/-- The job of a call tells the call. -/
theorem TimerHistory.Traced.call_unique {s : Sys} {h : TimerHistory} (ht : h.Traced s)
    {call call' : TimerCall} (hc : call ∈ h.calls) (hc' : call' ∈ h.calls)
    (hid : call.id = call'.id) : call = call' :=
  inj_on_of_nodup_map ht.ids.nodup hc hc' hid

end NanoJS
