import NanoJS.Engine.System
import Mathlib.Tactic.Ring

/-!
# Job accounting

`jobCount` is a sum over the places where a registered job can be: the two queues, the heap, the
message queue (with the message that has left it and is not built), the threads that have a job to
deliver (with the timer that is being inserted) and the watchers. `shouldStop` holds exactly when
it is zero. The loop thread therefore leaves `Run` only when every place is empty.
-/

namespace NanoJS

/-! ## The position of the loop thread -/

/-- The job whose function is being executed is the front of its queue, and a timer is being
created only from JavaScript. -/
structure Sys.Control (s : Sys) : Prop where
  timer : ∀ job, s.pc = .inTimer job → ∃ rest, s.loop.timersQueue = job :: rest
  callback : ∀ job, s.pc = .inCallback job → ∃ rest, s.loop.callbackQueue = job :: rest
  native : s.native = .idle ∨ s.pc.inJs = true

theorem Step.control {s s' : Sys} {l : Label} (h : Step s l s') (hf : s.Control) :
    s'.Control := by
  obtain ⟨ht, hc, hnat⟩ := hf
  cases h with
  | invokeTimer hpc hq => exact ⟨by rintro _ ⟨⟩; exact ⟨_, hq⟩, by simp, .inr rfl⟩
  | invokeCallback hpc hq => exact ⟨by simp, by rintro _ ⟨⟩; exact ⟨_, hq⟩, .inr rfl⟩
  | nextScript hpc => exact ⟨by simp, by simp, .inr rfl⟩
  | timerCall hjs hn | startWorker hjs hn | watchFile hjs hn => exact ⟨ht, hc, .inr hjs⟩
  | timerRegister hn | timerInsert hn => exact ⟨ht, hc, hnat.imp (by simp [hn]) id⟩
  | scriptReturn hpc hn | timerReturn hpc hn | callbackReturn hpc hn =>
    exact ⟨by simp, by simp, .inl hn⟩
  | enterLoop hpc | leaveLoop hpc | getFront hpc | build hpc | drained hpc | timersDone hpc
  | updateTime hpc | moveTimer hpc | updateDone hpc =>
    exact ⟨by simp, by simp, .inl (hnat.resolve_right (by simp [hpc, Pc.inJs]))⟩
  | deliver ht' =>
    refine ⟨ht, fun job hj => ?_, hnat⟩
    obtain ⟨rest, hr⟩ := hc job hj
    exact ⟨_, by simp [EventLoop.addCallbackJob, hr]; rfl⟩
  | _ => exact ⟨ht, hc, hnat⟩

theorem Sys.Reachable.control {s : Sys} (h : s.Reachable) : s.Control :=
  Transition.Reachable.invariant (I := Sys.Control)
    (by rintro _ ⟨ms, rfl⟩; exact ⟨by simp [initial], by simp [initial], .inl rfl⟩)
    (fun _ _ _ _ hf hl => hl.control hf) h

/-! ## The sum -/

/-- The jobs that a thread has yet to deliver. -/
def Sys.carried (s : Sys) : List CallbackJob := s.threads.flatMap Thread.carried

/-- The watchers that have not withdrawn. -/
def Sys.watchers (s : Sys) : ℕ := s.threads.countP Thread.isWatcher

/-- The sum over the places. -/
def Sys.pending (s : Sys) : ℕ :=
  s.loop.callbackQueue.length + s.loop.timersQueue.length + s.loop.heap.length +
    (s.loop.mQu.length + s.pc.taken.length) + (s.carried.length + s.native.inserting.length) +
    s.watchers

/-- What a thread counts for: the job it has yet to deliver, and one for a watcher. -/
def Thread.load (t : Thread) : ℕ := t.carried.length + if t.isWatcher then 1 else 0

@[simp] theorem Thread.load_worker (job : CallbackJob) (task : Task) :
    (worker job task).load = 1 := rfl

@[simp] theorem Thread.load_watcher (job : CallbackJob) (path : CString) :
    (watcher job path).load = 1 := rfl

@[simp] theorem Thread.load_posting (job : CallbackJob) (path : CString) (localJob : CallbackJob) :
    (posting job path localJob).load = 2 := rfl

/-- What the threads count for. -/
def Sys.load (s : Sys) : ℕ := (s.threads.map Thread.load).sum

theorem Sys.load_eq (s : Sys) : s.load = s.carried.length + s.watchers := by
  rw [load, carried, watchers]
  induction s.threads with
  | nil => rfl
  | cons t ts ih =>
    rw [List.map_cons, List.sum_cons, ih, List.flatMap_cons, List.length_append, List.countP_cons,
      Thread.load]
    omega

/-- The sum, with the threads together. -/
theorem Sys.pending_eq (s : Sys) :
    s.pending = s.loop.callbackQueue.length + s.loop.timersQueue.length + s.loop.heap.length +
      (s.loop.mQu.length + s.pc.taken.length) + s.native.inserting.length + s.load := by
  rw [pending, load_eq]
  omega

/-- A thread among the others. -/
theorem Sys.load_split {s : Sys} {pre post : List Thread} {t : Thread}
    (h : s.threads = pre ++ t :: post) :
    s.load = t.load + ((pre ++ post).map Thread.load).sum := by
  rw [load, h]
  simp only [List.map_append, List.map_cons, List.sum_append, List.sum_cons]
  omega

/-- The counter agrees with the sum, and the flag with the counter. -/
structure Sys.Accounted (s : Sys) : Prop where
  count : s.loop.jobCount = s.pending
  stop : s.loop.shouldStop = true ↔ s.loop.jobCount = 0

/-- Withdrawing one of at least one job keeps the flag in agreement. -/
theorem EventLoop.withdrawJob_stop {l : EventLoop} (hpos : 0 < l.jobCount)
    (h : l.shouldStop = true ↔ l.jobCount = 0) :
    l.withdrawJob.shouldStop = true ↔ l.withdrawJob.jobCount = 0 := by
  have hne : l.shouldStop ≠ true := fun hs => by have := h.1 hs; omega
  simp only [withdrawJob]
  split <;> simp_all

/-- Registering a job and putting it in a place keeps the account. -/
theorem Sys.Accounted.register {s s' : Sys} (ha : s.Accounted)
    (hc : s'.loop.jobCount = s.loop.jobCount + 1) (hs : s'.loop.shouldStop = false)
    (hp : s'.pending = s.pending + 1) : s'.Accounted := by
  have h := ha.count
  refine ⟨by rw [hc, hp, h]; push_cast; ring, ?_⟩
  rw [hs, hc]
  constructor
  · simp
  · omega

/-- Moving jobs between places keeps the account. -/
theorem Sys.Accounted.move {s s' : Sys} (ha : s.Accounted)
    (hc : s'.loop.jobCount = s.loop.jobCount) (hs : s'.loop.shouldStop = s.loop.shouldStop)
    (hp : s'.pending = s.pending) : s'.Accounted :=
  ⟨by rw [hc, hp, ha.count], by rw [hc, hs, ha.stop]⟩

/-- Taking a job from its place and withdrawing it keeps the account. -/
theorem Sys.Accounted.withdraw {s s' : Sys} {l : EventLoop} (ha : s.Accounted)
    (hl : s'.loop = l.withdrawJob) (hc : l.jobCount = s.loop.jobCount)
    (hs : l.shouldStop = s.loop.shouldStop) (hp : s'.pending + 1 = s.pending) :
    s'.Accounted := by
  have h := ha.count
  refine ⟨?_, ?_⟩
  · rw [hl]
    simp only [EventLoop.withdrawJob]
    omega
  · rw [hl]
    exact EventLoop.withdrawJob_stop (by omega) (by rw [hs, hc, ha.stop])

theorem Step.accounted {s s' : Sys} {l : Label} (h : Step s l s') (hf : s.Control)
    (ha : s.Accounted) : s'.Accounted := by
  cases h with
  | tick h => exact ha.move rfl rfl rfl
  | nextScript hpc | scriptReturn hpc | enterLoop hpc | leaveLoop hpc | drained hpc
  | invokeTimer hpc | timersDone hpc | invokeCallback hpc | updateTime hpc | updateDone hpc =>
    exact ha.move rfl rfl (by simp [Sys.pending, Pc.taken, hpc, Sys.carried, Sys.watchers,
      EventLoop.updateTime])
  | timerCall hjs hn => exact ha.move rfl rfl (by simp [Sys.pending, hn, Native.inserting,
      Sys.carried, Sys.watchers])
  | timerRegister hn =>
    apply ha.register rfl rfl
    simp only [Sys.pending, hn, Native.inserting, Sys.carried, Sys.watchers,
      EventLoop.registerJob, EventLoop.updateTime, List.length_cons, List.length_nil]
    omega
  | timerInsert hn =>
    refine ha.move rfl rfl ?_
    simp only [Sys.pending, hn, Native.inserting, Sys.carried, Sys.watchers,
      EventLoop.addJobToTimersHeap, List.length_cons, List.length_nil]
    omega
  | startWorker hjs hn | watchFile hjs hn =>
    apply ha.register rfl rfl
    rw [Sys.pending_eq, Sys.pending_eq]
    simp only [Sys.load, EventLoop.registerJob, List.map_cons, List.sum_cons, Thread.load_worker,
      Thread.load_watcher]
    omega
  | @timerReturn _ job hpc hn =>
    obtain ⟨rest, hq⟩ := hf.timer job hpc
    cases hi : job.isInterval with
    | true =>
      refine ha.move (by simp [EventLoop.removeJob, hi, EventLoop.addJobToTimersHeap])
        (by simp [EventLoop.removeJob, hi, EventLoop.addJobToTimersHeap]) ?_
      simp only [Sys.pending, EventLoop.removeJob, hi, EventLoop.addJobToTimersHeap, hq, hpc,
        Pc.taken, Sys.carried, Sys.watchers, if_true, List.tail_cons, List.length_cons]
      omega
    | false =>
      refine ha.withdraw (l := { s.loop with timersQueue := s.loop.timersQueue.tail })
        (by simp [EventLoop.removeJob, hi]) rfl rfl ?_
      simp only [Sys.pending, EventLoop.removeJob, hi, EventLoop.withdrawJob, hq, hpc,
        Pc.taken, Sys.carried, Sys.watchers, Bool.false_eq_true, if_false, List.tail_cons,
        List.length_cons]
      omega
  | @callbackReturn _ job hpc hn =>
    obtain ⟨rest, hq⟩ := hf.callback job hpc
    refine ha.withdraw (l := { s.loop with callbackQueue := s.loop.callbackQueue.tail })
      rfl rfl rfl ?_
    simp only [Sys.pending, EventLoop.removeJob, EventLoop.withdrawJob, hq, hpc, Pc.taken,
      Sys.carried, Sys.watchers, List.tail_cons, List.length_cons]
    omega
  | getFront hpc hq =>
    refine ha.move rfl rfl ?_
    simp only [Sys.pending, Sys.carried, Sys.watchers, hpc, hq, Pc.taken, List.length_cons,
      List.length_nil]
  | build hpc =>
    refine ha.move rfl rfl ?_
    simp only [Sys.pending, Sys.carried, Sys.watchers, hpc, Pc.taken, EventLoop.addCallbackJob,
      List.length_append, List.length_cons, List.length_nil]
    omega
  | moveTimer hpc hdue hpop hhead =>
    refine ha.move rfl rfl ?_
    have hlen := hpop.length
    simp only [Sys.pending, Sys.carried, Sys.watchers, hpc, Pc.taken, EventLoop.addTimedJob,
      List.length_append, List.length_cons, List.length_nil]
    omega
  | deliver ht htask =>
    refine ha.move rfl rfl ?_
    rw [Sys.pending_eq, Sys.pending_eq, Sys.load_split ht]
    simp only [Sys.load, Thread.load_worker, EventLoop.addCallbackJob, List.length_append,
      List.length_cons, List.length_nil]
    omega
  | post ht htask =>
    refine ha.move rfl rfl ?_
    rw [Sys.pending_eq, Sys.pending_eq, Sys.load_split ht]
    simp only [Sys.load, Thread.load_worker, EventLoop.addMsgJob, List.length_append,
      List.length_cons, List.length_nil]
    omega
  | watcherChange ht =>
    apply ha.register rfl rfl
    rw [Sys.pending_eq, Sys.pending_eq, Sys.load_split ht, Sys.load_split rfl]
    simp only [Thread.load_watcher, Thread.load_posting, EventLoop.registerJob]
    omega
  | watcherPost ht =>
    refine ha.move rfl rfl ?_
    rw [Sys.pending_eq, Sys.pending_eq, Sys.load_split ht, Sys.load_split rfl]
    simp only [Thread.load_watcher, Thread.load_posting, EventLoop.addMsgJob, List.length_append,
      List.length_cons, List.length_nil]
    omega
  | watcherStop ht =>
    apply ha.withdraw rfl rfl rfl
    rw [Sys.pending_eq, Sys.pending_eq, Sys.load_split ht]
    simp only [Sys.load, Thread.load_watcher, EventLoop.withdrawJob]
    omega

/-- When the sum is zero, no job and no thread is left. -/
theorem Sys.empty_of_pending {s : Sys} (h : s.pending = 0) :
    s.loop.callbackQueue = [] ∧ s.loop.timersQueue = [] ∧ s.loop.heap = [] ∧
      s.loop.mQu = [] ∧ s.pc.taken = [] ∧ s.native.inserting = [] ∧ s.threads = [] := by
  have hthreads : s.threads = [] := by
    rcases ht : s.threads with _ | ⟨t, ts⟩
    · rfl
    · simp only [pending, carried, watchers, ht, List.flatMap_cons, List.length_append,
        List.countP_cons] at h
      cases t <;> simp [Thread.carried, Thread.isWatcher] at h
  simp only [pending, Nat.add_eq_zero_iff, List.length_eq_zero_iff] at h
  tauto

theorem Sys.Reachable.accounted {s : Sys} (h : s.Reachable) : s.Accounted :=
  Transition.Reachable.invariant
    (by rintro _ ⟨ms, rfl⟩; exact ⟨rfl, by simp [initial, EventLoop.new]⟩)
    (fun _ _ _ hr ha hl => hl.accounted (Reachable.control hr) ha) h

/-- **Job accounting.** In every reachable state the counter is the sum over the places and the
flag says that it is zero; and when the loop thread leaves `Run`, every place is empty. -/
theorem jobCount_accounts {s : Sys} (h : s.Reachable) :
    s.loop.jobCount = (s.loop.callbackQueue.length : ℤ) + s.loop.timersQueue.length +
        s.loop.heap.length + (s.loop.mQu.length + s.pc.taken.length) +
        ((s.threads.flatMap Thread.carried).length + s.native.inserting.length) +
        s.threads.countP Thread.isWatcher ∧
      (s.loop.shouldStop = true ↔ s.loop.jobCount = 0) ∧
      ∀ s', Step s .leaveLoop s' →
        s.loop.callbackQueue = [] ∧ s.loop.timersQueue = [] ∧ s.loop.heap = [] ∧
          s.loop.mQu = [] ∧ s.pc.taken = [] ∧ s.native.inserting = [] ∧ s.threads = [] := by
  obtain ⟨hcount, hstop⟩ := Sys.Reachable.accounted h
  refine ⟨by rw [hcount]; simp [Sys.pending, Sys.carried, Sys.watchers], hstop, ?_⟩
  rintro _ ⟨⟩
  rename_i hpc hs
  exact Sys.empty_of_pending (by have := hstop.1 hs; omega)

/-- The account in a run: a script starts a worker, a watcher and a timer, and is still running
while the timer is being inserted. -/
theorem jobCount_accounts_script : ∃ s : Sys, s.loop.jobCount = 3 ∧
    s.loop.jobCount = (s.loop.callbackQueue.length : ℤ) + s.loop.timersQueue.length +
      s.loop.heap.length + (s.loop.mQu.length + s.pc.taken.length) +
      ((s.threads.flatMap Thread.carried).length + s.native.inserting.length) +
      s.threads.countP Thread.isWatcher :=
  ⟨_, rfl, (jobCount_accounts (((((((Transition.Reachable.start ⟨0, rfl⟩).tail
    (.nextScript rfl)).tail (@Step.startWorker _ (.user 0 0) (.stat []) rfl rfl)).tail
    (@Step.watchFile _ (.user 1 1) [] rfl rfl)).tail
    (@Step.timerCall _ false (.user 2 2) [] 5 rfl rfl)).tail (.timerRegister rfl)))).1⟩

end NanoJS
