import NanoJS.Engine.System

/-!
# Accesses to the containers

`EventLoop::Run` tests a container and accesses it in separate operations, between which other
threads may push. Here each test, each `front`, `top` and `pop` is a step of its own (`FineStep`),
and `Access.Safe` says that the container an access finds is not empty. Every access is safe but
one: `updateTimers` reads the top again after it has removed the last timer of the heap
(`accesses_safe_iff`). Up to the positions between a test and its access the steps are those of
`Sys` (`FineSys.Reachable.sys`).
-/

namespace NanoJS

open PriorityQueue

/-! ## Positions and accesses -/

/-- Where the loop thread is, at a test, at an access or in JavaScript. -/
inductive Point
  | start
  | script
  | loopHead
  /-- `mQu->empty()` -/
  | drainTest
  /-- `mQu->getFront()` -/
  | drainFront
  | build (msg : Message)
  /-- `this->timersQueue->empty()` -/
  | timersTest
  /-- `this->timersQueue->front()` -/
  | timersFront
  | inTimer (job : TimedJob)
  /-- `this->timersQueue->pop()` in `removeJob(job)` -/
  | timersPop (job : TimedJob)
  /-- `this->callbackQueue->empty()` -/
  | callbacksTest
  /-- `this->callbackQueue->front()` -/
  | callbacksFront
  | inCallback (job : CallbackJob)
  /-- `this->callbackQueue->pop()` in `removeJob(job)` -/
  | callbacksPop (job : CallbackJob)
  /-- `if (this->heap.size() != 0)` -/
  | heapTest
  /-- The first `getTopTimer()` -/
  | firstTop
  /-- The condition of the loop of `updateTimers` -/
  | headTest (head : Option TimedJob)
  /-- `this->addTimedJob(head)` -/
  | moveHead (head : TimedJob)
  /-- `this->removeJobFromTimersHeap()`, of a heap whose top is `head` -/
  | removeHead (head : TimedJob)
  /-- `head = this->getTopTimer()` -/
  | nextTop

/-- An access to the front or the top of a container. -/
inductive Access
  | getFront
  | timersFront
  | timersPop (job : TimedJob)
  | callbacksFront
  | callbacksPop (job : CallbackJob)
  | getTopTimer
  | removeJobFromTimersHeap

/-- The access at a position. -/
def Point.access : Point → Option Access
  | drainFront => some .getFront
  | timersFront => some .timersFront
  | timersPop job => some (.timersPop job)
  | callbacksFront => some .callbacksFront
  | callbacksPop job => some (.callbacksPop job)
  | firstTop | nextTop => some .getTopTimer
  | removeHead _ => some .removeJobFromTimersHeap
  | _ => none

/-- The container is not empty, and what is popped after a job has run is that job. -/
def Access.Safe (l : EventLoop) : Access → Prop
  | getFront => l.mQu ≠ []
  | timersFront => l.timersQueue ≠ []
  | timersPop job => l.timersQueue.head? = some job
  | callbacksFront => l.callbackQueue ≠ []
  | callbacksPop job => l.callbackQueue.head? = some job
  | getTopTimer | removeJobFromTimersHeap => l.heap ≠ []

/-- The position as the API sees it: JavaScript is executing, or not. -/
def Point.api : Point → Pc
  | script => .script
  | inTimer job => .inTimer job
  | inCallback job => .inCallback job
  | _ => .loopHead

/-! ## Steps -/

/-- `Sys`, with a finer position. -/
structure FineSys where
  clock : ℕ
  loop : EventLoop
  point : Point
  native : Native
  threads : List Thread
  nextId : ℕ
  log : List Event

/-- The same state at a position of `Sys`. -/
def FineSys.at (s : FineSys) (pc : Pc) : Sys :=
  ⟨s.clock, s.loop, pc, s.native, s.threads, s.nextId, s.log⟩

def FineSys.initial (ms : ℕ) : FineSys := ⟨ms, .new ms, .start, .idle, [], 0, []⟩

/-- The labels of the steps that are not the loop thread's own: the clock, the other threads, and
the API that JavaScript calls. -/
def Label.isOther : Label → Bool
  | .tick _ | .timerCall .. | .timerRegister | .timerInsert | .startWorker .. | .watchFile ..
  | .deliver .. | .post .. | .watcherChange .. | .watcherPost .. | .watcherStop .. => true
  | _ => false

/-- One test, access or other operation; `none` labels those of the loop thread. -/
inductive FineStep : FineSys → Option Label → FineSys → Prop
  | other {s l s'} (hl : l.isOther = true) (hpoint : s'.point = s.point)
      (h : Step (s.at s.point.api) l (s'.at s.point.api)) : FineStep s (some l) s'
  -- `App::Start`
  | nextScript {s} (hp : s.point = .start) : FineStep s none { s with point := .script }
  | scriptReturn {s} (hp : s.point = .script) (hn : s.native = .idle) :
      FineStep s none { s with point := .loopHead }
  -- `EventLoop::Run`
  | enterLoop {s} (hp : s.point = .loopHead) (hstop : s.loop.shouldStop = false) :
      FineStep s none { s with point := .drainTest }
  | leaveLoop {s} (hp : s.point = .loopHead) (hstop : s.loop.shouldStop = true) :
      FineStep s none { s with point := .start }
  | drainMore {s} (hp : s.point = .drainTest) (hq : s.loop.mQu ≠ []) :
      FineStep s none { s with point := .drainFront }
  | drained {s} (hp : s.point = .drainTest) (hq : s.loop.mQu = []) :
      FineStep s none { s with point := .timersTest }
  | getFront {s msg rest} (hp : s.point = .drainFront) (hq : s.loop.mQu = msg :: rest) :
      FineStep s none { s with point := .build msg, loop := { s.loop with mQu := rest } }
  | build {s msg args} (hp : s.point = .build msg) :
      FineStep s none
        { s with
          point := .drainTest, loop := s.loop.addCallbackJob { msg.job with args := some args } }
  -- `EventLoop::runTimers`
  | timersMore {s} (hp : s.point = .timersTest) (hq : s.loop.timersQueue ≠ []) :
      FineStep s none { s with point := .timersFront }
  | timersDone {s} (hp : s.point = .timersTest) (hq : s.loop.timersQueue = []) :
      FineStep s none { s with point := .callbacksTest }
  | invokeTimer {s job rest} (hp : s.point = .timersFront)
      (hq : s.loop.timersQueue = job :: rest) :
      FineStep s none
        { s with
          point := .inTimer job
          log := .timerInvoked job s.loop.getLoopTime s.clock :: s.log }
  | timerReturn {s job} (hp : s.point = .inTimer job) (hn : s.native = .idle) :
      FineStep s none { s with point := .timersPop job }
  | timerRemove {s job} (hp : s.point = .timersPop job) :
      FineStep s none { s with point := .timersTest, loop := s.loop.removeJob (.timed job) }
  -- `EventLoop::runCallbacks`
  | callbacksMore {s} (hp : s.point = .callbacksTest) (hq : s.loop.callbackQueue ≠ []) :
      FineStep s none { s with point := .callbacksFront }
  | callbacksDone {s} (hp : s.point = .callbacksTest) (hq : s.loop.callbackQueue = []) :
      FineStep s none { s with point := .heapTest, loop := s.loop.updateTime s.clock }
  | invokeCallback {s job rest args} (hp : s.point = .callbacksFront)
      (hq : s.loop.callbackQueue = job :: rest) (hargs : job.args = some args) :
      FineStep s none
        { s with point := .inCallback job, log := .callbackInvoked job :: s.log }
  | callbackReturn {s job} (hp : s.point = .inCallback job) (hn : s.native = .idle) :
      FineStep s none { s with point := .callbacksPop job }
  | callbackRemove {s job} (hp : s.point = .callbacksPop job) :
      FineStep s none
        { s with point := .callbacksTest, loop := s.loop.removeJob (.callback job) }
  -- `EventLoop::updateTimers`
  | heapMore {s} (hp : s.point = .heapTest) (hq : s.loop.heap ≠ []) :
      FineStep s none { s with point := .firstTop }
  | heapEmpty {s} (hp : s.point = .heapTest) (hq : s.loop.heap = []) :
      FineStep s none { s with point := .loopHead }
  | getTopTimer {s head} (hp : s.point = .firstTop ∨ s.point = .nextTop)
      (hhead : Top heapLess s.loop.heap head) :
      FineStep s none { s with point := .headTest head }
  | headDue {s head} (hp : s.point = .headTest (some head)) (hq : s.loop.heap ≠ [])
      (hdue : head.timeOut ≤ s.loop.getLoopTime) :
      FineStep s none { s with point := .moveHead head }
  | headDone {s head} (hp : s.point = .headTest head)
      (hdue : s.loop.heap = [] ∨ ∀ job, head = some job → s.loop.getLoopTime < job.timeOut) :
      FineStep s none { s with point := .loopHead }
  | addTimedJob {s head} (hp : s.point = .moveHead head) :
      FineStep s none { s with point := .removeHead head, loop := s.loop.addTimedJob head }
  | removeJobFromTimersHeap {s head heap} (hp : s.point = .removeHead head)
      (hpop : Pop heapLess s.loop.heap head heap) :
      FineStep s none { s with point := .nextTop, loop := { s.loop with heap := heap } }

/-- The states that are reached. -/
abbrev FineSys.Reachable : FineSys → Prop :=
  Transition.Reachable (fun s => ∃ ms, s = FineSys.initial ms) FineStep

/-! ## What the other steps do -/

/-- Other threads only push, and only a timer that is being inserted changes the heap. -/
structure Pushes (s s' : Sys) : Prop where
  timersQueue : s'.loop.timersQueue = s.loop.timersQueue
  mQu : ∃ pushed, s'.loop.mQu = s.loop.mQu ++ pushed
  callbackQueue : ∃ pushed, s'.loop.callbackQueue = s.loop.callbackQueue ++ pushed
  heap : s.native = .idle → s'.loop.heap = s.loop.heap
  time : s.native = .idle → s'.loop.getLoopTime = s.loop.getLoopTime
  native : s.native = .idle → s'.native = .idle ∨ s.pc.inJs = true

theorem Step.pushes {s s' : Sys} {l : Label} (h : Step s l s') (hl : l.isOther = true) :
    Pushes s s' := by
  have hnil : ∀ {α : Type} (q : List α), ∃ pushed, q = q ++ pushed := fun q =>
    ⟨[], (List.append_nil q).symm⟩
  cases h with
  | timerCall hjs hn =>
    exact ⟨rfl, hnil _, hnil _, fun _ => rfl, fun _ => rfl, fun _ => .inr hjs⟩
  | timerRegister hn | timerInsert hn =>
    refine ⟨rfl, hnil _, hnil _, ?_, ?_, ?_⟩ <;> (intro hi; rw [hn] at hi; cases hi)
  | deliver ht htask => exact ⟨rfl, hnil _, ⟨_, rfl⟩, fun _ => rfl, fun _ => rfl, .inl⟩
  | post ht htask | watcherPost ht =>
    exact ⟨rfl, ⟨_, rfl⟩, hnil _, fun _ => rfl, fun _ => rfl, .inl⟩
  | startWorker hjs hn | watchFile hjs hn =>
    exact ⟨rfl, hnil _, hnil _, fun _ => rfl, fun _ => rfl, .inl⟩
  | tick ht | watcherChange ht | watcherStop ht =>
    exact ⟨rfl, hnil _, hnil _, fun _ => rfl, fun _ => rfl, .inl⟩
  | _ => cases hl

/-! ## The invariant -/

/-- The test that a position relies on still holds at it. -/
def Point.Guarded (l : EventLoop) : Point → Prop
  | drainFront => l.mQu ≠ []
  | timersFront => l.timersQueue ≠ []
  | inTimer job | timersPop job => l.timersQueue.head? = some job
  | callbacksFront => l.callbackQueue ≠ []
  | inCallback job | callbacksPop job => l.callbackQueue.head? = some job
  | firstTop => l.heap ≠ []
  | headTest head => Top heapLess l.heap head
  | moveHead head => Top heapLess l.heap (some head) ∧ head.timeOut ≤ l.getLoopTime
  | removeHead head =>
    (Top heapLess l.heap (some head) ∧ head.timeOut ≤ l.getLoopTime) ∧
      ∃ queue, l.timersQueue = queue ++ [head]
  | _ => True

/-- Timers are inserted only from JavaScript. -/
structure FineSys.Control (s : FineSys) : Prop where
  guarded : s.point.Guarded s.loop
  native : s.native = .idle ∨ s.point.api.inJs = true

theorem head?_append {α : Type*} {q : List α} {a : α} (pushed : List α) (h : q.head? = some a) :
    (q ++ pushed).head? = some a := by
  rw [List.head?_append, h]
  rfl

/-- **What other threads do keeps the test valid.** -/
theorem Point.Guarded.pushes {p : Point} {s s' : Sys} (hs : Pushes s s')
    (hnative : s.native = .idle ∨ p.api.inJs = true) (h : p.Guarded s.loop) :
    p.Guarded s'.loop := by
  obtain ⟨ht, ⟨m, hm⟩, ⟨c, hc⟩, hheap, htime, -⟩ := hs
  have hidle : p.api.inJs = false → s.native = .idle := by
    intro hjs
    exact hnative.resolve_right (by simp [hjs])
  cases p with
  | drainFront => simp_all [Guarded]
  | timersFront | inTimer job | timersPop job => simp_all [Guarded]
  | callbacksFront => simp_all [Guarded]
  | inCallback job | callbacksPop job =>
    unfold Guarded at *
    rw [hc]
    exact head?_append c h
  | firstTop | headTest head | moveHead head | removeHead head =>
    unfold Guarded at *
    simp only [hheap (hidle rfl), htime (hidle rfl), ht]
    exact h
  | _ => trivial

theorem FineStep.control {s s' : FineSys} {l : Option Label} (h : FineStep s l s')
    (hc : s.Control) : s'.Control := by
  obtain ⟨hg, hn⟩ := hc
  have idle : ∀ {p : Point}, s.point = p → p.api.inJs = false → s.native = .idle := by
    rintro p rfl hjs
    exact hn.resolve_right (by simp [hjs])
  cases h with
  | other hl hpoint h =>
    have hp := h.pushes hl
    refine ⟨hpoint ▸ hg.pushes hp hn, ?_⟩
    rw [hpoint]
    rcases hn with hn | hn
    · exact hp.native hn
    · exact .inr hn
  | nextScript hp => exact ⟨trivial, .inr rfl⟩
  | scriptReturn hp hn' => exact ⟨trivial, .inl hn'⟩
  | timerReturn hp hn' | callbackReturn hp hn' =>
    rw [hp] at hg
    exact ⟨hg, .inl hn'⟩
  | drainMore hp hq | timersMore hp hq | callbacksMore hp hq | heapMore hp hq =>
    exact ⟨hq, .inl (idle hp rfl)⟩
  | invokeTimer hp hq | invokeCallback hp hq hargs =>
    exact ⟨by simp [Point.Guarded, hq], .inr rfl⟩
  | getTopTimer hp hhead =>
    refine ⟨hhead, .inl ?_⟩
    rcases hp with hp | hp <;> exact idle hp rfl
  | headDue hp hq hdue =>
    rw [hp] at hg
    exact ⟨⟨hg, hdue⟩, .inl (idle hp rfl)⟩
  | addTimedJob hp =>
    rw [hp] at hg
    exact ⟨⟨hg, _, rfl⟩, .inl (idle hp rfl)⟩
  | enterLoop hp | leaveLoop hp | drained hp | getFront hp | build hp | timersDone hp
  | timerRemove hp | callbacksDone hp | callbackRemove hp | heapEmpty hp | headDone hp
  | removeJobFromTimersHeap hp => exact ⟨trivial, .inl (idle hp rfl)⟩

theorem FineSys.Reachable.control {s : FineSys} (h : s.Reachable) : s.Control :=
  Transition.Reachable.invariant (I := FineSys.Control)
    (by rintro _ ⟨ms, rfl⟩; exact ⟨trivial, .inl rfl⟩)
    (fun _ _ _ _ hc hl => hl.control hc) h

/-- An access is safe in every reachable state, but for the second reading of the top when no timer
is left. -/
theorem Access.safe_of_guarded {p : Point} {l : EventLoop} (h : p.Guarded l) {a : Access}
    (ha : p.access = some a) (htop : p = .nextTop → l.heap ≠ []) : a.Safe l := by
  cases p with
  | nextTop =>
    obtain rfl := Option.some.inj ha
    exact htop rfl
  | removeHead head =>
    obtain rfl := Option.some.inj ha
    exact List.ne_nil_of_mem h.1.1.1
  | drainFront | timersFront | timersPop | callbacksFront | callbacksPop | firstTop =>
    obtain rfl := Option.some.inj ha
    exact h
  | _ => cases ha

/-! ## The steps of `Sys` -/

/-- The position in `Sys`, and the timers queue there: what the thread does between two of the
positions of `Sys` has not happened yet. Before the top is read, it may be any. -/
def Point.Shows (l : EventLoop) (p : Point) (pc : Pc) (queue : List TimedJob) : Prop :=
  match p with
  | start => pc = .start ∧ queue = l.timersQueue
  | script => pc = .script ∧ queue = l.timersQueue
  | loopHead => pc = .loopHead ∧ queue = l.timersQueue
  | drainTest | drainFront => pc = .drain ∧ queue = l.timersQueue
  | build msg => pc = .build msg ∧ queue = l.timersQueue
  | timersTest | timersFront => pc = .runTimers ∧ queue = l.timersQueue
  | inTimer job | timersPop job => pc = .inTimer job ∧ queue = l.timersQueue
  | callbacksTest | callbacksFront => pc = .runCallbacks ∧ queue = l.timersQueue
  | inCallback job | callbacksPop job => pc = .inCallback job ∧ queue = l.timersQueue
  | heapTest | firstTop | nextTop =>
    (∃ head, Top heapLess l.heap head ∧ pc = .updateTimers head) ∧ queue = l.timersQueue
  | headTest head => pc = .updateTimers head ∧ queue = l.timersQueue
  | moveHead head => pc = .updateTimers (some head) ∧ queue = l.timersQueue
  | removeHead head => pc = .updateTimers (some head) ∧ queue ++ [head] = l.timersQueue

/-- The state with another position and timers queue. -/
def Sys.relocate (s : Sys) (pc : Pc) (queue : List TimedJob) : Sys :=
  { s with pc := pc, loop := { s.loop with timersQueue := queue } }

/-- The state in `Sys`. -/
def FineSys.sys (s : FineSys) (pc : Pc) (queue : List TimedJob) : Sys :=
  (s.at pc).relocate pc queue

/-- What other threads do depends on neither the position nor the timers queue, and the API is
called from JavaScript. -/
theorem Step.relocate {s s' : Sys} {l : Label} (h : Step s l s') (hl : l.isOther = true) {pc : Pc}
    (hjs : s.pc.inJs = true → pc.inJs = true) (queue : List TimedJob) :
    Step (s.relocate pc queue) l (s'.relocate pc queue) := by
  cases h with
  | tick h => exact .tick h
  | timerCall h hn => exact .timerCall (hjs h) hn
  | timerRegister hn => exact .timerRegister hn
  | timerInsert hn => exact .timerInsert hn
  | startWorker h hn => exact .startWorker (hjs h) hn
  | watchFile h hn => exact .watchFile (hjs h) hn
  | deliver ht htask => exact .deliver ht htask
  | post ht htask => exact .post ht htask
  | watcherChange ht => exact .watcherChange ht
  | watcherPost ht => exact .watcherPost ht
  | watcherStop ht => exact .watcherStop ht
  | _ => cases hl

/-- What a position shows is what it showed before other threads pushed. -/
theorem Point.Shows.of_pushes {p : Point} {s s' : Sys} (hs : Pushes s s')
    (hnative : s.native = .idle ∨ p.api.inJs = true) {pc : Pc} {queue : List TimedJob}
    (h : p.Shows s'.loop pc queue) : p.Shows s.loop pc queue := by
  have hidle : p.api.inJs = false → s.native = .idle := by
    intro hjs
    exact hnative.resolve_right (by simp [hjs])
  cases p with
  | heapTest | firstTop | nextTop =>
    unfold Shows at *
    rw [hs.heap (hidle rfl), hs.timersQueue] at h
    exact h
  | _ =>
    unfold Shows at *
    rw [hs.timersQueue] at h
    exact h

theorem Point.Shows.inJs {p : Point} {l : EventLoop} {pc : Pc} {queue : List TimedJob}
    (h : p.Shows l pc queue) : p.api.inJs = true → pc.inJs = true := by
  intro hjs
  cases p with
  | script | inTimer | inCallback =>
    rw [h.1]
    rfl
  | _ => cases hjs

/-- **The tests and accesses are those of the steps of `Sys`.** What a reached state shows is
reachable in `Sys`. -/
theorem FineSys.Reachable.sys {s : FineSys} (h : s.Reachable) {pc : Pc} {queue : List TimedJob}
    (hshows : s.point.Shows s.loop pc queue) : (s.sys pc queue).Reachable := by
  induction h generalizing pc queue with
  | start hs =>
    obtain ⟨ms, rfl⟩ := hs
    obtain ⟨rfl, rfl⟩ := hshows
    exact .start ⟨ms, rfl⟩
  | @tail s l s' hr hl ih =>
    have hc := Reachable.control hr
    have idle : ∀ {p : Point}, s.point = p → p.api.inJs = false → s.native = .idle := by
      rintro p rfl hjs
      exact hc.native.resolve_right (by simp [hjs])
    have before : ∀ {p : Point} {queue : List TimedJob} (pc : Pc), s.point = p →
        p.Shows s.loop pc queue → (s.sys pc queue).Reachable := by
      rintro p queue pc rfl h
      exact ih h
    cases hl with
    | other hl hpoint hstep =>
      rw [hpoint] at hshows
      have hbefore := Point.Shows.of_pushes (hstep.pushes hl) hc.native hshows
      exact (ih hbefore).tail (hstep.relocate hl hbefore.inJs queue)
    -- a step of `Sys`, from what the position before it shows
    | nextScript hp =>
      obtain ⟨rfl, rfl⟩ := hshows
      exact (before .start hp ⟨rfl, rfl⟩).tail (.nextScript rfl)
    | scriptReturn hp hn =>
      obtain ⟨rfl, rfl⟩ := hshows
      exact (before .script hp ⟨rfl, rfl⟩).tail (l := .jsReturn false) (.scriptReturn rfl hn)
    | enterLoop hp hstop =>
      obtain ⟨rfl, rfl⟩ := hshows
      exact (before .loopHead hp ⟨rfl, rfl⟩).tail (.enterLoop rfl hstop)
    | leaveLoop hp hstop =>
      obtain ⟨rfl, rfl⟩ := hshows
      exact (before .loopHead hp ⟨rfl, rfl⟩).tail (.leaveLoop rfl hstop)
    | drained hp hq =>
      obtain ⟨rfl, rfl⟩ := hshows
      exact (before .drain hp ⟨rfl, rfl⟩).tail (.drained rfl hq)
    | getFront hp hq =>
      obtain ⟨rfl, rfl⟩ := hshows
      exact (before .drain hp ⟨rfl, rfl⟩).tail (.getFront rfl hq)
    | @build msg args hp =>
      obtain ⟨rfl, rfl⟩ := hshows
      exact (before (.build msg) hp ⟨rfl, rfl⟩).tail (.build rfl)
    | timersDone hp hq =>
      obtain ⟨rfl, rfl⟩ := hshows
      exact (before .runTimers hp ⟨rfl, rfl⟩).tail (.timersDone rfl hq)
    | invokeTimer hp hq =>
      obtain ⟨rfl, rfl⟩ := hshows
      exact (before .runTimers hp ⟨rfl, rfl⟩).tail (.invokeTimer rfl hq)
    | @timerRemove job hp =>
      obtain ⟨rfl, rfl⟩ := hshows
      exact (before (.inTimer job) hp ⟨rfl, rfl⟩).tail (l := .jsReturn false)
        (.timerReturn rfl (idle hp rfl))
    | invokeCallback hp hq hargs =>
      obtain ⟨rfl, rfl⟩ := hshows
      exact (before .runCallbacks hp ⟨rfl, rfl⟩).tail (.invokeCallback rfl hq hargs)
    | @callbackRemove job hp =>
      obtain ⟨rfl, rfl⟩ := hshows
      exact (before (.inCallback job) hp ⟨rfl, rfl⟩).tail (l := .jsReturn false)
        (.callbackReturn rfl (idle hp rfl))
    | callbacksDone hp hq =>
      obtain ⟨⟨head, hhead, rfl⟩, rfl⟩ := hshows
      exact (before .runCallbacks hp ⟨rfl, rfl⟩).tail (.updateTime rfl hq hhead)
    | heapEmpty hp hq =>
      obtain ⟨rfl, rfl⟩ := hshows
      exact (before (.updateTimers none) hp ⟨⟨none, hq, rfl⟩, rfl⟩).tail
        (.updateDone rfl (by rintro _ ⟨⟩))
    | @headDone head hp hdue =>
      obtain ⟨rfl, rfl⟩ := hshows
      refine (before (.updateTimers head) hp ⟨rfl, rfl⟩).tail (.updateDone rfl ?_)
      have htop : Top heapLess s.loop.heap head := by simpa [hp, Point.Guarded] using hc.guarded
      rcases hdue with hempty | hdue
      · rintro job rfl
        rw [hempty] at htop
        cases htop.1
      · exact hdue
    | @removeJobFromTimersHeap head heap hp hpop =>
      obtain ⟨⟨next, hnext, rfl⟩, hqueue⟩ := hshows
      have hguard := hc.guarded
      rw [hp] at hguard
      obtain ⟨⟨-, hdue⟩, rest, hrest⟩ := hguard
      obtain rfl : queue = rest ++ [head] := hqueue.trans hrest
      exact (before (.updateTimers (some head)) hp ⟨rfl, hrest.symm⟩).tail
        (.moveTimer rfl hdue hpop hnext)
    -- a position inside a step of `Sys`
    | drainMore hp | timersMore hp | callbacksMore hp | timerReturn hp | callbackReturn hp =>
      obtain ⟨rfl, rfl⟩ := hshows
      exact before _ hp ⟨rfl, rfl⟩
    | heapMore hp => exact before _ hp hshows
    | @getTopTimer head hp hhead =>
      obtain ⟨rfl, rfl⟩ := hshows
      rcases hp with hp | hp <;> exact before _ hp ⟨⟨head, hhead, rfl⟩, rfl⟩
    | headDue hp hq hdue => exact before _ hp hshows
    | addTimedJob hp =>
      obtain ⟨rfl, hqueue⟩ := hshows
      exact before _ hp ⟨rfl, List.append_cancel_right hqueue⟩

/-! ## The last timer -/

/-- The step that is taken does not remove the last timer of the heap. -/
def FineSys.KeepsTimer (s : FineSys) : Prop :=
  ∀ head, s.point = .removeHead head → s.loop.heap.length ≠ 1

/-- A run of steps that keep a timer in the heap. -/
abbrev FineSys.ReachableKeeping : FineSys → Prop :=
  Transition.Reachable (fun s => ∃ ms, s = FineSys.initial ms)
    fun s l s' => FineStep s l s' ∧ (l = none → s.KeepsTimer)

theorem FineSys.ReachableKeeping.reachable {s : FineSys} (h : s.ReachableKeeping) : s.Reachable :=
  h.mono fun _ _ _ hl => hl.1

/-- In such a run the second reading of the top finds a timer. -/
theorem FineSys.ReachableKeeping.nextTop {s : FineSys} (h : s.ReachableKeeping) :
    s.point = .nextTop → s.loop.heap ≠ [] := by
  induction h with
  | start hs =>
    obtain ⟨ms, rfl⟩ := hs
    rintro ⟨⟩
  | @tail s l s' hr hl ih =>
    have hidle := (ReachableKeeping.reachable hr).control.native
    obtain ⟨hstep, hkeep⟩ := hl
    intro hp'
    cases hstep with
    | other hl hpoint hstep =>
      rw [hpoint] at hp'
      have hi : s.native = .idle := hidle.resolve_right (by simp [hp', Point.api, Pc.inJs])
      have hheap := (hstep.pushes hl).heap hi
      exact fun he => ih hp' (hheap.symm.trans he)
    | removeJobFromTimersHeap hp hpop =>
      rintro rfl
      exact hkeep rfl _ hp hpop.length
    | _ => cases hp'

/-- **No container is read or popped while empty, until the last timer is removed.** In every run
whose steps keep a timer in the heap at each removal of `updateTimers`, every access finds its
container not empty, and what is popped after a job has run is that job; and a step that removes
the last timer leads to an access that finds the heap empty. -/
theorem accesses_safe_iff (s : FineSys) :
    (s.ReachableKeeping → ∀ a, s.point.access = some a → a.Safe s.loop) ∧
      ∀ s', FineStep s none s' → ¬s.KeepsTimer →
        ¬∀ a, s'.point.access = some a → a.Safe s'.loop := by
  constructor
  · intro h a ha
    exact Access.safe_of_guarded h.reachable.control.guarded ha h.nextTop
  · intro s' hs hkeep hsafe
    simp only [FineSys.KeepsTimer, not_forall, not_not] at hkeep
    obtain ⟨head, hp, hlen⟩ := hkeep
    cases hs with
    | @removeJobFromTimersHeap _ heap hp' hpop =>
      have hone := hpop.length
      have hempty : heap.length = 0 := by omega
      exact hsafe .getTopTimer rfl (List.length_eq_zero_iff.1 hempty)
    | _ => simp_all

/-! ### A script with one timer -/

/-- The timer of a script that calls `setTimeOut(f, 0)`. -/
def onlyTimer : TimedJob := ⟨0, .user 0 0, [], 0, 0, 0, false⟩

/-- The loop when `updateTimers` has copied the timer to the queue. -/
def onlyTimerDue : FineSys where
  clock := 0
  loop := ((EventLoop.new 0).registerJob.addJobToTimersHeap onlyTimer).updateTime 0
    |>.addTimedJob onlyTimer
  point := .removeHead onlyTimer
  native := .idle
  threads := []
  nextId := 1
  log := [.registered onlyTimer.key, .timerCalled 0 0 0]

/-- A step from another position than the removal keeps the heap. -/
theorem FineSys.ReachableKeeping.step {s s' : FineSys} {l : Option Label}
    (h : s.ReachableKeeping) (hs : FineStep s l s')
    (hpoint : ∀ head, s.point ≠ .removeHead head := by rintro _ ⟨⟩) : s'.ReachableKeeping :=
  h.tail ⟨hs, fun _ head hp => absurd hp (hpoint head)⟩

theorem onlyTimerDue_reached : onlyTimerDue.ReachableKeeping := by
  have htop : Top heapLess [onlyTimer] (some onlyTimer) :=
    ⟨List.mem_singleton.2 rfl, by simp [heapLess, timedJobComparator]⟩
  let log : List Event := [.registered onlyTimer.key, .timerCalled 0 0 0]
  have hscript : FineSys.ReachableKeeping ⟨0, .new 0, .script, .idle, [], 0, []⟩ :=
    FineSys.ReachableKeeping.step (.start ⟨0, rfl⟩) (.nextScript rfl)
  have hcreated : FineSys.ReachableKeeping
      ⟨0, .new 0, .script, .created onlyTimer, [], 1, [.timerCalled 0 0 0]⟩ :=
    hscript.step (.other (l := .timerCall false (.user 0 0) [] 0) rfl rfl (.timerCall rfl rfl))
  have hregistered : FineSys.ReachableKeeping
      ⟨0, (EventLoop.new 0).registerJob, .script, .registered onlyTimer, [], 1, log⟩ :=
    hcreated.step (.other (l := .timerRegister) rfl rfl
      (Step.timerRegister (s := ⟨0, .new 0, .script, .created onlyTimer, [], 1, _⟩) rfl))
  have hinserted : FineSys.ReachableKeeping
      ⟨0, (EventLoop.new 0).registerJob.addJobToTimersHeap onlyTimer, .script, .idle, [], 1,
        log⟩ :=
    hregistered.step (.other (l := .timerInsert) rfl rfl (Step.timerInsert
      (s := ⟨0, (EventLoop.new 0).registerJob, .script, .registered onlyTimer, [], 1, log⟩) rfl))
  have hloop := (hinserted.step (.scriptReturn rfl rfl)).step (.enterLoop rfl rfl)
  have htest := ((hloop.step (.drained rfl rfl)).step (.timersDone rfl rfl)).step
    (.callbacksDone rfl rfl)
  have hhead := (htest.step (.heapMore rfl (List.cons_ne_nil _ _))).step
    (.getTopTimer (.inl rfl) htop)
  have hdue : onlyTimer.timeOut ≤ toTimeT 0 * 1000 := by decide
  exact (hhead.step (.headDue rfl (List.cons_ne_nil _ _) hdue)).step (.addTimedJob rfl)

/-- The removal of the timer finds it in the heap. -/
theorem accesses_safe_onlyTimer : Access.removeJobFromTimersHeap.Safe onlyTimerDue.loop :=
  (accesses_safe_iff onlyTimerDue).1 onlyTimerDue_reached _ rfl

/-- A script sets one timer, due at once: after it has been moved, `updateTimers` reads the top of
the empty heap. -/
theorem accesses_unsafe : ∃ s : FineSys, s.Reachable ∧
    ¬∀ a, s.point.access = some a → a.Safe s.loop := by
  have hpop : Pop heapLess [onlyTimer] onlyTimer [] :=
    ⟨.refl _, by simp [heapLess, timedJobComparator]⟩
  refine ⟨_, onlyTimerDue_reached.reachable.tail (.removeJobFromTimersHeap rfl hpop), ?_⟩
  intro hsafe
  exact hsafe .getTopTimer rfl rfl

end NanoJS
