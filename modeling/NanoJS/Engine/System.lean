import NanoJS.Engine.EventLoop
import NanoJS.Foundations.Transition

/-!
# The loop thread, the worker threads and their steps

The threads of the program over one `EventLoop`: the loop thread, which runs `App::Start`, and any
number of worker and watcher threads. Each operation on the shared loop state is one step, and
steps of different threads come in any order. The position of the loop thread (`Pc`) tells which
loop of `EventLoop::Run` it is in and which job's function it is executing; a function or a script
may call the API any number of times before it returns or throws. What a worker finds on disk is
left open here: a worker may deliver any result. `log` records, newest first, what the properties
speak of.
-/

namespace NanoJS

open PriorityQueue

/-! ## States -/

/-- Where the loop thread is. -/
inductive Pc
  /-- `App::Start`, before the next script. -/
  | start
  /-- `RunJsFromFile`. -/
  | script
  /-- `while (!this->shouldStop)` -/
  | loopHead
  /-- `while (!mQu->empty())` -/
  | drain
  /-- Between `getFront` and `msg->build()`. -/
  | build (msg : Message)
  /-- `while (!this->timersQueue->empty())` -/
  | runTimers
  /-- In the function of a timer job. -/
  | inTimer (job : TimedJob)
  /-- `while (!this->callbackQueue->empty())` -/
  | runCallbacks
  /-- In the function of a callback job. -/
  | inCallback (job : CallbackJob)
  /-- The loop of `updateTimers`, with its cached `head`. -/
  | updateTimers (head : Option TimedJob)

/-- The loop thread is executing JavaScript. -/
def Pc.inJs : Pc → Bool
  | .script | .inTimer _ | .inCallback _ => true
  | _ => false

/-- The message that has left `mQu` and is not built yet. -/
def Pc.taken : Pc → List Message
  | .build msg => [msg]
  | _ => []

/-- `setTimeOut` or `setInterval` in progress on the loop thread. -/
inductive Native
  | idle
  /-- The job exists; it is not registered. -/
  | created (job : TimedJob)
  /-- After `registerJob`, before `addJobToTimersHeap`. -/
  | registered (job : TimedJob)

/-- The timer that is registered and not yet in the heap. -/
def Native.inserting : Native → List TimedJob
  | .registered job => [job]
  | _ => []

/-- The other threads. -/
inductive Thread
  | worker (job : CallbackJob) (task : Task)
  | watcher (job : CallbackJob) (path : CString)
  /-- A watcher between the `registerJob` of a change and its `addMsgJob`. -/
  | posting (job : CallbackJob) (path : CString) (localJob : CallbackJob)

/-- The registered job that the thread has yet to deliver. -/
def Thread.carried : Thread → List CallbackJob
  | .worker job _ => [job]
  | .watcher _ _ => []
  | .posting _ _ localJob => [localJob]

/-- Whether the thread is a watcher, which holds a registration of its own. -/
def Thread.isWatcher : Thread → Bool
  | .worker _ _ => false
  | _ => true

/-- What a run has done. `registered` is a job's `registerJob`. -/
inductive Event
  | timerCalled (id clock : ℕ) (duration : ℤ)
  | registered (job : JobKey)
  | timerInvoked (job : TimedJob) (loopTime : ℤ) (clock : ℕ)
  | callbackInvoked (job : CallbackJob)

/-- The state of the process. -/
structure Sys where
  clock : ℕ
  loop : EventLoop
  pc : Pc
  native : Native
  threads : List Thread
  nextId : ℕ
  log : List Event

/-- After the constructor, at a clock that reads `ms`. -/
def Sys.initial (ms : ℕ) : Sys where
  clock := ms
  loop := .new ms
  pc := .start
  native := .idle
  threads := []
  nextId := 0
  log := []

def Sys.Init (s : Sys) : Prop := ∃ ms, s = Sys.initial ms

/-! ## Steps -/

/-- The operations, with the data the thread that performs them chooses or receives. -/
inductive Label
  | tick (t : ℕ)
  | nextScript
  | timerCall (isInterval : Bool) (func : Closure) (args : List Value) (duration : ℤ)
  | timerRegister
  | timerInsert
  | startWorker (func : Closure) (task : Task)
  | watchFile (func : Closure) (path : CString)
  | jsReturn (threw : Bool)
  | enterLoop
  | leaveLoop
  | getFront
  | build (args : List Value)
  | drained
  | invokeTimer
  | timersDone
  | invokeCallback
  | updateTime
  | moveTimer
  | updateDone
  | deliver (job : CallbackJob) (task : Task) (args : List Value)
  | post (job : CallbackJob) (task : Task) (objects : List ObjectProject)
  | watcherChange (job : CallbackJob) (path : CString)
  | watcherPost (localJob : CallbackJob) (objects : List ObjectProject)
  | watcherStop (job : CallbackJob) (path : CString)

/-- The job that `setTimeOut` and `setInterval` allocate, before its deadline is computed. -/
def newTimedJob (id clock : ℕ) (isInterval : Bool) (func : Closure) (args : List Value)
    (duration : ℤ) : TimedJob where
  id := id
  func := func
  args := args
  startTime := toTimeT clock
  timeOut := 0
  duration := duration
  isInterval := isInterval

/-- One operation of one thread. -/
inductive Step : Sys → Label → Sys → Prop
  -- the environment
  | tick {s t} (h : s.clock ≤ t) : Step s (.tick t) { s with clock := t }
  -- `App::Start`
  | nextScript {s} (hpc : s.pc = .start) : Step s .nextScript { s with pc := .script }
  -- the API, called from JavaScript
  | timerCall {s isInterval func args duration} (hjs : s.pc.inJs = true)
      (hn : s.native = .idle) :
      Step s (.timerCall isInterval func args duration)
        { s with
          native := .created (newTimedJob s.nextId s.clock isInterval func args duration)
          nextId := s.nextId + 1
          log := .timerCalled s.nextId s.clock duration :: s.log }
  | timerRegister {s job} (hn : s.native = .created job) :
      Step s .timerRegister
        { s with
          native := .registered
            { job with
              timeOut := timeT ((s.loop.updateTime s.clock).getLoopTime + job.duration) }
          loop := (s.loop.updateTime s.clock).registerJob
          log := .registered job.key :: s.log }
  | timerInsert {s job} (hn : s.native = .registered job) :
      Step s .timerInsert { s with native := .idle, loop := s.loop.addJobToTimersHeap job }
  | startWorker {s func task} (hjs : s.pc.inJs = true) (hn : s.native = .idle) :
      Step s (.startWorker func task)
        { s with
          loop := s.loop.registerJob
          threads := .worker ⟨s.nextId, func, none⟩ task :: s.threads
          nextId := s.nextId + 1
          log := .registered ⟨s.nextId, func, false⟩ :: s.log }
  | watchFile {s func path} (hjs : s.pc.inJs = true) (hn : s.native = .idle) :
      Step s (.watchFile func path)
        { s with
          loop := s.loop.registerJob
          threads := .watcher ⟨s.nextId, func, none⟩ path :: s.threads
          nextId := s.nextId + 1 }
  -- a script, or the function of a job, returns or throws
  | scriptReturn {s threw} (hpc : s.pc = .script) (hn : s.native = .idle) :
      Step s (.jsReturn threw) { s with pc := .loopHead }
  | timerReturn {s threw job} (hpc : s.pc = .inTimer job) (hn : s.native = .idle) :
      Step s (.jsReturn threw)
        { s with pc := .runTimers, loop := s.loop.removeJob (.timed job) }
  | callbackReturn {s threw job} (hpc : s.pc = .inCallback job) (hn : s.native = .idle) :
      Step s (.jsReturn threw)
        { s with pc := .runCallbacks, loop := s.loop.removeJob (.callback job) }
  -- `EventLoop::Run`
  | enterLoop {s} (hpc : s.pc = .loopHead) (hstop : s.loop.shouldStop = false) :
      Step s .enterLoop { s with pc := .drain }
  | leaveLoop {s} (hpc : s.pc = .loopHead) (hstop : s.loop.shouldStop = true) :
      Step s .leaveLoop { s with pc := .start }
  | getFront {s msg rest} (hpc : s.pc = .drain) (hq : s.loop.mQu = msg :: rest) :
      Step s .getFront { s with pc := .build msg, loop := { s.loop with mQu := rest } }
  | build {s msg args} (hpc : s.pc = .build msg) :
      Step s (.build args)
        { s with
          pc := .drain
          loop := s.loop.addCallbackJob { msg.job with args := some args } }
  | drained {s} (hpc : s.pc = .drain) (hq : s.loop.mQu = []) :
      Step s .drained { s with pc := .runTimers }
  -- `EventLoop::runTimers`
  | invokeTimer {s job rest} (hpc : s.pc = .runTimers) (hq : s.loop.timersQueue = job :: rest) :
      Step s .invokeTimer
        { s with
          pc := .inTimer job
          log := .timerInvoked job s.loop.getLoopTime s.clock :: s.log }
  | timersDone {s} (hpc : s.pc = .runTimers) (hq : s.loop.timersQueue = []) :
      Step s .timersDone { s with pc := .runCallbacks }
  -- `EventLoop::runCallbacks`; `runJob` reads the size of the argument vector
  | invokeCallback {s job rest args} (hpc : s.pc = .runCallbacks)
      (hq : s.loop.callbackQueue = job :: rest) (hargs : job.args = some args) :
      Step s .invokeCallback
        { s with pc := .inCallback job, log := .callbackInvoked job :: s.log }
  -- `EventLoop::updateTimers`
  | updateTime {s head} (hpc : s.pc = .runCallbacks) (hq : s.loop.callbackQueue = [])
      (hhead : Top heapLess s.loop.heap head) :
      Step s .updateTime
        { s with pc := .updateTimers head, loop := s.loop.updateTime s.clock }
  | moveTimer {s job heap head} (hpc : s.pc = .updateTimers (some job))
      (hdue : job.timeOut ≤ s.loop.getLoopTime) (hpop : Pop heapLess s.loop.heap job heap)
      (hhead : Top heapLess heap head) :
      Step s .moveTimer
        { s with pc := .updateTimers head, loop := { s.loop.addTimedJob job with heap := heap } }
  | updateDone {s head} (hpc : s.pc = .updateTimers head)
      (hdue : ∀ job, head = some job → s.loop.getLoopTime < job.timeOut) :
      Step s .updateDone { s with pc := .loopHead }
  -- the worker threads
  | deliver {s job task args pre post} (ht : s.threads = pre ++ .worker job task :: post)
      (htask : task.posts = false) :
      Step s (.deliver job task args)
        { s with
          threads := pre ++ post
          loop := s.loop.addCallbackJob { job with args := some args } }
  | post {s job task objects pre post} (ht : s.threads = pre ++ .worker job task :: post)
      (htask : task.posts = true) :
      Step s (.post job task objects)
        { s with threads := pre ++ post, loop := s.loop.addMsgJob ⟨job, objects⟩ }
  -- the watcher threads
  | watcherChange {s job path pre post} (ht : s.threads = pre ++ .watcher job path :: post) :
      Step s (.watcherChange job path)
        { s with
          threads := pre ++ .posting job path ⟨s.nextId, job.func, none⟩ :: post
          loop := s.loop.registerJob
          nextId := s.nextId + 1
          log := .registered ⟨s.nextId, job.func, false⟩ :: s.log }
  | watcherPost {s job path localJob objects pre post}
      (ht : s.threads = pre ++ .posting job path localJob :: post) :
      Step s (.watcherPost localJob objects)
        { s with
          threads := pre ++ .watcher job path :: post
          loop := s.loop.addMsgJob ⟨localJob, objects⟩ }
  | watcherStop {s job path pre post} (ht : s.threads = pre ++ .watcher job path :: post) :
      Step s (.watcherStop job path)
        { s with threads := pre ++ post, loop := s.loop.withdrawJob }

/-- The states that a run of the process reaches. -/
abbrev Sys.Reachable : Sys → Prop := Transition.Reachable Sys.Init Step

/-- Steps of the process, one after the other. -/
abbrev Sys.Steps : Sys → Sys → Prop := Relation.ReflTransGen fun s s' => ∃ l, Step s l s'

theorem Sys.Steps.reachable {s s' : Sys} (h : s.Steps s') (hr : s.Reachable) : s'.Reachable := by
  induction h with
  | refl => exact hr
  | tail _ hl ih =>
    obtain ⟨l, hl⟩ := hl
    exact ih.tail hl

end NanoJS
