import NanoJS.Foundations.PriorityQueue
import NanoJS.Js.Values

/-!
# The event loop's data and operations

`engine/EventLoop.hpp` and `EventLoop.cpp`: the jobs, the messages that worker threads post, and
the methods of `EventLoop` as functions of its state. A job that is allocated gets an identity
(`id`) that no other job has, which stands for its address. The heap is a priority queue up to its
layout; the other containers are queues, front first. `jobCount` is an integer: no run that fits in
memory takes it to 2^31. The deadlines are sums in `time_t`, which wrap around (`timeT`); the loop
time itself is the clock's, and needs no wrapping.
-/

namespace NanoJS

/-! ## Jobs and messages -/

/-- `callbackJob`. The argument vector is null until the operation has completed. -/
structure CallbackJob where
  id : ℕ
  func : Closure
  args : Option (List Value)
  deriving DecidableEq

/-- `TimedJob`. -/
structure TimedJob where
  id : ℕ
  func : Closure
  args : List Value
  startTime : ℤ
  timeOut : ℤ
  duration : ℤ
  isInterval : Bool
  deriving DecidableEq

/-- `Job`, with the class that `dynamic_cast` finds. -/
inductive Job
  | callback (job : CallbackJob)
  | timed (job : TimedJob)

/-- What tells one job from another: its identity, the function it was created with and whether it
is an interval. -/
structure JobKey where
  id : ℕ
  func : Closure
  isInterval : Bool
  deriving DecidableEq

def CallbackJob.key (job : CallbackJob) : JobKey := ⟨job.id, job.func, false⟩

def TimedJob.key (job : TimedJob) : JobKey := ⟨job.id, job.func, job.isInterval⟩

/-- What a `value` holds: the `std::any` that `setValue` made. -/
inductive AnyValue
  | int (v : ℤ)
  | string (s : CString)
  | double (d : Number)
  | bool (b : Bool)
  deriving DecidableEq

/-- `objectProject`: the names and type tags of an object's properties, and their values. -/
structure ObjectProject where
  property : List (String × String)
  values : List AnyValue
  deriving DecidableEq

/-- `message`. -/
structure Message where
  job : CallbackJob
  objects : List ObjectProject
  deriving DecidableEq

/-- What a worker thread was started on: the path, the base address of the backing store
(as the store) and the rest of the arguments of `readAsync`, `writeAsync` and `statsAsync`. -/
inductive Task
  | read (path : CString) (data : ℕ) (offset length position : ℤ)
  | write (path : CString) (data : ℕ) (length : ℤ) (mode : Bool)
  | stat (path : CString)
  deriving DecidableEq

/-- The worker delivers a message (`statsAsync`), not a finished job. -/
def Task.posts : Task → Bool
  | .stat _ => true
  | _ => false

/-- `TimedJobComparator::operator()`. -/
def timedJobComparator (job1 job2 : TimedJob) : Bool :=
  if job1.timeOut > job2.timeOut then true
  else if job1.timeOut = job2.timeOut then decide (job1.startTime < job2.startTime)
  else false

/-- The order of the heap: the priority queue shows an element that is not below another. -/
def heapLess (job1 job2 : TimedJob) : Prop := timedJobComparator job1 job2 = true

theorem heapLess_of_timeOut_lt (a b : TimedJob) (h : b.timeOut < a.timeOut) : heapLess a b := by
  simp [heapLess, timedJobComparator, h]

/-! ## The loop -/

/-- `EventLoop`. -/
structure EventLoop where
  jobCount : ℤ
  shouldStop : Bool
  currentTime : ℤ
  heap : List TimedJob
  callbackQueue : List CallbackJob
  timersQueue : List TimedJob
  mQu : List Message

/-- `to_time_t` of a clock that reads `ms` milliseconds: its whole seconds. -/
def toTimeT (ms : ℕ) : ℤ := ((ms / 1000 : ℕ) : ℤ)

/-- What a `time_t`, a signed integer of 64 bits, keeps of a sum. -/
def timeT (t : ℤ) : ℤ := t.bmod (2 ^ 64)

/-- The sum fits in a `time_t`. -/
def InTimeT (t : ℤ) : Prop := -2 ^ 63 ≤ t ∧ t < 2 ^ 63

instance (t : ℤ) : Decidable (InTimeT t) := inferInstanceAs (Decidable (_ ∧ _))

theorem InTimeT.timeT_eq {t : ℤ} (h : InTimeT t) : timeT t = t :=
  Int.bmod_eq_of_le (by have := h.1; omega) (by have := h.2; omega)

/-- A sum that does not fit has wrapped around. -/
theorem timeT_le_of_le {t : ℤ} (h : 2 ^ 63 ≤ t) : timeT t ≤ t - 2 ^ 64 := by
  rw [timeT, Int.bmod_def]
  omega

namespace EventLoop

/-- The constructor, at a clock that reads `ms`. -/
def new (ms : ℕ) : EventLoop where
  jobCount := 0
  shouldStop := true
  currentTime := toTimeT ms * 1000
  heap := []
  callbackQueue := []
  timersQueue := []
  mQu := []

variable (l : EventLoop)

def addCallbackJob (job : CallbackJob) : EventLoop :=
  { l with callbackQueue := l.callbackQueue ++ [job] }

def addTimedJob (job : TimedJob) : EventLoop := { l with timersQueue := l.timersQueue ++ [job] }

def addMsgJob (msg : Message) : EventLoop := { l with mQu := l.mQu ++ [msg] }

def addJobToTimersHeap (job : TimedJob) : EventLoop := { l with heap := job :: l.heap }

def getLoopTime : ℤ := l.currentTime

def updateTime (ms : ℕ) : EventLoop := { l with currentTime := toTimeT ms * 1000 }

def registerJob : EventLoop := { l with jobCount := l.jobCount + 1, shouldStop := false }

def withdrawJob : EventLoop :=
  { l with
    jobCount := l.jobCount - 1
    shouldStop := if l.jobCount - 1 = 0 then true else l.shouldStop }

/-- `removeJob`. It pops the front of a queue, whichever job it is given; an interval goes back to
the heap instead of being deleted. -/
def removeJob : Job → EventLoop
  | .callback _ => { l with callbackQueue := l.callbackQueue.tail }.withdrawJob
  | .timed job =>
    let l' := { l with timersQueue := l.timersQueue.tail }
    if job.isInterval then
      l'.addJobToTimersHeap { job with timeOut := timeT (job.duration + l'.getLoopTime) }
    else l'.withdrawJob

theorem removeJob_interval {job : TimedJob} (h : job.isInterval = true) :
    l.removeJob (.timed job) = { l with
      timersQueue := l.timersQueue.tail
      heap := { job with timeOut := timeT (job.duration + l.currentTime) } :: l.heap } :=
  if_pos h

end EventLoop

end NanoJS
