import NanoJS.Engine.Progress
import NanoJS.Files.World

/-!
# Jobs as tokens

A callback job on its way is a token: its function, and how far it has come (`Place`). The tokens
of a state are those of the threads, of the messages and of the callback queue, less the job whose
function is being executed. A step takes tokens and gives others, as its label says, and leaves
the rest (`Step.exchange`).
-/

namespace NanoJS

open List

/-! ## Tokens -/

/-- How far a job has come. -/
inductive Place
  /-- With a watcher. -/
  | watching
  /-- With a thread that is to do its task. -/
  | running (task : Task)
  /-- In a message. -/
  | posted (objects : List ObjectProject)
  /-- In the callback queue. -/
  | ready (args : Option (List Value))
  deriving DecidableEq

/-- A job on its way. -/
structure Token where
  func : Closure
  place : Place
  deriving DecidableEq

/-- The API call whose callback the job leads to. -/
def Token.call (t : Token) : ℕ := t.func.call

def CallbackJob.token (job : CallbackJob) : Token := ⟨job.func, .ready job.args⟩

def Message.token (msg : Message) : Token := ⟨msg.job.func, .posted msg.objects⟩

def Thread.tokens : Thread → List Token
  | .worker job task => [⟨job.func, .running task⟩]
  | .watcher job _ => [⟨job.func, .watching⟩]
  | .posting job _ localJob => [⟨job.func, .watching⟩, ⟨localJob.func, .watching⟩]

/-- The tokens of the loop. -/
def Sys.loopTokens (s : Sys) : List Token :=
  s.pc.taken.map Message.token ++ s.loop.mQu.map Message.token ++
    (s.pc.queued s.loop.callbackQueue).map CallbackJob.token

def Sys.tokens (s : Sys) : List Token := s.threads.flatMap Thread.tokens ++ s.loopTokens

/-- The job that the arrow function of `Files.readFile` is about to start. -/
def Frame.tokens : Frame → List Token
  | .arrow callback task => [⟨callback, .running task⟩]
  | _ => []

def World.tokens (w : World) : List Token := w.frame.tokens ++ w.sys.tokens

/-! ## Exchanges -/

/-- The tokens that a step takes. -/
def Label.takes (s : Sys) : Label → List Token
  | .invokeCallback => (s.loop.callbackQueue.take 1).map CallbackJob.token
  | .build _ => s.pc.taken.map Message.token
  | .deliver job task _ | .post job task _ => [⟨job.func, .running task⟩]
  | .watcherChange job _ | .watcherStop job _ => [⟨job.func, .watching⟩]
  | .watcherPost job _ => [⟨job.func, .watching⟩]
  | _ => []

/-- The tokens that a step gives. -/
def Label.gives (s : Sys) : Label → List Token
  | .startWorker func task => [⟨func, .running task⟩]
  | .watchFile func _ => [⟨func, .watching⟩]
  | .build args => s.pc.taken.map fun msg => ⟨msg.job.func, .ready (some args)⟩
  | .deliver job _ args => [⟨job.func, .ready (some args)⟩]
  | .post job _ objects => [⟨job.func, .posted objects⟩]
  | .watcherChange job _ => [⟨job.func, .watching⟩, ⟨job.func, .watching⟩]
  | .watcherPost job objects => [⟨job.func, .posted objects⟩]
  | _ => []

/-- Calling the function of the job in front takes it. -/
theorem Label.takes_invokeCallback {s : Sys} {job : CallbackJob} {rest : List CallbackJob}
    {args : List Value} (hq : s.loop.callbackQueue = job :: rest) (hargs : job.args = some args) :
    Label.invokeCallback.takes s = [⟨job.func, .ready (some args)⟩] := by
  simp only [takes, hq, take_succ_cons, take_zero, map_cons, map_nil, CallbackJob.token, hargs]

theorem Label.takes_build {s : Sys} {msg : Message} (hpc : s.pc = .build msg)
    (args : List Value) : (Label.build args).takes s = [msg.token] := by
  simp only [takes, hpc, Pc.taken, map_cons, map_nil]

theorem Label.gives_build {s : Sys} {msg : Message} (hpc : s.pc = .build msg)
    (args : List Value) : (Label.build args).gives s = [⟨msg.job.func, .ready (some args)⟩] := by
  simp only [gives, hpc, Pc.taken, map_cons, map_nil]

/-- **A step takes and gives the tokens that its label says, and leaves the rest.** -/
theorem Step.exchange {s s' : Sys} {l : Label} (h : Step s l s') (hf : s.Control) :
    ∃ rest, s.tokens.Perm (l.takes s ++ rest) ∧ s'.tokens.Perm (l.gives s ++ rest) := by
  cases h with
  | tick h | timerCall hjs hn | timerRegister hn | timerInsert hn => exact ⟨_, .refl _, .refl _⟩
  | nextScript hpc | scriptReturn hpc | enterLoop hpc | leaveLoop hpc | drained hpc
  | timersDone hpc | updateTime hpc | updateDone hpc | invokeTimer hpc | timerReturn hpc
  | moveTimer hpc | callbackReturn hpc =>
    refine ⟨_, .refl _, .of_eq ?_⟩
    simp [Sys.tokens, Sys.loopTokens, Label.gives, hpc, Pc.taken, Pc.queued, EventLoop.updateTime,
      EventLoop.removeJob, EventLoop.addJobToTimersHeap, EventLoop.withdrawJob,
      EventLoop.addTimedJob]
    try split <;> rfl
  | startWorker hjs hn | watchFile hjs hn =>
    refine ⟨_, .refl _, .of_eq ?_⟩
    simp [Sys.tokens, Sys.loopTokens, Label.gives, Thread.tokens, EventLoop.registerJob]
  | getFront hpc hq =>
    refine ⟨s.tokens, .refl _, perm_iff_count.2 fun t => ?_⟩
    simp only [Sys.tokens, Sys.loopTokens, Label.gives, hpc, hq, Pc.taken, Pc.queued, map_cons,
      map_nil, nil_append, count_append, count_cons, count_nil]
    omega
  | build hpc =>
    refine ⟨s.threads.flatMap Thread.tokens ++ s.loop.mQu.map Message.token ++
      s.loop.callbackQueue.map CallbackJob.token, perm_iff_count.2 fun t => ?_,
      perm_iff_count.2 fun t => ?_⟩ <;>
    simp only [Sys.tokens, Sys.loopTokens, Label.gives, Label.takes, hpc, Pc.taken, Pc.queued,
      CallbackJob.token, EventLoop.addCallbackJob, map_append, map_cons, map_nil, count_append,
      count_cons, count_nil] <;>
    omega
  | invokeCallback hpc hq hargs =>
    refine ⟨_, perm_iff_count.2 fun t => ?_, .of_eq (nil_append _).symm⟩
    simp only [Sys.tokens, Sys.loopTokens, Label.takes, hpc, hq, Pc.taken, Pc.queued, tail_cons,
      take_succ_cons, take_zero, map_cons, map_nil, count_append, count_cons, count_nil]
    omega
  | @deliver job task args pre post ht htask =>
    refine ⟨(pre ++ post).flatMap Thread.tokens ++ s.loopTokens, perm_iff_count.2 fun t => ?_,
      perm_iff_count.2 fun t => ?_⟩ <;>
    simp only [Sys.tokens, Sys.loopTokens, Label.gives, Label.takes, Thread.tokens,
      CallbackJob.token, ht, EventLoop.addCallbackJob, hf.queued_append, flatMap_append,
      flatMap_cons, map_append, map_cons, map_nil, count_append, count_cons, count_nil] <;>
    omega
  | @post job task objects pre post ht htask =>
    refine ⟨(pre ++ post).flatMap Thread.tokens ++ s.loopTokens, perm_iff_count.2 fun t => ?_,
      perm_iff_count.2 fun t => ?_⟩ <;>
    simp only [Sys.tokens, Sys.loopTokens, Label.gives, Label.takes, Thread.tokens, Message.token,
      ht, EventLoop.addMsgJob, flatMap_append, flatMap_cons, map_append, map_cons, map_nil,
      count_append, count_cons, count_nil] <;>
    omega
  | @watcherChange job path pre post ht =>
    refine ⟨(pre ++ post).flatMap Thread.tokens ++ s.loopTokens, perm_iff_count.2 fun t => ?_,
      perm_iff_count.2 fun t => ?_⟩ <;>
    simp only [Sys.tokens, Sys.loopTokens, Label.gives, Label.takes, Thread.tokens, ht,
      EventLoop.registerJob, flatMap_append, flatMap_cons, count_append, count_cons,
      count_nil] <;>
    omega
  | @watcherPost job path localJob objects pre post ht =>
    refine ⟨⟨job.func, .watching⟩ :: (pre ++ post).flatMap Thread.tokens ++ s.loopTokens,
      perm_iff_count.2 fun t => ?_, perm_iff_count.2 fun t => ?_⟩ <;>
    simp only [Sys.tokens, Sys.loopTokens, Label.gives, Label.takes, Thread.tokens, Message.token,
      ht, EventLoop.addMsgJob, flatMap_append, flatMap_cons, map_append, map_cons, map_nil,
      cons_append, count_append, count_cons, count_nil] <;>
    omega
  | @watcherStop job path pre post ht =>
    refine ⟨(pre ++ post).flatMap Thread.tokens ++ s.loopTokens, perm_iff_count.2 fun t => ?_,
      .refl _⟩
    simp only [Sys.tokens, Label.takes, Thread.tokens, ht, flatMap_append, flatMap_cons,
      count_append, count_cons, count_nil]
    omega

end NanoJS
