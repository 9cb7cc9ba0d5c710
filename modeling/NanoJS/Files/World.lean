import NanoJS.Buffers.Encoding
import NanoJS.Engine.Delivery
import NanoJS.Files.Wrappers

/-!
# A program with files

The process as a whole: the threads of `Sys` over the realm of the program and over the files. The
program calls the API of `fs` and `Files` with a callback; a thread works on the file it finds when
it hands over its result, in one step; the loop builds messages and calls function values, which
are the user's callbacks or the closures of `App.js`. Each step of the engine is the step of `Sys`
with the data that this code computes, so what holds of the reachable states of `Sys` holds here
(`World.Reachable.sys`). The program writes only to stores that it has a view of.

Two things are idealised. A thread opens, reads or writes, and closes its file in one step, so the
runs are those in which nothing else happens to a file between the moments at which a thread opens
and closes it; `files_apart` derives this from steps of their own. And stores are never freed: the
native functions keep no reference to the array of which a thread has the address, so the runs are
those in which no array is collected before the thread that works on it has finished.
-/

namespace NanoJS

/-! ## Calls of the API -/

/-- A call that takes a callback, without the callback. An options object is one `Option`. -/
inductive ApiCall
  | readFileAsync (path : JSString) (array : View) (options : ReadOptions)
  | writeFileAsync (path : JSString) (data : View) (flag : JSString)
  | getStatsAsync (path : JSString)
  | read (path : JSString) (buffer : View) (options : Option ReadOptions)
  | write (path : JSString) (data : WriteData)
      (options : Option (Option JSString × Option JSString))
  | readFile (path : JSString)
  /-- A call with arguments that the function does not take. -/
  | misused (misuse : Misuse)

namespace ApiCall

/-- The third argument of `Files.read`. -/
def readArgument (options : Option ReadOptions) (callback : Closure) : ReadArgument :=
  match options with
  | none => .callback callback
  | some options => .options options (some callback)

/-- The third argument of `Files.write`. -/
def writeArgument (options : Option (Option JSString × Option JSString)) (callback : Closure) :
    WriteArgument :=
  match options with
  | none => .callback callback
  | some (encoding, flag) => .options encoding flag callback

/-- What the call registers a job for: the job's function, and the task of its thread. -/
def perform (v8 : V8) (callback : Closure) : ApiCall → JS (Closure × Task)
  | readFileAsync path array options =>
    return (callback, NanoJS.readFileAsync v8 path array options)
  | writeFileAsync path data flag => return (callback, NanoJS.writeFileAsync v8 path data flag)
  | getStatsAsync path => return (callback, NanoJS.getStatsAsync v8 path)
  | read path buffer options => do
    let request ← ofExcept (filesRead path buffer (readArgument options callback))
    return (request.callback, request.task v8)
  | write path data options => do
    let request ← filesWrite v8 path data (writeArgument options callback)
    return (request.callback, request.task v8)
  | readFile path => return filesReadFile v8 path callback
  | misused misuse => throw misuse.error

/-- The views among the arguments. -/
def views : ApiCall → List View
  | readFileAsync _ view _ | writeFileAsync _ view _ | read _ view _ => [view]
  | write _ (.arrayLike (.view view)) _ => [view]
  | _ => []

end ApiCall

/-- The path that the thread opens. -/
def Task.path : Task → CString
  | .read path .. | .write path .. | .stat path => path

/-! ## States -/

/-- Which JavaScript the loop thread executes, when it does. -/
inductive Frame
  /-- The user's program. -/
  | program
  /-- The arrow function of `Files.readFile`, at its call of `fs.readFileAsync`. -/
  | arrow (callback : Closure) (task : Task)
  /-- The arrow function, behind that call or with an exception. -/
  | leaving (threw : Bool)
  deriving DecidableEq

/-- What a run does with the calls of the API, which are numbered. -/
inductive FileEvent
  /-- The program made the call, and it started a thread or did not return. -/
  | requested (call : ℕ) (api : ApiCall) (accepted : Bool)
  /-- A thread did its task against the file as it was. -/
  | observed (call : ℕ) (task : Task) (node : FileNode)
  /-- The user's callback was called. -/
  | called (call : ℕ) (args : List Value) (mem : ByteMemory.Mem)
  /-- A closure of `App.js` threw instead of calling it. -/
  | lost (call : ℕ) (error : JSError)

def FileEvent.call : FileEvent → ℕ
  | requested call .. | observed call .. | called call .. | lost call .. => call

/-- The state of the process. `stores` are those that the program has a view of. -/
structure World where
  sys : Sys
  realm : Realm
  fs : CString → FileNode
  stores : List ℕ
  frame : Frame
  nextCall : ℕ
  log : List FileEvent

/-- At the start: `App.js` has been loaded, over any memory and any files. -/
def World.Init (w : World) : Prop :=
  ∃ ms mem fs, w = ⟨Sys.initial ms, Realm.load mem, fs, [], .program, 0, []⟩

/-- The user's program is running. -/
structure World.InProgram (w : World) : Prop where
  inJs : w.sys.pc.inJs = true
  native : w.sys.native = .idle
  frame : w.frame = .program

/-- The stores of the views that a value gives access to. -/
def Value.stores : Value → List ℕ
  | .buffer view => [view.store]
  | _ => []

/-! ## Steps -/

/-- The steps of the engine that touch neither the realm nor a file. -/
def Label.passive : Label → Bool
  | .timerCall .. | .startWorker .. | .watchFile .. | .jsReturn _ | .build _ | .invokeCallback
  | .deliver .. | .post .. => false
  | _ => true

/-- The function passed to `setTimeOut`, `setInterval` or `watchFile`. -/
def Label.function? : Label → Option Closure
  | .timerCall _ func _ _ | .watchFile func _ => some func
  | _ => none

/-- What happens in a step. -/
inductive Action
  /-- The environment changes a file. -/
  | file (path : CString) (node : FileNode)
  /-- The program works on its buffers. -/
  | buffer (op : RealmOp)
  /-- The program calls `setTimeOut`, `setInterval` or `watchFile`. -/
  | program (l : Label)
  /-- The program calls another function of the API. -/
  | request (fn : ℕ) (api : ApiCall)
  /-- A thread of the engine makes a step. -/
  | engine (l : Label)

variable (v8 : V8)

inductive World.Step : World → Action → World → Prop
  | file {w path node} :
      Step w (.file path node) { w with fs := Function.update w.fs path node }
  -- the user's program
  | bufferFrom {w} (call : FromCall) (hp : w.InProgram) :
      Step w (.buffer (.bufferFrom call))
        { w with
          realm := (fromStep v8 w.realm call).2
          stores := (fromStep v8 w.realm call).1.map View.store ++ w.stores }
  | allocate {w zeroFill length view r'} (hp : w.InProgram)
      (h : (newFastBuffer zeroFill length).run w.realm = .ok view r') :
      Step w (.buffer (.allocate zeroFill length))
        { w with realm := r', stores := view.store :: w.stores }
  | write {w store a byte} (hp : w.InProgram) (hs : store ∈ w.stores) :
      Step w (.buffer (.write store a byte))
        { w with realm := { w.realm with mem := ByteMemory.blit w.realm.mem store a [byte] } }
  | program {w l fn s'} (hp : w.InProgram) (hl : l.function? = some (.user fn w.nextCall))
      (hs : NanoJS.Step w.sys l s') :
      Step w (.program l) { w with sys := s', nextCall := w.nextCall + 1 }
  | request {w fn api func task r' s'} (hp : w.InProgram)
      (hviews : ∀ view ∈ api.views, view.store ∈ w.stores)
      (h : (api.perform v8 (.user fn w.nextCall)).run w.realm = .ok (func, task) r')
      (hs : NanoJS.Step w.sys (.startWorker func task) s') :
      Step w (.request fn api)
        { w with
          sys := s'
          realm := r'
          nextCall := w.nextCall + 1
          log := .requested w.nextCall api true :: w.log }
  -- where the behaviour is undefined, a run that goes on from here goes on as after an exception
  | refuse {w fn api e r'} (hp : w.InProgram)
      (hviews : ∀ view ∈ api.views, view.store ∈ w.stores)
      (h : (api.perform v8 (.user fn w.nextCall)).run w.realm = .error e r') :
      Step w (.request fn api)
        { w with
          realm := r'
          nextCall := w.nextCall + 1
          log := .requested w.nextCall api false :: w.log }
  -- the arrow function of `Files.readFile`
  | arrow {w callback task s'} (hf : w.frame = .arrow callback task)
      (hs : NanoJS.Step w.sys (.startWorker callback task) s') :
      Step w (.engine (.startWorker callback task)) { w with sys := s', frame := .leaving false }
  -- a script, or the function of a job, returns or throws
  | jsReturn {w threw s'} (hf : w.frame = .program ∨ w.frame = .leaving threw)
      (hs : NanoJS.Step w.sys (.jsReturn threw) s') :
      Step w (.engine (.jsReturn threw)) { w with sys := s', frame := .program }
  -- the loop thread
  | passive {w l s'} (hl : l.passive = true) (hs : NanoJS.Step w.sys l s') :
      Step w (.engine l) { w with sys := s' }
  | build {w msg s'} (hpc : w.sys.pc = .build msg)
      (hs : NanoJS.Step w.sys (.build (msg.build v8)) s') :
      Step w (.engine (.build (msg.build v8))) { w with sys := s' }
  | invoke {w job rest args fn call args' r' s'} (hq : w.sys.loop.callbackQueue = job :: rest)
      (hargs : job.args = some args)
      (happly : (job.func.apply v8 args).run w.realm = .ok (.call fn call args') r')
      (hs : NanoJS.Step w.sys .invokeCallback s') :
      Step w (.engine .invokeCallback)
        { w with
          sys := s'
          realm := r'
          stores := args'.flatMap Value.stores ++ w.stores
          log := .called call args' r'.mem :: w.log }
  | invokeArrow {w job rest args callback task r' s'}
      (hq : w.sys.loop.callbackQueue = job :: rest) (hargs : job.args = some args)
      (happly : (job.func.apply v8 args).run w.realm = .ok (.start callback task) r')
      (hs : NanoJS.Step w.sys .invokeCallback s') :
      Step w (.engine .invokeCallback)
        { w with sys := s', realm := r', frame := .arrow callback task }
  | invokeThrow {w job rest args e r' s'} (hq : w.sys.loop.callbackQueue = job :: rest)
      (hargs : job.args = some args)
      (happly : (job.func.apply v8 args).run w.realm = .error e r')
      (hs : NanoJS.Step w.sys .invokeCallback s') :
      Step w (.engine .invokeCallback)
        { w with
          sys := s'
          realm := r'
          frame := .leaving true
          log := .lost job.func.call e :: w.log }
  -- the worker threads; between opening and closing the file nothing else happens to it
  | deliver {w job task told mem' node' args s'}
      (htask : task.execute (w.fs task.path) told w.realm.mem = (mem', node', args))
      (hs : NanoJS.Step w.sys (.deliver job task args) s') :
      Step w (.engine (.deliver job task args))
        { w with
          sys := s'
          realm := { w.realm with mem := mem' }
          fs := Function.update w.fs task.path node'
          log := .observed job.func.call task (w.fs task.path) :: w.log }
  | post {w job task s'}
      (hs : NanoJS.Step w.sys (.post job task (statsAsync (w.fs task.path))) s') :
      Step w (.engine (.post job task (statsAsync (w.fs task.path))))
        { w with
          sys := s'
          log := .observed job.func.call task (w.fs task.path) :: w.log }

/-- The states that a run of the process reaches. -/
abbrev World.Reachable : World → Prop := Transition.Reachable World.Init (World.Step v8)

variable {v8}

/-! ## The engine in the process -/

/-- A step of the process is a step of the engine, or does not touch it. -/
theorem World.Step.sys {w w' : World} {a : Action} (h : World.Step v8 w a w') :
    w'.sys = w.sys ∨ ∃ l, NanoJS.Step w.sys l w'.sys := by
  cases h with
  | file | bufferFrom | allocate | write | refuse => exact .inl rfl
  | program hp hl hs | request hp hviews h hs | arrow hf hs | jsReturn hf hs | passive hl hs
  | build hpc hs | invoke hq hargs happly hs | invokeArrow hq hargs happly hs
  | invokeThrow hq hargs happly hs | deliver htask hs | post hs => exact .inr ⟨_, hs⟩

/-- **The engine of a reachable process is a reachable engine.** -/
theorem World.Reachable.sys {w : World} (h : World.Reachable v8 w) : w.sys.Reachable := by
  induction h with
  | start h =>
    obtain ⟨ms, mem, fs, rfl⟩ := h
    exact .start ⟨ms, rfl⟩
  | tail _ hl ih =>
    rcases hl.sys with hs | ⟨l, hs⟩
    · rw [hs]
      exact ih
    · exact ih.tail hs

/-- The closures of `App.js` run in the function of a callback job, and create no timer. -/
def World.Framed (w : World) : Prop :=
  w.frame = .program ∨ (∃ job, w.sys.pc = .inCallback job) ∧ w.sys.native = .idle

/-- A job's function is called with the program's frame. -/
theorem World.Framed.frame_of_invokes {w : World} (hf : w.Framed)
    (hpc : w.sys.pc = .runCallbacks) : w.frame = .program := by
  apply hf.resolve_right
  rintro ⟨⟨job, hpc'⟩, -⟩
  rw [hpc] at hpc'
  cases hpc'

theorem Step.stays_inCallback {s s' : Sys} {l : Label} (h : Step s l s')
    (hl : l.passive = true) {job : CallbackJob} (hpc : s.pc = .inCallback job)
    (hn : s.native = .idle) : s'.pc = .inCallback job ∧ s'.native = .idle := by
  cases h <;> first | exact ⟨hpc, hn⟩ | simp_all [Label.passive]

/-- The function of a callback job is called from the loop. -/
theorem Step.invokes {s s' : Sys} (h : Step s .invokeCallback s') (hf : s.Control) :
    s.pc = .runCallbacks ∧ (∃ job, s'.pc = .inCallback job) ∧ s'.native = .idle := by
  cases h with
  | invokeCallback hpc hq hargs =>
    exact ⟨hpc, ⟨_, rfl⟩, hf.native.resolve_right (by simp [hpc, Pc.inJs])⟩

theorem World.Step.framed {w w' : World} {a : Action} (h : World.Step v8 w a w')
    (hc : w.sys.Control) (hf : w.Framed) : w'.Framed := by
  cases h with
  | file | bufferFrom | allocate | write | refuse => exact hf
  | program hp | request hp => exact .inl hp.frame
  | jsReturn => exact .inl rfl
  | passive hl hs =>
    exact hf.imp id fun ⟨⟨job, hpc⟩, hn⟩ => ⟨⟨job, (hs.stays_inCallback hl hpc hn).1⟩,
      (hs.stays_inCallback hl hpc hn).2⟩
  | arrow hframe hs =>
    rcases hf with hf | ⟨⟨job, hpc⟩, hn⟩
    · rw [hframe] at hf
      cases hf
    · cases hs with
      | startWorker => exact .inr ⟨⟨job, hpc⟩, hn⟩
  | build hpc hs =>
    apply hf.imp id
    rintro ⟨⟨job, hpc'⟩, -⟩
    rw [hpc] at hpc'
    cases hpc'
  | invoke hq hargs happly hs =>
    exact .inl (hf.frame_of_invokes (hs.invokes hc).1)
  | invokeArrow hq hargs happly hs | invokeThrow hq hargs happly hs =>
    exact .inr (hs.invokes hc).2
  | deliver htask hs | post hs =>
    refine hf.imp id fun ⟨⟨job, hpc⟩, hn⟩ => ?_
    cases hs with
    | _ => exact ⟨⟨job, hpc⟩, hn⟩

theorem World.Reachable.framed {w : World} (h : World.Reachable v8 w) : w.Framed :=
  Transition.Reachable.invariant (I := World.Framed)
    (by rintro _ ⟨ms, mem, fs, rfl⟩; exact .inl rfl)
    (fun _ _ _ hr hf hl => hl.framed (World.Reachable.sys hr).control hf) h

end NanoJS
