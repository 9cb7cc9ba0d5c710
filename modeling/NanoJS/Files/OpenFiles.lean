import NanoJS.Files.World

/-!
# Open files

A thread opens its file, reads or writes it, and closes it in separate operations, between which
anything may happen. Here they are steps of their own (`FineWorld.Step`): opening for writing
creates or empties the file, and writing goes to the position of the stream, whatever the file has
become meanwhile. So two threads can mix their contents. As long as nobody else gets at a file that
a thread has open, unless both read, the process is in a state of `World`, but for the open files,
which `World` has as they were found (`files_apart`).
-/

namespace NanoJS

/-! ## Streams -/

namespace FileNode

/-- The file with another content. -/
def withContent (node : FileNode) (content : List UInt8) : FileNode :=
  { node with
    content := content
    stat := node.stat.map fun stat => { stat with size := content.length } }

/-- `open(path, std::ios::binary)` (`mode`) or `open(path, std::ios::app)` of a `std::ofstream` -/
def opened (node : FileNode) (mode : Bool) : FileNode :=
  if node.openWrite then
    if mode then node.create.withContent [] else node.create
  else node

/-- What `write` leaves when the stream is open: the bytes over the beginning of the file, or at its
end. -/
def written (node : FileNode) (mode : Bool) (bytes : List UInt8) : FileNode :=
  let taken := match node.writeLimit with
    | none => bytes
    | some limit => bytes.take limit
  node.withContent
    (if mode then taken ++ node.content.drop taken.length else node.content ++ taken)

/-- When nothing happens in between, a stream leaves what `FileNode.write` says. -/
theorem written_opened {node : FileNode} (h : node.openWrite = true) (mode : Bool)
    (bytes : List UInt8) : (node.opened mode).written mode bytes = node.write mode bytes := by
  unfold opened written write
  cases mode <;> cases hlimit : node.writeLimit <;> simp [h, hlimit, withContent] <;> rfl

/-- Two streams that are open at a time mix their contents. -/
example : ((((regular []).opened true).opened true).written true [1, 2, 3] |>.written true
    [4]).content = [4, 2, 3] := by
  decide

end FileNode

namespace Task

/-- What opening the file leaves. -/
def opens (task : Task) (node : FileNode) : FileNode :=
  match task with
  | .write _ _ _ mode => node.opened mode
  | _ => node

/-- What the thread does with the file `node` behind its stream, which was opened when the file was
`found`: the memory and the file it leaves, and the arguments of the callback. -/
def transfer (task : Task) (found node : FileNode) (told : ℤ) (mem : ByteMemory.Mem) :
    ByteMemory.Mem × FileNode × List Value :=
  match task with
  | .read _ data offset length position =>
    let (mem', args) :=
      readAsync { node with openRead := found.openRead } data offset length position mem
    (mem', node, args)
  | .write _ data length mode =>
    (mem,
      if found.openWrite then node.written mode (ByteMemory.slice mem data 0 length.toNat)
      else node,
      [.null, .int (toInt32 told)])
  | .stat _ => (mem, node, [])

/-- **When nothing happens to the file in between, the two steps are the one of `execute`.** -/
theorem transfer_opens (task : Task) (found : FileNode) (told : ℤ) (mem : ByteMemory.Mem) :
    task.transfer found (task.opens found) told mem = task.execute found told mem := by
  cases task with
  | read | stat => rfl
  | write path data length mode =>
    unfold transfer opens execute writeAsync
    cases h : found.openWrite with
    | false => simp [FileNode.opened, FileNode.write, h]
    | true => simp only [if_true, FileNode.written_opened h]

/-- The thread only reads. -/
def reads : Task → Bool
  | .write .. => false
  | _ => true

theorem opens_of_reads {task : Task} (h : task.reads = true) (node : FileNode) :
    task.opens node = node := by
  cases task with
  | write => cases h
  | _ => rfl

theorem execute_of_reads {task : Task} (h : task.reads = true) (node : FileNode) (told : ℤ)
    (mem : ByteMemory.Mem) : (task.execute node told mem).2.1 = node := by
  cases task with
  | write => cases h
  | _ => rfl

end Task

/-! ## Steps -/

/-- A file that a thread has open, as the thread found it. -/
structure OpenFile where
  job : CallbackJob
  task : Task
  found : FileNode

/-- Two files are different, or both are only read. -/
def OpenFile.Apart (o o' : OpenFile) : Prop :=
  o.task.path = o'.task.path → o.task.reads = true ∧ o'.task.reads = true

/-- `World`, with the files that threads have open. -/
structure FineWorld where
  world : World
  files : List OpenFile

/-- What happens in a step. -/
inductive FineAction
  /-- Anything but the work of a thread on its file. -/
  | other (a : Action)
  | opens (o : OpenFile)
  | closes (o : OpenFile)

/-- A thread hands over its result. -/
def Action.delivers : Action → Bool
  | .engine (.deliver ..) => true
  | _ => false

variable (v8 : V8)

inductive FineWorld.Step : FineWorld → FineAction → FineWorld → Prop
  | other {f a w'} (ha : a.delivers = false) (h : World.Step v8 f.world a w') :
      Step f (.other a) { f with world := w' }
  | opens {f job task} (hthread : .worker job task ∈ f.world.sys.threads)
      (hposts : task.posts = false) (hnew : ∀ o ∈ f.files, o.job ≠ job) :
      Step f (.opens ⟨job, task, f.world.fs task.path⟩)
        { world := { f.world with
            fs := Function.update f.world.fs task.path (task.opens (f.world.fs task.path)) }
          files := ⟨job, task, f.world.fs task.path⟩ :: f.files }
  | closes {f o told mem' node' args s' pre post} (hopen : f.files = pre ++ o :: post)
      (htask : o.task.transfer o.found (f.world.fs o.task.path) told f.world.realm.mem =
        (mem', node', args))
      (hs : NanoJS.Step f.world.sys (.deliver o.job o.task args) s') :
      Step f (.closes o)
        { world := { f.world with
            sys := s'
            realm := { f.world.realm with mem := mem' }
            fs := Function.update f.world.fs o.task.path node'
            log := .observed o.job.func.call o.task o.found :: f.world.log }
          files := pre ++ post }

/-- The files that an action of `World` gets at, other than the work of a thread: the environment
changes one, or a thread asks for its metadata. -/
def Action.file? : Action → Option CString
  | .file path _ => some path
  | .engine (.post _ task _) => some task.path
  | _ => none

/-- Nobody gets at a file that a thread has open, unless to read what is only read. -/
def FineWorld.Undisturbed (f : FineWorld) : FineAction → Prop
  | .other a => ∀ o ∈ f.files, a.file? ≠ some o.task.path
  | .opens o => ∀ o' ∈ f.files, o.Apart o'
  | .closes _ => True

/-- The states of runs in which every step leaves open files alone. -/
abbrev FineWorld.Apart : FineWorld → Prop :=
  Transition.Reachable (fun f => World.Init f.world ∧ f.files = []) fun f a f' =>
    FineWorld.Step v8 f a f' ∧ f.Undisturbed a

variable {v8}

/-! ## The same step over other files -/

/-- A step that gets at no file is one of the process with any files. -/
theorem World.Step.withFiles {w w' : World} {a : Action} (h : World.Step v8 w a w')
    (ha : a.delivers = false) (hfile : a.file? = none) (fs : CString → FileNode) :
    World.Step v8 { w with fs := fs } a { w' with fs := fs } ∧ w'.fs = w.fs := by
  cases h with
  | file | post => cases hfile
  | deliver => cases ha
  | bufferFrom call hp => exact ⟨.bufferFrom call ⟨hp.1, hp.2, hp.3⟩, rfl⟩
  | allocate hp h => exact ⟨.allocate ⟨hp.1, hp.2, hp.3⟩ h, rfl⟩
  | write hp hs => exact ⟨.write ⟨hp.1, hp.2, hp.3⟩ hs, rfl⟩
  | program hp hl hs => exact ⟨.program ⟨hp.1, hp.2, hp.3⟩ hl hs, rfl⟩
  | request hp hviews h hs => exact ⟨.request ⟨hp.1, hp.2, hp.3⟩ hviews h hs, rfl⟩
  | refuse hp hviews h => exact ⟨.refuse ⟨hp.1, hp.2, hp.3⟩ hviews h, rfl⟩
  | arrow hf hs => exact ⟨.arrow hf hs, rfl⟩
  | jsReturn hf hs => exact ⟨.jsReturn hf hs, rfl⟩
  | passive hl hs => exact ⟨.passive hl hs, rfl⟩
  | build hpc hs => exact ⟨.build hpc hs, rfl⟩
  | invoke hq hargs happly hs => exact ⟨.invoke hq hargs happly hs, rfl⟩
  | invokeArrow hq hargs happly hs => exact ⟨.invokeArrow hq hargs happly hs, rfl⟩
  | invokeThrow hq hargs happly hs => exact ⟨.invokeThrow hq hargs happly hs, rfl⟩

/-! ## The simulation -/

namespace FineWorld

/-- The two processes differ only in the open files, which the second has as they were found. -/
structure Abstracts (f : FineWorld) (w : World) : Prop where
  same : w = { f.world with fs := w.fs }
  found : ∀ o ∈ f.files, w.fs o.task.path = o.found
  opened : ∀ o ∈ f.files, f.world.fs o.task.path = o.task.opens o.found
  others : ∀ path, (∀ o ∈ f.files, o.task.path ≠ path) → w.fs path = f.world.fs path
  apart : f.files.Pairwise OpenFile.Apart

namespace Abstracts

variable {f f' : FineWorld} {w : World}

/-- An action of `World` that leaves the open files alone. -/
theorem other (h : f.Abstracts w) {a : Action} {w' : World} (ha : a.delivers = false)
    (hs : World.Step v8 f.world a w') (hfile : ∀ o ∈ f.files, a.file? ≠ some o.task.path) :
    ∃ w₁, World.Step v8 w a w₁ ∧ Abstracts { f with world := w' } w₁ := by
  rw [h.same]
  cases hnone : a.file? with
  | none =>
    obtain ⟨hstep, hfs⟩ := hs.withFiles ha hnone w.fs
    exact ⟨_, hstep, rfl, h.found, hfs ▸ h.opened, hfs ▸ h.others, h.apart⟩
  | some path =>
    have hother : ∀ o ∈ f.files, o.task.path ≠ path := fun o ho heq =>
      hfile o ho (heq ▸ hnone)
    cases hs with
    | @file path' node =>
      cases hnone
      refine ⟨_, .file, rfl, fun o ho => ?_, fun o ho => ?_, fun path' hpath' => ?_, h.apart⟩
      · exact (Function.update_of_ne (hother o ho) _ _).trans (h.found o ho)
      · exact (Function.update_of_ne (hother o ho) _ _).trans (h.opened o ho)
      · by_cases heq : path' = path
        · dsimp only
          rw [heq, Function.update_self, Function.update_self]
        · exact (Function.update_of_ne heq _ _).trans
            ((h.others path' hpath').trans (Function.update_of_ne heq _ _).symm)
    | @post job task s' hs =>
      cases hnone
      rw [← h.others _ hother] at hs ⊢
      exact ⟨_, .post hs, rfl, h.found, h.opened, h.others, h.apart⟩
    | deliver => cases ha
    | @passive l s' hl hs =>
      cases l with
      | post => cases hl
      | _ => cases hnone
    | _ => cases hnone

/-- Opening a file changes nothing behind the open files. -/
theorem opens (h : f.Abstracts w) {o : OpenFile} (hfound : o.found = f.world.fs o.task.path)
    (hapart : ∀ o' ∈ f.files, o.Apart o') :
    Abstracts
      { world := { f.world with
          fs := Function.update f.world.fs o.task.path (o.task.opens o.found) }
        files := o :: f.files } w := by
  -- a file that is open already is only read
  have hkeep : ∀ o' ∈ f.files, o'.task.path = o.task.path →
      o.task.opens o.found = f.world.fs o.task.path ∧ w.fs o.task.path = o.found := by
    intro o' ho' heq
    obtain ⟨hreads, hreads'⟩ := hapart o' ho' heq.symm
    refine ⟨(Task.opens_of_reads hreads _).trans hfound, ?_⟩
    rw [← heq, h.found o' ho', hfound, ← heq, h.opened o' ho', Task.opens_of_reads hreads']
  refine ⟨h.same, fun o' ho' => ?_, fun o' ho' => ?_, fun path hpath => ?_,
    List.pairwise_cons.2 ⟨hapart, h.apart⟩⟩
  · rcases List.mem_cons.1 ho' with rfl | ho'
    · by_cases hopen : ∃ o'' ∈ f.files, o''.task.path = o'.task.path
      · obtain ⟨o'', ho'', heq⟩ := hopen
        exact (hkeep o'' ho'' heq).2
      · rw [h.others _ fun o'' ho'' heq => hopen ⟨o'', ho'', heq⟩, hfound]
    · exact h.found o' ho'
  · rcases List.mem_cons.1 ho' with rfl | ho'
    · exact Function.update_self ..
    · by_cases heq : o'.task.path = o.task.path
      · dsimp only
        rw [heq, Function.update_self, (hkeep o' ho' heq).1, ← heq, h.opened o' ho']
      · exact (Function.update_of_ne heq _ _).trans (h.opened o' ho')
  · have hne : path ≠ o.task.path := (hpath o List.mem_cons_self).symm
    exact (h.others path fun o' ho' => hpath o' (List.mem_cons_of_mem _ ho')).trans
      (Function.update_of_ne hne _ _).symm

/-- The other open files are different, or read as the file is. -/
theorem apart_of_open (h : f.Abstracts w) {o : OpenFile} {pre post : List OpenFile}
    (hopen : f.files = pre ++ o :: post) : ∀ o' ∈ pre ++ post, o.Apart o' := by
  have hpairs := (List.pairwise_middle fun hap heq => (hap heq.symm).symm).1 (hopen ▸ h.apart)
  exact (List.pairwise_cons.1 hpairs).1

/-- A file that is open only for reading is as it was found. -/
theorem fs_eq (h : f.Abstracts w) {path : CString}
    (hreads : ∀ o ∈ f.files, o.task.path = path → o.task.reads = true) :
    w.fs path = f.world.fs path := by
  by_cases hopen : ∃ o ∈ f.files, o.task.path = path
  · obtain ⟨o, ho, rfl⟩ := hopen
    rw [h.found o ho, h.opened o ho, Task.opens_of_reads (hreads o ho rfl)]
  · exact h.others path fun o ho heq => hopen ⟨o, ho, heq⟩

/-- Writing or reading an open file, and closing it, is the step of the thread. -/
theorem closes (h : f.Abstracts w) {o : OpenFile} {told : ℤ} {mem' : ByteMemory.Mem}
    {node' : FileNode} {args : List Value} {s' : Sys} {pre post : List OpenFile}
    (hopen : f.files = pre ++ o :: post)
    (htask : o.task.transfer o.found (f.world.fs o.task.path) told f.world.realm.mem =
      (mem', node', args))
    (hs : NanoJS.Step f.world.sys (.deliver o.job o.task args) s') :
    ∃ w₁, World.Step v8 w (.engine (.deliver o.job o.task args)) w₁ ∧
      w₁.fs o.task.path = node' ∧ Abstracts
        { world := { f.world with
            sys := s'
            realm := { f.world.realm with mem := mem' }
            fs := Function.update f.world.fs o.task.path node'
            log := .observed o.job.func.call o.task o.found :: f.world.log }
          files := pre ++ post } w₁ := by
  have hsub : ∀ o' ∈ pre ++ post, o' ∈ f.files := by
    rw [hopen]
    exact fun o' ho' => (List.sublist_append_right [o] post).append_left pre |>.subset ho'
  have ho : o ∈ f.files := hopen ▸ List.mem_append_right _ List.mem_cons_self
  have hfound := h.found o ho
  rw [h.opened o ho, Task.transfer_opens] at htask
  have hstep := @World.Step.deliver v8 w o.job o.task told mem' node' args s'
    (by rw [hfound, h.same]; exact htask) (by rw [h.same]; exact hs)
  have hapart := h.apart_of_open hopen
  have hrest : (pre ++ post).Pairwise OpenFile.Apart :=
    h.apart.sublist (hopen ▸ (List.sublist_cons_self o post).append_left pre)
  -- another thread that has the file open only reads, and so has this one
  have hkeep : ∀ o' ∈ pre ++ post, o'.task.path = o.task.path → node' = o.found ∧
      o'.found = o.found ∧ o'.task.opens o'.found = o.found := by
    intro o' ho' heq
    obtain ⟨hreads, hreads'⟩ := hapart o' ho' heq.symm
    have hnode := Task.execute_of_reads hreads o.found told f.world.realm.mem
    rw [htask] at hnode
    have hsame : o'.found = o.found := by
      rw [← h.found o' (hsub o' ho'), heq, hfound]
    exact ⟨hnode, hsame, (Task.opens_of_reads hreads' _).trans hsame⟩
  refine ⟨_, hstep, Function.update_self .., ?_, fun o' ho' => ?_, fun o' ho' => ?_,
    fun path hpath => ?_, hrest⟩
  · rw [h.same]
    dsimp only
    rw [hfound]
  · by_cases heq : o'.task.path = o.task.path
    · obtain ⟨hnode, hsame, -⟩ := hkeep o' ho' heq
      dsimp only
      rw [heq, Function.update_self, hnode, hsame]
    · exact (Function.update_of_ne heq _ _).trans (h.found o' (hsub o' ho'))
  · by_cases heq : o'.task.path = o.task.path
    · obtain ⟨hnode, -, hopens⟩ := hkeep o' ho' heq
      dsimp only
      rw [heq, Function.update_self, hnode, hopens]
    · exact (Function.update_of_ne heq _ _).trans (h.opened o' (hsub o' ho'))
  · by_cases heq : path = o.task.path
    · dsimp only
      rw [heq, Function.update_self, Function.update_self]
    · refine (Function.update_of_ne heq _ _).trans
        ((h.others path fun o' ho' => ?_).trans (Function.update_of_ne heq _ _).symm)
      rw [hopen, List.mem_append, List.mem_cons] at ho'
      rcases ho' with ho' | rfl | ho'
      · exact hpath o' (List.mem_append_left _ ho')
      · exact Ne.symm heq
      · exact hpath o' (List.mem_append_right _ ho')

end Abstracts

/-- **A step that leaves open files alone is a step of `World`, or none.** -/
theorem Step.abstracts {f f' : FineWorld} {a : FineAction} (hs : FineWorld.Step v8 f a f')
    (hu : f.Undisturbed a) {w : World} (h : f.Abstracts w) :
    f'.Abstracts w ∨ ∃ b w', World.Step v8 w b w' ∧ f'.Abstracts w' := by
  cases hs with
  | other ha hstep =>
    obtain ⟨w', hstep', h'⟩ := h.other ha hstep hu
    exact .inr ⟨_, w', hstep', h'⟩
  | opens => exact .inl (h.opens rfl hu)
  | closes hopen htask hstep =>
    obtain ⟨w', hstep', -, h'⟩ := h.closes hopen htask hstep
    exact .inr ⟨_, w', hstep', h'⟩

theorem Apart.abstracts {f : FineWorld} (hf : f.Apart v8) :
    ∃ w, World.Reachable v8 w ∧ f.Abstracts w := by
  induction hf with
  | @start f h =>
    refine ⟨f.world, .start h.1, rfl, ?_, ?_, fun _ _ => rfl, ?_⟩ <;> simp [h.2]
  | tail _ hl ih =>
    obtain ⟨w, hr, h⟩ := ih
    rcases hl.1.abstracts hl.2 h with h' | ⟨b, w', hstep, h'⟩
    · exact ⟨w, hr, h'⟩
    · exact ⟨w', hr.tail hstep, h'⟩

end FineWorld

/-- The one step of a thread is two. -/
theorem World.Step.split {w w' : World} {job : CallbackJob} {task : Task} {args : List Value}
    (hs : World.Step v8 w (.engine (.deliver job task args)) w') :
    ∃ f : FineWorld, FineWorld.Step v8 ⟨w, []⟩ (.opens ⟨job, task, w.fs task.path⟩) f ∧
      f.files = [⟨job, task, w.fs task.path⟩] ∧
      f.world.fs = Function.update w.fs task.path (task.opens (w.fs task.path)) ∧
      f.world.log = w.log ∧ FineWorld.Step v8 f (.closes ⟨job, task, w.fs task.path⟩) ⟨w', []⟩ := by
  cases hs with
  | passive hl => cases hl
  | @deliver _ _ told mem' node' _ s' htask hs =>
    have hs' := hs
    cases hs' with
    | deliver hthreads hposts =>
      have hthread : .worker job task ∈ w.sys.threads := by simp [hthreads]
      have htransfer : task.transfer (w.fs task.path)
          (Function.update w.fs task.path (task.opens (w.fs task.path)) task.path) told
          w.realm.mem = (mem', node', args) := by
        rw [Function.update_self, Task.transfer_opens, htask]
      refine ⟨_, .opens hthread hposts fun o ho => absurd ho List.not_mem_nil, rfl, rfl, rfl, ?_⟩
      simpa only [Function.update_idem, List.append_nil] using @FineWorld.Step.closes v8
        ⟨{ w with fs := Function.update w.fs task.path (task.opens (w.fs task.path)) },
          [⟨job, task, w.fs task.path⟩]⟩ ⟨job, task, w.fs task.path⟩ _ _ _ _ _ [] [] rfl htransfer
          hs

/-- **What `World` reaches is reached in finer steps.** -/
theorem World.Reachable.apart {w : World} (h : World.Reachable v8 w) :
    FineWorld.Apart v8 ⟨w, []⟩ := by
  induction h with
  | start h => exact .start ⟨h, rfl⟩
  | @tail w a w' _ hs ih =>
    cases ha : a.delivers with
    | false => exact ih.tail ⟨.other ha hs, fun o ho => absurd ho List.not_mem_nil⟩
    | true =>
      unfold Action.delivers at ha
      split at ha
      · obtain ⟨f, hopens, -, -, -, hcloses⟩ := hs.split
        exact (ih.tail ⟨hopens, fun o ho => absurd ho List.not_mem_nil⟩).tail ⟨hcloses, trivial⟩
      · cases ha

/-! ## The result -/

end NanoJS
