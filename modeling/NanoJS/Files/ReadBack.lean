import NanoJS.Buffers.Remembered
import NanoJS.Files.LongStrings
import NanoJS.Files.Sync

/-!
# What is written is read back

As long as nobody else changes the file (`World.Leaves`), the threads that are started later find
what the thread of a `Files.write` has left. So a long string comes back through `Files.readFile`
and `toString`, in UTF-16LE up to its first U+0000, and through `fs.readFileSync`, which cuts it
there in UTF-8; also where opening and closing a file are steps of their own, if nobody gets at
the files that are open (`write_read_round_trip`).
-/

namespace NanoJS

open List ByteMemory Utf16

/-! ## A file that is left as it is -/

namespace World

variable {v8 : V8} {w w' : World} {path : CString}

/-- Steps that leave the file at the path as it is. -/
def Leaves (v8 : V8) (path : CString) : World → World → Prop :=
  Relation.ReflTransGen fun w w' => (∃ a, World.Step v8 w a w') ∧ w'.fs path = w.fs path

theorem Leaves.step {w'' : World} (h : Leaves v8 path w w') {a : Action}
    (hl : World.Step v8 w' a w'') (hfs : w''.fs path = w'.fs path) : Leaves v8 path w w'' :=
  h.tail ⟨⟨a, hl⟩, hfs⟩

theorem Leaves.reachable (h : Leaves v8 path w w') (hr : World.Reachable v8 w) :
    World.Reachable v8 w' := by
  induction h with
  | refl => exact hr
  | tail _ hl ih =>
    obtain ⟨⟨a, hl⟩, -⟩ := hl
    exact ih.tail hl

theorem Leaves.fs_eq (h : Leaves v8 path w w') : w'.fs path = w.fs path := by
  induction h with
  | refl => rfl
  | tail _ hl ih => exact hl.2.trans ih

/-- **The threads of later calls find the file as it is.** -/
theorem Leaves.observed (h : Leaves v8 path w w') (hp : w.Protocol v8) {k : ℕ}
    (hk : w.nextCall ≤ k) {task : Task} {node : FileNode}
    (hmem : .observed k task node ∈ w'.log) (hpath : task.path = path) : node = w.fs path := by
  induction h with
  | refl =>
    have hlt : k < w.nextCall := hp.events_lt _ hmem
    exact absurd hlt (Nat.not_lt.2 hk)
  | tail hs hl ih =>
    obtain ⟨⟨a, hl⟩, -⟩ := hl
    rcases hl.log with hlog | ⟨e, hlog, hread, -⟩
    · exact ih (hlog ▸ hmem)
    · rw [hlog, mem_cons] at hmem
      rcases hmem with rfl | hmem
      · rw [(hread k task node rfl).1, hpath]
        exact Leaves.fs_eq hs
      · exact ih hmem

/-- A later `Files.readFile` of the file finds its content. -/
theorem Leaves.found (h : Leaves v8 path w w') (hv : v8.Documented) (hr : World.Reachable v8 w)
    {k : ℕ} (hk : w.nextCall ≤ k) {path' : JSString} (hpath : toUtf8String v8 path' = path)
    {accepted : Bool} (hreq : .requested k (.readFile path') accepted ∈ w'.log)
    {content : List UInt8} (hfile : (w.fs path).IsFile content) : w'.Found k content := by
  have hp' := World.Reachable.protocol hv (h.reachable hr)
  have hstage := hp'.stage (mem_events.2 ⟨hreq, rfl⟩)
  intro task node hmem
  rw [h.observed (World.Reachable.protocol hv hr) hk (mem_events.1 hmem).1
    ((hstage.path_eq hmem).trans hpath)]
  exact hfile

end World

/-! ## Writing and reading -/

variable {v8 : V8}

/-- What a write leaves is a file, if what it found or created is one. -/
theorem FileNode.write_isFile {node : FileNode} (hw : node.Writable) (hr : node.create.Readable)
    {stat : Stat} (hstat : node.create.stat = some stat) (mode : Bool) (bytes : List UInt8) :
    (node.write mode bytes).IsFile (node.write mode bytes).content where
  stat := by
    unfold FileNode.write
    rw [if_pos hw.1]
    dsimp only
    rw [hstat]
    exact ⟨_, rfl, rfl⟩
  readable := by
    unfold FileNode.write
    rw [if_pos hw.1]
    exact hr
  content := rfl

theorem writeFileAsync_isFile (hv : v8.Documented) (path : JSString) (data : View)
    (flag : JSString) {node : FileNode} (hw : node.Writable) (hr : node.create.Readable)
    {stat : Stat} (hstat : node.create.stat = some stat) (told : ℤ) (mem : Mem) :
    ((writeFileAsync v8 path data flag).execute node told mem).2.1.IsFile
      ((if flag.head? = some 0x77 then [] else node.content) ++
        slice mem data.store 0 data.byteLength) := by
  rw [← writeFileAsync_content hv path data flag hw told mem]
  exact FileNode.write_isFile hw hr hstat _ _

/-- The thread of a write of a long string leaves a file with its encoding. -/
theorem World.Step.leaves_file (hv : v8.Documented) {w w' : World} (hr : World.Reachable v8 w)
    {job : CallbackJob} {task : Task} {args : List Value}
    (h : World.Step v8 w (.engine (.deliver job task args)) w') {path s : JSString}
    {options : Option (Option JSString × Option JSString)} {accepted : Bool}
    (hk : .requested job.func.call (.write path (.string s) options) accepted ∈ w.log)
    {ops : Encoding} (hops : getEncodingOps (ApiCall.encoding options) = .ok (some ops))
    (hlong : poolSize / 2 ≤ ops.byteLength v8 s) {stat : Stat}
    (hstat : (w.fs (toUtf8String v8 path)).create.stat = some stat)
    (hread : (w.fs (toUtf8String v8 path)).create.Readable)
    (hwrite : (w.fs (toUtf8String v8 path)).Writable)
    (hnew : (ApiCall.flag options).head? = some 0x77 ∨
      (w.fs (toUtf8String v8 path)).content = []) :
    (w'.fs (toUtf8String v8 path)).IsFile (ops.encode s) ∧ (ops.encode s).length < 2 ^ 31 := by
  obtain ⟨view, told, -, hbytes, hnode⟩ := h.writes_long hv hr hk hops hlong
  have hempty : (if (ApiCall.flag options).head? = some 0x77 then []
      else (w.fs (toUtf8String v8 path)).content) = [] := by
    split
    · rfl
    · exact hnew.resolve_left ‹_›
  have hfile := writeFileAsync_isFile hv path view (ApiCall.flag options) hwrite hread hstat told
    w.realm.mem
  rw [hempty, nil_append, hbytes, ← hnode] at hfile
  refine ⟨hfile, ?_⟩
  rw [← hbytes, length_slice]
  exact Nat.lt_succ_of_le view.le_max

/-- What `fs.readFileSync` reads of a file in UTF-8. -/
theorem readFileSync_utf8 (hv : v8.Documented) (path : JSString) {s : JSString} (hs : WellFormed s)
    (hmax : (utf8 s).length ≤ kMaxStringLength) {files : FileSystem}
    (h : (files (toUtf8String v8 path)).IsFile (utf8 s)) :
    readFileSync v8 path files = some (s.takeWhile (· ≠ 0)) := by
  have hcut : ((utf8 s).takeWhile (· ≠ 0)).length ≤ kMaxStringLength :=
    (List.takeWhile_prefix _).length_le.trans hmax
  have hwhole : toLocalString v8 (utf8 s) = s.takeWhile (· ≠ 0) := by
    rw [utf8, takeWhile_utf8Chars] at hcut
    rw [utf8, toLocalString_utf8Chars hv hcut, ← takeWhile_encode, encode_decode hs]
  rw [readFileSync, readFileString, h.readable.1, h.readable.2, h.content, if_pos rfl,
    Option.bind_some, if_neg Bool.false_ne_true, hwhole, if_neg (Nat.not_lt.2 hcut)]

/-- What the thread of a write leaves, with its file for itself, is read back. -/
theorem World.Step.round_trip (hv : v8.DocumentedUtf8Value) {w w₁ w₂ : World}
    (hr : World.Reachable v8 w) {job : CallbackJob} {task : Task} {args : List Value}
    (h : World.Step v8 w (.engine (.deliver job task args)) w₁) {path s : JSString}
    {options : Option (Option JSString × Option JSString)} {accepted : Bool}
    (hk : .requested job.func.call (.write path (.string s) options) accepted ∈ w.log)
    {ops : Encoding} (hops : getEncodingOps (ApiCall.encoding options) = .ok (some ops))
    (hlong : poolSize / 2 ≤ ops.byteLength v8 s) (hs : WellFormed s) {stat : Stat}
    (hstat : (w.fs (toUtf8String v8 path)).create.stat = some stat)
    (hread : (w.fs (toUtf8String v8 path)).create.Readable)
    (hwrite : (w.fs (toUtf8String v8 path)).Writable)
    (hnew : (ApiCall.flag options).head? = some 0x77 ∨ (w.fs (toUtf8String v8 path)).content = [])
    (hleaves : World.Leaves v8 (toUtf8String v8 path) w₁ w₂) :
    (∀ k path' accepted', w₁.nextCall ≤ k → toUtf8String v8 path' = toUtf8String v8 path →
      .requested k (.readFile path') accepted' ∈ w₂.log →
        w₂.callCount k ≤ 1 ∧ (w₂.sys.pc = .start → w₂.callCount k = 1) ∧
          ∀ args' mem, .called k args' mem ∈ w₂.log → ∃ buffer, args' = [.null, .buffer buffer] ∧
            ∀ r : Realm, r.mem = mem →
              (FastBuffer.toString v8 buffer (some (ApiCall.encoding options))).run r =
                .ok (ops.read s) r) ∧
      (ops = .utf8 → (utf8 s).length ≤ kMaxStringLength →
        readFileSync v8 path w₂.fs = some (s.takeWhile (· ≠ 0))) := by
  have hdoc := hv.toDocumented
  obtain ⟨hfile, hlen⟩ := h.leaves_file hdoc hr hk hops hlong hstat hread hwrite hnew
  have hr₁ := hr.tail h
  have hr₂ := hleaves.reachable hr₁
  refine ⟨fun k path' accepted' hk' hpath hreq => ?_, ?_⟩
  · have hfound := hleaves.found hdoc hr₁ hk' hpath hreq hfile
    have hp := World.Reachable.protocol hdoc hr₂
    have hsnap := World.Reachable.snapshot hdoc hr₂
    have hmem := World.mem_events.2 ⟨hreq, rfl⟩
    refine ⟨hp.callCount_le hmem, fun hpc => ?_, fun args' mem hcalled => ?_⟩
    · have hcalled := hp.called hmem hlen hfound (hr₂.settled hpc)
      exact (hsnap.delivered hp hmem hlen hfound hcalled).once
    · obtain ⟨buffer, hargs, -, hbuf⟩ := hsnap.delivers hp hmem hlen hfound
        (World.mem_events.2 ⟨hcalled, rfl⟩)
      refine ⟨buffer, hargs, ?_⟩
      rintro r rfl
      have hne := (ApiCall.writeArgument options (.user 0 0)).encoding_ne_nil
      rw [ApiCall.writeArgument_encoding] at hne
      rw [toString_run ((encodingOf_some hne).trans hops) (by simpa using hne)]
      exact decodeToString_run hv hs hbuf
  · rintro rfl hmax
    exact readFileSync_utf8 hdoc path hs hmax (hleaves.fs_eq ▸ hfile)

/-! ## Open files -/

namespace FineWorld

variable {f f' : FineWorld} {path : CString}

/-- Steps that leave the files alone that threads have open, and the file at the path as it is,
which nobody opens for writing. -/
def Leaves (v8 : V8) (path : CString) : FineWorld → FineWorld → Prop :=
  Relation.ReflTransGen fun f f' => (∃ a, FineWorld.Step v8 f a f' ∧ f.Undisturbed a) ∧
    f'.world.fs path = f.world.fs path ∧
    ∀ o ∈ f'.files, o.task.path = path → o.task.reads = true

theorem Leaves.apart (h : Leaves v8 path f f') (hf : f.Apart v8) : f'.Apart v8 := by
  induction h with
  | refl => exact hf
  | tail _ hl ih =>
    obtain ⟨⟨a, hs⟩, -⟩ := hl
    exact ih.tail hs

/-- They are steps of `World` that leave the file as it is. -/
theorem Leaves.abstracts (h : Leaves v8 path f f')
    (hreads : ∀ o ∈ f.files, o.task.path = path → o.task.reads = true) {w : World}
    (ha : f.Abstracts w) : ∃ w', World.Leaves v8 path w w' ∧ f'.Abstracts w' ∧
      ∀ o ∈ f'.files, o.task.path = path → o.task.reads = true := by
  induction h with
  | refl => exact ⟨w, .refl, ha, hreads⟩
  | tail _ hl ih =>
    obtain ⟨w', hleaves, ha', hreads'⟩ := ih
    obtain ⟨⟨a, hs, hu⟩, hfs, hreads''⟩ := hl
    rcases hs.abstracts hu ha' with h' | ⟨b, w'', hstep, h'⟩
    · exact ⟨w', hleaves, h', hreads''⟩
    · have hfile := (h'.fs_eq hreads'').trans (hfs.trans (ha'.fs_eq hreads').symm)
      exact ⟨w'', hleaves.step hstep hfile, h', hreads''⟩

end FineWorld

/-- **What is written is read back.** A `Files.write` replaces a file, creates one, or fills an
empty one, with a well-formed string whose encoding takes half a pool or more. In every run behind
the step in which its thread closes the file, while nobody changes the file or gets at another that
a thread has open, whatever else happens: every later `Files.readFile` of it calls its callback at
most once, exactly once when `Run` has returned, and only with null and a buffer of which `toString`
with the encoding returns the string, in UTF-16LE up to its first U+0000; and `fs.readFileSync`
returns the string up to there, if it was written in UTF-8 of no more bytes than V8 allows. -/
theorem write_read_round_trip (hv : v8.DocumentedUtf8Value) {f f₁ f₂ : FineWorld}
    (hf : f.Apart v8) {o : OpenFile} (h : FineWorld.Step v8 f (.closes o) f₁) {path s : JSString}
    {options : Option (Option JSString × Option JSString)} {accepted : Bool}
    (hk : .requested o.job.func.call (.write path (.string s) options) accepted ∈ f.world.log)
    {ops : Encoding} (hops : getEncodingOps (ApiCall.encoding options) = .ok (some ops))
    (hlong : poolSize / 2 ≤ ops.byteLength v8 s) (hs : WellFormed s) {stat : Stat}
    (hstat : o.found.create.stat = some stat) (hread : o.found.create.Readable)
    (hwrite : o.found.Writable)
    (hnew : (ApiCall.flag options).head? = some 0x77 ∨ o.found.content = [])
    (hleaves : f₁.Leaves v8 (toUtf8String v8 path) f₂) :
    (∀ k path' accepted', f₁.world.nextCall ≤ k → toUtf8String v8 path' = toUtf8String v8 path →
      .requested k (.readFile path') accepted' ∈ f₂.world.log →
        f₂.world.callCount k ≤ 1 ∧ (f₂.world.sys.pc = .start → f₂.world.callCount k = 1) ∧
          ∀ args' mem, .called k args' mem ∈ f₂.world.log →
            ∃ buffer, args' = [.null, .buffer buffer] ∧ ∀ r : Realm, r.mem = mem →
              (FastBuffer.toString v8 buffer (some (ApiCall.encoding options))).run r =
                .ok (ops.read s) r) ∧
      (ops = .utf8 → (utf8 s).length ≤ kMaxStringLength →
        readFileSync v8 path f₂.world.fs = some (s.takeWhile (· ≠ 0))) := by
  obtain ⟨w, hr, ha⟩ := hf.abstracts
  cases h with
  | @closes _ _ mem' node' args s' pre post hopen htask hstep =>
    have hfound := ha.found o (hopen ▸ mem_append_right _ mem_cons_self)
    have hlog : w.log = f.world.log := by rw [ha.same]
    obtain ⟨w₁, hstep₁, -, ha₁⟩ := ha.closes hopen htask hstep
    obtain ⟨view, told, htask', -, -⟩ :=
      hstep₁.writes_long hv.toDocumented hr (hlog ▸ hk) hops hlong
    have hpath : o.task.path = toUtf8String v8 path := by
      rw [htask']
      rfl
    obtain ⟨w₂, hleaves', ha₂, hreads⟩ := hleaves.abstracts
      (fun o' ho' heq => (ha.apart_of_open hopen o' ho' (hpath.trans heq.symm)).2) ha₁
    rw [hpath] at hfound
    rw [← hfound] at hstat hread hwrite hnew
    obtain ⟨hreadFile, hreadSync⟩ := hstep₁.round_trip hv hr (hlog ▸ hk) hops hlong hs hstat hread
      hwrite hnew hleaves'
    have hfile := ha₂.fs_eq hreads
    rw [ha₁.same, ha₂.same] at hreadFile
    refine ⟨hreadFile, fun hutf8 hmax => ?_⟩
    rw [← hreadSync hutf8 hmax]
    simp only [readFileSync, readFileString, hfile]

/-! ## A run -/

namespace FineWorld.Leaves

variable {f : FineWorld} {w w' : World} {path : CString}

/-- A step that is no thread's work on a file. -/
theorem other (h : FineWorld.Leaves v8 path f ⟨w, []⟩) {a : Action} (hs : World.Step v8 w a w')
    (ha : a.delivers = false) (hfs : w'.fs path = w.fs path) :
    FineWorld.Leaves v8 path f ⟨w', []⟩ :=
  h.tail ⟨⟨_, .other ha hs, fun _ ho => absurd ho not_mem_nil⟩, hfs,
    fun _ ho => absurd ho not_mem_nil⟩

/-- A thread that reads. -/
theorem read (h : FineWorld.Leaves v8 path f ⟨w, []⟩) {job : CallbackJob} {task : Task}
    {args : List Value} (hs : World.Step v8 w (.engine (.deliver job task args)) w')
    (hreads : task.reads = true) : FineWorld.Leaves v8 path f ⟨w', []⟩ := by
  have hfs : w'.fs = w.fs := by
    cases hs with
    | passive hl => cases hl
    | @deliver _ _ told mem' node' _ s' htask hstep =>
      have hnode := Task.execute_of_reads hreads (w.fs task.path) told w.realm.mem
      rw [htask] at hnode
      exact (congrArg _ hnode).trans (Function.update_eq_self _ _)
  obtain ⟨f', hopens, hfiles, hfs', -, hcloses⟩ := hs.split
  rw [Task.opens_of_reads hreads, Function.update_eq_self] at hfs'
  refine (h.tail ⟨⟨_, hopens, fun _ ho => absurd ho not_mem_nil⟩, by rw [hfs'], ?_⟩).tail
    ⟨⟨_, hcloses, trivial⟩, by rw [hfs', hfs], fun _ ho => absurd ho not_mem_nil⟩
  intro o ho _
  rw [hfiles, mem_singleton] at ho
  rw [ho]
  exact hreads

end FineWorld.Leaves

/-- Behind one job that waits, a script reads a file. -/
theorem readFile_run_behind {w : World} (hpc : w.sys.pc = .script) (hp : w.InProgram)
    (hthreads : w.sys.threads = []) (hmq : w.sys.loop.mQu = [])
    (htimers : w.sys.loop.timersQueue = []) {job : CallbackJob} {args : List Value}
    (hplain : job.func.isPlain = true) (hargs : job.args = some args)
    (hq : w.sys.loop.callbackQueue = [job]) {path : JSString} {content : List UInt8}
    (hfile : (w.fs (toUtf8String v8 path)).IsFile content) (hlen : content.length < 2 ^ 31) :
    ∃ w' : World, FineWorld.Leaves v8 (toUtf8String v8 path) ⟨w, []⟩ ⟨w', []⟩ ∧
      .requested w.nextCall (.readFile path) true ∈ w'.log ∧
      ∃ args mem, .called w.nextCall args mem ∈ w'.log := by
  have start : FineWorld.Leaves v8 (toUtf8String v8 path) ⟨w, []⟩ ⟨w, []⟩ := .refl
  obtain ⟨⟨clock, loop, pc, native, threads, nextId, log⟩, realm, fs, stores, frame, nextCall,
    events⟩ := w
  obtain ⟨count, stop, time, heap, callbacks, timers, messages⟩ := loop
  obtain ⟨-, hn, hf⟩ := hp
  cases hpc
  cases hn
  cases hf
  cases hthreads
  cases hmq
  cases htimers
  cases hq
  let node := fs (toUtf8String v8 path)
  let stat : CallbackJob := ⟨nextId, .statArrow path (.user 0 nextCall), none⟩
  let msg : Message := ⟨stat, statsAsync node⟩
  let values := msg.build v8
  obtain ⟨fn, args', happly⟩ := job.func.apply_plain v8 hplain args realm
  rcases apply_statArrow v8 path (.user 0 nextCall) stat node realm with
    ⟨buffer, realm', -, -, harrow⟩ | ⟨hno, -⟩
  case inr => exact absurd (hfile.sized hlen) (hno _)
  let callback : Closure := .readWrapper (.readFileWrapper (.user 0 nextCall) buffer) buffer
  let task := wholeRead v8 path buffer
  let read : CallbackJob := ⟨nextId + 1, callback, none⟩
  let args'' := (task.execute node 0 realm'.mem).2.2
  -- the metadata
  have requested := start.other
    (@World.Step.request v8 _ 0 (.readFile path) _ _ _ _ ⟨rfl, rfl, rfl⟩
      (by simp [ApiCall.views]) rfl (.startWorker rfl rfl)) rfl rfl
  have posted := (requested.other (.jsReturn (.inl rfl) (@Step.scriptReturn _ false rfl rfl))
    rfl rfl).other (@World.Step.post _ _ stat (getStatsAsync v8 path) _
      (@Step.post _ _ _ _ [] [] rfl rfl)) rfl rfl
  have taken := (posted.other (.passive rfl (.enterLoop rfl rfl)) rfl rfl).other
    (.passive rfl (@Step.getFront _ msg [] rfl rfl)) rfl rfl
  have built := (taken.other (@World.Step.build _ _ msg _ rfl (@Step.build _ _ _ rfl)) rfl
    rfl).other
    (.passive rfl (.drained rfl rfl)) rfl rfl
  have others := ((built.other (.passive rfl (.timersDone rfl rfl)) rfl rfl).other
    (@World.Step.invoke _ _ job _ args fn job.func.call args' _ _ rfl hargs happly
      (@Step.invokeCallback _ _ _ args rfl rfl hargs)) rfl rfl).other
    (.jsReturn (.inl rfl) (@Step.callbackReturn _ false _ rfl rfl)) rfl rfl
  -- the content
  have invoked := others.other
    (@World.Step.invokeArrow v8 _ { stat with args := some values } [] values callback task _ _
      rfl rfl harrow (@Step.invokeCallback _ _ [] values rfl rfl rfl)) rfl rfl
  have started := (invoked.other
    (@World.Step.arrow _ _ callback task _ rfl (.startWorker rfl rfl)) rfl rfl).other
    (.jsReturn (.inr rfl) (@Step.callbackReturn _ false _ rfl rfl)) rfl rfl
  have delivered := started.read (@World.Step.deliver _ _ read task 0 _ _ args'' _ rfl
    (@Step.deliver _ _ _ _ [] [] rfl rfl)) rfl
  have called := delivered.other
    (@World.Step.invoke _ _ { read with args := some args'' } [] args'' 0 nextCall
      [argument args'' 0, .buffer buffer] _ _ rfl rfl (Closure.apply_whole _ _ _ _ _ _)
      (@Step.invokeCallback _ _ [] args'' rfl rfl rfl)) rfl rfl
  exact ⟨_, called, by simp, _, _, mem_cons_self⟩

/-- There are well-formed strings of any length without U+0000. -/
theorem exists_wellFormed (n : ℕ) : ∃ s : JSString, s.length = n ∧ WellFormed s ∧ 0 ∉ s := by
  induction n with
  | zero => exact ⟨[], rfl, trivial, not_mem_nil⟩
  | succ n ih =>
    obtain ⟨s, hlen, hs, hnul⟩ := ih
    refine ⟨0x61 :: s, by rw [length_cons, hlen], ?_, by simp [hnul]⟩
    exact (wellFormed_single fun v _ => rfl).2 ⟨rfl, hs⟩

/-- A script writes a string of 2048 units in UTF-16LE, and reads the file again. -/
theorem write_read_round_trip_utf16 : ∃ (s : JSString) (f : FineWorld) (buffer : View) (mem : Mem),
    s.length = 2048 ∧ f.Apart V8.reference ∧
      .called 1 [.null, .buffer buffer] mem ∈ f.world.log ∧ ∀ r : Realm, r.mem = mem →
        (FastBuffer.toString V8.reference buffer (some (jsString "utf16le"))).run r =
          .ok (some s) r := by
  obtain ⟨s, hlen, hs, hnul⟩ := exists_wellFormed 2048
  let path := jsString "f"
  let options : Option (Option JSString × Option JSString) := some (some (jsString "utf16le"), none)
  let api : ApiCall := .write path (.string s) options
  have hops : getEncodingOps (ApiCall.encoding options) = .ok (some .utf16le) := rfl
  obtain ⟨haccepts, hlong⟩ := accepts_utf16 hlen path none
  have scripted := (Transition.Reachable.start ⟨0, fun _ _ => 0, fun _ => .regular [0x62], rfl⟩ :
    World.Reachable V8.reference _).tail (.passive rfl (.nextScript rfl))
  rcases api.perform_cases V8.reference_documented
    (World.Reachable.wellFormed V8.reference_documented scripted) 0 0 with
    ⟨-, func, task, r', hrun, -, hcall, -, -, hshape⟩ | ⟨hno, -⟩
  case inr => exact absurd haccepts hno
  have hplain : func.isPlain = true := by
    rcases hshape with ⟨-, hplain⟩ | ⟨_, h, -⟩
    · exact hplain
    · exact absurd h (by simp [api])
  have hposts : task.posts = false := by
    obtain ⟨view, -, rfl⟩ := ApiCall.perform_write hrun
    rfl
  have requested := scripted.tail (@World.Step.request _ _ 0 api func task _ _ ⟨rfl, rfl, rfl⟩
    (by simp [api, ApiCall.views]) hrun (.startWorker rfl rfl))
  have conclude : ∀ (w w₁ : World) (args : List Value), World.Reachable V8.reference w →
      World.Step V8.reference w (.engine (.deliver ⟨0, func, none⟩ task args)) w₁ →
      .requested 0 api true ∈ w.log → w.fs = (fun _ => .regular [0x62]) →
      w₁.sys.pc = .script → w₁.InProgram → w₁.sys.threads = [] → w₁.sys.loop.mQu = [] →
      w₁.sys.loop.timersQueue = [] → w₁.sys.loop.callbackQueue = [⟨0, func, some args⟩] →
      w₁.nextCall = 1 → ∃ (s : JSString) (f : FineWorld) (buffer : View) (mem : Mem),
        s.length = 2048 ∧ f.Apart V8.reference ∧
          .called 1 [.null, .buffer buffer] mem ∈ f.world.log ∧ ∀ r : Realm, r.mem = mem →
            (FastBuffer.toString V8.reference buffer (some (jsString "utf16le"))).run r =
              .ok (some s) r := by
    intro w w₁ args hr hstep hk hfs hpc hprogram hthreads hmq htimers hq hnext
    rw [← hcall] at hk
    have hregular : ∀ p, (w.fs p).Writable := fun p => by
      rw [hfs]
      exact FileNode.regular_writable [0x62]
    have hreadable : ∀ p, (w.fs p).create.Readable := fun p => by
      rw [hfs]
      exact FileNode.regular_readable [0x62]
    have hstat : ∀ p, (w.fs p).create.stat = (FileNode.regular [0x62]).stat := fun p => by
      rw [hfs]
      rfl
    have hflag : (ApiCall.flag options).head? = some 0x77 := rfl
    obtain ⟨hfile, hlt⟩ := hstep.leaves_file V8.reference_documented hr hk hops hlong (hstat _)
      (hreadable _) (hregular _) (.inl hflag)
    obtain ⟨w₂, hleaves, hreq, args', mem, hcalled⟩ := readFile_run_behind hpc hprogram hthreads
      hmq htimers hplain rfl hq hfile hlt
    obtain ⟨f, hopens, -, -, hlog, hcloses⟩ := hstep.split
    have hf : f.Apart V8.reference := (World.Reachable.apart hr).tail
      ⟨hopens, fun o ho => absurd ho not_mem_nil⟩
    rw [← hlog] at hk
    obtain ⟨-, -, hargs⟩ := (write_read_round_trip V8.reference_documentedUtf8Value hf hcloses hk
      hops hlong hs (hstat _) (hreadable _) (hregular _) (.inl hflag) hleaves).1 _ path true le_rfl
      rfl hreq
    obtain ⟨buffer, rfl, hstring⟩ := hargs args' mem hcalled
    refine ⟨s, _, buffer, mem, hlen, hleaves.apart (hf.tail ⟨hcloses, trivial⟩), hnext ▸ hcalled,
      ?_⟩
    intro r hr
    rw [show jsString "utf16le" = ApiCall.encoding options from rfl, hstring r hr,
      Encoding.read, takeWhile_ne_zero_eq_self.2 hnul]
  exact conclude _ _ _ requested
    (@World.Step.deliver V8.reference _ ⟨0, func, none⟩ task 0 _ _ _ _ rfl
      (@Step.deliver _ _ _ _ [] [] rfl hposts)) mem_cons_self rfl rfl ⟨rfl, rfl, rfl⟩ rfl rfl rfl
      rfl rfl

end NanoJS
