import NanoJS.Files.Origins

/-!
# Whole-file reads of files that change

`Files.readFile` asks for the metadata, allocates a buffer of the size it finds, and reads the file
in a second thread; nothing keeps the file from changing in between. The buffer is zero-filled and
belongs to the job (`World.Cleared`), so what the callback receives is determined by the two files
that the threads have found: the length is the size of the first, the bytes are the beginning of the
second, and zeros behind it (`readFile_torn`).
-/

namespace NanoJS

open List ByteMemory

variable {v8 : V8}

/-! ## Before the read -/

theorem newFastBuffer_zero {n : ℕ} {buffer : View} {r r' : Realm}
    (h : (newFastBuffer true n).run r = .ok buffer r') (a : ℤ) : r'.mem buffer.store a = 0 := by
  simp only [newFastBuffer, EStateM.run, if_true] at h
  split at h
  · cases h
    exact if_pos rfl
  · cases h

namespace World

variable {w w' : World}

/-- The buffer that a thread is to read into is zero. -/
def Cleared (w : World) : Prop :=
  ∀ t ∈ w.tokens, ∀ task, t.place = .running task → ∀ s ∈ t.own, ∀ a, w.realm.mem s a = 0

/-- The job of a thread that has its task to do had it before the step; or the step gives it, and
the buffer is zero. -/
theorem Step.started (hv : v8.Documented) {a : Action} (h : World.Step v8 w a w')
    (hc : w.sys.Control) (hf : w.Framed) (hr : w.realm.WellFormed) (hp : w.Private) {t : Token}
    (ht : t ∈ w'.tokens) {task : Task} (htask : t.place = .running task) :
    t ∈ w.tokens ∨ ∀ s ∈ t.own, ∀ a, w'.realm.mem s a = 0 := by
  cases h.origin hc hf hp ht with
  | kept hold => exact .inl hold
  | moved t₀ hold hsame hplace => exact absurd htask (hplace task)
  | watched fn hfunc hplace =>
    rw [hplace] at htask
    cases htask
  | requested fn api task' hlog hviews hstores hperform hplace =>
    rcases api.perform_cases hv hr fn w.nextCall with ⟨-, _, _, _, h', -, -, hown, -⟩ | ⟨-, e, h'⟩
    · rw [hperform] at h'
      cases h'
      exact .inr (by simp [Token.own, hown])
    · rw [hperform] at h'
      cases h'
  | arrow path fn call args buffer hlog hmem hbuf hfunc hplace =>
    refine .inr fun s hs => ?_
    rw [Token.own, hfunc] at hs
    obtain rfl := mem_singleton.1 hs
    exact newFastBuffer_zero hbuf

/-- A job that holds a store is on its way once. -/
theorem Private.unique (h : w.Private) {t : Token} {rest : List Token}
    (hperm : w.tokens.Perm (t :: rest)) {s : ℕ} (hs : s ∈ t.own) : t ∉ rest := by
  intro ht
  have hnodup := (hperm.flatMap_right Token.own).nodup_iff.1 h.nodup
  rw [flatMap_cons, nodup_append] at hnodup
  exact hnodup.2.2 s hs s (mem_flatMap.2 ⟨t, ht, hs⟩) rfl

/-- **The buffer stays zero until the thread reads.** -/
theorem Step.cleared (hv : v8.Documented) {a : Action} (h : World.Step v8 w a w')
    (hc : w.sys.Control) (hf : w.Framed) (hr : w.realm.WellFormed) (hp : w.Private)
    (hclear : w.Cleared) : w'.Cleared := by
  intro t ht task htask
  rcases h.started hv hc hf hr hp ht htask with hold | hnew
  · intro s hs a'
    rw [h.mem_own hv hc hr hp hold hs]
    · exact hclear t hold task htask s hs a'
    -- the thread that has done its task has given the job away
    · rintro job task' args rfl rfl
      cases h with
      | passive hl => cases hl
      | deliver _ hstep =>
        obtain ⟨rest, h₁, h₂⟩ := exchange hstep hc
        refine hp.unique h₁ hs ((mem_append.1 (h₂.mem_iff.1 ht)).resolve_left ?_)
        simp [Label.gives]
  · exact hnew

theorem Reachable.cleared (hv : v8.Documented) (h : World.Reachable v8 w) : w.Cleared :=
  Transition.Reachable.invariant (I := Cleared)
    (by
      rintro _ ⟨ms, mem, fs, rfl⟩ t ht
      cases ht)
    (fun _ _ _ hr hclear hl => hl.cleared hv (World.Reachable.sys hr).control
      (World.Reachable.framed hr) (World.Reachable.wellFormed hv hr)
      (World.Reachable.private hv hr) hclear) h

end World

/-! ## Behind the read -/

/-- The store holds what was read and zeros, up to the length of the buffer. -/
def HoldsPadded (mem : Mem) (buffer : View) (node : FileNode) : Prop :=
  slice mem buffer.store 0 buffer.byteLength =
    node.read buffer.byteLength 0 ++
      replicate (buffer.byteLength - (node.read buffer.byteLength 0).length) 0

/-- What a stream delivers is not longer than what is asked for. -/
theorem FileNode.length_read_le (node : FileNode) (n : ℕ) (position : ℤ) :
    (node.read n position).length ≤ n := by
  rw [FileNode.read]
  split
  · rw [length_take]
    omega
  · exact Nat.zero_le n

/-- Bytes written to a store of zeros. -/
theorem slice_blit_zero {mem : Mem} {store : ℕ} (hzero : ∀ a, mem store a = 0)
    {bytes : List UInt8} {n : ℕ} (hlen : bytes.length ≤ n) :
    slice (blit mem store 0 bytes) store 0 n = bytes ++ replicate (n - bytes.length) 0 := by
  rw [slice_eq_list_iff (by simp; omega)]
  intro i hi
  by_cases h : i < bytes.length
  · rw [blit_getElem h, getElem_append_left h]
  · rw [blit_outside (by omega), hzero, getElem_append_right (by omega), getElem_replicate]

/-- The job whose thread is to read holds the buffer. -/
theorem Stage.own_of_reading {k : ℕ} {api : ApiCall} {path path' : JSString} {buffer : View}
    {node : FileNode} {func : Closure} {ts : List Token}
    (hs : Stage v8 k api
      [.observed k (getStatsAsync v8 path) node, .requested k (.readFile path) true] ts)
    (ht : ⟨func, .running (wholeRead v8 path' buffer)⟩ ∈ ts) : buffer.store ∈ func.own := by
  generalize htask : wholeRead v8 path' buffer = task at ht
  generalize getStatsAsync v8 path = task' at hs
  cases hs with
  | running ho =>
    cases mem_singleton.1 ht
    cases ho with
    | whole hnode hoffset =>
      rw [wholeRead, Task.read.injEq] at htask
      simp [Closure.own, htask.2.1]
  | posted | ready | statPosted | statReady => simp at ht

namespace World

variable {w w' : World}

/-- What has been read is in the buffer, and zeros behind it. -/
def Padded (v8 : V8) (w : World) : Prop :=
  ∀ k path buffer node node', w.events k = readEvents v8 k path buffer node node' →
    HoldsPadded w.realm.mem buffer node'

/-- And so it is when the callback is called. -/
def Received (v8 : V8) (w : World) : Prop :=
  ∀ k path buffer node node' args mem,
    w.events k = .called k args mem :: readEvents v8 k path buffer node node' →
      HoldsPadded mem buffer node'

/-- What has been read stays as it is. -/
theorem Step.mem_of_readEvents (hv : v8.Documented) {a : Action} (h : World.Step v8 w a w')
    (hc : w.sys.Control) (hr : w.realm.WellFormed) (hp : w.Protocol v8) (hprivate : w.Private)
    {k : ℕ} {path : JSString} {buffer : View} {node node' : FileNode}
    (hevents : w.events k = readEvents v8 k path buffer node node') :
    w'.realm.mem buffer.store = w.realm.mem buffer.store := by
  have hk : .requested k (.readFile path) true ∈ w.events k := by simp [hevents, readEvents]
  have hs := hp.stage hk
  rw [hevents] at hs
  obtain ⟨t, htokens, hown, hplace⟩ := hs.of_readEvents
  have ht : t ∈ w.tokens := mem_of_mem_filter (htokens ▸ mem_singleton_self t)
  exact h.mem_own hv hc hr hprivate ht hown fun job task args _ heq => hplace task (by rw [heq])

/-- The thread reads into a buffer that is zero. -/
theorem Step.padded_of_read {a : Action} (h : World.Step v8 w a w') (hc : w.sys.Control)
    (hp : w.Protocol v8) (hclear : w.Cleared) {k : ℕ} {path : JSString} {buffer : View}
    {node node' : FileNode}
    (hlog : w'.log = .observed k (wholeRead v8 path buffer) node' :: w.log)
    (hevents : w.events k =
      [.observed k (getStatsAsync v8 path) node, .requested k (.readFile path) true]) :
    HoldsPadded w'.realm.mem buffer node' := by
  have hk : .requested k (.readFile path) true ∈ w.events k := by simp [hevents]
  have hs := hp.stage hk
  rw [hevents] at hs
  have hself : ∀ e : FileEvent, w.log ≠ e :: w.log := fun e he => cons_ne_self e _ he.symm
  cases h with
  | @deliver job task told mem' node₁ args s' hexecute hstep =>
    obtain ⟨rfl, rfl, rfl⟩ : job.func.call = k ∧ task = wholeRead v8 path buffer ∧
      w.fs task.path = node' := by simpa using hlog
    obtain ⟨rest, h₁, -⟩ := exchange hstep hc
    have ht : ⟨job.func, .running (wholeRead v8 path buffer)⟩ ∈ w.tokens :=
      h₁.mem_iff.2 mem_cons_self
    have hown := hs.own_of_reading (mem_filter.2 ⟨ht, by simp [Token.call]⟩)
    obtain rfl : blit w.realm.mem buffer.store 0
        ((w.fs (wholeRead v8 path buffer).path).read buffer.byteLength 0) = mem' :=
      congrArg Prod.fst hexecute
    exact slice_blit_zero (hclear _ ht _ rfl _ hown) (FileNode.length_read_le _ _ _)
  | @post job task s' hstep =>
    obtain ⟨rfl, rfl, rfl⟩ : job.func.call = k ∧ task = wholeRead v8 path buffer ∧
      w.fs task.path = node' := by simpa using hlog
    cases hstep with
    | post _ hposts => cases hposts
  | request | refuse | invoke | invokeThrow => simp at hlog
  | _ => exact absurd hlog (hself _)

/-- **What has been read stays in the buffer, in front of zeros.** -/
theorem Step.padded (hv : v8.Documented) {a : Action} (h : World.Step v8 w a w')
    (hc : w.sys.Control) (hr : w.realm.WellFormed) (hp : w.Protocol v8) (hprivate : w.Private)
    (hclear : w.Cleared) (hpad : w.Padded v8) : w'.Padded v8 := by
  intro k path buffer node node' hevents
  have hkeep : w'.events k = w.events k → HoldsPadded w'.realm.mem buffer node' := by
    intro heq
    rw [heq] at hevents
    rw [HoldsPadded, slice, h.mem_of_readEvents hv hc hr hp hprivate hevents]
    exact hpad k path buffer node node' hevents
  rcases h.log with hlog | ⟨e, hlog, -⟩
  · exact hkeep (by rw [events, hlog, events])
  · rcases events_of_log hlog k with heq | heq
    · exact hkeep heq
    · rw [heq, readEvents, cons.injEq] at hevents
      exact h.padded_of_read hc hp hclear (hevents.1 ▸ hlog) hevents.2

/-- **The callback is called with what has been read, in front of zeros.** -/
theorem Step.received {a : Action} (h : World.Step v8 w a w') (hpad : w.Padded v8)
    (hrec : w.Received v8) : w'.Received v8 := by
  intro k path buffer node node' args mem hevents
  rcases h.log with hlog | ⟨e, hlog, -, hcalled⟩
  · have heq : w'.events k = w.events k := by rw [events, hlog, events]
    exact hrec k path buffer node node' args mem (heq ▸ hevents)
  · rcases events_of_log hlog k with heq | heq
    · exact hrec k path buffer node node' args mem (heq ▸ hevents)
    · rw [heq, cons.injEq] at hevents
      rw [hcalled k args mem hevents.1]
      exact hpad k path buffer node node' hevents.2

theorem Reachable.padded (hv : v8.Documented) (h : World.Reachable v8 w) : w.Padded v8 :=
  Transition.Reachable.invariant (I := Padded v8)
    (by
      rintro _ ⟨ms, mem, fs, rfl⟩ k path buffer node node' hevents
      cases hevents)
    (fun _ _ _ hr hpad hl => hl.padded hv (World.Reachable.sys hr).control
      (World.Reachable.wellFormed hv hr) (World.Reachable.protocol hv hr)
      (World.Reachable.private hv hr) (World.Reachable.cleared hv hr) hpad) h

theorem Reachable.received (hv : v8.Documented) (h : World.Reachable v8 w) : w.Received v8 :=
  Transition.Reachable.invariant (I := Received v8)
    (by
      rintro _ ⟨ms, mem, fs, rfl⟩ k path buffer node node' args mem hevents
      cases hevents)
    (fun _ _ _ hr hrec hl => hl.received (World.Reachable.padded hv hr) hrec) h

end World

/-! ## The result -/

/-- **A file that changes during the operation.** In every reachable state: a callback of
`Files.readFile` has been called behind two threads, one that found a file of the length of the
buffer, and then one that read; with null and a buffer that holds what that read delivered, from the
beginning of the file it found, and zeros up to its length. -/
theorem readFile_torn {v8 : V8} (hv : v8.Documented) {w : World} (hr : World.Reachable v8 w)
    {k : ℕ} {path : JSString} {accepted : Bool}
    (hk : .requested k (.readFile path) accepted ∈ w.log) {args : List Value} {mem : Mem}
    (hcalled : .called k args mem ∈ w.log) :
    ∃ (buffer : View) (node node' : FileNode), args = [.null, .buffer buffer] ∧
      w.events k = [.called k args mem, .observed k (wholeRead v8 path buffer) node',
        .observed k (getStatsAsync v8 path) node, .requested k (.readFile path) true] ∧
      node.Sized buffer.byteLength ∧
      buffer.bytes mem = node'.read buffer.byteLength 0 ++
        replicate (buffer.byteLength - (node'.read buffer.byteLength 0).length) 0 := by
  have hmem : .requested k (.readFile path) accepted ∈ w.events k := World.mem_events.2 ⟨hk, rfl⟩
  obtain ⟨buffer, node, node', hevents, hargs, hoffset, hsized⟩ :=
    ((World.Reachable.protocol hv hr).stage hmem).of_called (World.mem_events.2 ⟨hcalled, rfl⟩)
  refine ⟨buffer, node, node', hargs, hevents, hsized, ?_⟩
  have hbytes := World.Reachable.received hv hr k path buffer node node' args mem hevents
  rw [View.bytes, hoffset]
  exact hbytes

/-- A script reads a file of three bytes, which has one when the second thread reads. -/
theorem readFile_torn_shrunk : ∃ w : World, World.Reachable V8.reference w ∧
    ∃ args mem buffer, .called 0 args mem ∈ w.log ∧ args = [.null, .buffer buffer] ∧
      buffer.byteLength = 3 ∧ buffer.bytes mem = [0x64, 0, 0] := by
  let path := jsString "f"
  let node := FileNode.regular [0x61, 0x62, 0x63]
  let node' := FileNode.regular [0x64]
  let realm := Realm.load fun _ _ => 0
  let job : CallbackJob := ⟨0, .statArrow path (.user 0 0), none⟩
  let msg : Message := ⟨job, statsAsync node⟩
  let args := msg.build V8.reference
  rcases apply_statArrow V8.reference path (.user 0 0) job node realm with
    ⟨buffer, realm', -, -, happly⟩ | ⟨hno, -⟩
  case inr =>
    exact absurd ((FileNode.regular_isFile [0x61, 0x62, 0x63]).sized (by decide)) (hno _)
  let callback : Closure := .readWrapper (.readFileWrapper (.user 0 0) buffer) buffer
  let task := wholeRead V8.reference path buffer
  let job' : CallbackJob := ⟨1, callback, none⟩
  let args' := (task.execute node' 0 realm'.mem).2.2
  -- the metadata
  have posted := (((Transition.Reachable.start ⟨0, fun _ _ => 0, fun _ => node, rfl⟩ :
    World.Reachable V8.reference _).tail (.passive rfl (.nextScript rfl))).tail
    (@World.Step.request _ _ 0 (.readFile path) _ _ _ _ ⟨rfl, rfl, rfl⟩
      (by simp [ApiCall.views]) rfl (.startWorker rfl rfl))).tail
    (@World.Step.post _ _ job (getStatsAsync V8.reference path) _
      (@Step.post _ _ _ _ [] [] rfl rfl))
  have built := ((((posted.tail (.jsReturn (.inl rfl) (@Step.scriptReturn _ false rfl rfl))).tail
    (.passive rfl (.enterLoop rfl rfl))).tail (.passive rfl (@Step.getFront _ msg [] rfl rfl))).tail
    (@World.Step.build _ _ msg _ rfl (@Step.build _ _ _ rfl))).tail
    (.passive rfl (.drained rfl rfl))
  have invoked := (built.tail (.passive rfl (.timersDone rfl rfl))).tail
    (@World.Step.invokeArrow _ _ { job with args := some args } [] args callback task _ _ rfl rfl
      happly (@Step.invokeCallback _ _ [] args rfl rfl rfl))
  -- the file changes, and is read
  have delivered := (((invoked.tail
    (@World.Step.arrow _ _ callback task _ rfl (.startWorker rfl rfl))).tail
    (@World.Step.file _ _ task.path node')).tail
    (.jsReturn (.inr rfl) (@Step.callbackReturn _ false _ rfl rfl))).tail
    (@World.Step.deliver _ _ job' task 0 _ _ args' _ rfl (@Step.deliver _ _ _ _ [] [] rfl rfl))
  have called := delivered.tail
    (@World.Step.invoke _ _ { job' with args := some args' } [] args' 0 0
      [argument args' 0, .buffer buffer] _ _ rfl rfl (Closure.apply_whole _ _ _ _ _ _)
      (@Step.invokeCallback _ _ [] args' rfl rfl rfl))
  obtain ⟨buffer', node₁, node₂, hargs, hevents, hsized, hbytes⟩ :=
    @readFile_torn _ V8.reference_documented _ called 0 path true (by simp) _ _ List.mem_cons_self
  obtain rfl : buffer' = buffer := by
    have : ([.null, .buffer buffer] : List Value) = [.null, .buffer buffer'] := hargs
    simpa using this.symm
  have hnodes : [FileEvent.observed 0 task node',
      .observed 0 (getStatsAsync V8.reference path) node, .requested 0 (.readFile path) true] =
        readEvents V8.reference 0 path buffer' node₁ node₂ :=
    (List.cons.inj hevents).2
  obtain ⟨⟨-, rfl⟩, rfl⟩ : (_ ∧ node' = node₂) ∧ node = node₁ := by
    simpa [readEvents] using hnodes
  have hlength : buffer'.byteLength = 3 :=
    hsized.unique ((FileNode.regular_isFile [0x61, 0x62, 0x63]).sized (by decide))
  refine ⟨_, called, _, _, buffer', List.mem_cons_self, hargs, hlength, ?_⟩
  rw [hbytes, hlength]
  rfl

end NanoJS
