import NanoJS.Files.Failures
import NanoJS.Files.Privacy
import NanoJS.Files.Reads

/-!
# Whole-file reads

The bytes that the thread of `Files.readFile` has read stay in the buffer until the callback is
called (`World.Filled`), and the callback finds them (`World.Snapshot`). So for a file that is
there and can be read, and does not change during the operation, the callback is called exactly
once, with null and a buffer of the content of the file (`readFile_delivers`).
-/

namespace NanoJS

open ByteMemory

/-! ## The events of a read -/

/-- The read that `Files.readFile` starts. -/
def wholeRead (v8 : V8) (path : JSString) (buffer : View) : Task :=
  .read (toUtf8String v8 path) buffer.store 0 buffer.byteLength 0

/-- The events of `Files.readFile` when the thread has read. -/
def readEvents (v8 : V8) (k : ℕ) (path : JSString) (buffer : View) (node node' : FileNode) :
    List FileEvent :=
  [.observed k (wholeRead v8 path buffer) node', .observed k (getStatsAsync v8 path) node,
    .requested k (.readFile path) true]

/-- The store holds what was read. -/
def Holds (mem : Mem) (buffer : View) (node : FileNode) : Prop :=
  slice mem buffer.store 0 (node.read buffer.byteLength 0).length = node.read buffer.byteLength 0

variable {v8 : V8}

/-- When the thread has read, the job holds the buffer, and waits for the loop. -/
theorem Stage.of_readEvents {k : ℕ} {api : ApiCall} {path : JSString} {buffer : View}
    {node node' : FileNode} {ts : List Token}
    (hs : Stage v8 k api (readEvents v8 k path buffer node node') ts) :
    ∃ t, ts = [t] ∧ buffer.store ∈ t.own ∧ ∀ task, t.place ≠ .running task := by
  rw [readEvents] at hs
  generalize htask : wholeRead v8 path buffer = task at hs
  generalize getStatsAsync v8 path = task' at hs
  cases hs with
  | running ho => cases ho
  | posted ho | ready ho =>
    cases ho with
    | whole hnode hoffset =>
      rw [wholeRead, Task.read.injEq] at htask
      exact ⟨_, rfl, by simp [Token.own, Closure.own, htask.2.1], by simp⟩

namespace World

variable {w w' : World}

/-- What a step adds to the log. -/
theorem Step.log {a : Action} (h : World.Step v8 w a w') :
    w'.log = w.log ∨ ∃ e, w'.log = e :: w.log ∧
      (∀ k task node, e = .observed k task node → node = w.fs task.path ∧
        (task.posts = false → ∃ told, w'.realm.mem = (task.execute node told w.realm.mem).1)) ∧
      ∀ k args mem, e = .called k args mem → mem = w.realm.mem := by
  cases h with
  | request | refuse | invokeThrow => exact .inr ⟨_, rfl, by simp, by simp⟩
  | invoke hq hargs happly hs =>
    obtain ⟨-, rfl, -⟩ := Closure.apply_call happly
    exact .inr ⟨_, rfl, by simp, by simp⟩
  | @deliver job task told mem' node' args s' htask hs =>
    refine .inr ⟨_, rfl, ?_, by simp⟩
    rintro k task' node ⟨⟩
    exact ⟨rfl, fun _ => ⟨told, by rw [htask]⟩⟩
  | post hs =>
    refine .inr ⟨_, rfl, ?_, by simp⟩
    rintro k task' node ⟨⟩
    refine ⟨rfl, fun hposts => ?_⟩
    cases hs with
    | post _ hposts' => exact absurd hposts (by simp [hposts'])
  | _ => exact .inl rfl

/-- What has been read is in the buffer. -/
def Filled (v8 : V8) (w : World) : Prop :=
  ∀ k path buffer node node', w.events k = readEvents v8 k path buffer node node' →
    Holds w.realm.mem buffer node'

/-- What has been read is in the buffer when the callback is called. -/
def Snapshot (v8 : V8) (w : World) : Prop :=
  ∀ k path buffer node node' args mem,
    w.events k = .called k args mem :: readEvents v8 k path buffer node node' →
      Holds mem buffer node'

/-- The events of a call change by what is put into the log. -/
theorem events_of_log {e : FileEvent} (h : w'.log = e :: w.log) (k : ℕ) :
    w'.events k = w.events k ∨ w'.events k = e :: w.events k := by
  rw [events, h]
  by_cases hk : e.call = k
  · exact .inr (by rw [List.filter_cons_of_pos (by simpa using hk), events])
  · exact .inl (by rw [List.filter_cons_of_neg (by simpa using hk), events])

/-- **What has been read stays in the buffer.** -/
theorem Step.filled (hv : v8.Documented) {a : Action} (h : World.Step v8 w a w')
    (hc : w.sys.Control) (hr : w.realm.WellFormed) (hp : w.Protocol v8) (hprivate : w.Private)
    (hf : w.Filled v8) : w'.Filled v8 := by
  intro k path buffer node node' hevents
  have hkeep : w'.events k = w.events k → Holds w'.realm.mem buffer node' := by
    intro heq
    rw [heq] at hevents
    have hk : .requested k (.readFile path) true ∈ w.events k := by simp [hevents, readEvents]
    have hs := hp.stage hk
    rw [hevents] at hs
    obtain ⟨t, htokens, hown, hplace⟩ := hs.of_readEvents
    have ht : t ∈ w.tokens := List.mem_of_mem_filter (htokens ▸ List.mem_singleton_self t)
    have hmem : w'.realm.mem buffer.store = w.realm.mem buffer.store :=
      h.mem_own hv hc hr hprivate ht hown fun job task args _ heq =>
        hplace task (by rw [heq])
    rw [Holds, slice, hmem]
    exact hf k path buffer node node' hevents
  rcases h.log with hlog | ⟨e, hlog, hread, -⟩
  · exact hkeep (by rw [events, hlog, events])
  · rcases events_of_log hlog k with heq | heq
    · exact hkeep heq
    · rw [heq, readEvents, List.cons.injEq] at hevents
      obtain ⟨told, hmem⟩ := (hread k _ _ hevents.1).2 rfl
      rw [Holds, hmem]
      exact slice_blit

/-- **The callback is called with what has been read.** -/
theorem Step.snapshot {a : Action} (h : World.Step v8 w a w') (hf : w.Filled v8)
    (hs : w.Snapshot v8) : w'.Snapshot v8 := by
  intro k path buffer node node' args mem hevents
  rcases h.log with hlog | ⟨e, hlog, -, hcalled⟩
  · have heq : w'.events k = w.events k := by rw [events, hlog, events]
    exact hs k path buffer node node' args mem (heq ▸ hevents)
  · rcases events_of_log hlog k with heq | heq
    · exact hs k path buffer node node' args mem (heq ▸ hevents)
    · rw [heq, List.cons.injEq] at hevents
      rw [hcalled k args mem hevents.1]
      exact hf k path buffer node node' hevents.2

theorem Reachable.filled (hv : v8.Documented) (h : World.Reachable v8 w) : w.Filled v8 :=
  Transition.Reachable.invariant (I := Filled v8)
    (by
      rintro _ ⟨ms, mem, fs, rfl⟩ k path buffer node node' hevents
      cases hevents)
    (fun _ _ _ hr hf hl => hl.filled hv (World.Reachable.sys hr).control
      (World.Reachable.wellFormed hv hr) (World.Reachable.protocol hv hr)
      (World.Reachable.private hv hr) hf) h

theorem Reachable.snapshot (hv : v8.Documented) (h : World.Reachable v8 w) : w.Snapshot v8 :=
  Transition.Reachable.invariant (I := Snapshot v8)
    (by
      rintro _ ⟨ms, mem, fs, rfl⟩ k path buffer node node' args mem hevents
      cases hevents)
    (fun _ _ _ hr hs hl => hl.snapshot (World.Reachable.filled hv hr) hs) h

end World

/-! ## Delivery -/

/-- There is a file with the content, which can be read. -/
structure FileNode.IsFile (node : FileNode) (content : List UInt8) : Prop where
  stat : ∃ stat, node.stat = some stat ∧ stat.size = content.length
  readable : node.Readable
  content : node.content = content

theorem FileNode.regular_isFile (content : List UInt8) : (regular content).IsFile content :=
  ⟨⟨_, rfl, rfl⟩, regular_readable content, rfl⟩

/-- Its size can be allocated. -/
theorem FileNode.IsFile.sized {node : FileNode} {content : List UInt8} (h : node.IsFile content)
    (hlen : content.length < 2 ^ 31) : node.Sized content.length := by
  obtain ⟨stat, hstat, hsize⟩ := h.stat
  exact ⟨stat, hstat, by rw [hsize, toInt32_of_lt (by omega) (by omega)]⟩

theorem FileNode.Sized.unique {node : FileNode} {m n : ℕ} (hm : node.Sized m) (hn : node.Sized n) :
    m = n := by
  obtain ⟨stat, hstat, hsize⟩ := hm
  obtain ⟨stat', hstat', hsize'⟩ := hn
  obtain rfl := Option.some.inj (hstat.symm.trans hstat')
  omega

/-- A read of the size of the file reads the file. -/
theorem FileNode.IsFile.read_eq {node : FileNode} {content : List UInt8} (h : node.IsFile content) :
    node.read content.length 0 = content := by
  rw [h.readable.read_eq le_rfl, h.content]
  simp

section

variable {k : ℕ} {path : JSString} {es : List FileEvent} {ts : List Token}

/-- The threads of the call work on its path. -/
theorem Stage.path_eq (hs : Stage v8 k (.readFile path) es ts) {task : Task} {node : FileNode}
    (hmem : .observed k task node ∈ es) : task.path = toUtf8String v8 path := by
  cases hs with
  | refused ha => exact absurd trivial ha
  | running ho | posted ho | ready ho | called ho =>
    cases ho with
    | plain _ hapi => cases hapi
    | whole =>
      simp only [List.mem_cons, List.not_mem_nil, FileEvent.observed.injEq, reduceCtorEq,
        true_and, or_false, false_or] at hmem
      rcases hmem with ⟨rfl, -⟩ | ⟨rfl, -⟩ <;> rfl
  | _ =>
    simp only [List.mem_cons, List.not_mem_nil, FileEvent.observed.injEq, reduceCtorEq,
      true_and, or_false, false_or] at hmem
    try exact hmem.1 ▸ rfl

/-- The callback is called behind the read, with null and the buffer. -/
theorem Stage.of_called (hs : Stage v8 k (.readFile path) es ts) {args : List Value}
    {mem : Mem} (hmem : .called k args mem ∈ es) :
    ∃ buffer node node', es = .called k args mem :: readEvents v8 k path buffer node node' ∧
      args = [.null, .buffer buffer] ∧ buffer.byteOffset = 0 ∧ node.Sized buffer.byteLength := by
  cases hs with
  | running ho | posted ho | ready ho =>
    cases ho <;> simp at hmem
  | called ho hnull happly =>
    cases ho with
    | plain _ hapi => cases hapi
    | whole hnode hoffset =>
      cases happly
      obtain ⟨rfl, rfl⟩ : args = _ ∧ mem = _ := by simpa using hmem
      exact ⟨_, _, _, rfl, by simpa [argument] using hnull, hoffset, hnode⟩
  | _ => simp at hmem

/-- When no job is on its way, the callback has been called, unless the file has no size. -/
theorem Stage.of_settled (hs : Stage v8 k (.readFile path) es []) {n : ℕ}
    (hsized : ∀ task node, .observed k task node ∈ es → node.Sized n) :
    ∃ args mem, .called k args mem ∈ es := by
  cases hs with
  | refused ha => exact absurd trivial ha
  | called => exact ⟨_, _, List.mem_cons_self⟩
  | lost hnode => exact absurd (hsized _ _ (List.mem_cons_of_mem _ List.mem_cons_self)) (hnode n)

end

namespace World

/-- The threads of the call have found a file with the content. -/
def Found (w : World) (k : ℕ) (content : List UInt8) : Prop :=
  ∀ task node, .observed k task node ∈ w.events k → node.IsFile content

/-- The callback was called exactly once, with null and a buffer that holds the content. -/
structure Delivered (w : World) (k : ℕ) (content : List UInt8) : Prop where
  once : w.callCount k = 1
  args : ∀ args mem, .called k args mem ∈ w.events k → ∃ buffer : View,
    args = [.null, .buffer buffer] ∧ buffer.byteLength = content.length ∧
      buffer.bytes mem = content

variable {w w' : World} {k : ℕ} {path : JSString} {content : List UInt8}

/-- While the file stays as it is, the threads find it. -/
theorem Step.found {a : Action} (h : World.Step v8 w a w') (hp' : w'.Protocol v8)
    {accepted : Bool}
    (hk : .requested k (.readFile path) accepted ∈ w.events k)
    (hfile : (w.fs (toUtf8String v8 path)).IsFile content) (hf : w.Found k content) :
    w'.Found k content := by
  intro task node hmem
  rcases h.log with hlog | ⟨e, hlog, hread, -⟩
  · rw [events, hlog] at hmem
    exact hf task node hmem
  · rcases events_of_log hlog k with heq | heq
    · exact hf task node (heq ▸ hmem)
    · have hk' : .requested k (.readFile path) accepted ∈ w'.events k :=
        heq ▸ List.mem_cons_of_mem e hk
      have hpath := (hp'.stage hk').path_eq hmem
      rw [heq, List.mem_cons] at hmem
      rcases hmem with rfl | hmem
      · rw [(hread k task node rfl).1, hpath]
        exact hfile
      · exact hf task node hmem

/-- **What the callback receives.** -/
theorem Snapshot.delivers (hs : w.Snapshot v8) (hp : w.Protocol v8) {accepted : Bool}
    (hk : .requested k (.readFile path) accepted ∈ w.events k) (hlen : content.length < 2 ^ 31)
    (hf : w.Found k content) {args : List Value} {mem : Mem}
    (hcalled : .called k args mem ∈ w.events k) : ∃ buffer : View,
      args = [.null, .buffer buffer] ∧ buffer.byteLength = content.length ∧
        buffer.bytes mem = content := by
  obtain ⟨buffer, node, node', hevents, hargs, hoffset, hsized⟩ := (hp.stage hk).of_called hcalled
  have hnode : node.IsFile content :=
    hf (getStatsAsync v8 path) node (by simp [hevents, readEvents])
  have hnode' : node'.IsFile content :=
    hf (wholeRead v8 path buffer) node' (by simp [hevents, readEvents])
  have hlength : buffer.byteLength = content.length := hsized.unique (hnode.sized hlen)
  have hbytes : Holds mem buffer node' := hs k path buffer node node' args mem hevents
  rw [Holds, hlength, hnode'.read_eq] at hbytes
  exact ⟨buffer, hargs, hlength, by rw [View.bytes, hoffset, hlength]; exact hbytes⟩

/-- A call whose callback has been called is delivered. -/
theorem Snapshot.delivered (hs : w.Snapshot v8) (hp : w.Protocol v8) {accepted : Bool}
    (hk : .requested k (.readFile path) accepted ∈ w.events k) (hlen : content.length < 2 ^ 31)
    (hf : w.Found k content) (hcalled : ∃ args mem, .called k args mem ∈ w.events k) :
    w.Delivered k content := by
  obtain ⟨args, mem, hmem⟩ := hcalled
  have hpos : 0 < w.callCount k := List.countP_pos_iff.2 ⟨_, hmem, rfl⟩
  exact ⟨Nat.le_antisymm (hp.callCount_le hk) hpos, fun _ _ h => hs.delivers hp hk hlen hf h⟩

/-- The callback of a settled call has been called. -/
theorem Protocol.called (hp : w.Protocol v8) {accepted : Bool}
    (hk : .requested k (.readFile path) accepted ∈ w.events k) (hlen : content.length < 2 ^ 31)
    (hf : w.Found k content) (hsettled : w.Settled k) :
    ∃ args mem, .called k args mem ∈ w.events k := by
  have hs := hp.stage hk
  rw [show w.tokensOf k = [] from hsettled] at hs
  exact hs.of_settled fun task node hmem => (hf task node hmem).sized hlen

/-- The log grows. -/
theorem Step.log_subset {a : Action} (h : World.Step v8 w a w') : w.log ⊆ w'.log := by
  rcases h.log with hlog | ⟨e, hlog, -⟩ <;> rw [hlog]
  · exact List.Subset.refl _
  · exact List.subset_cons_self _ _

end World

/-- **Whole-file reads.** In any reachable state in which the program has called `Files.readFile`
and the threads of the call have found a readable file of less than 2 ^ 31 bytes, always with the
same content, the callback has been called at most once, and with null and a buffer of the length
of the content that holds it; when the call is settled, it has been called exactly once. The call is
settled when `Run` has returned; and when the file stays as it is, the content is delivered in the
end along every fair run in which the program makes no further calls. -/
theorem readFile_delivers {v8 : V8} (hv : v8.Documented) {w : World} (hr : World.Reachable v8 w)
    {k : ℕ} {path : JSString} {accepted : Bool}
    (hk : .requested k (.readFile path) accepted ∈ w.log) {content : List UInt8}
    (hlen : content.length < 2 ^ 31) (hfound : w.Found k content) :
    w.callCount k ≤ 1 ∧
      (∀ args mem, .called k args mem ∈ w.log → ∃ buffer : View,
        args = [.null, .buffer buffer] ∧ buffer.byteLength = content.length ∧
          buffer.bytes mem = content) ∧
      (w.Settled k → w.Delivered k content) ∧
      (w.sys.pc = .start → w.Settled k) ∧
      ∀ run : Transition.Run (World.QuietStep v8), run.state 0 = w → run.Fair Action.actor →
        (∀ n, ((run.state n).fs (toUtf8String v8 path)).IsFile content) →
        ∃ n, ∀ m, n ≤ m → (run.state m).Delivered k content := by
  have hmem : .requested k (.readFile path) accepted ∈ w.events k := World.mem_events.2 ⟨hk, rfl⟩
  have hp := World.Reachable.protocol hv hr
  have hs := World.Reachable.snapshot hv hr
  refine ⟨hp.callCount_le hmem, fun args mem hcalled => ?_, fun hsettled => ?_, hr.settled, ?_⟩
  · exact hs.delivers hp hmem hlen hfound (World.mem_events.2 ⟨hcalled, rfl⟩)
  · exact hs.delivered hp hmem hlen hfound (hp.called hmem hlen hfound hsettled)
  rintro run rfl hfair hfile
  have hrun : ∀ n, World.Reachable v8 (run.state n) ∧
      .requested k (.readFile path) accepted ∈ (run.state n).log :=
    run.invariant (I := fun w => World.Reachable v8 w ∧
        .requested k (.readFile path) accepted ∈ w.log) ⟨hr, hk⟩
      fun w a w' ⟨hw, hlog⟩ hstep => ⟨hw.tail hstep.1, hstep.1.log_subset hlog⟩
  have hrequest : ∀ n, .requested k (.readFile path) accepted ∈ (run.state n).events k :=
    fun n => World.mem_events.2 ⟨(hrun n).2, rfl⟩
  have hfound' : ∀ n, (run.state n).Found k content := by
    intro n
    induction n with
    | zero => exact hfound
    | succ n ih =>
      rcases hl : run.label n with _ | a
      · rwa [run.idle n hl]
      · exact (run.moves n a hl).1.found (World.Reachable.protocol hv (hrun (n + 1)).1)
          (hrequest n) (hfile n) ih
  obtain ⟨n, hn⟩ := World.eventually_settled hv hfair hr ⟨_, _, hk⟩
  have hpn := World.Reachable.protocol hv (hrun n).1
  obtain ⟨args, mem, hcalled⟩ := hpn.called (hrequest n) hlen (hfound' n) hn
  refine ⟨n, fun m hm => ?_⟩
  have hcalled' : .called k args mem ∈ (run.state m).log :=
    run.invariant_of_le (I := fun w => .called k args mem ∈ w.log)
      (World.mem_events.1 hcalled).1 hm fun w a w' hlog hstep => hstep.1.log_subset hlog
  exact (World.Reachable.snapshot hv (hrun m).1).delivered
    (World.Reachable.protocol hv (hrun m).1) (hrequest m) hlen (hfound' m)
    ⟨args, mem, World.mem_events.2 ⟨hcalled', rfl⟩⟩

/-! ## A run -/

theorem Closure.apply_whole (v8 : V8) (fn call : ℕ) (buffer : View) (args : List Value)
    (r : Realm) :
    ((Closure.readWrapper (.readFileWrapper (.user fn call) buffer) buffer).apply v8 args).run r =
      .ok (.call fn call [argument args 0, .buffer buffer]) r :=
  rfl

/-- A script reads a regular file, and `Run` returns. -/
theorem readFile_run {content : List UInt8} (hlen : content.length < 2 ^ 31) :
    ∃ w : World, World.Reachable V8.reference w ∧ w.sys.pc = .start ∧
      ∃ args mem buffer, w.log = .called 0 args mem ::
        readEvents V8.reference 0 (jsString "f") buffer (.regular content) (.regular content) := by
  let path := jsString "f"
  let node := FileNode.regular content
  let realm := Realm.load fun _ _ => 0
  let job : CallbackJob := ⟨0, .statArrow path (.user 0 0), none⟩
  let msg : Message := ⟨job, statsAsync node⟩
  let args := msg.build V8.reference
  rcases apply_statArrow V8.reference path (.user 0 0) job node realm with
    ⟨buffer, realm', -, -, happly⟩ | ⟨hno, -⟩
  case inr => exact absurd ((FileNode.regular_isFile content).sized hlen) (hno _)
  let callback : Closure := .readWrapper (.readFileWrapper (.user 0 0) buffer) buffer
  let task := wholeRead V8.reference path buffer
  let job' : CallbackJob := ⟨1, callback, none⟩
  let args' := (task.execute node 0 realm'.mem).2.2
  -- the metadata
  have requested := ((Transition.Reachable.start ⟨0, fun _ _ => 0, fun _ => node, rfl⟩ :
    World.Reachable V8.reference _).tail (.passive rfl (.nextScript rfl))).tail
    (@World.Step.request _ _ 0 (.readFile path) _ _ _ _ ⟨rfl, rfl, rfl⟩
      (by simp [ApiCall.views]) rfl (.startWorker rfl rfl))
  have posted := (requested.tail (.jsReturn (.inl rfl) (@Step.scriptReturn _ false rfl rfl))).tail
    (@World.Step.post _ _ job (getStatsAsync V8.reference path) _
      (@Step.post _ _ _ _ [] [] rfl rfl))
  have taken := (posted.tail (.passive rfl (.enterLoop rfl rfl))).tail
    (.passive rfl (@Step.getFront _ msg [] rfl rfl))
  have built := (taken.tail (@World.Step.build _ _ msg _ rfl (@Step.build _ _ _ rfl))).tail
    (.passive rfl (.drained rfl rfl))
  have invoked := (built.tail (.passive rfl (.timersDone rfl rfl))).tail
    (@World.Step.invokeArrow _ _ { job with args := some args } [] args callback task _ _ rfl rfl
      happly (@Step.invokeCallback _ _ [] args rfl rfl rfl))
  -- the content
  have started := (invoked.tail
    (@World.Step.arrow _ _ callback task _ rfl (.startWorker rfl rfl))).tail
    (.jsReturn (.inr rfl) (@Step.callbackReturn _ false _ rfl rfl))
  have delivered := started.tail (@World.Step.deliver _ _ job' task 0 _ _ args' _ rfl
    (@Step.deliver _ _ _ _ [] [] rfl rfl))
  have called := delivered.tail
    (@World.Step.invoke _ _ { job' with args := some args' } [] args' 0 0
      [argument args' 0, .buffer buffer] _ _ rfl rfl (Closure.apply_whole _ _ _ _ _ _)
      (@Step.invokeCallback _ _ [] args' rfl rfl rfl))
  have returned := (called.tail (.jsReturn (.inl rfl)
    (@Step.callbackReturn _ false _ rfl rfl))).tail
    (.passive rfl (@Step.updateTime _ none rfl rfl rfl))
  have left := (returned.tail (.passive rfl (@Step.updateDone _ none rfl (by simp)))).tail
    (.passive rfl (.leaveLoop rfl rfl))
  exact ⟨_, left, rfl, _, _, buffer, rfl⟩

/-- A script reads a file of three bytes. -/
theorem readFile_delivers_regular : ∃ w : World, w.sys.pc = .start ∧
    .requested 0 (.readFile (jsString "f")) true ∈ w.log ∧ w.Delivered 0 [0x61, 0x62, 0x63] := by
  have hlen : ([0x61, 0x62, 0x63] : List UInt8).length < 2 ^ 31 := by decide
  obtain ⟨w, hr, hpc, args, mem, buffer, hlog⟩ := readFile_run hlen
  have hk : .requested 0 (.readFile (jsString "f")) true ∈ w.log := by simp [hlog, readEvents]
  have hfound : w.Found 0 [0x61, 0x62, 0x63] := by
    intro task node hmem
    have hnode : node = .regular [0x61, 0x62, 0x63] := by
      rw [World.events, hlog, readEvents] at hmem
      simp only [FileEvent.call, decide_true, List.filter_cons_of_pos, List.filter_nil,
        List.mem_cons, reduceCtorEq, FileEvent.observed.injEq, List.not_mem_nil, true_and,
        false_or, or_false] at hmem
      exact hmem.elim And.right And.right
    exact hnode ▸ FileNode.regular_isFile _
  obtain ⟨-, -, hdelivered, hsettled, -⟩ :=
    readFile_delivers V8.reference_documented hr hk hlen hfound
  exact ⟨w, hpc, hk, hdelivered (hsettled hpc)⟩

end NanoJS
