import NanoJS.Files.Origins

/-!
# What threads access

The threads of `readAsync` and `writeAsync` get the address of a backing store, and check nothing:
what they access depends on the numbers that the call has passed. Sizes of stores do not change
(`World.Step.size`), so a thread stays inside of its store, whatever it finds at its path and
whenever it runs, exactly when the numbers of its call fit the store (`threads_inside`). The offset
of a view in its store is in none of the numbers. That the store is still there when the thread
runs is up to whoever has called: the native functions keep no reference to it.
-/

namespace NanoJS

open List ByteMemory

/-! ## Accesses -/

namespace Task

/-- The store whose address the thread gets. -/
def data? : Task → Option ℕ
  | .read _ data .. | .write _ data .. => some data
  | .stat _ => none

/-- The thread accesses the address when it finds the file. -/
def Touches (task : Task) (node : FileNode) (a : ℤ) : Prop :=
  match task with
  | .read _ _ offset length position =>
    offset ≤ a ∧ a < offset + (node.read length position).length
  | .write _ _ length _ => node.openWrite = true ∧ 0 ≤ a ∧ a < length
  | .stat _ => False

/-- Whatever the thread finds, it accesses only bytes of its store. -/
def Inside (task : Task) (size : ℕ → ℕ) : Prop :=
  ∀ s ∈ task.data?, ∀ node a, task.Touches node a → 0 ≤ a ∧ a < size s

end Task

/-- What a read asks for lies in a store. -/
def ReadOptions.Fit (options : ReadOptions) (size : ℕ) : Prop :=
  0 ≤ integerValue options.position → 0 < integerValue options.length →
    0 ≤ integerValue options.offset ∧
      integerValue options.offset + integerValue options.length ≤ size

/-- The options that `Files.read` passes on. -/
def ReadOptions.ofRead (buffer : View) : Option ReadOptions → ReadOptions
  | none => ⟨some (.fin 0), some (.fin buffer.byteLength), some (.fin 0)⟩
  | some options =>
    ⟨orDefault options.offset 0, orDefault options.length buffer.byteLength,
      orDefault options.position 0⟩

/-- The numbers of the call fit the stores of its views. -/
def ApiCall.Fits (size : ℕ → ℕ) : ApiCall → Prop
  | readFileAsync _ array options => options.Fit (size array.store)
  | read _ buffer options => (ReadOptions.ofRead buffer options).Fit (size buffer.store)
  | writeFileAsync _ data _ => data.byteLength ≤ size data.store
  | _ => True

/-- A stream delivers no more than is asked for, and nothing from a position before the file. -/
theorem FileNode.length_read (node : FileNode) (length position : ℤ) :
    (node.read length position).length ≤ length.toNat ∧
      (position < 0 → node.read length position = []) := by
  rw [FileNode.read]
  constructor
  · split
    · exact length_take_le _ _
    · exact Nat.zero_le _
  · intro h
    have hnot : ¬0 ≤ position := Int.not_le.2 h
    simp [hnot]

/-- A file from which as much can be read as is asked for. -/
theorem FileNode.exists_read (length : ℤ) {position : ℤ} (h : 0 ≤ position) :
    ∃ node : FileNode, (node.read length position).length = length.toNat := by
  refine ⟨.regular (replicate (position.toNat + length.toNat) 0), ?_⟩
  simp [FileNode.read, FileNode.regular, h]

/-- **A read stays inside its store** exactly when what it asks for lies in it. -/
theorem Task.inside_read (path : CString) (data : ℕ) (offset length position : ℤ) (size : ℕ → ℕ) :
    (Task.read path data offset length position).Inside size ↔
      (0 ≤ position → 0 < length → 0 ≤ offset ∧ offset + length ≤ size data) := by
  constructor
  · intro h hposition hlength
    obtain ⟨node, hnode⟩ := FileNode.exists_read length hposition
    have hfirst := h data rfl node offset ⟨le_rfl, by omega⟩
    have hlast := h data rfl node (offset + length - 1) ⟨by omega, by omega⟩
    omega
  · rintro h s hs node a ⟨hle, hlt⟩
    obtain rfl : data = s := Option.some.inj hs
    obtain ⟨hlength, hnone⟩ := node.length_read length position
    by_cases hposition : position < 0
    · rw [hnone hposition] at hlt
      simp only [length_nil, Nat.cast_zero] at hlt
      omega
    · have hfit := h (by omega) (by omega)
      omega

theorem Task.inside_write (path : CString) (data : ℕ) (length : ℤ) (mode : Bool) (size : ℕ → ℕ) :
    (Task.write path data length mode).Inside size ↔ length ≤ size data := by
  constructor
  · intro h
    by_contra hlt
    have hlast := h data rfl (.regular []) (length - 1) ⟨rfl, by omega, by omega⟩
    omega
  · rintro h s hs node a ⟨-, hle, hlt⟩
    obtain rfl : data = s := Option.some.inj hs
    omega

theorem Task.inside_stat (path : CString) (size : ℕ → ℕ) : (Task.stat path).Inside size := by
  rintro s ⟨⟩

theorem Task.Inside.congr {task : Task} {size size' : ℕ → ℕ}
    (h : ∀ s ∈ task.data?, size' s = size s) : task.Inside size' ↔ task.Inside size :=
  forall₂_congr fun s hs => by rw [h s hs]

theorem ApiCall.Fits.congr {api : ApiCall} {size size' : ℕ → ℕ}
    (h : ∀ view ∈ api.views, size' view.store = size view.store) :
    api.Fits size' ↔ api.Fits size := by
  cases api with
  | readFileAsync _ view _ | writeFileAsync _ view _ | read _ view _ =>
    simp only [Fits, h view (mem_singleton.2 rfl)]
  | _ => rfl

/-- A thread changes nothing but what it accesses. -/
theorem Task.touches_of_changed {task : Task} {node : FileNode} {told : ℤ} {mem : Mem} {s : ℕ}
    {a : ℤ} (h : (task.execute node told mem).1 s a ≠ mem s a) :
    s ∈ task.data? ∧ task.Touches node a := by
  cases task with
  | read path data offset length position =>
    by_contra hnot
    apply h
    apply blit_outside
    simp only [data?, Touches, Option.mem_some_iff] at hnot
    omega
  | write | stat => exact absurd rfl h

/-! ## Sizes -/

theorem newFastBuffer_size {zeroFill : Bool} {n : ℕ} {buffer : View} {r r' : Realm}
    (h : (newFastBuffer zeroFill n).run r = .ok buffer r') :
    buffer.last = r'.size buffer.store ∧ ∀ s < r.nextStore, r'.size s = r.size s := by
  simp only [newFastBuffer, EStateM.run] at h
  split at h
  · cases h
    exact ⟨by simp [View.last], fun s hs => if_neg (by omega)⟩
  · cases h

theorem BufferEffect.size {v8 : V8} {call : FromCall} {r r' : Realm} {v : View}
    (h : BufferEffect v8 call r (.ok v r')) : ∀ s < r.nextStore, r'.size s = r.size s := by
  cases h with
  | direct _ _ hcall hstore hnext hpool hoff hsize => exact hsize
  | carved n _ r₀ _ hcall hpos hr₀ hstore hoffset hlen hfits hnext hpool hsize =>
    intro s hs
    rw [hsize, ← hr₀, Realm.room]
    split
    · exact if_neg (by omega)
    · rfl

theorem fromStep_size {v8 : V8} (hv : v8.Documented) (call : FromCall) {r : Realm}
    (hr : r.WellFormed) : ∀ s < r.nextStore, (fromStep v8 r call).2.size s = r.size s := by
  have heff := bufferFrom_effect hv call hr
  rw [fromStep]
  generalize (bufferFrom v8 call).run r = res at heff
  cases res with
  | ok v r' => exact heff.size
  | error e r' =>
    cases heff
    exact fun _ _ => rfl

/-- A buffer that `Buffer.from` returns ends in its store. -/
theorem bufferFrom_last {v8 : V8} (hv : v8.Documented) (call : FromCall) {r r' : Realm}
    (hr : r.WellFormed) {v : View} (h : (bufferFrom v8 call).run r = .ok v r') :
    v.last ≤ r'.size v.store := by
  cases call with
  | arrayLike array =>
    rw [bufferFrom] at h
    rcases Nat.eq_zero_or_pos array.length with hzero | hpos
    · rw [fromArrayLike_empty hzero] at h
      exact (newFastBuffer_size h).1.le
    · by_cases hsmall : array.length < poolSize / 2
      · rw [fromArrayLike_pooled hpos hsmall rfl (hr.room_fits hsmall)] at h
        cases h
        exact (hr.room_fits hsmall).1
      · rw [fromArrayLike_large (Nat.not_lt.1 hsmall)] at h
        cases h
  | string value encoding =>
    rw [bufferFrom] at h
    by_cases hs : value = []
    · subst hs
      obtain ⟨e, he⟩ := fromString_nil v8 encoding r
      rw [he] at h
      cases h
    · rw [fromString_run v8 hs] at h
      rcases henc : encodingOf encoding with e | (_ | ops) <;> rw [henc] at h
      · cases h
      · cases h
      · replace h : (fromStringFast v8 value ops).run r = .ok v r' := h
        by_cases hsmall : ops.byteLength v8 value < poolSize / 2
        · rw [fromStringFast_pooled hv hs hsmall rfl (hr.room_fits hsmall)] at h
          cases h
          exact (hr.room_fits hsmall).1
        · by_cases hmax : ops.byteLength v8 value ≤ kMaxLength
          · rw [fromStringFast_direct hv hs (Nat.not_lt.1 hsmall) hmax] at h
            cases h
            simp [View.last]
          · obtain ⟨e, he⟩ := fromStringFast_tooLong (Nat.not_le.1 hmax) r
            rw [he] at h
            cases h

section

variable {v8 : V8} {fn k : ℕ} {api : ApiCall} {func : Closure} {task : Task} {r r' : Realm}

variable (hv : v8.Documented) (hr : r.WellFormed)
  (h : (api.perform v8 (.user fn k)).run r = .ok (func, task) r')

include hv hr h

/-- **The thread of a call stays inside** exactly when the numbers of the call fit. -/
theorem ApiCall.inside_iff_fits : task.Inside r'.size ↔ api.Fits r'.size := by
  cases api with
  | readFileAsync path array options =>
    cases h
    exact Task.inside_read _ _ _ _ _ _
  | read path buffer options =>
    rcases options with _ | options <;>
    · cases h
      exact Task.inside_read _ _ _ _ _ _
  | writeFileAsync path data flag =>
    cases h
    rw [NanoJS.writeFileAsync, Task.inside_write, data.toInt32_byteLength]
    exact Int.ofNat_le
  | getStatsAsync path | readFile path =>
    cases h
    exact iff_of_true (Task.inside_stat _ _) trivial
  | write path data options =>
    obtain ⟨view, hview, rfl⟩ := perform_write h
    have hlast := bufferFrom_last hv _ hr hview
    rw [NanoJS.writeFileAsync, Task.inside_write, view.toInt32_byteLength]
    exact iff_of_true (by rw [View.last] at hlast; omega) trivial
  | misused misuse => cases h

/-- The store of the task is one of a view of the call, or one that `Buffer.from` has used. -/
theorem ApiCall.perform_data {s : ℕ} (hs : s ∈ task.data?) :
    s < r'.nextStore ∨ ∃ view ∈ api.views, view.store = s := by
  cases api with
  | readFileAsync path array options | writeFileAsync path data flag =>
    cases h
    exact .inr ⟨_, mem_singleton.2 rfl, Option.some.inj hs⟩
  | read path buffer options =>
    rcases options with _ | options <;>
    · cases h
      exact .inr ⟨_, mem_singleton.2 rfl, Option.some.inj hs⟩
  | getStatsAsync path | readFile path =>
    cases h
    cases hs
  | write path data options =>
    obtain ⟨view, hview, rfl⟩ := perform_write h
    have heff := bufferFrom_effect hv (data.fromCall (writeArgument options (.user fn k))) hr
    rw [hview] at heff
    obtain rfl : view.store = s := Option.some.inj hs
    exact .inl (heff.view_store hr).1
  | misused misuse => cases h

/-- A call does not resize a store. -/
theorem ApiCall.perform_size : ∀ s < r.nextStore, r'.size s = r.size s := by
  cases api with
  | read path buffer options =>
    rcases options with _ | options <;>
    · cases h
      exact fun _ _ => rfl
  | write path data options =>
    obtain ⟨view, hview, -⟩ := perform_write h
    have heff := bufferFrom_effect hv (data.fromCall (writeArgument options (.user fn k))) hr
    rw [hview] at heff
    exact heff.size
  | readFileAsync | writeFileAsync | getStatsAsync | readFile =>
    cases h
    exact fun _ _ => rfl
  | misused misuse => cases h

end

namespace World

variable {v8 : V8} {w w' : World}

/-- **Stores keep their sizes.** -/
theorem Step.size (hv : v8.Documented) {a : Action} (h : World.Step v8 w a w')
    (hr : w.realm.WellFormed) : ∀ s < w.realm.nextStore, w'.realm.size s = w.realm.size s := by
  cases h with
  | file | program | arrow | jsReturn | passive | build | post | write | deliver =>
    exact fun _ _ => rfl
  | bufferFrom call hp => exact fromStep_size hv call hr
  | allocate hp h => exact (newFastBuffer_size h).2
  | @request fn api func task r' s' hp hviews h hs => exact ApiCall.perform_size hv hr h
  | @refuse fn api e r' hp hviews h =>
    rcases api.perform_cases hv hr fn w.nextCall with ⟨-, _, _, r'', h', -⟩ | ⟨-, e, h'⟩
    · rw [h] at h'
      cases h'
    · rw [h] at h'
      cases h'
      exact fun _ _ => rfl
  | invoke hq hargs happly hs =>
    obtain ⟨-, rfl, -⟩ := Closure.apply_call happly
    exact fun _ _ => rfl
  | invokeArrow hq hargs happly hs =>
    obtain ⟨_, _, buffer, hbuf, -⟩ := Closure.apply_start happly
    exact (newFastBuffer_size hbuf).2
  | invokeThrow hq hargs happly hs =>
    obtain rfl := Closure.apply_error happly
    exact fun _ _ => rfl

/-! ## Every thread -/

/-- The thread of the call stays inside its store exactly when the numbers of the call fit. -/
structure Bounded (w : World) (api : ApiCall) (task : Task) : Prop where
  data_lt : ∀ s ∈ task.data?, s < w.realm.nextStore
  views_lt : ∀ view ∈ api.views, view.store < w.realm.nextStore
  inside_iff : task.Inside w.realm.size ↔ api.Fits w.realm.size

theorem lasting_bounded (hv : v8.Documented) : Lasting v8 Bounded where
  request {w w' a fn api func task} hr h hlog hviews hstores hperform := by
    have hwf := World.Reachable.wellFormed hv hr
    have hviews' : ∀ view ∈ api.views, view.store < w'.realm.nextStore := fun view hview =>
      ((World.Reachable.private hv hr).stores_lt _ (hviews view hview)).trans_le
        (h.grows hv hwf).next_le
    refine ⟨fun s hs => ?_, hviews', ApiCall.inside_iff_fits hv hwf hperform⟩
    rcases ApiCall.perform_data hv hwf hperform hs with hlt | ⟨view, hview, rfl⟩
    · exact hlt
    · exact hviews' view hview
  arrow {w w' a path buffer} hr h hbuf := by
    obtain ⟨hstore, hnext, hoffset, -⟩ := newFastBuffer_eq hbuf
    have hlast := (newFastBuffer_size hbuf).1
    rw [View.last, hoffset, zero_add] at hlast
    refine ⟨?_, by simp [ApiCall.views], iff_of_true ?_ trivial⟩
    · rintro s ⟨⟩
      omega
    · rw [wholeRead, Task.inside_read, ← hlast]
      omega
  keep {w w' a api task} hr h hP := by
    have hwf := World.Reachable.wellFormed hv hr
    have hnext := (h.grows hv hwf).next_le
    have hsize := h.size hv hwf
    refine ⟨fun s hs => (hP.data_lt s hs).trans_le hnext,
      fun view hview => (hP.views_lt view hview).trans_le hnext, ?_⟩
    rw [Task.Inside.congr fun s hs => hsize s (hP.data_lt s hs),
      ApiCall.Fits.congr fun view hview => hsize _ (hP.views_lt view hview)]
    exact hP.inside_iff

end World

/-! ## The result -/

/-- **Threads stay inside of their stores.** In every reachable state: each thread that a call has
started accesses only bytes of its store, whatever file it has found, if and only if the numbers
that the call has passed fit the store; and when they fit, the step in which a thread of the call
does its task changes no byte outside of a store. -/
theorem threads_inside {v8 : V8} (hv : v8.Documented) {w : World} (hr : World.Reachable v8 w)
    {k : ℕ} {api : ApiCall} {accepted : Bool} (hk : .requested k api accepted ∈ w.log) :
    (∀ task node, .observed k task node ∈ w.log →
        (task.Inside w.realm.size ↔ api.Fits w.realm.size)) ∧
      (api.Fits w.realm.size → ∀ (job : CallbackJob) task args w', job.func.call = k →
        World.Step v8 w (.engine (.deliver job task args)) w' →
          ∀ s a, w'.realm.mem s a ≠ w.realm.mem s a → 0 ≤ a ∧ a < w.realm.size s) := by
  have hlasting := World.lasting_bounded hv
  constructor
  · intro task node hmem
    obtain ⟨api', hk', hbounded⟩ := World.Reachable.observed hv hlasting hr hmem
    rw [World.Reachable.api_eq hv hr hk' hk]
    exact hbounded.inside_iff
  · rintro hfits job task args w' rfl h s a hne
    cases h with
    | passive hl => cases hl
    | deliver htask hs =>
      obtain ⟨rest, h₁, -⟩ := World.exchange hs (World.Reachable.sys hr).control
      have hbounded := World.Reachable.task_of_requested hv hlasting hr
        (h₁.mem_iff.2 mem_cons_self) hk
      obtain rfl := congrArg Prod.fst htask
      obtain ⟨hdata, htouches⟩ := Task.touches_of_changed hne
      exact hbounded.inside_iff.2 hfits s hdata _ a htouches

/-- A script reads four bytes into a buffer of four from its third on. -/
theorem threads_inside_past_end : ∃ (w : World) (task : Task) (node : FileNode),
    .observed 0 task node ∈ w.log ∧ ¬task.Inside w.realm.size := by
  let path := jsString "f"
  let buffer : View := ⟨1, 0, 4, by decide⟩
  let options : ReadOptions := ⟨some (.fin 2), some (.fin 4), none⟩
  let job : CallbackJob := ⟨0, .readWrapper (.user 0 0) buffer, none⟩
  let task : Task := .read (toUtf8String V8.reference path) 1 2 4 0
  have allocated := ((Transition.Reachable.start
    ⟨0, fun _ _ => 0, fun _ => .regular [0x61, 0x62, 0x63, 0x64], rfl⟩ :
    World.Reachable V8.reference _).tail (.passive rfl (.nextScript rfl))).tail
    (@World.Step.allocate _ _ true 4 buffer _ ⟨rfl, rfl, rfl⟩ rfl)
  have requested := allocated.tail
    (@World.Step.request _ _ 0 (.read path buffer (some options)) _ _ _ _ ⟨rfl, rfl, rfl⟩
      (by simp [ApiCall.views, buffer]) rfl (.startWorker rfl rfl))
  have delivered := requested.tail (@World.Step.deliver _ _ job task 0 _ _ _ _ rfl
    (@Step.deliver _ _ _ _ [] [] rfl rfl))
  have conclude : ∀ w node, World.Reachable V8.reference w →
      .requested 0 (.read path buffer (some options)) true ∈ w.log →
      .observed 0 task node ∈ w.log → w.realm.size 1 = 4 →
      ∃ (w : World) (task : Task) (node : FileNode), .observed 0 task node ∈ w.log ∧
        ¬task.Inside w.realm.size := by
    intro w node hr hk hobserved hsize
    refine ⟨w, task, node, hobserved, ?_⟩
    rw [(threads_inside V8.reference_documented hr hk).1 task node hobserved]
    intro hfits
    have hfit := hfits (by decide) (by decide)
    rw [show buffer.store = 1 from rfl, hsize] at hfit
    revert hfit
    decide
  exact conclude _ _ delivered (mem_cons_of_mem _ mem_cons_self) mem_cons_self rfl

end NanoJS
