import NanoJS.Buffers.Encoding
import NanoJS.Files.World
import NanoJS.Files.Writes

/-!
# What calls and closures lead to

A call of the API throws, or names a job's function and a task (`ApiCall.perform_cases`); it throws
only for data that `Buffer.from` does not take (`ApiCall.Accepts`). Calling a function value calls
the user's callback, starts the read of `Files.readFile`, or throws (`Closure.apply_cases`); the
arrow function of `Files.readFile` throws exactly when the metadata has no size that can be
allocated (`apply_statArrow`).
-/

namespace NanoJS

/-! ## Allocation -/

theorem newFastBuffer_ok (zeroFill : Bool) {n : ℕ} (h : n ≤ kMaxLength) (r : Realm) :
    ∃ buffer r', (newFastBuffer zeroFill n).run r = .ok buffer r' ∧ buffer.byteLength = n := by
  simp only [newFastBuffer, EStateM.run, dif_pos h]
  exact ⟨_, _, rfl, rfl⟩

/-- The buffer is the whole of a new store. -/
theorem newFastBuffer_eq {zeroFill : Bool} {n : ℕ} {buffer : View} {r r' : Realm}
    (h : (newFastBuffer zeroFill n).run r = .ok buffer r') :
    buffer.store = r.nextStore ∧ r'.nextStore = r.nextStore + 1 ∧ buffer.byteOffset = 0 ∧
      r'.allocPool = r.allocPool := by
  simp only [newFastBuffer, EStateM.run] at h
  split at h
  · cases h
    exact ⟨rfl, rfl, rfl, rfl⟩
  · cases h

theorem bufferAlloc_fin (q : ℚ) (r : Realm) :
    (q.num.tdiv q.den < 0 ∧ ∃ e, (bufferAlloc (some (.fin q))).run r = .error e r) ∨
      (0 ≤ q.num.tdiv q.den ∧ (bufferAlloc (some (.fin q))).run r =
        (newFastBuffer true (q.num.tdiv q.den).toNat).run r) := by
  by_cases hneg : q.num.tdiv q.den < 0
  · exact .inl ⟨hneg, _, by simp only [bufferAlloc, hneg, if_true]; rfl⟩
  · exact .inr ⟨Int.not_lt.1 hneg, by simp only [bufferAlloc, hneg, if_false]⟩

/-- `Buffer.alloc` allocates or throws. -/
theorem bufferAlloc_cases (length : Option Number) (r : Realm) :
    (∃ buffer r', (bufferAlloc length).run r = .ok buffer r' ∧
      (newFastBuffer true buffer.byteLength).run r = .ok buffer r') ∨
    ∃ e, (bufferAlloc length).run r = .error e r := by
  rcases length with _ | (_ | _ | _ | q)
  · exact .inr ⟨_, rfl⟩
  · exact .inr ⟨_, rfl⟩
  · exact .inr ⟨_, rfl⟩
  · exact .inr ⟨_, rfl⟩
  · rcases bufferAlloc_fin q r with ⟨-, h⟩ | ⟨-, h⟩
    · exact .inr h
    · by_cases hmax : (q.num.tdiv q.den).toNat ≤ kMaxLength
      · obtain ⟨buffer, r', hbuf, hlen⟩ := newFastBuffer_ok true hmax r
        exact .inl ⟨buffer, r', h.trans hbuf, hlen ▸ hbuf⟩
      · exact .inr ⟨_, h.trans (dif_neg hmax)⟩

/-- An integer that is no length, or the length of what `Buffer.alloc` allocates. -/
theorem bufferAlloc_int {n : ℤ} (hn : n ≤ kMaxLength) (r : Realm) :
    (n < 0 ∧ ∃ e, (bufferAlloc (some (.fin n))).run r = .error e r) ∨
    ∃ buffer r', (bufferAlloc (some (.fin n))).run r = .ok buffer r' ∧ n = buffer.byteLength ∧
      (newFastBuffer true buffer.byteLength).run r = .ok buffer r' := by
  have hq : (n : ℚ).num.tdiv (n : ℚ).den = n := by simp
  have h := bufferAlloc_fin n r
  rw [hq] at h
  rcases h with h | ⟨hpos, h⟩
  · exact .inl h
  · obtain ⟨buffer, r', hbuf, hlen⟩ := newFastBuffer_ok true (n := n.toNat) (by omega) r
    exact .inr ⟨buffer, r', h.trans hbuf, by omega, hlen ▸ hbuf⟩

theorem toInt32_le_max (n : ℤ) : toInt32 n ≤ kMaxLength := by
  have hk : kMaxLength = 2147483647 := rfl
  rw [toInt32, Int.bmod_def]
  omega

theorem integerValue_natCast {n : ℕ} (h : n ≤ kMaxLength) :
    integerValue (some (.fin n)) = n := by
  have hk : kMaxLength = 2147483647 := rfl
  have hq : ((n : ℚ)).num.tdiv (n : ℚ).den = n := by simp
  rw [integerValue, hq]
  omega

/-! ## Closures -/

namespace Closure

/-- Calling the closure calls the user's function. -/
def isPlain : Closure → Bool
  | user _ _ => true
  | readWrapper callbackFunc _ => callbackFunc.isPlain
  | readFileWrapper callback _ => callback.isPlain
  | statArrow _ _ => false

/-- The stores of the views that the closure holds. -/
def stores : Closure → List ℕ
  | user _ _ => []
  | readWrapper callbackFunc buffer => buffer.store :: callbackFunc.stores
  | readFileWrapper callback buffer => buffer.store :: callback.stores
  | statArrow _ callback => callback.stores

/-- The store that only the closure has a view of: the one that `Files.readFile` has allocated. -/
def own : Closure → List ℕ
  | readWrapper (readFileWrapper _ buffer) _ => [buffer.store]
  | _ => []

/-- How far the user's function is behind the closure: two for a read that is to be started. -/
def later : Closure → ℕ
  | user _ _ => 0
  | readWrapper callbackFunc _ => callbackFunc.later
  | readFileWrapper callback _ => callback.later
  | statArrow _ callback => callback.later + 2

end Closure

theorem Value.stores_argument {args : List Value} {i s : ℕ}
    (h : s ∈ (argument args i).stores) : s ∈ args.flatMap Value.stores := by
  rw [argument] at h
  by_cases hi : i < args.length
  · rw [List.getD_eq_getElem _ _ hi] at h
    exact List.mem_flatMap.2 ⟨_, List.getElem_mem hi, h⟩
  · rw [List.getD_eq_default _ _ (Nat.not_lt.1 hi)] at h
    cases h

/-- The arrow function of `Files.readFile` starts the read of a buffer that it has allocated, or
throws. -/
theorem Closure.apply_arrow (v8 : V8) (path : JSString) (callback : Closure) (args : List Value)
    (r : Realm) :
    (∃ buffer r', (newFastBuffer true buffer.byteLength).run r = .ok buffer r' ∧
      ((Closure.statArrow path callback).apply v8 args).run r =
        .ok (.start (.readWrapper (.readFileWrapper callback buffer) buffer)
          (.read (toUtf8String v8 path) buffer.store 0 buffer.byteLength 0)) r') ∨
    ∃ e, ((Closure.statArrow path callback).apply v8 args).run r = .error e r := by
  rcases bufferAlloc_cases ((argument args 1).get "size").number? r with
    ⟨buffer, r', h, hbuf⟩ | ⟨e, h⟩
  · refine .inl ⟨buffer, r', hbuf, ?_⟩
    simp only [Closure.apply, filesRead, ofExcept, ReadRequest.task, readFileAsync,
      EStateM.run_bind, h, EStateM.run_pure, integerValue_natCast buffer.le_max]
    rfl
  · exact .inr ⟨e, by simp only [Closure.apply, EStateM.run_bind, h]⟩

/-- **What calling a function value leads to.** The user's function gets the first argument as its
first, and no view that neither the closure nor the arguments have. -/
theorem Closure.apply_cases (v8 : V8) (c : Closure) (args : List Value) (r : Realm) :
    (∃ fn args', (c.apply v8 args).run r = .ok (.call fn c.call args') r ∧
      argument args' 0 = argument args 0 ∧
      ∀ s ∈ args'.flatMap Value.stores, s ∈ c.stores ∨ s ∈ args.flatMap Value.stores) ∨
    (∃ path callback buffer r', (newFastBuffer true buffer.byteLength).run r = .ok buffer r' ∧
      (c.apply v8 args).run r = .ok (.start (.readWrapper (.readFileWrapper callback buffer) buffer)
        (.read path buffer.store 0 buffer.byteLength 0)) r' ∧
      callback.call = c.call ∧ callback.later + 2 ≤ c.later ∧
      ∀ s ∈ callback.stores, s ∈ c.stores) ∨
    ∃ e, (c.apply v8 args).run r = .error e r := by
  induction c generalizing args with
  | user fn call => exact .inl ⟨fn, args, rfl, rfl, fun s hs => .inr hs⟩
  | readWrapper callbackFunc buffer ih =>
    rcases ih [argument args 0, .buffer buffer, argument args 1] with
      ⟨fn, args', h, h₀, hs⟩ | ⟨path, callback, buf, r', hbuf, h, hcall, hlater, hs⟩ | ⟨e, h⟩
    · refine .inl ⟨fn, args', h, h₀, fun s hmem => ?_⟩
      rcases hs s hmem with hs | hs
      · exact .inl (List.mem_cons_of_mem _ hs)
      · simp only [List.flatMap_cons, List.flatMap_nil, List.mem_append, Value.stores,
          List.append_nil, List.mem_singleton] at hs
        rcases hs with hs | rfl | hs
        · exact .inr (Value.stores_argument hs)
        · exact .inl List.mem_cons_self
        · exact .inr (Value.stores_argument hs)
    · exact .inr (.inl ⟨path, callback, buf, r', hbuf, h, hcall, hlater,
        fun s hmem => List.mem_cons_of_mem _ (hs s hmem)⟩)
    · exact .inr (.inr ⟨e, h⟩)
  | readFileWrapper callback buffer ih =>
    rcases ih [argument args 0, .buffer buffer] with
      ⟨fn, args', h, h₀, hs⟩ | ⟨path, callback', buf, r', hbuf, h, hcall, hlater, hs⟩ | ⟨e, h⟩
    · refine .inl ⟨fn, args', h, h₀, fun s hmem => ?_⟩
      rcases hs s hmem with hs | hs
      · exact .inl (List.mem_cons_of_mem _ hs)
      · simp only [List.flatMap_cons, List.flatMap_nil, List.mem_append, Value.stores,
          List.append_nil, List.mem_singleton] at hs
        rcases hs with hs | rfl
        · exact .inr (Value.stores_argument hs)
        · exact .inl List.mem_cons_self
    · exact .inr (.inl ⟨path, callback', buf, r', hbuf, h, hcall, hlater,
        fun s hmem => List.mem_cons_of_mem _ (hs s hmem)⟩)
    · exact .inr (.inr ⟨e, h⟩)
  | statArrow path callback _ =>
    rcases apply_arrow v8 path callback args r with ⟨buffer, r', hbuf, h⟩ | h
    · exact .inr (.inl ⟨_, callback, buffer, r', hbuf, h, rfl, le_rfl, fun s hs => hs⟩)
    · exact .inr (.inr h)

section

variable {v8 : V8} {c : Closure} {args : List Value} {r r' : Realm}

/-- The user's function is called with the realm as it is. -/
theorem Closure.apply_call {fn call : ℕ} {args' : List Value}
    (h : (c.apply v8 args).run r = .ok (.call fn call args') r') :
    call = c.call ∧ r' = r ∧ argument args' 0 = argument args 0 ∧
      ∀ s ∈ args'.flatMap Value.stores, s ∈ c.stores ∨ s ∈ args.flatMap Value.stores := by
  rcases c.apply_cases v8 args r with ⟨_, _, h', hs⟩ | ⟨_, _, _, _, -, h', -⟩ | ⟨e, h'⟩ <;>
  · rw [h] at h'
    cases h'
    try exact ⟨rfl, rfl, hs⟩

/-- What is started is the read of a buffer that has just been allocated. -/
theorem Closure.apply_start {callback : Closure} {task : Task}
    (h : (c.apply v8 args).run r = .ok (.start callback task) r') :
    ∃ path callback' buffer, (newFastBuffer true buffer.byteLength).run r = .ok buffer r' ∧
      callback = .readWrapper (.readFileWrapper callback' buffer) buffer ∧
      task = .read path buffer.store 0 buffer.byteLength 0 ∧
      callback'.call = c.call ∧ callback'.later + 2 ≤ c.later ∧
      ∀ s ∈ callback'.stores, s ∈ c.stores := by
  rcases c.apply_cases v8 args r with ⟨_, _, h', -⟩ | ⟨_, _, _, _, hbuf, h', hs⟩ | ⟨e, h'⟩ <;>
  · rw [h] at h'
    cases h'
    try exact ⟨_, _, _, hbuf, rfl, rfl, hs⟩

theorem Closure.apply_error {e : JSError} (h : (c.apply v8 args).run r = .error e r') :
    r' = r := by
  rcases c.apply_cases v8 args r with ⟨_, _, h', -⟩ | ⟨_, _, _, _, -, h', -⟩ | ⟨e, h'⟩ <;>
  · rw [h] at h'
    cases h'
    try rfl

end

/-- A plain closure calls the user's function. -/
theorem Closure.apply_plain (v8 : V8) {c : Closure} (hc : c.isPlain = true) (args : List Value)
    (r : Realm) :
    ∃ fn args', (c.apply v8 args).run r = .ok (.call fn c.call args') r := by
  induction c generalizing args with
  | user fn call => exact ⟨fn, args, rfl⟩
  | readWrapper callbackFunc buffer ih => exact ih hc _
  | readFileWrapper callback buffer ih => exact ih hc _
  | statArrow path callback _ => cases hc

/-- The metadata has a size that can be allocated: the size converts to a natural number. -/
def FileNode.Sized (node : FileNode) (n : ℕ) : Prop :=
  ∃ stat, node.stat = some stat ∧ toInt32 stat.size = n

/-- **The arrow function of `Files.readFile`**, on what the metadata message is built to: it starts
the read of a buffer of the size of the file, or throws when there is no such size. -/
theorem apply_statArrow (v8 : V8) (path : JSString) (callback : Closure) (job : CallbackJob)
    (node : FileNode) (r : Realm) :
    (∃ buffer r', node.Sized buffer.byteLength ∧
      (newFastBuffer true buffer.byteLength).run r = .ok buffer r' ∧
      ((Closure.statArrow path callback).apply v8
          (Message.build v8 ⟨job, statsAsync node⟩)).run r =
        .ok (.start (.readWrapper (.readFileWrapper callback buffer) buffer)
          (.read (toUtf8String v8 path) buffer.store 0 buffer.byteLength 0)) r') ∨
    ((∀ n, ¬node.Sized n) ∧ ∃ e, ((Closure.statArrow path callback).apply v8
        (Message.build v8 ⟨job, statsAsync node⟩)).run r = .error e r) := by
  rcases hstat : node.stat with _ | stat
  · refine .inr ⟨?_, .typeError "Invalid length argument", ?_⟩
    · rintro n ⟨_, h, -⟩
      rw [hstat] at h
      cases h
    · rw [build_failed v8 job hstat]
      rfl
  · obtain ⟨obj, hbuild, hsize⟩ := build_size v8 job hstat
    have hnumber : ((argument [Value.null, obj] 1).get "size").number? =
        some (.fin (toInt32 stat.size)) := by
      rw [show argument [Value.null, obj] 1 = obj from rfl, hsize]
      rfl
    rw [hbuild]
    rcases bufferAlloc_int (toInt32_le_max stat.size) r with
      ⟨hneg, e, h⟩ | ⟨buffer, r', h, hlen, hbuf⟩
    · refine .inr ⟨?_, e, ?_⟩
      · rintro n ⟨_, hs, hn⟩
        rw [hstat] at hs
        cases hs
        omega
      · simp only [Closure.apply, hnumber, EStateM.run_bind, h]
    · refine .inl ⟨buffer, r', ⟨stat, hstat, hlen⟩, hbuf, ?_⟩
      simp only [Closure.apply, hnumber, filesRead, ofExcept, ReadRequest.task, readFileAsync,
        EStateM.run_bind, h, EStateM.run_pure, integerValue_natCast buffer.le_max]
      rfl

/-! ## Calls -/

namespace ApiCall

/-- The call goes through `fs.getStatsAsync` first. -/
def isReadFile : ApiCall → Bool
  | readFile _ => true
  | _ => false

/-- The encoding of the data of `Files.write`. -/
def encoding (options : Option (Option JSString × Option JSString)) : JSString :=
  truthyOr (options.bind (·.1)) (jsString "utf-8")

/-- The arguments are of the types that the function takes, and for `Files.write`, `Buffer.from`
takes the data: a string that is not empty, in an encoding that it knows, that a typed array can
hold; or less than half a pool of elements. -/
def Accepts (v8 : V8) : ApiCall → Prop
  | write _ (.string s) options => s ≠ [] ∧
    ∃ ops, getEncodingOps (encoding options) = .ok (some ops) ∧ ops.byteLength v8 s ≤ kMaxLength
  | write _ (.arrayLike array) _ => array.length < poolSize / 2
  | misused _ => False
  | _ => True

end ApiCall

theorem ApiCall.writeArgument_encoding (options : Option (Option JSString × Option JSString))
    (callback : Closure) : (writeArgument options callback).encoding = encoding options := by
  rcases options with _ | ⟨enc, flag⟩ <;> rfl

theorem ApiCall.writeArgument_function (options : Option (Option JSString × Option JSString))
    (callback : Closure) : (writeArgument options callback).function = callback := by
  rcases options with _ | ⟨enc, flag⟩ <;> rfl

/-- `Buffer.from` takes the data, or throws. -/
theorem ApiCall.write_cases {v8 : V8} (hv : v8.Documented) {r : Realm} (hr : r.WellFormed)
    (path : JSString) (data : WriteData) (options : Option (Option JSString × Option JSString))
    (callback : Closure) :
    ((write path data options).Accepts v8 ∧ ∃ view r', (bufferFrom v8
        (data.fromCall (writeArgument options callback))).run r = .ok view r') ∨
    (¬(write path data options).Accepts v8 ∧ ∃ e, (bufferFrom v8
        (data.fromCall (writeArgument options callback))).run r = .error e r) := by
  cases data with
  | arrayLike array =>
    rw [WriteData.fromCall, bufferFrom, Accepts]
    by_cases hsmall : array.length < poolSize / 2
    · rcases Nat.eq_zero_or_pos array.length with hzero | hpos
      · obtain ⟨view, r', h, -⟩ := newFastBuffer_ok true (Nat.zero_le kMaxLength) r
        exact .inl ⟨hsmall, view, r', (fromArrayLike_empty hzero r).trans h⟩
      · exact .inl ⟨hsmall, _, _, fromArrayLike_pooled hpos hsmall rfl (hr.room_fits hsmall)⟩
    · exact .inr ⟨hsmall, _, fromArrayLike_large (Nat.not_lt.1 hsmall) r⟩
  | string s =>
    rw [WriteData.fromCall, bufferFrom, writeArgument_encoding, Accepts]
    by_cases hs : s = []
    · subst hs
      exact .inr ⟨fun h => h.1 rfl, fromString_nil v8 _ r⟩
    · have hne := (writeArgument options callback).encoding_ne_nil
      rw [writeArgument_encoding] at hne
      rw [fromString_run v8 hs, encodingOf_some hne]
      rcases hops : getEncodingOps (encoding options) with e | (_ | ops)
      · exact .inr ⟨by simp, e, rfl⟩
      · exact .inr ⟨by simp, _, rfl⟩
      · by_cases hmax : ops.byteLength v8 s ≤ kMaxLength
        · obtain ⟨view, r', h, -⟩ := fromStringFast_run hv hr hs ops
            ((Encoding.byteLength_eq hv ops s).symm.trans_le hmax)
          exact .inl ⟨⟨hs, ops, rfl, hmax⟩, view, r', h⟩
        · refine .inr ⟨?_, fromStringFast_tooLong (Nat.not_le.1 hmax) r⟩
          rintro ⟨-, ops', h, hmax'⟩
          cases h
          exact hmax hmax'

/-- The stores that a task writes. -/
def Task.targets : Task → List ℕ
  | .read _ data .. => [data]
  | _ => []

/-- **What a call leads to**, for a callback of the user. It throws exactly when it does not accept
its arguments. A call that does not go through the metadata names a plain closure; no view but an
argument of the call is held by the closure or written by the task. -/
theorem ApiCall.perform_cases {v8 : V8} (hv : v8.Documented) {r : Realm} (hr : r.WellFormed)
    (api : ApiCall) (fn k : ℕ) :
    (api.Accepts v8 ∧ ∃ func task r', (api.perform v8 (.user fn k)).run r = .ok (func, task) r' ∧
      r.Grows [] r' ∧ func.call = k ∧ func.own = [] ∧
      (∀ s ∈ func.stores ++ task.targets, ∃ view ∈ api.views, view.store = s) ∧
      ((api.isReadFile = false ∧ func.isPlain = true) ∨
        ∃ path, api = .readFile path ∧ func = .statArrow path (.user fn k) ∧
          task = NanoJS.getStatsAsync v8 path)) ∨
    (¬api.Accepts v8 ∧ ∃ e, (api.perform v8 (.user fn k)).run r = .error e r) := by
  cases api with
  | readFileAsync path array options =>
    exact .inl ⟨trivial, _, _, r, rfl, hr.grows [], rfl, rfl,
      by simp [Closure.stores, views, NanoJS.readFileAsync, Task.targets], .inl ⟨rfl, rfl⟩⟩
  | writeFileAsync path data flag =>
    exact .inl ⟨trivial, _, _, r, rfl, hr.grows [], rfl, rfl,
      by simp [Closure.stores, NanoJS.writeFileAsync, Task.targets], .inl ⟨rfl, rfl⟩⟩
  | getStatsAsync path =>
    exact .inl ⟨trivial, _, _, r, rfl, hr.grows [], rfl, rfl,
      by simp [Closure.stores, NanoJS.getStatsAsync, Task.targets], .inl ⟨rfl, rfl⟩⟩
  | read path buffer options =>
    rcases options with _ | options <;>
    exact .inl ⟨trivial, _, _, r, rfl, hr.grows [], rfl, rfl,
      by simp [Closure.stores, views, ReadRequest.task, NanoJS.readFileAsync, Task.targets],
      .inl ⟨rfl, rfl⟩⟩
  | write path data options =>
    rcases write_cases hv hr path data options (.user fn k) with ⟨ha, view, r', h⟩ | ⟨ha, e, h⟩
    · have heff := bufferFrom_effect hv (data.fromCall (writeArgument options (.user fn k))) hr
      rw [h] at heff
      refine .inl ⟨ha, .user fn k, NanoJS.writeFileAsync v8 path view
        ((writeArgument options (.user fn k)).flag data), r', ?_, heff.grows hr [], rfl, rfl, ?_,
        .inl ⟨rfl, rfl⟩⟩
      · simp only [perform, filesWrite, EStateM.run_bind, h, EStateM.run_pure,
          writeArgument_function]
        rfl
      · simp [Closure.stores, NanoJS.writeFileAsync, Task.targets]
    · exact .inr ⟨ha, e, by simp only [perform, filesWrite, EStateM.run_bind, h]⟩
  | readFile path =>
    exact .inl ⟨trivial, _, _, r, rfl, hr.grows [], rfl, rfl,
      by simp [Closure.stores, NanoJS.getStatsAsync, Task.targets], .inr ⟨path, rfl, rfl, rfl⟩⟩
  | misused misuse => exact .inr ⟨id, misuse.error, rfl⟩

/-! ## The realm -/

/-- The stores that a step of a thread writes. -/
def Action.targets : Action → List ℕ
  | .engine (.deliver _ task _) => task.targets
  | _ => []

theorem Task.execute_mem (task : Task) (node : FileNode) (told : ℤ) (mem : ByteMemory.Mem) {s : ℕ}
    (h : s ∉ task.targets) : (task.execute node told mem).1 s = mem s := by
  cases task with
  | read path data offset length position =>
    exact funext fun a => ByteMemory.blit_outside (.inl (by simpa [targets] using h))
  | _ => rfl

/-- **A step of the process changes no store but the pool, those that the program has a view of and
the target of the thread that makes it.** -/
theorem World.Step.grows {v8 : V8} (hv : v8.Documented) {w w' : World} {a : Action}
    (h : World.Step v8 w a w') (hr : w.realm.WellFormed) :
    w.realm.Grows (a.targets ++ w.stores) w'.realm := by
  cases h with
  | file | program | arrow | jsReturn | passive | build | post => exact hr.grows _
  | bufferFrom call hp => exact fromStep_grows hv hr call _
  | allocate hp h => exact newFastBuffer_grows hr h _
  | write hp hs =>
    refine ⟨⟨hr.pool_lt, hr.pool_size, hr.offset_le⟩, le_rfl, .inl rfl, fun s _ _ hw => ?_⟩
    refine funext fun a => ByteMemory.blit_outside (.inl ?_)
    rintro rfl
    exact hw (List.mem_append_right _ hs)
  | @request fn api func task r' s' hp hviews h hs =>
    rcases api.perform_cases hv hr fn w.nextCall with ⟨-, _, _, r'', h', hgrows, -⟩ | ⟨-, e, h'⟩
    · rw [h] at h'
      cases h'
      exact hgrows.mono (List.nil_subset _)
    · rw [h] at h'
      cases h'
  | @refuse fn api e r' hp hviews h =>
    rcases api.perform_cases hv hr fn w.nextCall with ⟨-, _, _, r'', h', -⟩ | ⟨-, e, h'⟩
    · rw [h] at h'
      cases h'
    · rw [h] at h'
      cases h'
      exact hr.grows _
  | invoke hq hargs happly hs =>
    obtain ⟨-, rfl, -⟩ := Closure.apply_call happly
    exact hr.grows _
  | invokeArrow hq hargs happly hs =>
    obtain ⟨_, _, buffer, hbuf, -⟩ := Closure.apply_start happly
    exact newFastBuffer_grows hr hbuf _
  | invokeThrow hq hargs happly hs =>
    obtain rfl := Closure.apply_error happly
    exact hr.grows _
  | @deliver job task told mem' node' args s' htask hs =>
    refine ⟨⟨hr.pool_lt, hr.pool_size, hr.offset_le⟩, le_rfl, .inl rfl, fun s _ _ hw => ?_⟩
    have hmem := task.execute_mem (w.fs task.path) told w.realm.mem
      (fun ht => hw (List.mem_append_left _ ht))
    rwa [htask] at hmem

theorem World.Reachable.wellFormed {v8 : V8} (hv : v8.Documented) {w : World}
    (h : World.Reachable v8 w) : w.realm.WellFormed :=
  Transition.Reachable.invariant (I := fun w => w.realm.WellFormed)
    (by rintro _ ⟨ms, mem, fs, rfl⟩; exact Realm.freshPool_wellFormed _)
    (fun _ _ _ _ hr hl => (hl.grows hv hr).wf) h

end NanoJS
