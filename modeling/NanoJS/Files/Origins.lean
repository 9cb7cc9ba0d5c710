import NanoJS.Files.WholeFile

/-!
# Where jobs come from

A job on its way was on its way before the step, or the step moves it on; or the program has made
a call, or the arrow function of `Files.readFile` has found a size (`World.Origin`). So what holds
of the task of a call when it starts, and is kept by every step, holds of every task of the call
until its thread has done it (`World.Tasked`).
-/

namespace NanoJS

open List ByteMemory

/-- `Files.write` starts its thread on a buffer of `Buffer.from`. -/
theorem ApiCall.perform_write {v8 : V8} {fn k : ℕ} {func : Closure} {task : Task} {r r' : Realm}
    {path : JSString} {data : WriteData} {options : Option (Option JSString × Option JSString)}
    (h : ((ApiCall.write path data options).perform v8 (.user fn k)).run r = .ok (func, task) r') :
    ∃ view, (bufferFrom v8 (data.fromCall (writeArgument options (.user fn k)))).run r =
        .ok view r' ∧
      task = NanoJS.writeFileAsync v8 path view
        ((writeArgument options (.user fn k)).flag data) := by
  rw [perform, EStateM.run_bind] at h
  rcases hw : (filesWrite v8 path data (writeArgument options (.user fn k))).run r with
    ⟨request, r''⟩ | ⟨e, r''⟩
  · rw [hw] at h
    cases h
    obtain ⟨view, hview, rfl⟩ := filesWrite_ok hw
    exact ⟨view, hview, rfl⟩
  · rw [hw] at h
    cases h

/-! ## Jobs -/

namespace World

variable (v8 : V8) (w w' : World)

/-- How a job has come to be on its way. -/
inductive Origin (t : Token) : Prop
  | kept (h : t ∈ w.tokens)
  | moved (t₀ : Token) (h : t₀ ∈ w.tokens) (hfunc : t₀.func = t.func)
      (hplace : ∀ task, t.place ≠ .running task)
  /-- The program has called `watchFile`. -/
  | watched (fn : ℕ) (hfunc : t.func = .user fn w.nextCall) (hplace : t.place = .watching)
  /-- The program has made a call. -/
  | requested (fn : ℕ) (api : ApiCall) (task : Task)
      (hlog : w'.log = .requested w.nextCall api true :: w.log)
      (hviews : ∀ view ∈ api.views, view.store ∈ w.stores) (hstores : w'.stores = w.stores)
      (hperform : (api.perform v8 (.user fn w.nextCall)).run w.realm = .ok (t.func, task) w'.realm)
      (hplace : t.place = .running task)
  /-- The arrow function of `Files.readFile` has allocated the buffer. -/
  | arrow (path : JSString) (fn call : ℕ) (args : List Value) (buffer : View)
      (hlog : w'.log = w.log)
      (h : ⟨.statArrow path (.user fn call), .ready (some args)⟩ ∈ w.tokens)
      (hbuf : (newFastBuffer true buffer.byteLength).run w.realm = .ok buffer w'.realm)
      (hfunc : t.func = .readWrapper (.readFileWrapper (.user fn call) buffer) buffer)
      (hplace : t.place = .running (wholeRead v8 path buffer))

variable {v8 w w'}

/-- **Where the jobs on the way come from.** -/
theorem Step.origin {a : Action} (h : World.Step v8 w a w') (hc : w.sys.Control) (hf : w.Framed)
    (hp : w.Private) {t : Token} (ht : t ∈ w'.tokens) : Origin v8 w w' t := by
  have hgiven : ∀ {old new rest : List Token}, w.tokens.Perm (old ++ rest) →
      w'.tokens.Perm (new ++ rest) → (t ∈ new → Origin v8 w w' t) → Origin v8 w w' t := by
    intro old new rest h₁ h₂ hnew
    rcases mem_append.1 (h₂.mem_iff.1 ht) with hmem | hmem
    · exact hnew hmem
    · exact .kept (h₁.mem_iff.2 (mem_append_right _ hmem))
  cases h with
  | file | bufferFrom | allocate | write | refuse => exact .kept ht
  | @program l fn s' hprogram hl hs =>
    obtain ⟨rest, h₁, h₂⟩ := exchange hs hc
    cases hs with
    | timerCall => exact hgiven h₁ h₂ (by simp [Label.gives])
    | watchFile =>
      obtain rfl := Option.some.inj hl
      refine hgiven h₁ h₂ fun ht => ?_
      obtain rfl := mem_singleton.1 ht
      exact .watched fn rfl rfl
    | _ => cases hl
  | @request fn api func task r' s' hprogram hviews hperform hs =>
    obtain ⟨rest, h₁, h₂⟩ := exchange hs hc
    refine hgiven h₁ h₂ fun ht => ?_
    obtain rfl := mem_singleton.1 ht
    exact .requested fn api task rfl hviews rfl hperform rfl
  | arrow hframe hs => exact .kept ((tokens_arrow hframe hs hc).mem_iff.1 ht)
  | jsReturn hframe hs => exact .kept ((tokens_jsReturn hframe hs hc).mem_iff.1 ht)
  | @passive l s' hl hs =>
    obtain ⟨rest, h₁, h₂⟩ := exchange hs hc
    refine hgiven h₁ h₂ fun ht => ?_
    cases l with
    | watcherChange job path | watcherPost job objects =>
      have hmem : (⟨job.func, .watching⟩ : Token) ∈ w.tokens := h₁.mem_iff.2 mem_cons_self
      simp only [Label.gives, mem_cons, not_mem_nil, or_false, or_self] at ht
      subst ht
      exact .moved _ hmem rfl (by simp)
    | timerCall | startWorker | watchFile | jsReturn | build | invokeCallback | deliver | post =>
      cases hl
    | _ => cases ht
  | @build msg s' hpc hs =>
    obtain ⟨rest, h₁, h₂⟩ := exchange hs hc
    rw [Label.takes_build hpc] at h₁
    rw [Label.gives_build hpc] at h₂
    refine hgiven h₁ h₂ fun ht => ?_
    obtain rfl := mem_singleton.1 ht
    exact .moved msg.token (h₁.mem_iff.2 mem_cons_self) rfl (by simp)
  | invoke hq hargs happly hs =>
    obtain ⟨rest, h₁, h₂⟩ := exchange hs hc
    exact hgiven h₁ h₂ (by simp [Label.gives])
  | @invokeArrow job rest args callback task r' s' hq hargs happly hs =>
    obtain ⟨rest, h₁, h₂⟩ := exchange hs hc
    rw [Label.takes_invokeCallback hq hargs] at h₁
    rw [hf.frame_of_invokes (hs.invokes hc).1] at h₂
    have hmem : (⟨job.func, .ready (some args)⟩ : Token) ∈ w.tokens := h₁.mem_iff.2 mem_cons_self
    have hnew : (⟨callback, .running task⟩ :: s'.tokens).Perm
        ([⟨callback, .running task⟩] ++ rest) := h₂.cons _
    refine hgiven h₁ hnew fun ht => ?_
    obtain rfl := mem_singleton.1 ht
    rcases hp.shaped _ hmem with hplain | ⟨path, fn, call, hfunc⟩
    · obtain ⟨fn, args', h'⟩ := job.func.apply_plain v8 hplain args w.realm
      rw [happly] at h'
      cases h'
    · have hfunc : job.func = .statArrow path (.user fn call) := hfunc
      rw [hfunc] at happly hmem
      rcases Closure.apply_arrow v8 path (.user fn call) args w.realm with
        ⟨buffer, r'', hbuf, h'⟩ | ⟨e, h'⟩
      · rw [happly] at h'
        cases h'
        exact .arrow path fn call args buffer rfl hmem hbuf rfl rfl
      · rw [happly] at h'
        cases h'
  | @invokeThrow job rest args e r' s' hq hargs happly hs =>
    obtain ⟨rest, h₁, h₂⟩ := exchange hs hc
    rw [hf.frame_of_invokes (hs.invokes hc).1] at h₂
    exact hgiven h₁ h₂ (by simp [Label.gives])
  | @deliver job task told mem' node' args s' htask hs =>
    obtain ⟨rest, h₁, h₂⟩ := exchange hs hc
    refine hgiven h₁ h₂ fun ht => ?_
    obtain rfl := mem_singleton.1 ht
    exact .moved ⟨job.func, .running task⟩ (h₁.mem_iff.2 mem_cons_self) rfl (by simp)
  | @post job task s' hs =>
    obtain ⟨rest, h₁, h₂⟩ := exchange hs hc
    refine hgiven h₁ h₂ fun ht => ?_
    obtain rfl := mem_singleton.1 ht
    exact .moved ⟨job.func, .running task⟩ (h₁.mem_iff.2 mem_cons_self) rfl (by simp)

/-! ## The calls of running threads -/

/-- A job that is to start the read of `Files.readFile` belongs to a call of it. -/
def Arrows (w : World) : Prop :=
  ∀ t ∈ w.tokens, ∀ path callback, t.func = .statArrow path callback →
    .requested t.call (.readFile path) true ∈ w.log


theorem Step.arrows (hv : v8.Documented) {a : Action} (h : World.Step v8 w a w')
    (hc : w.sys.Control) (hf : w.Framed) (hr : w.realm.WellFormed) (hp : w.Private)
    (ha : w.Arrows) : w'.Arrows := by
  intro t ht path callback hfunc
  cases h.origin hc hf hp ht with
  | kept hold => exact h.log_subset (ha t hold path callback hfunc)
  | moved t₀ hold hsame hplace =>
    have hcall : t₀.call = t.call := congrArg Closure.call hsame
    exact h.log_subset (hcall ▸ ha t₀ hold path callback (hsame.trans hfunc))
  | watched fn hplain | arrow _ _ _ _ _ _ _ _ hplain =>
    rw [hplain] at hfunc
    cases hfunc
  | requested fn api task hlog hviews hstores hperform hplace =>
    rcases api.perform_cases hv hr fn w.nextCall with
      ⟨-, _, _, _, h', -, hcall, -, -, hshape⟩ | ⟨-, e, h'⟩
    · rw [hperform] at h'
      cases h'
      rcases hshape with ⟨-, hplain⟩ | ⟨path', rfl, hfunc', -⟩
      · rw [hfunc] at hplain
        cases hplain
      · obtain ⟨rfl, -⟩ := Closure.statArrow.inj (hfunc.symm.trans hfunc')
        rw [hlog, Token.call, hcall]
        exact mem_cons_self
    · rw [hperform] at h'
      cases h'

theorem Reachable.arrows (hv : v8.Documented) (h : World.Reachable v8 w) : w.Arrows :=
  Transition.Reachable.invariant (I := Arrows)
    (by
      rintro _ ⟨ms, mem, fs, rfl⟩ t ht
      cases ht)
    (fun _ _ _ hr ha hl => hl.arrows hv (World.Reachable.sys hr).control
      (World.Reachable.framed hr) (World.Reachable.wellFormed hv hr)
      (World.Reachable.private hv hr) ha) h

/-- A property of a call and a task of it that holds when the task starts, and is kept. -/
structure Lasting (v8 : V8) (P : World → ApiCall → Task → Prop) : Prop where
  request {w w' : World} {a : Action} {fn : ℕ} {api : ApiCall} {func : Closure} {task : Task}
    (hr : World.Reachable v8 w) (h : World.Step v8 w a w')
    (hlog : w'.log = .requested w.nextCall api true :: w.log)
    (hviews : ∀ view ∈ api.views, view.store ∈ w.stores) (hstores : w'.stores = w.stores)
    (hperform : (api.perform v8 (.user fn w.nextCall)).run w.realm = .ok (func, task) w'.realm) :
    P w' api task
  arrow {w w' : World} {a : Action} {path : JSString} {buffer : View}
    (hr : World.Reachable v8 w) (h : World.Step v8 w a w')
    (hbuf : (newFastBuffer true buffer.byteLength).run w.realm = .ok buffer w'.realm) :
    P w' (.readFile path) (wholeRead v8 path buffer)
  keep {w w' : World} {a : Action} {api : ApiCall} {task : Task} (hr : World.Reachable v8 w)
    (h : World.Step v8 w a w') (hP : P w api task) : P w' api task

/-- A thread with a task to do belongs to a call that started it, for which the property holds. -/
def Tasked (P : World → ApiCall → Task → Prop) (w : World) : Prop :=
  ∀ t ∈ w.tokens, ∀ task, t.place = .running task →
    ∃ api, .requested t.call api true ∈ w.log ∧ P w api task

variable {P : World → ApiCall → Task → Prop}

theorem Step.tasked (hv : v8.Documented) {a : Action} (h : World.Step v8 w a w')
    (hr : World.Reachable v8 w) (hP : Lasting v8 P) (hw : w.Tasked P) : w'.Tasked P := by
  intro t ht task htask
  cases h.origin (World.Reachable.sys hr).control (World.Reachable.framed hr)
    (World.Reachable.private hv hr) ht with
  | kept hold =>
    obtain ⟨api, hlog, hapi⟩ := hw t hold task htask
    exact ⟨api, h.log_subset hlog, hP.keep hr h hapi⟩
  | moved t₀ hold hsame hplace => exact absurd htask (hplace task)
  | watched fn hfunc hplace =>
    rw [hplace] at htask
    cases htask
  | requested fn api task' hlog hviews hstores hperform hplace =>
    obtain rfl : task' = task := Place.running.inj (hplace.symm.trans htask)
    refine ⟨api, ?_, hP.request hr h hlog hviews hstores hperform⟩
    rcases api.perform_cases hv (World.Reachable.wellFormed hv hr) fn w.nextCall with
      ⟨-, _, _, _, h', -, hcall, -⟩ | ⟨-, e, h'⟩
    · rw [hperform] at h'
      cases h'
      rw [hlog, Token.call, hcall]
      exact mem_cons_self
    · rw [hperform] at h'
      cases h'
  | arrow path fn call args buffer hlog hmem hbuf hfunc hplace =>
    obtain rfl := Place.running.inj (hplace.symm.trans htask)
    refine ⟨.readFile path, ?_, hP.arrow hr h hbuf⟩
    rw [Token.call, hfunc]
    exact h.log_subset (World.Reachable.arrows hv hr _ hmem path _ rfl)

/-- **What lasts holds of every task** until its thread has done it. -/
theorem Reachable.tasked (hv : v8.Documented) (hP : Lasting v8 P) (h : World.Reachable v8 w) :
    w.Tasked P :=
  Transition.Reachable.invariant (I := Tasked P)
    (by
      rintro _ ⟨ms, mem, fs, rfl⟩ t ht
      cases ht)
    (fun _ _ _ hr hw hl => hl.tasked hv hr hP hw) h

/-- A call is of one kind. -/
theorem Reachable.api_eq (hv : v8.Documented) (h : World.Reachable v8 w) {k : ℕ}
    {api api' : ApiCall} {accepted accepted' : Bool} (hk : .requested k api accepted ∈ w.log)
    (hk' : .requested k api' accepted' ∈ w.log) : api' = api :=
  ((World.Reachable.protocol hv h).stage (World.mem_events.2 ⟨hk, rfl⟩)).api_eq
    (World.mem_events.2 ⟨hk', rfl⟩)

/-- A thread with a task to do, of a call. -/
theorem Reachable.task_of_requested (hv : v8.Documented) (hP : Lasting v8 P)
    (h : World.Reachable v8 w) {func : Closure} {task : Task}
    (ht : ⟨func, .running task⟩ ∈ w.tokens) {api : ApiCall} {accepted : Bool}
    (hk : .requested func.call api accepted ∈ w.log) : P w api task := by
  obtain ⟨api', hk', hapi⟩ := World.Reachable.tasked hv hP h _ ht task rfl
  rwa [World.Reachable.api_eq hv h hk' hk]

/-! ## What threads have done -/

/-- What a step says about a thread, the thread has done in it. -/
theorem Step.observed {a : Action} (h : World.Step v8 w a w') (hc : w.sys.Control) {k : ℕ}
    {task : Task} {node : FileNode} (hmem : .observed k task node ∈ w'.log) :
    .observed k task node ∈ w.log ∨
      ∃ func : Closure, func.call = k ∧ ⟨func, .running task⟩ ∈ w.tokens := by
  cases h with
  | @deliver job task' told mem' node' args s' htask hs | @post job task' s' hs =>
    refine (mem_cons.1 hmem).symm.imp_right fun heq => ?_
    obtain ⟨rfl, rfl, -⟩ := FileEvent.observed.inj heq
    obtain ⟨rest, h₁, -⟩ := exchange hs hc
    exact ⟨job.func, rfl, h₁.mem_iff.2 mem_cons_self⟩
  | request | refuse | invoke | invokeThrow => exact .inl (by simpa using hmem)
  | _ => exact .inl hmem

/-- **What lasts holds of every task that a thread has done.** -/
theorem Reachable.observed (hv : v8.Documented) (hP : Lasting v8 P) (h : World.Reachable v8 w)
    {k : ℕ} {task : Task} {node : FileNode} (hmem : .observed k task node ∈ w.log) :
    ∃ api, .requested k api true ∈ w.log ∧ P w api task := by
  induction h with
  | start h =>
    obtain ⟨ms, mem, fs, rfl⟩ := h
    cases hmem
  | tail hr hl ih =>
    rcases hl.observed (World.Reachable.sys hr).control hmem with hold | ⟨func, rfl, ht⟩
    · obtain ⟨api, hk, hapi⟩ := ih hold
      exact ⟨api, hl.log_subset hk, hP.keep hr hl hapi⟩
    · obtain ⟨api, hk, hapi⟩ := World.Reachable.tasked hv hP hr _ ht task rfl
      exact ⟨api, hl.log_subset hk, hP.keep hr hl hapi⟩

end World

end NanoJS
