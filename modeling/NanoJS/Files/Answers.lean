import NanoJS.Files.ThreadBounds

/-!
# What the callbacks receive

Seen from one call of the API, a step of the process does one of a few things (`CallStep`): a thread
hands over the result of its task or posts it, the loop builds a message or calls a function value.
So what the steps of one call keep holds of every call, whatever else happens
(`World.Reachable.course`), and the callback of a call receives the answer of its last operation
(`calls_answered`).
-/

namespace NanoJS

open List ByteMemory

/-! ## A call, seen from the outside -/

/-- What a step does to the events of a call, newest first, and to its jobs on the way. -/
inductive CallStep (v8 : V8) (k : ℕ) :
    List FileEvent × List Token → List FileEvent × List Token → Prop
  | stay {x} : CallStep v8 k x x
  | deliver {es func task node told mem mem' node' args} (hposts : task.posts = false)
      (htask : task.execute node told mem = (mem', node', args)) :
      CallStep v8 k (es, [⟨func, .running task⟩])
        (.observed k task node :: es, [⟨func, .ready (some args)⟩])
  | post {es func task node} (hposts : task.posts = true) :
      CallStep v8 k (es, [⟨func, .running task⟩])
        (.observed k task node :: es, [⟨func, .posted (statsAsync node)⟩])
  | build {es func objects} (job : CallbackJob) :
      CallStep v8 k (es, [⟨func, .posted objects⟩])
        (es, [⟨func, .ready (some (Message.build v8 ⟨job, objects⟩))⟩])
  | invoke {es func args fn args' mem r r'}
      (happly : (func.apply v8 args).run r = .ok (.call fn k args') r') :
      CallStep v8 k (es, [⟨func, .ready (some args)⟩]) (.called k args' mem :: es, [])
  | invokeArrow {es func args callback task r r'}
      (happly : (func.apply v8 args).run r = .ok (.start callback task) r') :
      CallStep v8 k (es, [⟨func, .ready (some args)⟩]) (es, [⟨callback, .running task⟩])
  | invokeThrow {es func args e r r'} (happly : (func.apply v8 args).run r = .error e r') :
      CallStep v8 k (es, [⟨func, .ready (some args)⟩]) (.lost k e :: es, [])

namespace World

variable {v8 : V8} {w w' : World} {k : ℕ}

/-- The events of a call and its jobs on the way. -/
def course (w : World) (k : ℕ) : List FileEvent × List Token := (w.events k, w.tokensOf k)

theorem course_of_perm (hlen : (w.tokensOf k).length ≤ 1) (hevents : w'.events k = w.events k)
    (htokens : (w'.tokensOf k).Perm (w.tokensOf k)) : w'.course k = w.course k := by
  rw [course, course, hevents]
  rcases h : w.tokensOf k with _ | ⟨t, _ | ⟨t', ts⟩⟩
  · rw [h] at htokens
    rw [htokens.eq_nil]
  · rw [h] at htokens
    rw [perm_singleton.1 htokens]
  · rw [h] at hlen
    simp at hlen

/-- Moving jobs changes no course. -/
theorem course_keep (hlen : (w.tokensOf k).length ≤ 1) (hp : w'.tokens.Perm w.tokens)
    (hlog : w'.log = w.log) : w'.course k = w.course k :=
  course_of_perm hlen (by rw [events, hlog, events]) (hp.filter _)

/-- What happens to one call changes the course of no other. -/
theorem course_frame (hlen : (w.tokensOf k).length ≤ 1) {j : ℕ} (old new : List Token)
    (es : List FileEvent) {rest : List Token} (hold : w.tokens.Perm (old ++ rest))
    (hnew : w'.tokens.Perm (new ++ rest)) (hlog : w'.log = es ++ w.log)
    (ho : ∀ t ∈ old, t.call = j) (hn : ∀ t ∈ new, t.call = j) (he : ∀ e ∈ es, e.call = j)
    (hk : j ≠ k) : w'.course k = w.course k := by
  have hnone : ∀ ts : List Token, (∀ t ∈ ts, t.call = j) → ts.filter (·.call = k) = [] :=
    fun ts hts => filter_eq_nil_iff.2 fun t ht => by simp [hts t ht, hk]
  apply course_of_perm hlen
  · have hes : es.filter (·.call = k) = [] :=
      filter_eq_nil_iff.2 fun e hmem => by simp [he e hmem, hk]
    rw [events, hlog, filter_append, hes, nil_append, events]
  · have h₁ := hold.filter (·.call = k)
    have h₂ := hnew.filter (·.call = k)
    rw [filter_append, hnone _ ho, nil_append] at h₁
    rw [filter_append, hnone _ hn, nil_append] at h₂
    exact h₂.trans h₁.symm

/-- A step of the job of a call. -/
theorem callStep_exchange (hlen : (w.tokensOf k).length ≤ 1) {t : Token} (new : List Token)
    (es : List FileEvent) {rest : List Token} (hold : w.tokens.Perm (t :: rest))
    (hnew : w'.tokens.Perm (new ++ rest)) (hlog : w'.log = es ++ w.log)
    (hn : ∀ t' ∈ new, t'.call = t.call) (he : ∀ e ∈ es, e.call = t.call) (hone : new.length ≤ 1)
    (hstep : t.call = k → ∀ es₀, CallStep v8 k (es₀, [t]) (es ++ es₀, new)) :
    CallStep v8 k (w.course k) (w'.course k) := by
  by_cases hk : t.call = k
  · have h₁ : (w.tokensOf k).Perm (t :: rest.filter (·.call = k)) := by
      have := hold.filter (·.call = k)
      rwa [filter_cons_of_pos (by simpa using hk)] at this
    have hrest : rest.filter (·.call = k) = [] := by
      have := h₁.length_eq
      rw [length_cons] at this
      exact eq_nil_of_length_eq_zero (by omega)
    have h₂ : (w'.tokensOf k).Perm new := by
      have hself : new.filter (·.call = k) = new :=
        filter_eq_self.2 fun t' ht' => by simpa using (hn t' ht').trans hk
      have := hnew.filter (·.call = k)
      rwa [filter_append, hrest, append_nil, hself] at this
    have hevents : w'.events k = es ++ w.events k := by
      rw [events, hlog, filter_append, filter_eq_self.2 fun e hmem => by simpa [he e hmem] using hk,
        events]
    have htokens : w'.tokensOf k = new := by
      rcases new with _ | ⟨t', _ | ⟨t'', ts⟩⟩
      · exact h₂.eq_nil
      · exact perm_singleton.1 h₂
      · simp at hone
    rw [hrest] at h₁
    rw [course, course, hevents, htokens, perm_singleton.1 h₁]
    exact hstep hk _
  · rw [course_frame hlen [t] new es hold hnew hlog (by simp) hn he hk]
    exact .stay

/-- **What a step does to a call** that has been made. -/
theorem Step.callStep (hv : v8.Documented) {a : Action} (h : World.Step v8 w a w')
    (hr : World.Reachable v8 w) {api : ApiCall} {accepted : Bool}
    (hk : .requested k api accepted ∈ w.log) : CallStep v8 k (w.course k) (w'.course k) := by
  have hc := (World.Reachable.sys hr).control
  have hf := World.Reachable.framed hr
  have hp := World.Reachable.protocol hv hr
  have hstage := hp.stage (mem_events.2 ⟨hk, rfl⟩)
  have hlen := hstage.length_le
  have hlt : k < w.nextCall := hp.events_lt _ hk
  have hstay : w'.course k = w.course k → CallStep v8 k (w.course k) (w'.course k) :=
    fun h => h ▸ .stay
  -- a job that a watcher holds belongs to no call of the API
  have hwatching : ∀ {func : Closure} (new : List Token) {rest : List Token},
      w.tokens.Perm (⟨func, .watching⟩ :: rest) → w'.tokens.Perm (new ++ rest) → w'.log = w.log →
      (∀ t ∈ new, t.call = func.call) → CallStep v8 k (w.course k) (w'.course k) := by
    intro func new rest h₁ h₂ hlog hn
    have hne : func.call ≠ k := by
      intro hcall
      have hmem : (⟨func, .watching⟩ : Token) ∈ w.tokensOf k :=
        mem_filter.2 ⟨h₁.mem_iff.2 mem_cons_self, decide_eq_true hcall⟩
      exact (hstage.perm (perm_cons_erase hmem)).not_watching
    exact hstay (course_frame hlen [⟨func, .watching⟩] new [] h₁ h₂ hlog (by simp [Token.call]) hn
      (by simp) hne)
  cases h with
  | file | bufferFrom | allocate | write => exact hstay (course_keep hlen (.refl _) rfl)
  | @program l fn s' hprogram hl hs =>
    obtain ⟨rest, h₁, h₂⟩ := exchange hs hc
    cases hs with
    | timerCall => exact hstay (course_keep hlen (.refl _) rfl)
    | watchFile =>
      obtain rfl := Option.some.inj hl
      exact hstay (course_frame hlen [] [⟨.user fn w.nextCall, .watching⟩] [] h₁ h₂ rfl (by simp)
        (by simp [Token.call, Closure.call]) (by simp) hlt.ne')
    | _ => cases hl
  | @request fn api func task r' s' hprogram hviews hperform hs =>
    obtain ⟨rest, h₁, h₂⟩ := exchange hs hc
    have hcall := Stage.of_perform hv (World.Reachable.wellFormed hv hr) hperform
    exact hstay (course_frame hlen [] [⟨func, .running task⟩] [.requested w.nextCall api true] h₁ h₂
      rfl (by simp) (fun t ht => hcall.call_eq ht) (by simp [FileEvent.call]) hlt.ne')
  | @refuse fn api e r' hprogram hviews hperform =>
    exact hstay (course_frame hlen [] [] [.requested w.nextCall api false] (.refl _) (.refl _) rfl
      (by simp) (by simp) (by simp [FileEvent.call]) hlt.ne')
  | arrow hframe hs => exact hstay (course_keep hlen (tokens_arrow hframe hs hc) rfl)
  | jsReturn hframe hs => exact hstay (course_keep hlen (tokens_jsReturn hframe hs hc) rfl)
  | @passive l s' hl hs =>
    obtain ⟨rest, h₁, h₂⟩ := exchange hs hc
    cases l with
    | watcherChange job path | watcherPost job objects =>
      exact hwatching _ h₁ h₂ rfl (by simp [Label.gives, Token.call])
    | watcherStop job path => exact hwatching [] h₁ h₂ rfl (by simp)
    | _ => first | exact hstay (course_keep hlen (h₂.trans h₁.symm) rfl) | cases hl
  | @build msg s' hpc hs =>
    obtain ⟨rest, h₁, h₂⟩ := exchange hs hc
    rw [Label.takes_build hpc] at h₁
    rw [Label.gives_build hpc] at h₂
    exact callStep_exchange hlen _ [] h₁ h₂ rfl (by simp [Token.call, Message.token]) (by simp)
      (by simp) fun _ es₀ => .build msg.job
  | @invoke job rest args fn call args' r' s' hq hargs happly hs =>
    obtain ⟨rest, h₁, h₂⟩ := exchange hs hc
    rw [Label.takes_invokeCallback hq hargs] at h₁
    obtain ⟨rfl, -⟩ := Closure.apply_call happly
    refine callStep_exchange hlen [] [.called job.func.call args' r'.mem] h₁ h₂ rfl
      (by simp) (by simp [FileEvent.call, Token.call]) (by simp) fun hcall es₀ => ?_
    obtain rfl : job.func.call = k := hcall
    exact .invoke happly
  | @invokeArrow job rest args callback task r' s' hq hargs happly hs =>
    obtain ⟨rest, h₁, h₂⟩ := exchange hs hc
    rw [Label.takes_invokeCallback hq hargs] at h₁
    have hcall : callback.call = job.func.call := by
      obtain ⟨_, _, _, -, rfl, -, hcall, -⟩ := Closure.apply_start happly
      exact hcall
    rw [hf.frame_of_invokes (hs.invokes hc).1] at h₂
    exact callStep_exchange hlen [⟨callback, .running task⟩] [] h₁ (h₂.cons _) rfl
      (by simp [Token.call, hcall]) (by simp) (by simp) fun _ es₀ => .invokeArrow happly
  | @invokeThrow job rest args e r' s' hq hargs happly hs =>
    obtain ⟨rest, h₁, h₂⟩ := exchange hs hc
    rw [Label.takes_invokeCallback hq hargs] at h₁
    rw [hf.frame_of_invokes (hs.invokes hc).1] at h₂
    refine callStep_exchange hlen [] [.lost job.func.call e] h₁ h₂ rfl (by simp)
      (by simp [FileEvent.call, Token.call]) (by simp) fun hcall es₀ => ?_
    obtain rfl : job.func.call = k := hcall
    exact .invokeThrow happly
  | @deliver job task told mem' node' args s' htask hs =>
    obtain ⟨rest, h₁, h₂⟩ := exchange hs hc
    have hposts : task.posts = false := by
      cases hs with
      | deliver _ hposts => exact hposts
    refine callStep_exchange hlen _ [.observed job.func.call task (w.fs task.path)] h₁ h₂ rfl
      (by simp [Label.gives, Token.call]) (by simp [FileEvent.call, Token.call])
      (by simp [Label.gives]) fun hcall es₀ => ?_
    obtain rfl : job.func.call = k := hcall
    exact .deliver hposts htask
  | @post job task s' hs =>
    obtain ⟨rest, h₁, h₂⟩ := exchange hs hc
    have hposts : task.posts = true := by
      cases hs with
      | post _ hposts => exact hposts
    refine callStep_exchange hlen _ [.observed job.func.call task (w.fs task.path)] h₁ h₂ rfl
      (by simp [Label.gives, Token.call]) (by simp [FileEvent.call, Token.call])
      (by simp [Label.gives]) fun hcall es₀ => ?_
    obtain rfl : job.func.call = k := hcall
    exact .post hposts

/-- What a step does to a call that is made in it. -/
theorem Step.asked (hv : v8.Documented) {a : Action} (h : World.Step v8 w a w')
    (hr : World.Reachable v8 w) {api : ApiCall} {accepted : Bool}
    (hold : .requested k api accepted ∉ w.log) (hk : .requested k api accepted ∈ w'.log) :
    ∃ fn, (∃ func task r', (api.perform v8 (.user fn k)).run w.realm = .ok (func, task) r' ∧
        w'.course k = ([.requested k api true], [⟨func, .running task⟩])) ∨
      ∃ e r', (api.perform v8 (.user fn k)).run w.realm = .error e r' ∧
        w'.course k = ([.requested k api false], []) := by
  have hc := (World.Reachable.sys hr).control
  have hp := World.Reachable.protocol hv hr
  have hnone : w.tokensOf w.nextCall = [] :=
    filter_eq_nil_iff.2 fun t ht => by
      have := hp.tokens_lt t ht
      simp only [decide_eq_true_eq]
      omega
  have hevents : ∀ {e : FileEvent}, w'.log = e :: w.log → e.call = w.nextCall →
      w'.events w.nextCall = [e] := by
    intro e hlog he
    rw [events, hlog, filter_cons_of_pos (by simpa using he)]
    exact congrArg (e :: ·) hp.events_next
  cases h with
  | @request fn api' func task r' s' hprogram hviews hperform hs =>
    obtain ⟨rest, h₁, h₂⟩ := exchange hs hc
    obtain ⟨rfl, rfl, rfl⟩ : k = w.nextCall ∧ api = api' ∧ accepted = true := by
      simpa [hold] using hk
    have hcall := Stage.of_perform hv (World.Reachable.wellFormed hv hr) hperform
    have hself : [(⟨func, .running task⟩ : Token)].filter (·.call = w.nextCall) =
        [⟨func, .running task⟩] :=
      filter_eq_self.2 fun t ht => decide_eq_true (hcall.call_eq ht)
    have htokens := ((h₂.trans (h₁.symm.append_left _)).filter (·.call = w.nextCall)).trans
      (.of_eq (filter_append _ w.tokens))
    have hrest : w.tokens.filter (·.call = w.nextCall) = [] := hnone
    rw [Label.gives, hself, hrest, append_nil] at htokens
    refine ⟨fn, .inl ⟨func, task, r', hperform, ?_⟩⟩
    rw [course, hevents rfl rfl]
    exact congrArg _ (perm_singleton.1 htokens)
  | @refuse fn api' e r' hprogram hviews hperform =>
    obtain ⟨rfl, rfl, rfl⟩ : k = w.nextCall ∧ api = api' ∧ accepted = false := by
      simpa [hold] using hk
    refine ⟨fn, .inr ⟨e, r', hperform, ?_⟩⟩
    rw [course, hevents rfl rfl]
    exact congrArg _ hnone
  | invoke | invokeThrow | deliver | post => exact absurd (by simpa using hk) hold
  | _ => exact absurd hk hold

/-- **The rule for one call.** What holds of a call when it is made, and is kept by its steps, holds
of every call in every reachable state. -/
theorem Reachable.course (hv : v8.Documented) {I : ApiCall → List FileEvent × List Token → Prop}
    (hask : ∀ api fn func task r r', (api.perform v8 (.user fn k)).run r = .ok (func, task) r' →
      I api ([.requested k api true], [⟨func, .running task⟩]))
    (hrefuse : ∀ api fn e r r', (api.perform v8 (.user fn k)).run r = .error e r' →
      I api ([.requested k api false], []))
    (hstep : ∀ api x x', I api x → CallStep v8 k x x' → I api x')
    (h : World.Reachable v8 w) {api : ApiCall} {accepted : Bool}
    (hk : .requested k api accepted ∈ w.log) : I api (w.course k) := by
  induction h with
  | start h =>
    obtain ⟨ms, mem, fs, rfl⟩ := h
    cases hk
  | @tail w a w' hr hl ih =>
    by_cases hold : .requested k api accepted ∈ w.log
    · exact hstep _ _ _ (ih hold) (hl.callStep hv hr hold)
    · obtain ⟨fn, ⟨func, task, r', hperform, hcourse⟩ | ⟨e, r', hperform, hcourse⟩⟩ :=
        hl.asked hv hr hold hk
      · exact hcourse ▸ hask _ _ _ _ _ _ hperform
      · exact hcourse ▸ hrefuse _ _ _ _ _ hperform

end World

/-! ## Answers -/

/-- The path among the arguments, in a call that may be answered. -/
def ApiCall.path : ApiCall → JSString
  | readFileAsync path .. | writeFileAsync path .. | getStatsAsync path | read path ..
  | write path .. | readFile path => path
  | misused _ => []

/-- What the callback of a read is told of the file: how much of it has been read. -/
def ReadOptions.told (options : ReadOptions) (node : FileNode) : Value :=
  .int (toInt32 (node.read (integerValue options.length) (integerValue options.position)).length)

/-- The answer to a call: the events before its last operation, and the arguments of the callback,
when that operation has found the file. -/
def ApiCall.Answer (v8 : V8) (k : ℕ) (before : List FileEvent) (node : FileNode)
    (args : List Value) (api : ApiCall) : Prop :=
  match api with
  | readFileAsync _ _ options =>
    before = [.requested k api true] ∧ args = [.null, options.told node]
  | read _ buffer options =>
    before = [.requested k api true] ∧
      args = [.null, .buffer buffer, (ReadOptions.ofRead buffer options).told node]
  | writeFileAsync .. | write .. =>
    before = [.requested k api true] ∧ ∃ told, args = [.null, .int (toInt32 told)]
  | getStatsAsync _ =>
    before = [.requested k api true] ∧ args = .null :: (statsAsync node).map (buildObject v8)
  | readFile path =>
    ∃ stat buffer,
      before = [.observed k (NanoJS.getStatsAsync v8 path) stat, .requested k api true] ∧
        stat.Sized buffer.byteLength ∧ args = [.null, .buffer buffer]
  | misused _ => False

/-- The arguments of the job whose thread has found the file. -/
def Task.Result (v8 : V8) (node : FileNode) (args : List Value) : Task → Prop
  | .read _ _ _ length position =>
    args = [.null, .int (toInt32 (node.read length position).length)]
  | .write .. => ∃ told, args = [.null, .int (toInt32 told)]
  | .stat _ => args = .null :: (statsAsync node).map (buildObject v8)

variable {v8 : V8} {k : ℕ} {api : ApiCall}

theorem Task.result_of_execute {task : Task} {node node' : FileNode} {told : ℤ} {mem mem' : Mem}
    {args : List Value} (hposts : task.posts = false)
    (h : task.execute node told mem = (mem', node', args)) : task.Result v8 node args := by
  cases task with
  | read path data offset length position =>
    cases h
    exact rfl
  | write path data length mode =>
    cases h
    exact ⟨told, rfl⟩
  | stat path => cases hposts

theorem Task.result_of_posts {task : Task} {node : FileNode} (hposts : task.posts = true)
    (job : CallbackJob) : task.Result v8 node (Message.build v8 ⟨job, statsAsync node⟩) := by
  cases task with
  | stat path => exact rfl
  | _ => cases hposts

/-- An operation of a call: the events before it, the job's function, and its task. -/
inductive Working (v8 : V8) (k : ℕ) : ApiCall → List FileEvent → Closure → Task → Prop
  | first {api fn func task r r'}
      (h : (api.perform v8 (.user fn k)).run r = .ok (func, task) r') :
      Working v8 k api [.requested k api true] func task
  /-- The read of `Files.readFile`. -/
  | whole {path fn stat buffer} (hstat : stat.Sized buffer.byteLength) :
      Working v8 k (.readFile path)
        [.observed k (getStatsAsync v8 path) stat, .requested k (.readFile path) true]
        (.readWrapper (.readFileWrapper (.user fn k) buffer) buffer) (wholeRead v8 path buffer)

/-- The course of a call. -/
inductive Course (v8 : V8) (k : ℕ) (api : ApiCall) : List FileEvent × List Token → Prop
  | refused {fn e r r'} (h : (api.perform v8 (.user fn k)).run r = .error e r') :
      Course v8 k api ([.requested k api false], [])
  | running {es func task} (ho : Working v8 k api es func task) :
      Course v8 k api (es, [⟨func, .running task⟩])
  | posted {es func task node} (ho : Working v8 k api es func task) (hposts : task.posts = true) :
      Course v8 k api (.observed k task node :: es, [⟨func, .posted (statsAsync node)⟩])
  | ready {es func task node args} (ho : Working v8 k api es func task)
      (hres : task.Result v8 node args) :
      Course v8 k api (.observed k task node :: es, [⟨func, .ready (some args)⟩])
  | answered {es func task node args mem} (ho : Working v8 k api es func task)
      (hpath : task.path = toUtf8String v8 api.path) (hans : api.Answer v8 k es node args) :
      Course v8 k api (.called k args mem :: .observed k task node :: es, [])
  | lost {es func task node e} (ho : Working v8 k api es func task) :
      Course v8 k api (.lost k e :: .observed k task node :: es, [])

theorem Working.not_called {es : List FileEvent} {func : Closure} {task : Task}
    (ho : Working v8 k api es func task) (args : List Value) (mem : Mem) :
    .called k args mem ∉ es := by
  cases ho <;> simp

/-- The job of `Files.write` has the user's function. -/
theorem ApiCall.perform_write_func {fn : ℕ} {func : Closure} {task : Task} {r r' : Realm}
    {path : JSString} {data : WriteData} {options : Option (Option JSString × Option JSString)}
    (h : ((ApiCall.write path data options).perform v8 (.user fn k)).run r = .ok (func, task) r') :
    func = .user fn k := by
  rw [perform, EStateM.run_bind] at h
  rcases hw : (filesWrite v8 path data (writeArgument options (.user fn k))).run r with
    ⟨request, r''⟩ | ⟨e, r''⟩
  · rw [hw] at h
    cases h
    obtain ⟨view, -, rfl⟩ := filesWrite_ok hw
    exact writeArgument_function options (.user fn k)
  · rw [hw] at h
    cases h

/-- **The callback is called with the answer.** -/
theorem Working.answer {es : List FileEvent} {func : Closure} {task : Task}
    (ho : Working v8 k api es func task) {node : FileNode} {args args' : List Value} {fn : ℕ}
    {r r' : Realm} (hres : task.Result v8 node args)
    (happly : (func.apply v8 args).run r = .ok (.call fn k args') r') :
    api.Answer v8 k es node args' ∧ task.path = toUtf8String v8 api.path := by
  cases ho with
  | whole hstat =>
    cases happly
    cases hres
    exact ⟨⟨_, _, rfl, hstat, rfl⟩, rfl⟩
  | first h =>
    cases api with
    | readFileAsync path array options | getStatsAsync path | writeFileAsync path data flag =>
      cases h
      cases happly
      exact ⟨⟨rfl, hres⟩, rfl⟩
    | read path buffer options =>
      rcases options with _ | options <;>
      · cases h
        cases happly
        cases hres
        exact ⟨⟨rfl, rfl⟩, rfl⟩
    | write path data options =>
      obtain rfl := ApiCall.perform_write_func h
      obtain ⟨view, -, rfl⟩ := ApiCall.perform_write h
      cases happly
      exact ⟨⟨rfl, hres⟩, rfl⟩
    | readFile path =>
      cases h
      rcases Closure.apply_arrow v8 path (.user _ k) args r with ⟨_, _, -, h'⟩ | ⟨_, h'⟩ <;>
      · rw [happly] at h'
        cases h'
    | misused misuse => cases h

/-- Behind a first operation only the arrow function of `Files.readFile` starts another one. -/
theorem Working.next {es : List FileEvent} {func : Closure} {task : Task}
    (ho : Working v8 k api es func task) {node : FileNode} {args : List Value}
    {callback : Closure} {task' : Task} {r r' : Realm} (hres : task.Result v8 node args)
    (happly : (func.apply v8 args).run r = .ok (.start callback task') r') :
    Working v8 k api (.observed k task node :: es) callback task' := by
  have hplain : func.isPlain = true → False := by
    intro hplain
    obtain ⟨fn, args', h⟩ := func.apply_plain v8 hplain args r
    rw [happly] at h
    cases h
  cases ho with
  | whole hstat => exact (hplain rfl).elim
  | first h =>
    cases api with
    | readFileAsync | getStatsAsync | writeFileAsync =>
      cases h
      exact (hplain rfl).elim
    | read path buffer options =>
      rcases options with _ | options <;>
      · cases h
        exact (hplain rfl).elim
    | write path data options =>
      obtain rfl := ApiCall.perform_write_func h
      exact (hplain rfl).elim
    | readFile path =>
      cases h
      cases hres
      rcases apply_statArrow v8 path (.user _ k) ⟨0, callback, none⟩ node r with
        ⟨buffer, r'', hsize, -, h'⟩ | ⟨-, e, h'⟩
      · obtain ⟨⟨⟩, -⟩ := EStateM.Result.ok.inj (happly.symm.trans h')
        exact .whole hsize
      · cases happly.symm.trans h'
    | misused misuse => cases h

theorem Course.step {x x' : List FileEvent × List Token} (h : Course v8 k api x)
    (hs : CallStep v8 k x x') : Course v8 k api x' := by
  cases hs with
  | stay => exact h
  | deliver hposts htask =>
    cases h with
    | running ho => exact .ready ho (Task.result_of_execute hposts htask)
  | post hposts =>
    cases h with
    | running ho => exact .posted ho hposts
  | build job =>
    cases h with
    | posted ho hposts => exact .ready ho (Task.result_of_posts hposts job)
  | invoke happly =>
    cases h with
    | ready ho hres =>
      obtain ⟨hans, hpath⟩ := ho.answer hres happly
      exact .answered ho hpath hans
  | invokeArrow happly =>
    cases h with
    | ready ho hres => exact .running (ho.next hres happly)
  | invokeThrow happly =>
    cases h with
    | ready ho hres => exact .lost ho

theorem World.Reachable.course_of_requested (hv : v8.Documented) {w : World}
    (hr : World.Reachable v8 w) {accepted : Bool} (hk : .requested k api accepted ∈ w.log) :
    Course v8 k api (w.course k) :=
  World.Reachable.course hv (fun _ _ _ _ _ _ h => .running (.first h))
    (fun _ _ _ _ _ h => .refused h) (fun _ _ _ h hs => h.step hs) hr hk

/-- **Calls are answered.** In every interleaving, a callback is called behind the last operation of
its call, on the path of the call, and with its answer: null, and for a read how much it has read of
the file that the thread has found, before that the buffer itself if it was `Files.read`; for a
write a number; for the metadata the object of those of the file; and for `Files.readFile` a buffer
of the size that the metadata had. -/
theorem calls_answered (hv : v8.Documented) {w : World} (hr : World.Reachable v8 w)
    {accepted : Bool} (hk : .requested k api accepted ∈ w.log) {args : List Value} {mem : Mem}
    (hcalled : .called k args mem ∈ w.log) :
    ∃ task node before, w.events k = .called k args mem :: .observed k task node :: before ∧
      task.path = toUtf8String v8 api.path ∧ api.Answer v8 k before node args := by
  have hcourse := World.Reachable.course_of_requested hv hr hk
  have hmem : .called k args mem ∈ w.events k := World.mem_events.2 ⟨hcalled, rfl⟩
  rw [World.course] at hcourse
  generalize w.events k = es at hcourse hmem
  generalize w.tokensOf k = ts at hcourse
  cases hcourse with
  | refused => simp at hmem
  | running ho => exact absurd hmem (ho.not_called args mem)
  | posted ho | ready ho | lost ho => exact absurd hmem (by simp [ho.not_called args mem])
  | answered ho hpath hans =>
    obtain ⟨rfl, rfl⟩ : args = _ ∧ mem = _ := by simpa [ho.not_called args mem] using hmem
    exact ⟨_, _, _, rfl, hpath, hans⟩

/-- The metadata of a file of three bytes. -/
theorem calls_answered_stat : ∃ w args mem, World.Reachable V8.reference w ∧
    .called 0 args mem ∈ w.log ∧
    args = .null :: (statsAsync (.regular [0x61, 0x62, 0x63])).map (buildObject V8.reference) := by
  obtain ⟨w, hr, -, args, mem, hlog⟩ := stat_run (.regular [0x61, 0x62, 0x63])
  have hk : .requested 0 (.getStatsAsync (jsString "f")) true ∈ w.log := by simp [hlog]
  have hcalled : .called 0 args mem ∈ w.log := by simp [hlog]
  obtain ⟨task, node, before, hevents, -, -, hargs⟩ :=
    calls_answered V8.reference_documented hr hk hcalled
  have hnode : node = .regular [0x61, 0x62, 0x63] := by
    simp only [World.events, hlog, FileEvent.call, decide_true, filter_cons_of_pos, filter_nil,
      cons.injEq, FileEvent.observed.injEq] at hevents
    exact hevents.2.1.2.2.symm
  exact ⟨w, args, mem, hr, hcalled, hnode ▸ hargs⟩

end NanoJS
