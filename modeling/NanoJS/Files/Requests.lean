import NanoJS.Files.Closures
import NanoJS.Files.Tokens

/-!
# The course of a call

Seen from one call of the API, the process is a small automaton (`Stage`): its states are the
events of the call so far and its job on the way, of which there is at most one. A call runs one
operation and calls the user's callback; `Files.readFile` gets the metadata first and throws when
it finds no size. Whatever the interleaving, each call is in a stage of its own
(`World.Reachable.protocol`).
-/

namespace NanoJS

open List

/-! ## Stages -/

/-- The operation behind which the user's callback is called: the events before it, the job's
function and its task. -/
inductive Operation (v8 : V8) (k : ℕ) : ApiCall → List FileEvent → Closure → Task → Prop
  | plain {api func task} (ha : api.Accepts v8) (hapi : api.isReadFile = false)
      (hfunc : func.isPlain = true) (hcall : func.call = k) :
      Operation v8 k api [.requested k api true] func task
  /-- The read of `Files.readFile`, into a buffer of the size of the file. -/
  | whole {path fn node buffer} (hnode : node.Sized buffer.byteLength)
      (hoffset : buffer.byteOffset = 0) :
      Operation v8 k (.readFile path)
        [.observed k (getStatsAsync v8 path) node, .requested k (.readFile path) true]
        (.readWrapper (.readFileWrapper (.user fn k) buffer) buffer)
        (.read (toUtf8String v8 path) buffer.store 0 buffer.byteLength 0)

/-- The events of a call, newest first, and its jobs on the way. -/
inductive Stage (v8 : V8) (k : ℕ) : ApiCall → List FileEvent → List Token → Prop
  | refused {api} (ha : ¬api.Accepts v8) : Stage v8 k api [.requested k api false] []
  -- the operation
  | running {api es func task} (ho : Operation v8 k api es func task) :
      Stage v8 k api es [⟨func, .running task⟩]
  | posted {api es func task node} (ho : Operation v8 k api es func task) :
      Stage v8 k api (.observed k task node :: es) [⟨func, .posted (statsAsync node)⟩]
  | ready {api es func task node args} (ho : Operation v8 k api es func task)
      (hnull : argument args 0 = .null) :
      Stage v8 k api (.observed k task node :: es) [⟨func, .ready (some args)⟩]
  | called {api es func task node args fn args' mem r r'} (ho : Operation v8 k api es func task)
      (hnull : argument args 0 = .null)
      (happly : (func.apply v8 args).run r = .ok (.call fn k args') r') :
      Stage v8 k api (.called k args' mem :: .observed k task node :: es) []
  -- the metadata of `Files.readFile`
  | statRunning {path fn} :
      Stage v8 k (.readFile path) [.requested k (.readFile path) true]
        [⟨.statArrow path (.user fn k), .running (getStatsAsync v8 path)⟩]
  | statPosted {path fn node} :
      Stage v8 k (.readFile path)
        [.observed k (getStatsAsync v8 path) node, .requested k (.readFile path) true]
        [⟨.statArrow path (.user fn k), .posted (statsAsync node)⟩]
  | statReady {path fn node job} :
      Stage v8 k (.readFile path)
        [.observed k (getStatsAsync v8 path) node, .requested k (.readFile path) true]
        [⟨.statArrow path (.user fn k),
          .ready (some (Message.build v8 ⟨job, statsAsync node⟩))⟩]
  | lost {path node e} (hnode : ∀ n, ¬node.Sized n) :
      Stage v8 k (.readFile path)
        [.lost k e, .observed k (getStatsAsync v8 path) node, .requested k (.readFile path) true]
        []

/-- The threads leave the error argument null. -/
theorem Task.execute_null {task : Task} (htask : task.posts = false) (node : FileNode)
    (told : ℤ) (mem : ByteMemory.Mem) :
    argument (task.execute node told mem).2.2 0 = .null := by
  cases task with
  | stat path => cases htask
  | _ => rfl

theorem Operation.isPlain {v8 : V8} {k : ℕ} {api : ApiCall} {es : List FileEvent} {func : Closure}
    {task : Task} (ho : Operation v8 k api es func task) : func.isPlain = true := by
  cases ho with
  | plain _ _ hfunc => exact hfunc
  | whole => rfl

namespace Stage

variable {v8 : V8} {k : ℕ} {api : ApiCall} {es : List FileEvent} {func : Closure} {ts : List Token}

/-- **There is at most one job on the way.** -/
theorem length_le (h : Stage v8 k api es ts) : ts.length ≤ 1 := by
  cases h <;> simp

theorem perm {ts' : List Token} (h : Stage v8 k api es ts) (hp : ts.Perm ts') :
    Stage v8 k api es ts' := by
  have hlen := h.length_le
  rcases ts with _ | ⟨t, _ | ⟨t', ts⟩⟩
  · rwa [perm_nil.1 hp.symm]
  · rwa [perm_singleton.1 hp.symm]
  · simp at hlen

/-- A job of the call is not with a watcher. -/
theorem not_watching (h : Stage v8 k api es (⟨func, .watching⟩ :: ts)) : False := by
  cases h

/-- The jobs of a call lead to its callback. -/
theorem call_eq (h : Stage v8 k api es ts) {t : Token} (ht : t ∈ ts) : t.call = k := by
  cases h with
  | running ho | posted ho | ready ho =>
    obtain rfl := mem_singleton.1 ht
    cases ho with
    | plain _ _ _ hcall => exact hcall
    | whole => rfl
  | statRunning | statPosted | statReady =>
    obtain rfl := mem_singleton.1 ht
    rfl
  | _ => cases ht

theorem of_perform {r : Realm} (hv : v8.Documented) (hr : r.WellFormed) {fn : ℕ} {task : Task}
    {r' : Realm} (h : (api.perform v8 (.user fn k)).run r = .ok (func, task) r') :
    Stage v8 k api [.requested k api true] [⟨func, .running task⟩] := by
  rcases api.perform_cases hv hr fn k with
    ⟨ha, func', task', r'', h', -, hcall, -, -, hfunc⟩ | ⟨-, e, h'⟩
  · rw [h] at h'
    cases h'
    rcases hfunc with ⟨hapi, hplain⟩ | ⟨path, rfl, rfl, rfl⟩
    · exact .running (.plain ha hapi hplain hcall)
    · exact .statRunning
  · rw [h] at h'
    cases h'

theorem of_refuse {r : Realm} (hv : v8.Documented) (hr : r.WellFormed) {fn : ℕ} {e : JSError}
    {r' : Realm} (h : (api.perform v8 (.user fn k)).run r = .error e r') :
    Stage v8 k api [.requested k api false] [] := by
  rcases api.perform_cases hv hr fn k with ⟨-, func', task', r'', h', -⟩ | ⟨ha, -⟩
  · rw [h] at h'
    cases h'
  · exact .refused ha

theorem deliver {task : Task} {node : FileNode} {told : ℤ} {mem mem' : ByteMemory.Mem}
    {node' : FileNode} {args : List Value}
    (h : Stage v8 k api es (⟨func, .running task⟩ :: ts)) (htask : task.posts = false)
    (hex : task.execute node told mem = (mem', node', args)) :
    Stage v8 k api (.observed k task node :: es) (⟨func, .ready (some args)⟩ :: ts) := by
  have hnull := Task.execute_null htask node told mem
  rw [hex] at hnull
  cases h with
  | running ho => exact .ready ho hnull
  | statRunning => cases htask

theorem post {task : Task} {node : FileNode}
    (h : Stage v8 k api es (⟨func, .running task⟩ :: ts)) :
    Stage v8 k api (.observed k task node :: es) (⟨func, .posted (statsAsync node)⟩ :: ts) := by
  cases h with
  | running ho => exact .posted ho
  | statRunning => exact .statPosted

theorem build {msg : Message} (h : Stage v8 k api es (msg.token :: ts)) :
    Stage v8 k api es (⟨msg.job.func, .ready (some (msg.build v8))⟩ :: ts) := by
  obtain ⟨⟨id, func, args⟩, objects⟩ := msg
  cases h with
  | posted ho => exact .ready ho rfl
  | statPosted => exact .statReady

/-- The user's callback is called only behind an operation. -/
theorem invoke {args args' : List Value} {r r' : Realm} {fn call : ℕ} {mem : ByteMemory.Mem}
    (h : Stage v8 k api es (⟨func, .ready (some args)⟩ :: ts))
    (happly : (func.apply v8 args).run r = .ok (.call fn call args') r') (hcall : call = k) :
    Stage v8 k api (.called k args' mem :: es) ts := by
  subst hcall
  cases h with
  | ready ho hnull => exact .called ho hnull happly
  | @statReady path fn node job =>
    rcases apply_statArrow v8 path (.user fn call) job node r with
      ⟨buffer, r'', -, -, h⟩ | ⟨-, e, h⟩ <;>
    · rw [h] at happly
      cases happly

/-- The read of `Files.readFile` is started by the arrow function, which has found a size. -/
theorem invokeArrow {args : List Value} {r r' : Realm} {callback : Closure} {task : Task}
    (h : Stage v8 k api es (⟨func, .ready (some args)⟩ :: ts))
    (happly : (func.apply v8 args).run r = .ok (.start callback task) r') :
    Stage v8 k api es (⟨callback, .running task⟩ :: ts) := by
  cases h with
  | ready ho hnull =>
    obtain ⟨fn, args', h⟩ := func.apply_plain v8 ho.isPlain args r
    rw [h] at happly
    cases happly
  | @statReady path fn node job =>
    rcases apply_statArrow v8 path (.user fn k) job node r with
      ⟨buffer, r'', hsize, hbuf, h⟩ | ⟨-, e, h⟩
    · rw [h] at happly
      cases happly
      exact .running (.whole hsize (newFastBuffer_eq hbuf).2.2.1)
    · rw [h] at happly
      cases happly

/-- Only the arrow function throws, when it has found no size. -/
theorem invokeThrow {args : List Value} {r r' : Realm} {e : JSError}
    (h : Stage v8 k api es (⟨func, .ready (some args)⟩ :: ts))
    (happly : (func.apply v8 args).run r = .error e r') :
    Stage v8 k api (.lost k e :: es) ts := by
  cases h with
  | ready ho hnull =>
    obtain ⟨fn, args', h⟩ := func.apply_plain v8 ho.isPlain args r
    rw [h] at happly
    cases happly
  | @statReady path fn node job =>
    rcases apply_statArrow v8 path (.user fn k) job node r with
      ⟨buffer, r'', -, -, h⟩ | ⟨hsize, e, h⟩
    · rw [h] at happly
      cases happly
    · exact .lost hsize

end Stage

/-! ## Every call is in a stage -/

namespace World

/-- The events of a call, newest first. -/
def events (w : World) (k : ℕ) : List FileEvent := w.log.filter (·.call = k)

/-- The jobs of a call on the way. -/
def tokensOf (w : World) (k : ℕ) : List Token := w.tokens.filter (·.call = k)

/-- Calls are numbered, and each that was made is in a stage. -/
structure Protocol (v8 : V8) (w : World) : Prop where
  tokens_lt : ∀ t ∈ w.tokens, t.call < w.nextCall
  events_lt : ∀ e ∈ w.log, e.call < w.nextCall
  calls : ∀ k, (∀ api accepted, .requested k api accepted ∉ w.log) ∨
    ∃ api, Stage v8 k api (w.events k) (w.tokensOf k)

variable {v8 : V8} {w w' : World}

theorem mem_events {k : ℕ} {e : FileEvent} : e ∈ w.events k ↔ e ∈ w.log ∧ e.call = k := by
  simp [events]

theorem Protocol.events_next (h : w.Protocol v8) : w.events w.nextCall = [] :=
  filter_eq_nil_iff.2 fun e he => by
    have := h.events_lt e he
    simp only [decide_eq_true_eq]
    omega

/-- Moving tokens keeps the stages. -/
theorem Protocol.keep (h : w.Protocol v8) (hp : w'.tokens.Perm w.tokens) (hlog : w'.log = w.log)
    (hnext : w.nextCall ≤ w'.nextCall) : w'.Protocol v8 where
  tokens_lt t ht := (h.tokens_lt t (hp.mem_iff.1 ht)).trans_le hnext
  events_lt e he := (h.events_lt e (hlog ▸ he)).trans_le hnext
  calls k := by
    rw [events, hlog]
    exact (h.calls k).imp_right fun ⟨api, hs⟩ => ⟨api, hs.perm (hp.symm.filter _)⟩

/-- What happens to one call keeps the stages of the others. -/
theorem Protocol.frame (h : w.Protocol v8) (old new : List Token) (es : List FileEvent)
    {rest : List Token} {j : ℕ} (hold : w.tokens.Perm (old ++ rest))
    (hnew : w'.tokens.Perm (new ++ rest)) (hlog : w'.log = es ++ w.log)
    (ho : ∀ t ∈ old, t.call = j) (hn : ∀ t ∈ new, t.call = j)
    (he : ∀ e ∈ es, e.call = j) {k : ℕ} (hk : k ≠ j) :
    (∀ api accepted, .requested k api accepted ∉ w'.log) ∨
      ∃ api, Stage v8 k api (w'.events k) (w'.tokensOf k) := by
  have hfilter : ∀ ts : List Token, (∀ t ∈ ts, t.call = j) → ts.filter (·.call = k) = [] :=
    fun ts hts => filter_eq_nil_iff.2 fun t ht => by simp [hts t ht, hk.symm]
  have htokens : (w.tokensOf k).Perm (w'.tokensOf k) := by
    have h₁ := hold.filter (·.call = k)
    have h₂ := hnew.filter (·.call = k)
    rw [filter_append, hfilter _ ho, nil_append] at h₁
    rw [filter_append, hfilter _ hn, nil_append] at h₂
    exact h₁.trans h₂.symm
  have hevents : w'.events k = w.events k := by
    have hes : es.filter (·.call = k) = [] :=
      filter_eq_nil_iff.2 fun e hmem => by simp [he e hmem, hk.symm]
    rw [events, hlog, filter_append, hes, nil_append, events]
  rw [hevents]
  refine (h.calls k).imp (fun hno api accepted hmem => ?_) fun ⟨api, hs⟩ => ⟨api, hs.perm htokens⟩
  rw [hlog, mem_append] at hmem
  rcases hmem with hmem | hmem
  · exact hk (he _ hmem)
  · exact hno api accepted hmem

/-- A step of one call, from stage to stage. -/
theorem Protocol.exchange (h : w.Protocol v8) (new : List Token) (es : List FileEvent)
    {t : Token} {rest : List Token} (hold : w.tokens.Perm (t :: rest))
    (hnew : w'.tokens.Perm (new ++ rest)) (hlog : w'.log = es ++ w.log)
    (hnext : w.nextCall ≤ w'.nextCall)
    (hn : ∀ t' ∈ new, t'.call = t.call)
    (he : ∀ e ∈ es, e.call = t.call ∧ ∀ api accepted, e ≠ .requested t.call api accepted)
    (hstep : ∀ api ts, Stage v8 t.call api (w.events t.call) (t :: ts) →
      Stage v8 t.call api (es ++ w.events t.call) (new ++ ts)) : w'.Protocol v8 := by
  have ht : t.call < w'.nextCall :=
    (h.tokens_lt t (hold.mem_iff.2 mem_cons_self)).trans_le hnext
  constructor
  · intro t' ht'
    rcases mem_append.1 (hnew.mem_iff.1 ht') with hmem | hmem
    · exact hn t' hmem ▸ ht
    · exact (h.tokens_lt t' (hold.mem_iff.2 (mem_cons_of_mem _ hmem))).trans_le hnext
  · intro e hmem
    rw [hlog, mem_append] at hmem
    rcases hmem with hmem | hmem
    · exact (he e hmem).1 ▸ ht
    · exact (h.events_lt e hmem).trans_le hnext
  · intro k
    by_cases hk : k = t.call
    · subst hk
      have hevents : w'.events t.call = es ++ w.events t.call := by
        rw [events, hlog, filter_append, filter_eq_self.2 fun e hmem => by simp [(he e hmem).1],
          events]
      have h₁ : (w.tokensOf t.call).Perm (t :: rest.filter (·.call = t.call)) := by
        have := hold.filter (·.call = t.call)
        rwa [filter_cons_of_pos (by simp)] at this
      have h₂ : (new ++ rest.filter (·.call = t.call)).Perm (w'.tokensOf t.call) := by
        have hself : new.filter (·.call = t.call) = new :=
          filter_eq_self.2 fun t' ht' => by simp [hn t' ht']
        have := hnew.filter (·.call = t.call)
        rw [filter_append, hself] at this
        exact this.symm
      rw [hevents]
      refine (h.calls t.call).imp (fun hno api accepted hmem => ?_) fun ⟨api, hs⟩ =>
        ⟨api, (hstep api _ (hs.perm h₁)).perm h₂⟩
      rw [hlog, mem_append] at hmem
      rcases hmem with hmem | hmem
      · exact (he _ hmem).2 api accepted rfl
      · exact hno api accepted hmem
    · exact h.frame [t] new es hold hnew hlog (by simp) hn (fun e hmem => (he e hmem).1) hk

/-- A new call. -/
theorem Protocol.request (h : w.Protocol v8) (new : List Token) (es : List FileEvent)
    (hnew : w'.tokens.Perm (new ++ w.tokens)) (hlog : w'.log = es ++ w.log)
    (hnext : w'.nextCall = w.nextCall + 1) (hn : ∀ t ∈ new, t.call = w.nextCall)
    (he : ∀ e ∈ es, e.call = w.nextCall)
    (hcall : es = [] ∨ ∃ api, Stage v8 w.nextCall api es new) : w'.Protocol v8 := by
  constructor
  · intro t ht
    rcases mem_append.1 (hnew.mem_iff.1 ht) with hmem | hmem
    · have := hn t hmem
      omega
    · have := h.tokens_lt t hmem
      omega
  · intro e hmem
    rw [hlog, mem_append] at hmem
    rcases hmem with hmem | hmem
    · have := he e hmem
      omega
    · have := h.events_lt e hmem
      omega
  · intro k
    by_cases hk : k = w.nextCall
    · subst hk
      have hevents : w'.events w.nextCall = es := by
        rw [events, hlog, filter_append, filter_eq_self.2 fun e hmem => by simp [he e hmem]]
        exact (congrArg (es ++ ·) h.events_next).trans (append_nil es)
      have hrest : w.tokens.filter (·.call = w.nextCall) = [] :=
        filter_eq_nil_iff.2 fun t ht => by
          have := h.tokens_lt t ht
          simp only [decide_eq_true_eq]
          omega
      have htokens : new.Perm (w'.tokensOf w.nextCall) := by
        have hself : new.filter (·.call = w.nextCall) = new :=
          filter_eq_self.2 fun t ht => by simp [hn t ht]
        have := hnew.filter (·.call = w.nextCall)
        rw [filter_append, hrest, append_nil, hself] at this
        exact this.symm
      rw [hevents]
      refine hcall.imp (fun hes api accepted hmem => ?_) fun ⟨api, hs⟩ => ⟨api, hs.perm htokens⟩
      rw [hlog, hes] at hmem
      have := h.events_lt _ hmem
      simp [FileEvent.call] at this
    · exact h.frame [] new es (.refl _) hnew hlog (by simp) hn he hk

/-! ## Steps -/

/-- The step of the process that a step of the engine belongs to, with its tokens. -/
theorem exchange {s' : Sys} {l : Label} (hs : NanoJS.Step w.sys l s') (hc : w.sys.Control) :
    ∃ rest, w.tokens.Perm (l.takes w.sys ++ rest) ∧
      (w.frame.tokens ++ s'.tokens).Perm (l.gives w.sys ++ rest) := by
  obtain ⟨rest, h₁, h₂⟩ := hs.exchange hc
  refine ⟨w.frame.tokens ++ rest, ?_, ?_⟩
  · exact (h₁.append_left _).trans (perm_append_comm_assoc _ _ _)
  · exact (h₂.append_left _).trans (perm_append_comm_assoc _ _ _)

/-- The arrow function of `Files.readFile` hands its job to a thread. -/
theorem tokens_arrow {callback : Closure} {task : Task} {s' : Sys}
    (hframe : w.frame = .arrow callback task)
    (hs : NanoJS.Step w.sys (.startWorker callback task) s') (hc : w.sys.Control) :
    (tokens { w with sys := s', frame := .leaving false }).Perm w.tokens := by
  obtain ⟨rest, h₁, h₂⟩ := hs.exchange hc
  rw [tokens, tokens, hframe]
  exact h₂.trans (.append_left _ h₁.symm)

theorem tokens_jsReturn {threw : Bool} {s' : Sys}
    (hframe : w.frame = .program ∨ w.frame = .leaving threw)
    (hs : NanoJS.Step w.sys (.jsReturn threw) s') (hc : w.sys.Control) :
    (tokens { w with sys := s', frame := .program }).Perm w.tokens := by
  obtain ⟨rest, h₁, h₂⟩ := hs.exchange hc
  have hnone : w.frame.tokens = [] := by
    rcases hframe with hframe | hframe <;> rw [hframe] <;> rfl
  rw [tokens, tokens, hnone]
  exact h₂.trans h₁.symm

/-- **Each step of the process keeps every call in a stage.** -/
theorem Step.protocol (hv : v8.Documented) {a : Action} (h : World.Step v8 w a w')
    (hc : w.sys.Control) (hf : w.Framed) (hr : w.realm.WellFormed) (hp : w.Protocol v8) :
    w'.Protocol v8 := by
  cases h with
  | file | bufferFrom | allocate | write => exact hp.keep (.refl _) rfl le_rfl
  | @program l fn s' hprogram hl hs =>
    obtain ⟨rest, h₁, h₂⟩ := exchange hs hc
    cases hs with
    | timerCall => exact hp.keep (.refl _) rfl (Nat.le_succ _)
    | watchFile =>
      obtain rfl := Option.some.inj hl
      refine hp.request [⟨.user fn w.nextCall, .watching⟩] [] ?_ rfl rfl
        (by simp [Token.call, Closure.call]) (by simp) (.inl rfl)
      exact h₂.trans (.append_left _ h₁.symm)
    | _ => cases hl
  | @request fn api func task r' s' hprogram hviews h hs =>
    obtain ⟨rest, h₁, h₂⟩ := exchange hs hc
    have hstage := Stage.of_perform hv hr h
    refine hp.request [⟨func, .running task⟩] [.requested w.nextCall api true]
      ?_ rfl rfl (fun t ht => hstage.call_eq ht) (by simp [FileEvent.call]) (.inr ⟨api, hstage⟩)
    exact h₂.trans (.append_left _ h₁.symm)
  | @refuse fn api e r' hprogram hviews h =>
    exact hp.request [] [.requested w.nextCall api false] (.refl _) rfl rfl
      (by simp) (by simp [FileEvent.call]) (.inr ⟨api, Stage.of_refuse hv hr h⟩)
  | arrow hframe hs => exact hp.keep (tokens_arrow hframe hs hc) rfl le_rfl
  | jsReturn hframe hs => exact hp.keep (tokens_jsReturn hframe hs hc) rfl le_rfl
  | @passive l s' hl hs =>
    obtain ⟨rest, h₁, h₂⟩ := exchange hs hc
    cases l with
    | watcherChange job path =>
      exact hp.exchange _ [] h₁ h₂ rfl le_rfl (by simp [Label.gives, Token.call])
        (by simp) fun api ts hst => hst.not_watching.elim
    | watcherPost job objects =>
      exact hp.exchange _ [] h₁ h₂ rfl le_rfl (by simp [Label.gives, Token.call])
        (by simp) fun api ts hst => hst.not_watching.elim
    | watcherStop job path =>
      exact hp.exchange [] [] h₁ h₂ rfl le_rfl (by simp) (by simp)
        fun api ts hst => hst.not_watching.elim
    | _ => first | exact hp.keep (h₂.trans h₁.symm) rfl le_rfl | cases hl
  | @build msg s' hpc hs =>
    obtain ⟨rest, h₁, h₂⟩ := exchange hs hc
    rw [Label.takes_build hpc] at h₁
    rw [Label.gives_build hpc] at h₂
    exact hp.exchange _ [] h₁ h₂ rfl le_rfl (by simp [Token.call, Message.token]) (by simp)
      fun api ts hst => hst.build
  | @invoke job rest args fn call args' r' s' hq hargs happly hs =>
    obtain ⟨rest, h₁, h₂⟩ := exchange hs hc
    rw [Label.takes_invokeCallback hq hargs] at h₁
    obtain ⟨rfl, -⟩ := Closure.apply_call happly
    exact hp.exchange [] [.called job.func.call args' r'.mem] h₁ h₂ rfl le_rfl
      (by simp) (by simp [FileEvent.call, Token.call]) fun api ts hst => hst.invoke happly rfl
  | @invokeArrow job rest args callback task r' s' hq hargs happly hs =>
    obtain ⟨rest, h₁, h₂⟩ := exchange hs hc
    rw [Label.takes_invokeCallback hq hargs] at h₁
    have hcall : callback.call = job.func.call := by
      obtain ⟨_, _, _, -, rfl, -, hcall, -⟩ := Closure.apply_start happly
      exact hcall
    rw [hf.frame_of_invokes (hs.invokes hc).1] at h₂
    exact hp.exchange [⟨callback, .running task⟩] [] h₁ (h₂.cons _) rfl le_rfl
      (by simp [Token.call, hcall]) (by simp) fun api ts hst => hst.invokeArrow happly
  | @invokeThrow job rest args e r' s' hq hargs happly hs =>
    obtain ⟨rest, h₁, h₂⟩ := exchange hs hc
    rw [Label.takes_invokeCallback hq hargs] at h₁
    rw [hf.frame_of_invokes (hs.invokes hc).1] at h₂
    exact hp.exchange [] [.lost job.func.call e] h₁ h₂ rfl le_rfl (by simp)
      (by simp [FileEvent.call, Token.call]) fun api ts hst => hst.invokeThrow happly
  | @deliver job task told mem' node' args s' htask hs =>
    obtain ⟨rest, h₁, h₂⟩ := exchange hs hc
    have hposts : task.posts = false := by
      cases hs with
      | deliver _ hposts => exact hposts
    exact hp.exchange _ [.observed job.func.call task (w.fs task.path)] h₁ h₂ rfl le_rfl
      (by simp [Label.gives, Token.call]) (by simp [FileEvent.call, Token.call])
      fun api ts hst => hst.deliver hposts htask
  | @post job task s' hs =>
    obtain ⟨rest, h₁, h₂⟩ := exchange hs hc
    exact hp.exchange _ [.observed job.func.call task (w.fs task.path)] h₁ h₂ rfl le_rfl
      (by simp [Label.gives, Token.call]) (by simp [FileEvent.call, Token.call])
      fun api ts hst => hst.post

/-- **Every call is in a stage**, in every interleaving. -/
theorem Reachable.protocol (hv : v8.Documented) (h : World.Reachable v8 w) : w.Protocol v8 :=
  Transition.Reachable.invariant (I := Protocol v8)
    (by
      rintro _ ⟨ms, mem, fs, rfl⟩
      constructor
      · intro t ht
        cases ht
      · intro e he
        cases he
      · intro k
        refine .inl fun api accepted he => ?_
        cases he)
    (fun _ _ _ hr hp hl => hl.protocol hv (World.Reachable.sys hr).control
      (World.Reachable.framed hr) (World.Reachable.wellFormed hv hr) hp) h

end World

end NanoJS
