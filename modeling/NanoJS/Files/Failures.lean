import NanoJS.Files.Progress

/-!
# What the callback is told

The threads put null into the first argument of the callback whatever they have met, and so does
`message::build`. A call is therefore reported as it should be exactly when there is nothing to
report: its arguments are accepted, every operation succeeds, and `Files.readFile` finds a size
that it can allocate (`reported_iff`).
-/

namespace NanoJS

/-! ## Reports -/

/-- The file operation of a thread succeeds: `stat`, or opening the file and reading or writing
what was asked for. -/
def Task.Succeeds (task : Task) (node : FileNode) : Prop :=
  match task with
  | .read _ _ _ _ position => node.Readable ∧ 0 ≤ position
  | .write _ _ length _ => node.openWrite = true ∧
    ∀ limit, node.writeLimit = some limit → length ≤ limit
  | .stat _ => node.stat.isSome = true

def FileEvent.isCalled : FileEvent → Bool
  | .called .. => true
  | _ => false

/-- The stage of a call that was made is a stage of that call. -/
theorem Stage.api_eq {v8 : V8} {k : ℕ} {api api' : ApiCall} {accepted : Bool} {es : List FileEvent}
    {ts : List Token} (hs : Stage v8 k api es ts) (hmem : .requested k api' accepted ∈ es) :
    api' = api := by
  cases hs with
  | running ho | posted ho | ready ho | called ho => cases ho <;> simp_all
  | _ => simp_all

namespace World

/-- How often the user's callback has been called for a call of the API. -/
def callCount (w : World) (k : ℕ) : ℕ := (w.events k).countP FileEvent.isCalled

/-- No job of the call is on its way. -/
def Settled (w : World) (k : ℕ) : Prop := w.tokensOf k = []

/-- Every operation of the call succeeded. -/
def Succeeded (w : World) (k : ℕ) : Prop :=
  ∀ task node, .observed k task node ∈ w.events k → task.Succeeds node

/-- The callback was called exactly once, with an error argument that is null if and only if every
operation succeeded. -/
structure Reported (w : World) (k : ℕ) : Prop where
  once : w.callCount k = 1
  error : ∀ args mem, .called k args mem ∈ w.events k →
    (argument args 0 = .null ↔ w.Succeeded k)

/-- `Files.readFile` finds a size that it can allocate, when it finds metadata. -/
def Allocates (w : World) (k : ℕ) (api : ApiCall) : Prop :=
  api.isReadFile = true → ∀ path node, .observed k (.stat path) node ∈ w.events k →
    ∃ n, node.Sized n

variable {v8 : V8} {w : World} {k : ℕ}

/-! ## Settled calls -/

theorem Protocol.stage (hp : w.Protocol v8) {api : ApiCall} {accepted : Bool}
    (hk : .requested k api accepted ∈ w.events k) :
    Stage v8 k api (w.events k) (w.tokensOf k) := by
  obtain ⟨api', hs⟩ := (hp.calls k).resolve_left fun hno => hno api accepted (mem_events.1 hk).1
  rwa [hs.api_eq hk]

/-- **The callback is called at most once.** -/
theorem Protocol.callCount_le (hp : w.Protocol v8) {api : ApiCall} {accepted : Bool}
    (hk : .requested k api accepted ∈ w.events k) : w.callCount k ≤ 1 := by
  have hs := hp.stage hk
  rw [callCount]
  generalize w.events k = es at hs
  generalize w.tokensOf k = ts at hs
  cases hs with
  | running ho | posted ho | ready ho | called ho =>
    cases ho <;> simp [FileEvent.isCalled, List.countP_cons]
  | _ => simp [FileEvent.isCalled]

/-- Between two scripts every call is settled. -/
theorem Reachable.settled (hr : World.Reachable v8 w) (hpc : w.sys.pc = .start) :
    w.Settled k := by
  have hframe : w.frame = .program := by
    apply (Reachable.framed hr).resolve_right
    rintro ⟨⟨job, hjob⟩, -⟩
    rw [hpc] at hjob
    cases hjob
  obtain ⟨hc, -, -, hm, -, -, ht⟩ := Sys.empty_of_pending ((Reachable.sys hr).quiet hpc)
  have htokens : w.tokens = [] := by
    rw [tokens, Sys.tokens, Sys.loopTokens, hframe, hpc, hc, hm, ht]
    rfl
  rw [Settled, tokensOf, htokens]
  rfl

/-- **What a settled call reports.** -/
theorem Protocol.reported_iff (hp : w.Protocol v8) {api : ApiCall} {accepted : Bool}
    (hk : .requested k api accepted ∈ w.events k) (hsettled : w.Settled k) :
    w.Reported k ↔ api.Accepts v8 ∧ w.Succeeded k ∧ w.Allocates k api := by
  have hs := hp.stage hk
  rw [show w.tokensOf k = [] from hsettled] at hs
  generalize hes : w.events k = es at hs
  cases hs with
  | refused ha =>
    constructor
    · intro h
      have := h.once
      rw [callCount, hes] at this
      simp [FileEvent.isCalled] at this
    · rintro ⟨ha', -⟩
      exact absurd ha' ha
  | @called _ es func task node args fn args' mem r r' ho hnull happly =>
    have hnull' : argument args' 0 = .null := (Closure.apply_call happly).2.2.1.trans hnull
    constructor
    · intro h
      have hsucc : w.Succeeded k := (h.error args' mem (hes ▸ List.mem_cons_self)).1 hnull'
      cases ho with
      | plain ha hapi =>
        refine ⟨ha, hsucc, fun h => ?_⟩
        rw [hapi] at h
        cases h
      | whole hnode =>
        refine ⟨trivial, hsucc, fun _ path node' hmem => ?_⟩
        simp only [hes, NanoJS.getStatsAsync, List.mem_cons, reduceCtorEq, List.not_mem_nil,
          FileEvent.observed.injEq, false_or, or_false, Task.stat.injEq] at hmem
        simp only [false_and, and_false, false_or, true_and] at hmem
        obtain ⟨-, rfl⟩ := hmem
        exact ⟨_, hnode⟩
    · rintro ⟨-, hsucc, -⟩
      constructor
      · rw [callCount, hes]
        cases ho <;> simp [FileEvent.isCalled, List.countP_cons]
      · intro args'' mem' hmem
        have hargs : args'' = args' := by
          rw [hes] at hmem
          cases ho <;> simp_all
        rw [hargs]
        exact ⟨fun _ => hsucc, fun _ => hnull'⟩
  | @lost path node e hnode =>
    constructor
    · intro h
      have := h.once
      rw [callCount, hes] at this
      simp [FileEvent.isCalled] at this
    · rintro ⟨-, -, halloc⟩
      obtain ⟨n, hn⟩ := halloc rfl (toUtf8String v8 path) node (by simp [hes, NanoJS.getStatsAsync])
      exact absurd hn (hnode n)

end World

/-- **Failures reach the callback exactly when there are none.** For a call of any function of the
API that the program has made, in any reachable state: the callback has been called at most once;
when the call is settled, the callback was called exactly once, with an error argument that is null
if and only if every operation of the call succeeded, exactly when the arguments were accepted,
every operation did succeed and `Files.readFile` found a size; the call is settled when `Run` has
returned, and in the end along every fair run in which the program makes no further calls. -/
theorem failures_reported_iff {v8 : V8} (hv : v8.Documented) {w : World}
    (hr : World.Reachable v8 w) {k : ℕ} {api : ApiCall} {accepted : Bool}
    (hk : .requested k api accepted ∈ w.log) :
    w.callCount k ≤ 1 ∧
      (w.Settled k → (w.Reported k ↔
        api.Accepts v8 ∧ w.Succeeded k ∧ w.Allocates k api)) ∧
      (w.sys.pc = .start → w.Settled k) ∧
      ∀ run : Transition.Run (World.QuietStep v8), run.state 0 = w → run.Fair Action.actor →
        ∃ n, (run.state n).Settled k := by
  have hp := World.Reachable.protocol hv hr
  have hmem : .requested k api accepted ∈ w.events k := World.mem_events.2 ⟨hk, rfl⟩
  refine ⟨hp.callCount_le hmem, hp.reported_iff hmem, hr.settled, ?_⟩
  rintro run rfl hfair
  exact World.eventually_settled hv hfair hr ⟨api, accepted, hk⟩

/-! ## A run -/

theorem Closure.apply_user (v8 : V8) (fn call : ℕ) (args : List Value) (r : Realm) :
    ((Closure.user fn call).apply v8 args).run r = .ok (.call fn call args) r :=
  rfl

/-- A script asks for the metadata of a file, and `Run` returns. -/
theorem stat_run (node : FileNode) : ∃ w : World, World.Reachable V8.reference w ∧
    w.sys.pc = .start ∧ ∃ args mem, w.log =
      [.called 0 args mem, .observed 0 (getStatsAsync V8.reference (jsString "f")) node,
        .requested 0 (.getStatsAsync (jsString "f")) true] := by
  let task := getStatsAsync V8.reference (jsString "f")
  let job : CallbackJob := ⟨0, .user 0 0, none⟩
  let msg : Message := ⟨job, statsAsync node⟩
  let args := msg.build V8.reference
  have requested := ((Transition.Reachable.start ⟨0, fun _ _ => 0, fun _ => node, rfl⟩ :
    World.Reachable V8.reference _).tail (.passive rfl (.nextScript rfl))).tail
    (@World.Step.request _ _ 0 (.getStatsAsync (jsString "f")) _ _ _ _ ⟨rfl, rfl, rfl⟩
      (by simp [ApiCall.views]) rfl (.startWorker rfl rfl))
  have posted := (requested.tail (.jsReturn (.inl rfl) (@Step.scriptReturn _ false rfl rfl))).tail
    (@World.Step.post _ _ job task _ (@Step.post _ _ _ _ [] [] rfl rfl))
  have taken := (posted.tail (.passive rfl (.enterLoop rfl rfl))).tail
    (.passive rfl (@Step.getFront _ msg [] rfl rfl))
  have built := (taken.tail (@World.Step.build _ _ msg _ rfl (@Step.build _ _ _ rfl))).tail
    (.passive rfl (.drained rfl rfl))
  have called := (built.tail (.passive rfl (.timersDone rfl rfl))).tail
    (@World.Step.invoke _ _ { job with args := some args } [] args 0 0 args _ _ rfl rfl
      (Closure.apply_user _ _ _ _ _) (@Step.invokeCallback _ _ [] args rfl rfl rfl))
  have returned := (called.tail (.jsReturn (.inl rfl)
    (@Step.callbackReturn _ false _ rfl rfl))).tail
    (.passive rfl (@Step.updateTime _ none rfl rfl rfl))
  have left := (returned.tail (.passive rfl (@Step.updateDone _ none rfl (by simp)))).tail
    (.passive rfl (.leaveLoop rfl rfl))
  exact ⟨_, left, rfl, _, _, rfl⟩

/-- The metadata of a regular file. -/
theorem failures_reported_iff_regular : ∃ w : World, w.sys.pc = .start ∧
    .requested 0 (.getStatsAsync (jsString "f")) true ∈ w.log ∧ w.Reported 0 := by
  obtain ⟨w, hr, hpc, args, mem, hlog⟩ := stat_run (.regular [])
  have hk : .requested 0 (.getStatsAsync (jsString "f")) true ∈ w.log := by simp [hlog]
  obtain ⟨-, hiff, hsettled, -⟩ := failures_reported_iff V8.reference_documented hr hk
  refine ⟨w, hpc, hk, (hiff (hsettled hpc)).2 ⟨trivial, fun task node hmem => ?_, fun h => ?_⟩⟩
  · obtain ⟨rfl, rfl⟩ : task = getStatsAsync V8.reference (jsString "f") ∧ node = .regular [] := by
      simpa [World.events, hlog, FileEvent.call] using hmem
    rfl
  · cases h

/-- The metadata of a file that does not exist: the error argument is null. -/
theorem stat_failure_unreported : ∃ w : World, World.Reachable V8.reference w ∧
    w.sys.pc = .start ∧ .requested 0 (.getStatsAsync (jsString "f")) true ∈ w.log ∧
    .observed 0 (getStatsAsync V8.reference (jsString "f")) .missing ∈ w.log ∧
    ¬w.Reported 0 := by
  obtain ⟨w, hr, hpc, args, mem, hlog⟩ := stat_run .missing
  refine ⟨w, hr, hpc, by simp [hlog], by simp [hlog], fun h => ?_⟩
  have hk : .requested 0 (.getStatsAsync (jsString "f")) true ∈ w.events 0 := by
    simp [World.events, hlog, FileEvent.call]
  have hsucc := (((World.Reachable.protocol V8.reference_documented hr).reported_iff hk
    (hr.settled hpc)).1 h).2.1 (getStatsAsync V8.reference (jsString "f"))
    .missing (by simp [World.events, hlog, FileEvent.call])
  simp [getStatsAsync, Task.Succeeds, FileNode.missing] at hsucc

end NanoJS
