import NanoJS.Files.Requests
import Mathlib.Data.Prod.Lex

/-!
# Calls come to an end

A job on its way has a weight, which each step that it makes lowers, and the weights of all jobs
add up to a potential. Once the program makes no further calls, nothing raises the potential. While
a job of a call is with a thread, that thread lowers it; while it is with the loop, the loop comes
closer to lowering it. So a call that was made comes to its end along every weakly fair run of the
process at rest (`eventually_settled`).
-/

namespace NanoJS

open List

/-! ## Actors -/

/-- Who makes a step. A function of the program that returns leaves to the loop thread. -/
inductive Actor
  | environment
  | program
  | loop
  | worker (id : ℕ)
  deriving DecidableEq

def Action.actor : Action → Actor
  | .file .. => .environment
  | .buffer _ | .program _ | .request .. => .program
  | .engine (.deliver job _ _) | .engine (.post job _ _) => .worker job.id
  | .engine (.tick _) | .engine (.watcherChange ..) | .engine (.watcherPost ..)
  | .engine (.watcherStop ..) => .environment
  | .engine _ => .loop

/-- The program makes no call, and no watched file changes. -/
def Action.quiet : Action → Bool
  | .program _ | .request .. | .engine (.watcherChange ..) => false
  | _ => true

/-- A step of the process whose program makes no further calls. -/
def World.QuietStep (v8 : V8) (w : World) (a : Action) (w' : World) : Prop :=
  World.Step v8 w a w' ∧ a.quiet = true

/-! ## The potential -/

/-- The steps that a job has before it. -/
def Token.weight (t : Token) : ℕ :=
  match t.place with
  | .watching => 3 + t.func.later
  | .running task => (if task.posts then 3 else 2) + t.func.later
  | .posted _ => 2 + t.func.later
  | .ready _ => 1 + t.func.later

def World.potential (w : World) : ℕ := (w.tokens.map Token.weight).sum

/-- The steps left in the arrow function of `Files.readFile`. -/
def Frame.cost : Frame → ℕ
  | .arrow .. => 1
  | _ => 0

def World.distance (w : World) : ℕ := w.sys.distance w.frame.cost

theorem World.potential_eq {w : World} {old rest : List Token} (h : w.tokens.Perm (old ++ rest)) :
    w.potential = (old.map Token.weight).sum + (rest.map Token.weight).sum := by
  rw [potential, (h.map Token.weight).sum_nat, map_append, sum_append]

/-- An exchange of tokens changes the potential by their weights. -/
theorem World.potential_lt {w w' : World} (new : List Token) {old rest : List Token}
    (hold : w.tokens.Perm (old ++ rest)) (hnew : w'.tokens.Perm (new ++ rest))
    (hlt : (new.map Token.weight).sum < (old.map Token.weight).sum) :
    w'.potential < w.potential := by
  rw [World.potential_eq hold, World.potential_eq hnew]
  omega

theorem World.potential_congr {w w' : World} (h : w'.tokens.Perm w.tokens) :
    w'.potential = w.potential := by
  rw [potential, potential, (h.map Token.weight).sum_nat]

/-! ## Owners -/

/-- The thread that carries a job of the call. -/
def Thread.carries (k : ℕ) : Thread → Option ℕ
  | .worker job _ => if job.func.call = k then some job.id else none
  | _ => none

def Sys.worker? (s : Sys) (k : ℕ) : Option ℕ := s.threads.findSome? (Thread.carries k)

/-- Whose step brings the call forward. -/
def World.owner (k : ℕ) (w : World) : Actor :=
  match w.sys.worker? k with
  | some id => .worker id
  | none => .loop

/-- What the steps of a quiet process lower: the potential; while the loop owns the call, then the
distance. -/
def World.rank (k : ℕ) (w : World) : ℕ ×ₗ ℕ :=
  toLex (w.potential, if (w.sys.worker? k).isSome then 0 else w.distance)

/-- What a quiet step does: it lowers the potential; or the loop thread moves, or starts the thread
of a job of the call; or the environment or the program leaves the engine as it is. -/
inductive World.Effect (k : ℕ) (w : World) (a : Action) (w' : World) : Prop
  | lowers (h : w'.potential < w.potential)
  | moves (hp : w'.potential = w.potential) (ha : a.actor = .loop)
      (hw : w'.sys.worker? k = w.sys.worker? k)
      (hd : w.sys.pc.inJs = true ∨ w.sys.Busy → w'.distance < w.distance)
  | starts (hp : w'.potential = w.potential) (ha : a.actor = .loop)
      (hw : (w'.sys.worker? k).isSome = true) (hd : w'.distance < w.distance)
      (hk : ∃ t ∈ w.frame.tokens, t.call = k)
  | leaves (hp : w'.potential = w.potential) (ha : a.actor = .environment ∨ a.actor = .program)
      (hw : w'.sys.worker? k = w.sys.worker? k) (hd : w'.distance = w.distance)

variable {v8 : V8}

/-- A closure of `App.js` that runs leaves nothing but JavaScript to the loop thread. -/
theorem World.Framed.cost_of_moves {w : World} (hf : w.Framed) {l : Label} {s' : Sys}
    (h : NanoJS.Step w.sys l s') (hl : l.moves = true) (hjs : ∀ threw, l ≠ .jsReturn threw) :
    w.frame.cost = 0 := by
  rcases hf with hf | ⟨⟨job, hpc⟩, hn⟩
  · rw [hf]
    rfl
  · cases h <;> simp_all [Label.moves]

theorem Step.threads_of_moves {s s' : Sys} {l : Label} (h : Step s l s') (hl : l.moves = true) :
    s'.threads = s.threads := by
  cases h <;> first | rfl | cases hl

theorem World.QuietStep.effect {w w' : World} {a : Action} (h : World.QuietStep v8 w a w')
    (hr : World.Reachable v8 w) (k : ℕ) : World.Effect k w a w' := by
  have hreach := World.Reachable.sys hr
  have hc := hreach.control
  have hf := World.Reachable.framed hr
  obtain ⟨h, hquiet⟩ := h
  cases h with
  | file | bufferFrom | allocate | write => exact .leaves rfl (by simp [Action.actor]) rfl rfl
  | program | request | refuse => cases hquiet
  | @arrow callback task s' hframe hs =>
    have hp := World.potential_congr (World.tokens_arrow hframe hs hc)
    have hd : s'.distance 0 < w.sys.distance w.frame.cost := by
      rw [hframe]
      exact hs.startWorker_distance
    have hthreads : s'.threads = .worker ⟨w.sys.nextId, callback, none⟩ task :: w.sys.threads := by
      cases hs
      rfl
    by_cases hk : callback.call = k
    · refine .starts hp rfl ?_ hd ⟨⟨callback, .running task⟩, ?_, hk⟩
      · simp [Sys.worker?, Thread.carries, hthreads, hk]
      · rw [hframe]
        exact mem_cons_self
    · exact .moves hp rfl (by simp [Sys.worker?, Thread.carries, hthreads, hk]) fun _ => hd
  | @jsReturn threw s' hframe hs =>
    have hcost : w.frame.cost = 0 := by
      rcases hframe with hframe | hframe <;> rw [hframe] <;> rfl
    refine .moves (World.potential_congr (World.tokens_jsReturn hframe hs hc)) rfl ?_ fun hb => ?_
    · rw [Sys.worker?, Sys.worker?, hs.threads_of_moves rfl]
    · rw [World.distance, World.distance, hcost]
      exact hs.distance_lt rfl hc hreach.accounted hreach.quiet hb
  | @passive l s' hl hs =>
    obtain ⟨rest, h₁, h₂⟩ := World.exchange hs hc
    have hmoves : l.moves = true → (∀ threw, l ≠ .jsReturn threw) →
        (Action.engine l).actor = .loop → l.takes w.sys = [] → l.gives w.sys = [] →
        World.Effect k w (.engine l) { w with sys := s' } := by
      intro hm hjs hactor htakes hgives
      rw [htakes] at h₁
      rw [hgives] at h₂
      refine .moves (World.potential_congr (h₂.trans h₁.symm)) hactor ?_ fun hb => ?_
      · rw [Sys.worker?, Sys.worker?, hs.threads_of_moves hm]
      · rw [World.distance, World.distance, hf.cost_of_moves hs hm hjs]
        exact hs.distance_lt hm hc hreach.accounted hreach.quiet hb
    cases l with
    | tick t =>
      cases hs with
      | tick h => exact .leaves rfl (by simp [Action.actor]) rfl rfl
    | watcherChange job path => cases hquiet
    | watcherPost job objects | watcherStop job path =>
      exact .lowers (World.potential_lt _ h₁ h₂ (by simp [Label.takes, Label.gives, Token.weight]))
    | timerCall | startWorker | watchFile | jsReturn | build | invokeCallback | deliver | post =>
      cases hl
    | _ => exact hmoves rfl (by simp) rfl rfl rfl
  | @build msg s' hpc hs =>
    obtain ⟨rest, h₁, h₂⟩ := World.exchange hs hc
    exact .lowers (World.potential_lt _ h₁ h₂
      (by simp [Label.takes_build hpc, Label.gives_build hpc, Token.weight, Message.token]))
  | @invoke job rest args fn call args' r' s' hq hargs happly hs =>
    obtain ⟨rest, h₁, h₂⟩ := World.exchange hs hc
    exact .lowers (World.potential_lt _ h₁ h₂
      (by simp [Label.takes_invokeCallback hq hargs, Label.gives, Token.weight]))
  | @invokeArrow job rest args callback task r' s' hq hargs happly hs =>
    obtain ⟨rest, h₁, h₂⟩ := World.exchange hs hc
    rw [hf.frame_of_invokes (hs.invokes hc).1] at h₂
    refine .lowers (World.potential_lt [⟨callback, .running task⟩] h₁ (h₂.cons _) ?_)
    obtain ⟨_, _, _, -, rfl, rfl, -, hlater, -⟩ := Closure.apply_start happly
    rw [Label.takes_invokeCallback hq hargs]
    simp only [Token.weight, Task.posts, Closure.later, Bool.false_eq_true, if_false, map_cons,
      map_nil, sum_cons, sum_nil]
    omega
  | @invokeThrow job rest args e r' s' hq hargs happly hs =>
    obtain ⟨rest, h₁, h₂⟩ := World.exchange hs hc
    rw [hf.frame_of_invokes (hs.invokes hc).1] at h₂
    exact .lowers (World.potential_lt _ h₁ h₂
      (by simp [Label.takes_invokeCallback hq hargs, Label.gives, Token.weight]))
  | @deliver job task told mem' node' args s' htask hs =>
    obtain ⟨rest, h₁, h₂⟩ := World.exchange hs hc
    refine .lowers (World.potential_lt _ h₁ h₂ ?_)
    simp only [Label.takes, Label.gives, Token.weight, map_cons, map_nil, sum_cons, sum_nil]
    split <;> omega
  | @post job task s' hs =>
    obtain ⟨rest, h₁, h₂⟩ := World.exchange hs hc
    refine .lowers (World.potential_lt _ h₁ h₂ ?_)
    cases hs with
    | post _ hposts =>
      simp only [Label.takes, Label.gives, Token.weight, hposts, if_true, map_cons, map_nil,
        sum_cons, sum_nil]
      omega

/-! ## Where the job of a call is -/

/-- The call has been made. -/
def World.Made (w : World) (k : ℕ) : Prop := ∃ api accepted, .requested k api accepted ∈ w.log

theorem World.Step.made {w w' : World} {a : Action} (h : World.Step v8 w a w') {k : ℕ}
    (hk : w.Made k) : w'.Made k := by
  obtain ⟨api, accepted, hmem⟩ := hk
  refine ⟨api, accepted, ?_⟩
  cases h with
  | request | refuse | invoke | invokeThrow | deliver | post => exact mem_cons_of_mem _ hmem
  | _ => exact hmem

/-- The job of a call that is on its way. -/
theorem World.Protocol.token {w : World} (hp : w.Protocol v8) {k : ℕ} (hk : w.Made k)
    (hne : w.tokensOf k ≠ []) :
    ∃ t api, w.tokensOf k = [t] ∧ Stage v8 k api (w.events k) [t] := by
  obtain ⟨api₀, accepted, hmem⟩ := hk
  obtain ⟨api, hs⟩ := (hp.calls k).resolve_left fun hno => hno api₀ accepted hmem
  have hlen := hs.length_le
  rcases ht : w.tokensOf k with _ | ⟨t, _ | ⟨t', ts⟩⟩
  · exact absurd ht hne
  · exact ⟨t, api, rfl, ht ▸ hs⟩
  · rw [ht] at hlen
    simp at hlen

/-- A job that is with no thread keeps the loop thread busy. -/
theorem World.busy_of_token {w : World} (hf : w.Framed) (hp : w.Protocol v8) {k : ℕ}
    (hk : w.Made k) (hne : w.tokensOf k ≠ []) (hw : w.sys.worker? k = none) :
    w.sys.pc.inJs = true ∨ w.sys.Busy := by
  obtain ⟨t, api, ht, hs⟩ := hp.token hk hne
  obtain ⟨hmem, hcall⟩ : t ∈ w.tokens ∧ t.call = k := by
    have : t ∈ w.tokensOf k := ht ▸ mem_cons_self
    simpa [tokensOf] using this
  rcases mem_append.1 hmem with hmem | hmem
  · rcases hf with hf | ⟨⟨job, hpc⟩, -⟩
    · rw [hf] at hmem
      cases hmem
    · exact .inl (by rw [hpc]; rfl)
  · rcases mem_append.1 hmem with hmem | hmem
    · obtain ⟨th, hth, hmem⟩ := mem_flatMap.1 hmem
      have hnone := findSome?_eq_none_iff.1 hw th hth
      cases th with
      | worker job task =>
        obtain rfl := mem_singleton.1 hmem
        have hjob : job.func.call = k := hcall
        simp [Thread.carries, hjob] at hnone
      | watcher job path =>
        obtain rfl := mem_singleton.1 hmem
        exact hs.not_watching.elim
      | posting job path localJob =>
        simp only [Thread.tokens, mem_cons, not_mem_nil, or_false] at hmem
        rcases hmem with rfl | rfl
        · exact hs.not_watching.elim
        · exact hs.not_watching.elim
    · refine .inr ?_
      simp only [Sys.loopTokens, mem_append, mem_map, or_assoc] at hmem
      rcases hmem with ⟨_, hm, -⟩ | ⟨_, hm, -⟩ | ⟨_, hm, -⟩
      · exact .inl (ne_nil_of_mem hm)
      · exact .inr (.inl (ne_nil_of_mem hm))
      · exact .inr (.inr (ne_nil_of_mem hm))

/-- A job that is with a thread is not with a closure of `App.js`. -/
theorem World.not_arrow_of_worker {w : World} (hp : w.Protocol v8) {k : ℕ} (hk : w.Made k)
    (hw : (w.sys.worker? k).isSome = true) : ¬∃ t ∈ w.frame.tokens, t.call = k := by
  rintro ⟨t, ht, hcall⟩
  obtain ⟨id, hid⟩ := Option.isSome_iff_exists.1 hw
  obtain ⟨th, hth, hc⟩ := exists_of_findSome?_eq_some hid
  cases th with
  | worker job task =>
    have hjob : job.func.call = k := by
      by_contra h
      simp [Thread.carries, h] at hc
    have hframe : 0 < (w.frame.tokens.filter (·.call = k)).length :=
      length_pos_of_mem (mem_filter.2 ⟨ht, by simpa using hcall⟩)
    have hsys : 0 < (w.sys.tokens.filter (·.call = k)).length := by
      refine length_pos_of_mem (a := ⟨job.func, .running task⟩) (mem_filter.2 ⟨?_, ?_⟩)
      · exact mem_append_left _ (mem_flatMap.2 ⟨_, hth, mem_singleton.2 rfl⟩)
      · exact decide_eq_true hjob
    have hlen : (w.tokensOf k).length =
        (w.frame.tokens.filter (·.call = k)).length +
          (w.sys.tokens.filter (·.call = k)).length := by
      rw [tokensOf, tokens, filter_append, length_append]
    obtain ⟨t', api, ht', -⟩ := hp.token hk (ne_nil_of_length_pos (by omega))
    rw [ht', length_singleton] at hlen
    omega
  | _ => cases hc

/-! ## Fair runs -/

/-- JavaScript can return. -/
theorem Step.exists_jsReturn {s : Sys} (hjs : s.pc.inJs = true) (hn : s.native = .idle)
    (threw : Bool) : ∃ s', Step s (.jsReturn threw) s' := by
  cases hpc : s.pc with
  | script => exact ⟨_, .scriptReturn hpc hn⟩
  | inTimer job => exact ⟨_, .timerReturn hpc hn⟩
  | inCallback job => exact ⟨_, .callbackReturn hpc hn⟩
  | _ =>
    rw [hpc] at hjs
    cases hjs

/-- **The owner of a call can make a step.** -/
theorem World.enabled_owner {w : World} (hr : World.Reachable v8 w) (hp : w.Protocol v8) {k : ℕ}
    (hk : w.Made k) (hne : w.tokensOf k ≠ []) :
    Transition.Enabled (World.QuietStep v8) Action.actor (w.owner k) w := by
  have hreach := World.Reachable.sys hr
  have hf := World.Reachable.framed hr
  cases hw : w.sys.worker? k with
  | some id =>
    obtain ⟨th, hth, hc⟩ := exists_of_findSome?_eq_some hw
    cases th with
    | worker job task =>
      obtain ⟨pre, post, hthreads⟩ := append_of_mem hth
      have hid : job.id = id := by
        simp only [Thread.carries] at hc
        split at hc
        · exact Option.some.inj hc
        · cases hc
      have howner : w.owner k = .worker job.id := by rw [owner, hw, hid]
      rw [howner]
      cases htask : task.posts with
      | false =>
        exact ⟨_, _, rfl,
          @World.Step.deliver v8 w job task 0 _ _ _ _ rfl (.deliver hthreads htask), rfl⟩
      | true => exact ⟨_, _, rfl, World.Step.post (.post hthreads htask), rfl⟩
    | _ => cases hc
  | none =>
    have howner : w.owner k = .loop := by rw [owner, hw]
    rw [howner]
    rcases Sys.can_step hreach.prepared hreach.quiet (World.busy_of_token hf hp hk hne hw) with
      ⟨l, s', hl, hjs, hs⟩ | ⟨hjs, hn⟩ | ⟨msg, hpc⟩ | ⟨job, rest, args, hpc, hq, hargs⟩
    · refine ⟨.engine l, _, ?_, World.Step.passive ?_ hs, ?_⟩ <;>
      · cases l with
        | jsReturn threw => exact absurd rfl (hjs threw)
        | _ => first | rfl | cases hl
    · cases hframe : w.frame with
      | program =>
        obtain ⟨s', hs⟩ := Step.exists_jsReturn hjs hn false
        exact ⟨_, _, rfl, World.Step.jsReturn (.inl hframe) hs, rfl⟩
      | arrow callback task =>
        exact ⟨_, _, rfl, World.Step.arrow hframe (.startWorker hjs hn), rfl⟩
      | leaving threw =>
        obtain ⟨s', hs⟩ := Step.exists_jsReturn hjs hn threw
        exact ⟨_, _, rfl, World.Step.jsReturn (.inr hframe) hs, rfl⟩
    · exact ⟨_, _, rfl, World.Step.build hpc (.build hpc), rfl⟩
    · have hs := NanoJS.Step.invokeCallback hpc hq hargs
      rcases happly : (job.func.apply v8 args).run w.realm with ⟨reaction, r'⟩ | ⟨e, r'⟩
      · cases reaction with
        | call fn call args' => exact ⟨_, _, rfl, World.Step.invoke hq hargs happly hs, rfl⟩
        | start callback task =>
          exact ⟨_, _, rfl, World.Step.invokeArrow hq hargs happly hs, rfl⟩
      · exact ⟨_, _, rfl, World.Step.invokeThrow hq hargs happly hs, rfl⟩

/-- **A quiet step lowers the rank of a call**, or leaves it to its owner, who is another. -/
theorem World.Effect.rank {w w' : World} {k : ℕ} {a : Action} (h : World.Effect k w a w')
    (hbusy : w.sys.worker? k = none → w.sys.pc.inJs = true ∨ w.sys.Busy)
    (harrow : (w.sys.worker? k).isSome = true → ¬∃ t ∈ w.frame.tokens, t.call = k) :
    w'.rank k < w.rank k ∨
      (a.actor ≠ w.owner k ∧ w'.rank k = w.rank k ∧ w'.owner k = w.owner k) := by
  simp only [World.rank, World.owner, Prod.Lex.toLex_lt_toLex]
  cases h with
  | lowers hlt => exact .inl (.inl hlt)
  | moves hp ha hw hd =>
    rw [hw, hp, ha]
    cases howner : w.sys.worker? k with
    | none => exact .inl (.inr ⟨rfl, hd (hbusy howner)⟩)
    | some id => exact .inr ⟨by simp, rfl, rfl⟩
  | starts hp ha hw hd hk =>
    refine .inl (.inr ⟨hp, ?_⟩)
    cases howner : w.sys.worker? k with
    | none =>
      rw [hw]
      exact Nat.zero_lt_of_lt hd
    | some id => exact absurd hk (harrow (by rw [howner]; rfl))
  | leaves hp ha hw hd =>
    rw [hw, hp, hd]
    refine .inr ⟨?_, rfl, rfl⟩
    rcases ha with ha | ha <;> rw [ha] <;> split <;> simp

/-- **A call comes to its end**: along a weakly fair run in which the program makes no further
calls, no job of a call that was made is on its way in the end. -/
theorem World.eventually_settled (hv : v8.Documented) {run : Transition.Run (World.QuietStep v8)}
    (hfair : run.Fair Action.actor) (hr : World.Reachable v8 (run.state 0)) {k : ℕ}
    (hk : (run.state 0).Made k) : ∃ n, (run.state n).tokensOf k = [] := by
  have hI : ∀ n, World.Reachable v8 (run.state n) ∧ (run.state n).Made k :=
    run.invariant (I := fun w => World.Reachable v8 w ∧ w.Made k) ⟨hr, hk⟩
      fun w a w' ⟨hw, hm⟩ hs => ⟨hw.tail hs.1, hs.1.made hm⟩
  have hrank : ∀ w a w', World.Reachable v8 w → w.Made k → w.tokensOf k ≠ [] →
      World.QuietStep v8 w a w' → w'.rank k < w.rank k ∨
        (a.actor ≠ w.owner k ∧ w'.rank k = w.rank k ∧ w'.owner k = w.owner k) := by
    intro w a w' hw hm hne hs
    have hp := World.Reachable.protocol hv hw
    exact (hs.effect hw k).rank (World.busy_of_token (World.Reachable.framed hw) hp hm hne)
      (World.not_arrow_of_worker hp hm)
  refine run.eventually_of_rank Action.actor (fun w => World.Reachable v8 w ∧ w.Made k)
    (fun w => w.tokensOf k = []) (World.owner k) (World.rank k) hfair hI ?_ ?_ ?_
  · rintro w ⟨hw, hm⟩ hgoal
    exact World.enabled_owner hw (World.Reachable.protocol hv hw) hm hgoal
  · rintro w a w' ⟨hw, hm⟩ hgoal hs ha
    exact .inr ((hrank w a w' hw hm hgoal hs).resolve_right fun h => h.1 ha)
  · rintro w a w' ⟨hw, hm⟩ hgoal hs -
    exact .inr ((hrank w a w' hw hm hgoal hs).imp_right And.right)

end NanoJS
