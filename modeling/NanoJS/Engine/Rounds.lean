import NanoJS.Engine.Intervals
import NanoJS.Engine.Progress
import NanoJS.Engine.Scripts

/-!
# Rounds of the loop

Between two readings of the clock by `updateTimers` the loop thread comes by every queue. What it
will come by before the next reading is ahead of it (`Sys.ahead`): the timers that the last reading
has made due, the timers' queue, the messages and the callback queue. A step other than the reading
leaves the jobs that are ahead there, except for one whose function returns (`Step.ahead`). So at
the next reading each of them has been called, and a timer waits at most from the reading at which
it is due to the next one (`round_serves`).
-/

namespace NanoJS

open List PriorityQueue

/-! ## What is ahead -/

/-- The loop thread comes by the messages before it reads the clock. -/
def Pc.beforeMessages : Pc → Bool
  | .script | .loopHead | .drain | .build _ | .updateTimers _ => true
  | _ => false

/-- The loop thread comes by the timers' queue before it reads the clock. -/
def Pc.beforeTimers : Pc → Bool
  | .runTimers | .inTimer _ => true
  | pc => pc.beforeMessages

/-- The timers in the heap that `updateTimers` is about to move. -/
def Sys.due (s : Sys) : List TimedJob :=
  match s.pc with
  | .updateTimers _ => s.loop.heap.filter fun job => decide (job.timeOut ≤ s.loop.getLoopTime)
  | _ => []

/-- The jobs that the loop thread comes by before it reads the clock. -/
def Sys.ahead (s : Sys) : List JobKey :=
  s.due.map TimedJob.key ++
    (if s.pc.beforeTimers then s.loop.timersQueue.map TimedJob.key else []) ++
    s.loop.callbackQueue.map CallbackJob.key ++
    if s.pc.beforeMessages then s.pc.taken.map (·.job.key) ++ s.loop.mQu.map (·.job.key) else []

theorem Sys.ahead_of_pending {s : Sys} (h : s.pending = 0) : s.ahead = [] := by
  obtain ⟨hcallbacks, htimers, hheap, hmQu, htaken, -⟩ := Sys.empty_of_pending h
  have hdue : s.due = [] := by
    rw [due, hheap]
    cases s.pc <;> rfl
  rw [ahead, hdue, htimers, hcallbacks, hmQu, htaken]
  simp

/-- When `updateTimers` is about to read the clock, nothing is ahead. -/
theorem Sys.ahead_of_runCallbacks {s : Sys} (hpc : s.pc = .runCallbacks)
    (hq : s.loop.callbackQueue = []) : s.ahead = [] := by
  simp [ahead, due, Pc.beforeTimers, Pc.beforeMessages, hpc, hq]

/-- JavaScript is not executed from `updateTimers`. -/
theorem Sys.due_of_inJs {s : Sys} (h : s.pc.inJs = true) : s.due = [] := by
  rw [due]
  cases hpc : s.pc <;> first | rfl | simp [hpc, Pc.inJs] at h

/-- At the end of `updateTimers` no timer in the heap is due. -/
theorem Sys.Prepared.due_eq_nil {s : Sys} (hp : s.Prepared) {head : Option TimedJob}
    (hpc : s.pc = .updateTimers head)
    (hlate : ∀ job, head = some job → s.loop.getLoopTime < job.timeOut) : s.due = [] := by
  rw [Sys.due, hpc]
  -- the head is not due, so nothing in the heap is
  refine filter_eq_nil_iff.2 fun job hj => ?_
  have htop := hp.head head hpc
  cases head with
  | none =>
    rw [show s.loop.heap = [] from htop] at hj
    cases hj
  | some top =>
    have hle := htop.key_le heapLess_of_timeOut_lt hj
    have := hlate top rfl
    simp only [decide_eq_true_eq]
    omega

/-- What is put into the containers leaves what is ahead. -/
theorem Sys.ahead_mono {s s' : Sys} (hpc : s'.pc = s.pc) (hdue : s.due ⊆ s'.due)
    (ht : s.loop.timersQueue ⊆ s'.loop.timersQueue)
    (hc : s.loop.callbackQueue ⊆ s'.loop.callbackQueue) (hm : s.loop.mQu ⊆ s'.loop.mQu) :
    s.ahead ⊆ s'.ahead := by
  intro k hk
  simp only [ahead, hpc, mem_append] at hk ⊢
  refine hk.imp (Or.imp (Or.imp (fun h => map_subset _ hdue h) fun h => ?_) fun h =>
    map_subset _ hc h) fun h => ?_
  · split_ifs at h ⊢
    · exact map_subset _ ht h
    · exact h
  · split_ifs at h ⊢
    · exact (mem_append.1 h).elim (mem_append_left _) fun h =>
        mem_append_right _ (map_subset _ hm h)
    · exact h

/-- **A step leaves what is ahead**, but for the job whose function returns, and for the reading of
the clock. -/
theorem Step.ahead {s s' : Sys} {l : Label} (h : Step s l s') (hl : l ≠ .updateTime)
    (hf : s.Control) (ha : s.Accounted) (hp : s.Prepared) {k : JobKey} (hk : k ∈ s.ahead) :
    s.pc.running = some k ∨ k ∈ s'.ahead := by
  cases h with
  | updateTime => exact absurd rfl hl
  | leaveLoop hpc hstop =>
    have hzero : s.pending = 0 := by
      have h₁ := ha.count
      have h₂ := ha.stop.1 hstop
      omega
    rw [Sys.ahead_of_pending hzero] at hk
    cases hk
  | @timerReturn _ job hpc hn =>
    obtain ⟨rest, hq⟩ := hf.timer job hpc
    cases hi : job.isInterval <;>
    · simp only [Sys.ahead, Sys.due, Pc.beforeTimers, Pc.beforeMessages, Pc.running, hpc, hq, hi,
        EventLoop.removeJob, EventLoop.withdrawJob, EventLoop.addJobToTimersHeap, if_true,
        Bool.false_eq_true, if_false, map_cons, map_nil, nil_append, append_nil, cons_append,
        tail_cons, mem_cons, Option.some.injEq] at hk ⊢
      exact hk.imp Eq.symm id
  | @callbackReturn _ job hpc hn =>
    obtain ⟨rest, hq⟩ := hf.callback job hpc
    simp only [Sys.ahead, Sys.due, Pc.beforeTimers, Pc.beforeMessages, Pc.running, hpc, hq,
      EventLoop.removeJob, EventLoop.withdrawJob, Bool.false_eq_true, if_false, map_cons, map_nil,
      nil_append, append_nil, tail_cons, mem_cons, Option.some.injEq] at hk ⊢
    exact hk.imp Eq.symm id
  | timerRegister hn | timerInsert hn =>
    have hjs := hf.native.resolve_left (by simp [hn])
    refine .inr (Sys.ahead_mono ?_ ?_ ?_ ?_ ?_ hk)
    exacts [rfl, by simp [Sys.due_of_inJs hjs], Subset.refl _, Subset.refl _, Subset.refl _]
  | @moveTimer job heap head hpc hdue hpop hhead =>
    right
    have hmem : ∀ j, j ∈ s.loop.heap ↔ j = job ∨ j ∈ heap := fun j => by
      rw [hpop.perm.mem_iff, mem_cons]
    simp only [Sys.ahead, Sys.due, hpc, Pc.beforeTimers, Pc.beforeMessages, if_true, mem_append,
      mem_map, mem_filter, hmem, EventLoop.addTimedJob, EventLoop.getLoopTime, mem_singleton]
      at hk ⊢
    rcases hk with ((⟨j, ⟨rfl | hj, hdue'⟩, rfl⟩ | ⟨j, hj, rfl⟩) | hk) | hk
    · exact .inl (.inl (.inr ⟨j, .inr rfl, rfl⟩))
    · exact .inl (.inl (.inl ⟨j, ⟨hj, hdue'⟩, rfl⟩))
    · exact .inl (.inl (.inr ⟨j, .inl hj, rfl⟩))
    · exact .inl (.inr hk)
    · exact .inr hk
  | @updateDone head hpc hlate =>
    right
    have hnone := hp.due_eq_nil hpc hlate
    rw [Sys.ahead, hnone] at hk
    simpa [Sys.ahead, Sys.due, hpc, Pc.beforeTimers, Pc.beforeMessages, Pc.taken] using hk
  | nextScript hpc | scriptReturn hpc | enterLoop hpc | getFront hpc | drained hpc
  | invokeTimer hpc | timersDone hpc | invokeCallback hpc =>
    right
    simp_all [Sys.ahead, Sys.due, Pc.beforeTimers, Pc.beforeMessages, Pc.taken]
  | build hpc =>
    right
    simp only [Sys.ahead, Sys.due, hpc, Pc.beforeTimers, Pc.beforeMessages, Pc.taken, if_true,
      EventLoop.addCallbackJob, CallbackJob.key, map_append, map_cons, map_nil, mem_append,
      mem_singleton] at hk ⊢
    tauto
  | deliver ht =>
    refine .inr (Sys.ahead_mono ?_ ?_ ?_ ?_ ?_ hk)
    exacts [rfl, Subset.refl _, Subset.refl _, subset_append_left _ _, Subset.refl _]
  | post ht | watcherPost ht =>
    refine .inr (Sys.ahead_mono ?_ ?_ ?_ ?_ ?_ hk)
    exacts [rfl, Subset.refl _, Subset.refl _, Subset.refl _, subset_append_left _ _]
  | _ => exact .inr hk

/-- A function that has been called is the one that is being executed, or was executed already. -/
theorem Step.running {s s' : Sys} {l : Label} (h : Step s l s') (hf : s.Control) {k : JobKey}
    (hk : s'.pc.running = some k) :
    s.pc.running = some k ∨ ∀ new, s'.log = new ++ s.log → k ∈ new.filterMap Event.invoked? := by
  rcases h.ledger hf with ⟨-, hr, -, -⟩ | ⟨_, -, hr, -, -⟩ | ⟨j, -, -, -, hr, -, hi⟩ |
    ⟨_, -, -, -, hr, -, -⟩ | ⟨_, -, -, -, hr, -, -⟩
  · exact .inl (hr.symm.trans hk)
  · exact .inl (hr.symm.trans hk)
  · refine .inr fun new hlog => ?_
    have hj : some j = some k := hr.symm.trans hk
    have hinvoked : s'.invoked = j :: s.invoked := hi
    rw [Sys.invoked, hlog, filterMap_append, ← Sys.invoked, ← singleton_append] at hinvoked
    rw [append_cancel_right hinvoked, Option.some.inj hj]
    exact mem_singleton_self k
  · exact absurd (hr.symm.trans hk) (by simp)
  · exact absurd (hr.symm.trans hk) (by simp)

/-! ## Rounds -/

/-- Steps in which `updateTimers` does not read the clock. -/
def Sys.Round : Sys → Sys → Prop :=
  Relation.ReflTransGen fun s s' => ∃ l, l ≠ .updateTime ∧ Step s l s'

theorem Sys.Round.steps {s s' : Sys} (h : s.Round s') : s.Steps s' := by
  induction h with
  | refl => exact .refl
  | tail _ hl ih =>
    obtain ⟨l, -, hl⟩ := hl
    exact ih.tail ⟨l, hl⟩

/-- What was ahead is ahead, is being executed since before, or has been called. -/
structure Sys.Served (s s' : Sys) (since : List Event) : Prop where
  log : s'.log = since ++ s.log
  ahead : ∀ k ∈ s.ahead, s.pc.running = some k ∨ k ∈ since.filterMap Event.invoked? ∨ k ∈ s'.ahead
  running : ∀ k, s'.pc.running = some k → s.pc.running = some k ∨
    k ∈ since.filterMap Event.invoked?

theorem Sys.Served.step {s s' s'' : Sys} {since : List Event} {l : Label} (h : s.Served s' since)
    (hr : s'.Reachable) (hs : Step s' l s'') (hl : l ≠ .updateTime) :
    ∃ since, s.Served s'' since := by
  obtain ⟨new, hnew⟩ := hs.log_suffix
  have hcontrol := Sys.Reachable.control hr
  have hmono : ∀ {k : JobKey}, k ∈ since.filterMap Event.invoked? →
      k ∈ (new ++ since).filterMap Event.invoked? := fun hk => by
    rw [filterMap_append]
    exact mem_append_right _ hk
  refine ⟨new ++ since, by rw [← hnew, h.log, append_assoc], fun k hk => ?_, fun k hk => ?_⟩
  · rcases h.ahead k hk with hrun | hcalled | hahead
    · exact .inl hrun
    · exact .inr (.inl (hmono hcalled))
    · rcases hs.ahead hl hcontrol (Sys.Reachable.accounted hr) (Sys.Reachable.prepared hr) hahead
        with hrun | hahead
      · exact (h.running k hrun).imp id fun hk => .inl (hmono hk)
      · exact .inr (.inr hahead)
  · rcases hs.running hcontrol hk with hrun | hcalled
    · exact (h.running k hrun).imp id hmono
    · refine .inr ?_
      rw [filterMap_append]
      exact mem_append_left _ (hcalled new hnew.symm)

theorem Sys.Round.served {s s' : Sys} (h : s.Round s') (hr : s.Reachable) :
    ∃ since, s.Served s' since := by
  induction h with
  | refl => exact ⟨[], rfl, fun k hk => .inr (.inr hk), fun k hk => .inl hk⟩
  | tail hs hl ih =>
    obtain ⟨l, hne, hl⟩ := hl
    obtain ⟨since, h⟩ := ih
    exact h.step (Sys.Steps.reachable (Sys.Round.steps hs) hr) hl hne

/-! ## The result -/

/-- Where a round is over: `updateTimers` is about to read the clock, or `Run` has returned. -/
def Sys.RoundOver (s : Sys) : Prop :=
  s.pc = .runCallbacks ∧ s.loop.callbackQueue = [] ∨ s.pc = .start

theorem Sys.Round.calls {s s' : Sys} (hs : s.Round s') (h : s.Reachable) (hover : s'.RoundOver) :
    ∃ since, s'.log = since ++ s.log ∧
      ∀ k ∈ s.ahead, s.pc.running = some k ∨ k ∈ since.filterMap Event.invoked? := by
  obtain ⟨since, hlog, hahead, -⟩ := hs.served h
  have hnone : s'.ahead = [] := by
    rcases hover with ⟨hpc, hq⟩ | hpc
    · exact Sys.ahead_of_runCallbacks hpc hq
    · have hr := Sys.Steps.reachable hs.steps h
      exact Sys.ahead_of_pending (Sys.Reachable.quiet hr hpc)
  refine ⟨since, hlog, fun k hk => (hahead k hk).imp id fun hk => ?_⟩
  exact hk.resolve_right (by rw [hnone]; simp)

/-- **A round serves what was waiting.** From any reachable state to the next reading of the clock
by `updateTimers`, or to the return of `Run`, whatever the other threads and the functions do: each
job ahead of the loop thread is called, unless its function is being executed at the start. In
particular, from one reading to the next: each timer that is due at the first, and each job whose
message is waiting then, is called before the second. -/
theorem round_serves {s s' : Sys} (h : s.Reachable) (hover : s'.RoundOver) :
    (s.Round s' → ∃ since, s'.log = since ++ s.log ∧
      ∀ k ∈ s.ahead, s.pc.running = some k ∨ k ∈ since.filterMap Event.invoked?) ∧
    ∀ s₁, Step s .updateTime s₁ → s₁.Round s' → ∃ since, s'.log = since ++ s.log ∧
      (∀ job ∈ s.loop.heap, job.timeOut ≤ toTimeT s.clock * 1000 →
        job.key ∈ since.filterMap Event.invoked?) ∧
      ∀ msg ∈ s.loop.mQu, msg.job.key ∈ since.filterMap Event.invoked? := by
  refine ⟨fun hs => hs.calls h hover, fun s₁ hl hs => ?_⟩
  obtain ⟨since, hlog, hcalled⟩ := hs.calls (h.tail hl) hover
  cases hl with
  | updateTime hpc hq hhead =>
    refine ⟨since, hlog, fun job hj hdue => ?_, fun msg hmsg => ?_⟩
    · refine (hcalled _ ?_).resolve_left (by simp [Pc.running])
      simp only [Sys.ahead, Sys.due, EventLoop.updateTime, EventLoop.getLoopTime, mem_append]
      exact .inl (.inl (.inl (mem_map_of_mem (mem_filter.2 ⟨hj, decide_eq_true hdue⟩))))
    · refine (hcalled _ ?_).resolve_left (by simp [Pc.running])
      simp only [Sys.ahead, EventLoop.updateTime, Pc.beforeMessages, if_true, mem_append]
      exact .inr (.inr (mem_map_of_mem hmsg))

/-- A timer that is due is called in the next round. -/
theorem round_serves_timer : ∃ s s' : Sys, s.loop.heap = [oneInterval 2000] ∧ s.clock = 2000 ∧
    s'.RoundOver ∧ ∃ since, s'.log = since ++ s.log ∧
      (oneInterval 2000).key ∈ since.filterMap Event.invoked? := by
  have called := (((((Transition.Reachable.start ⟨1000, rfl⟩ : Sys.Reachable _).tail
    (.nextScript rfl)).tail (@Step.timerCall _ true (.user 0 0) [] 1000 rfl rfl)).tail
    (.timerRegister rfl)).tail (.timerInsert rfl)).tail (@Step.scriptReturn _ false rfl rfl)
  have waiting := (((called.tail (.enterLoop rfl rfl)).tail (.drained rfl rfl)).tail
    (.timersDone rfl rfl)).tail (@Step.tick _ 2000 (by decide))
  have served := fun (s' : Sys) (hover : s'.RoundOver) => (round_serves waiting hover).2 _
    (@Step.updateTime _ (some (oneInterval 2000)) rfl rfl ⟨.head _, oneInterval_top 2000⟩)
  obtain ⟨since, hlog, htimers, -⟩ := served _ (by exact .inl ⟨rfl, rfl⟩)
    (.tail (.tail (.tail (.tail (.tail (.tail (.single ⟨_, by simp, @Step.moveTimer _ _ [] none rfl
      (by decide) ⟨.refl _, oneInterval_top 2000⟩ rfl⟩) ⟨_, by simp, .updateDone rfl (by simp)⟩)
      ⟨_, by simp, .enterLoop rfl rfl⟩) ⟨_, by simp, .drained rfl rfl⟩)
      ⟨_, by simp, .invokeTimer rfl rfl⟩) ⟨_, by simp, @Step.timerReturn _ false _ rfl rfl⟩)
      ⟨_, by simp, .timersDone rfl rfl⟩)
  exact ⟨_, _, rfl, rfl, .inl ⟨rfl, rfl⟩, since, hlog, htimers _ (.head _) (by decide)⟩

end NanoJS
