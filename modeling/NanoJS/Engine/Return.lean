import NanoJS.Engine.Progress
import NanoJS.Engine.Timers
import Mathlib.Data.Prod.Lex

/-!
# `Run` returns

While nothing new is begun and what is left is to be done once, the work that is left becomes less.
The worker threads deliver. Then, once the clock has passed every deadline, a turn of the loop that
does nothing ends with nothing pending: what is waiting is waiting where the loop thread has not
been in this turn yet, except for what has come behind it (`Sys.behind`), which the next turn
finds. So along every weakly fair run `Run` returns in the end, and every job has been called
(`run_returns`).
-/

namespace NanoJS

open List PriorityQueue Transition

/-! ## Runs that begin no job -/

/-- Who makes a step: the loop thread on its own account, a worker, or somebody else. -/
inductive Role
  | loop
  | worker (id : ℕ)
  | other
  deriving DecidableEq

def Label.role : Label → Role
  | .deliver job _ _ | .post job _ _ => .worker job.id
  | .tick _ | .nextScript | .timerCall .. | .startWorker .. | .watchFile .. | .watcherChange ..
  | .watcherPost .. | .watcherStop .. => .other
  | _ => .loop

/-- The operation begins a job. -/
def Label.opens : Label → Bool
  | .timerCall .. | .startWorker .. | .watchFile .. | .watcherChange .. => true
  | _ => false

/-- A step that begins no job. -/
def ClosingStep (s : Sys) (l : Label) (s' : Sys) : Prop := Step s l s' ∧ l.opens = false

/-- What is left is to be done once: no timer is being created, and there is no watcher and no
interval. -/
structure Sys.Closing (s : Sys) : Prop where
  native : s.native = .idle
  watchers : ∀ t ∈ s.threads, t.isWatcher = false
  timers : ∀ job ∈ s.loop.heap ++ s.loop.timersQueue, job.isInterval = false

variable {s s' : Sys} {l : Label}

/-- **Steps that begin no job put no timer into the heap**, and what is left is still to be done
once. -/
theorem ClosingStep.closing (h : ClosingStep s l s') (hf : s.Control) (hc : s.Closing) :
    s'.Closing ∧ s'.loop.heap ⊆ s.loop.heap ∧ s.clock ≤ s'.clock := by
  obtain ⟨hn, hw, ht⟩ := hc
  obtain ⟨h, hopens⟩ := h
  cases h with
  | timerCall | startWorker | watchFile | watcherChange => cases hopens
  | timerRegister hn' | timerInsert hn' => simp [hn] at hn'
  | tick h => exact ⟨⟨hn, hw, ht⟩, Subset.refl _, h⟩
  | @timerReturn _ job hpc hn' =>
    obtain ⟨rest, hq⟩ := hf.timer job hpc
    have hi : job.isInterval = false := ht job (by simp [hq])
    refine ⟨⟨hn, hw, fun j hj => ht j ?_⟩, ?_, le_rfl⟩ <;>
    simp only [EventLoop.removeJob, EventLoop.withdrawJob, hi, Bool.false_eq_true, if_false, hq,
      tail_cons, mem_append, mem_cons] at *
    · exact hj.imp id .inr
    · exact Subset.refl _
  | @moveTimer job heap head hpc hdue hpop hhead =>
    have hsub : heap ⊆ s.loop.heap := fun j hj => hpop.mem_of_mem hj
    refine ⟨⟨hn, hw, fun j hj => ht j ?_⟩, hsub, le_rfl⟩
    simp only [EventLoop.addTimedJob, mem_append, mem_singleton] at hj ⊢
    rcases hj with hj | hj | rfl
    · exact .inl (hsub hj)
    · exact .inr hj
    · exact .inl hpop.mem
  | deliver hthreads | post hthreads =>
    refine ⟨⟨hn, fun t ht' => hw t ?_, ht⟩, Subset.refl _, le_rfl⟩
    rw [hthreads, mem_append, mem_cons]
    exact (mem_append.1 ht').imp id .inr
  | watcherPost hthreads | watcherStop hthreads =>
    exact absurd (hw _ (by rw [hthreads]; exact mem_append_right _ mem_cons_self)) (by
      simp [Thread.isWatcher])
  | _ => exact ⟨⟨hn, hw, ht⟩, Subset.refl _, le_rfl⟩

/-! ## The work that is left -/

/-- What the jobs at the loop have before them, each step of which makes it less: a message is
taken, built and called, a timer is moved and called. -/
def Sys.workLeft (s : Sys) : ℕ :=
  2 * s.loop.heap.length + s.loop.timersQueue.length + 3 * s.loop.mQu.length +
    2 * s.pc.taken.length + s.loop.callbackQueue.length

/-- Something is waiting where the loop thread has been in this turn; in `updateTimers` also when
the clock was read before the time `T`. -/
def Sys.behind (T : ℤ) (s : Sys) : Bool :=
  match s.pc with
  | .runTimers | .inTimer _ => !s.loop.mQu.isEmpty
  | .runCallbacks | .inCallback _ => !s.loop.mQu.isEmpty || !s.loop.timersQueue.isEmpty
  | .updateTimers _ =>
    !s.loop.mQu.isEmpty || !s.loop.timersQueue.isEmpty || !s.loop.callbackQueue.isEmpty ||
      decide (s.loop.getLoopTime < T)
  | _ => false

/-- What the loop thread has before it in this turn, when it finds nothing to do. -/
def Sys.turn (s : Sys) : ℕ :=
  match s.pc with
  | .start => 0
  | .script => 9
  | .loopHead => if s.pending = 0 then 0 else 8
  | .drain => 7
  | .build _ | .runTimers => 6
  | .inTimer _ => 5
  | .runCallbacks => 4
  | .inCallback _ => 3
  | .updateTimers _ => 2

/-- The turns that are left without work. -/
def Sys.idleLeft (T : ℤ) (s : Sys) : ℕ := s.turn + if s.behind T then 10 else 0

/-- The threads first; then the work, and the turns without work. -/
def Sys.rank (T : ℤ) (s : Sys) : ℕ ×ₗ ℕ ×ₗ ℕ :=
  match s.threads with
  | [] => toLex (0, toLex (s.workLeft, s.idleLeft T))
  | t :: ts => toLex ((t :: ts).length, toLex (0, 0))

/-- Whose step brings the return nearer. -/
def Sys.nextRole (s : Sys) : Role :=
  match s.threads with
  | .worker job _ :: _ => .worker job.id
  | _ => .loop

/-- The clock has passed the time `T`, by which every timer in the heap is due. -/
structure Sys.Overdue (T : ℤ) (s : Sys) : Prop where
  reachable : s.Reachable
  closing : s.Closing
  due : ∀ job ∈ s.loop.heap, job.timeOut ≤ T
  clock : T ≤ toTimeT s.clock * 1000

theorem ClosingStep.overdue {T : ℤ} (h : ClosingStep s l s') (ho : s.Overdue T) :
    s'.Overdue T := by
  obtain ⟨hr, hc, hdue, hclock⟩ := ho
  obtain ⟨hc', hheap, hle⟩ := h.closing (Sys.Reachable.control hr) hc
  have htime := toTimeT_mono hle
  exact ⟨hr.tail h.1, hc', fun job hj => hdue job (hheap hj), by omega⟩

/-! ## The rank -/

/-- At the end of a turn with nothing behind, nothing is pending. -/
theorem Sys.Overdue.pending_of_updateDone {T : ℤ} {head : Option TimedJob} (ho : s.Overdue T)
    (hthreads : s.threads = []) (hpc : s.pc = .updateTimers head)
    (hlate : ∀ job, head = some job → s.loop.getLoopTime < job.timeOut)
    (hb : s.behind T = false) : s.pending = 0 := by
  simp only [behind, hpc, Bool.or_eq_false_iff, Bool.not_eq_false', List.isEmpty_iff,
    decide_eq_false_iff_not, not_lt] at hb
  obtain ⟨⟨⟨hm, ht⟩, hcb⟩, htime⟩ := hb
  have htop := (Sys.Reachable.prepared ho.reachable).head head hpc
  have hheap : s.loop.heap = [] := by
    cases head with
    | none => exact htop
    | some top =>
      have h₁ := hlate top rfl
      have h₂ := ho.due top htop.1
      omega
  simp [pending, carried, watchers, hm, ht, hcb, hheap, hpc, Pc.taken, hthreads,
    ho.closing.native, Native.inserting]

/-- **A step of the loop thread makes the work less, or its turn.** -/
theorem ClosingStep.lowers {T : ℤ} (h : ClosingStep s l s') (ho : s.Overdue T)
    (hl : l.role = .loop) (hthreads : s.threads = []) :
    s'.pc = .start ∨ s'.threads = [] ∧ (s'.workLeft < s.workLeft ∨
      s'.workLeft = s.workLeft ∧ s'.idleLeft T < s.idleLeft T) := by
  have hf := Sys.Reachable.control ho.reachable
  have hacc := Sys.Reachable.accounted ho.reachable
  have hn := ho.closing.native
  obtain ⟨h, hopens⟩ := h
  cases h with
  | tick | timerCall | startWorker | watchFile | watcherChange | watcherPost | watcherStop
  | nextScript | deliver | post => cases hl
  | timerRegister hn' | timerInsert hn' => simp [hn] at hn'
  | leaveLoop => exact .inl rfl
  | getFront hpc hq =>
    refine .inr ⟨hthreads, .inl ?_⟩
    simp only [Sys.workLeft, Pc.taken, hpc, hq, length_cons, length_nil]
    omega
  | build hpc =>
    refine .inr ⟨hthreads, .inl ?_⟩
    simp only [Sys.workLeft, Pc.taken, hpc, EventLoop.addCallbackJob, length_append, length_cons,
      length_nil]
    omega
  | @timerReturn _ job hpc =>
    obtain ⟨rest, hq⟩ := hf.timer job hpc
    have hi : job.isInterval = false := ho.closing.timers job (by simp [hq])
    refine .inr ⟨hthreads, .inl ?_⟩
    simp only [Sys.workLeft, Pc.taken, hpc, hq, hi, EventLoop.removeJob, EventLoop.withdrawJob,
      Bool.false_eq_true, if_false, tail_cons, length_cons, length_nil]
    omega
  | @callbackReturn _ job hpc =>
    obtain ⟨rest, hq⟩ := hf.callback job hpc
    refine .inr ⟨hthreads, .inl ?_⟩
    simp only [Sys.workLeft, Pc.taken, hpc, hq, EventLoop.removeJob, EventLoop.withdrawJob,
      tail_cons, length_cons, length_nil]
    omega
  | moveTimer hpc hdue hpop hhead =>
    have hlen := hpop.length
    refine .inr ⟨hthreads, .inl ?_⟩
    simp only [Sys.workLeft, Pc.taken, hpc, EventLoop.addTimedJob, length_append, length_cons,
      length_nil]
    omega
  | enterLoop hpc hstop =>
    have hpending : s.pending ≠ 0 := by
      intro hzero
      have h₁ := hacc.count
      have h₂ := hacc.stop.2 (by omega)
      rw [hstop] at h₂
      cases h₂
    refine .inr ⟨hthreads, .inr ⟨by simp [Sys.workLeft, Pc.taken, hpc], ?_⟩⟩
    simp [Sys.idleLeft, Sys.turn, Sys.behind, hpc, hpending]
  | scriptReturn hpc =>
    refine .inr ⟨hthreads, .inr ⟨by simp [Sys.workLeft, Pc.taken, hpc], ?_⟩⟩
    simp only [Sys.idleLeft, Sys.turn, Sys.behind, hpc]
    split <;> simp
  | drained hpc hq | invokeTimer hpc hq | timersDone hpc hq | invokeCallback hpc hq =>
    refine .inr ⟨hthreads, .inr ⟨by simp [Sys.workLeft, Pc.taken, hpc], ?_⟩⟩
    simp [Sys.idleLeft, Sys.turn, Sys.behind, hpc, hq]
  | updateTime hpc hq hhead =>
    -- the clock has passed `T`, so only what has come behind counts
    have hclock := ho.clock
    refine .inr ⟨hthreads, .inr ⟨by simp [Sys.workLeft, Pc.taken, hpc, EventLoop.updateTime], ?_⟩⟩
    simp [Sys.idleLeft, Sys.turn, Sys.behind, hpc, hq, EventLoop.updateTime,
      EventLoop.getLoopTime, hclock.not_gt]
  | @updateDone head hpc hlate =>
    refine .inr ⟨hthreads, .inr ⟨by simp [Sys.workLeft, Pc.taken, hpc], ?_⟩⟩
    have hleft : s.idleLeft T = 2 + if s.behind T then 10 else 0 := by
      rw [Sys.idleLeft, Sys.turn, hpc]
    rw [hleft]
    cases hb : s.behind T with
    | true =>
      simp only [Sys.idleLeft, Sys.turn, Sys.behind]
      split <;> simp
    | false =>
      have hzero := ho.pending_of_updateDone hthreads hpc hlate hb
      have hzero' : Sys.pending { s with pc := .loopHead } = 0 := by
        simpa [Sys.pending, Sys.carried, Sys.watchers, hpc, Pc.taken] using hzero
      simp [Sys.idleLeft, Sys.turn, Sys.behind, hzero']

/-- The loop thread can make a step. -/
theorem Sys.exists_loopStep (hp : s.Prepared) (hn : s.native = .idle) (hne : s.pc ≠ .start) :
    Enabled ClosingStep Label.role .loop s := by
  rcases hpc : s.pc with _ | _ | _ | _ | msg | _ | job | _ | job | head
  · exact absurd hpc hne
  · exact ⟨_, _, rfl, @Step.scriptReturn _ false hpc hn, rfl⟩
  · cases hstop : s.loop.shouldStop with
    | false => exact ⟨_, _, rfl, .enterLoop hpc hstop, rfl⟩
    | true => exact ⟨_, _, rfl, .leaveLoop hpc hstop, rfl⟩
  · rcases hm : s.loop.mQu with _ | ⟨msg, rest⟩
    · exact ⟨_, _, rfl, .drained hpc hm, rfl⟩
    · exact ⟨_, _, rfl, .getFront hpc hm, rfl⟩
  · exact ⟨_, _, rfl, @Step.build _ msg [] hpc, rfl⟩
  · rcases ht : s.loop.timersQueue with _ | ⟨job, rest⟩
    · exact ⟨_, _, rfl, .timersDone hpc ht, rfl⟩
    · exact ⟨_, _, rfl, .invokeTimer hpc ht, rfl⟩
  · exact ⟨_, _, rfl, @Step.timerReturn _ false job hpc hn, rfl⟩
  · rcases hc : s.loop.callbackQueue with _ | ⟨job, rest⟩
    · obtain ⟨head, hhead⟩ := exists_top s.loop.heap
      exact ⟨_, _, rfl, .updateTime hpc hc hhead, rfl⟩
    · obtain ⟨args, hargs⟩ := hp.args job (hc ▸ mem_cons_self)
      exact ⟨_, _, rfl, .invokeCallback hpc hc hargs, rfl⟩
  · exact ⟨_, _, rfl, @Step.callbackReturn _ false job hpc hn, rfl⟩
  · by_cases hdue : ∃ job, head = some job ∧ job.timeOut ≤ s.loop.getLoopTime
    · obtain ⟨job, rfl, hdue⟩ := hdue
      obtain ⟨heap, hpop⟩ := (hp.head _ hpc).pop
      obtain ⟨head, hhead⟩ := exists_top heap
      exact ⟨_, _, rfl, .moveTimer hpc hdue hpop hhead, rfl⟩
    · refine ⟨_, _, rfl, .updateDone hpc fun job hj => ?_, rfl⟩
      exact not_le.1 fun h => hdue ⟨job, hj, h⟩

/-- **Who is to make the next step can make it.** -/
theorem Sys.Overdue.enabled {T : ℤ} (ho : s.Overdue T) (hne : s.pc ≠ .start) :
    Enabled ClosingStep Label.role s.nextRole s := by
  rcases ht : s.threads with _ | ⟨t, ts⟩
  · rw [nextRole, ht]
    exact exists_loopStep (Sys.Reachable.prepared ho.reachable) ho.closing.native hne
  · cases t with
    | worker job task =>
      rw [nextRole, ht]
      cases htask : task.posts with
      | false => exact ⟨_, _, rfl, @Step.deliver _ job task [] [] ts ht htask, rfl⟩
      | true => exact ⟨_, _, rfl, @Step.post _ job task [] [] ts ht htask, rfl⟩
    | watcher | posting =>
      exact absurd (ho.closing.watchers _ (by rw [ht]; exact mem_cons_self))
        (by simp [Thread.isWatcher])

/-- The steps that leave the threads. -/
theorem ClosingStep.threads (h : ClosingStep s l s') (hc : s.Closing) :
    (∃ id, l.role = .worker id) ∧ s'.threads.length < s.threads.length ∨
      (∀ id, l.role ≠ .worker id) ∧ s'.threads = s.threads := by
  obtain ⟨h, hopens⟩ := h
  cases h with
  | timerCall | startWorker | watchFile | watcherChange => cases hopens
  | deliver ht | post ht =>
    refine .inl ⟨⟨_, rfl⟩, ?_⟩
    rw [ht, length_append, length_append, length_cons]
    omega
  | watcherPost ht | watcherStop ht =>
    exact absurd (hc.watchers _ (by rw [ht]; exact mem_append_right _ mem_cons_self)) (by
      simp [Thread.isWatcher])
  | _ => exact .inr ⟨by simp [Label.role], rfl⟩

/-- The clock and the next script leave what is left to the loop. -/
theorem ClosingStep.other {T : ℤ} (h : ClosingStep s l s') (hl : l.role = .other)
    (hne : s.pc ≠ .start) (hc : s.Closing) :
    s'.rank T = s.rank T ∧ s'.nextRole = s.nextRole := by
  obtain ⟨h, hopens⟩ := h
  cases h with
  | tick => exact ⟨rfl, rfl⟩
  | nextScript hpc => exact absurd hpc hne
  | timerCall | startWorker | watchFile | watcherChange => cases hopens
  | watcherPost ht | watcherStop ht =>
    exact absurd (hc.watchers _ (by rw [ht]; exact mem_append_right _ mem_cons_self)) (by
      simp [Thread.isWatcher])
  | _ => cases hl

theorem Sys.rank_nil {T : ℤ} (h : s.threads = []) :
    s.rank T = toLex (0, toLex (s.workLeft, s.idleLeft T)) := by
  rw [rank, h]

theorem Sys.rank_of_ne_nil {T : ℤ} (h : s.threads ≠ []) :
    s.rank T = toLex (s.threads.length, toLex (0, 0)) := by
  rw [rank]
  cases ht : s.threads with
  | nil => exact absurd ht h
  | cons t ts => rfl

/-- Fewer threads, a lower rank. -/
theorem Sys.rank_lt {T : ℤ} (h : s'.threads.length < s.threads.length) :
    s'.rank T < s.rank T := by
  rw [rank_of_ne_nil (ne_nil_of_length_pos (Nat.zero_lt_of_lt h))]
  by_cases hnil : s'.threads = []
  · rw [rank_nil hnil, Prod.Lex.toLex_lt_toLex]
    exact .inl (Nat.zero_lt_of_lt h)
  · rw [rank_of_ne_nil hnil, Prod.Lex.toLex_lt_toLex]
    exact .inl h

/-- **A step lowers the rank** or returns, or leaves the rank to somebody else. -/
theorem ClosingStep.rank {T : ℤ} (h : ClosingStep s l s') (ho : s.Overdue T)
    (hne : s.pc ≠ .start) : s'.pc = .start ∨ s'.rank T < s.rank T ∨
      l.role ≠ s.nextRole ∧ s'.rank T = s.rank T ∧ s'.nextRole = s.nextRole := by
  rcases h.threads ho.closing with ⟨-, hlt⟩ | ⟨hworker, hthreads⟩
  · exact .inr (.inl (Sys.rank_lt hlt))
  rcases ht : s.threads with _ | ⟨t, ts⟩
  · have hloop : s.nextRole = .loop := by rw [Sys.nextRole, ht]
    cases hl : l.role with
    | worker id => exact absurd hl (hworker id)
    | other =>
      rw [hloop]
      exact .inr (.inr ⟨by simp, hloop ▸ h.other hl hne ho.closing⟩)
    | loop =>
      refine (h.lowers ho hl ht).imp id fun ⟨ht', hlower⟩ => .inl ?_
      rw [Sys.rank_nil ht, Sys.rank_nil ht', Prod.Lex.toLex_lt_toLex]
      exact .inr ⟨rfl, Prod.Lex.toLex_lt_toLex.2 hlower⟩
  · have hnext : ∃ id, s.nextRole = .worker id := by
      cases t with
      | worker job task => exact ⟨job.id, by rw [Sys.nextRole, ht]⟩
      | watcher | posting =>
        exact absurd (ho.closing.watchers _ (by rw [ht]; exact mem_cons_self))
          (by simp [Thread.isWatcher])
    obtain ⟨id, hid⟩ := hnext
    refine .inr (.inr ⟨by rw [hid]; exact hworker id, ?_, by rw [Sys.nextRole, hthreads]; rfl⟩)
    have hcons : s.threads ≠ [] := by simp [ht]
    rw [Sys.rank_of_ne_nil hcons, Sys.rank_of_ne_nil (hthreads ▸ hcons), hthreads]

/-! ## The result -/

theorem exists_deadline (heap : List TimedJob) : ∃ T : ℤ, ∀ job ∈ heap, job.timeOut ≤ T := by
  induction heap with
  | nil => exact ⟨0, by simp⟩
  | cons job heap ih =>
    obtain ⟨T, hT⟩ := ih
    exact ⟨max job.timeOut T, forall_mem_cons.2 ⟨le_max_left _ _, fun j hj =>
      (hT j hj).trans (le_max_right _ _)⟩⟩

/-- A clock that reads late enough has passed a time. -/
theorem exists_clock (T : ℤ) : ∃ t : ℕ, ∀ ms, t ≤ ms → T ≤ toTimeT ms * 1000 := by
  refine ⟨(T + 1000).toNat, fun ms hms => ?_⟩
  rw [toTimeT]
  omega

/-- **`Run` returns.** From a reachable state in which no timer is being created and there is no
watcher and no interval, along every weakly fair run that begins no job and whose clock goes on:
`Run` returns in the end, with nothing pending, and every job registered until then has been called
exactly once. -/
theorem run_returns (hr : s.Reachable) (hc : s.Closing) (r : Run ClosingStep) (h₀ : r.state 0 = s)
    (hfair : r.Fair Label.role) (hclock : ∀ t, ∃ n, t ≤ (r.state n).clock) :
    ∃ n, (r.state n).pc = .start ∧ (r.state n).pending = 0 ∧
      ∀ job ∈ (r.state n).registered, (r.state n).invoked.count job = 1 := by
  obtain ⟨T, hT⟩ := exists_deadline s.loop.heap
  obtain ⟨t, ht⟩ := exists_clock T
  obtain ⟨k, hk⟩ := hclock t
  have hI : ∀ n, (r.state n).Reachable ∧ (r.state n).Closing ∧
      (r.state n).loop.heap ⊆ s.loop.heap :=
    r.invariant (I := fun s' => s'.Reachable ∧ s'.Closing ∧ s'.loop.heap ⊆ s.loop.heap)
      ⟨h₀ ▸ hr, h₀ ▸ hc, by rw [h₀]; exact Subset.refl _⟩ fun s₁ l s₂ ⟨hr, hc, hsub⟩ hs =>
        have hclosing := hs.closing (Sys.Reachable.control hr) hc
        ⟨hr.tail hs.1, hclosing.1, fun j hj => hsub (hclosing.2.1 hj)⟩
  have hoverdue : ∀ n, ((r.drop k).state n).Overdue T :=
    (r.drop k).invariant (I := Sys.Overdue T)
      ⟨(hI k).1, (hI k).2.1, fun job hj => hT job ((hI k).2.2 hj), ht _ hk⟩
      fun s₁ l s₂ ho hs => hs.overdue ho
  have hreturn : ∃ n, ((r.drop k).state n).pc = .start := by
    refine (r.drop k).eventually_of_rank Label.role (Sys.Overdue T) (fun s => s.pc = .start)
      Sys.nextRole (Sys.rank T) (hfair.drop k) hoverdue ?_ ?_ ?_
    · exact fun s₁ ho hne => ho.enabled hne
    · intro s₁ l s₂ ho hne hs hl
      exact (hs.rank ho hne).imp id fun h => h.resolve_right fun h => h.1 hl
    · intro s₁ l s₂ ho hne hs _
      exact (hs.rank ho hne).imp id (Or.imp id And.right)
  obtain ⟨n, hn⟩ := hreturn
  have hpc : (r.state (k + n)).pc = .start := hn
  have hreach := (hI (k + n)).1
  have hpending := Sys.Reachable.quiet hreach hpc
  refine ⟨k + n, hpc, hpending, fun job hj => ?_⟩
  exact (Sys.Reachable.invoked_once hreach hpending (by rw [hpc]; rfl) hj).2

/-! ## Such a run -/

/-- Between two scripts the clock goes on. -/
def ticking (s : Sys) : Run ClosingStep where
  state n := { s with clock := s.clock + n }
  label n := some (.tick (s.clock + n + 1))
  idle n h := by cases h
  moves n l h := by
    obtain rfl := Option.some.inj h
    exact ⟨.tick (Nat.le_succ _), rfl⟩

theorem ticking_fair (hpc : s.pc = .start) (hn : s.native = .idle) (ht : s.threads = []) :
    (ticking s).Fair Label.role := by
  intro a n henabled
  obtain ⟨l, s', hl, h, hopens⟩ := henabled n le_rfl
  refine ⟨n, le_rfl, _, rfl, ?_⟩
  rw [← hl]
  simp only [ticking] at h
  cases h with
  | tick | nextScript => rfl
  | timerCall | startWorker | watchFile | watcherChange => cases hopens
  | timerRegister h | timerInsert h => simp [hn] at h
  | deliver h | post h | watcherPost h | watcherStop h => simp [ht] at h
  | scriptReturn h | timerReturn h | callbackReturn h | enterLoop h | leaveLoop h | getFront h
  | build h | drained h | invokeTimer h | timersDone h | invokeCallback h | updateTime h
  | moveTimer h | updateDone h => simp [hpc] at h

/-- Steps at whose end `Run` has returned begin a fair run. -/
theorem exists_run (h : Relation.ReflTransGen (fun s s' => ∃ l, ClosingStep s l s') s s')
    (hpc : s'.pc = .start) (hn : s'.native = .idle) (ht : s'.threads = []) :
    ∃ r : Run ClosingStep, r.state 0 = s ∧ r.Fair Label.role ∧
      ∀ t, ∃ n, t ≤ (r.state n).clock := by
  obtain ⟨r, rfl, hfair, d, hd⟩ := (ticking_fair hpc hn ht).exists_after h
  refine ⟨r, rfl, hfair, fun t => ⟨t + d, ?_⟩⟩
  rw [(hd t).1]
  exact Nat.le_add_left _ _

/-- A script has begun to read a file. -/
def reading : Sys :=
  { Sys.initial 0 with
    pc := .script
    loop := (EventLoop.new 0).registerJob
    threads := [.worker ⟨0, .user 0 0, none⟩ (.read [] 0 0 0 0)]
    nextId := 1
    log := [.registered ⟨0, .user 0 0, false⟩] }

theorem reading_reachable : reading.Reachable :=
  ((Transition.Reachable.start ⟨0, rfl⟩ : Sys.Reachable _).tail (.nextScript rfl)).tail
    (@Step.startWorker _ (.user 0 0) (.read [] 0 0 0 0) rfl rfl)

/-- The steps of the script that reads the file, to the return of `Run`. -/
theorem reading_returns : ∃ s',
    Relation.ReflTransGen (fun s s' => ∃ l, ClosingStep s l s') reading s' ∧
      s'.pc = .start ∧ s'.native = .idle ∧ s'.threads = [] :=
  ⟨_, .tail (.tail (.tail (.tail (.tail (.tail (.tail (.tail (.tail
      (.single ⟨_, @Step.deliver _ _ _ [] [] [] rfl rfl, rfl⟩)
      ⟨_, @Step.scriptReturn _ false rfl rfl, rfl⟩) ⟨_, .enterLoop rfl rfl, rfl⟩)
      ⟨_, .drained rfl rfl, rfl⟩) ⟨_, .timersDone rfl rfl, rfl⟩)
      ⟨_, .invokeCallback rfl rfl rfl, rfl⟩) ⟨_, @Step.callbackReturn _ false _ rfl rfl, rfl⟩)
      ⟨_, @Step.updateTime _ none rfl rfl rfl, rfl⟩) ⟨_, .updateDone rfl (by simp), rfl⟩)
      ⟨_, .leaveLoop rfl rfl, rfl⟩, rfl, rfl, rfl⟩

/-- The script reads the file, and `Run` returns. -/
theorem run_returns_read : ∃ r : Run ClosingStep, r.state 0 = reading ∧
    ∃ n, (r.state n).pc = .start ∧ (r.state n).pending = 0 := by
  obtain ⟨s', hsteps, hpc, hn, ht⟩ := reading_returns
  obtain ⟨r, h₀, hfair, hclock⟩ := exists_run hsteps hpc hn ht
  have hclosing : reading.Closing :=
    ⟨rfl, forall_mem_singleton.2 rfl, fun job hj => by cases hj⟩
  obtain ⟨n, hpc, hpending, -⟩ := run_returns reading_reachable hclosing r h₀ hfair hclock
  exact ⟨r, h₀, n, hpc, hpending⟩

end NanoJS
