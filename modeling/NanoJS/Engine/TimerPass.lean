import NanoJS.Engine.Intervals

/-!
# A pass over the due timers

One call of `runTimers`, whatever the functions of the timers do and the other threads do
meanwhile. Nothing but `updateTimers` puts a job into `timersQueue`, and `updateTimers` is not
called from the functions of timers; so what has returned, followed by the queue, is the queue at
the start (`Sys.Passed`), and the pass ends after that many functions (`timer_pass`).
-/

namespace NanoJS

open List Transition

/-! ## The pass -/

/-- The loop thread is in `runTimers`. -/
def Pc.inPass : Pc → Bool
  | .runTimers | .inTimer _ => true
  | _ => false

/-- A step of a process whose loop thread is in `runTimers`. -/
def PassStep (s : Sys) (l : Label) (s' : Sys) : Prop := s.pc.inPass = true ∧ Step s l s'

/-- The states of the call of `runTimers` that is at its head in `s₀`, up to its return. -/
abbrev Sys.Pass (s₀ : Sys) : Sys → Prop := Transition.Reachable (· = s₀) PassStep

theorem Sys.Pass.reachable {s₀ s : Sys} (h : s₀.Pass s) (hr : s₀.Reachable) : s.Reachable := by
  induction h with
  | start h => exact h ▸ hr
  | tail _ hl ih => exact Reachable.tail ih hl.2

def Event.timer? : Event → Option TimedJob
  | .timerInvoked job _ _ => some job
  | _ => none

/-- What a call of `runTimers` has done: the timers of `returned` have returned, and the intervals
among them are back in the heap; these timers and the one being executed are what has been invoked
since the start. -/
structure Sys.Passed (s₀ s : Sys) (returned : List TimedJob) (since : List Event) : Prop where
  queue : returned ++ s.loop.timersQueue = s₀.loop.timersQueue
  heap : ∀ job ∈ returned, job.isInterval = true → ∃ job' ∈ s.loop.heap, job'.call = job.call
  log : s.log = since ++ s₀.log
  timers : (since.filterMap Event.timer?).reverse = returned ++ s.pc.timer
  invoked : since.filterMap Event.invoked? = (since.filterMap Event.timer?).map TimedJob.key

/-- A step that neither calls a timer's function nor returns from it adds `new` to the log. -/
theorem Sys.Passed.keep {s₀ s s' : Sys} {returned : List TimedJob} {since : List Event}
    (h : s₀.Passed s returned since) (new : List Event)
    (hq : s'.loop.timersQueue = s.loop.timersQueue) (hheap : s.loop.heap ⊆ s'.loop.heap)
    (hlog : s'.log = new ++ s.log) (hpc : s'.pc.timer = s.pc.timer)
    (htimers : new.filterMap Event.timer? = []) (hinv : new.filterMap Event.invoked? = []) :
    ∃ returned since, s₀.Passed s' returned since := by
  refine ⟨returned, new ++ since, by rw [hq, h.queue], fun job hj hi => ?_, ?_, ?_, ?_⟩
  · obtain ⟨job', hj', hcall⟩ := h.heap job hj hi
    exact ⟨job', hheap hj', hcall⟩
  · rw [hlog, h.log, append_assoc]
  · rw [filterMap_append, htimers, nil_append, h.timers, hpc]
  · simp [htimers, hinv, h.invoked]

theorem Step.passed {s₀ s s' : Sys} {l : Label} (hs : Step s l s') (hpass : s.pc.inPass = true)
    (hf : s.Control) {returned : List TimedJob} {since : List Event}
    (h : s₀.Passed s returned since) : ∃ returned since, s₀.Passed s' returned since := by
  cases hs with
  | nextScript hpc | scriptReturn hpc | callbackReturn hpc | enterLoop hpc | leaveLoop hpc
  | getFront hpc | build hpc | drained hpc | invokeCallback hpc | updateTime hpc | moveTimer hpc
  | updateDone hpc => simp [hpc, Pc.inPass] at hpass
  | @invokeTimer job rest hpc hq =>
    have hnone : s.pc.timer = [] := by simp [hpc, Pc.timer]
    refine ⟨returned, .timerInvoked job s.loop.getLoopTime s.clock :: since, h.queue, h.heap, ?_,
      ?_, ?_⟩
    · rw [h.log, cons_append]
    · have ht := h.timers
      rw [hnone, append_nil] at ht
      simp [Event.timer?, ht, Pc.timer]
    · simp [Event.timer?, Event.invoked?, h.invoked]
  | @timerReturn _ job hpc hn =>
    obtain ⟨rest, hq⟩ := hf.timer job hpc
    refine ⟨returned ++ [job], since, ?_, fun job' hj hi => ?_, ?_, ?_, h.invoked⟩
    · have hqueue := h.queue
      cases hi : job.isInterval <;>
      simpa [EventLoop.removeJob, EventLoop.withdrawJob, EventLoop.addJobToTimersHeap, hi, hq]
        using hqueue
    · rcases mem_append.1 hj with hj | hj
      · obtain ⟨back, hback, hcall⟩ := h.heap job' hj hi
        refine ⟨back, ?_, hcall⟩
        cases hint : job.isInterval <;>
        simp [EventLoop.removeJob, EventLoop.withdrawJob, EventLoop.addJobToTimersHeap, hint,
          hback]
      · obtain rfl := mem_singleton.1 hj
        refine ⟨{ job' with timeOut := timeT (job'.duration + s.loop.currentTime) }, ?_, rfl⟩
        simp [EventLoop.removeJob_interval _ hi]
    · exact h.log
    · rw [h.timers, hpc]
      simp [Pc.timer]
  | timersDone hpc hq =>
    exact h.keep [] rfl (Subset.refl _) rfl (by simp [hpc, Pc.timer]) rfl rfl
  | timerInsert hn => exact h.keep [] rfl (subset_cons_self _ _) rfl rfl rfl rfl
  | timerCall | timerRegister | startWorker | watcherChange =>
    exact h.keep [_] rfl (Subset.refl _) rfl rfl rfl rfl
  | _ => exact h.keep [] rfl (Subset.refl _) rfl rfl rfl rfl

theorem Sys.Pass.passed {s₀ s : Sys} (h : s₀.Pass s) (hr : s₀.Reachable)
    (hpc : s₀.pc = .runTimers) : ∃ returned since, s₀.Passed s returned since := by
  induction h with
  | start h =>
    subst h
    exact ⟨[], [], rfl, by simp, rfl, by simp [hpc, Pc.timer], rfl⟩
  | tail h hl ih =>
    obtain ⟨returned, since, hp⟩ := ih
    exact hl.2.passed hl.1 (Sys.Reachable.control (Sys.Pass.reachable h hr)) hp

/-- A pass that is over has emptied the queue. -/
theorem Sys.Pass.queue_nil {s₀ s : Sys} (h : s₀.Pass s) (hpc : s₀.pc = .runTimers)
    (hover : s.pc = .runCallbacks) : s.loop.timersQueue = [] := by
  cases h with
  | start h =>
    subst h
    simp [hpc] at hover
  | tail _ hl =>
    obtain ⟨hpass, hl⟩ := hl
    cases hl with
    | timersDone _ hq => exact hq
    | callbackReturn h => simp [h, Pc.inPass] at hpass
    | nextScript | scriptReturn | timerReturn | enterLoop | leaveLoop | getFront | build | drained
    | invokeTimer | invokeCallback | updateTime | moveTimer | updateDone => cases hover
    | _ => simp only at hover; simp [hover, Pc.inPass] at hpass

/-- A job registered since the start is not among those that were in the queue then. -/
theorem Sys.Passed.fresh {s₀ s : Sys} {returned : List TimedJob} {since : List Event}
    (h : s₀.Passed s returned since) (hr₀ : s₀.Reachable) (hr : s.Reachable) {k : JobKey}
    (hk : k ∈ since.filterMap Event.registered?) : k ∉ s₀.loop.timersQueue.map TimedJob.key := by
  intro hmem
  have hheld : k ∈ s₀.held := by
    simp only [held, mem_append]
    exact .inl (.inl (.inl (.inr hmem)))
  have hold : k ∈ s₀.registered := by
    have hle := (Sys.Reachable.sound hr₀).held_le k
    exact count_pos_iff.1 ((count_pos_iff.2 hheld).trans_le hle)
  have hnodup := (Sys.Reachable.registered_nodup hr).of_map
  rw [registered, h.log, filterMap_append] at hnodup
  exact (nodup_append.1 hnodup).2.2 k hk k hold rfl

/-! ## The pass ends -/

/-- The loop thread's own steps at the head of `runTimers`. -/
def Label.runsTimers : Label → Prop
  | .invokeTimer | .timersDone => True
  | _ => False

/-- Until the loop thread makes a step of its own, it stays at the head of `runTimers`. -/
theorem Step.stays_runTimers {s s' : Sys} {l : Label} (hs : Step s l s') (hl : ¬l.runsTimers)
    (hpc : s.pc = .runTimers) : s'.pc = .runTimers ∧ s'.loop.timersQueue = s.loop.timersQueue := by
  cases hs with
  | invokeTimer | timersDone => exact absurd trivial hl
  | nextScript h | scriptReturn h | timerReturn h | callbackReturn h | enterLoop h | leaveLoop h
  | getFront h | build h | drained h | invokeCallback h | updateTime h | moveTimer h
  | updateDone h => simp [hpc] at h
  | _ => exact ⟨hpc, rfl⟩

/-- Until the function of a timer returns, the loop thread stays in it. -/
theorem Step.stays_inTimer {s s' : Sys} {l : Label} {job : TimedJob} (hs : Step s l s')
    (hl : ∀ threw, l ≠ .jsReturn threw) (hpc : s.pc = .inTimer job) :
    s'.pc = .inTimer job ∧ s'.loop.timersQueue = s.loop.timersQueue := by
  cases hs with
  | scriptReturn | timerReturn | callbackReturn => exact absurd rfl (hl _)
  | nextScript h | enterLoop h | leaveLoop h | getFront h | build h | drained h | invokeTimer h
  | timersDone h | invokeCallback h | updateTime h | moveTimer h | updateDone h =>
    simp [hpc] at h
  | _ => exact ⟨hpc, rfl⟩

/-- Each function of a timer that is called returns or throws. -/
def TimersReturn (r : Run Step) : Prop :=
  ∀ n job, (r.state n).pc = .inTimer job → ∃ m, n ≤ m ∧ ∃ l, r.label m = some l ∧
    ∃ threw, l = .jsReturn threw

/-- The loop thread goes on at the head of `runTimers`. -/
def LoopGoesOn (r : Run Step) : Prop :=
  ∀ n, (r.state n).pc = .runTimers → ∃ m, n ≤ m ∧ ∃ l, r.label m = some l ∧ l.runsTimers

/-- From the head of `runTimers`, a step of the loop thread's own ends the pass or calls the front
of the queue. -/
theorem Sys.Pass.next {s₀ : Sys} (r : Run Step) (hloop : LoopGoesOn r) {n : ℕ}
    (hpass : s₀.Pass (r.state n)) (hpc : (r.state n).pc = .runTimers) :
    ∃ m, s₀.Pass (r.state m) ∧
      ((r.state m).pc = .runCallbacks ∨ ∃ job rest, (r.state n).loop.timersQueue = job :: rest ∧
        (r.state m).pc = .inTimer job ∧ (r.state m).loop.timersQueue = job :: rest) := by
  obtain ⟨m, -, ⟨hpass, hpc, hq⟩, l, hl, hgoal⟩ := Run.until_label
    (P := fun s => s₀.Pass s ∧ s.pc = .runTimers ∧
      s.loop.timersQueue = (r.state n).loop.timersQueue)
    ⟨hpass, hpc, rfl⟩
    (fun s l s' h hl hs =>
      have hstays := hs.stays_runTimers hl h.2.1
      ⟨h.1.tail ⟨by simp [h.2.1, Pc.inPass], hs⟩, hstays.1, hstays.2.trans h.2.2⟩)
    (hloop n hpc)
  have hstep := r.moves m l hl
  have hnext : s₀.Pass (r.state (m + 1)) := hpass.tail ⟨by simp [hpc, Pc.inPass], hstep⟩
  refine ⟨m + 1, hnext, ?_⟩
  generalize r.state (m + 1) = s' at hstep
  cases hstep with
  | timersDone => exact .inl rfl
  | @invokeTimer job rest hpc' hq' => exact .inr ⟨job, rest, hq ▸ hq', rfl, hq'⟩
  | _ => exact hgoal.elim

/-- From the function of a timer, the pass comes back to its head with that timer popped. -/
theorem Sys.Pass.return {s₀ : Sys} (r : Run Step) (hreturn : TimersReturn r) {n : ℕ}
    {job : TimedJob} {rest : List TimedJob} (hpass : s₀.Pass (r.state n))
    (hpc : (r.state n).pc = .inTimer job) (hq : (r.state n).loop.timersQueue = job :: rest) :
    ∃ m, s₀.Pass (r.state m) ∧ (r.state m).pc = .runTimers ∧
      (r.state m).loop.timersQueue = rest := by
  obtain ⟨m, -, ⟨hpass, hpc, hq⟩, l, hl, threw, rfl⟩ := Run.until_label
    (P := fun s => s₀.Pass s ∧ s.pc = .inTimer job ∧ s.loop.timersQueue = job :: rest)
    ⟨hpass, hpc, hq⟩
    (fun s l s' h hl hs =>
      have hstays := hs.stays_inTimer (fun threw ht => hl ⟨threw, ht⟩) h.2.1
      ⟨h.1.tail ⟨by simp [h.2.1, Pc.inPass], hs⟩, hstays.1, hstays.2.trans h.2.2⟩)
    (hreturn n job hpc)
  have hstep := r.moves m _ hl
  have hnext : s₀.Pass (r.state (m + 1)) := hpass.tail ⟨by simp [hpc, Pc.inPass], hstep⟩
  refine ⟨m + 1, hnext, ?_⟩
  generalize r.state (m + 1) = s' at hstep
  cases hstep with
  | scriptReturn hpc' => simp [hpc] at hpc'
  | callbackReturn hpc' => simp [hpc] at hpc'
  | @timerReturn _ job' hpc' hn =>
    refine ⟨rfl, ?_⟩
    cases hi : job'.isInterval <;>
    simp [EventLoop.removeJob, EventLoop.withdrawJob, EventLoop.addJobToTimersHeap, hi, hq]

/-- **The pass ends**: each function that returns makes the queue shorter. -/
theorem Sys.Pass.ends {s₀ : Sys} (r : Run Step) (hreturn : TimersReturn r) (hloop : LoopGoesOn r)
    (queue : List TimedJob) {n : ℕ} (hpass : s₀.Pass (r.state n))
    (hpc : (r.state n).pc = .runTimers) (hq : (r.state n).loop.timersQueue = queue) :
    ∃ m, s₀.Pass (r.state m) ∧ (r.state m).pc = .runCallbacks := by
  induction queue generalizing n with
  | nil =>
    obtain ⟨m, hpass', hdone | ⟨job, rest, hne, -⟩⟩ := Sys.Pass.next r hloop hpass hpc
    · exact ⟨m, hpass', hdone⟩
    · rw [hq] at hne
      cases hne
  | cons job rest ih =>
    obtain ⟨m, hpass', hdone | ⟨job', rest', hne, hin, hq'⟩⟩ := Sys.Pass.next r hloop hpass hpc
    · exact ⟨m, hpass', hdone⟩
    · rw [hq] at hne
      cases hne
      obtain ⟨m', hback, hpc', hrest⟩ := Sys.Pass.return r hreturn hpass' hin hq'
      exact ih hback hpc' hrest

/-! ## The result -/

/-- **A timer pass is bounded by its snapshot.** From the head of `runTimers`, whatever the
functions of the timers and the other threads do: the timers invoked since are the first of the
queue at the start, in its order, and none of them was registered since; when the pass is over,
they are the whole queue, the queue is empty, and the intervals among them are in the heap. And in
every run in which the functions return or throw, the pass is over at some moment. -/
theorem timer_pass {s₀ : Sys} (hr : s₀.Reachable) (hpc : s₀.pc = .runTimers) :
    (∀ s, s₀.Pass s → ∃ since, s.log = since ++ s₀.log ∧
      (since.filterMap Event.timer?).reverse <+: s₀.loop.timersQueue ∧
      (∀ k ∈ since.filterMap Event.registered?, k ∉ since.filterMap Event.invoked?) ∧
      (s.pc = .runCallbacks → (since.filterMap Event.timer?).reverse = s₀.loop.timersQueue ∧
        s.loop.timersQueue = [] ∧
        ∀ job ∈ s₀.loop.timersQueue, job.isInterval = true →
          ∃ job' ∈ s.loop.heap, job'.call = job.call)) ∧
    ∀ r : Run Step, r.state 0 = s₀ → TimersReturn r → LoopGoesOn r →
      ∃ n, s₀.Pass (r.state n) ∧ (r.state n).pc = .runCallbacks := by
  refine ⟨fun s hs => ?_, fun r h₀ hreturn hloop => ?_⟩
  · obtain ⟨returned, since, hp⟩ := Sys.Pass.passed hs hr hpc
    have hfront : returned ++ s.pc.timer <+: s₀.loop.timersQueue := by
      rw [← hp.queue, prefix_append_right_inj]
      cases hpc' : s.pc with
      | inTimer job =>
        obtain ⟨rest, hq⟩ := (Sys.Reachable.control (hs.reachable hr)).timer job hpc'
        exact ⟨rest, hq.symm⟩
      | _ => exact nil_prefix
    refine ⟨since, hp.log, hp.timers ▸ hfront, fun k hk hinv => ?_, fun hover => ?_⟩
    · have hfresh := hp.fresh hr (hs.reachable hr) hk
      rw [hp.invoked, ← mem_reverse, ← map_reverse, hp.timers] at hinv
      exact hfresh ((hfront.map TimedJob.key).subset hinv)
    · have hnil := hs.queue_nil hpc hover
      have hqueue := hp.queue
      rw [hnil, append_nil] at hqueue
      refine ⟨?_, hnil, fun job hj => hp.heap job (hqueue ▸ hj)⟩
      rw [hp.timers, hover, ← hqueue]
      exact append_nil _
  · exact Sys.Pass.ends r hreturn hloop _ (by rw [h₀]; exact .start rfl) (by rw [h₀, hpc]) rfl

/-- In the function of the front of the queue. -/
def Sys.calledTimer (s : Sys) (job : TimedJob) : Sys :=
  { s with
    pc := .inTimer job
    log := .timerInvoked job s.loop.getLoopTime s.clock :: s.log }

/-- Back at the head of `runTimers`. -/
def Sys.returnedTimer (s : Sys) (job : TimedJob) : Sys :=
  { s.calledTimer job with pc := .runTimers, loop := s.loop.removeJob (.timed job) }

/-- The pass over a queue of one timer, whose function returns at once; then nothing happens. -/
def onePass (s : Sys) (job : TimedJob) (hpc : s.pc = .runTimers) (hn : s.native = .idle)
    (hq : s.loop.timersQueue = [job]) : Run Step where
  state
    | 0 => s
    | 1 => s.calledTimer job
    | 2 => s.returnedTimer job
    | _ => { s.returnedTimer job with pc := .runCallbacks }
  label n := [.invokeTimer, .jsReturn false, .timersDone][n]?
  idle n h := by
    rcases n with _ | _ | _ | n
    · cases h
    · cases h
    · cases h
    · rfl
  moves n l h := by
    rcases n with _ | _ | _ | n
    · cases h
      exact .invokeTimer hpc hq
    · cases h
      exact @Step.timerReturn (s.calledTimer job) false job rfl hn
    · cases h
      refine @Step.timersDone (s.returnedTimer job) rfl ?_
      cases hi : job.isInterval <;>
      simp [Sys.returnedTimer, EventLoop.removeJob, EventLoop.withdrawJob,
        EventLoop.addJobToTimersHeap, hi, hq]
    · simp at h

section

variable {s : Sys} {job : TimedJob} (hpc : s.pc = .runTimers) (hn : s.native = .idle)
  (hq : s.loop.timersQueue = [job])

theorem onePass_returns : TimersReturn (onePass s job hpc hn hq) := by
  intro n job' hjob
  rcases n with _ | _ | _ | n
  · exact absurd (hpc.symm.trans hjob) (by simp)
  · exact ⟨1, le_rfl, _, rfl, false, rfl⟩
  · cases hjob
  · cases hjob

theorem onePass_goesOn : LoopGoesOn (onePass s job hpc hn hq) := by
  intro n hhead
  rcases n with _ | _ | _ | n
  · exact ⟨0, le_rfl, _, rfl, trivial⟩
  · cases hhead
  · exact ⟨2, le_rfl, _, rfl, trivial⟩
  · cases hhead

end

/-- The pass over the queue that holds an interval. -/
theorem timer_pass_interval : ∃ s₀ : Sys, s₀.loop.timersQueue = [oneInterval 2000] ∧
    ∃ r : Run Step, r.state 0 = s₀ ∧ TimersReturn r ∧ LoopGoesOn r ∧
      ∃ n, (r.state n).loop.timersQueue = [] ∧
        ∃ job' ∈ (r.state n).loop.heap, job'.call = (oneInterval 2000).call := by
  have called := (((((Transition.Reachable.start ⟨1000, rfl⟩ : Sys.Reachable _).tail
    (.nextScript rfl)).tail (@Step.timerCall _ true (.user 0 0) [] 1000 rfl rfl)).tail
    (.timerRegister rfl)).tail (.timerInsert rfl)).tail (@Step.scriptReturn _ false rfl rfl)
  have waiting := (((called.tail (.enterLoop rfl rfl)).tail (.drained rfl rfl)).tail
    (.timersDone rfl rfl)).tail (@Step.tick _ 2000 (by decide))
  have moved := (waiting.tail (@Step.updateTime _ (some (oneInterval 2000)) rfl rfl
    ⟨.head _, oneInterval_top 2000⟩)).tail (@Step.moveTimer _ _ [] none rfl (by decide)
    ⟨.refl _, oneInterval_top 2000⟩ rfl)
  have due := ((moved.tail (.updateDone rfl (by simp))).tail (.enterLoop rfl rfl)).tail
    (.drained rfl rfl)
  have hpass := timer_pass due rfl
  obtain ⟨n, hn, hover⟩ := hpass.2 (onePass _ (oneInterval 2000) rfl rfl rfl) rfl
    (onePass_returns rfl rfl rfl) (onePass_goesOn rfl rfl rfl)
  have hfacts := hpass.1 _ hn
  obtain ⟨since, -, -, -, hend⟩ := hfacts
  obtain ⟨-, hnil, hback⟩ := hend hover
  exact ⟨_, rfl, _, rfl, onePass_returns rfl rfl rfl, onePass_goesOn rfl rfl rfl, n, hnil,
    hback _ (.head _) rfl⟩

end NanoJS
