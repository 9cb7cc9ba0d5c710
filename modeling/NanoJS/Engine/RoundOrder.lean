import NanoJS.Engine.Fifo
import NanoJS.Engine.Rounds
import NanoJS.Engine.TimerOrder
import NanoJS.Engine.TimerPass

/-!
# The order of a round

What a round calls, behind a reading of the clock: first the timers that are due at the reading,
each once, in the order of their deadlines, and then callback jobs (`round_order`). The timers that
are moved, in the queue and already called are the due ones throughout (`Sys.RoundCalls`); no other
timer is called before the next reading, whatever the functions set.
-/

namespace NanoJS

open List PriorityQueue

/-! ## What a round has called -/

/-- The loop thread is in `runCallbacks`. -/
def Pc.inCallbacks : Pc → Bool
  | .runCallbacks | .inCallback _ => true
  | _ => false

/-- The timers that have left the heap and are not called yet. -/
def Sys.moving (s : Sys) : List TimedJob := s.pc.waiting s.loop.timersQueue

/-- What has been called since a reading of the clock that made the timers of `due` due. -/
structure Sys.RoundCalls (due : List TimedJob) (since : List Event) (s : Sys)
    (timers : List TimedJob) (callbacks : List JobKey) : Prop where
  invoked : (since.filterMap Event.invoked?).reverse = timers.map TimedJob.key ++ callbacks
  timers_eq : (since.filterMap Event.timer?).reverse = timers
  callbacks_eq : (since.filterMap Event.callbackInvoked?).reverse = callbacks
  due : (timers ++ s.moving ++ s.due).Perm due
  sorted : (timers ++ s.moving).Pairwise fun a b => a.timeOut ≤ b.timeOut
  coming : ∀ a ∈ timers ++ s.moving, ∀ b ∈ s.due, a.timeOut ≤ b.timeOut
  first : s.pc.inCallbacks = false → callbacks = []
  drained : s.pc.inCallbacks = true → s.loop.timersQueue = []

namespace Sys.RoundCalls

variable {due : List TimedJob} {since : List Event} {s s' : Sys} {timers : List TimedJob}
  {callbacks : List JobKey}

/-- A step that calls nothing and takes nothing out of the heap. -/
theorem keep (h : s.RoundCalls due since timers callbacks) (new : List Event)
    (hinvoked : new.filterMap Event.invoked? = []) (htimers : new.filterMap Event.timer? = [])
    (hcallbacks : new.filterMap Event.callbackInvoked? = [])
    (hmoving : s'.moving = s.moving) (hdue : s'.due = s.due)
    (hfirst : s'.pc.inCallbacks = false → s.pc.inCallbacks = false)
    (hdrained : s'.pc.inCallbacks = true → s'.loop.timersQueue = []) :
    s'.RoundCalls due (new ++ since) timers callbacks where
  invoked := by rw [filterMap_append, hinvoked, nil_append, h.invoked]
  timers_eq := by rw [filterMap_append, htimers, nil_append, h.timers_eq]
  callbacks_eq := by rw [filterMap_append, hcallbacks, nil_append, h.callbacks_eq]
  due := by rw [hmoving, hdue]; exact h.due
  sorted := by rw [hmoving]; exact h.sorted
  coming := by rw [hmoving, hdue]; exact h.coming
  first hpc := h.first (hfirst hpc)
  drained := hdrained

end Sys.RoundCalls

theorem Sys.due_eq_of_inJs {s s' : Sys} (hpc : s'.pc = s.pc) (hjs : s.pc.inJs = true) :
    s'.due = s.due :=
  (Sys.due_of_inJs (hpc ▸ hjs)).trans (Sys.due_of_inJs hjs).symm

/-- The timer on top of the heap is one of the due ones. -/
theorem Sys.due_perm {s : Sys} {job : TimedJob} {heap : List TimedJob}
    (hpc : s.pc = .updateTimers (some job)) (hdue : job.timeOut ≤ s.loop.getLoopTime)
    (hpop : Pop heapLess s.loop.heap job heap) :
    s.due.Perm (job :: heap.filter fun job => decide (job.timeOut ≤ s.loop.getLoopTime)) := by
  have hperm := hpop.perm.filter fun job => decide (job.timeOut ≤ s.loop.getLoopTime)
  rw [filter_cons_of_pos (by simpa using hdue)] at hperm
  rwa [Sys.due, hpc]

/-- **What a round has called**, step by step. -/
theorem Step.roundCalls {due : List TimedJob} {since : List Event} {s s' : Sys} {l : Label}
    {timers : List TimedJob} {callbacks : List JobKey} (hs : Step s l s') (hl : l ≠ .updateTime)
    (hf : s.Control) (hp : s.Prepared) (h : s.RoundCalls due since timers callbacks) :
    ∃ new timers callbacks, s'.log = new ++ s.log ∧
      s'.RoundCalls due (new ++ since) timers callbacks := by
  cases hs with
  | updateTime => exact absurd rfl hl
  | @moveTimer job heap head hpc hdue hpop hhead =>
    have hmoving : s.moving = s.loop.timersQueue := by simp [Sys.moving, Pc.waiting, hpc]
    have hrest := Sys.due_perm hpc hdue hpop
    obtain ⟨hinvoked, htimers, hcallbacks, hperm, hsorted, hcoming, hfirst, -⟩ := h
    rw [hmoving] at hperm hsorted hcoming
    refine ⟨[], timers, callbacks, rfl, hinvoked, htimers, hcallbacks, ?_, ?_, ?_,
      fun _ => hfirst (by simp [hpc, Pc.inCallbacks]), by simp [Pc.inCallbacks]⟩
    · refine Perm.trans ?_ hperm
      show (timers ++ (s.loop.timersQueue ++ [job]) ++ _).Perm _
      rw [← append_assoc timers, append_assoc _ [job]]
      exact hrest.symm.append_left _
    · show (timers ++ (s.loop.timersQueue ++ [job])).Pairwise _
      rw [← append_assoc]
      refine pairwise_append.2 ⟨hsorted, pairwise_singleton _ _, fun a ha b hb => ?_⟩
      obtain rfl := mem_singleton.1 hb
      exact hcoming a ha _ (hrest.mem_iff.2 mem_cons_self)
    · intro a ha b hb
      have hb' : b ∈ s.due := hrest.mem_iff.2 (mem_cons_of_mem _ hb)
      rcases mem_append.1 ha with ha | ha
      · exact hcoming a (mem_append_left _ ha) b hb'
      · rcases mem_append.1 ha with ha | ha
        · exact hcoming a (mem_append_right _ ha) b hb'
        · obtain rfl := mem_singleton.1 ha
          exact hpop.key_le heapLess_of_timeOut_lt (mem_filter.1 hb).1
  | @updateDone head hpc hlate =>
    have hdue := hp.due_eq_nil hpc hlate
    refine ⟨[], timers, callbacks, rfl, h.keep [] rfl rfl rfl ?_ hdue.symm ?_ ?_⟩
    · simp [Sys.moving, Pc.waiting, hpc]
    · simp [hpc, Pc.inCallbacks]
    · simp [Pc.inCallbacks]
  | @invokeTimer job rest hpc hq =>
    have hmoving : s.moving = job :: rest := by simp [Sys.moving, Pc.waiting, hpc, hq]
    have hold : s.due = [] := by rw [Sys.due, hpc]
    obtain ⟨hinvoked, htimers, hcallbacks, hperm, hsorted, -, hfirst, -⟩ := h
    obtain rfl := hfirst (by simp [hpc, Pc.inCallbacks])
    rw [hmoving, hold, append_nil] at hperm
    rw [hmoving] at hsorted
    refine ⟨[.timerInvoked job s.loop.getLoopTime s.clock], timers ++ [job], [], rfl, ?_, ?_, ?_,
      ?_, ?_, by simp [Sys.due], fun _ => rfl, by simp [Pc.inCallbacks]⟩
    · simp [Event.invoked?, hinvoked]
    · simp [Event.timer?, htimers]
    · simpa [Event.callbackInvoked?, filterMap_cons] using hcallbacks
    · simpa [Sys.moving, Pc.waiting, hq, Sys.due] using hperm
    · simpa [Sys.moving, Pc.waiting, hq] using hsorted
  | @timerReturn _ job hpc hn =>
    obtain ⟨rest, hq⟩ := hf.timer job hpc
    refine ⟨[], timers, callbacks, rfl, h.keep [] rfl rfl rfl ?_ ?_ ?_ ?_⟩
    · cases hi : job.isInterval <;>
      simp [Sys.moving, Pc.waiting, hpc, EventLoop.removeJob, EventLoop.withdrawJob,
        EventLoop.addJobToTimersHeap, hi]
    · simp [Sys.due, hpc]
    · simp [hpc, Pc.inCallbacks]
    · simp [Pc.inCallbacks]
  | @invokeCallback job rest args hpc hq hargs =>
    obtain ⟨hinvoked, htimers, hcallbacks, hperm, hsorted, hcoming, -, hdrained⟩ := h
    refine ⟨[.callbackInvoked job], timers, callbacks ++ [job.key], rfl, ?_, ?_, ?_, ?_, ?_, ?_,
      by simp [Pc.inCallbacks], fun _ => hdrained (by simp [hpc, Pc.inCallbacks])⟩
    · simp [Event.invoked?, hinvoked]
    · simp [Event.timer?, filterMap_cons, htimers]
    · simp [Event.callbackInvoked?, hcallbacks]
    · simpa [Sys.moving, Sys.due, Pc.waiting, hpc] using hperm
    · simpa [Sys.moving, Pc.waiting, hpc] using hsorted
    · simp [Sys.due]
  | @callbackReturn _ job hpc hn =>
    refine ⟨[], timers, callbacks, rfl, h.keep [] rfl rfl rfl ?_ ?_ ?_ fun _ => ?_⟩
    · simp [Sys.moving, Pc.waiting, hpc, EventLoop.removeJob, EventLoop.withdrawJob]
    · simp [Sys.due, hpc]
    · simp [hpc, Pc.inCallbacks]
    · exact h.drained (by simp [hpc, Pc.inCallbacks])
  | timersDone hpc hq =>
    refine ⟨[], timers, callbacks, rfl, h.keep [] rfl rfl rfl ?_ ?_ ?_ fun _ => hq⟩
    · simp [Sys.moving, Pc.waiting, hpc]
    · simp [Sys.due, hpc]
    · simp [hpc, Pc.inCallbacks]
  | timerRegister hn =>
    have hjs := hf.native.resolve_left (by simp [hn])
    exact ⟨[_], timers, callbacks, rfl,
      h.keep [_] rfl rfl rfl rfl (Sys.due_eq_of_inJs rfl hjs) id h.drained⟩
  | timerInsert hn =>
    have hjs := hf.native.resolve_left (by simp [hn])
    exact ⟨[], timers, callbacks, rfl,
      h.keep [] rfl rfl rfl rfl (Sys.due_eq_of_inJs rfl hjs) id h.drained⟩
  | nextScript hpc | scriptReturn hpc | enterLoop hpc | leaveLoop hpc | getFront hpc | build hpc
  | drained hpc =>
    refine ⟨[], timers, callbacks, rfl, h.keep [] rfl rfl rfl ?_ ?_ ?_ ?_⟩
    · simp [Sys.moving, Pc.waiting, hpc, EventLoop.addCallbackJob]
    · simp [Sys.due, hpc]
    · simp [hpc, Pc.inCallbacks]
    · simp [Pc.inCallbacks]
  | timerCall | startWorker | watcherChange =>
    exact ⟨[_], timers, callbacks, rfl, h.keep [_] rfl rfl rfl rfl rfl id h.drained⟩
  | _ => exact ⟨[], timers, callbacks, rfl, h.keep [] rfl rfl rfl rfl rfl id h.drained⟩

/-- In `runCallbacks` the queue of the timers is empty: only `updateTimers` fills it. -/
theorem Sys.Reachable.timersQueue_eq_nil {s : Sys} (h : s.Reachable)
    (hpc : s.pc.inCallbacks = true) : s.loop.timersQueue = [] := by
  induction h with
  | start h =>
    obtain ⟨ms, rfl⟩ := h
    rfl
  | tail hr hl ih =>
    cases hl with
    | timersDone _ hq => exact hq
    | invokeCallback hpc' => exact ih (by simp [hpc', Pc.inCallbacks])
    | callbackReturn hpc' => exact ih (by simp [hpc', Pc.inCallbacks])
    | nextScript | scriptReturn | timerReturn | enterLoop | leaveLoop | getFront | build | drained
    | invokeTimer | updateTime | moveTimer | updateDone => cases hpc
    | _ => exact ih hpc

/-! ## The result -/

/-- What a round has called, at any moment of it. -/
theorem Sys.Round.roundCalls {s s₁ s' : Sys} (h : s.Reachable) (hread : Step s .updateTime s₁)
    (hround : s₁.Round s') : ∃ since timers callbacks, s'.log = since ++ s.log ∧
      s'.RoundCalls (s.loop.heap.filter fun job => decide (job.timeOut ≤ toTimeT s.clock * 1000))
        since timers callbacks := by
  induction hround with
  | refl =>
    cases hread with
    | @updateTime head hpc hq hhead =>
      have hempty := Sys.Reachable.timersQueue_eq_nil h (by simp [hpc, Pc.inCallbacks])
      have hmoving : Sys.moving { s with
          pc := .updateTimers head, loop := s.loop.updateTime s.clock } = [] := hempty
      refine ⟨[], [], [], rfl, rfl, rfl, rfl, ?_, ?_, ?_, fun _ => rfl, by simp [Pc.inCallbacks]⟩
      · rw [hmoving]
        exact .refl _
      · rw [hmoving]
        exact .nil
      · rw [hmoving]
        simp
  | tail hs hl ih =>
    obtain ⟨l, hne, hl⟩ := hl
    obtain ⟨since, timers, callbacks, hlog, hcalls⟩ := ih
    have hr := Sys.Steps.reachable (Sys.Round.steps hs) (h.tail hread)
    obtain ⟨new, timers, callbacks, hnew, hcalls⟩ :=
      hl.roundCalls hne (Sys.Reachable.control hr) (Sys.Reachable.prepared hr) hcalls
    exact ⟨new ++ since, timers, callbacks, by rw [hnew, hlog, append_assoc], hcalls⟩

/-- **The order of a round.** Between two readings of the clock by `updateTimers`, or from a reading
to the return of `Run`, whatever the other threads and the functions do, the functions called are
those of the timers that are due at the first reading, each once, in the order of their deadlines,
and then those of callback jobs. -/
theorem round_order {s s₁ s' : Sys} (h : s.Reachable) (hread : Step s .updateTime s₁)
    (hround : s₁.Round s') (hover : s'.RoundOver) : ∃ since timers callbacks,
      s'.log = since ++ s.log ∧
      (since.filterMap Event.invoked?).reverse = timers.map TimedJob.key ++ callbacks ∧
      (since.filterMap Event.timer?).reverse = timers ∧
      (since.filterMap Event.callbackInvoked?).reverse = callbacks ∧
      timers.Perm (s.loop.heap.filter fun job => decide (job.timeOut ≤ toTimeT s.clock * 1000)) ∧
      timers.Pairwise fun a b => a.timeOut ≤ b.timeOut := by
  obtain ⟨since, timers, callbacks, hlog, hcalls⟩ := hround.roundCalls h hread
  have hr := Sys.Steps.reachable (Sys.Round.steps hround) (h.tail hread)
  obtain ⟨hmoving, hdue⟩ : s'.moving = [] ∧ s'.due = [] := by
    rcases hover with ⟨hpc, -⟩ | hpc
    · have hempty := hcalls.drained (by simp [hpc, Pc.inCallbacks])
      simp [Sys.moving, Pc.waiting, Sys.due, hpc, hempty]
    · have hempty := (Sys.empty_of_pending (Sys.Reachable.quiet hr hpc)).2.1
      simp [Sys.moving, Pc.waiting, Sys.due, hpc, hempty]
  have hperm := hcalls.due
  have hsorted := hcalls.sorted
  rw [hmoving, hdue, append_nil, append_nil] at hperm
  rw [hmoving, append_nil] at hsorted
  exact ⟨since, timers, callbacks, hlog, hcalls.invoked, hcalls.timers_eq, hcalls.callbacks_eq,
    hperm, hsorted⟩

/-- A timer that is due is the only one that the next round calls. -/
theorem round_order_timer : ∃ s s' : Sys, s.loop.heap = [oneInterval 2000] ∧ s.clock = 2000 ∧
    s'.RoundOver ∧ ∃ since, s'.log = since ++ s.log ∧
      (since.filterMap Event.timer?).reverse = [oneInterval 2000] := by
  have called := (((((Transition.Reachable.start ⟨1000, rfl⟩ : Sys.Reachable _).tail
    (.nextScript rfl)).tail (@Step.timerCall _ true (.user 0 0) [] 1000 rfl rfl)).tail
    (.timerRegister rfl)).tail (.timerInsert rfl)).tail (@Step.scriptReturn _ false rfl rfl)
  have waiting := (((called.tail (.enterLoop rfl rfl)).tail (.drained rfl rfl)).tail
    (.timersDone rfl rfl)).tail (@Step.tick _ 2000 (by decide))
  have ordered := fun (s' : Sys) hround (hover : s'.RoundOver) => round_order waiting
    (@Step.updateTime _ (some (oneInterval 2000)) rfl rfl ⟨.head _, oneInterval_top 2000⟩)
    hround hover
  obtain ⟨since, timers, callbacks, hlog, -, htimers, -, hperm, -⟩ := ordered _
    (.tail (.tail (.tail (.tail (.tail (.tail (.single ⟨_, by simp, @Step.moveTimer _ _ [] none rfl
      (by decide) ⟨.refl _, oneInterval_top 2000⟩ rfl⟩) ⟨_, by simp, .updateDone rfl (by simp)⟩)
      ⟨_, by simp, .enterLoop rfl rfl⟩) ⟨_, by simp, .drained rfl rfl⟩)
      ⟨_, by simp, .invokeTimer rfl rfl⟩) ⟨_, by simp, @Step.timerReturn _ false _ rfl rfl⟩)
      ⟨_, by simp, .timersDone rfl rfl⟩) (by exact .inl ⟨rfl, rfl⟩)
  exact ⟨_, _, rfl, rfl, .inl ⟨rfl, rfl⟩, since, hlog, htimers.trans (perm_singleton.1 hperm)⟩

end NanoJS
