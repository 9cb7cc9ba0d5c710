import NanoJS.Engine.Delivery

/-!
# The loop comes round

While a message or a callback is waiting, the loop thread can make a step (`Sys.can_step`), and
each step that neither builds a message nor calls a callback brings it closer to one that does
(`Step.distance_lt`): to the callback queue when a callback is waiting, else to the messages. On
the way it runs the timers that are due, which may put an interval back into the heap.
-/

namespace NanoJS

open PriorityQueue

/-! ## What is waiting -/

/-- The callback jobs that are not invoked yet. -/
def Pc.queued : Pc → List CallbackJob → List CallbackJob
  | .inCallback _, queue => queue.tail
  | _, queue => queue

theorem Sys.Control.queued_append {s : Sys} (hf : s.Control) (job : CallbackJob) :
    s.pc.queued (s.loop.callbackQueue ++ [job]) =
      s.pc.queued s.loop.callbackQueue ++ [job] := by
  cases hpc : s.pc with
  | inCallback front =>
    obtain ⟨rest, hq⟩ := hf.callback front hpc
    rw [hq]
    rfl
  | _ => rfl

/-- A message or a callback is waiting for the loop. -/
def Sys.Busy (s : Sys) : Prop :=
  s.pc.taken ≠ [] ∨ s.loop.mQu ≠ [] ∨ s.pc.queued s.loop.callbackQueue ≠ []

theorem Sys.Busy.pending_ne {s : Sys} (h : s.Busy) : s.pending ≠ 0 := by
  intro hp
  obtain ⟨hc, -, -, hm, ht, -⟩ := Sys.empty_of_pending hp
  have hqueued : s.pc.queued s.loop.callbackQueue = [] := by
    rw [hc]
    cases s.pc <;> rfl
  rcases h with h | h | h
  · exact h ht
  · exact h hm
  · exact h hqueued

/-! ## Data that the loop relies on -/

/-- The queued callbacks have arguments, and the head that `updateTimers` has cached is the top of
the heap. -/
structure Sys.Prepared (s : Sys) : Prop where
  args : ∀ job ∈ s.loop.callbackQueue, ∃ args, job.args = some args
  head : ∀ head, s.pc = .updateTimers head → Top heapLess s.loop.heap head

theorem Step.prepared {s s' : Sys} {l : Label} (h : Step s l s') (hf : s.Control)
    (hp : s.Prepared) : s'.Prepared := by
  obtain ⟨ha, hh⟩ := hp
  have hnative : ∀ head, s.pc = .updateTimers head → s.native = .idle := fun head hpc =>
    hf.native.resolve_right (by simp [hpc, Pc.inJs])
  cases h with
  | nextScript | scriptReturn | enterLoop | leaveLoop | getFront | drained | invokeTimer
  | timersDone | invokeCallback | updateDone => exact ⟨ha, fun _ hpc => by cases hpc⟩
  | timerReturn =>
    refine ⟨?_, fun _ hpc => by cases hpc⟩
    simp only [EventLoop.removeJob]
    split <;> exact ha
  | callbackReturn =>
    exact ⟨fun job hj => ha job (List.mem_of_mem_tail hj), fun _ hpc => by cases hpc⟩
  | timerInsert hn =>
    refine ⟨ha, fun head hpc => ?_⟩
    rw [hnative head hpc] at hn
    cases hn
  | build hpc =>
    refine ⟨List.forall_mem_append.2 ⟨ha, List.forall_mem_singleton.2 ⟨_, rfl⟩⟩, ?_⟩
    rintro _ ⟨⟩
  | deliver ht htask =>
    exact ⟨List.forall_mem_append.2 ⟨ha, List.forall_mem_singleton.2 ⟨_, rfl⟩⟩, hh⟩
  | updateTime hpc hq hhead | moveTimer hpc hdue hpop hhead =>
    refine ⟨ha, ?_⟩
    rintro head ⟨⟩
    exact hhead
  | _ => exact ⟨ha, hh⟩

theorem Sys.Reachable.prepared {s : Sys} (h : s.Reachable) : s.Prepared :=
  Transition.Reachable.invariant (I := Sys.Prepared)
    (by rintro _ ⟨ms, rfl⟩; exact ⟨by simp [initial, EventLoop.new], by simp [initial]⟩)
    (fun _ _ _ hr hp hl => hl.prepared (Reachable.control hr) hp) h

/-- The heap can show a top. -/
theorem exists_top (heap : List TimedJob) : ∃ head, Top heapLess heap head := by
  refine Top.exists (fun a => ?_) (fun a b c hab hbc => ?_) heap
  · simp [heapLess, timedJobComparator]
  · simp only [heapLess, timedJobComparator] at hab hbc ⊢
    split_ifs at hab hbc ⊢ <;> simp_all <;> omega

/-! ## The next step -/

/-- The steps of the loop thread, but for building a message and calling a callback, and for
starting jobs. -/
def Label.moves : Label → Bool
  | .nextScript | .timerRegister | .timerInsert | .jsReturn _ | .enterLoop | .leaveLoop
  | .getFront | .drained | .invokeTimer | .timersDone | .updateTime | .moveTimer
  | .updateDone => true
  | _ => false

/-- **The loop thread is never stuck**: while it executes JavaScript or something is waiting, it
can move, or JavaScript can return, or there is a message to build or a callback to call. -/
theorem Sys.can_step {s : Sys} (hp : s.Prepared) (hq : s.Quiet)
    (hb : s.pc.inJs = true ∨ s.Busy) :
    (∃ l s', l.moves = true ∧ (∀ threw, l ≠ .jsReturn threw) ∧ Step s l s') ∨
      (s.pc.inJs = true ∧ s.native = .idle) ∨ (∃ msg, s.pc = .build msg) ∨
      ∃ job rest args, s.pc = .runCallbacks ∧ s.loop.callbackQueue = job :: rest ∧
        job.args = some args := by
  have hjs : s.pc.inJs = true → (∃ l s', l.moves = true ∧ (∀ threw, l ≠ .jsReturn threw) ∧
      Step s l s') ∨ (s.pc.inJs = true ∧ s.native = .idle) := by
    intro hjs
    rcases hn : s.native with _ | job | job
    · exact .inr ⟨hjs, rfl⟩
    · exact .inl ⟨_, _, rfl, by simp, .timerRegister hn⟩
    · exact .inl ⟨_, _, rfl, by simp, .timerInsert hn⟩
  rcases hpc : s.pc with _ | _ | _ | _ | msg | _ | job | _ | job | head
  · rcases hb with hb | hb
    · simp [hpc, Pc.inJs] at hb
    · exact absurd (hq hpc) hb.pending_ne
  · exact (hjs (by rw [hpc]; rfl)).imp id fun h => .inl (hpc ▸ h)
  · rcases hstop : s.loop.shouldStop with _ | _
    · exact .inl ⟨_, _, rfl, by simp, .enterLoop hpc hstop⟩
    · exact .inl ⟨_, _, rfl, by simp, .leaveLoop hpc hstop⟩
  · rcases hm : s.loop.mQu with _ | ⟨msg, rest⟩
    · exact .inl ⟨_, _, rfl, by simp, .drained hpc hm⟩
    · exact .inl ⟨_, _, rfl, by simp, .getFront hpc hm⟩
  · exact .inr (.inr (.inl ⟨msg, rfl⟩))
  · rcases ht : s.loop.timersQueue with _ | ⟨job, rest⟩
    · exact .inl ⟨_, _, rfl, by simp, .timersDone hpc ht⟩
    · exact .inl ⟨_, _, rfl, by simp, .invokeTimer hpc ht⟩
  · exact (hjs (by rw [hpc]; rfl)).imp id fun h => .inl (hpc ▸ h)
  · rcases hc : s.loop.callbackQueue with _ | ⟨job, rest⟩
    · obtain ⟨head, hhead⟩ := exists_top s.loop.heap
      exact .inl ⟨_, _, rfl, by simp, .updateTime hpc hc hhead⟩
    · obtain ⟨args, hargs⟩ := hp.args job (hc ▸ List.mem_cons_self)
      exact .inr (.inr (.inr ⟨job, rest, args, rfl, rfl, hargs⟩))
  · exact (hjs (by rw [hpc]; rfl)).imp id fun h => .inl (hpc ▸ h)
  · by_cases hdue : ∃ job, head = some job ∧ job.timeOut ≤ s.loop.getLoopTime
    · obtain ⟨job, rfl, hdue⟩ := hdue
      obtain ⟨heap, hpop⟩ := (hp.head _ hpc).pop
      obtain ⟨head, hhead⟩ := exists_top heap
      exact .inl ⟨_, _, rfl, by simp, .moveTimer hpc hdue hpop hhead⟩
    · refine .inl ⟨_, _, rfl, by simp, .updateDone hpc fun job hj => ?_⟩
      exact not_le.1 fun h => hdue ⟨job, hj, h⟩

/-! ## The distance -/

/-- The steps left in `setTimeOut` or `setInterval`. -/
def Native.cost : Native → ℕ
  | .idle => 0
  | .created _ => 3
  | .registered _ => 2

/-- A bound on the steps to the callback queue, with `heap` timers in the heap, `queue` in the
timers' queue, and `js` steps left in the JavaScript being executed. -/
def Pc.toCallbacks (heap queue js : ℕ) : Pc → ℕ
  | .start | .runCallbacks => 0
  | .inCallback _ => 1 + js
  | .runTimers => 1 + 3 * queue
  | .inTimer _ => 3 * queue + js
  | .build _ => 2 + 3 * queue
  | .drain => 3 + 3 * queue
  | .loopHead => 4 + 3 * queue
  | .script => 5 + 3 * queue + js
  | .updateTimers _ => 5 + 3 * queue + 4 * heap

/-- A bound on the steps to the messages. -/
def Pc.toMessages (heap queue js : ℕ) : Pc → ℕ
  | .start | .build _ => 0
  | .drain => 1
  | .loopHead => 2
  | .script => 3 + js
  | .updateTimers _ => 3 + heap
  | .runCallbacks => 4 + heap
  | .inCallback _ => 5 + heap + js
  | .runTimers => 5 + heap + 4 * queue
  | .inTimer _ => 4 + heap + 4 * queue + js

/-- A bound on the moves before a message is built or a callback is called. `closure` steps are
left in a closure of `App.js`. -/
def Sys.distance (s : Sys) (closure : ℕ) : ℕ :=
  if s.pc.queued s.loop.callbackQueue = [] then
    s.pc.toMessages s.loop.heap.length s.loop.timersQueue.length (s.native.cost + closure)
  else s.pc.toCallbacks s.loop.heap.length s.loop.timersQueue.length (s.native.cost + closure)

/-- A step that leaves what is waiting shortens the distance when it shortens the way to the
callback queue, if a callback is waiting, or else to the messages. -/
theorem Sys.distance_lt_of {s s' : Sys} {closure closure' : ℕ}
    (hq : s'.pc.queued s'.loop.callbackQueue = s.pc.queued s.loop.callbackQueue)
    (hc : s.pc.queued s.loop.callbackQueue ≠ [] →
      s'.pc.toCallbacks s'.loop.heap.length s'.loop.timersQueue.length
          (s'.native.cost + closure') <
        s.pc.toCallbacks s.loop.heap.length s.loop.timersQueue.length (s.native.cost + closure))
    (hm : s.pc.queued s.loop.callbackQueue = [] →
      s'.pc.toMessages s'.loop.heap.length s'.loop.timersQueue.length
          (s'.native.cost + closure') <
        s.pc.toMessages s.loop.heap.length s.loop.timersQueue.length (s.native.cost + closure)) :
    s'.distance closure' < s.distance closure := by
  rw [distance, distance, hq]
  split
  · exact hm ‹_›
  · exact hc ‹_›

/-- A step of `setTimeOut` or `setInterval` shortens both ways, also when it adds a timer to the
heap. -/
theorem Pc.inJs_lt {pc : Pc} (hjs : pc.inJs = true) (queue : ℕ) {heap heap' js js' : ℕ}
    (h : heap' + js' < heap + js) (hlt : js' < js) :
    pc.toCallbacks heap' queue js' < pc.toCallbacks heap queue js ∧
      pc.toMessages heap' queue js' < pc.toMessages heap queue js := by
  cases pc <;> simp only [toCallbacks, toMessages] <;> first | omega | cases hjs

/-- A closure that starts a thread has one step less before it. -/
theorem Step.startWorker_distance {s s' : Sys} {func : Closure} {task : Task}
    (h : Step s (.startWorker func task) s') : s'.distance 0 < s.distance 1 := by
  cases h with
  | startWorker hjs hn =>
    have hlt := Pc.inJs_lt hjs s.loop.timersQueue.length
      (Nat.lt_succ_self (s.loop.heap.length + s.native.cost)) (Nat.lt_succ_self s.native.cost)
    exact Sys.distance_lt_of rfl (fun _ => hlt.1) fun _ => hlt.2

/-- **A move of the loop thread shortens the distance**, while something is waiting. -/
theorem Step.distance_lt {s s' : Sys} {l : Label} (h : Step s l s') (hl : l.moves = true)
    (hf : s.Control) (ha : s.Accounted) (hq : s.Quiet) (hb : s.pc.inJs = true ∨ s.Busy) :
    s'.distance 0 < s.distance 0 := by
  have hbusy : s.pc.inJs = false → s.Busy := fun hjs => hb.resolve_left (by simp [hjs])
  have hidle : s.pc.inJs = false → s.native = .idle := fun hjs =>
    hf.native.resolve_right (by simp [hjs])
  cases h with
  | nextScript hpc => exact absurd (hq hpc) (hbusy (by rw [hpc]; rfl)).pending_ne
  | leaveLoop hpc hstop =>
    have hzero : s.pending = 0 := by
      have h₁ := ha.count
      have h₂ := ha.stop.1 hstop
      omega
    exact absurd hzero (hbusy (by rw [hpc]; rfl)).pending_ne
  | timerRegister hn =>
    have hlt := Pc.inJs_lt (hf.native.resolve_left (by simp [hn])) s.loop.timersQueue.length
      (Nat.add_lt_add_left (Nat.lt_succ_self 2) s.loop.heap.length) (Nat.lt_succ_self 2)
    exact Sys.distance_lt_of rfl (fun _ => by rw [hn]; exact hlt.1) fun _ => by
      rw [hn]; exact hlt.2
  | timerInsert hn =>
    have hlt := Pc.inJs_lt (hf.native.resolve_left (by simp [hn])) s.loop.timersQueue.length
      (Nat.lt_succ_self (s.loop.heap.length + 1)) (Nat.zero_lt_succ 1)
    exact Sys.distance_lt_of rfl (fun _ => by rw [hn]; exact hlt.1) fun _ => by
      rw [hn]; exact hlt.2
  | scriptReturn hpc hn =>
    refine Sys.distance_lt_of (by rw [hpc]; rfl) (fun _ => ?_) fun _ => ?_ <;>
    · simp only [hpc, hn, Pc.toCallbacks, Pc.toMessages, Native.cost]
      omega
  | @timerReturn _ job hpc hn =>
    obtain ⟨rest, ht⟩ := hf.timer job hpc
    cases hi : job.isInterval <;>
    refine Sys.distance_lt_of (by simp [hpc, hi, Pc.queued, EventLoop.removeJob,
        EventLoop.addJobToTimersHeap, EventLoop.withdrawJob]) (fun _ => ?_) fun _ => ?_ <;>
    · simp only [hpc, hn, ht, hi, Pc.toCallbacks, Pc.toMessages, Native.cost, EventLoop.removeJob,
        EventLoop.addJobToTimersHeap, EventLoop.withdrawJob, List.tail_cons, List.length_cons,
        Bool.false_eq_true, if_false, if_true]
      omega
  | callbackReturn hpc hn =>
    refine Sys.distance_lt_of (by rw [hpc]; rfl) (fun _ => ?_) fun _ => ?_ <;>
    · simp only [hpc, hn, Pc.toCallbacks, Pc.toMessages, Native.cost, EventLoop.removeJob,
        EventLoop.withdrawJob]
      omega
  | enterLoop hpc | getFront hpc | updateDone hpc =>
    refine Sys.distance_lt_of (by rw [hpc]; rfl) (fun _ => ?_) fun _ => ?_ <;>
    · simp only [hpc, Pc.toCallbacks, Pc.toMessages]
      omega
  | drained hpc hm =>
    have hwait : s.pc.queued s.loop.callbackQueue ≠ [] := by
      rcases hbusy (by rw [hpc]; rfl) with h | h | h
      · exact absurd (by rw [hpc]; rfl) h
      · exact absurd hm h
      · exact h
    refine Sys.distance_lt_of (by rw [hpc]; rfl) (fun _ => ?_) fun h => absurd h hwait
    simp only [hpc, Pc.toCallbacks]
    omega
  | invokeTimer hpc ht =>
    refine Sys.distance_lt_of (by rw [hpc]; rfl) (fun _ => ?_) fun _ => ?_ <;>
    · simp only [hpc, hidle (by rw [hpc]; rfl), Pc.toCallbacks, Pc.toMessages, Native.cost]
      omega
  | timersDone hpc ht =>
    refine Sys.distance_lt_of (by rw [hpc]; rfl) (fun _ => ?_) fun _ => ?_ <;>
    · simp only [hpc, Pc.toCallbacks, Pc.toMessages]
      omega
  | updateTime hpc hc hhead =>
    refine Sys.distance_lt_of (by rw [hpc]; rfl) (fun h => absurd (by rw [hpc, hc]; rfl) h)
      fun _ => ?_
    simp only [hpc, Pc.toMessages, EventLoop.updateTime]
    omega
  | moveTimer hpc hdue hpop hhead =>
    have hlen := hpop.length
    refine Sys.distance_lt_of (by rw [hpc]; rfl) (fun _ => ?_) fun _ => ?_ <;>
    · simp only [hpc, Pc.toCallbacks, Pc.toMessages, EventLoop.addTimedJob, List.length_append,
        List.length_singleton]
      omega
  | _ => cases hl

end NanoJS
