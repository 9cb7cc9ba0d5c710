import NanoJS.Engine.Progress
import Mathlib.Data.Prod.Lex
import Mathlib.Order.RelClasses

/-!
# Moving the due timers

`EventLoop::updateTimers` as a function of the loop's state and the clock, over any implementation
of the priority queue (`Layout`). Its loop with the cached head drains the heap as long as the top
is due, so it splits the heap at the loop time (`updateTimers_splits`). `TimedJobComparator` is a
strict weak order, but on equal deadlines it shows the job that was created last: jobs with equal
deadlines keep their order only when they were created in the same second
(`registrationOrder_iff`).
-/

namespace NanoJS

open PriorityQueue

/-! ## The comparator -/

/-- The keys of the comparator, earliest deadline first and then the last creation first. -/
def TimedJob.priority (job : TimedJob) : ℤ ×ₗ ℤ := toLex (job.timeOut, -job.startTime)

/-- The top has the least priority in this order. -/
theorem heapLess_iff (a b : TimedJob) : heapLess a b ↔ b.priority < a.priority := by
  simp only [heapLess, timedJobComparator, TimedJob.priority, Prod.Lex.toLex_lt_toLex]
  split_ifs <;> simp <;> omega

instance : IsStrictWeakOrder TimedJob heapLess where
  irrefl a := by simp [heapLess_iff]
  trans a b c hab hbc := by
    rw [heapLess_iff] at *
    exact hbc.trans hab
  incomp_trans a b c hab hbc := by
    simp only [heapLess_iff, not_lt] at *
    exact ⟨hab.1.trans hbc.1, hbc.2.trans hab.2⟩

instance : DecidableRel heapLess := fun a b =>
  inferInstanceAs (Decidable (timedJobComparator a b = true))

/-- There is an implementation of the heap. -/
instance : Inhabited (Layout heapLess) :=
  ⟨.scan heapLess (fun a => irrefl a) fun a b c => IsTrans.trans a b c⟩

/-- `a` comes before `b`: its deadline is earlier, or they are equal and it was created earlier. -/
def TimedJob.Before (a b : TimedJob) : Prop :=
  toLex (a.timeOut, a.startTime) < toLex (b.timeOut, b.startTime)

/-- The comparator tells which job comes before the other, but for two jobs with equal deadlines
from different seconds. -/
theorem heapLess_iff_before (a b : TimedJob) :
    (heapLess a b ↔ b.Before a) ↔ ¬(a.timeOut = b.timeOut ∧ a.startTime ≠ b.startTime) := by
  simp only [heapLess_iff, TimedJob.priority, TimedJob.Before, Prod.Lex.toLex_lt_toLex]
  omega

theorem timeOut_le_of_not_heapLess {a b : TimedJob} (h : ¬heapLess a b) :
    a.timeOut ≤ b.timeOut :=
  not_lt.1 fun hlt => h (heapLess_of_timeOut_lt a b hlt)

/-! ## The loop -/

namespace EventLoop

variable (q : Layout heapLess) (l : EventLoop)

/-- `getTopTimer`. The top of an empty heap is no job. -/
def getTopTimer : Option TimedJob := q.top l.heap

def removeJobFromTimersHeap : EventLoop := { l with heap := q.pop l.heap }

variable {q l} in
/-- A heap that shows a job is not empty. -/
theorem length_heap_ne_zero {job : TimedJob} (h : some job = l.getTopTimer q) :
    l.heap.length ≠ 0 := by
  intro hzero
  have htop := q.top_spec l.heap
  rw [← getTopTimer, ← h, List.length_eq_zero_iff.1 hzero] at htop
  exact absurd htop.1 (by simp)

/-- The loop of `updateTimers`, with its cached `head`. -/
def moveDue (l : EventLoop) (head : Option TimedJob) : EventLoop :=
  match head with
  | some job =>
    if l.heap.length ≠ 0 ∧ job.timeOut ≤ l.getLoopTime then
      let l' := (l.addTimedJob job).removeJobFromTimersHeap q
      moveDue l' (l'.getTopTimer q)
    else l
  | none => l
termination_by l.heap.length
decreasing_by
  have hpos : 0 < l.heap.length := by omega
  exact q.length_pop_lt hpos

/-- `updateTimers`, at a clock that reads `ms`. -/
def updateTimers (ms : ℕ) : EventLoop :=
  let l' := l.updateTime ms
  if l'.heap.length ≠ 0 then moveDue q l' (l'.getTopTimer q) else l'

/-- A job that the loop finds due. -/
def due (job : TimedJob) : Bool := job.timeOut ≤ l.getLoopTime

theorem due_iff {job : TimedJob} : l.due job = true ↔ job.timeOut ≤ l.getLoopTime :=
  decide_eq_true_iff

/-- The cached head is the top, so the loop drains the heap. -/
theorem moveDue_eq (l : EventLoop) (head : Option TimedJob) (hhead : head = l.getTopTimer q) :
    moveDue q l head =
      { l with
        heap := (q.drain l.due l.heap).1
        timersQueue := l.timersQueue ++ (q.drain l.due l.heap).2 } := by
  fun_induction moveDue q l head with
  | case1 l job hdue l' ih =>
    have hjob : l.due job = true := l.due_iff.2 hdue.2
    have hsame : l'.due = l.due := rfl
    rw [ih rfl, q.drain_take l.due l.heap hhead.symm hjob, hsame]
    simp [l', removeJobFromTimersHeap, addTimedJob]
  | case2 l job hdue =>
    have hne := length_heap_ne_zero hhead
    have hlate : ∀ j, q.top l.heap = some j → l.due j = false := by
      intro j hj
      rw [← getTopTimer, ← hhead] at hj
      cases hj
      exact Bool.eq_false_iff.2 fun h => hdue ⟨hne, l.due_iff.1 h⟩
    simp [q.drain_stop l.due l.heap hlate]
  | case3 l =>
    have hnone : ∀ j, q.top l.heap = some j → l.due j = false := by
      intro j hj
      rw [← getTopTimer, ← hhead] at hj
      cases hj
    simp [q.drain_stop l.due l.heap hnone]

/-- The jobs that the call moves. -/
def moved (ms : ℕ) : List TimedJob := (q.drain (l.updateTime ms).due l.heap).2

/-- **`updateTimers` drains the heap** into the queue, at the loop time that it reads first. -/
theorem updateTimers_eq (ms : ℕ) : l.updateTimers q ms =
    { l.updateTime ms with
      heap := (q.drain (l.updateTime ms).due l.heap).1
      timersQueue := l.timersQueue ++ l.moved q ms } := by
  unfold updateTimers moved
  dsimp only
  split
  · exact moveDue_eq q _ _ rfl
  · rename_i hzero
    have hnil : l.heap = [] := by simpa [updateTime] using hzero
    have hstop := q.drain_stop (l.updateTime ms).due l.heap fun j hj =>
      absurd (by rw [hnil]; rfl) (length_heap_ne_zero hj.symm)
    rw [hstop, List.append_nil]
    rfl

/-- What exceeds a due job in the heap is due. -/
theorem due_mono (a b : TimedJob) (h : ¬heapLess a b) (hb : l.due b = true) : l.due a = true := by
  rw [due_iff] at *
  exact (timeOut_le_of_not_heapLess h).trans hb

/-- The jobs that are moved are the due ones of the heap. -/
theorem moved_perm (ms : ℕ) : (l.moved q ms).Perm (l.heap.filter (l.updateTime ms).due) :=
  q.drain_filter _ _ (l.updateTime ms).due_mono

theorem mem_moved {ms : ℕ} {job : TimedJob} :
    job ∈ l.moved q ms ↔ job ∈ l.heap ∧ job.timeOut ≤ toTimeT ms * 1000 := by
  rw [(l.moved_perm q ms).mem_iff, List.mem_filter, due_iff]
  rfl

/-- A job that is moved later does not come before an earlier one in the heap's order. -/
theorem moved_sorted (ms : ℕ) : (l.moved q ms).Pairwise fun a b => ¬heapLess a b :=
  q.drain_sorted _ _

end EventLoop

/-! ## The steps of the loop thread -/

theorem Sys.Steps.moveDue (q : Layout heapLess) (s : Sys) (l : EventLoop) (head : Option TimedJob)
    (hhead : head = l.getTopTimer q) :
    Sys.Steps { s with pc := .updateTimers head, loop := l }
      { s with pc := .loopHead, loop := l.moveDue q head } := by
  fun_induction EventLoop.moveDue q l head with
  | case1 l job hdue l' ih =>
    have htop : q.top l.heap = some job := hhead.symm
    refine .head ⟨.moveTimer, ?_⟩ (ih rfl)
    exact .moveTimer rfl hdue.2 (q.pop_pop htop) (q.top_spec _)
  | case2 l job hdue =>
    refine .single ⟨.updateDone, .updateDone rfl ?_⟩
    rintro _ ⟨⟩
    have hne := EventLoop.length_heap_ne_zero hhead
    exact not_le.1 fun hle => hdue ⟨hne, hle⟩
  | case3 l => exact .single ⟨.updateDone, .updateDone rfl (by simp)⟩

/-- **The loop thread executes `updateTimers`**: from the end of `runCallbacks` its steps lead to
the head of the loop, with the state that the function returns. -/
theorem Sys.Steps.updateTimers (q : Layout heapLess) (s : Sys) (hpc : s.pc = .runCallbacks)
    (hq : s.loop.callbackQueue = []) :
    Sys.Steps s { s with pc := .loopHead, loop := s.loop.updateTimers q s.clock } := by
  refine .head ⟨.updateTime, .updateTime hpc hq (q.top_spec _)⟩ ?_
  have hmoves := Sys.Steps.moveDue q s (s.loop.updateTime s.clock) _ rfl
  rw [s.loop.updateTimers_eq q]
  rw [EventLoop.moveDue_eq q _ _ rfl] at hmoves
  exact hmoves

/-! ## Results -/

/-- **`updateTimers` splits the heap at the loop time.** With `T` the whole seconds of the clock,
in milliseconds, every job left in the heap is due after `T`; the jobs moved behind the old contents
of the queue are the jobs of the heap that are due at `T`, each once, in the order of their
deadlines; and no job is lost. The call changes nothing else but the loop time. -/
theorem updateTimers_splits (q : Layout heapLess) (l : EventLoop) (ms : ℕ) :
    ∃ moved, (l.updateTimers q ms).timersQueue = l.timersQueue ++ moved ∧
      (∀ job ∈ (l.updateTimers q ms).heap, toTimeT ms * 1000 < job.timeOut) ∧
      moved.Perm (l.heap.filter fun job => job.timeOut ≤ toTimeT ms * 1000) ∧
      moved.Pairwise (fun a b => a.timeOut ≤ b.timeOut) ∧
      l.heap.Perm ((l.updateTimers q ms).heap ++ moved) ∧
      l.updateTimers q ms =
        { l with
          currentTime := toTimeT ms * 1000
          heap := (l.updateTimers q ms).heap
          timersQueue := l.timersQueue ++ moved } := by
  refine ⟨l.moved q ms, ?_, ?_, l.moved_perm q ms, ?_, ?_, ?_⟩
  · rw [EventLoop.updateTimers_eq]
  · intro job hj
    rw [EventLoop.updateTimers_eq] at hj
    have hlate := q.drain_left _ _ (l.updateTime ms).due_mono hj
    exact not_le.1 fun hle => Bool.eq_false_iff.1 hlate ((EventLoop.due_iff _).2 hle)
  · exact (l.moved_sorted q ms).imp timeOut_le_of_not_heapLess
  · rw [EventLoop.updateTimers_eq]
    exact q.drain_perm _ _
  · rw [EventLoop.updateTimers_eq]
    rfl

/-- Jobs with equal deadlines stand in the order in which they were created. -/
def InRegistrationOrder (jobs : List TimedJob) : Prop :=
  jobs.Pairwise fun a b => a.timeOut = b.timeOut → a.startTime ≤ b.startTime

/-- The heap shows the job that was created last, so the moved jobs stand in the order of their
creation only when equal deadlines go with equal seconds. -/
theorem inRegistrationOrder_moved (q : Layout heapLess) (l : EventLoop) (ms : ℕ) :
    InRegistrationOrder (l.moved q ms) ↔
      ∀ a ∈ l.heap, ∀ b ∈ l.heap, a.timeOut ≤ toTimeT ms * 1000 → a.timeOut = b.timeOut →
        a.startTime = b.startTime := by
  have hreversed : (l.moved q ms).Pairwise fun a b =>
      a.timeOut = b.timeOut → b.startTime ≤ a.startTime := by
    refine (l.moved_sorted q ms).imp fun {a b} hab heq => ?_
    simpa [heapLess, timedJobComparator, heq] using hab
  constructor
  · intro horder a ha b hb hdue heq
    have hequal : (l.moved q ms).Pairwise fun a b =>
        a.timeOut = b.timeOut → a.startTime = b.startTime :=
      (horder.and hreversed).imp fun {a b} h heq => le_antisymm (h.1 heq) (h.2 heq)
    have hall := hequal.forall_of_forall_of_flip (fun _ _ _ => rfl)
      (hequal.imp fun {a b} h heq => (h heq.symm).symm)
    exact hall ((l.mem_moved q).2 ⟨ha, hdue⟩) ((l.mem_moved q).2 ⟨hb, heq ▸ hdue⟩) heq
  · intro hequal
    refine List.pairwise_iff_forall_sublist.2 fun {a b} hab heq => ?_
    have ha := (l.mem_moved q).1 (hab.subset (by simp : a ∈ [a, b]))
    have hb := (l.mem_moved q).1 (hab.subset (by simp : b ∈ [a, b]))
    exact (hequal a ha.1 b hb.1 ha.2 heq).le

theorem EventLoop.drop_timersQueue (q : Layout heapLess) (l : EventLoop) (ms : ℕ) :
    (l.updateTimers q ms).timersQueue.drop l.timersQueue.length = l.moved q ms := by
  rw [updateTimers_eq, List.drop_left]

/-- **Equal deadlines keep the order of registration only within a second.** The comparator is a
strict weak order. It realises the order by deadline and then by creation, earliest first, on two
jobs exactly when they do not have equal deadlines and different seconds of creation; and the jobs
that `updateTimers` moves stand in that order exactly when no two due jobs of the heap have. -/
theorem registrationOrder_iff (q : Layout heapLess) (l : EventLoop) (ms : ℕ) (a b : TimedJob) :
    IsStrictWeakOrder TimedJob heapLess ∧
      ((heapLess a b ↔ b.Before a) ↔ ¬(a.timeOut = b.timeOut ∧ a.startTime ≠ b.startTime)) ∧
      (InRegistrationOrder ((l.updateTimers q ms).timersQueue.drop l.timersQueue.length) ↔
        ∀ a ∈ l.heap, ∀ b ∈ l.heap, a.timeOut ≤ toTimeT ms * 1000 → a.timeOut = b.timeOut →
          a.startTime = b.startTime) := by
  refine ⟨inferInstance, heapLess_iff_before a b, ?_⟩
  rw [EventLoop.drop_timersQueue]
  exact inRegistrationOrder_moved q l ms

/-- A timer of two seconds, set at 1000 ms, and one of a second, set at 2000 ms: both are due at
3000 ms, and the second one is moved first, however the heap is laid out. -/
theorem registrationOrder_reversed : ∃ s : Sys, s.Reachable ∧ s.pc = .runCallbacks ∧
    s.loop.callbackQueue = [] ∧
    ∀ q, ¬InRegistrationOrder
      ((s.loop.updateTimers q s.clock).timersQueue.drop s.loop.timersQueue.length) := by
  have first := (((((Transition.Reachable.start ⟨1000, rfl⟩ : Sys.Reachable _).tail
    (.nextScript rfl)).tail (@Step.timerCall _ false (.user 0 0) [] 2000 rfl rfl)).tail
    (.timerRegister rfl)).tail (.timerInsert rfl)).tail (@Step.tick _ 2000 (by decide))
  have second := (((first.tail (@Step.timerCall _ false (.user 1 1) [] 1000 rfl rfl)).tail
    (.timerRegister rfl)).tail (.timerInsert rfl)).tail (@Step.scriptReturn _ false rfl rfl)
  have due := (((second.tail (.enterLoop rfl rfl)).tail (.drained rfl rfl)).tail
    (.timersDone rfl rfl)).tail (@Step.tick _ 3000 (by decide))
  refine ⟨_, due, rfl, rfl, fun q horder => ?_⟩
  rw [EventLoop.drop_timersQueue, inRegistrationOrder_moved] at horder
  have hsame := horder _ (.head _) _ (.tail _ (.head _)) (by decide) (by decide)
  exact absurd hsame (by decide)

end NanoJS
