import NanoJS.Engine.Return
import NanoJS.Engine.RoundOrder

/-!
# Every job is served

In a fair run in which the functions return and the clock goes on, every registered job is called,
and an interval again and again, whatever the scripts and the functions begin meanwhile
(`jobs_served`). Only two things have to come to an end (`Sys.putsOff`): callbacks that begin reads
and writes, whose threads add to `callbackQueue` while `runCallbacks` empties it, and changes of
watched files while `Run` empties `mQu`. Then every round ends: the loop thread goes through its
loops in one order, and the threads that are left to add to the loop it is in become fewer
(`Sys.roundLeft`).
-/

namespace NanoJS

open List Transition

/-! ## Steady runs -/

/-- Who makes a step; a watcher that posts a change carries its job as a worker does. -/
def Label.carrier : Label → Role
  | .watcherPost localJob _ => .worker localJob.id
  | l => l.role

/-- The loop thread is in the loop that empties `mQu`. -/
def Pc.inMessages : Pc → Bool
  | .drain | .build _ => true
  | _ => false

/-- The step gives a thread something that it may add to the loop that the loop thread is in. -/
def Sys.putsOff (s : Sys) : Label → Bool
  | .startWorker _ task => s.pc.inCallbacks && !task.posts
  | .watcherChange .. => s.pc.inMessages
  | _ => false

/-- A fair run in which the functions return and the clock goes on, and in which nothing is put off
from the moment `n₀` on. -/
structure Steady (r : Run Step) (n₀ : ℕ) : Prop where
  reachable : (r.state 0).Reachable
  fair : r.Fair Label.carrier
  returns : ∀ n, (r.state n).pc.inJs = true → ∃ m, n ≤ m ∧ (r.state m).pc.inJs = false
  clock : ∀ t, ∃ n, t ≤ (r.state n).clock
  calm : ∀ n l, n₀ ≤ n → r.label n = some l → (r.state n).putsOff l = false

/-! ## What is left of a round -/

/-- The loops that the loop thread has before it, until it reads the clock. -/
def Pc.legs : Pc → ℕ
  | .script => 5
  | .updateTimers _ => 4
  | .loopHead => 3
  | .drain | .build _ => 2
  | .runTimers | .inTimer _ => 1
  | .start | .runCallbacks | .inCallback _ => 0

/-- The thread has a message to post. -/
def Thread.posts : Thread → Bool
  | .worker _ task => task.posts
  | .watcher .. => false
  | .posting .. => true

/-- The thread has a callback job to add. -/
def Thread.delivers : Thread → Bool
  | .worker _ task => !task.posts
  | _ => false

/-- The messages, with those that the threads will post. -/
def Sys.messagesLeft (s : Sys) : ℕ :=
  2 * s.loop.mQu.length + 3 * s.threads.countP Thread.posts

/-- The callbacks, with those that the threads will add. -/
def Sys.callbacksLeft (s : Sys) : ℕ :=
  2 * s.loop.callbackQueue.length + 3 * s.threads.countP Thread.delivers

/-- What is left of the loop that the loop thread is in. -/
def Sys.leg (s : Sys) : ℕ :=
  match s.pc with
  | .updateTimers _ => s.loop.heap.length
  | .drain => s.messagesLeft
  | .build _ => s.messagesLeft + 1
  | .runTimers => 2 * s.loop.timersQueue.length
  | .inTimer _ => 2 * s.loop.timersQueue.length - 1
  | .runCallbacks => s.callbacksLeft
  | .inCallback _ => s.callbacksLeft - 1
  | _ => 0

/-- The loops first, then what is left of this one. -/
def Sys.roundLeft (s : Sys) : ℕ ×ₗ ℕ := toLex (s.pc.legs, s.leg)

variable {s s' : Sys} {l : Label}

theorem Sys.roundLeft_lt (h : s'.pc.legs < s.pc.legs ∨ s'.pc.legs = s.pc.legs ∧ s'.leg < s.leg) :
    s'.roundLeft < s.roundLeft :=
  Prod.Lex.toLex_lt_toLex.2 h

/-- While the loop thread stays where it is, only what concerns its loop counts. -/
theorem Sys.roundLeft_le (hpc : s'.pc = s.pc)
    (hheap : s.pc.inJs = false → s'.loop.heap = s.loop.heap)
    (htimers : s'.loop.timersQueue = s.loop.timersQueue)
    (hmessages : s.pc.inMessages = true → s'.messagesLeft ≤ s.messagesLeft)
    (hcallbacks : s.pc.inCallbacks = true → s'.callbacksLeft ≤ s.callbacksLeft) :
    s'.roundLeft ≤ s.roundLeft := by
  refine Prod.Lex.toLex_le_toLex.2 (.inr ⟨by rw [hpc], ?_⟩)
  simp only [leg, hpc]
  cases hcase : s.pc with
  | updateTimers => exact (congrArg length (hheap (by rw [hcase]; rfl))).le
  | runTimers | inTimer => simp only [htimers, le_refl]
  | drain | build => simpa using hmessages (by rw [hcase]; rfl)
  | runCallbacks => exact hcallbacks (by rw [hcase]; rfl)
  | inCallback => exact Nat.sub_le_sub_right (hcallbacks (by rw [hcase]; rfl)) 1
  | _ => exact le_rfl

/-- **What a step does to the rest of the round.** -/
theorem Step.roundLeft (h : Step s l s') (hf : s.Control) (hcalm : s.putsOff l = false)
    (hne : s.pc ≠ .start) :
    l = .updateTime ∨ s'.pc = .start ∨ s'.roundLeft < s.roundLeft ∨
      s'.roundLeft ≤ s.roundLeft ∧ s'.pc = s.pc ∧ (l.carrier = .loop → s.pc.inJs = true) := by
  cases h with
  | tick => exact .inr (.inr (.inr ⟨le_rfl, rfl, by simp [Label.carrier, Label.role]⟩))
  | nextScript hpc => exact absurd hpc hne
  | timerCall hjs => exact .inr (.inr (.inr ⟨le_rfl, rfl, fun _ => hjs⟩))
  | timerRegister hn | timerInsert hn =>
    have hjs := hf.native.resolve_left (by simp [hn])
    refine .inr (.inr (.inr ⟨Sys.roundLeft_le rfl ?_ rfl (fun _ => le_rfl) fun _ => le_rfl, rfl,
      fun _ => hjs⟩))
    simp [hjs]
  | @startWorker func task hjs hn =>
    refine .inr (.inr (.inr ⟨Sys.roundLeft_le rfl (fun _ => rfl) rfl (fun h => ?_) (fun h => ?_),
      rfl, fun _ => hjs⟩))
    · cases hpc : s.pc <;> simp [hpc, Pc.inJs, Pc.inMessages] at hjs h
    · have htask : task.posts = true := by simpa [Sys.putsOff, h] using hcalm
      simp [Sys.callbacksLeft, EventLoop.registerJob, Thread.delivers, htask]
  | watchFile hjs hn =>
    refine .inr (.inr (.inr ⟨Sys.roundLeft_le rfl (fun _ => rfl) rfl (fun _ => ?_) (fun _ => ?_),
      rfl, fun _ => hjs⟩))
    · simp [Sys.messagesLeft, EventLoop.registerJob, Thread.posts]
    · simp [Sys.callbacksLeft, EventLoop.registerJob, Thread.delivers]
  | scriptReturn hpc | enterLoop hpc | drained hpc | timersDone hpc | updateDone hpc =>
    exact .inr (.inr (.inl (Sys.roundLeft_lt (.inl (by simp [hpc, Pc.legs])))))
  | leaveLoop => exact .inr (.inl rfl)
  | updateTime => exact .inl rfl
  | @timerReturn _ job hpc =>
    obtain ⟨rest, hq⟩ := hf.timer job hpc
    refine .inr (.inr (.inl (Sys.roundLeft_lt (.inr ⟨by simp [hpc, Pc.legs], ?_⟩))))
    cases hi : job.isInterval <;>
    · simp only [Sys.leg, hpc, hq, hi, EventLoop.removeJob, EventLoop.withdrawJob,
        EventLoop.addJobToTimersHeap, Bool.false_eq_true, if_false, if_true, tail_cons, length_cons]
      omega
  | @callbackReturn _ job hpc =>
    obtain ⟨rest, hq⟩ := hf.callback job hpc
    refine .inr (.inr (.inl (Sys.roundLeft_lt (.inr ⟨by simp [hpc, Pc.legs], ?_⟩))))
    simp only [Sys.leg, Sys.callbacksLeft, hpc, hq, EventLoop.removeJob, EventLoop.withdrawJob,
      tail_cons, length_cons]
    omega
  | getFront hpc hq =>
    refine .inr (.inr (.inl (Sys.roundLeft_lt (.inr ⟨by simp [hpc, Pc.legs], ?_⟩))))
    simp only [Sys.leg, Sys.messagesLeft, hpc, hq, length_cons]
    omega
  | build hpc =>
    refine .inr (.inr (.inl (Sys.roundLeft_lt (.inr ⟨by simp [hpc, Pc.legs], ?_⟩))))
    simp [Sys.leg, Sys.messagesLeft, hpc, EventLoop.addCallbackJob]
  | invokeTimer hpc hq | invokeCallback hpc hq =>
    refine .inr (.inr (.inl (Sys.roundLeft_lt (.inr ⟨by simp [hpc, Pc.legs], ?_⟩))))
    simp only [Sys.leg, Sys.callbacksLeft, hpc, hq, length_cons]
    omega
  | moveTimer hpc hdue hpop hhead =>
    have hlen := hpop.length
    refine .inr (.inr (.inl (Sys.roundLeft_lt (.inr ⟨by simp [hpc, Pc.legs], ?_⟩))))
    simp only [Sys.leg, hpc]
    omega
  | deliver ht htask =>
    refine .inr (.inr (.inr ⟨Sys.roundLeft_le rfl (fun _ => rfl) rfl (fun _ => ?_) (fun _ => ?_),
      rfl, by simp [Label.carrier, Label.role]⟩))
    · simp [Sys.messagesLeft, EventLoop.addCallbackJob, Thread.posts, ht, htask]
    · simp only [Sys.callbacksLeft, EventLoop.addCallbackJob, Thread.delivers, ht, htask,
        countP_append, countP_cons, length_append, length_cons, length_nil, Bool.not_false, if_true]
      omega
  | post ht htask =>
    refine .inr (.inr (.inr ⟨Sys.roundLeft_le rfl (fun _ => rfl) rfl (fun _ => ?_) (fun _ => ?_),
      rfl, by simp [Label.carrier, Label.role]⟩))
    · simp only [Sys.messagesLeft, EventLoop.addMsgJob, Thread.posts, ht, htask, countP_append,
        countP_cons, length_append, length_cons, length_nil, if_true]
      omega
    · simp [Sys.callbacksLeft, EventLoop.addMsgJob, Thread.delivers, ht, htask]
  | watcherChange ht =>
    refine .inr (.inr (.inr ⟨Sys.roundLeft_le rfl (fun _ => rfl) rfl (fun h => ?_) (fun _ => ?_),
      rfl, by simp [Label.carrier, Label.role]⟩))
    · simp [Sys.putsOff, h] at hcalm
    · simp [Sys.callbacksLeft, EventLoop.registerJob, Thread.delivers, ht]
  | watcherPost ht =>
    refine .inr (.inr (.inr ⟨Sys.roundLeft_le rfl (fun _ => rfl) rfl (fun _ => ?_) (fun _ => ?_),
      rfl, by simp [Label.carrier]⟩))
    · simp only [Sys.messagesLeft, EventLoop.addMsgJob, Thread.posts, ht, countP_append,
        countP_cons, length_append, length_cons, length_nil, if_true, Bool.false_eq_true, if_false]
      omega
    · simp [Sys.callbacksLeft, EventLoop.addMsgJob, Thread.delivers, ht]
  | watcherStop ht =>
    refine .inr (.inr (.inr ⟨Sys.roundLeft_le rfl (fun _ => rfl) rfl (fun _ => ?_) (fun _ => ?_),
      rfl, by simp [Label.carrier, Label.role]⟩))
    · simp [Sys.messagesLeft, EventLoop.withdrawJob, Thread.posts, ht]
    · simp [Sys.callbacksLeft, EventLoop.withdrawJob, Thread.delivers, ht]

/-! ## How a job leaves its place -/

/-- A timer leaves the heap for the queue. -/
theorem Step.leaves_heap (h : Step s l s') {job : TimedJob} (hin : job ∈ s.loop.heap)
    (hout : job ∉ s'.loop.heap) :
    job ∈ s'.loop.timersQueue ∧ ∃ head, s'.pc = .updateTimers head := by
  cases h with
  | timerInsert => exact absurd (mem_cons_of_mem _ hin) hout
  | @timerReturn _ job' hpc =>
    cases hi : job'.isInterval <;>
    simp [EventLoop.removeJob, EventLoop.withdrawJob, EventLoop.addJobToTimersHeap, hi, hin] at hout
  | @moveTimer top heap head hpc hdue hpop hhead =>
    obtain rfl | hmem := mem_cons.1 (hpop.perm.mem_iff.1 hin)
    · exact ⟨mem_append_right _ mem_cons_self, head, rfl⟩
    · exact absurd hmem hout
  | _ => exact absurd hin hout

/-- A message leaves `mQu` to be built. -/
theorem Step.leaves_mQu (h : Step s l s') {msg : Message} (hin : msg ∈ s.loop.mQu)
    (hout : msg ∉ s'.loop.mQu) : s'.pc = .build msg := by
  cases h with
  | timerReturn =>
    simp only [EventLoop.removeJob] at hout
    split at hout <;> exact absurd hin hout
  | @getFront msg' rest hpc hq =>
    rw [hq] at hin
    obtain rfl | hmem := mem_cons.1 hin
    · rfl
    · exact absurd hmem hout
  | post | watcherPost => exact absurd (mem_append_left _ hin) hout
  | _ => exact absurd hin hout

/-- What a thread carries is added or posted. -/
theorem Step.leaves_carried (h : Step s l s') {k : JobKey} (hin : k ∈ s.carried.map CallbackJob.key)
    (hout : k ∉ s'.carried.map CallbackJob.key) :
    k ∈ s'.loop.callbackQueue.map CallbackJob.key ∨ k ∈ s'.loop.mQu.map (·.job.key) := by
  cases h with
  | startWorker =>
    refine absurd ?_ hout
    simp only [Sys.carried, flatMap_cons, map_append, mem_append]
    exact .inr hin
  | watchFile => exact absurd hin hout
  | deliver ht | post ht =>
    simp only [Sys.carried, Thread.carried, CallbackJob.key, EventLoop.addCallbackJob,
      EventLoop.addMsgJob, ht, flatMap_append, flatMap_cons, map_append, map_cons, map_nil,
      mem_append, mem_singleton] at hin hout ⊢
    tauto
  | watcherPost ht =>
    simp only [Sys.carried, Thread.carried, EventLoop.addMsgJob, ht, flatMap_append, flatMap_cons,
      map_append, map_cons, map_nil, mem_append, mem_singleton, not_mem_nil, false_or]
      at hin hout ⊢
    tauto
  | watcherChange ht | watcherStop ht =>
    simp only [Sys.carried, Thread.carried, ht, flatMap_append, flatMap_cons, map_append, map_cons,
      map_nil, mem_append, not_mem_nil, false_or] at hin hout
    tauto
  | _ => exact absurd hin hout

/-- A timer that is registered is inserted into the heap. -/
theorem Step.leaves_native (h : Step s l s') {job : TimedJob} (hin : s.native = .registered job)
    (hout : s'.native ≠ .registered job) : job ∈ s'.loop.heap := by
  cases h with
  | timerCall hjs hn | timerRegister hn =>
    rw [hin] at hn
    cases hn
  | timerInsert hn =>
    rw [hin] at hn
    cases hn
    exact mem_cons_self
  | _ => exact absurd hin hout

/-- An interval whose function has returned is in the heap. -/
theorem Step.leaves_inTimer (h : Step s l s') {job : TimedJob} (hi : job.isInterval = true)
    (hin : s.pc = .inTimer job) (hout : s'.pc ≠ .inTimer job) :
    ∃ job' ∈ s'.loop.heap, job'.key = job.key := by
  cases h with
  | timerReturn hpc =>
    rw [hin] at hpc
    cases hpc
    simp only [EventLoop.removeJob, hi, if_true, EventLoop.addJobToTimersHeap]
    exact ⟨_, mem_cons_self, by simp [TimedJob.key, hi]⟩
  | nextScript hpc | scriptReturn hpc | callbackReturn hpc | enterLoop hpc | leaveLoop hpc
  | getFront hpc | build hpc | drained hpc | invokeTimer hpc | timersDone hpc | invokeCallback hpc
  | updateTime hpc | moveTimer hpc | updateDone hpc =>
    rw [hin] at hpc
    cases hpc
  | _ => exact absurd hin hout

/-- A thread that carries a job can make a step; the loop thread does not notice. -/
theorem Sys.exists_delivery {job : CallbackJob} (h : job ∈ s.carried) :
    ∃ l s', l.carrier = .worker job.id ∧ Step s l s' ∧ s'.carried.length < s.carried.length ∧
      s'.pc = s.pc ∧ s'.native = s.native ∧ s'.log = s.log := by
  obtain ⟨t, ht, hcarries⟩ := mem_flatMap.1 h
  obtain ⟨pre, post, hthreads⟩ := append_of_mem ht
  cases t with
  | worker job' task =>
    obtain rfl := mem_singleton.1 hcarries
    cases htask : task.posts with
    | false =>
      refine ⟨_, _, rfl, @Step.deliver _ job task [] pre post hthreads htask, ?_, rfl, rfl, rfl⟩
      simp [carried, hthreads, Thread.carried]
    | true =>
      refine ⟨_, _, rfl, @Step.post _ job task [] pre post hthreads htask, ?_, rfl, rfl, rfl⟩
      simp [carried, hthreads, Thread.carried]
  | watcher => cases hcarries
  | posting job' path localJob =>
    obtain rfl := mem_singleton.1 hcarries
    refine ⟨_, _, rfl, @Step.watcherPost _ job' path job [] pre post hthreads, ?_, rfl, rfl, rfl⟩
    simp [carried, hthreads, Thread.carried]

theorem Sys.enabled_carrier {k : JobKey} (hk : k ∈ s.carried.map CallbackJob.key) :
    Enabled Step Label.carrier (.worker k.id) s := by
  obtain ⟨job, hjob, rfl⟩ := mem_map.1 hk
  obtain ⟨l, s', hl, hs, -⟩ := exists_delivery hjob
  exact ⟨l, s', hl, hs⟩

/-- A thread that makes its step adds or posts what it carries. -/
theorem Step.carrier_moves (h : Step s l s') {id : ℕ} (hl : l.carrier = .worker id) :
    ∃ job ∈ s.carried, job.id = id ∧ (job.key ∈ s'.loop.callbackQueue.map CallbackJob.key ∨
      job.key ∈ s'.loop.mQu.map (·.job.key)) := by
  cases h with
  | @deliver job task args pre post ht | @post job task objects pre post ht =>
    refine ⟨job, ?_, Role.worker.inj hl, ?_⟩
    · simp [Sys.carried, ht, Thread.carried]
    · simp [EventLoop.addCallbackJob, EventLoop.addMsgJob, CallbackJob.key]
  | @watcherPost job path localJob objects pre post ht =>
    refine ⟨localJob, ?_, Role.worker.inj hl, ?_⟩
    · simp [Sys.carried, ht, Thread.carried]
    · simp [EventLoop.addMsgJob]
  | _ => cases hl

/-! ## Every round ends -/

theorem Step.clock_le (h : Step s l s') : s.clock ≤ s'.clock := by
  cases h with
  | tick h => exact h
  | _ => exact le_rfl

theorem Label.carrier_loop : l.carrier = .loop ↔ l.role = .loop := by
  cases l <;> simp [carrier, role]

/-- In `timersQueue` a timer is ahead: only `updateTimers` fills the queue. -/
theorem Sys.Reachable.ahead_of_timersQueue (h : s.Reachable) {k : JobKey}
    (hk : k ∈ s.loop.timersQueue.map TimedJob.key) : k ∈ s.ahead := by
  have hbefore : s.pc.beforeTimers = true := by
    cases hpc : s.pc with
    | start =>
      rw [(Sys.empty_of_pending (Sys.Reachable.quiet h hpc)).2.1] at hk
      cases hk
    | runCallbacks | inCallback =>
      rw [Sys.Reachable.timersQueue_eq_nil h (by rw [hpc]; rfl)] at hk
      cases hk
    | _ => rfl
  simp only [Sys.ahead, hbefore, if_true, mem_append]
  exact .inl (.inl (.inr hk))

theorem Sys.ahead_of_callbackQueue {k : JobKey}
    (hk : k ∈ s.loop.callbackQueue.map CallbackJob.key) : k ∈ s.ahead := by
  simp only [ahead, mem_append]
  exact .inl (.inr hk)

theorem Sys.ahead_of_messages {k : JobKey} (hpc : s.pc.beforeMessages = true)
    (hk : k ∈ s.pc.taken.map (·.job.key) ∨ k ∈ s.loop.mQu.map (·.job.key)) : k ∈ s.ahead := by
  simp only [ahead, hpc, if_true, mem_append]
  exact .inr hk

/-- The job is called at the moment `n` or later. -/
def CalledFrom (r : Run Step) (n : ℕ) (k : JobKey) : Prop :=
  ∃ m, n ≤ m ∧ (r.state n).invoked.count k < (r.state m).invoked.count k

namespace Steady

variable {r : Run Step} {n₀ n m : ℕ}

theorem reachable_at (h : Steady r n₀) (n : ℕ) : (r.state n).Reachable :=
  r.invariant (I := Sys.Reachable) h.reachable (fun _ _ _ hr hs => hr.tail hs) n

/-- The loop thread can go on while it is not in JavaScript. -/
theorem enabled (h : Steady r n₀) (hjs : (r.state n).pc.inJs = false)
    (hne : (r.state n).pc ≠ .start) : Enabled Step Label.carrier .loop (r.state n) := by
  have hr := h.reachable_at n
  have hn := (Sys.Reachable.control hr).native.resolve_right (by simp [hjs])
  obtain ⟨l, s', hl, hs⟩ := Sys.exists_loopStep (Sys.Reachable.prepared hr) hn hne
  exact ⟨l, s', Label.carrier_loop.2 hl, hs.1⟩

/-- **Every round ends**, with a reading of the clock or with the return of `Run`. -/
theorem round_ends (h : Steady r n₀) :
    ∃ m, n₀ ≤ m ∧ (r.label m = some .updateTime ∨ (r.state m).pc = .start) := by
  refine r.eventually_of_descent Sys.roundLeft fun n hn hno => ?_
  by_contra hlow
  have hlow' : ∀ m, n ≤ m → ¬(r.state m).roundLeft < (r.state n).roundLeft :=
    fun m hm hlt => hlow ⟨m, hm, hlt⟩
  -- the loop thread does not go on then
  have hstep : ∀ m l, n ≤ m → r.label m = some l →
      (r.state m).roundLeft ≤ (r.state n).roundLeft →
        (r.state (m + 1)).roundLeft ≤ (r.state m).roundLeft ∧
          (r.state (m + 1)).pc = (r.state m).pc ∧
          (l.carrier = .loop → (r.state m).pc.inJs = true) := by
    intro m l hm hl hle
    have hm' : n ≤ m + 1 := hm.trans m.le_succ
    rcases (r.moves m l hl).roundLeft (Sys.Reachable.control (h.reachable_at m))
      (h.calm m l (hn.trans hm) hl) (fun hpc => hno m hm (.inr hpc)) with rfl | hpc | hlt | hstay
    · exact absurd (.inl hl) (hno m hm)
    · exact absurd (.inr hpc) (hno (m + 1) hm')
    · exact absurd (hlt.trans_le hle) (hlow' (m + 1) hm')
    · exact hstay
  have hstay : ∀ m, n ≤ m → (r.state m).roundLeft ≤ (r.state n).roundLeft ∧
      (r.state m).pc = (r.state n).pc := by
    intro m hm
    induction m, hm using Nat.le_induction with
    | base => exact ⟨le_rfl, rfl⟩
    | succ m hm ih =>
      rcases hl : r.label m with _ | l
      · rw [r.idle m hl]
        exact ih
      · obtain ⟨hle, hpc, -⟩ := hstep m l hm hl ih.1
        exact ⟨hle.trans ih.1, hpc.trans ih.2⟩
  cases hjs : (r.state n).pc.inJs with
  | true =>
    obtain ⟨m, hm, hreturned⟩ := h.returns n hjs
    rw [(hstay m hm).2, hjs] at hreturned
    cases hreturned
  | false =>
    obtain ⟨m, hm, l, hl, hloop⟩ := h.fair .loop n fun m hm =>
      h.enabled (by rw [(hstay m hm).2, hjs]) fun hpc => hno m hm (.inr hpc)
    have hjs' := (hstep m l hm hl (hstay m hm).1).2.2 hloop
    rw [(hstay m hm).2, hjs] at hjs'
    cases hjs'

/-- From any moment to the end of the round. -/
theorem round (h : Steady r n₀) (hn : n₀ ≤ n) : ∃ m, n ≤ m ∧ (r.state n).Round (r.state m) ∧
    (Step (r.state m) .updateTime (r.state (m + 1)) ∨ (r.state m).pc = .start) := by
  classical
  have hends := round_ends ({ h with calm := fun m l hm => h.calm m l (hn.trans hm) } : Steady r n)
  refine ⟨Nat.find hends, (Nat.find_spec hends).1, ?_, ?_⟩
  · suffices hround : ∀ m, n ≤ m → m ≤ Nat.find hends → (r.state n).Round (r.state m) from
      hround _ (Nat.find_spec hends).1 le_rfl
    intro m hnm
    induction m, hnm using Nat.le_induction with
    | base => exact fun _ => .refl
    | succ m hnm ih =>
      intro hm
      have hround := ih (Nat.le_of_succ_le hm)
      rcases hl : r.label m with _ | l
      · rw [r.idle m hl]
        exact hround
      · refine hround.tail ⟨l, ?_, r.moves m l hl⟩
        rintro rfl
        exact Nat.find_min hends hm ⟨hnm, .inl hl⟩
  · exact (Nat.find_spec hends).2.imp (fun hl => r.moves _ _ hl) id

/-! ## From its place to the call -/

theorem count_le (r : Run Step) (hnm : n ≤ m) (k : JobKey) :
    (r.state n).invoked.count k ≤ (r.state m).invoked.count k :=
  r.invariant_of_le (I := fun s => (r.state n).invoked.count k ≤ s.invoked.count k) le_rfl hnm
    fun s l s' hle hs => by
      obtain ⟨new, hnew⟩ := hs.log_suffix
      refine hle.trans ?_
      rw [Sys.invoked, Sys.invoked, ← hnew, filterMap_append, count_append]
      exact Nat.le_add_left _ _

variable {k : JobKey}

/-- A job that is ahead is called in this round. -/
theorem calls_ahead (h : Steady r n₀) (hn : n₀ ≤ n) (hk : k ∈ (r.state n).ahead)
    (hrun : (r.state n).pc.running ≠ some k) : CalledFrom r n k := by
  obtain ⟨m, hnm, hround, hend⟩ := h.round hn
  have hover : (r.state m).RoundOver := by
    refine hend.imp (fun hs => ?_) id
    generalize r.state (m + 1) = s' at hs
    cases hs with
    | updateTime hpc hq => exact ⟨hpc, hq⟩
  obtain ⟨since, hlog, hcalled⟩ := hround.calls (h.reachable_at n) hover
  refine ⟨m, hnm, ?_⟩
  have hpos := count_pos_iff.2 ((hcalled k hk).resolve_left hrun)
  rw [Sys.invoked, Sys.invoked, hlog, filterMap_append, count_append]
  omega

/-- While something is held, the clock is read again. -/
theorem reads (h : Steady r n₀) (hn : n₀ ≤ n) (hheld : ∀ m, n ≤ m → (r.state m).held ≠ []) :
    ∃ m, n ≤ m ∧ (∃ head, (r.state (m + 1)).pc = .updateTimers head) ∧
      (r.state (m + 1)).loop.getLoopTime = toTimeT (r.state m).clock * 1000 := by
  obtain ⟨m, hnm, -, hend⟩ := h.round hn
  have hs := hend.resolve_right fun hpc =>
    hheld m hnm (Sys.held_of_pending (Sys.Reachable.quiet (h.reachable_at m) hpc))
  refine ⟨m, hnm, ?_⟩
  generalize r.state (m + 1) = s' at hs
  cases hs with
  | updateTime => exact ⟨⟨_, rfl⟩, rfl⟩

/-- A call that is counted from a later moment. -/
theorem calls_of_le (hnm : n ≤ m) (h : CalledFrom r m k) : CalledFrom r n k := by
  obtain ⟨j, hj, hlt⟩ := h
  exact ⟨j, hnm.trans hj, (count_le r hnm k).trans_lt hlt⟩

/-- A timer in the heap is called: it is due in the end, unless it is moved before. -/
theorem calls_heap (h : Steady r n₀) (hn : n₀ ≤ n) {job : TimedJob}
    (hj : job ∈ (r.state n).loop.heap) : CalledFrom r n job.key := by
  rcases r.stays_or_leaves (P := fun s => job ∈ s.loop.heap) hj with
    hstays | ⟨m, hnm, hin, hout, l, hs⟩
  · obtain ⟨t, ht⟩ := exists_clock job.timeOut
    obtain ⟨n₁, hn₁⟩ := h.clock t
    have hheld : ∀ m, max n n₁ ≤ m → (r.state m).held ≠ [] := fun m hm =>
      ne_nil_of_mem (Sys.mem_held.2 (.inl (mem_map_of_mem (hstays m ((le_max_left _ _).trans hm)))))
    obtain ⟨m, hm, ⟨head, hpc⟩, htime⟩ := h.reads (hn.trans (le_max_left n n₁)) hheld
    have hnm : n ≤ m + 1 := ((le_max_left _ _).trans hm).trans m.le_succ
    have hclock : t ≤ (r.state m).clock :=
      r.invariant_of_le (I := fun s => t ≤ s.clock) hn₁ ((le_max_right _ _).trans hm)
        fun _ _ _ hle hs => hle.trans hs.clock_le
    have hdue : job.timeOut ≤ (r.state (m + 1)).loop.getLoopTime := htime ▸ ht _ hclock
    refine calls_of_le hnm (h.calls_ahead (hn.trans hnm) ?_ ?_)
    · simp only [Sys.ahead, Sys.due, hpc, mem_append]
      exact .inl (.inl (.inl (mem_map_of_mem
        (mem_filter.2 ⟨hstays (m + 1) hnm, decide_eq_true hdue⟩))))
    · simp [hpc, Pc.running]
  · have hnm' : n ≤ m + 1 := hnm.trans m.le_succ
    obtain ⟨hqueue, head, hpc⟩ := hs.leaves_heap hin hout
    refine calls_of_le hnm' (h.calls_ahead (hn.trans hnm') ?_ ?_)
    · exact Sys.Reachable.ahead_of_timersQueue (h.reachable_at _) (mem_map_of_mem hqueue)
    · simp [hpc, Pc.running]

/-- The job of a message is called. -/
theorem calls_mQu (h : Steady r n₀) (hn : n₀ ≤ n) {msg : Message}
    (hmsg : msg ∈ (r.state n).loop.mQu) : CalledFrom r n msg.job.key := by
  rcases r.stays_or_leaves (P := fun s => msg ∈ s.loop.mQu) hmsg with
    hstays | ⟨m, hnm, hin, hout, l, hs⟩
  · have hheld : ∀ m, n ≤ m → (r.state m).held ≠ [] := fun m hm =>
      ne_nil_of_mem (Sys.mem_held.2 (.inr (.inr (.inr (.inl (mem_map_of_mem (hstays m hm)))))))
    obtain ⟨m, hm, ⟨head, hpc⟩, -⟩ := h.reads hn hheld
    have hnm : n ≤ m + 1 := hm.trans m.le_succ
    refine calls_of_le hnm (h.calls_ahead (hn.trans hnm) ?_ ?_)
    · exact Sys.ahead_of_messages (by rw [hpc]; rfl) (.inr (mem_map_of_mem (hstays (m + 1) hnm)))
    · simp [hpc, Pc.running]
  · have hnm' : n ≤ m + 1 := hnm.trans m.le_succ
    have hpc := hs.leaves_mQu hin hout
    refine calls_of_le hnm' (h.calls_ahead (hn.trans hnm') ?_ ?_)
    · exact Sys.ahead_of_messages (by rw [hpc]; rfl) (.inl (by simp [hpc, Pc.taken]))
    · simp [hpc, Pc.running]

/-- The callback job that a thread carries is called. -/
theorem calls_carried (h : Steady r n₀) (hn : n₀ ≤ n)
    (hk : k ∈ (r.state n).carried.map CallbackJob.key) (hzero : (r.state n).invoked.count k = 0) :
    CalledFrom r n k := by
  have hdelivered : ∃ m, n ≤ m ∧ (k ∈ (r.state m).loop.callbackQueue.map CallbackJob.key ∨
      k ∈ (r.state m).loop.mQu.map (·.job.key)) := by
    rcases r.stays_or_leaves (P := fun s => k ∈ s.carried.map CallbackJob.key) hk with
      hstays | ⟨m, hnm, hin, hout, l, hs⟩
    · obtain ⟨m, hnm, l, hl, hcarrier⟩ :=
        h.fair (.worker k.id) n fun m hm => Sys.enabled_carrier (hstays m hm)
      obtain ⟨job, hjob, hid, hmoved⟩ := (r.moves m l hl).carrier_moves hcarrier
      have hcarried : ∀ {j : JobKey}, j ∈ (r.state m).carried.map CallbackJob.key →
          j ∈ (r.state m).held := fun hj =>
        Sys.mem_held.2 (.inr (.inr (.inr (.inr (.inl hj)))))
      obtain rfl : job.key = k := inj_on_of_nodup_map (Sys.Reachable.held_nodup (h.reachable_at m))
        (hcarried (mem_map_of_mem hjob)) (hcarried (hstays m hnm)) hid
      exact ⟨m + 1, hnm.trans m.le_succ, hmoved⟩
    · exact ⟨m + 1, hnm.trans m.le_succ, hs.leaves_carried hin hout⟩
  obtain ⟨m, hnm, hqueue | hposted⟩ := hdelivered
  · by_cases hrun : (r.state m).pc.running = some k
    · -- it has been called meanwhile
      exact ⟨m, hnm, hzero ▸ ((Sys.Reachable.sound (h.reachable_at m)).running k hrun).1⟩
    · have hahead := Sys.ahead_of_callbackQueue hqueue
      exact calls_of_le hnm (h.calls_ahead (hn.trans hnm) hahead hrun)
  · obtain ⟨msg, hmsg, rfl⟩ := mem_map.1 hposted
    exact calls_of_le hnm (h.calls_mQu (hn.trans hnm) hmsg)

/-- A timer that is being inserted is called. -/
theorem calls_inserting (h : Steady r n₀) (hn : n₀ ≤ n) {job : TimedJob}
    (hnative : (r.state n).native = .registered job) : CalledFrom r n job.key := by
  have hjs : ∀ {m}, (r.state m).native = .registered job → (r.state m).pc.inJs = true :=
    fun {m} hm => (Sys.Reachable.control (h.reachable_at m)).native.resolve_left (by simp [hm])
  rcases r.stays_or_leaves (P := fun s => s.native = .registered job) hnative with
    hstays | ⟨m, hnm, hin, hout, l, hs⟩
  · obtain ⟨m, hnm, hreturned⟩ := h.returns n (hjs hnative)
    rw [hjs (hstays m hnm)] at hreturned
    cases hreturned
  · have hnm' : n ≤ m + 1 := hnm.trans m.le_succ
    exact calls_of_le hnm' (h.calls_heap (hn.trans hnm') (hs.leaves_native hin hout))

/-- An interval whose function is being executed is called again. -/
theorem calls_again (h : Steady r n₀) (hn : n₀ ≤ n) {job : TimedJob}
    (hpc : (r.state n).pc = .inTimer job) (hi : job.isInterval = true) :
    CalledFrom r n job.key := by
  rcases r.stays_or_leaves (P := fun s => s.pc = .inTimer job) hpc with
    hstays | ⟨m, hnm, hin, hout, l, hs⟩
  · obtain ⟨m, hnm, hreturned⟩ := h.returns n (by rw [hpc]; rfl)
    rw [hstays m hnm] at hreturned
    cases hreturned
  · have hnm' : n ≤ m + 1 := hnm.trans m.le_succ
    obtain ⟨job', hj, hkey⟩ := hs.leaves_inTimer hi hin hout
    rw [← hkey]
    exact calls_of_le hnm' (h.calls_heap (hn.trans hnm') hj)

/-- **A job that is held is called**, and once more if it is an interval. -/
theorem calls_held (h : Steady r n₀) (hn : n₀ ≤ n) (hk : k ∈ (r.state n).held)
    (honce : k.isInterval = false → (r.state n).invoked.count k = 0) : CalledFrom r n k := by
  have hr := h.reachable_at n
  by_cases hrun : (r.state n).pc.running = some k
  · have hpos := ((Sys.Reachable.sound hr).running k hrun).1
    have hi : k.isInterval = true := by
      by_contra hi
      exact hpos.ne' (honce (by simpa using hi))
    cases hpc : (r.state n).pc with
    | inTimer job =>
      rw [hpc] at hrun
      obtain rfl : job.key = k := Option.some.inj hrun
      exact h.calls_again hn hpc hi
    | inCallback job =>
      rw [hpc] at hrun
      obtain rfl : job.key = k := Option.some.inj hrun
      cases hi
    | _ =>
      rw [hpc] at hrun
      cases hrun
  · rcases Sys.mem_held.1 hk with hheap | htimers | hcallbacks | hmQu | hcarried | htaken | hinsert
    · obtain ⟨job, hj, rfl⟩ := mem_map.1 hheap
      exact h.calls_heap hn hj
    · exact h.calls_ahead hn (Sys.Reachable.ahead_of_timersQueue hr htimers) hrun
    · exact h.calls_ahead hn (Sys.ahead_of_callbackQueue hcallbacks) hrun
    · obtain ⟨msg, hmsg, rfl⟩ := mem_map.1 hmQu
      exact h.calls_mQu hn hmsg
    · refine h.calls_carried hn hcarried (honce ?_)
      obtain ⟨job, -, rfl⟩ := mem_map.1 hcarried
      rfl
    · refine h.calls_ahead hn ?_ hrun
      cases hpc : (r.state n).pc with
      | build msg =>
        exact Sys.ahead_of_messages (by rw [hpc]; rfl) (.inl htaken)
      | _ =>
        rw [hpc] at htaken
        cases htaken
    · obtain ⟨job, hj, rfl⟩ := mem_map.1 hinsert
      refine h.calls_inserting hn ?_
      cases hnative : (r.state n).native with
      | registered job' =>
        rw [hnative] at hj
        obtain rfl := mem_singleton.1 hj
        rfl
      | _ =>
        rw [hnative] at hj
        cases hj

/-- What is registered stays registered. -/
theorem registered_subset (hnm : n ≤ m) (hk : k ∈ (r.state n).registered) :
    k ∈ (r.state m).registered :=
  r.invariant_of_le (I := fun s => k ∈ s.registered) hk hnm fun _ _ _ hk hs =>
    hs.registered_subset hk

end Steady

/-! ## The result -/

/-- **Every job is served.** In every run from a reachable state that is fair to the threads, in
which the functions return and the clock goes on, and in which from some moment on no callback
begins a read or a write and no watcher notices a change while `mQu` is being emptied: a job that is
to be called once is called exactly once, and an interval is called again and again. -/
theorem jobs_served {r : Run Step} {n₀ : ℕ} (h : Steady r n₀) {n : ℕ} {k : JobKey}
    (hk : k ∈ (r.state n).registered) :
    (k.isInterval = false → ∃ m, n ≤ m ∧ (r.state m).invoked.count k = 1) ∧
      (k.isInterval = true → ∀ N, ∃ m, n ≤ m ∧ N ≤ (r.state m).invoked.count k) := by
  refine ⟨fun hi => ?_, fun hi N => ?_⟩
  · have hmax := le_max_left n n₀
    have hk' := Steady.registered_subset hmax hk
    have hatMost : ∀ {m}, n ≤ m → (r.state m).invoked.count k ≤ 1 ∧
        ((r.state m).invoked.count k = 0 → k ∈ (r.state m).held) := fun {m} hm =>
      (Sys.Reachable.sound (h.reachable_at m)).once_invoked (by simp [JobKey.once, hi])
        (le_antisymm (Sys.Reachable.registered_count_le (h.reachable_at m) k)
          (one_le_count_iff.2 (Steady.registered_subset hm hk)))
    by_cases hzero : (r.state (max n n₀)).invoked.count k = 0
    · obtain ⟨m, hm, hlt⟩ := h.calls_held (le_max_right n n₀) ((hatMost hmax).2 hzero)
        fun _ => hzero
      have hnm := hmax.trans hm
      exact ⟨m, hnm, le_antisymm (hatMost hnm).1 (by omega)⟩
    · exact ⟨_, hmax, le_antisymm (hatMost hmax).1 (Nat.one_le_iff_ne_zero.2 hzero)⟩
  · induction N with
    | zero => exact ⟨n, le_rfl, Nat.zero_le _⟩
    | succ N ih =>
      obtain ⟨m, hnm, hN⟩ := ih
      have hmax := hnm.trans (le_max_left m n₀)
      have hcount := (Sys.Reachable.sound (h.reachable_at (max m n₀))).repeating k
        (by simp [JobKey.once, hi])
      have hheld : k ∈ (r.state (max m n₀)).held :=
        count_pos_iff.1 (hcount ▸ count_pos_iff.2 (Steady.registered_subset hmax hk))
      obtain ⟨j, hj, hlt⟩ := h.calls_held (le_max_right m n₀) hheld (by simp [hi])
      have hle := Steady.count_le r (le_max_left m n₀) k
      exact ⟨j, hmax.trans hj, by omega⟩

/-- After steps at whose end `Run` has returned, the clock goes on for ever. -/
theorem exists_steady (hr : s.Reachable)
    (h : Relation.ReflTransGen (fun s s' => ∃ l, ClosingStep s l s') s s') (hpc : s'.pc = .start)
    (hn : s'.native = .idle) (ht : s'.threads = []) :
    ∃ (r : Run Step) (n₀ : ℕ), r.state 0 = s ∧ Steady r n₀ := by
  have hsteps : Relation.ReflTransGen (fun s s' => ∃ l, Step s l s') s s' :=
    Relation.ReflTransGen.mono (fun _ _ ⟨l, hl⟩ => ⟨l, hl.1⟩) _ _ h
  let ticks : Run Step := (ticking s').weaken fun _ _ _ hl => hl.1
  have hfair : ticks.Fair Label.carrier := by
    intro a n henabled
    obtain ⟨l, s'', hl, hs⟩ := henabled n le_rfl
    refine ⟨n, le_rfl, _, rfl, ?_⟩
    rw [← hl]
    simp only [ticks, Run.weaken, ticking] at hs
    cases hs with
    | tick | nextScript => rfl
    | timerCall hjs | startWorker hjs | watchFile hjs => simp [hpc, Pc.inJs] at hjs
    | timerRegister h | timerInsert h => simp [hn] at h
    | deliver h | post h | watcherChange h | watcherPost h | watcherStop h => simp [ht] at h
    | scriptReturn h | timerReturn h | callbackReturn h | enterLoop h | leaveLoop h | getFront h
    | build h | drained h | invokeTimer h | timersDone h | invokeCallback h | updateTime h
    | moveTimer h | updateDone h => simp [hpc] at h
  obtain ⟨r, rfl, hfair, d, hd⟩ := hfair.exists_after hsteps
  refine ⟨r, d, rfl, hr, hfair, fun n _ => ⟨n + d, Nat.le_add_right _ _, ?_⟩,
    fun t => ⟨t + d, ?_⟩, fun n l hn hl => ?_⟩
  · rw [(hd n).1]
    show s'.pc.inJs = false
    rw [hpc]
    rfl
  · rw [(hd t).1]
    exact Nat.le_add_left _ _
  · obtain ⟨j, rfl⟩ := Nat.exists_eq_add_of_le' hn
    rw [(hd j).2] at hl
    cases hl
    rfl

/-- A script reads a file: the function that it has passed is called once. -/
theorem jobs_served_read : ∃ (r : Run Step) (n₀ : ℕ), r.state 0 = reading ∧ Steady r n₀ ∧
    ∃ m, (r.state m).invoked.count ⟨0, .user 0 0, false⟩ = 1 := by
  obtain ⟨s', hsteps, hpc, hn, ht⟩ := reading_returns
  obtain ⟨r, n₀, h₀, hr⟩ := exists_steady reading_reachable hsteps hpc hn ht
  have hk : ⟨0, .user 0 0, false⟩ ∈ (r.state 0).registered := by
    rw [h₀]
    exact .head _
  obtain ⟨m, -, hm⟩ := (jobs_served hr hk).1 rfl
  exact ⟨r, n₀, h₀, hr, m, hm⟩

end NanoJS
