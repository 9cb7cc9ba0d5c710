import NanoJS.Engine.Accounting
import NanoJS.Foundations.FreshIds
import NanoJS.Foundations.Ledger

/-!
# Exactly-once delivery

The loop refines a ledger (`Step.ledger`): whatever place a registered job is in, a step moves it,
invokes it, or removes it after its function has returned. So no job is in two places at once
(`heldIds_nodup`), and when `Run` returns every one-shot job registered so far has been invoked
exactly once; in particular before the next script of `argv` begins.
-/

namespace NanoJS

open FreshIds List

/-! ## Places -/

/-- The jobs in flight: with a thread that has yet to deliver, in a message taken from `mQu`, or a
timer that is being inserted. -/
def Sys.inFlight (s : Sys) : List JobKey :=
  s.carried.map CallbackJob.key ++ s.pc.taken.map (·.job.key) ++
    s.native.inserting.map TimedJob.key

/-- The registered jobs, place by place. -/
def Sys.held (s : Sys) : List JobKey :=
  s.loop.heap.map TimedJob.key ++ s.loop.timersQueue.map TimedJob.key ++
    s.loop.callbackQueue.map CallbackJob.key ++ s.loop.mQu.map (·.job.key) ++ s.inFlight

/-- The places. -/
theorem Sys.mem_held {s : Sys} {k : JobKey} :
    k ∈ s.held ↔ k ∈ s.loop.heap.map TimedJob.key ∨ k ∈ s.loop.timersQueue.map TimedJob.key ∨
      k ∈ s.loop.callbackQueue.map CallbackJob.key ∨ k ∈ s.loop.mQu.map (·.job.key) ∨
        k ∈ s.carried.map CallbackJob.key ∨ k ∈ s.pc.taken.map (·.job.key) ∨
          k ∈ s.native.inserting.map TimedJob.key := by
  simp only [held, inFlight, mem_append, or_assoc]

/-- The job whose function is being executed. -/
def Pc.running : Pc → Option JobKey
  | .inTimer job => some job.key
  | .inCallback job => some job.key
  | _ => none

def Event.registered? : Event → Option JobKey
  | .registered job => some job
  | _ => none

def Event.invoked? : Event → Option JobKey
  | .timerInvoked job _ _ => some job.key
  | .callbackInvoked job => some job.key
  | _ => none

/-- The jobs registered so far. -/
def Sys.registered (s : Sys) : List JobKey := s.log.filterMap Event.registered?

/-- The invocations so far. -/
def Sys.invoked (s : Sys) : List JobKey := s.log.filterMap Event.invoked?

/-- The ledger of a state. -/
def Sys.ledger (s : Sys) : Ledger JobKey := ⟨s.held, s.pc.running, s.registered, s.invoked⟩

/-- A job that is deleted when its function has returned. -/
def JobKey.once (job : JobKey) : Bool := !job.isInterval

/-! ## The loop refines the ledger -/

/-- **Each step is an entry of the ledger.** -/
theorem Step.ledger {s s' : Sys} {l : Label} (h : Step s l s') (hf : s.Control) :
    Ledger.Step JobKey.once s.ledger s'.ledger := by
  cases h with
  | tick h | watchFile hjs hn => exact .move (.refl _) rfl rfl rfl
  | nextScript hpc | scriptReturn hpc | enterLoop hpc | leaveLoop hpc | drained hpc
  | timersDone hpc | updateTime hpc | updateDone hpc =>
    refine .move (.of_eq ?_) ?_ rfl rfl <;>
      simp [Sys.ledger, Sys.held, Sys.inFlight, Sys.carried, Pc.taken, Pc.running,
        EventLoop.updateTime, hpc]
  | timerCall hjs hn =>
    refine .move (.of_eq ?_) rfl rfl rfl
    simp [Sys.ledger, Sys.held, Sys.inFlight, Sys.carried, Native.inserting, hn]
  | @timerRegister job hn =>
    refine .register job.key (perm_iff_count.2 fun k => ?_) rfl rfl rfl
    simp only [Sys.ledger, Sys.held, Sys.inFlight, Sys.carried, Native.inserting,
      EventLoop.registerJob, EventLoop.updateTime, TimedJob.key, hn, map_cons, map_nil,
      count_append, count_cons, count_nil]
    omega
  | timerInsert hn =>
    refine .move (perm_iff_count.2 fun k => ?_) rfl rfl rfl
    simp only [Sys.ledger, Sys.held, Sys.inFlight, Sys.carried, Native.inserting,
      EventLoop.addJobToTimersHeap, hn, map_cons, map_nil, count_append, count_cons, count_nil]
    omega
  | @startWorker func task hjs hn =>
    refine .register ⟨s.nextId, func, false⟩ (perm_iff_count.2 fun k => ?_) rfl rfl rfl
    simp only [Sys.ledger, Sys.held, Sys.inFlight, Sys.carried, Thread.carried,
      EventLoop.registerJob, CallbackJob.key, flatMap_cons, map_append, map_cons, map_nil,
      count_append, count_cons, count_nil]
    omega
  | @timerReturn _ job hpc hn =>
    obtain ⟨rest, hq⟩ := hf.timer job hpc
    have hrun : s.ledger.running = some job.key := by simp [Sys.ledger, Pc.running, hpc]
    cases hi : job.isInterval with
    | true =>
      refine .keep job.key (by simp [JobKey.once, TimedJob.key, hi]) hrun
        (perm_iff_count.2 fun k => ?_) rfl rfl rfl
      simp only [Sys.ledger, Sys.held, Sys.inFlight, Sys.carried, Pc.taken,
        EventLoop.removeJob, EventLoop.addJobToTimersHeap, TimedJob.key, hpc, hq, hi, if_true,
        tail_cons, map_cons, count_append, count_cons]
      omega
    | false =>
      refine .delete job.key (by simp [JobKey.once, TimedJob.key, hi]) hrun
        (perm_iff_count.2 fun k => ?_) rfl rfl rfl
      simp only [Sys.ledger, Sys.held, Sys.inFlight, Sys.carried, Pc.taken,
        EventLoop.removeJob, EventLoop.withdrawJob, hpc, hq, hi, Bool.false_eq_true, if_false,
        tail_cons, map_cons, count_append, count_cons]
      omega
  | @callbackReturn _ job hpc hn =>
    obtain ⟨rest, hq⟩ := hf.callback job hpc
    refine .delete job.key rfl (by simp [Sys.ledger, Pc.running, hpc])
      (perm_iff_count.2 fun k => ?_) rfl rfl rfl
    simp only [Sys.ledger, Sys.held, Sys.inFlight, Sys.carried, Pc.taken, EventLoop.removeJob,
      EventLoop.withdrawJob, hpc, hq, tail_cons, map_cons, count_append, count_cons]
    omega
  | getFront hpc hq =>
    refine .move (perm_iff_count.2 fun k => ?_) (by simp [Sys.ledger, Pc.running, hpc]) rfl rfl
    simp only [Sys.ledger, Sys.held, Sys.inFlight, Sys.carried, Pc.taken, hpc, hq, map_cons,
      map_nil, count_append, count_cons, count_nil]
    omega
  | build hpc =>
    refine .move (perm_iff_count.2 fun k => ?_) (by simp [Sys.ledger, Pc.running, hpc]) rfl rfl
    simp only [Sys.ledger, Sys.held, Sys.inFlight, Sys.carried, Pc.taken, CallbackJob.key,
      EventLoop.addCallbackJob, hpc, map_append, map_cons, map_nil, count_append, count_cons,
      count_nil]
    omega
  | @invokeTimer job rest hpc hq =>
    refine .invoke job.key ?_ (by simp [Sys.ledger, Pc.running, hpc]) (.of_eq ?_) rfl rfl rfl
    · simp [Sys.ledger, Sys.held, hq]
    · simp [Sys.ledger, Sys.held, Sys.inFlight, Sys.carried, Pc.taken, hpc]
  | @invokeCallback job rest args hpc hq hargs =>
    refine .invoke job.key ?_ (by simp [Sys.ledger, Pc.running, hpc]) (.of_eq ?_) rfl rfl rfl
    · simp [Sys.ledger, Sys.held, hq]
    · simp [Sys.ledger, Sys.held, Sys.inFlight, Sys.carried, Pc.taken, hpc]
  | moveTimer hpc hdue hpop hhead =>
    refine .move (perm_iff_count.2 fun k => ?_) (by simp [Sys.ledger, Pc.running, hpc]) rfl rfl
    have hcount := (hpop.perm.map TimedJob.key).count_eq k
    simp only [Sys.ledger, Sys.held, Sys.inFlight, Sys.carried, Pc.taken,
      EventLoop.addTimedJob, hpc, map_append, map_cons, map_nil, count_append, count_cons,
      count_nil] at hcount ⊢
    omega
  | deliver ht htask =>
    refine .move (perm_iff_count.2 fun k => ?_) rfl rfl rfl
    simp only [Sys.ledger, Sys.held, Sys.inFlight, Sys.carried, Thread.carried, CallbackJob.key,
      EventLoop.addCallbackJob, ht, flatMap_append, flatMap_cons, map_append, map_cons, map_nil,
      count_append, count_cons, count_nil]
    omega
  | post ht | watcherPost ht =>
    refine .move (perm_iff_count.2 fun k => ?_) rfl rfl rfl
    simp only [Sys.ledger, Sys.held, Sys.inFlight, Sys.carried, Thread.carried,
      EventLoop.addMsgJob, ht, flatMap_append, flatMap_cons, map_append, map_cons, map_nil,
      count_append, count_cons, count_nil]
    omega
  | @watcherChange job path pre post ht =>
    refine .register ⟨s.nextId, job.func, false⟩ (perm_iff_count.2 fun k => ?_) rfl rfl rfl
    simp only [Sys.ledger, Sys.held, Sys.inFlight, Sys.carried, Thread.carried, CallbackJob.key,
      EventLoop.registerJob, ht, flatMap_append, flatMap_cons, map_append, map_cons, map_nil,
      count_append, count_cons, count_nil]
    omega
  | watcherStop ht =>
    refine .move (.of_eq ?_) rfl rfl rfl
    simp [Sys.ledger, Sys.held, Sys.inFlight, Sys.carried, Thread.carried,
      EventLoop.withdrawJob, ht]

theorem Sys.Reachable.sound {s : Sys} (h : s.Reachable) : s.ledger.Sound JobKey.once :=
  Transition.Reachable.invariant (I := fun s => s.ledger.Sound JobKey.once)
    (by rintro _ ⟨ms, rfl⟩; exact Ledger.sound_empty)
    (fun _ _ _ hr hb hl => hb.step (Step.ledger hl (Reachable.control hr))) h

/-! ## Identities -/

/-- The timer that `setTimeOut` or `setInterval` has allocated and not registered. -/
def Native.createdIds : Native → List ℕ
  | .created job => [job.id]
  | _ => []

/-- The identities given to a registered job, or to the timer about to be registered. -/
def Sys.jobIds (s : Sys) : List ℕ := s.native.createdIds ++ s.registered.map JobKey.id

theorem Step.recycles {s s' : Sys} {l : Label} (h : Step s l s') :
    Recycles s.jobIds s.nextId s'.jobIds s'.nextId := by
  cases h with
  | timerCall hjs hn =>
    refine .take (.of_eq ?_) rfl
    simp [Sys.jobIds, Sys.registered, Native.createdIds, Event.registered?, newTimedJob, hn,
      filterMap_cons]
  | timerRegister hn =>
    refine .keep (.of_eq ?_) le_rfl
    simp [Sys.jobIds, Sys.registered, Native.createdIds, Event.registered?, TimedJob.key, hn]
  | timerInsert hn =>
    refine .keep (.of_eq ?_) le_rfl
    simp [Sys.jobIds, Sys.registered, Native.createdIds, hn]
  | startWorker hjs hn =>
    refine .take (.of_eq ?_) rfl
    simp [Sys.jobIds, Sys.registered, Native.createdIds, Event.registered?, hn]
  | watcherChange ht =>
    refine .take ?_ rfl
    simp only [Sys.jobIds, Sys.registered, Event.registered?, filterMap_cons, map_cons]
    exact perm_middle
  | watchFile hjs hn => exact .keep (.refl _) (Nat.le_succ _)
  | _ => exact .keep (.refl _) le_rfl

theorem Sys.Reachable.below {s : Sys} (h : s.Reachable) : Below s.jobIds s.nextId :=
  Transition.Reachable.invariant (I := fun s => Below s.jobIds s.nextId)
    (by rintro _ ⟨ms, rfl⟩; exact .nil _) (fun _ _ _ _ hb hl => hb.recycle hl.recycles) h

/-- A registered job stays registered. -/
theorem Step.registered_subset {s s' : Sys} {l : Label} (h : Step s l s') :
    s.registered ⊆ s'.registered := by
  cases h with
  | timerCall hjs hn | timerRegister hn | startWorker hjs hn | invokeTimer hpc hq
  | invokeCallback hpc hq hargs | watcherChange ht =>
    intro k hk
    simp only [Sys.registered, filterMap_cons, Event.registered?]
    first
      | exact hk
      | exact mem_cons_of_mem _ hk
  | _ => exact fun _ hk => hk

/-- The registered jobs have distinct identities. -/
theorem Sys.Reachable.registered_nodup {s : Sys} (h : s.Reachable) :
    (s.registered.map JobKey.id).Nodup :=
  (Reachable.below h).nodup.of_append_right

/-- **No job is in two places at once**, nor twice in one. -/
theorem Sys.Reachable.held_nodup {s : Sys} (h : s.Reachable) : (s.held.map JobKey.id).Nodup :=
  (Reachable.sound h).nodup_map JobKey.id (Reachable.registered_nodup h)

/-! ## When `Run` has returned -/

/-- Between two scripts nothing is registered and no thread is left. -/
def Sys.Quiet (s : Sys) : Prop := s.pc = .start → s.pending = 0

theorem Step.quiet {s s' : Sys} {l : Label} (h : Step s l s') (hf : s.Control)
    (ha : s.Accounted) (hq : s.Quiet) : s'.Quiet := by
  intro hs'
  cases h with
  | tick h => exact hq hs'
  | leaveLoop hpc hstop =>
    have hzero : s.pending = 0 := by
      have h₁ := ha.count
      have h₂ := ha.stop.1 hstop
      omega
    simpa [Sys.pending, Pc.taken, Sys.carried, Sys.watchers, hpc] using hzero
  | timerCall hjs hn | startWorker hjs hn | watchFile hjs hn =>
    rw [hs'] at hjs
    cases hjs
  | timerRegister hn | timerInsert hn =>
    have := hf.native
    rw [hs', hn] at this
    simp [Pc.inJs] at this
  | deliver ht | post ht | watcherChange ht | watcherPost ht | watcherStop ht =>
    have := (Sys.empty_of_pending (hq hs')).2.2.2.2.2.2
    rw [ht] at this
    simp at this
  | _ => cases hs'

theorem Sys.Reachable.quiet {s : Sys} (h : s.Reachable) : s.Quiet :=
  Transition.Reachable.invariant (I := Sys.Quiet) (by rintro _ ⟨ms, rfl⟩ -; rfl)
    (fun _ _ _ hr hq hl => hl.quiet (Reachable.control hr) (Reachable.accounted hr) hq) h

theorem Sys.held_of_pending {s : Sys} (h : s.pending = 0) : s.held = [] := by
  obtain ⟨h₁, h₂, h₃, h₄, h₅, h₆, h₇⟩ := Sys.empty_of_pending h
  simp [held, inFlight, carried, h₁, h₂, h₃, h₄, h₅, h₆, h₇]

theorem Sys.Reachable.registered_count_le {s : Sys} (h : s.Reachable) (job : JobKey) :
    s.registered.count job ≤ 1 :=
  nodup_iff_count_le_one.1 (Reachable.registered_nodup h).of_map job

/-- When nothing is held, every registered job is a one-shot and was invoked exactly once. -/
theorem Sys.Reachable.invoked_once {s : Sys} (h : s.Reachable) (hp : s.pending = 0)
    (hr : s.pc.running = none) {job : JobKey} (hj : job ∈ s.registered) :
    job.isInterval = false ∧ s.invoked.count job = 1 := by
  obtain ⟨h₁, h₂⟩ := (Reachable.sound h).invoked_of_empty (held_of_pending hp) hr job
  have hone : s.registered.count job = 1 :=
    le_antisymm (registered_count_le h job) (one_le_count_iff.2 hj)
  cases hi : job.isInterval with
  | false => exact ⟨rfl, (h₁ (by simp [JobKey.once, hi])).trans hone⟩
  | true => exact absurd hj (h₂ (by simp [JobKey.once, hi]))

/-- **Exactly-once delivery.** No job is in two places at once. A registered one-shot job has been
invoked at most once, and is present as long as it has not been. When `Run` returns, and when
`App::Start` begins another script, every job registered so far has been invoked exactly once. -/
theorem delivered_exactly_once {s : Sys} (h : s.Reachable) :
    (s.loop.heap.map TimedJob.id ++ s.loop.timersQueue.map TimedJob.id ++
        s.loop.callbackQueue.map CallbackJob.id ++ s.loop.mQu.map (·.job.id) ++
        s.inFlight.map JobKey.id).Nodup ∧
      (∀ job ∈ s.registered, job.isInterval = false →
        s.invoked.count job ≤ 1 ∧ (s.invoked.count job = 0 → job ∈ s.held)) ∧
      (∀ s', Step s .leaveLoop s' → ∀ job ∈ s'.registered,
        job.isInterval = false ∧ s'.invoked.count job = 1) ∧
      ∀ s', Step s .nextScript s' → ∀ job ∈ s.registered,
        job.isInterval = false ∧ s.invoked.count job = 1 := by
  refine ⟨?_, fun job hj hi => ?_, ?_, ?_⟩
  · have := Sys.Reachable.held_nodup h
    simpa [Sys.held, Function.comp_def, TimedJob.key, CallbackJob.key] using this
  · exact (Sys.Reachable.sound h).once_invoked (by simp [JobKey.once, hi])
      (le_antisymm (Sys.Reachable.registered_count_le h job) (one_le_count_iff.2 hj))
  · rintro _ hl job hj
    have hr := h.tail hl
    cases hl with
    | leaveLoop hpc hstop => exact Sys.Reachable.invoked_once hr (Sys.Reachable.quiet hr rfl) rfl hj
  · rintro _ ⟨⟩ job hj
    rename_i hpc
    exact Sys.Reachable.invoked_once h (Sys.Reachable.quiet h hpc) (by rw [hpc]; rfl) hj

/-- A run that returns: a script asks for the metadata of a file, and the function it passed is
called. -/
theorem delivered_exactly_once_stat : ∃ s : Sys, s.registered = [⟨0, .user 0 0, false⟩] ∧
    s.loop.shouldStop = true ∧
    ∀ s', Step s .leaveLoop s' → ∀ job ∈ s'.registered,
      job.isInterval = false ∧ s'.invoked.count job = 1 := by
  have posted := ((((Transition.Reachable.start ⟨0, rfl⟩ : Sys.Reachable _).tail
    (.nextScript rfl)).tail (@Step.startWorker _ (.user 0 0) (.stat []) rfl rfl)).tail
    (@Step.scriptReturn _ false rfl rfl)).tail (@Step.post _ _ _ [] [] [] rfl rfl)
  have called := (((((posted.tail (.enterLoop rfl rfl)).tail (.getFront rfl rfl)).tail
    (@Step.build _ _ [.null] rfl)).tail (.drained rfl rfl)).tail (.timersDone rfl rfl)).tail
    (.invokeCallback rfl rfl rfl)
  have returned := ((called.tail (@Step.callbackReturn _ false _ rfl rfl)).tail
    (@Step.updateTime _ none rfl rfl rfl)).tail (.updateDone rfl (by simp))
  exact ⟨_, rfl, rfl, (delivered_exactly_once returned).2.2.1⟩

end NanoJS
