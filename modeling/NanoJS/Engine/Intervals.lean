import NanoJS.Engine.TimerCalls
import NanoJS.Engine.Timers

/-!
# Intervals

An interval that is registered stays: `removeJob` puts it back into the heap, so it is in the heap
or in the queue ever after, it keeps its count in `jobCount`, and `Run` does not return. It keeps
its function and its arguments, and its deadline is put `duration` after the loop time at which it
returned, which is not before the loop time at which it was moved (`Sys.Spaced`). So two of its
moves to the queue are at least its duration apart, as long as its deadlines fit in `time_t`
(`intervals_persist`). One that does not fit is in the past (`interval_overflows`).
-/

namespace NanoJS

open List FreshIds Transition PriorityQueue

/-! ## Spacing -/

/-- The timers that are yet to be moved are due their duration after each earlier move of theirs,
where their deadlines fit. -/
structure Sys.Spaced (s : Sys) (h : TimerHistory) : Prop where
  past : ∀ m ∈ h.moves, m.1 < s.nextId ∧ m.2 ≤ s.loop.currentTime
  created : ∀ job, s.native = .created job → ∀ t, (job.id, t) ∉ h.moves
  coming : ∀ job ∈ s.loop.heap ++ s.native.inserting, h.Fits job.id → ∀ t,
    (job.id, t) ∈ h.moves → t + job.duration ≤ job.timeOut
  spaced : ∀ call ∈ h.calls, h.Fits call.id →
    (h.movesOf call.id).Pairwise fun t t' => t + call.duration ≤ t'

/-- The loop time does not go back. -/
theorem Step.currentTime_le {s s' : Sys} {l : Label} (h : Step s l s') (hs : s.Scheduled) :
    s.loop.currentTime ≤ s'.loop.currentTime := by
  have htime : s.loop.currentTime ≤ toTimeT s.clock * 1000 :=
    let ⟨_, hc, ht⟩ := hs.time
    ht.trans_le (toTimeT_mono hc)
  cases h with
  | timerRegister | updateTime => exact htime
  | @timerReturn _ job =>
    cases hi : job.isInterval <;>
    simp [EventLoop.removeJob, EventLoop.addJobToTimersHeap, EventLoop.withdrawJob, hi]
  | _ => exact le_rfl

theorem Step.nextId_le {s s' : Sys} {l : Label} (h : Step s l s') : s.nextId ≤ s'.nextId := by
  cases h with
  | timerCall | startWorker | watchFile | watcherChange => exact Nat.le_succ _
  | _ => exact le_rfl

/-- A step that moves no timer. What it puts into the heap is due its duration after the loop time,
or has not been moved. -/
theorem Sys.Spaced.keep {s s' : Sys} {h : TimerHistory} {l : Label} (hsp : s.Spaced h)
    (hs : Step s l s') (ht : s.Scheduled) (hmoves : l.timerMoves s = [])
    (hcreated : ∀ job, s'.native = .created job → ∀ t, (job.id, t) ∉ h.moves)
    (hcoming : ∀ job ∈ s'.loop.heap ++ s'.native.inserting,
      job ∈ s.loop.heap ++ s.native.inserting ∨
        ((h.record s l).Fits job.id → s.loop.currentTime + job.duration ≤ job.timeOut) ∨
          ∀ t, (job.id, t) ∉ h.moves)
    (hcalls : ∀ call ∈ l.timerCalls s, call.id = s.nextId) : s'.Spaced (h.record s l) := by
  have hrecord : (h.record s l).moves = h.moves := by simp [TimerHistory.record, hmoves]
  refine ⟨fun m hm => ?_, fun job hj t => ?_, fun job hj hfit t hm => ?_, fun call hc hfit => ?_⟩
  · obtain ⟨hid, htime⟩ := hsp.past m (hrecord ▸ hm)
    exact ⟨hid.trans_le hs.nextId_le, htime.trans (hs.currentTime_le ht)⟩
  · rw [hrecord]
    exact hcreated job hj t
  · rw [hrecord] at hm
    rcases hcoming job hj with hold | hlate | hnone
    · exact hsp.coming job hold hfit.of_record t hm
    · exact (Int.add_le_add_right (hsp.past _ hm).2 _).trans (hlate hfit)
    · exact absurd hm (hnone t)
  · rw [TimerHistory.movesOf, hrecord]
    rcases mem_append.1 hc with hc | hc
    · exact hsp.spaced call hc hfit.of_record
    · have hnone : h.moves.filter (·.1 == call.id) = [] := by
        refine filter_eq_nil_iff.2 fun m hm => ?_
        have hlt := (hsp.past m hm).1
        rw [hcalls call hc]
        simpa using hlt.ne
      rw [hnone]
      exact .nil

/-- The identities of the timers are distinct. -/
theorem Sys.Reachable.liveTimers_nodup {s : Sys} (h : s.Reachable) :
    (s.liveTimers.map TimedJob.id).Nodup := by
  refine nodup_iff_count_le_one.2 fun id => ?_
  have hheld := nodup_iff_count_le_one.1 (Sys.Reachable.held_nodup h) id
  have hkey : JobKey.id ∘ TimedJob.key = TimedJob.id := rfl
  simp only [Sys.held, Sys.inFlight, map_append, map_map, hkey, count_append] at hheld
  simp only [Sys.liveTimers, map_append, count_append]
  omega

/-- A step that moves no timer and puts none into the heap. -/
theorem Sys.Spaced.frame {s s' : Sys} {h : TimerHistory} {l : Label} (hsp : s.Spaced h)
    (hs : Step s l s') (ht : s.Scheduled) (hmoves : l.timerMoves s = [])
    (hcalls : l.timerCalls s = []) (hn : s'.native = s.native) (hh : s'.loop.heap = s.loop.heap) :
    s'.Spaced (h.record s l) :=
  hsp.keep hs ht hmoves (fun job hj => hsp.created job (hn ▸ hj))
    (fun _ hj => .inl (by rwa [hn, hh] at hj)) (by simp [hcalls])

/-- The move of a timer that is due is as late as its earlier moves demand. -/
theorem Sys.Spaced.move {s s' : Sys} {h h' : TimerHistory} {job : TimedJob} (hsp : s.Spaced h)
    (ht : h.Traced s) (hnodup : (s.loop.heap.map TimedJob.id).Nodup)
    (hn' : s'.native = .idle) (hid : s'.nextId = s.nextId)
    (htime : s'.loop.currentTime = s.loop.currentTime)
    (hdue : job.timeOut ≤ s.loop.currentTime) (hpop : Pop heapLess s.loop.heap job s'.loop.heap)
    (hbelow : job.id < s.nextId) (hcalls : h'.calls = h.calls) (hfits : h'.deadlines = h.deadlines)
    (hmoves : h'.moves = h.moves ++ [(job.id, s.loop.currentTime)]) : s'.Spaced h' := by
  have hcall : job.call ∈ h.calls := ht.timers job (by simp [Sys.timers, hpop.mem])
  have hold : ∀ {id}, h'.Fits id → h.Fits id := fun hfit t hm => hfit t (hfits ▸ hm)
  refine ⟨fun m hm => ?_, by simp [hn'], fun job' hj hfit t hm => ?_, fun call hc hfit => ?_⟩
  · rw [hmoves, mem_append, mem_singleton] at hm
    rw [hid, htime]
    rcases hm with hm | rfl
    · exact hsp.past m hm
    · exact ⟨hbelow, le_rfl⟩
  · simp only [hn', Native.inserting, append_nil] at hj
    -- the timer that is moved is the only one with its identity
    have hne : job'.id ≠ job.id := by
      have hperm := (hpop.perm.map TimedJob.id).nodup_iff.1 hnodup
      rw [map_cons, nodup_cons] at hperm
      exact fun he => hperm.1 (he ▸ mem_map_of_mem hj)
    rw [hmoves, mem_append, mem_singleton] at hm
    rcases hm with hm | hm
    · exact hsp.coming job' (mem_append_left _ (hpop.mem_of_mem hj)) (hold hfit) t hm
    · exact absurd (congrArg Prod.fst hm) hne
  · rw [hcalls] at hc
    have hspaced := hsp.spaced call hc (hold hfit)
    by_cases he : call.id = job.id
    · obtain rfl := ht.call_unique hc hcall he
      have hmovesOf : h'.movesOf job.call.id = h.movesOf job.call.id ++ [s.loop.currentTime] := by
        simp [TimerHistory.movesOf, hmoves, TimedJob.call]
      rw [hmovesOf, pairwise_append]
      refine ⟨hspaced, pairwise_singleton _ _, fun t htm _ hlast => ?_⟩
      rw [mem_singleton.1 hlast]
      have hlate := hsp.coming job (mem_append_left _ hpop.mem) (hold hfit) t
        (TimerHistory.mem_movesOf.1 htm)
      exact hlate.trans hdue
    · have hmovesOf : h'.movesOf call.id = h.movesOf call.id := by
        simp [TimerHistory.movesOf, hmoves, Ne.symm he]
      rw [hmovesOf]
      exact hspaced

theorem Step.spaced {s s' : Sys} {l : Label} (hs : Step s l s') (hr : s.Reachable)
    {h : TimerHistory} (ht : h.Traced s) (hsp : s.Spaced h) : s'.Spaced (h.record s l) := by
  have hsch := Sys.Reachable.scheduled hr
  have hf := Sys.Reachable.control hr
  have hnew : ∀ t, (s.nextId, t) ∉ h.moves := fun t hm => lt_irrefl _ (hsp.past _ hm).1
  have hs' := hs
  cases hs with
  | timerCall hjs hn =>
    refine hsp.keep hs' hsch rfl ?_ (fun job hj => .inl ?_)
      (by simp [Label.timerCalls])
    · rintro job ⟨⟩
      exact hnew
    · simpa [Native.inserting, hn] using hj
  | @timerRegister job hn =>
    refine hsp.keep hs' hsch rfl (by simp) (fun job' hj => ?_)
      (by simp [Label.timerCalls])
    rcases mem_append.1 hj with hj | hj
    · exact .inl (mem_append_left _ hj)
    · obtain rfl := mem_singleton.1 hj
      exact .inr (.inr (hsp.created job hn))
  | @timerInsert job hn =>
    refine hsp.keep hs' hsch rfl (by simp) (fun job' hj => .inl ?_)
      (by simp [Label.timerCalls])
    simp only [EventLoop.addJobToTimersHeap, Native.inserting, hn, append_nil, mem_append,
      mem_cons, not_mem_nil, or_false] at hj ⊢
    exact hj.symm
  | @timerReturn threw job hpc hn =>
    refine hsp.keep hs' hsch rfl (by simp [hn])
      (fun job' hj => ?_) (by simp [Label.timerCalls])
    cases hi : job.isInterval with
    | true =>
      simp only [EventLoop.removeJob_interval _ hi, hn, Native.inserting, append_nil, mem_cons]
        at hj ⊢
      rcases hj with rfl | hj
      · refine .inr (.inl fun hfit => ?_)
        have hin : InTimeT (job.duration + s.loop.currentTime) :=
          hfit _ (mem_append_right _ (by simp [Label.deadlines, Pc.timer, hpc, hi,
            EventLoop.getLoopTime, Int.add_comm]))
        rw [hin.timeT_eq, Int.add_comm]
      · exact .inl hj
    | false =>
      simp only [EventLoop.removeJob, hi, EventLoop.withdrawJob, Bool.false_eq_true,
        if_false] at hj
      exact .inl hj
  | @moveTimer job heap head hpc hdue hpop hhead =>
    have hidle : s.native = .idle := hf.native.resolve_right (by simp [hpc, Pc.inJs])
    have hbelow : job.id < s.nextId :=
      ht.ids.lt _ (mem_map_of_mem (ht.timers job (by simp [Sys.timers, hpop.mem])))
    have hheap : s.loop.heap.Sublist s.liveTimers := by simp [Sys.liveTimers]
    have hnodup := (Sys.Reachable.liveTimers_nodup hr).sublist (hheap.map _)
    exact hsp.move ht hnodup hidle rfl rfl hdue hpop hbelow
      (by simp [TimerHistory.record, Label.timerCalls])
      (by simp [TimerHistory.record, Label.deadlines])
      (by simp [TimerHistory.record, Label.timerMoves, Pc.head, hpc, EventLoop.getLoopTime])
  | _ => exact hsp.frame hs' hsch rfl rfl rfl rfl

theorem TimerRun.spaced {s : Sys} {h : TimerHistory} (hr : TimerRun (s, h)) : s.Spaced h :=
  Reachable.invariant (I := fun x => x.1.Spaced x.2)
    (by
      rintro ⟨_, _⟩ ⟨⟨ms, rfl⟩, rfl⟩
      exact ⟨by simp [TimerHistory.empty], by simp [Sys.initial], by simp [TimerHistory.empty],
        by simp [TimerHistory.empty]⟩)
    (by
      rintro ⟨s, h⟩ l ⟨s', _⟩ hr hsp ⟨hs, rfl⟩
      exact hs.spaced (Recording.reachable hr) (TimerRun.traced hr) hsp) hr

/-! ## The place of an interval -/

/-- A registered interval is a timer in one of its places. -/
theorem Sys.Reachable.live_of_registered {s : Sys} (h : s.Reachable) {k : JobKey}
    (hk : k ∈ s.registered) (hi : k.isInterval = true) : ∃ job ∈ s.liveTimers, job.key = k := by
  have hcount := (Sys.Reachable.sound h).repeating k (by simp [JobKey.once, hi])
  have hheld : k ∈ s.held := count_pos_iff.1 (hcount ▸ count_pos_iff.2 hk)
  have hcallback : ∀ job : CallbackJob, job.key ≠ k := by
    rintro job rfl
    cases hi
  simp only [Sys.held, Sys.inFlight, mem_append, mem_map, hcallback, and_false, exists_false,
    or_false, false_or] at hheld
  simp only [Sys.liveTimers, mem_append]
  grind

/-- A registered interval is in one place. -/
theorem Sys.Reachable.interval_count {s : Sys} (h : s.Reachable) {k : JobKey}
    (hk : k ∈ s.registered) (hi : k.isInterval = true) :
    (s.liveTimers.map TimedJob.id).count k.id = 1 := by
  obtain ⟨job, hjob, rfl⟩ := Sys.Reachable.live_of_registered h hk hi
  exact count_eq_one_of_mem (Sys.Reachable.liveTimers_nodup h) (mem_map_of_mem hjob)

/-! ## The loop keeps running -/

theorem Sys.Steps.registered_subset {s s' : Sys} (h : s.Steps s') :
    s.registered ⊆ s'.registered := by
  induction h with
  | refl => exact Subset.refl _
  | tail _ hl ih =>
    obtain ⟨l, hl⟩ := hl
    exact fun k hk => hl.registered_subset (ih hk)

/-- A registered interval is counted. -/
theorem Sys.Reachable.interval_counted {s : Sys} (h : s.Reachable) {k : JobKey}
    (hk : k ∈ s.registered) (hi : k.isInterval = true) :
    0 < s.loop.jobCount ∧ s.loop.shouldStop = false := by
  have hacc := Sys.Reachable.accounted h
  have hcount := (Sys.Reachable.interval_count h hk hi).ge.trans count_le_length
  have hpos : 0 < s.loop.jobCount := by
    rw [hacc.count, Sys.pending]
    simp only [Sys.liveTimers, length_map, length_append] at hcount
    omega
  exact ⟨hpos, Bool.eq_false_iff.2 fun hstop => hpos.ne' (hacc.stop.1 hstop)⟩

/-! ## The result -/

/-- **Intervals persist and keep their spacing.** Once an interval is registered, it is in exactly
one of the heap and the queue (the front of the queue while it runs), or on its way into the heap;
from then on the counter stays positive, `shouldStop` stays unset and `Run` does not return; its
function is called with the arguments of its call at every firing; and in a run in which its
deadlines fit in `time_t`, the loop times at which it is moved to the queue lie at least its
duration apart. -/
theorem intervals_persist {s : Sys} {h : TimerHistory} (hr : TimerRun (s, h)) {k : JobKey}
    (hk : k ∈ s.registered) (hi : k.isInterval = true) :
    (s.loop.heap.map TimedJob.id).count k.id + (s.loop.timersQueue.map TimedJob.id).count k.id +
        (s.native.inserting.map TimedJob.id).count k.id = 1 ∧
      (∀ s', s.Steps s' → 0 < s'.loop.jobCount ∧ s'.loop.shouldStop = false ∧
        ∀ s'', ¬Step s' .leaveLoop s'') ∧
      ∃ call ∈ h.calls, call.key = k ∧
        (∀ job t c, Event.timerInvoked job t c ∈ s.log → job.id = k.id →
          job.func = call.func ∧ job.args = call.args) ∧
        (h.Fits k.id → (h.movesOf k.id).Pairwise fun t t' => t + call.duration ≤ t') := by
  have hreach : s.Reachable := Recording.reachable hr
  have htraced := TimerRun.traced hr
  refine ⟨?_, fun s' hsteps => ?_, ?_⟩
  · have hcount := Sys.Reachable.interval_count hreach hk hi
    simpa only [Sys.liveTimers, map_append, count_append] using hcount
  · have hreach' := hsteps.reachable hreach
    obtain ⟨hpos, hstop⟩ :=
      Sys.Reachable.interval_counted hreach' (hsteps.registered_subset hk) hi
    refine ⟨hpos, hstop, fun s'' hleave => ?_⟩
    cases hleave with
    | leaveLoop hpc hstop' => simp [hstop] at hstop'
  · obtain ⟨job, hjob, rfl⟩ := Sys.Reachable.live_of_registered hreach hk hi
    have hcall : job.call ∈ h.calls := by
      refine htraced.timers job ?_
      simp only [Sys.liveTimers, Sys.timers, mem_append] at hjob ⊢
      refine hjob.imp_right fun hj => ?_
      cases hn : s.native <;> simp_all [Native.inserting, Native.timers]
    refine ⟨job.call, hcall, rfl, fun job' t c hinv hid => ?_, (TimerRun.spaced hr).spaced _ hcall⟩
    have hsame := htraced.call_unique (htraced.invoked job' t c hinv) hcall hid
    exact ⟨congrArg TimerCall.func hsame, congrArg TimerCall.args hsame⟩

/-! ## A run in which an interval is moved twice -/

/-- The interval of the run: set at the clock reading `r`, with the duration `d`. -/
def intervalJob (r : ℕ) (d timeOut : ℤ) : TimedJob :=
  { newTimedJob 0 r true (.user 0 0) [] d with timeOut := timeOut }

theorem intervalJob_top (r : ℕ) (d timeOut : ℤ) :
    ∀ x ∈ [intervalJob r d timeOut], ¬heapLess (intervalJob r d timeOut) x := by
  simp [heapLess, timedJobComparator]

/-- The interval of a second that is set at 1000 ms, with its deadline. -/
def oneInterval (timeOut : ℤ) : TimedJob := intervalJob 1000 1000 timeOut

theorem oneInterval_top (timeOut : ℤ) :
    ∀ x ∈ [oneInterval timeOut], ¬heapLess (oneInterval timeOut) x :=
  intervalJob_top 1000 1000 timeOut

/-- The states of the run after the call, and its history with the moves and the deadlines. -/
def intervalRun (r clock : ℕ) (d time : ℤ) (heap queue : List TimedJob) (pc : Pc)
    (log : List Event) (moves deadlines : List (ℕ × ℤ)) : Sys × TimerHistory :=
  ({ clock := clock
     loop :=
      { jobCount := 1
        shouldStop := false
        currentTime := time
        heap := heap
        callbackQueue := []
        timersQueue := queue
        mQu := [] }
     pc := pc
     native := .idle
     threads := []
     nextId := 1
     log := log ++ [.registered ⟨0, .user 0 0, true⟩, .timerCalled 0 r d] },
   ⟨[⟨0, true, .user 0 0, [], d⟩], moves, deadlines⟩)

/-- An interval that is set at `r` is moved when the loop looks at the clock at `c₁`, and again at
`c₂`. -/
theorem intervalJob_run (r c₁ c₂ : ℕ) (d : ℤ) (h₁ : r ≤ c₁) (h₂ : c₁ ≤ c₂)
    (hdue₁ : timeT (toTimeT r * 1000 + d) ≤ toTimeT c₁ * 1000)
    (hdue₂ : timeT (d + toTimeT c₁ * 1000) ≤ toTimeT c₂ * 1000) :
    ∃ s, ⟨0, .user 0 0, true⟩ ∈ s.registered ∧ TimerRun (s,
      { calls := [⟨0, true, .user 0 0, [], d⟩]
        moves := [(0, toTimeT c₁ * 1000), (0, toTimeT c₂ * 1000)]
        deadlines := [(0, toTimeT r * 1000 + d), (0, toTimeT c₁ * 1000 + d)] }) := by
  let job₁ := intervalJob r d (timeT (toTimeT r * 1000 + d))
  let job₂ := intervalJob r d (timeT (d + toTimeT c₁ * 1000))
  have start : TimerRun (Sys.initial r, .empty) := .start ⟨⟨r, rfl⟩, rfl⟩
  have called : TimerRun (intervalRun r r d (toTimeT r * 1000) [job₁] [] .loopHead [] []
      [(0, toTimeT r * 1000 + d)]) :=
    ((((start.tail (.nextScript rfl)).tail
      (@Step.timerCall _ true (.user 0 0) [] d rfl rfl)).tail (.timerRegister rfl)).tail
      (.timerInsert rfl)).tail (@Step.scriptReturn _ false rfl rfl)
  have waiting : TimerRun (intervalRun r c₁ d (toTimeT r * 1000) [job₁] [] .runCallbacks [] []
      [(0, toTimeT r * 1000 + d)]) :=
    (((called.tail (.enterLoop rfl rfl)).tail (.drained rfl rfl)).tail
      (.timersDone rfl rfl)).tail (@Step.tick _ c₁ h₁)
  have moved : TimerRun (intervalRun r c₁ d (toTimeT c₁ * 1000) [] [job₁] (.updateTimers none) []
      [(0, toTimeT c₁ * 1000)] [(0, toTimeT r * 1000 + d)]) :=
    (waiting.tail (@Step.updateTime _ (some job₁) rfl rfl
      ⟨.head _, intervalJob_top r d _⟩)).tail (@Step.moveTimer _ job₁ [] none rfl hdue₁
      ⟨.refl _, intervalJob_top r d _⟩ rfl)
  have fired : TimerRun (intervalRun r c₁ d (toTimeT c₁ * 1000) [job₂] [] .runTimers
      [.timerInvoked job₁ (toTimeT c₁ * 1000) c₁] [(0, toTimeT c₁ * 1000)]
      [(0, toTimeT r * 1000 + d), (0, toTimeT c₁ * 1000 + d)]) :=
    ((((moved.tail (.updateDone rfl (by simp))).tail (.enterLoop rfl rfl)).tail
      (.drained rfl rfl)).tail (.invokeTimer rfl rfl)).tail (@Step.timerReturn _ false job₁ rfl rfl)
  have again : TimerRun (intervalRun r c₂ d (toTimeT c₁ * 1000) [job₂] [] .runCallbacks
      [.timerInvoked job₁ (toTimeT c₁ * 1000) c₁] [(0, toTimeT c₁ * 1000)]
      [(0, toTimeT r * 1000 + d), (0, toTimeT c₁ * 1000 + d)]) :=
    (fired.tail (.timersDone rfl rfl)).tail (@Step.tick _ c₂ h₂)
  have movedAgain : TimerRun (intervalRun r c₂ d (toTimeT c₂ * 1000) [] [job₂] (.updateTimers none)
      [.timerInvoked job₁ (toTimeT c₁ * 1000) c₁] [(0, toTimeT c₁ * 1000), (0, toTimeT c₂ * 1000)]
      [(0, toTimeT r * 1000 + d), (0, toTimeT c₁ * 1000 + d)]) :=
    (again.tail (@Step.updateTime _ (some job₂) rfl rfl
      ⟨.head _, intervalJob_top r d _⟩)).tail (@Step.moveTimer _ job₂ [] none rfl hdue₂
      ⟨.refl _, intervalJob_top r d _⟩ rfl)
  exact ⟨_, by simp [Sys.registered, Event.registered?], movedAgain⟩

/-- An interval of a second, set at 1000 ms, is moved at 2000 ms and again at 3000 ms. -/
theorem intervals_persist_twice : ∃ s h, TimerRun (s, h) ∧ h.movesOf 0 = [2000, 3000] ∧
    s.loop.shouldStop = false ∧ ∃ call ∈ h.calls, call.key = ⟨0, .user 0 0, true⟩ ∧
      (h.movesOf 0).Pairwise fun t t' => t + call.duration ≤ t' := by
  obtain ⟨s, hreg, hrun⟩ :=
    intervalJob_run 1000 2000 3000 1000 (by decide) (by decide) (by decide) (by decide)
  obtain ⟨-, hloop, call, hcall, hkey, -, hspaced⟩ :=
    intervals_persist hrun hreg rfl
  refine ⟨_, _, hrun, by decide, (hloop _ .refl).2.1, call, hcall, hkey, hspaced ?_⟩
  simp [TimerHistory.Fits, InTimeT, toTimeT]

/-- An interval of 9223372036854774784 ms, set at 2000 ms: its deadline does not fit in `time_t`,
and wraps around into the past. It is moved at once, and again in the next round. -/
theorem interval_overflows : ∃ s h, TimerRun (s, h) ∧ ⟨0, .user 0 0, true⟩ ∈ s.registered ∧
    ∃ call ∈ h.calls, call.key = ⟨0, .user 0 0, true⟩ ∧ call.duration = 9223372036854774784 ∧
      h.movesOf 0 = [2000, 2000] ∧
        ¬(h.movesOf 0).Pairwise fun t t' => t + call.duration ≤ t' := by
  obtain ⟨s, hreg, hrun⟩ := intervalJob_run 2000 2000 2000 9223372036854774784 (by decide)
    (by decide) (by decide) (by decide)
  exact ⟨_, _, hrun, hreg, _, .head _, rfl, rfl, by decide,
    by simp [TimerHistory.movesOf, toTimeT]⟩

end NanoJS
