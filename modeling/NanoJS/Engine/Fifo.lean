import NanoJS.Engine.Delivery
import NanoJS.Foundations.Pipeline

/-!
# The order of delivery

A run is recorded beside its states (`History`): the jobs posted as messages, those handed over by
`addCallbackJob`, those that entered `callbackQueue`, and the changes that each watcher detected.
Beside its history the loop refines two queues in a row (`Recorded.Step.pipeline`), so the functions
of callback jobs are invoked in the order in which the jobs entered `callbackQueue`, and on each
channel in the order in which they were posted (`callbacks_fifo`).
-/

namespace NanoJS

open List FreshIds

/-! ## Recorded runs -/

/-- What the threads have posted, oldest first. -/
structure History where
  /-- The jobs of the messages, in the order of `addMsgJob`. -/
  posted : List JobKey
  /-- The jobs that worker threads gave to `addCallbackJob`. -/
  direct : List JobKey
  /-- The jobs in the order in which they entered `callbackQueue`, and whether from a message. -/
  entered : List (Bool × JobKey)
  /-- The changes that watchers have detected: the watcher's own job, and the job of the change. -/
  detected : List (ℕ × JobKey)

namespace History

def empty : History := ⟨[], [], [], []⟩

/-- The history after a step that leaves the state `s`. -/
def record (h : History) (s : Sys) : Label → History
  | .post job _ _ | .watcherPost job _ => { h with posted := h.posted ++ [job.key] }
  | .deliver job _ _ =>
    { h with direct := h.direct ++ [job.key], entered := h.entered ++ [(false, job.key)] }
  | .build _ => { h with entered := h.entered ++ s.pc.taken.map fun msg => (true, msg.job.key) }
  | .watcherChange job _ =>
    { h with detected := h.detected ++ [(job.id, ⟨s.nextId, job.func, false⟩)] }
  | _ => h

/-- The changes that a watcher has detected. -/
def detectedBy (h : History) (watcher : ℕ) : List JobKey :=
  (h.detected.filter fun d => d.1 == watcher).map Prod.snd

end History

/-- A state and the history of the run that led to it. -/
structure Recorded where
  sys : Sys
  history : History

/-- A step of the process, recorded. -/
def Recorded.Step (x : Recorded) (l : Label) (x' : Recorded) : Prop :=
  NanoJS.Step x.sys l x'.sys ∧ x'.history = x.history.record x.sys l

abbrev Recorded.Reachable : Recorded → Prop :=
  Transition.Reachable (fun x => x.sys.Init ∧ x.history = .empty) Recorded.Step

theorem Recorded.Reachable.sys {x : Recorded} (h : x.Reachable) : x.sys.Reachable := by
  induction h with
  | start h => exact .start h.1
  | tail _ hl ih => exact ih.tail hl.1

theorem Recorded.Reachable.step {s s' : Sys} {h : History} {l : Label}
    (hr : Recorded.Reachable ⟨s, h⟩) (hs : NanoJS.Step s l s') :
    Recorded.Reachable ⟨s', h.record s l⟩ :=
  hr.tail ⟨hs, rfl⟩

/-- Every run can be recorded. -/
theorem Sys.Reachable.recorded {s : Sys} (h : s.Reachable) :
    ∃ history, Recorded.Reachable ⟨s, history⟩ := by
  induction h with
  | start h => exact ⟨.empty, .start ⟨h, rfl⟩⟩
  | tail _ hl ih =>
    obtain ⟨history, hr⟩ := ih
    exact ⟨_, hr.step hl⟩

/-! ## The loop refines two queues in a row -/

def Event.callbackInvoked? : Event → Option JobKey
  | .callbackInvoked job => some job.key
  | _ => none

/-- The callback jobs whose functions have been invoked, oldest first. -/
def Sys.callbacksInvoked (s : Sys) : List JobKey :=
  (s.log.filterMap Event.callbackInvoked?).reverse

/-- The function of a callback job is being executed. -/
def Pc.inCallback? : Pc → Bool
  | .inCallback _ => true
  | _ => false

/-- The two queues: the messages, with the one that has been taken, and `callbackQueue`. -/
def Sys.pipeline (s : Sys) (h : History) : Pipeline JobKey where
  upstream := s.pc.taken.map (·.job.key) ++ s.loop.mQu.map (·.job.key)
  queue := s.loop.callbackQueue.map CallbackJob.key
  serving := s.pc.inCallback?
  posted := h.posted
  direct := h.direct
  entered := h.entered
  served := s.callbacksInvoked

/-- **Each step is a step of the two queues.** -/
theorem Step.pipeline {s s' : Sys} {l : Label} (hs : Step s l s') (h : History) :
    Pipeline.Step (s.pipeline h) (s'.pipeline (h.record s l)) := by
  cases hs with
  | @getFront msg rest hpc hq =>
    refine .stay ?_
    simp [Sys.pipeline, Pc.taken, Pc.inCallback?, Sys.callbacksInvoked, History.record, hpc, hq]
  | @build msg args hpc =>
    refine .enter msg.job.key (s.loop.mQu.map (·.job.key)) ?_ ?_ <;>
      simp [Sys.pipeline, Pc.taken, Pc.inCallback?, Sys.callbacksInvoked, History.record,
        EventLoop.addCallbackJob, CallbackJob.key, hpc]
  | @deliver job task args pre post ht htask =>
    refine .push job.key ?_
    simp [Sys.pipeline, Sys.callbacksInvoked, History.record, EventLoop.addCallbackJob,
      CallbackJob.key]
  | @post job task objects pre post ht htask =>
    refine .post job.key ?_
    simp [Sys.pipeline, Sys.callbacksInvoked, History.record, EventLoop.addMsgJob]
  | @watcherPost job path localJob objects pre post ht =>
    refine .post localJob.key ?_
    simp [Sys.pipeline, Sys.callbacksInvoked, History.record, EventLoop.addMsgJob]
  | @invokeCallback job rest args hpc hq hargs =>
    refine .serve job.key (rest.map CallbackJob.key) ?_ ?_ ?_ <;>
      simp [Sys.pipeline, Pc.taken, Pc.inCallback?, Sys.callbacksInvoked, History.record,
        Event.callbackInvoked?, hpc, hq]
  | @callbackReturn threw job hpc hn =>
    refine .leave ?_ ?_ <;>
      simp [Sys.pipeline, Pc.taken, Pc.inCallback?, Sys.callbacksInvoked, History.record,
        EventLoop.removeJob, EventLoop.withdrawJob, hpc]
  | @timerReturn threw job hpc hn =>
    refine .stay ?_
    cases hi : job.isInterval <;>
      simp [Sys.pipeline, Pc.taken, Pc.inCallback?, Sys.callbacksInvoked, History.record,
        EventLoop.removeJob, EventLoop.withdrawJob, EventLoop.addJobToTimersHeap, hpc, hi]
  | invokeTimer hpc | timerCall hpc | timerRegister hpc | startWorker hpc | watcherChange hpc =>
    refine .stay ?_
    simp [Sys.pipeline, Pc.taken, Pc.inCallback?, Sys.callbacksInvoked, Event.callbackInvoked?,
      EventLoop.registerJob, EventLoop.updateTime, History.record, filterMap_cons, hpc]
  | nextScript hpc | scriptReturn hpc | enterLoop hpc | leaveLoop hpc | drained hpc
  | timersDone hpc | updateTime hpc | moveTimer hpc | updateDone hpc =>
    refine .stay ?_
    simp [Sys.pipeline, Pc.taken, Pc.inCallback?, Sys.callbacksInvoked, EventLoop.updateTime,
      EventLoop.addTimedJob, History.record, hpc]
  | _ => exact .stay rfl

/-! ## No job is given twice -/

/-- The jobs that worker threads have yet to deliver. -/
def Thread.working : Thread → List JobKey
  | .worker job _ => [job.key]
  | _ => []

/-- Where a registered job of a thread can be: with the thread, or in the history; and it is a
worker's or a detected change. -/
structure History.Given (h : History) (s : Sys) : Prop where
  places : ∀ k, (s.carried.map CallbackJob.key).count k + (h.posted ++ h.direct).count k ≤
    s.registered.count k
  sources : ∀ k, (s.threads.flatMap Thread.working).count k + (h.detected.map Prod.snd).count k ≤
    s.registered.count k

theorem Step.given {s s' : Sys} {l : Label} (hs : Step s l s') {h : History} (hg : h.Given s) :
    (h.record s l).Given s' := by
  obtain ⟨hp, hsrc⟩ := hg
  cases hs with
  | timerRegister hn =>
    refine ⟨?_, ?_⟩ <;> intro k
    · apply (hp k).trans
      simp [Sys.registered, Event.registered?, count_cons]
    · apply (hsrc k).trans
      simp [Sys.registered, Event.registered?, count_cons]
  | startWorker ht | deliver ht | post ht | watcherChange ht | watcherPost ht | watcherStop ht =>
    refine ⟨?_, ?_⟩ <;> intro k
    · have hk := hp k
      simp only [Sys.carried, Sys.registered, Event.registered?, Thread.carried, CallbackJob.key,
        History.record, ht, flatMap_append, flatMap_cons, filterMap_cons, map_append, map_cons,
        map_nil, count_append, count_cons, count_nil] at hk ⊢
      omega
    · have hk := hsrc k
      simp only [Sys.registered, Event.registered?, Thread.working, CallbackJob.key,
        History.record, ht, flatMap_append, flatMap_cons, filterMap_cons, map_append, map_cons,
        map_nil, count_append, count_cons, count_nil] at hk ⊢
      omega
  | _ => exact ⟨hp, hsrc⟩

theorem Recorded.Reachable.given {x : Recorded} (h : x.Reachable) : x.history.Given x.sys := by
  induction h with
  | start h =>
    obtain ⟨⟨ms, hs⟩, hh⟩ := h
    rw [hs, hh]
    exact ⟨fun k => Nat.zero_le _, fun k => Nat.zero_le _⟩
  | tail _ hl ih =>
    obtain ⟨hs, hh⟩ := hl
    rw [hh]
    exact hs.given ih

namespace History.Given

variable {h : History} {s : Sys} (hg : h.Given s) (hr : s.Reachable)

include hg hr

/-- Each job is posted or handed over at most once. -/
theorem nodup : (h.posted ++ h.direct).Nodup :=
  nodup_iff_count_le_one.2 fun k =>
    (Nat.le_add_left _ _).trans ((hg.places k).trans (Sys.Reachable.registered_count_le hr k))

theorem detected_nodup : (h.detected.map Prod.snd).Nodup :=
  nodup_iff_count_le_one.2 fun k =>
    (Nat.le_add_left _ _).trans ((hg.sources k).trans (Sys.Reachable.registered_count_le hr k))

/-- A job with a new identity has been neither posted nor detected. -/
theorem fresh (func : Closure) :
    (⟨s.nextId, func, false⟩ : JobKey) ∉ h.posted ∧
      (⟨s.nextId, func, false⟩ : JobKey) ∉ h.detected.map Prod.snd := by
  have hnew : (⟨s.nextId, func, false⟩ : JobKey) ∉ s.registered := by
    intro hmem
    have hid : s.nextId ∈ s.jobIds := mem_append_right _ (mem_map_of_mem hmem)
    exact lt_irrefl _ ((Sys.Reachable.below hr).lt _ hid)
  have hzero := count_eq_zero.2 hnew
  have hp := hg.places ⟨s.nextId, func, false⟩
  have hsrc := hg.sources ⟨s.nextId, func, false⟩
  rw [count_append] at hp
  exact ⟨count_eq_zero.1 (by omega), count_eq_zero.1 (by omega)⟩

/-- A worker's job is no detected change. -/
theorem working_not_detected {k : JobKey} (hk : k ∈ s.threads.flatMap Thread.working) :
    k ∉ h.detected.map Prod.snd := by
  have hsrc := hg.sources k
  have hone := Sys.Reachable.registered_count_le hr k
  have hpos := count_pos_iff.2 hk
  exact count_eq_zero.1 (by omega)

end History.Given

/-! ## Watchers post in the order of detection -/

/-- The watcher that a thread is. -/
def Thread.watcherId : Thread → Option ℕ
  | .worker _ _ => none
  | .watcher job _ | .posting job _ _ => some job.id

/-- The change that a watcher has detected and not posted yet. -/
def Thread.postingBy (w : ℕ) : Thread → List JobKey
  | .posting job _ localJob => if job.id = w then [localJob.key] else []
  | _ => []

def Sys.watcherIds (s : Sys) : List ℕ := s.threads.filterMap Thread.watcherId

def Sys.postingBy (s : Sys) (w : ℕ) : List JobKey := s.threads.flatMap (Thread.postingBy w)

theorem postingBy_eq_nil {w : ℕ} {threads : List Thread}
    (h : w ∉ threads.filterMap Thread.watcherId) : threads.flatMap (Thread.postingBy w) = [] := by
  rw [flatMap_eq_nil_iff]
  intro t ht
  cases t with
  | posting job path localJob =>
    have hne : job.id ≠ w := by
      rintro rfl
      exact h (mem_filterMap.2 ⟨_, ht, rfl⟩)
    exact if_neg hne
  | _ => rfl

/-- Watchers have distinct identities. -/
theorem Step.watcherIds {s s' : Sys} {l : Label} (hs : Step s l s') :
    Recycles s.watcherIds s.nextId s'.watcherIds s'.nextId := by
  cases hs with
  | timerCall hjs hn => exact .keep (.refl _) (Nat.le_succ _)
  | startWorker hjs hn => exact .keep (.refl _) (Nat.le_succ _)
  | watchFile hjs hn => exact .take (.refl _) rfl
  | deliver ht | post ht | watcherPost ht =>
    refine .keep (.of_eq ?_) le_rfl
    simp [Sys.watcherIds, Thread.watcherId, ht, filterMap_cons]
  | watcherChange ht =>
    refine .keep (.of_eq ?_) (Nat.le_succ _)
    simp [Sys.watcherIds, Thread.watcherId, ht]
  | @watcherStop job path pre post ht =>
    refine .release job.id ?_ le_rfl
    simp only [Sys.watcherIds, Thread.watcherId, ht, filterMap_append, filterMap_cons]
    exact perm_middle
  | _ => exact .keep (.refl _) le_rfl

theorem Sys.Reachable.watcherIds {s : Sys} (h : s.Reachable) : Below s.watcherIds s.nextId :=
  Transition.Reachable.invariant (I := fun s => Below s.watcherIds s.nextId)
    (by rintro _ ⟨ms, rfl⟩; exact .nil _) (fun _ _ _ _ hb hl => hb.recycle hl.watcherIds) h

/-- Only the thread that is the watcher can have a change of it to post. -/
theorem postingBy_others {w : ℕ} {threads pre post : List Thread} {t : Thread}
    (hnodup : (threads.filterMap Thread.watcherId).Nodup) (ht : threads = pre ++ t :: post)
    (hw : t.watcherId = some w) :
    pre.flatMap (Thread.postingBy w) = [] ∧ post.flatMap (Thread.postingBy w) = [] := by
  rw [ht, filterMap_append, filterMap_cons_some hw, nodup_middle, nodup_cons, mem_append,
    not_or] at hnodup
  exact ⟨postingBy_eq_nil hnodup.1.1, postingBy_eq_nil hnodup.1.2⟩

namespace History

/-- What a watcher has detected, it has posted in that order, but for the last change. -/
def PostsInOrder (h : History) (s : Sys) : Prop :=
  ∀ w, h.detectedBy w = h.posted.filter (· ∈ h.detectedBy w) ++ s.postingBy w

theorem mem_detectedBy {h : History} {w : ℕ} {k : JobKey} :
    k ∈ h.detectedBy w ↔ (w, k) ∈ h.detected := by
  simp [detectedBy]

theorem mem_detected {h : History} {w : ℕ} {k : JobKey} (hk : k ∈ h.detectedBy w) :
    k ∈ h.detected.map Prod.snd :=
  mem_map.2 ⟨(w, k), mem_detectedBy.1 hk, rfl⟩

/-- A posted job that a watcher has not detected. -/
theorem filter_posted_other {h : History} {w : ℕ} {k : JobKey} (hk : k ∉ h.detectedBy w) :
    (h.posted ++ [k]).filter (· ∈ h.detectedBy w) = h.posted.filter (· ∈ h.detectedBy w) := by
  simp [filter_append, hk]

end History

theorem Step.postsInOrder {s s' : Sys} {l : Label} (hs : Step s l s') (hr : s.Reachable)
    {h : History} (hg : h.Given s) (hd : h.PostsInOrder s) :
    (h.record s l).PostsInOrder s' := by
  have hnodup := (Sys.Reachable.watcherIds hr).nodup
  intro w
  have hw := hd w
  cases hs with
  | @deliver _ _ _ pre post ht | @watcherStop _ _ pre post ht =>
    show h.detectedBy w =
      h.posted.filter (· ∈ h.detectedBy w) ++ (pre ++ post).flatMap (Thread.postingBy w)
    simpa [Sys.postingBy, Thread.postingBy, ht] using hw
  | @post job task objects pre post ht htask =>
    have hother : job.key ∉ h.detectedBy w := by
      intro hmem
      refine hg.working_not_detected hr ?_ (History.mem_detected hmem)
      simp [ht, Thread.working]
    show h.detectedBy w = (h.posted ++ [job.key]).filter (· ∈ h.detectedBy w) ++ _
    rw [History.filter_posted_other hother]
    simpa [Sys.postingBy, Thread.postingBy, ht] using hw
  | @watcherChange job path pre post ht =>
    show (h.record s (.watcherChange job path)).detectedBy w =
      h.posted.filter (· ∈ (h.record s (.watcherChange job path)).detectedBy w) ++
        (pre ++ .posting job path ⟨s.nextId, job.func, none⟩ :: post).flatMap (Thread.postingBy w)
    by_cases hjob : job.id = w
    · obtain ⟨hpre, hpost⟩ := postingBy_others hnodup ht (congrArg some hjob)
      have hdetected : (h.record s (.watcherChange job path)).detectedBy w =
          h.detectedBy w ++ [⟨s.nextId, job.func, false⟩] := by
        simp [History.record, History.detectedBy, hjob]
      have hfilter : h.posted.filter (· ∈ h.detectedBy w ++ [⟨s.nextId, job.func, false⟩]) =
          h.posted.filter (· ∈ h.detectedBy w) := by
        apply filter_congr
        intro k hk
        have hne : k ≠ ⟨s.nextId, job.func, false⟩ := by
          rintro rfl
          exact (hg.fresh hr job.func).1 hk
        simp [hne]
      have hold : h.detectedBy w = h.posted.filter (· ∈ h.detectedBy w) := by
        simpa [Sys.postingBy, Thread.postingBy, ht, hpre, hpost] using hw
      rw [hdetected, hfilter, ← hold]
      simp [Thread.postingBy, CallbackJob.key, hpre, hpost, hjob]
    · have hsame : (h.record s (.watcherChange job path)).detectedBy w = h.detectedBy w := by
        simp [History.record, History.detectedBy, hjob]
      rw [hsame]
      simpa [Sys.postingBy, Thread.postingBy, ht, hjob] using hw
  | @watcherPost job path localJob objects pre post ht =>
    show h.detectedBy w = (h.posted ++ [localJob.key]).filter (· ∈ h.detectedBy w) ++
      (pre ++ .watcher job path :: post).flatMap (Thread.postingBy w)
    obtain ⟨hpre, hpost⟩ := postingBy_others hnodup ht rfl
    have hposting : s.postingBy job.id = [localJob.key] := by
      simp [Sys.postingBy, Thread.postingBy, ht, hpre, hpost]
    have hmem : localJob.key ∈ h.detectedBy job.id := by
      rw [hd job.id, hposting]
      exact mem_append_right _ mem_cons_self
    by_cases hjob : job.id = w
    · subst hjob
      rw [hposting] at hw
      rw [filter_append, filter_cons_of_pos (by simpa using hmem), filter_nil, ← hw]
      simp [Thread.postingBy, hpre, hpost]
    · have hother : localJob.key ∉ h.detectedBy w := by
        intro hk
        have heq := inj_on_of_nodup_map (hg.detected_nodup hr) (History.mem_detectedBy.1 hmem)
          (History.mem_detectedBy.1 hk) rfl
        exact hjob (congrArg Prod.fst heq)
      rw [History.filter_posted_other hother]
      simpa [Sys.postingBy, Thread.postingBy, ht, hjob] using hw
  | _ => exact hw

theorem Recorded.Reachable.postsInOrder {x : Recorded} (h : x.Reachable) :
    x.history.PostsInOrder x.sys := by
  induction h with
  | start h =>
    obtain ⟨⟨ms, hs⟩, hh⟩ := h
    rw [hs, hh]
    exact fun w => rfl
  | tail hr hl ih =>
    obtain ⟨hs, hh⟩ := hl
    rw [hh]
    exact hs.postsInOrder (Reachable.sys hr) (Reachable.given hr) ih

theorem Recorded.Reachable.ordered {x : Recorded} (h : x.Reachable) :
    (x.sys.pipeline x.history).Ordered := by
  induction h with
  | start h =>
    obtain ⟨⟨ms, hs⟩, hh⟩ := h
    rw [hs, hh]
    exact Pipeline.ordered_empty
  | @tail x _ _ hr hl ih =>
    obtain ⟨hs, hh⟩ := hl
    rw [hh]
    exact ih.step (hs.pipeline x.history)

/-- A detected change that was given to a channel has been posted. -/
theorem Recorded.Reachable.posted_of_given {x : Recorded} (h : x.Reachable) {w : ℕ}
    {k : JobKey} (hk : k ∈ x.history.detectedBy w)
    (hgiven : k ∈ x.history.posted ++ x.history.direct) : k ∈ x.history.posted := by
  have hr := Reachable.sys h
  rw [Reachable.postsInOrder h w, mem_append] at hk
  rcases hk with hk | hk
  · exact (mem_filter.1 hk).1
  · -- what is still to be posted has been given to no channel
    have hcarried : k ∈ x.sys.carried.map CallbackJob.key := by
      obtain ⟨t, ht, hkt⟩ := mem_flatMap.1 hk
      cases t with
      | posting job path localJob =>
        simp only [Thread.postingBy] at hkt
        split at hkt
        · obtain rfl := mem_singleton.1 hkt
          exact mem_map_of_mem (mem_flatMap.2 ⟨_, ht, mem_singleton.2 rfl⟩)
        · cases hkt
      | _ => cases hkt
    have hplaces := (Reachable.given h).places k
    have hone := Sys.Reachable.registered_count_le hr k
    have hpos₁ := count_pos_iff.2 hcarried
    have hpos₂ : 0 < (x.history.posted ++ x.history.direct).count k := count_pos_iff.2 hgiven
    omega

/-- A detected change that was invoked has been posted. -/
theorem Recorded.Reachable.posted_of_detected {x : Recorded} (h : x.Reachable) {w : ℕ}
    {k : JobKey} (hk : k ∈ x.history.detectedBy w) (hinvoked : k ∈ x.sys.callbacksInvoked) :
    k ∈ x.history.posted :=
  Reachable.posted_of_given h hk ((Reachable.ordered h).mem_of_served hinvoked)

/-! ## The result -/

/-- **First in, first out on every channel.** In every reachable state the callback jobs invoked so
far are the first ones that entered `callbackQueue`, in that order; those that were posted as
messages are the first ones posted, those that were handed over directly the first ones handed over;
and those that one watcher detected are the first ones it detected. -/
theorem callbacks_fifo {x : Recorded} (h : x.Reachable) :
    x.sys.callbacksInvoked <+: x.history.entered.map Prod.snd ∧
      (∀ k ∈ x.sys.callbacksInvoked, k ∈ x.history.posted ++ x.history.direct) ∧
      x.sys.callbacksInvoked.filter (· ∈ x.history.posted) <+: x.history.posted ∧
      x.sys.callbacksInvoked.filter (· ∈ x.history.direct) <+: x.history.direct ∧
      ∀ w, x.sys.callbacksInvoked.filter (· ∈ x.history.detectedBy w) <+:
        x.history.detectedBy w := by
  have hr := Recorded.Reachable.sys h
  have hg := Recorded.Reachable.given h
  have hordered := Recorded.Reachable.ordered h
  have hnodup := hg.nodup hr
  obtain ⟨hentered, hposted, hdirect⟩ := hordered.served_prefix hnodup
  refine ⟨hentered, fun k hk => hordered.mem_of_served hk, hposted, hdirect, ?_⟩
  intro w
  have hinOrder := Recorded.Reachable.postsInOrder h w
  have hsame : x.sys.callbacksInvoked.filter (· ∈ x.history.detectedBy w) =
      (x.sys.callbacksInvoked.filter (· ∈ x.history.posted)).filter
        (· ∈ x.history.detectedBy w) := by
    rw [filter_filter]
    apply filter_congr
    intro k hk
    by_cases hdet : k ∈ x.history.detectedBy w
    · simp [hdet, Recorded.Reachable.posted_of_detected h hdet hk]
    · simp [hdet]
  rw [hsame]
  apply (hposted.filter _).trans
  exact ⟨_, hinOrder.symm⟩

/-- Two operations, one of which posts a message and one of which hands its job over while the
message is being built: they are invoked in the order in which they entered `callbackQueue`. -/
theorem callbacks_fifo_two : ∃ x : Recorded,
    x.sys.callbacksInvoked = [⟨1, .user 1 1, false⟩] ∧
      x.history.posted = [⟨0, .user 0 0, false⟩] ∧
      x.sys.callbacksInvoked <+: x.history.entered.map Prod.snd := by
  have started := (((Recorded.Reachable.step (.start ⟨⟨0, rfl⟩, rfl⟩) (.nextScript rfl)).step
    (@Step.startWorker _ (.user 0 0) (.stat []) rfl rfl)).step
    (@Step.startWorker _ (.user 1 1) (.read [] 0 0 0 0) rfl rfl)).step
    (@Step.scriptReturn _ false rfl rfl)
  have taken := ((started.step (@Step.post _ _ _ [] [_] [] rfl rfl)).step
    (.enterLoop rfl rfl)).step (.getFront rfl rfl)
  have entered := (taken.step (@Step.deliver _ _ _ [] [] [] rfl rfl)).step
    (@Step.build _ _ [] rfl)
  have invoked := ((entered.step (.drained rfl rfl)).step (.timersDone rfl rfl)).step
    (.invokeCallback rfl rfl rfl)
  exact ⟨_, rfl, rfl, (callbacks_fifo invoked).1⟩

end NanoJS
