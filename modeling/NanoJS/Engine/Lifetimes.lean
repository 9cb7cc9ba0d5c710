import NanoJS.Engine.Fifo
import NanoJS.Engine.Progress

/-!
# The lifetimes of jobs and messages

Jobs and messages are objects on the heap: `setTimeOut`, `setInterval`, the functions of `fs` and
the watchers allocate a job, `statsAsync` and the watchers a message with its objects and values;
`removeJob` deletes a job whose function has returned unless it is an interval, and `Run` deletes a
message that it has built. A run is recorded with the objects that are allocated
(`Objects.record`). They are the jobs and messages at their places, and the jobs of the watchers
(`Objects.Kept`), so no operation touches an object that has been deleted, and when `Run` has
returned one job is left for each call of `watchFile` (`object_lifetimes`).
-/

namespace NanoJS

open FreshIds List PriorityQueue Transition

/-! ## Objects -/

/-- An object on the heap. A message is told by its job, of which it is the only one. -/
inductive Obj
  | job (id : ℕ)
  /-- A message, its vector, its `objectProject`s and their values. -/
  | message (job : ℕ)
  deriving DecidableEq

/-- The objects of `new` in an operation. -/
def Label.allocates (s : Sys) : Label → List Obj
  | .timerCall .. | .startWorker .. | .watchFile .. | .watcherChange .. => [.job s.nextId]
  | .post job _ _ | .watcherPost job _ => [.message job.id]
  | _ => []

/-- The objects of `delete` in an operation. -/
def Label.deletes (s : Sys) : Label → List Obj
  | .build _ => s.pc.taken.map fun msg => .message msg.job.id
  | .jsReturn _ =>
    match s.pc with
    | .inTimer job => if job.isInterval then [] else [.job job.id]
    | .inCallback job => [.job job.id]
    | _ => []
  | _ => []

/-- The jobs in the heap, which pushing and popping compare. -/
def EventLoop.heapObjects (l : EventLoop) : List Obj := l.heap.map fun job => .job job.id

/-- The objects whose members an operation reads or writes. -/
def Label.accesses (s : Sys) : Label → List Obj
  | .timerRegister => s.native.createdIds.map .job
  | .timerInsert => s.native.inserting.map (fun job => .job job.id) ++ s.loop.heapObjects
  | .build _ => s.pc.taken.flatMap fun msg => [.message msg.job.id, .job msg.job.id]
  | .invokeTimer => (s.loop.timersQueue.take 1).map fun job => .job job.id
  | .invokeCallback => (s.loop.callbackQueue.take 1).map fun job => .job job.id
  | .jsReturn _ =>
    match s.pc with
    | .inTimer job => .job job.id :: if job.isInterval then s.loop.heapObjects else []
    | .inCallback job => [.job job.id]
    | _ => []
  | .moveTimer => s.loop.heapObjects
  | .updateDone =>
    match s.pc with
    | .updateTimers (some head) => [.job head.id]
    | _ => []
  | .deliver job _ _ => [.job job.id]
  | .post job _ _ => [.message job.id]
  -- `cpyJob` reads the watcher's job
  | .watcherChange job _ => [.job job.id, .job s.nextId]
  | .watcherPost job _ => [.message job.id]
  | _ => []

/-- The job of a watcher, which its changes copy. -/
def Label.watches (s : Sys) : Label → List ℕ
  | .watchFile .. => [s.nextId]
  | _ => []

/-- The objects that are allocated, and the jobs of the watchers among them. -/
structure Objects where
  live : List Obj
  watched : List ℕ

def Objects.empty : Objects := ⟨[], []⟩

/-- After an operation in the state `s`. -/
def Objects.record (o : Objects) (s : Sys) (l : Label) : Objects where
  live := (l.allocates s ++ o.live).diff (l.deletes s)
  watched := l.watches s ++ o.watched

/-- The states of a run with the objects that are allocated. -/
abbrev Sys.Allocating : Sys × Objects → Prop :=
  Recording Sys.Init Step Objects.record .empty

/-! ## The objects at their places -/

/-- The messages that are on their way. -/
def Sys.messages (s : Sys) : List Obj :=
  (s.pc.taken ++ s.loop.mQu).map fun msg => .message msg.job.id

/-- The jobs, but for those of the watchers, and the messages. -/
def Sys.objects (s : Sys) : List Obj :=
  s.native.createdIds.map .job ++ s.held.map (fun k => .job k.id) ++ s.messages

/-- What an operation allocates comes to a place, and what it deletes leaves it. -/
theorem Step.objects {s s' : Sys} {l : Label} (h : Step s l s') (hf : s.Control) :
    (l.allocates s ++ s.objects).Perm (l.deletes s ++ ((l.watches s).map .job ++ s'.objects)) := by
  have hled := h.ledger hf
  have hmove : s'.registered = s.registered →
      (∀ k, s.pc.running = some k → k.once = false ∨ s'.pc.running = some k) →
      (s'.held.map fun k => Obj.job k.id).Perm (s.held.map fun k => .job k.id) :=
    fun hg hr => (hled.held_move hg hr).map _
  have hregister : ∀ k, s'.registered = k :: s.registered →
      (s'.held.map fun k => Obj.job k.id).Perm (.job k.id :: s.held.map fun k => .job k.id) :=
    fun k hg => (hled.held_register hg).map fun k => Obj.job k.id
  have hdelete : ∀ k, s.pc.running = some k → s'.pc.running = none → k.once = true →
      (s.held.map fun k => Obj.job k.id).Perm (.job k.id :: s'.held.map fun k => .job k.id) :=
    fun k hb hr hk => (hled.held_delete hb hr hk).map fun k => Obj.job k.id
  -- when no object comes to a place and none leaves it
  have hstay : s'.native.createdIds = s.native.createdIds → s'.messages = s.messages →
      s'.registered = s.registered →
      (∀ k, s.pc.running = some k → k.once = false ∨ s'.pc.running = some k) →
      s.objects.Perm s'.objects := by
    intro hn hm hg hr
    rw [Sys.objects, Sys.objects, hn, hm]
    exact ((hmove hg hr).symm.append_left _).append_right _
  cases h with
  | tick | deliver | watcherStop => exact hstay rfl rfl rfl fun _ => .inr
  | timerInsert hn => exact hstay (by simp [Native.createdIds, hn]) rfl rfl fun _ => .inr
  | nextScript hpc | enterLoop hpc | leaveLoop hpc | drained hpc | timersDone hpc
  | updateTime hpc | updateDone hpc | invokeTimer hpc | invokeCallback hpc | moveTimer hpc =>
    refine hstay rfl ?_ rfl (by simp [Pc.running, hpc])
    simp [Sys.messages, Pc.taken, hpc, EventLoop.addTimedJob, EventLoop.updateTime]
  | scriptReturn hpc =>
    simp only [Label.allocates, Label.deletes, Label.watches, hpc, nil_append]
    refine hstay rfl ?_ rfl (by simp [Pc.running, hpc])
    simp [Sys.messages, Pc.taken, hpc]
  | getFront hpc hq =>
    refine hstay rfl ?_ rfl (by simp [Pc.running, hpc])
    simp [Sys.messages, Pc.taken, hpc, hq]
  | watchFile => exact .cons _ (hstay rfl rfl rfl fun _ => .inr)
  | timerCall hjs hn =>
    refine perm_iff_count.2 fun x => ?_
    have hheld := (hmove rfl fun _ => .inr).count_eq x
    simp only [Sys.objects, count_append, hheld]
    simp only [Label.allocates, Label.deletes, Label.watches, Sys.messages, Native.createdIds,
      newTimedJob, hn, map_cons, map_nil, count_cons, count_nil]
    omega
  | timerRegister hn =>
    refine perm_iff_count.2 fun x => ?_
    have hheld := (hregister _ rfl).count_eq x
    simp only [Sys.objects, count_append, hheld]
    simp only [Label.allocates, Label.deletes, Label.watches, Sys.messages, Native.createdIds,
      TimedJob.key, EventLoop.registerJob, EventLoop.updateTime, hn, map_cons, map_nil,
      count_cons, count_nil]
    omega
  | startWorker | watcherChange =>
    refine perm_iff_count.2 fun x => ?_
    have hheld := (hregister _ rfl).count_eq x
    simp only [Sys.objects, count_append, hheld]
    simp only [Label.allocates, Label.deletes, Label.watches, Sys.messages, EventLoop.registerJob,
      map_nil, count_cons, count_nil]
    omega
  | post | watcherPost =>
    refine perm_iff_count.2 fun x => ?_
    have hheld := (hmove rfl fun _ => .inr).count_eq x
    simp only [Sys.objects, count_append, hheld]
    simp only [Label.allocates, Label.deletes, Label.watches, Sys.messages, EventLoop.addMsgJob,
      map_append, map_cons, map_nil, count_append, count_cons, count_nil]
    omega
  | build hpc =>
    refine perm_iff_count.2 fun x => ?_
    have hheld := (hmove rfl (by simp [Pc.running, hpc])).count_eq x
    simp only [Sys.objects, count_append, hheld]
    simp only [Label.allocates, Label.deletes, Label.watches, Sys.messages, Pc.taken,
      EventLoop.addCallbackJob, hpc, map_append, map_cons, map_nil, count_append, count_cons,
      count_nil]
    omega
  | @timerReturn _ job hpc hn =>
    cases hi : job.isInterval with
    | true =>
      refine .trans (hstay rfl ?_ rfl ?_) (.of_eq ?_)
      · simp [Sys.messages, Pc.taken, EventLoop.removeJob, EventLoop.addJobToTimersHeap, hpc, hi]
      · simp [Pc.running, JobKey.once, TimedJob.key, hpc, hi]
      · simp [Label.deletes, Label.watches, hpc, hi]
    | false =>
      refine perm_iff_count.2 fun x => ?_
      have hheld := (hdelete job.key (by simp [Pc.running, hpc]) rfl
        (by simp [JobKey.once, TimedJob.key, hi])).count_eq x
      simp only [Sys.objects, count_append, hheld]
      simp only [Label.allocates, Label.deletes, Label.watches, Sys.messages, Pc.taken,
        TimedJob.key, EventLoop.removeJob, EventLoop.withdrawJob, hpc, hi, Bool.false_eq_true,
        if_false, map_nil, count_cons, count_nil]
      omega
  | @callbackReturn _ job hpc hn =>
    refine perm_iff_count.2 fun x => ?_
    have hheld := (hdelete job.key (by simp [Pc.running, hpc]) rfl rfl).count_eq x
    simp only [Sys.objects, count_append, hheld]
    simp only [Label.allocates, Label.deletes, Label.watches, Sys.messages, Pc.taken,
      CallbackJob.key, EventLoop.removeJob, EventLoop.withdrawJob, hpc, map_nil, count_cons,
      count_nil]
    omega

/-! ## What an operation accesses -/

theorem Sys.job_mem_objects {s : Sys} {k : JobKey} (h : k ∈ s.held) : .job k.id ∈ s.objects :=
  mem_append_left _ (mem_append_right _ (mem_map_of_mem h))

/-- The jobs in the queues and in the heap are at their places. -/
theorem Sys.queues_subset (s : Sys) :
    (∀ job ∈ s.loop.timersQueue, .job job.id ∈ s.objects) ∧
      (∀ job ∈ s.loop.callbackQueue, .job job.id ∈ s.objects) ∧
      s.loop.heapObjects ⊆ s.objects := by
  refine ⟨fun job hj => ?_, fun job hj => ?_, fun x hx => ?_⟩
  · exact job_mem_objects (mem_held.2 (.inr (.inl (mem_map_of_mem hj))))
  · exact job_mem_objects (mem_held.2 (.inr (.inr (.inl (mem_map_of_mem hj)))))
  · obtain ⟨job, hj, rfl⟩ := mem_map.1 hx
    exact job_mem_objects (mem_held.2 (.inl (mem_map_of_mem hj)))

/-- An operation accesses what it allocates, the job of a watcher thread, and what is at its
place. -/
theorem Step.accesses {s s' : Sys} {l : Label} (h : Step s l s') (hr : s.Reachable) :
    ∀ x ∈ l.accesses s, x ∈ l.allocates s ∨ x ∈ s.watcherIds.map .job ∨ x ∈ s.objects := by
  have hf := Sys.Reachable.control hr
  obtain ⟨htimers, hcallbacks, hheap⟩ := s.queues_subset
  intro x hx
  cases h with
  | timerRegister => exact .inr (.inr (mem_append_left _ (mem_append_left _ hx)))
  | timerInsert hn =>
    refine .inr (.inr ?_)
    rcases mem_append.1 hx with hx | hx
    · obtain ⟨job, hj, rfl⟩ := mem_map.1 hx
      refine Sys.job_mem_objects (k := job.key) (Sys.mem_held.2 ?_)
      exact .inr (.inr (.inr (.inr (.inr (.inr (mem_map_of_mem hj))))))
    · exact hheap hx
  | @build msg args hpc =>
    refine .inr (.inr ?_)
    have hmsg : msg ∈ s.pc.taken := by simp [hpc, Pc.taken]
    simp only [Label.accesses, hpc, Pc.taken, flatMap_singleton, mem_cons, not_mem_nil,
      or_false] at hx
    rcases hx with rfl | rfl
    · exact mem_append_right _ (mem_map_of_mem (mem_append_left _ hmsg))
    · refine Sys.job_mem_objects (k := msg.job.key) (Sys.mem_held.2 ?_)
      exact .inr (.inr (.inr (.inr (.inr (.inl (mem_map_of_mem hmsg))))))
  | @invokeTimer job rest hpc hq =>
    obtain rfl : x = .job job.id := by simpa [Label.accesses, hq] using hx
    exact .inr (.inr (htimers job (by simp [hq])))
  | @invokeCallback job rest args hpc hq hargs =>
    obtain rfl : x = .job job.id := by simpa [Label.accesses, hq] using hx
    exact .inr (.inr (hcallbacks job (by simp [hq])))
  | scriptReturn hpc => simp [Label.accesses, hpc] at hx
  | @timerReturn _ job hpc hn =>
    refine .inr (.inr ?_)
    obtain ⟨rest, hq⟩ := hf.timer job hpc
    simp only [Label.accesses, hpc, mem_cons] at hx
    rcases hx with rfl | hx
    · exact htimers job (by simp [hq])
    · split at hx
      · exact hheap hx
      · cases hx
  | @callbackReturn _ job hpc hn =>
    obtain ⟨rest, hq⟩ := hf.callback job hpc
    obtain rfl : x = .job job.id := by simpa [Label.accesses, hpc] using hx
    exact .inr (.inr (hcallbacks job (by simp [hq])))
  | moveTimer => exact .inr (.inr (hheap hx))
  | @updateDone head hpc hdue =>
    refine .inr (.inr ?_)
    rcases head with _ | job
    · simp [Label.accesses, hpc] at hx
    · obtain rfl : x = .job job.id := by simpa [Label.accesses, hpc] using hx
      exact hheap (mem_map_of_mem ((Sys.Reachable.prepared hr).head _ hpc).1)
  | @deliver job task args pre post ht =>
    obtain rfl := mem_singleton.1 hx
    refine .inr (.inr (Sys.job_mem_objects (k := job.key) (Sys.mem_held.2 ?_)))
    exact .inr (.inr (.inr (.inr (.inl (by simp [Sys.carried, ht, Thread.carried])))))
  | post | watcherPost => exact .inl hx
  | @watcherChange job path pre post ht =>
    rcases mem_cons.1 hx with rfl | hx
    · exact .inr (.inl (by simp [Sys.watcherIds, ht, Thread.watcherId]))
    · exact .inl hx
  | _ => cases hx

/-! ## The objects that are allocated -/

/-- The jobs of the watchers and the jobs created are distinct, and those of the watcher threads are
among them. -/
structure Objects.Watched (o : Objects) (s : Sys) : Prop where
  ids : Below (o.watched ++ s.jobIds) s.nextId
  threads : s.watcherIds ⊆ o.watched

theorem Step.watched {s s' : Sys} {l : Label} (h : Step s l s') {o : Objects} (hw : o.Watched s) :
    (o.record s l).Watched s' := by
  obtain ⟨hids, hthreads⟩ := hw
  have hrec := h.recycles
  cases h with
  | watchFile => exact ⟨hids.recycle (.take (.refl _) rfl), cons_subset_cons _ hthreads⟩
  | startWorker => exact ⟨hids.recycle (hrec.append_left _), hthreads⟩
  | deliver ht | post ht | watcherPost ht | watcherChange ht | watcherStop ht =>
    refine ⟨hids.recycle (hrec.append_left _), fun i hi => hthreads ?_⟩
    simp only [Sys.watcherIds, Thread.watcherId, ht, filterMap_append, filterMap_cons,
      mem_append, mem_cons] at hi ⊢
    tauto
  | _ => exact ⟨hids.recycle (hrec.append_left _), hthreads⟩

/-- A registered job that is present is of the jobs registered. -/
theorem Sys.Reachable.held_subperm {s : Sys} (h : s.Reachable) : s.held.Subperm s.registered :=
  subperm_ext_iff.2 fun k _ => (Reachable.sound h).held_le k

/-- The jobs at their places and those of the watchers are distinct. -/
theorem Objects.Watched.nodup {o : Objects} {s : Sys} (h : o.Watched s) (hr : s.Reachable) :
    (o.watched ++ (s.native.createdIds ++ s.held.map JobKey.id)).Nodup := by
  obtain ⟨l, hperm, hsub⟩ := Sys.Reachable.held_subperm hr
  have hids : (o.watched ++ (s.native.createdIds ++ l.map JobKey.id)).Nodup :=
    h.ids.nodup.sublist (((hsub.map _).append_left _).append_left _)
  exact (((hperm.map JobKey.id).append_left _).append_left _).nodup_iff.1 hids

theorem append_diff_self (deletes rest : List Obj) : (deletes ++ rest).diff deletes = rest := by
  induction deletes with
  | nil => rfl
  | cons x deletes ih => rw [cons_append, diff_cons, erase_cons_head, ih]

/-- What is allocated is at its place, or the job of a watcher. -/
structure Objects.Kept (o : Objects) (s : Sys) : Prop where
  watched : o.Watched s
  live : o.live.Perm (o.watched.map .job ++ s.objects)

theorem Step.kept {s s' : Sys} {l : Label} (h : Step s l s') (hr : s.Reachable) {o : Objects}
    (hk : o.Kept s) : (o.record s l).Kept s' := by
  refine ⟨h.watched hk.watched, ?_⟩
  -- `deletes` leave the objects at their places
  have hobj := h.objects (Sys.Reachable.control hr)
  have hlive : (l.allocates s ++ o.live).Perm
      (l.deletes s ++ ((o.record s l).watched.map .job ++ s'.objects)) := by
    refine perm_iff_count.2 fun x => ?_
    have h₁ := hobj.count_eq x
    have h₂ := hk.live.count_eq x
    simp only [Objects.record, map_append, count_append] at h₁ h₂ ⊢
    omega
  exact (hlive.diff_right _).trans (.of_eq (append_diff_self _ _))

theorem Sys.Allocating.kept {x : Sys × Objects} (h : Sys.Allocating x) : x.2.Kept x.1 := by
  induction h with
  | start h =>
    obtain ⟨⟨ms, hs⟩, ho⟩ := h
    rw [hs, ho]
    exact ⟨⟨.nil _, Subset.refl _⟩, .refl _⟩
  | tail hx hl ih =>
    rw [hl.2]
    exact hl.1.kept (Recording.reachable hx) ih

/-- The jobs of the messages are distinct, and none of them is with a thread. -/
theorem Sys.Reachable.messages_nodup {s : Sys} (h : s.Reachable) :
    (s.carried.map CallbackJob.id ++ (s.pc.taken ++ s.loop.mQu).map (·.job.id)).Nodup := by
  have hheld := Reachable.held_nodup h
  simp only [Sys.held, Sys.inFlight, map_append, map_map] at hheld
  refine nodup_iff_count_le_one.2 fun i => ?_
  have hone := nodup_iff_count_le_one.1 hheld i
  simp only [map_append, count_append] at hone ⊢
  have hkey : JobKey.id ∘ CallbackJob.key = CallbackJob.id := rfl
  have hmsg : (JobKey.id ∘ fun msg : Message => msg.job.key) = fun msg => msg.job.id := rfl
  rw [hkey, hmsg] at hone
  omega

theorem Sys.messages_eq (s : Sys) :
    s.messages = ((s.pc.taken ++ s.loop.mQu).map (·.job.id)).map .message := by
  rw [messages, map_map]
  rfl

/-- A job with a thread has no message yet. -/
theorem Sys.Reachable.message_new {s : Sys} (h : s.Reachable) {job : CallbackJob}
    (hj : job ∈ s.carried) : Obj.message job.id ∉ s.messages := by
  rw [Sys.messages_eq, mem_map_of_injective fun _ _ => Obj.message.inj]
  intro hm
  exact (nodup_append.1 (Reachable.messages_nodup h)).2.2 _ (mem_map_of_mem hj) _ hm rfl

/-- A job at its place is allocated. -/
theorem Objects.Kept.held {s : Sys} {o : Objects} (hk : o.Kept s) {k : JobKey} (h : k ∈ s.held) :
    .job k.id ∈ o.live := by
  refine hk.live.mem_iff.2 (mem_append_right _ ?_)
  exact mem_append_left _ (mem_append_right _ (mem_map_of_mem h))

section

variable {s s' : Sys} {o : Objects} {l : Label} (hr : s.Reachable) (hk : o.Kept s)

include hr hk

theorem Objects.Kept.nodup : o.live.Nodup := by
  rw [hk.live.nodup_iff]
  have hjobs : o.watched.map .job ++ s.objects =
      (o.watched ++ (s.native.createdIds ++ s.held.map JobKey.id)).map .job ++ s.messages := by
    simp [Sys.objects, Function.comp_def]
  rw [hjobs, nodup_append]
  refine ⟨(hk.watched.nodup hr).map fun _ _ => Obj.job.inj, ?_, ?_⟩
  · rw [Sys.messages_eq]
    exact (nodup_append.1 (Sys.Reachable.messages_nodup hr)).2.1.map fun _ _ => Obj.message.inj
  · rintro _ hx _ hy rfl
    obtain ⟨i, -, rfl⟩ := mem_map.1 hx
    obtain ⟨msg, -, hmsg⟩ := mem_map.1 hy
    cases hmsg

/-- A job that is allocated has been given its identity. -/
theorem Objects.Kept.lt {i : ℕ} (h : .job i ∈ o.live) : i < s.nextId := by
  refine hk.watched.ids.lt i ?_
  have h := hk.live.mem_iff.1 h
  simp only [Sys.objects, Sys.messages, mem_append, mem_map, Obj.job.injEq, exists_eq_right,
    reduceCtorEq, and_false, exists_false, or_false] at h
  simp only [Sys.jobIds, mem_append, mem_map]
  rcases h with h | h | ⟨k, hkey, rfl⟩
  · exact .inl h
  · exact .inr (.inl h)
  · exact .inr (.inr ⟨k, (Sys.Reachable.held_subperm hr).subset hkey, rfl⟩)

/-- What is allocated is not allocated yet. -/
theorem Objects.Kept.allocates (h : Step s l s') : ∀ x ∈ l.allocates s, x ∉ o.live := by
  have hjob : Obj.job s.nextId ∉ o.live := fun hx => lt_irrefl _ (hk.lt hr hx)
  have hmessage : ∀ job ∈ s.carried, Obj.message job.id ∉ o.live := by
    intro job hj hx
    have hx := hk.live.mem_iff.1 hx
    simp only [Sys.objects, mem_append, mem_map, reduceCtorEq, and_false, exists_false,
      false_or] at hx
    exact Sys.Reachable.message_new hr hj hx
  cases h with
  | timerCall | startWorker | watchFile | watcherChange => simpa [Label.allocates] using hjob
  | post ht | watcherPost ht =>
    have := hmessage _ (by simp [Sys.carried, ht, Thread.carried]; tauto)
    simpa [Label.allocates] using this
  | _ => simp [Label.allocates]

/-- What is deleted is allocated. -/
theorem Objects.Kept.deletes (h : Step s l s') : ∀ x ∈ l.deletes s, x ∈ o.live := by
  intro x hx
  have hobj := (h.objects (Sys.Reachable.control hr)).mem_iff.2 (mem_append_left _ hx)
  have hnone : l.allocates s = [] := by
    cases l with
    | build | jsReturn => rfl
    | _ => cases hx
  rw [hnone, nil_append] at hobj
  exact hk.live.mem_iff.2 (mem_append_right _ hobj)

/-- What is accessed is allocated. -/
theorem Objects.Kept.accesses (h : Step s l s') :
    ∀ x ∈ l.accesses s, x ∈ l.allocates s ++ o.live := by
  intro x hx
  refine mem_append.2 ((h.accesses hr x hx).imp_right fun hx => ?_)
  refine hk.live.mem_iff.2 (mem_append.2 (hx.imp_left fun hx => ?_))
  exact map_subset _ hk.watched.threads hx

end

/-! ## The result -/

/-- **The lifetimes of jobs and messages.** In every run: what is allocated is distinct, and at its
place or the job of a watcher; an operation allocates what is not allocated, accesses nothing but
what is allocated, and deletes nothing but what is allocated; and when `Run` has returned, what is
still allocated is one job for each call of `watchFile`. -/
theorem object_lifetimes {s : Sys} {o : Objects} (h : Sys.Allocating (s, o)) :
    o.live.Nodup ∧ o.live.Perm (o.watched.map .job ++ s.objects) ∧
      (∀ l s', Step s l s' → (∀ x ∈ l.allocates s, x ∉ o.live) ∧
        (∀ x ∈ l.accesses s, x ∈ l.allocates s ++ o.live) ∧ ∀ x ∈ l.deletes s, x ∈ o.live) ∧
      (s.pc = .start → o.live.Perm (o.watched.map .job)) := by
  have hr : s.Reachable := Recording.reachable h
  have hk := h.kept
  refine ⟨hk.nodup hr, hk.live, fun l s' hl => ⟨hk.allocates hr hl, hk.accesses hr hl,
    hk.deletes hr hl⟩, fun hpc => ?_⟩
  have hpending := Sys.Reachable.quiet hr hpc
  obtain ⟨-, -, -, hm, ht, -, -⟩ := Sys.empty_of_pending hpending
  have hnative : s.native = .idle :=
    (Sys.Reachable.control hr).native.resolve_right (by simp [hpc, Pc.inJs])
  have hnone : s.objects = [] := by
    simp [Sys.objects, Sys.messages, Native.createdIds, Sys.held_of_pending hpending, hm, ht,
      hnative]
  simpa [hnone] using hk.live

/-- A run whose `Run` returns: a script asks for the metadata of a file and watches another; the
watcher stops, and the job that is left is the watcher's. -/
theorem object_lifetimes_watched : ∃ x : Sys × Objects, Sys.Allocating x ∧ x.1.pc = .start ∧
    x.2.live = [.job 1] ∧ x.2.live.Nodup ∧ x.2.live.Perm (x.2.watched.map .job) := by
  have posted := Recording.tail (Recording.tail (Recording.tail (Recording.tail (Recording.tail
    (Transition.Reachable.start ⟨⟨0, rfl⟩, rfl⟩ : Sys.Allocating (_, _))
    (.nextScript rfl)) (@Step.startWorker _ (.user 0 0) (.stat []) rfl rfl))
    (@Step.watchFile _ (.user 1 1) [] rfl rfl)) (@Step.scriptReturn _ false rfl rfl))
    (@Step.post _ _ _ [] [_] [] rfl rfl)
  have called := Recording.tail (Recording.tail (Recording.tail (Recording.tail (Recording.tail
    (Recording.tail posted (.enterLoop rfl rfl)) (.getFront rfl rfl)) (@Step.build _ _ [.null] rfl))
    (.drained rfl rfl)) (.timersDone rfl rfl)) (.invokeCallback rfl rfl rfl)
  have left := Recording.tail (Recording.tail (Recording.tail (Recording.tail
    (Recording.tail called (@Step.callbackReturn _ false _ rfl rfl))
    (@Step.updateTime _ none rfl rfl rfl)) (.updateDone rfl (by simp)))
    (@Step.watcherStop _ _ _ [] [] rfl)) (.leaveLoop rfl rfl)
  obtain ⟨hnodup, -, -, hover⟩ := object_lifetimes left
  exact ⟨_, left, rfl, rfl, hnodup, hover rfl⟩

end NanoJS
