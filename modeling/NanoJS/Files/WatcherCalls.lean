import NanoJS.Engine.Intervals
import NanoJS.Files.Watcher

/-!
# The calls of a watcher's callback

What becomes of the messages of a watcher: they go through the queue of messages, `message::build`
and the queue of callbacks, among those of all other threads, until the loop calls the callback. So
in every run in which the polls of a watcher are complete, its callback has been called for the
first changes that the watcher has seen, once for each, in the order in which it saw them, and with
the object that names the file; and when nothing is on the way, for all of them (`watcher_calls`).
-/

namespace NanoJS

open List

/-! ## What is on the way -/

/-- The messages that are not built yet. -/
def Sys.unbuilt (s : Sys) : List Message := s.pc.taken ++ s.loop.mQu

/-- The jobs in `callbackQueue` whose function has not been called. -/
def Sys.waitingJobs (s : Sys) : List CallbackJob :=
  if s.pc.inCallback? then s.loop.callbackQueue.tail else s.loop.callbackQueue

def Event.callbackJob? : Event → Option CallbackJob
  | .callbackInvoked job => some job
  | _ => none

/-- The callback jobs, those whose function has been called and those that wait. -/
def Sys.callbackJobs (s : Sys) : List CallbackJob :=
  s.log.filterMap Event.callbackJob? ++ s.waitingJobs

/-- The messages that a step posts. -/
def Label.posted : Label → List Message
  | .post job _ objects | .watcherPost job objects => [⟨job, objects⟩]
  | _ => []

/-- The jobs that a step puts into `callbackQueue`. -/
def Label.entered (s : Sys) : Label → List CallbackJob
  | .deliver job _ args => [{ job with args := some args }]
  | .build args => s.pc.taken.map fun msg => { msg.job with args := some args }
  | _ => []

/-- A message on the way was, or the step posts it. -/
theorem Step.unbuilt {s s' : Sys} {l : Label} (hs : Step s l s') {msg : Message}
    (hmsg : msg ∈ s'.unbuilt) : msg ∈ s.unbuilt ∨ msg ∈ l.posted := by
  unfold Sys.unbuilt at hmsg ⊢
  cases hs with
  | getFront hpc hq =>
    left
    simpa [Pc.taken, hpc, hq] using hmsg
  | build hpc =>
    left
    exact mem_append_right _ hmsg
  | post | watcherPost =>
    simp only [EventLoop.addMsgJob, Label.posted, mem_append] at hmsg ⊢
    tauto
  | @timerReturn threw job hpc hn =>
    left
    cases hi : job.isInterval <;>
      simpa [Pc.taken, EventLoop.removeJob, EventLoop.withdrawJob, EventLoop.addJobToTimersHeap,
        hpc, hi] using hmsg
  | nextScript hpc | scriptReturn hpc | callbackReturn hpc | enterLoop hpc | leaveLoop hpc
  | drained hpc | invokeTimer hpc | timersDone hpc | invokeCallback hpc | updateTime hpc
  | moveTimer hpc | updateDone hpc =>
    left
    simpa [Pc.taken, EventLoop.removeJob, EventLoop.withdrawJob, EventLoop.updateTime,
      EventLoop.addTimedJob, hpc] using hmsg
  | _ => exact .inl hmsg

/-- A callback job was one, or the step puts it into the queue. -/
theorem Step.callbackJobs {s s' : Sys} {l : Label} (hs : Step s l s')
    (hserving : s.pc.inCallback? = true → s.loop.callbackQueue ≠ []) {job : CallbackJob}
    (hjob : job ∈ s'.callbackJobs) : job ∈ s.callbackJobs ∨ job ∈ l.entered s := by
  have hentered : ∀ (new : CallbackJob) (log : List CallbackJob), job ∈ log ++
      (if s.pc.inCallback? then (s.loop.callbackQueue ++ [new]).tail
        else s.loop.callbackQueue ++ [new]) →
      job ∈ log ++ (if s.pc.inCallback? then s.loop.callbackQueue.tail else s.loop.callbackQueue) ∨
        job ∈ [new] := by
    intro new log hmem
    rw [← mem_append, append_assoc]
    cases hp : s.pc.inCallback? with
    | false => simpa [hp] using hmem
    | true => simpa [hp, tail_append_of_ne_nil (hserving hp)] using hmem
  unfold Sys.callbackJobs Sys.waitingJobs at hjob ⊢
  cases hs with
  | deliver => exact hentered _ _ hjob
  | build hpc =>
    simp only [Label.entered, hpc, Pc.taken, map_cons, map_nil]
    simpa [Pc.inCallback?, EventLoop.addCallbackJob, hpc, or_assoc] using hjob
  | @invokeCallback job' rest args hpc hq hargs =>
    left
    simpa [Pc.inCallback?, Event.callbackJob?, hpc, hq, or_left_comm, or_assoc] using hjob
  | @timerReturn threw job' hpc hn =>
    left
    cases hi : job'.isInterval <;>
      simpa [Pc.inCallback?, EventLoop.removeJob, EventLoop.withdrawJob,
        EventLoop.addJobToTimersHeap, hpc, hi] using hjob
  | callbackReturn hpc =>
    left
    simpa [Pc.inCallback?, EventLoop.removeJob, EventLoop.withdrawJob, hpc] using hjob
  | nextScript hpc | scriptReturn hpc | enterLoop hpc | leaveLoop hpc | getFront hpc
  | drained hpc | invokeTimer hpc | timersDone hpc | updateTime hpc
  | moveTimer hpc | updateDone hpc =>
    left
    simpa [Pc.inCallback?, Event.callbackJob?, EventLoop.updateTime, EventLoop.addTimedJob, hpc]
      using hjob
  | _ => exact .inl hjob

/-- Where a message on the way, and a callback job, are in the history. -/
theorem Recorded.Reachable.posted_of_message {x : Recorded} (h : x.Reachable) {msg : Message}
    (hmsg : msg ∈ x.sys.unbuilt) : msg.job.key ∈ x.history.posted := by
  have hposted := (Reachable.ordered h).posted
  have hmem : msg.job.key ∈ (x.sys.pipeline x.history).upstream := by
    show _ ∈ x.sys.pc.taken.map (·.job.key) ++ x.sys.loop.mQu.map (·.job.key)
    rw [← map_append]
    exact mem_map_of_mem hmsg
  have hall : msg.job.key ∈ (x.sys.pipeline x.history).posted := by
    rw [hposted]
    exact mem_append_right _ hmem
  exact hall

theorem Sys.served_append_waiting (s : Sys) (h : History) {k : JobKey} :
    k ∈ (s.pipeline h).served ++ (s.pipeline h).waiting ↔
      k ∈ s.callbackJobs.map CallbackJob.key := by
  have hserved : k ∈ s.callbacksInvoked ↔
      k ∈ (s.log.filterMap Event.callbackJob?).map CallbackJob.key := by
    rw [Sys.callbacksInvoked, mem_reverse, map_filterMap]
    simp only [mem_filterMap]
    refine exists_congr fun e => and_congr_right fun _ => ?_
    cases e <;> rfl
  have hwaiting : (s.pipeline h).waiting = s.waitingJobs.map CallbackJob.key := by
    unfold Pipeline.waiting Sys.waitingJobs Sys.pipeline
    cases s.pc.inCallback? <;> simp
  rw [Sys.callbackJobs, map_append, mem_append, mem_append, ← hserved, hwaiting]
  rfl

theorem Recorded.Reachable.given_of_callbackJob {x : Recorded} (h : x.Reachable)
    {job : CallbackJob} (hjob : job ∈ x.sys.callbackJobs) :
    job.key ∈ x.history.posted ++ x.history.direct :=
  (Reachable.ordered h).mem_of_entered
    ((x.sys.served_append_waiting x.history).2 (mem_map_of_mem hjob))

theorem Recorded.Reachable.serving {x : Recorded} (h : x.Reachable)
    (hpc : x.sys.pc.inCallback? = true) : x.sys.loop.callbackQueue ≠ [] := by
  intro hnil
  apply (Reachable.ordered h).serving hpc
  simp [Sys.pipeline, hnil]

/-- **Where the changes are** that a watcher has detected: their callbacks have been called, or
wait, or are still messages, or the last one is not posted, in this order. -/
theorem Recorded.Reachable.detected_split {x : Recorded} (h : x.Reachable) (w : ℕ) :
    x.history.detectedBy w =
      x.sys.callbacksInvoked.filter (· ∈ x.history.detectedBy w) ++
        (x.sys.waitingJobs.map CallbackJob.key).filter (· ∈ x.history.detectedBy w) ++
        (x.sys.unbuilt.map (·.job.key)).filter (· ∈ x.history.detectedBy w) ++
        x.sys.postingBy w := by
  have hordered := Reachable.ordered h
  have hsplit := hordered.posted_split ((Reachable.given h).nodup (Reachable.sys h))
  have hdrop : ∀ l : List JobKey, (∀ k ∈ l, k ∈ x.history.posted ++ x.history.direct) →
      (l.filter (· ∈ x.history.posted)).filter (· ∈ x.history.detectedBy w) =
        l.filter (· ∈ x.history.detectedBy w) := by
    intro l hl
    rw [filter_filter]
    refine filter_congr fun k hk => ?_
    by_cases hdet : k ∈ x.history.detectedBy w
    · simp [hdet, Reachable.posted_of_given h hdet (hl k hk)]
    · simp [hdet]
  have hwaiting : (x.sys.pipeline x.history).waiting = x.sys.waitingJobs.map CallbackJob.key := by
    unfold Pipeline.waiting Sys.waitingJobs Sys.pipeline
    cases x.sys.pc.inCallback? <;> simp
  have hserved := hdrop x.sys.callbacksInvoked fun k hk =>
    hordered.mem_of_entered (mem_append_left _ hk)
  have hwaited := hdrop (x.sys.waitingJobs.map CallbackJob.key) fun k hk =>
    hordered.mem_of_entered (mem_append_right _ (hwaiting ▸ hk))
  have hposted : x.history.posted = x.sys.callbacksInvoked.filter (· ∈ x.history.posted) ++
      (x.sys.waitingJobs.map CallbackJob.key).filter (· ∈ x.history.posted) ++
      x.sys.unbuilt.map (·.job.key) := by
    rw [← hwaiting, Sys.unbuilt, map_append]
    exact hsplit
  have hinOrder := Reachable.postsInOrder h w
  have hfilter := congrArg (filter (· ∈ x.history.detectedBy w)) hposted
  rw [filter_append, filter_append, hserved, hwaited] at hfilter
  rw [← hfilter]
  exact hinOrder

/-! ## Runs with their history -/

/-- The job of the message that is posted. -/
def WatcherAct.posted? : WatcherAct → Option JobKey
  | .addMsgJob msg _ => some msg.job.key
  | _ => none

/-- The job of the change that is not posted yet. -/
def WatcherPhase.posting? : WatcherPhase → List JobKey
  | .posting _ _ localJob _ => [localJob.key]
  | _ => []

namespace WatcherThread

/-- The jobs of the changes that the thread has seen. -/
def noted (t : WatcherThread) : List JobKey :=
  t.acts.filterMap WatcherAct.posted? ++ t.phase.posting?

/-- The job of a change. -/
def key (t : WatcherThread) (id : ℕ) : JobKey := ⟨id, t.job.func, false⟩

theorem filterMap_of_notifies {t : WatcherThread} {c : List UInt8} {ids : List ℕ}
    {acts : List WatcherAct} (h : Notifies t.note c ids acts) :
    acts.filterMap WatcherAct.posted? = ids.map t.key := by
  induction h with
  | first c => rfl
  | same h ih =>
    rw [filterMap_append, ih]
    exact append_nil _
  | change i hne h ih =>
    rw [filterMap_append, ih, map_append]
    rfl

/-- The record of a thread names the jobs of its changes. -/
theorem Correct.noted {t : WatcherThread} {ids : List ℕ} (h : t.Correct ids) :
    t.noted = ids.map t.key := by
  unfold WatcherThread.noted
  cases h with
  | starting hp ha hi =>
    rw [hp, ha, hi]
    rfl
  | polling c hp h =>
    rw [hp, filterMap_of_notifies h]
    exact append_nil _
  | posting c i hp h =>
    rw [hp, ← filterMap_of_notifies h, filterMap_append]
    rfl
  | stopped c acts hp h ha =>
    rw [hp, ha, ← filterMap_of_notifies h, filterMap_append]
    exact (append_nil _).trans (append_nil _)

end WatcherThread

variable (v8 : V8)

/-- The arguments of the callback of a change. -/
def changeArgs (path : CString) : List Value := .null :: (changeObjects path).map (buildObject v8)

/-- Messages are built by `message::build`. -/
def WatchedSys.Builds (x x' : WatchedSys) : Prop :=
  ∀ msg, x.sys.pc = .build msg → x'.sys.pc ≠ .build msg →
    x'.sys.loop = x.sys.loop.addCallbackJob { msg.job with args := some (msg.build v8) }

/-- The states of runs in which messages are so built, and every poll of the watcher `w` is
complete. -/
abbrev WatchedSys.Running (w : ℕ) : WatchedSys → Prop :=
  Transition.Reachable (fun x => x.sys.Init ∧ ∀ w, x.watcher w = none)
    fun x l x' => WatchStep x l x' ∧ (∀ p, l = some (w, p) → p.Complete) ∧ x.Builds v8 x'

/-- The jobs of the changes that a thread has seen, when there is one. -/
def notedBy (record : Option WatcherThread) : List JobKey := record.elim [] WatcherThread.noted

/-- The watcher is new, or of the same file. -/
def SameFile (record record' : Option WatcherThread) : Prop :=
  ∀ t', record' = some t' → record = none ∨ ∃ t, record = some t ∧ t.path = t'.path

theorem SameFile.refl (record : Option WatcherThread) : SameFile record record :=
  fun t ht => .inr ⟨t, ht, rfl⟩

/-- The history knows what the watcher `w` has seen, and what is on the way of it names the
file. -/
structure Followed (w : ℕ) (s : Sys) (record : Option WatcherThread) (h : History) : Prop where
  run : Recorded.Reachable ⟨s, h⟩
  detected : h.detectedBy w = notedBy record
  objects : ∀ t, record = some t → ∀ msg ∈ s.unbuilt, msg.job.key ∈ h.detectedBy w →
    msg.objects = changeObjects t.path
  args : ∀ t, record = some t → ∀ job ∈ s.callbackJobs, job.key ∈ h.detectedBy w →
    job.args = some (changeArgs v8 t.path)

/-- A change that a step detects was on no channel before. -/
theorem Step.detected_before {s s' : Sys} {l : Label} (hs : Step s l s') {h : History}
    (hr : s.Reachable) (hg : h.Given s) {w : ℕ} {k : JobKey}
    (hgiven : k ∈ h.posted ++ h.direct) (hk : k ∈ (h.record s l).detectedBy w) :
    k ∈ h.detectedBy w := by
  cases hs with
  | @watcherChange job path pre post ht =>
    obtain hold | hnew := mem_append.1 (History.mem_detectedBy.1 hk)
    · exact History.mem_detectedBy.2 hold
    · obtain ⟨-, rfl⟩ := Prod.mk.inj (mem_singleton.1 hnew)
      have hregistered : (⟨s.nextId, job.func, false⟩ : JobKey) ∈ s.registered :=
        count_pos_iff.1 ((count_pos_iff.2 hgiven).trans_le
          ((Nat.le_add_left _ _).trans (hg.places _)))
      exact absurd hregistered (((Step.watcherChange ht).registers_change hr).2 _ _)
  | _ => exact hk

variable {v8} {w : ℕ} {s s' : Sys} {record record' : Option WatcherThread} {h : History}

/-- **A step with what it detects, posts and puts into the queue.** -/
theorem Followed.step {l : Label} (hf : Followed v8 w s record h) (hs : Step s l s')
    (hpath : SameFile record record') (hdetected : (h.record s l).detectedBy w = notedBy record')
    (hposted : ∀ t', record' = some t' → ∀ msg ∈ l.posted,
      msg.job.key ∈ (h.record s l).detectedBy w → msg.objects = changeObjects t'.path)
    (hentered : ∀ t', record' = some t' → ∀ job ∈ l.entered s,
      job.key ∈ (h.record s l).detectedBy w → job.args = some (changeArgs v8 t'.path)) :
    Followed v8 w s' record' (h.record s l) := by
  have hr := Recorded.Reachable.sys hf.run
  have hg := Recorded.Reachable.given hf.run
  have hold : ∀ t', record' = some t' → ∀ k ∈ h.posted ++ h.direct,
      k ∈ (h.record s l).detectedBy w →
        k ∈ h.detectedBy w ∧ ∃ t, record = some t ∧ t.path = t'.path := by
    intro t' ht' k hgiven hk
    have hbefore := hs.detected_before hr hg hgiven hk
    refine ⟨hbefore, (hpath t' ht').resolve_left ?_⟩
    rintro rfl
    rw [hf.detected] at hbefore
    cases hbefore
  refine ⟨hf.run.step hs, hdetected, ?_, ?_⟩
  · intro t' ht' msg hmsg hk
    rcases hs.unbuilt hmsg with hmsg | hmsg
    · have hgiven : msg.job.key ∈ h.posted ++ h.direct :=
        mem_append_left _ (Recorded.Reachable.posted_of_message hf.run hmsg)
      obtain ⟨hbefore, t, ht, hsame⟩ := hold t' ht' _ hgiven hk
      rw [← hsame]
      exact hf.objects t ht msg hmsg hbefore
    · exact hposted t' ht' msg hmsg hk
  · intro t' ht' job hjob hk
    rcases hs.callbackJobs (Recorded.Reachable.serving hf.run) hjob with hjob | hjob
    · have hgiven := Recorded.Reachable.given_of_callbackJob hf.run hjob
      obtain ⟨hbefore, t, ht, hsame⟩ := hold t' ht' _ hgiven hk
      rw [← hsame]
      exact hf.args t ht job hjob hbefore
    · exact hentered t' ht' job hjob hk

/-- A step that posts and puts into the queue no change of the watcher. -/
theorem Followed.frame {l : Label} (hf : Followed v8 w s record h) (hs : Step s l s')
    (hpath : SameFile record record') (hsame : (h.record s l).detectedBy w = h.detectedBy w)
    (hnoted : notedBy record' = notedBy record)
    (hposted : ∀ msg ∈ l.posted, msg.job.key ∉ h.detectedBy w)
    (hentered : ∀ job ∈ l.entered s, job.key ∉ h.detectedBy w) :
    Followed v8 w s' record' (h.record s l) := by
  apply hf.step hs hpath
  · rw [hsame, hnoted]
    exact hf.detected
  · intro t' _ msg hmsg hk
    exact absurd (hsame ▸ hk) (hposted msg hmsg)
  · intro t' _ job hjob hk
    exact absurd (hsame ▸ hk) (hentered job hjob)

/-- A change of the record that sees nothing new. -/
theorem Followed.note (hf : Followed v8 w s record h)
    (hpath : ∀ t', record' = some t' → ∃ t, record = some t ∧ t.path = t'.path)
    (hnoted : notedBy record' = notedBy record) : Followed v8 w s record' h := by
  refine ⟨hf.run, ?_, ?_, ?_⟩
  · rw [hnoted]
    exact hf.detected
  · intro t' ht' msg hmsg hk
    obtain ⟨t, ht, hsame⟩ := hpath t' ht'
    rw [← hsame]
    exact hf.objects t ht msg hmsg hk
  · intro t' ht' job hjob hk
    obtain ⟨t, ht, hsame⟩ := hpath t' ht'
    rw [← hsame]
    exact hf.args t ht job hjob hk

/-- A worker's job is no change. -/
theorem Followed.worker_not_detected (hf : Followed v8 w s record h) {pre post : List Thread}
    {job : CallbackJob} {task : Task} (ht : s.threads = pre ++ .worker job task :: post) :
    job.key ∉ h.detectedBy w := by
  intro hmem
  refine (Recorded.Reachable.given hf.run).working_not_detected (Recorded.Reachable.sys hf.run) ?_
    (History.mem_detected hmem)
  simp [ht, Thread.working]

/-- A step of the process that is no watcher's, when messages are built by `message::build`. -/
theorem Followed.engine {l : Label} (hf : Followed v8 w s record h) (hs : Step s l s')
    (hl : l.isWatcher = false)
    (hbuild : ∀ msg, s.pc = .build msg → s'.pc ≠ .build msg →
      s'.loop = s.loop.addCallbackJob { msg.job with args := some (msg.build v8) }) :
    Followed v8 w s' record (h.record s l) := by
  have hpath := SameFile.refl record
  have hstep := hs
  cases hs with
  | post ht =>
    refine hf.frame hstep hpath rfl rfl ?_ (by simp [Label.entered])
    intro msg hmsg
    obtain rfl := mem_singleton.1 hmsg
    exact hf.worker_not_detected ht
  | deliver ht =>
    refine hf.frame hstep hpath rfl rfl (by simp [Label.posted]) ?_
    intro job hjob
    obtain rfl := mem_singleton.1 hjob
    have hother := hf.worker_not_detected ht
    exact hother
  | @build msg args hpc =>
    refine hf.step hstep hpath hf.detected (by simp [Label.posted]) ?_
    intro t ht job hjob hk
    obtain rfl : job = { msg.job with args := some args } := by
      simpa [Label.entered, hpc, Pc.taken] using hjob
    have hargs : args = msg.build v8 := by
      have hpushed := congrArg EventLoop.callbackQueue (hbuild msg hpc (by simp))
      have hlast := append_cancel_left hpushed
      simpa using hlast
    have hobjects := hf.objects t ht msg (by simp [Sys.unbuilt, hpc, Pc.taken]) hk
    show some args = _
    rw [hargs, Message.build, hobjects]
    rfl
  | watchFile | watcherChange | watcherPost | watcherStop => cases hl
  | _ => exact hf.frame hstep hpath rfl rfl (by simp [Label.posted]) (by simp [Label.entered])

/-! ## The steps of watchers -/

namespace Followed

/-- When `watchFile` starts the watcher. -/
theorem start (hf : Followed v8 w s none h) {func : Closure} {path : CString} {context : ℕ}
    (hs : Step s (.watchFile func path) s') :
    Followed v8 w s' (some ⟨path, ⟨func, context⟩, .starting, []⟩)
      (h.record s (.watchFile func path)) :=
  hf.frame hs (fun _ _ => .inl rfl) rfl rfl (by simp [Label.posted]) (by simp [Label.entered])

variable {t : WatcherThread} (hf : Followed v8 w s (some t) h)

include hf

/-- When the watcher sees a change. -/
theorem change {t' : WatcherThread} (hs : Step s (.watcherChange ⟨w, t.job.func, none⟩ t.path) s')
    (hpath : t'.path = t.path) (hnoted : t'.noted = t.noted ++ [⟨s.nextId, t.job.func, false⟩]) :
    Followed v8 w s' (some t') (h.record s (.watcherChange ⟨w, t.job.func, none⟩ t.path)) := by
  refine hf.step hs ?_ ?_ (by simp [Label.posted]) (by simp [Label.entered])
  · rintro _ ⟨⟩
    exact .inr ⟨t, rfl, hpath.symm⟩
  · have hdetected : h.detectedBy w = t.noted := hf.detected
    show _ = t'.noted
    rw [hnoted, ← hdetected]
    simp [History.record, History.detectedBy]

/-- When the watcher posts the change. -/
theorem post {t' : WatcherThread} {job localJob : CallbackJob} {pre post : List Thread}
    (ht : s.threads = pre ++ .posting job t.path localJob :: post) (hpath : t'.path = t.path)
    (hnoted : t'.noted = t.noted) :
    Followed v8 w
      { s with
        threads := pre ++ .watcher job t.path :: post
        loop := s.loop.addMsgJob ⟨localJob, changeObjects t.path⟩ } (some t')
      (h.record s (.watcherPost localJob (changeObjects t.path))) := by
  refine hf.step (.watcherPost ht) ?_ ?_ ?_ (by simp [Label.entered])
  · rintro _ ⟨⟩
    exact .inr ⟨t, rfl, hpath.symm⟩
  · show h.detectedBy w = t'.noted
    rw [hnoted]
    exact hf.detected
  · rintro _ ⟨⟩ msg hmsg -
    obtain rfl := mem_singleton.1 hmsg
    rw [hpath]

/-- When the watcher stops. -/
theorem stop {t' : WatcherThread} (hs : Step s (.watcherStop ⟨w, t.job.func, none⟩ t.path) s')
    (hpath : t'.path = t.path) (hnoted : t'.noted = t.noted) :
    Followed v8 w s' (some t') (h.record s (.watcherStop ⟨w, t.job.func, none⟩ t.path)) := by
  refine hf.frame hs ?_ rfl hnoted (by simp [Label.posted]) (by simp [Label.entered])
  rintro _ ⟨⟩
  exact .inr ⟨t, rfl, hpath.symm⟩

end Followed

/-- Another watcher's change is not detected by this one. -/
theorem Followed.other_not_detected (hf : Followed v8 w s record h) {job localJob : CallbackJob}
    {path : CString} {pre post : List Thread}
    (ht : s.threads = pre ++ .posting job path localJob :: post) (hne : job.id ≠ w) :
    localJob.key ∉ h.detectedBy w := by
  intro hmem
  have hr := Recorded.Reachable.sys hf.run
  have hother : localJob.key ∈ h.detectedBy job.id := by
    rw [Recorded.Reachable.postsInOrder hf.run job.id]
    refine mem_append_right _ (mem_flatMap.2 ⟨.posting job path localJob, ?_, ?_⟩)
    · rw [ht]
      exact mem_append_right _ mem_cons_self
    · simp [Thread.postingBy]
  have heq := inj_on_of_nodup_map ((Recorded.Reachable.given hf.run).detected_nodup hr)
    (History.mem_detectedBy.1 hother) (History.mem_detectedBy.1 hmem) rfl
  exact hne (congrArg Prod.fst heq)

/-- The identities of watchers have been given out. -/
def WatchedSys.Below (x : WatchedSys) : Prop := ∀ v t, x.watcher v = some t → v < x.sys.nextId

theorem WatchedSys.Below.update {x : WatchedSys} (hb : x.Below) {s' : Sys}
    (hle : x.sys.nextId ≤ s'.nextId) {v : ℕ} (hv : v < s'.nextId) (t : WatcherThread) :
    Below ⟨s', Function.update x.watcher v (some t)⟩ := by
  intro u t' hu
  by_cases he : u = v
  · rw [he]
    exact hv
  · have hold : x.watcher u = some t' := by simpa [Function.update_of_ne he] using hu
    exact (hb u t' hold).trans_le hle

theorem WatchStep.below {x x' : WatchedSys} {l : Option (ℕ × Poll)} (h : WatchStep x l x')
    (hb : x.Below) : x'.Below := by
  cases h with
  | engine _ h => exact fun v t ht => (hb v t ht).trans_le h.nextId_le
  | watchFile h =>
    refine hb.update h.nextId_le ?_ _
    cases h
    exact Nat.lt_succ_self _
  | firstRead _ hw | unchanged _ hw | post _ hw => exact hb.update le_rfl (hb _ _ hw) _
  | change _ hw _ _ h | stop _ hw _ h =>
    exact hb.update h.nextId_le ((hb _ _ hw).trans_le h.nextId_le) _

/-- **Each step of a watcher, and of the process, keeps the history true.** -/
theorem WatchStep.followed {x x' : WatchedSys} {l : Option (ℕ × Poll)} (hs : WatchStep x l x')
    (hbuild : x.Builds v8 x') (hb : x.Below) (hf : Followed v8 w x.sys (x.watcher w) h) :
    ∃ h', Followed v8 w x'.sys (x'.watcher w) h' := by
  have hpath := SameFile.refl (x.watcher w)
  have hother : ∀ {v t}, v ≠ w → Function.update x.watcher v (some t) w = x.watcher w :=
    fun hv => Function.update_of_ne (Ne.symm hv) _ _
  cases hs with
  | engine hl hs => exact ⟨_, hf.engine hs hl hbuild⟩
  | @watchFile func path context s' hs =>
    show ∃ h', Followed v8 w s' (Function.update x.watcher x.sys.nextId _ w) h'
    by_cases hv : x.sys.nextId = w
    · have hnone : x.watcher w = none := by
        by_contra hsome
        obtain ⟨t, ht⟩ := Option.ne_none_iff_exists'.1 hsome
        exact absurd (hb w t ht) (hv ▸ lt_irrefl _)
      rw [hnone] at hf
      rw [hv, Function.update_self]
      exact ⟨_, hf.start hs⟩
    · rw [hother hv]
      exact ⟨_, hf.frame hs hpath rfl rfl (by simp [Label.posted]) (by simp [Label.entered])⟩
  | @firstRead v t p pre post ht hw hphase | @unchanged v t p c n pre post ht hw hphase hsame =>
    show ∃ h', Followed v8 w x.sys (Function.update x.watcher v _ w) h'
    by_cases hv : v = w
    · subst hv
      rw [hw] at hf
      rw [Function.update_self]
      refine ⟨h, hf.note ?_ ?_⟩
      · rintro _ ⟨⟩
        exact ⟨t, rfl, rfl⟩
      · simp [notedBy, WatcherThread.noted, WatcherAct.posted?, WatcherPhase.posting?, hphase]
    · rw [hother hv]
      exact ⟨h, hf⟩
  | @change v t p c n pre post s' ht hw hphase hchanged hs =>
    show ∃ h', Followed v8 w s' (Function.update x.watcher v _ w) h'
    by_cases hv : v = w
    · subst hv
      rw [hw] at hf
      rw [Function.update_self]
      refine ⟨_, hf.change hs rfl ?_⟩
      simp [WatcherThread.noted, WatcherAct.posted?, WatcherPhase.posting?, hphase, cpyJob,
        CallbackJob.key]
    · rw [hother hv]
      refine ⟨_, hf.frame hs hpath ?_ rfl (by simp [Label.posted]) (by simp [Label.entered])⟩
      simp [History.record, History.detectedBy, hv]
  | @post v t c n localJob handles pre post ht hw hphase =>
    show ∃ h', Followed v8 w _ (Function.update x.watcher v _ w) h'
    by_cases hv : v = w
    · subst hv
      rw [hw] at hf
      rw [Function.update_self]
      refine ⟨_, hf.post ht rfl ?_⟩
      simp [WatcherThread.noted, WatcherAct.posted?, WatcherPhase.posting?, hphase]
    · rw [hother hv]
      refine ⟨_, hf.frame (.watcherPost ht) hpath rfl rfl ?_ (by simp [Label.entered])⟩
      intro msg hmsg
      obtain rfl := mem_singleton.1 hmsg
      exact hf.other_not_detected ht hv
  | @stop v t c n pre post s' ht hw hphase hs =>
    show ∃ h', Followed v8 w s' (Function.update x.watcher v _ w) h'
    by_cases hv : v = w
    · subst hv
      rw [hw] at hf
      rw [Function.update_self]
      refine ⟨_, hf.stop hs rfl ?_⟩
      simp [WatcherThread.noted, WatcherAct.posted?, WatcherPhase.posting?, hphase]
    · rw [hother hv]
      exact ⟨_, hf.frame hs hpath rfl rfl (by simp [Label.posted]) (by simp [Label.entered])⟩

namespace WatchedSys.Running

variable {x : WatchedSys} (hx : x.Running v8 w)

include hx

theorem reachable : x.Reachable w := by
  induction hx with
  | start h => exact .start h
  | tail _ hl ih => exact ih.tail ⟨hl.1, hl.2.1⟩

theorem below : x.Below := by
  induction hx with
  | start h =>
    intro v t ht
    rw [h.2 v] at ht
    cases ht
  | tail _ hl ih => exact hl.1.below ih

theorem followed : ∃ h, Followed v8 w x.sys (x.watcher w) h := by
  induction hx with
  | @start x h =>
    obtain ⟨⟨ms, hs⟩, hnone⟩ := h
    refine ⟨.empty, .start ⟨⟨ms, hs⟩, rfl⟩, ?_, ?_, ?_⟩
    · rw [hnone w]
      rfl
    · rw [hnone w]
      simp
    · rw [hnone w]
      simp
  | tail hr hl ih =>
    obtain ⟨h, hf⟩ := ih
    exact hl.1.followed hl.2.2 (below hr) hf

end WatchedSys.Running

/-! ## The result -/

/-- **From the change to the call.** In every run in which the polls of a watcher are complete and
messages are built by `message::build`, the changes that the watcher has seen, in the order in which
it saw them, are those for which its callback has been called, in the order of the calls, then those
that wait in `callbackQueue`, then those that are messages, then the one that is not posted yet:
none is lost, called twice or overtaken. Each call is of the watched function, with null and the
object that names the file. -/
theorem watcher_calls {x : WatchedSys} (hx : x.Running v8 w) {t : WatcherThread}
    (ht : x.watcher w = some t) :
    ∃ ids, t.Correct ids ∧ ids.Nodup ∧
      ids.map t.key = x.sys.callbacksInvoked.filter (· ∈ ids.map t.key) ++
        (x.sys.waitingJobs.map CallbackJob.key).filter (· ∈ ids.map t.key) ++
        (x.sys.unbuilt.map (·.job.key)).filter (· ∈ ids.map t.key) ++ x.sys.postingBy w ∧
      ∀ job, .callbackInvoked job ∈ x.sys.log → job.key ∈ ids.map t.key →
        job.args = some (changeArgs v8 t.path) := by
  obtain ⟨h, hf⟩ := WatchedSys.Running.followed hx
  obtain ⟨ids, hcorrect, hnodup, -⟩ :=
    WatchedSys.Reachable.correctAt (WatchedSys.Running.reachable hx) t ht
  have hdetected : h.detectedBy w = ids.map t.key := by
    rw [hf.detected, ht]
    exact hcorrect.noted
  refine ⟨ids, hcorrect, hnodup, ?_, ?_⟩
  · have hsplit := Recorded.Reachable.detected_split hf.run w
    rw [hdetected] at hsplit
    exact hsplit
  · intro job hjob hk
    refine hf.args t ht job ?_ (hdetected ▸ hk)
    exact mem_append_left _ (mem_filterMap.2 ⟨_, hjob, rfl⟩)

/-- A step from a state in which no message is being built. -/
theorem WatchedSys.Running.next {x x' : WatchedSys} {l : Option (ℕ × Poll)}
    (hx : x.Running v8 w) (hs : WatchStep x l x') (hl : ∀ p, l = some (w, p) → p.Complete)
    (hpc : x.sys.pc.taken = []) : x'.Running v8 w := by
  refine hx.tail ⟨hs, hl, ?_⟩
  intro msg hbuild
  rw [hbuild] at hpc
  cases hpc

/-- The message is built. -/
theorem WatchedSys.Running.built {x : WatchedSys} (hx : x.Running v8 w) {msg : Message}
    (hpc : x.sys.pc = .build msg) :
    WatchedSys.Running v8 w
      { x with
        sys :=
          { x.sys with
            pc := .drain
            loop := x.sys.loop.addCallbackJob { msg.job with args := some (msg.build v8) } } } := by
  refine hx.tail ⟨.engine rfl (.build hpc), ?_, ?_⟩
  · rintro _ ⟨⟩
  · intro msg' hbuild _
    obtain rfl : msg = msg' := Pc.build.inj (hpc.symm.trans hbuild)
    rfl

/-- A file that changes once, and the call. -/
theorem watcher_calls_once : ∃ (x : WatchedSys) (t : WatcherThread), x.watcher 0 = some t ∧
    x.sys.callbacksInvoked = [⟨1, .user 0 0, false⟩] ∧
    ∃ ids, t.Correct ids ∧
      ids.map t.key = x.sys.callbacksInvoked.filter (· ∈ ids.map t.key) ++
        (x.sys.waitingJobs.map CallbackJob.key).filter (· ∈ ids.map t.key) ++
        (x.sys.unbuilt.map (·.job.key)).filter (· ∈ ids.map t.key) ++ x.sys.postingBy 0 := by
  let p (bytes : List UInt8) : Poll := ⟨bytes.length, bytes, fun _ => 0⟩
  have complete : ∀ bytes : List UInt8, bytes.length < 2 ^ 31 →
      ∀ q, some (0, p bytes) = some (0, q) → q.Complete := by
    rintro bytes hlen _ ⟨⟩
    exact ⟨rfl, hlen⟩
  have silent : ∀ q : Poll, none = some (0, q) → q.Complete := by
    rintro _ ⟨⟩
  have initial : WatchedSys.Running .reference 0 ⟨.initial 0, fun _ => none⟩ :=
    .start ⟨⟨0, rfl⟩, fun _ => rfl⟩
  have started := ((initial.next (.engine rfl (.nextScript rfl)) silent rfl).next
    (@WatchStep.watchFile _ (.user 0 0) [] 0 _ (.watchFile rfl rfl)) silent rfl).next
    (.engine rfl (@Step.scriptReturn _ false rfl rfl)) silent rfl
  let job : JobHandles := ⟨.user 0 0, 0⟩
  let t₁ : WatcherThread := ⟨[], job, .polling [1] 1, [.saw [1]]⟩
  let t₂ : WatcherThread := ⟨[], job, .posting [2, 3] 2 ⟨1, .user 0 0, none⟩ job,
    t₁.acts ++ [.saw [2, 3], .registerJob]⟩
  have posted := ((started.next
    (@WatchStep.firstRead _ 0 _ (p [1]) [] [] rfl rfl rfl) (complete _ (by decide)) rfl).next
    (@WatchStep.change _ 0 t₁ (p [2, 3]) _ _ [] [] _ rfl rfl rfl (by decide)
      (@Step.watcherChange _ _ _ [] [] rfl)) (complete _ (by decide)) rfl).next
    (@WatchStep.post _ 0 t₂ _ _ _ _ [] [] rfl rfl rfl) silent rfl
  have taken := (posted.next (.engine rfl (.enterLoop rfl rfl)) silent rfl).next
    (.engine rfl (.getFront rfl rfl)) silent rfl
  have called := (((taken.built rfl).next (.engine rfl (.drained rfl rfl)) silent rfl).next
    (.engine rfl (.timersDone rfl rfl)) silent rfl).next
    (.engine rfl (.invokeCallback rfl rfl rfl)) silent rfl
  obtain ⟨ids, hcorrect, -, hsplit, -⟩ := watcher_calls called rfl
  exact ⟨_, _, rfl, rfl, ids, hcorrect, hsplit⟩

end NanoJS
