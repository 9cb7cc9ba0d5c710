import NanoJS.Engine.Fifo
import NanoJS.Files.Native

/-!
# Watching a file

`watcher` in `engine/FileSystem.cpp`: a thread that reads a file at intervals and posts a message
when what it reads is not what it read before. The threads run beside the steps of `Sys`
(`WatchStep`), each with its buffers and a record of what it did to the loop (`acts`). When the
polls read the whole file, a watcher registers a job and posts one message for each change it sees,
in the order in which it sees them, and withdraws once when it stops (`watcher_notifies`).
-/

namespace NanoJS

open FreshIds List

/-! ## `FileSystem.cpp` -/

/-- What the calls of one poll find: the `st_size` that `stat` leaves, the bytes that the stream can
deliver, and what the memory held that `new char[sz]` returns. -/
structure Poll where
  st_size : ℤ
  stream : List UInt8
  heap : ℕ → UInt8

namespace Poll

variable (p : Poll)

/-- `int sz = curBuffer.st_size` -/
def sz : ℤ := toInt32 p.st_size

/-- `content`, after `read(content, sz)`. -/
def content : List UInt8 := (List.range p.sz.toNat).map fun i => p.stream.getD i (p.heap i)

/-- Both calls succeed, the read is complete, and the size is an `int`. -/
def Complete : Prop := p.st_size = p.stream.length ∧ p.stream.length < 2 ^ 31

end Poll

/-- `areEqual`, of two buffers. -/
def areEqual (str1 str2 : List UInt8) (len : ℤ) : Bool :=
  (List.range len.toNat).all fun i => str1.getD i 0 == str2.getD i 0

/-- The condition under which `watcher` posts. -/
def contentChanged (prevContent : List UInt8) (prevSz : ℤ) (content : List UInt8) (sz : ℤ) :
    Bool :=
  (decide (sz = prevSz) && !areEqual prevContent content sz) || decide (sz ≠ prevSz)

/-- The handles of a job: its function and its context. -/
structure JobHandles where
  func : Closure
  context : ℕ

/-- `cpyJob`, into a new job. -/
def cpyJob (srcJob : JobHandles) : JobHandles where
  func := srcJob.func
  context := srcJob.context

/-- The objects of the message of a change. -/
def changeObjects (path : CString) : List ObjectProject :=
  [⟨[("eventType", "string"), ("File", "string")], [.string (cString "change"), .string path]⟩]

/-! ## The thread -/

/-- Where the thread is. -/
inductive WatcherPhase
  /-- Before the first read. -/
  | starting
  /-- At the head of the loop. -/
  | polling (prevContent : List UInt8) (prevSz : ℤ)
  /-- After the `registerJob` of a change, with the job of its message. -/
  | posting (prevContent : List UInt8) (prevSz : ℤ) (localJob : CallbackJob)
      (handles : JobHandles)
  | stopped

/-- What the thread saw, and what it did to the loop. -/
inductive WatcherAct
  | saw (content : List UInt8)
  | registerJob
  | addMsgJob (msg : Message) (handles : JobHandles)
  | withdrawJob

/-- A thread: its arguments, its position and its record. -/
structure WatcherThread where
  path : CString
  job : JobHandles
  phase : WatcherPhase
  acts : List WatcherAct

/-- The process, and its watchers by the identity of their job. -/
structure WatchedSys where
  sys : Sys
  watcher : ℕ → Option WatcherThread

/-- The steps that belong to watchers. -/
def Label.isWatcher : Label → Bool
  | .watchFile .. | .watcherChange .. | .watcherPost .. | .watcherStop .. => true
  | _ => false

/-- A step of the process, or of a watcher; the label is the poll that a watcher makes in it. -/
inductive WatchStep : WatchedSys → Option (ℕ × Poll) → WatchedSys → Prop
  | engine {x l s'} (hl : l.isWatcher = false) (h : Step x.sys l s') :
      WatchStep x none { x with sys := s' }
  | watchFile {x func path context s'} (h : Step x.sys (.watchFile func path) s') :
      WatchStep x none
        { sys := s'
          watcher := Function.update x.watcher x.sys.nextId
            (some ⟨path, ⟨func, context⟩, .starting, []⟩) }
  | firstRead {x w t p pre post}
      (ht : x.sys.threads = pre ++ .watcher ⟨w, t.job.func, none⟩ t.path :: post)
      (hw : x.watcher w = some t) (hphase : t.phase = .starting) :
      WatchStep x (some (w, p))
        { x with
          watcher := Function.update x.watcher w
            (some { t with
              phase := .polling p.content p.sz
              acts := t.acts ++ [.saw p.stream] }) }
  | unchanged {x w t p prevContent prevSz pre post}
      (ht : x.sys.threads = pre ++ .watcher ⟨w, t.job.func, none⟩ t.path :: post)
      (hw : x.watcher w = some t) (hphase : t.phase = .polling prevContent prevSz)
      (hsame : contentChanged prevContent prevSz p.content p.sz = false) :
      WatchStep x (some (w, p))
        { x with
          watcher := Function.update x.watcher w
            (some { t with acts := t.acts ++ [.saw p.stream] }) }
  | change {x w t p prevContent prevSz pre post s'}
      (ht : x.sys.threads = pre ++ .watcher ⟨w, t.job.func, none⟩ t.path :: post)
      (hw : x.watcher w = some t) (hphase : t.phase = .polling prevContent prevSz)
      (hchanged : contentChanged prevContent prevSz p.content p.sz = true)
      (h : Step x.sys (.watcherChange ⟨w, t.job.func, none⟩ t.path) s') :
      WatchStep x (some (w, p))
        { sys := s'
          watcher := Function.update x.watcher w
            (some { t with
              phase := .posting p.content p.sz ⟨x.sys.nextId, (cpyJob t.job).func, none⟩
                (cpyJob t.job)
              acts := t.acts ++ [.saw p.stream, .registerJob] }) }
  | post {x w t prevContent prevSz localJob handles pre post}
      (ht : x.sys.threads = pre ++ .posting ⟨w, t.job.func, none⟩ t.path localJob :: post)
      (hw : x.watcher w = some t)
      (hphase : t.phase = .posting prevContent prevSz localJob handles) :
      WatchStep x none
        { sys :=
            { x.sys with
              threads := pre ++ .watcher ⟨w, t.job.func, none⟩ t.path :: post
              loop := x.sys.loop.addMsgJob ⟨localJob, changeObjects t.path⟩ }
          watcher := Function.update x.watcher w
            (some { t with
              phase := .polling prevContent prevSz
              acts := t.acts ++ [.addMsgJob ⟨localJob, changeObjects t.path⟩ handles] }) }
  | stop {x w t prevContent prevSz pre post s'}
      (ht : x.sys.threads = pre ++ .watcher ⟨w, t.job.func, none⟩ t.path :: post)
      (hw : x.watcher w = some t) (hphase : t.phase = .polling prevContent prevSz)
      (h : Step x.sys (.watcherStop ⟨w, t.job.func, none⟩ t.path) s') :
      WatchStep x none
        { sys := s'
          watcher := Function.update x.watcher w
            (some { t with phase := .stopped, acts := t.acts ++ [.withdrawJob] }) }

/-- The states of runs in which every poll of the watcher `w` is complete. -/
abbrev WatchedSys.Reachable (w : ℕ) : WatchedSys → Prop :=
  Transition.Reachable (fun x => x.sys.Init ∧ ∀ w, x.watcher w = none)
    fun x l x' => WatchStep x l x' ∧ ∀ p, l = some (w, p) → p.Complete

theorem WatchStep.sys {x x' : WatchedSys} {l : Option (ℕ × Poll)} (h : WatchStep x l x') :
    x'.sys = x.sys ∨ ∃ k, Step x.sys k x'.sys := by
  cases h with
  | engine hl h | watchFile h | change ht hw hphase hchanged h | stop ht hw hphase h =>
    exact .inr ⟨_, h⟩
  | post ht hw hphase => exact .inr ⟨_, .watcherPost ht⟩
  | firstRead ht hw hphase | unchanged ht hw hphase hsame => exact .inl rfl

theorem WatchedSys.Reachable.sys {w : ℕ} {x : WatchedSys} (h : x.Reachable w) :
    x.sys.Reachable := by
  induction h with
  | start h => exact .start h.1
  | tail _ hl ih =>
    rcases hl.1.sys with hs | ⟨k, hs⟩
    · rw [hs]
      exact ih
    · exact ih.tail hs

/-! ## Comparing contents -/

/-- Two buffers of one length are equal when the loop finds no difference. -/
theorem areEqual_iff {a b : List UInt8} (h : a.length = b.length) :
    areEqual a b b.length = true ↔ a = b := by
  simp only [areEqual, Int.toNat_natCast, all_eq_true, mem_range, beq_iff_eq]
  constructor
  · intro hall
    apply ext_getElem h
    intro i h₁ h₂
    have hi := hall i h₂
    rwa [getD_eq_getElem _ _ h₁, getD_eq_getElem _ _ h₂] at hi
  · rintro rfl i hi
    rfl

namespace Poll.Complete

variable {p : Poll} (h : p.Complete)

include h

theorem sz_eq : p.sz = p.stream.length := by
  have hlt := h.2
  rw [sz, h.1, toInt32_of_lt (by omega) (by omega)]

theorem content_eq : p.content = p.stream := by
  apply ext_getElem (by simp [content, sz_eq h])
  intro i h₁ h₂
  simp only [content, getElem_map, getElem_range]
  exact getD_eq_getElem _ _ h₂

/-- **The size-then-bytes comparison tells whether the content is another one.** -/
theorem contentChanged_iff (c : List UInt8) :
    contentChanged c c.length p.content p.sz = true ↔ p.stream ≠ c := by
  rw [content_eq h, sz_eq h]
  by_cases hlen : c.length = p.stream.length
  · have hequal := areEqual_iff hlen
    rw [contentChanged, hlen]
    simp only [decide_true, Bool.true_and, ne_eq, not_true_eq_false, decide_false, Bool.or_false,
      Bool.not_eq_true']
    rw [← Bool.not_eq_true, hequal]
    exact not_congr eq_comm
  · have hne : p.stream ≠ c := by
      rintro rfl
      exact hlen rfl
    have hsize : (p.stream.length : ℤ) ≠ c.length := by omega
    simp [contentChanged, hsize, hne]

end Poll.Complete

/-! ## What a watcher does -/

/-- The record of a watcher that has seen a sequence of contents, the last one `c`: one
registration and one message for each that is not the one before it, and nothing else. The jobs of
the messages have the identities `ids`. -/
inductive Notifies (note : ℕ → WatcherAct) : List UInt8 → List ℕ → List WatcherAct → Prop
  | first (c : List UInt8) : Notifies note c [] [.saw c]
  | same {c ids acts} (h : Notifies note c ids acts) : Notifies note c ids (acts ++ [.saw c])
  | change {c c' ids acts} (i : ℕ) (hne : c' ≠ c) (h : Notifies note c ids acts) :
      Notifies note c' (ids ++ [i]) (acts ++ [.saw c', .registerJob, note i])

namespace WatcherThread

/-- The posting of a change, with a new job that has the watched function and context. -/
def note (t : WatcherThread) (id : ℕ) : WatcherAct :=
  .addMsgJob ⟨⟨id, t.job.func, none⟩, changeObjects t.path⟩ t.job

/-- What the thread has done, by its position: its buffer is the content it saw last. -/
inductive Correct (t : WatcherThread) (ids : List ℕ) : Prop
  | starting (hp : t.phase = .starting) (ha : t.acts = []) (hi : ids = [])
  | polling (c : List UInt8) (hp : t.phase = .polling c c.length)
      (h : Notifies t.note c ids t.acts)
  | posting (c : List UInt8) (i : ℕ)
      (hp : t.phase = .posting c c.length ⟨i, t.job.func, none⟩ t.job)
      (h : Notifies t.note c ids (t.acts ++ [t.note i]))
  | stopped (c : List UInt8) (acts : List WatcherAct) (hp : t.phase = .stopped)
      (h : Notifies t.note c ids acts) (ha : t.acts = acts ++ [.withdrawJob])

end WatcherThread

/-- The watcher `w` has done what it should, with jobs that are registered and distinct. -/
def WatchedSys.CorrectAt (x : WatchedSys) (w : ℕ) : Prop :=
  ∀ t, x.watcher w = some t → ∃ ids, t.Correct ids ∧ ids.Nodup ∧
    ∀ i ∈ ids, (⟨i, t.job.func, false⟩ : JobKey) ∈ x.sys.registered

/-- The job that a change registers is registered, and new. -/
theorem Step.registers_change {s s' : Sys} {job : CallbackJob} {path : CString}
    (h : Step s (.watcherChange job path) s') (hr : s.Reachable) :
    (⟨s.nextId, job.func, false⟩ : JobKey) ∈ s'.registered ∧
      ∀ func b, (⟨s.nextId, func, b⟩ : JobKey) ∉ s.registered := by
  cases h with
  | watcherChange ht =>
    refine ⟨mem_cons_self, ?_⟩
    intro func b hmem
    have hid : s.nextId ∈ s.jobIds := mem_append_right _ (mem_map_of_mem hmem)
    exact lt_irrefl _ ((Sys.Reachable.below hr).lt _ hid)

/-- A step of one watcher keeps the others. -/
theorem WatchedSys.CorrectAt.update {x : WatchedSys} {w v : ℕ} (hc : x.CorrectAt w) {s' : Sys}
    (hsub : x.sys.registered ⊆ s'.registered) {t' : WatcherThread}
    (ht' : v = w → ∃ ids, t'.Correct ids ∧ ids.Nodup ∧
      ∀ i ∈ ids, (⟨i, t'.job.func, false⟩ : JobKey) ∈ s'.registered) :
    CorrectAt ⟨s', Function.update x.watcher v (some t')⟩ w := by
  intro t ht
  by_cases hv : v = w
  · subst hv
    obtain rfl : t' = t := by simpa using ht
    exact ht' rfl
  · have ht : x.watcher w = some t := by simpa [Function.update_of_ne (Ne.symm hv)] using ht
    obtain ⟨ids, hcorrect, hnodup, hreg⟩ := hc t ht
    exact ⟨ids, hcorrect, hnodup, fun i hi => hsub (hreg i hi)⟩

/-- **Each step of a watcher is the next one that its contents ask for.** -/
theorem WatchStep.correctAt {x x' : WatchedSys} {l : Option (ℕ × Poll)} (h : WatchStep x l x')
    {w : ℕ} (hl : ∀ p, l = some (w, p) → p.Complete) (hr : x.sys.Reachable)
    (hc : x.CorrectAt w) : x'.CorrectAt w := by
  cases h with
  | engine _ h =>
    intro t ht
    obtain ⟨ids, hcorrect, hnodup, hreg⟩ := hc t ht
    exact ⟨ids, hcorrect, hnodup, fun i hi => h.registered_subset (hreg i hi)⟩
  | watchFile h =>
    exact hc.update h.registered_subset fun _ => ⟨[], .starting rfl rfl rfl, nodup_nil, by simp⟩
  | @firstRead v t p pre post ht hw hphase =>
    apply hc.update (fun _ hk => hk)
    rintro rfl
    obtain ⟨ids, hcorrect, hnodup, hreg⟩ := hc t hw
    have hp := hl p rfl
    cases hcorrect with
    | starting _ ha hi =>
      refine ⟨[], .polling p.stream ?_ ?_, nodup_nil, by simp⟩
      · rw [hp.content_eq, hp.sz_eq]
      · rw [ha]
        exact .first p.stream
    | polling c hp' | posting c i hp' | stopped c acts hp' => simp [hphase] at hp'
  | @unchanged v t p prevContent prevSz pre post ht hw hphase hsame =>
    apply hc.update (fun _ hk => hk)
    rintro rfl
    obtain ⟨ids, hcorrect, hnodup, hreg⟩ := hc t hw
    have hp := hl p rfl
    cases hcorrect with
    | polling c hp' h =>
      obtain ⟨rfl, rfl⟩ : prevContent = c ∧ prevSz = c.length := by simpa [hphase] using hp'
      have hsee : p.stream = prevContent := by
        by_contra hne
        rw [(hp.contentChanged_iff prevContent).2 hne] at hsame
        cases hsame
      refine ⟨ids, .polling prevContent hphase ?_, hnodup, hreg⟩
      rw [hsee]
      exact .same h
    | starting hp' | posting c i hp' | stopped c acts hp' => simp [hphase] at hp'
  | @change v t p prevContent prevSz pre post s' ht hw hphase hchanged h =>
    apply hc.update h.registered_subset
    rintro rfl
    obtain ⟨ids, hcorrect, hnodup, hreg⟩ := hc t hw
    obtain ⟨hmem, hnew⟩ := h.registers_change hr
    have hp := hl p rfl
    cases hcorrect with
    | polling c hp' hn =>
      obtain ⟨rfl, rfl⟩ : prevContent = c ∧ prevSz = c.length := by simpa [hphase] using hp'
      have hsee : p.stream ≠ prevContent := (hp.contentChanged_iff prevContent).1 hchanged
      refine ⟨ids ++ [x.sys.nextId], .posting p.stream x.sys.nextId ?_ ?_, ?_, ?_⟩
      · rw [hp.content_eq, hp.sz_eq]
        rfl
      · show Notifies t.note _ _
          ((t.acts ++ [.saw p.stream, .registerJob]) ++ [t.note x.sys.nextId])
        rw [append_assoc]
        exact .change x.sys.nextId hsee hn
      · refine nodup_append.2 ⟨hnodup, nodup_singleton _, ?_⟩
        rintro i hi j hj rfl
        obtain rfl := mem_singleton.1 hj
        exact hnew _ _ (hreg _ hi)
      · intro i hi
        rcases mem_append.1 hi with hi | hi
        · exact h.registered_subset (hreg i hi)
        · obtain rfl := mem_singleton.1 hi
          exact hmem
    | starting hp' | posting c i hp' | stopped c acts hp' => simp [hphase] at hp'
  | @post v t prevContent prevSz localJob handles pre post ht hw hphase =>
    apply hc.update (fun _ hk => hk)
    rintro rfl
    obtain ⟨ids, hcorrect, hnodup, hreg⟩ := hc t hw
    cases hcorrect with
    | posting c i hp' hn =>
      obtain ⟨rfl, rfl, rfl, rfl⟩ : prevContent = c ∧ prevSz = c.length ∧
        localJob = ⟨i, t.job.func, none⟩ ∧ handles = t.job := by simpa [hphase] using hp'
      exact ⟨ids, .polling prevContent rfl hn, hnodup, hreg⟩
    | starting hp' | polling c hp' | stopped c acts hp' => simp [hphase] at hp'
  | @stop v t prevContent prevSz pre post s' ht hw hphase h =>
    apply hc.update h.registered_subset
    rintro rfl
    obtain ⟨ids, hcorrect, hnodup, hreg⟩ := hc t hw
    cases hcorrect with
    | polling c hp' hn =>
      exact ⟨ids, .stopped c t.acts rfl hn rfl, hnodup,
        fun j hj => h.registered_subset (hreg j hj)⟩
    | starting hp' | posting c i hp' | stopped c acts hp' => simp [hphase] at hp'

theorem WatchedSys.Reachable.correctAt {w : ℕ} {x : WatchedSys} (h : x.Reachable w) :
    x.CorrectAt w := by
  induction h with
  | start h =>
    intro t ht
    rw [h.2 w] at ht
    cases ht
  | tail hr hl ih => exact hl.1.correctAt hl.2 (Reachable.sys hr) ih

/-! ## Every watcher of the process has a record -/

/-- The thread is where its record says. -/
def Thread.Matches (watcher : ℕ → Option WatcherThread) : Thread → Prop
  | .worker _ _ => True
  | .watcher job path => ∃ t, watcher job.id = some t ∧ job = ⟨job.id, t.job.func, none⟩ ∧
      path = t.path ∧ (t.phase = .starting ∨ ∃ c n, t.phase = .polling c n)
  | .posting job path localJob => ∃ t, watcher job.id = some t ∧
      job = ⟨job.id, t.job.func, none⟩ ∧ path = t.path ∧
      ∃ c n handles, t.phase = .posting c n localJob handles

theorem Thread.Matches.update {watcher : ℕ → Option WatcherThread} {thread : Thread} {w : ℕ}
    (h : thread.Matches watcher) (hne : thread.watcherId ≠ some w) (t : Option WatcherThread) :
    thread.Matches (Function.update watcher w t) := by
  cases thread with
  | worker job task => trivial
  | watcher job path | posting job path localJob =>
    have hid : job.id ≠ w := fun he => hne (congrArg some he)
    simpa [Matches, Function.update_of_ne hid] using h

/-- The other threads are other watchers. -/
theorem watcherId_ne {threads pre post : List Thread} {thread other : Thread} {w : ℕ}
    (hnodup : (threads.filterMap Thread.watcherId).Nodup)
    (ht : threads = pre ++ thread :: post) (hw : thread.watcherId = some w)
    (hother : other ∈ pre ++ post) : other.watcherId ≠ some w := by
  intro he
  rw [ht, filterMap_append, filterMap_cons_some hw, nodup_middle, nodup_cons,
    ← filterMap_append] at hnodup
  exact hnodup.1 (mem_filterMap.2 ⟨other, hother, he⟩)

/-- When the thread of a watcher is replaced and its record is, the threads match. -/
theorem matches_replace {watcher : ℕ → Option WatcherThread} {threads pre post : List Thread}
    {thread : Thread} {w : ℕ} (hnodup : (threads.filterMap Thread.watcherId).Nodup)
    (hm : ∀ other ∈ threads, other.Matches watcher) (ht : threads = pre ++ thread :: post)
    (hw : thread.watcherId = some w) {t : Option WatcherThread} (new : List Thread)
    (hnew : ∀ other ∈ new, other.Matches (Function.update watcher w t)) :
    ∀ other ∈ pre ++ (new ++ post), other.Matches (Function.update watcher w t) := by
  intro other hmem
  by_cases hin : other ∈ new
  · exact hnew other hin
  · have hold : other ∈ pre ++ post := by
      simp only [mem_append] at hmem ⊢
      tauto
    have hmem : other ∈ threads := by
      rw [ht]
      simp only [mem_append, mem_cons] at hold ⊢
      tauto
    exact (hm other hmem).update (watcherId_ne hnodup ht hw hold) t

theorem Step.threads_of_engine {s s' : Sys} {l : Label} (h : Step s l s')
    (hl : l.isWatcher = false) {thread : Thread} (ht : thread ∈ s'.threads) :
    thread ∈ s.threads ∨ thread.watcherId = none := by
  cases h with
  | startWorker hjs hn =>
    rcases mem_cons.1 ht with rfl | ht
    · exact .inr rfl
    · exact .inl ht
  | deliver hs | post hs =>
    left
    rw [hs]
    simp only [mem_append, mem_cons] at ht ⊢
    tauto
  | watchFile | watcherChange | watcherPost | watcherStop => cases hl
  | _ => exact .inl ht

/-- **Each watcher of the process is where its record says**, so the record restricts no run. -/
theorem WatchedSys.Reachable.matches {w : ℕ} {x : WatchedSys} (h : x.Reachable w) :
    ∀ thread ∈ x.sys.threads, thread.Matches x.watcher := by
  induction h with
  | start h =>
    obtain ⟨⟨ms, hs⟩, -⟩ := h
    rw [hs]
    simp [Sys.initial]
  | @tail x l x' hr hl ih =>
    have hbelow := Sys.Reachable.watcherIds (Reachable.sys hr)
    cases hl.1 with
    | engine hl' h =>
      intro thread ht
      rcases h.threads_of_engine hl' ht with ht | hnone
      · exact ih thread ht
      · cases thread with
        | worker job task => trivial
        | watcher | posting => cases hnone
    | watchFile h =>
      cases h with
      | watchFile hjs hn =>
        intro thread ht
        rcases mem_cons.1 ht with rfl | ht
        · exact ⟨_, Function.update_self .., rfl, rfl, .inl rfl⟩
        · refine (ih thread ht).update ?_ _
          intro he
          exact lt_irrefl _ (hbelow.lt _ (mem_filterMap.2 ⟨thread, ht, he⟩))
    | firstRead ht hw hphase =>
      show ∀ thread ∈ x.sys.threads, _
      rw [ht]
      apply matches_replace hbelow.nodup ih ht rfl [_]
      simp [Thread.Matches]
    | unchanged ht hw hphase hsame =>
      show ∀ thread ∈ x.sys.threads, _
      rw [ht]
      apply matches_replace hbelow.nodup ih ht rfl [_]
      simpa [Thread.Matches] using .inr ⟨_, _, hphase⟩
    | change ht hw hphase hchanged h =>
      cases h with
      | watcherChange ht' =>
        apply matches_replace hbelow.nodup ih ht' rfl [_]
        simp [Thread.Matches, cpyJob]
    | post ht hw hphase =>
      apply matches_replace hbelow.nodup ih ht rfl [_]
      simp [Thread.Matches]
    | stop ht hw hphase h =>
      cases h with
      | watcherStop ht' => exact matches_replace hbelow.nodup ih ht' rfl [] (by simp)

/-! ## The result -/

/-- **One notification per observed change.** Whatever the other threads do, a watcher whose polls
read whole files has done, at each moment, what the contents it saw ask for: it registered one new
job and posted one message with it, the watched function and context, for each content that is not
the one before it, in order, and nothing for the others; when it has stopped, it has then withdrawn
once and done nothing more. -/
theorem watcher_notifies {w : ℕ} {x : WatchedSys} (h : x.Reachable w) {t : WatcherThread}
    (ht : x.watcher w = some t) :
    (∃ ids, t.Correct ids ∧ ids.Nodup ∧
      ∀ i ∈ ids, (⟨i, t.job.func, false⟩ : JobKey) ∈ x.sys.registered) ∧
      (x.sys.registered.map JobKey.id).Nodup :=
  ⟨WatchedSys.Reachable.correctAt h t ht,
    Sys.Reachable.registered_nodup (WatchedSys.Reachable.sys h)⟩

/-- A file that changes once before the watcher is stopped. -/
theorem watcher_notifies_once : ∃ (x : WatchedSys) (t : WatcherThread), x.watcher 0 = some t ∧
    t.acts = [.saw [1], .saw [1], .saw [2, 3], .registerJob, t.note 1, .withdrawJob] ∧
    ∃ ids, t.Correct ids := by
  let p (bytes : List UInt8) : Poll := ⟨bytes.length, bytes, fun _ => 0⟩
  have complete : ∀ bytes : List UInt8, bytes.length < 2 ^ 31 →
      ∀ q, some (0, p bytes) = some (0, q) → q.Complete := by
    rintro bytes hlen _ ⟨⟩
    exact ⟨rfl, hlen⟩
  have silent : ∀ q : Poll, none = some (0, q) → q.Complete := by
    rintro _ ⟨⟩
  have started : WatchedSys.Reachable 0 _ :=
    ((Transition.Reachable.start (s := ⟨.initial 0, fun _ => none⟩) ⟨⟨0, rfl⟩, fun _ => rfl⟩).tail
      ⟨.engine rfl (.nextScript rfl), silent⟩).tail
      ⟨@WatchStep.watchFile _ (.user 0 0) [] 0 _ (.watchFile rfl rfl), silent⟩
  let job : JobHandles := ⟨.user 0 0, 0⟩
  let t₁ : WatcherThread := ⟨[], job, .polling [1] 1, [.saw [1], .saw [1]]⟩
  let t₂ : WatcherThread := ⟨[], job, .posting [2, 3] 2 ⟨1, .user 0 0, none⟩ job,
    t₁.acts ++ [.saw [2, 3], .registerJob]⟩
  let t₃ : WatcherThread := ⟨[], job, .polling [2, 3] 2, t₂.acts ++ [t₁.note 1]⟩
  have polled := (started.tail
    ⟨@WatchStep.firstRead _ 0 _ (p [1]) [] [] rfl rfl rfl, complete _ (by decide)⟩).tail
    ⟨@WatchStep.unchanged _ 0 _ (p [1]) _ _ [] [] rfl rfl rfl (by decide), complete _ (by decide)⟩
  have changed := (polled.tail
    ⟨@WatchStep.change _ 0 t₁ (p [2, 3]) _ _ [] [] _ rfl rfl rfl (by decide)
      (@Step.watcherChange _ _ _ [] [] rfl), complete _ (by decide)⟩).tail
    ⟨@WatchStep.post _ 0 t₂ _ _ _ _ [] [] rfl rfl rfl, silent⟩
  have stopped := changed.tail
    ⟨@WatchStep.stop _ 0 t₃ _ _ [] [] _ rfl rfl rfl (@Step.watcherStop _ _ _ [] [] rfl), silent⟩
  let t₄ : WatcherThread := ⟨[], job, .stopped, t₃.acts ++ [.withdrawJob]⟩
  have conclude : ∀ x : WatchedSys, x.Reachable 0 → x.watcher 0 = some t₄ →
      ∃ (x : WatchedSys) (t : WatcherThread), x.watcher 0 = some t ∧
        t.acts = [.saw [1], .saw [1], .saw [2, 3], .registerJob, t.note 1, .withdrawJob] ∧
        ∃ ids, t.Correct ids := by
    intro x hx hw
    obtain ⟨⟨ids, hcorrect, -⟩, -⟩ := watcher_notifies hx hw
    exact ⟨x, t₄, hw, rfl, ids, hcorrect⟩
  exact conclude _ stopped rfl

end NanoJS
