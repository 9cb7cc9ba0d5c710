import NanoJS.Files.OpenFiles
import NanoJS.Files.Origins

/-!
# Writes of long strings

A string whose encoding takes half a pool or more gets a store of its own from `Buffer.from`.
`Files.write` hands nobody a view of it (`World.Hidden`), so whatever the program, the loop and the
other threads do before the thread runs, the file gets the encoding of the string
(`long_string_written`), unless somebody gets at the file while the thread has it open. Shorter
strings lie in the pool, with others.
-/

namespace NanoJS

open List ByteMemory

/-! ## Stores without a view -/

namespace World

variable {v8 : V8} {w w' : World}

/-- Neither the program nor a job on its way has a view of the store. -/
structure Hidden (w : World) (s : ℕ) : Prop where
  lt : s < w.realm.nextStore
  pool : s ≠ w.realm.allocPool
  stores : s ∉ w.stores
  own : ∀ t ∈ w.tokens, s ∉ t.own

theorem Hidden.not_reach {s : ℕ} (hs : w.Hidden s) (hp : w.Private) {t : Token}
    (ht : t ∈ w.tokens) : s ∉ t.reach := by
  intro hmem
  rcases hp.reach t ht s hmem with hmem | hmem
  · exact hs.stores hmem
  · exact hs.own t ht hmem

/-- The program gets views of the pool, of new stores, and of those of the jobs. -/
theorem Step.stores_cases (hv : v8.Documented) {a : Action} (h : World.Step v8 w a w')
    (hc : w.sys.Control) (hr : w.realm.WellFormed) {s : ℕ} (hs : s ∈ w'.stores) :
    s ∈ w.stores ∨ (∃ t ∈ w.tokens, s ∈ t.reach) ∨ s = w'.realm.allocPool ∨
      w.realm.nextStore ≤ s := by
  cases h with
  | bufferFrom call hp =>
    rcases mem_append.1 hs with hs | hs
    · obtain ⟨view, hview, rfl⟩ := mem_map.1 hs
      exact .inr (.inr (fromStep_view_store hv hr call hview).2)
    · exact .inl hs
  | allocate hp h =>
    rcases mem_cons.1 hs with rfl | hs
    · exact .inr (.inr (.inr (newFastBuffer_eq h).1.ge))
    · exact .inl hs
  | @invoke job rest args fn call args' r' s' hq hargs happly hstep =>
    rcases mem_append.1 hs with hs | hs
    · obtain ⟨rest, h₁, -⟩ := exchange hstep hc
      rw [Label.takes_invokeCallback hq hargs] at h₁
      obtain ⟨-, -, -, hstores⟩ := Closure.apply_call happly
      exact .inr (.inl ⟨_, h₁.mem_iff.2 mem_cons_self, mem_append.2 (hstores s hs)⟩)
    · exact .inl hs
  | _ => exact .inl hs

/-- **A hidden store stays hidden, and keeps its bytes.** -/
theorem Hidden.step (hv : v8.Documented) {a : Action} (h : World.Step v8 w a w')
    (hr : World.Reachable v8 w) {s : ℕ} (hs : w.Hidden s) :
    w'.Hidden s ∧ w'.realm.mem s = w.realm.mem s := by
  have hc := (World.Reachable.sys hr).control
  have hwf := World.Reachable.wellFormed hv hr
  have hp := World.Reachable.private hv hr
  have hgrows := h.grows hv hwf
  have hpool : s ≠ w'.realm.allocPool := by
    have hlt := hs.lt
    have hne := hs.pool
    rcases hgrows.pool with hpool | hpool <;> omega
  refine ⟨⟨hs.lt.trans_le hgrows.next_le, hpool, ?_, ?_⟩, ?_⟩
  · intro hmem
    rcases h.stores_cases hv hc hwf hmem with hmem | ⟨t, ht, hmem⟩ | hmem | hmem
    · exact hs.stores hmem
    · exact hs.not_reach hp ht hmem
    · exact hpool hmem
    · exact Nat.not_lt.2 hmem hs.lt
  · intro t ht hmem
    cases h.origin hc (World.Reachable.framed hr) hp ht with
    | kept hold => exact hs.own t hold hmem
    | moved t₀ hold hfunc hplace =>
      rw [Token.own, ← hfunc] at hmem
      exact hs.own t₀ hold hmem
    | watched fn hfunc hplace =>
      rw [Token.own, hfunc] at hmem
      cases hmem
    | requested fn api task hlog hviews hstores hperform hplace =>
      rcases api.perform_cases hv hwf fn w.nextCall with
        ⟨-, _, _, _, h', -, -, hown, -⟩ | ⟨-, e, h'⟩
      · rw [hperform] at h'
        cases h'
        rw [Token.own, hown] at hmem
        cases hmem
      · rw [hperform] at h'
        cases h'
    | arrow path fn call args buffer hlog hready hbuf hfunc hplace =>
      rw [Token.own, hfunc] at hmem
      obtain rfl := mem_singleton.1 hmem
      exact Nat.lt_irrefl _ ((newFastBuffer_eq hbuf).1 ▸ hs.lt)
  · refine hgrows.mem s hs.lt hs.pool fun hmem => ?_
    rcases mem_append.1 hmem with hmem | hmem
    · unfold Action.targets at hmem
      split at hmem
      · rename_i job task args
        cases h with
        | passive hl => cases hl
        | deliver htask hstep =>
          obtain ⟨rest, h₁, -⟩ := exchange hstep hc
          exact hs.not_reach hp (h₁.mem_iff.2 mem_cons_self) (mem_append_right _ hmem)
      · cases hmem
    · exact hs.stores hmem

end World

/-! ## Long strings -/

/-- The flag of a string that `Files.write` passes on. -/
def ApiCall.flag (options : Option (Option JSString × Option JSString)) : JSString :=
  truthyOr (options.bind (·.2)) (jsString "w")

theorem ApiCall.writeArgument_flag (options : Option (Option JSString × Option JSString))
    (callback : Closure) (s : JSString) :
    (writeArgument options callback).flag (.string s) = flag options := by
  rcases options with _ | ⟨enc, flag⟩ <;> rfl

/-- **A long string gets a store of its own**, which holds its encoding. -/
theorem fromString_long {v8 : V8} (hv : v8.Documented) {r r' : Realm} (hr : r.WellFormed)
    {s encoding : JSString} (hne : encoding ≠ []) {ops : Encoding}
    (hops : getEncodingOps encoding = .ok (some ops)) (hlong : poolSize / 2 ≤ ops.byteLength v8 s)
    {view : View} (h : (bufferFrom v8 (.string s (some encoding))).run r = .ok view r') :
    view.store = r.nextStore ∧ r'.nextStore = r.nextStore + 1 ∧ r'.allocPool = r.allocPool ∧
      slice r'.mem view.store 0 view.byteLength = ops.encode s := by
  have hs : s ≠ [] := by
    rintro rfl
    obtain ⟨e, he⟩ := fromString_nil v8 (some encoding) r
    rw [bufferFrom, he] at h
    cases h
  rw [bufferFrom, fromString_run v8 hs, encodingOf_some hne, hops] at h
  replace h : (fromStringFast v8 s ops).run r = .ok view r' := h
  have hbytes := (fromStringFast_ok hv hr hs h).2
  by_cases hmax : ops.byteLength v8 s ≤ kMaxLength
  · rw [fromStringFast_direct hv hs hlong hmax] at h
    cases h
    exact ⟨rfl, rfl, rfl, hbytes⟩
  · obtain ⟨e, he⟩ := fromStringFast_tooLong (Nat.not_le.1 hmax) r
    rw [he] at h
    cases h

namespace World

variable {v8 : V8}

/-- The thread of a write of a long string finds its encoding, in a hidden store. -/
def Written (v8 : V8) (w : World) (api : ApiCall) (task : Task) : Prop :=
  ∀ path s options ops, api = .write path (.string s) options →
    getEncodingOps (ApiCall.encoding options) = .ok (some ops) →
    poolSize / 2 ≤ ops.byteLength v8 s →
      ∃ view, task = writeFileAsync v8 path view (ApiCall.flag options) ∧ w.Hidden view.store ∧
        slice w.realm.mem view.store 0 view.byteLength = ops.encode s

theorem lasting_written (hv : v8.Documented) : Lasting v8 (Written v8) where
  request {w w' a fn api func task} hr h hlog hviews hstores hperform := by
    rintro path s options ops rfl hops hlong
    have hc := (World.Reachable.sys hr).control
    have hwf := World.Reachable.wellFormed hv hr
    have hp := World.Reachable.private hv hr
    obtain ⟨view, hview, rfl⟩ := ApiCall.perform_write hperform
    rw [ApiCall.writeArgument_flag]
    have hne := (ApiCall.writeArgument options (.user fn w.nextCall)).encoding_ne_nil
    rw [WriteData.fromCall, ApiCall.writeArgument_encoding] at hview
    rw [ApiCall.writeArgument_encoding] at hne
    obtain ⟨hstore, hnext, hpool, hbytes⟩ := fromString_long hv hwf hne hops hlong hview
    have hpl := hwf.pool_lt
    refine ⟨view, rfl, ⟨by omega, by omega, ?_, ?_⟩, hbytes⟩
    · rw [hstores]
      intro hmem
      have := hp.stores_lt _ hmem
      omega
    · intro t ht hmem
      cases h.origin hc (World.Reachable.framed hr) hp ht with
      | kept hold =>
        have := (hp.own t hold _ hmem).1
        omega
      | moved t₀ hold hfunc hplace =>
        rw [Token.own, ← hfunc] at hmem
        have := (hp.own t₀ hold _ hmem).1
        omega
      | watched fn hfunc hplace =>
        rw [Token.own, hfunc] at hmem
        cases hmem
      | requested fn' api task hlog' hviews' hstores' hperform' hplace =>
        rcases api.perform_cases hv hwf fn' w.nextCall with
          ⟨-, _, _, _, h', -, -, hown, -⟩ | ⟨-, e, h'⟩
        · rw [hperform'] at h'
          cases h'
          rw [Token.own, hown] at hmem
          cases hmem
        · rw [hperform'] at h'
          cases h'
      | arrow path fn call args buffer hlog' =>
        rw [hlog] at hlog'
        exact absurd hlog' (cons_ne_self _ _)
  arrow {w w' a path buffer} hr h hbuf := by
    rintro _ _ _ _ ⟨⟩
  keep {w w' a api task} hr h hP := by
    intro path s options ops hapi hops hlong
    obtain ⟨view, htask, hhidden, hbytes⟩ := hP path s options ops hapi hops hlong
    obtain ⟨hhidden', hmem⟩ := hhidden.step hv h hr
    refine ⟨view, htask, hhidden', ?_⟩
    rw [slice, hmem]
    exact hbytes

end World

/-! ## The result -/

/-- The thread of a write of a long string writes its encoding. -/
theorem World.Step.writes_long {v8 : V8} (hv : v8.Documented) {w w' : World}
    (hr : World.Reachable v8 w) {job : CallbackJob} {task : Task} {args : List Value}
    (h : World.Step v8 w (.engine (.deliver job task args)) w') {path s : JSString}
    {options : Option (Option JSString × Option JSString)} {accepted : Bool}
    (hk : .requested job.func.call (.write path (.string s) options) accepted ∈ w.log)
    {ops : Encoding} (hops : getEncodingOps (ApiCall.encoding options) = .ok (some ops))
    (hlong : poolSize / 2 ≤ ops.byteLength v8 s) :
    ∃ (view : View) (told : ℤ), task = writeFileAsync v8 path view (ApiCall.flag options) ∧
      slice w.realm.mem view.store 0 view.byteLength = ops.encode s ∧
      w'.fs (toUtf8String v8 path) = ((writeFileAsync v8 path view (ApiCall.flag options)).execute
        (w.fs (toUtf8String v8 path)) told w.realm.mem).2.1 := by
  cases h with
  | passive hl => cases hl
  | @deliver _ _ told mem' node' _ s' htask hs =>
    obtain ⟨rest, h₁, -⟩ := World.exchange hs (World.Reachable.sys hr).control
    obtain ⟨view, rfl, -, hbytes⟩ := World.Reachable.task_of_requested hv
      (World.lasting_written hv) hr (h₁.mem_iff.2 mem_cons_self) hk path s options ops rfl hops
      hlong
    have hpath : (writeFileAsync v8 path view (ApiCall.flag options)).path = toUtf8String v8 path :=
      rfl
    rw [hpath] at htask
    refine ⟨view, told, rfl, hbytes, ?_⟩
    rw [htask]
    show Function.update w.fs _ node' _ = _
    rw [hpath, Function.update_self]

/-- **A long string is written as it is.** In every interleaving in which nobody gets at the files
that threads have open, whatever the program and the threads have done since the call: when the
thread of a `Files.write` of a string whose encoding takes half a pool or more has found a writable
file, it leaves the encoding in it, behind the old content unless the flag begins with a w. -/
theorem long_string_written {v8 : V8} (hv : v8.Documented) {f f' : FineWorld} (hf : f.Apart v8)
    {o : OpenFile} (h : FineWorld.Step v8 f (.closes o) f') {path s : JSString}
    {options : Option (Option JSString × Option JSString)} {accepted : Bool}
    (hk : .requested o.job.func.call (.write path (.string s) options) accepted ∈ f.world.log)
    {ops : Encoding} (hops : getEncodingOps (ApiCall.encoding options) = .ok (some ops))
    (hlong : poolSize / 2 ≤ ops.byteLength v8 s) (hw : o.found.Writable) :
    (f'.world.fs (toUtf8String v8 path)).content =
      (if (ApiCall.flag options).head? = some 0x77 then [] else o.found.content) ++
        ops.encode s := by
  obtain ⟨w, hr, ha⟩ := hf.abstracts
  cases h with
  | @closes _ _ mem' node' args s' pre post hopen htask hs =>
    have hfound := ha.found o (hopen ▸ mem_append_right _ mem_cons_self)
    have hlog : w.log = f.world.log := by rw [ha.same]
    obtain ⟨w', hstep, hnode, -⟩ := ha.closes hopen htask hs
    obtain ⟨view, told, htask', hbytes, hfile⟩ :=
      hstep.writes_long hv hr (hlog ▸ hk) hops hlong
    have hpath : o.task.path = toUtf8String v8 path := by
      rw [htask']
      rfl
    rw [hpath] at hfound hnode
    rw [hfound] at hfile
    show (Function.update f.world.fs o.task.path node' (toUtf8String v8 path)).content = _
    rw [hpath, Function.update_self, ← hnode, hfile,
      writeFileAsync_content hv path view (ApiCall.flag options) hw told w.realm.mem, hbytes]

/-- A string of 2048 units is long in UTF-16LE. -/
theorem accepts_utf16 {s : JSString} (hlen : s.length = 2048) (path : JSString)
    (flag : Option JSString) :
    (ApiCall.write path (.string s) (some (some (jsString "utf16le"), flag))).Accepts V8.reference ∧
      poolSize / 2 ≤ Encoding.utf16le.byteLength V8.reference s := by
  have hbytes : Encoding.utf16le.byteLength V8.reference s = 4096 := by
    rw [Encoding.byteLength, hlen]
  refine ⟨⟨?_, .utf16le, rfl, ?_⟩, ?_⟩
  · rintro rfl
    cases hlen
  · rw [hbytes]
    decide
  · rw [hbytes]
    decide

/-- A script writes a string of 2048 units in UTF-16LE. -/
theorem long_string_written_utf16 : ∃ (s : JSString) (f : FineWorld), s.length = 2048 ∧
    f.Apart V8.reference ∧
    (f.world.fs (toUtf8String V8.reference (jsString "f"))).content =
      Encoding.utf16le.encode s := by
  obtain ⟨s, hlen⟩ : ∃ s : JSString, s.length = 2048 := ⟨replicate 2048 0x61, length_replicate⟩
  let options : Option (Option JSString × Option JSString) := some (some (jsString "utf16le"), none)
  let api : ApiCall := .write (jsString "f") (.string s) options
  have hops : getEncodingOps (ApiCall.encoding options) = .ok (some .utf16le) := rfl
  obtain ⟨haccepts, hlong⟩ := accepts_utf16 hlen (jsString "f") none
  have scripted := (Transition.Reachable.start ⟨0, fun _ _ => 0, fun _ => .regular [0x62], rfl⟩ :
    World.Reachable V8.reference _).tail (.passive rfl (.nextScript rfl))
  rcases api.perform_cases V8.reference_documented
    (World.Reachable.wellFormed V8.reference_documented scripted) 0 0 with
    ⟨-, func, task, r', hrun, -, hcall, -⟩ | ⟨hno, -⟩
  case inr => exact absurd haccepts hno
  have hposts : task.posts = false := by
    obtain ⟨view, -, rfl⟩ := ApiCall.perform_write hrun
    rfl
  have requested := scripted.tail (@World.Step.request _ _ 0 api func task _ _ ⟨rfl, rfl, rfl⟩
    (by simp [api, ApiCall.views]) hrun (.startWorker rfl rfl))
  have conclude : ∀ w : World, World.Reachable V8.reference w →
      w.sys.threads = [.worker ⟨0, func, none⟩ task] → .requested 0 api true ∈ w.log →
      w.fs = (fun _ => .regular [0x62]) →
      ∃ (s : JSString) (f : FineWorld), s.length = 2048 ∧ f.Apart V8.reference ∧
        (f.world.fs (toUtf8String V8.reference (jsString "f"))).content =
          Encoding.utf16le.encode s := by
    intro w hr hthreads hk hfs
    let o : OpenFile := ⟨⟨0, func, none⟩, task, w.fs task.path⟩
    let f : FineWorld :=
      ⟨{ w with fs := Function.update w.fs task.path (task.opens o.found) }, [o]⟩
    have opened : f.Apart V8.reference := (World.Reachable.apart hr).tail
      ⟨@FineWorld.Step.opens _ _ ⟨0, func, none⟩ task (by simp [hthreads]) hposts (by simp),
        fun o ho => absurd ho not_mem_nil⟩
    have closing := @FineWorld.Step.closes V8.reference f o 0 _ _ _ _ [] [] rfl rfl
      (@Step.deliver _ _ _ _ [] [] hthreads hposts)
    refine ⟨s, _, hlen, opened.tail ⟨closing, trivial⟩,
      long_string_written V8.reference_documented opened closing (hcall ▸ hk) hops hlong ?_⟩
    show (w.fs task.path).Writable
    rw [hfs]
    exact FileNode.regular_writable _
  exact conclude _ requested rfl mem_cons_self rfl

end NanoJS
