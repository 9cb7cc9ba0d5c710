import NanoJS.Files.Requests

/-!
# The buffer of a whole-file read

Between the allocation by `Files.readFile` and the call of the user's callback, the buffer belongs
to the job alone: the program has no view of its store, it is not the pool, and no other job holds
or writes it (`World.Private`). So a step that is not the thread of the job keeps its bytes
(`World.Step.mem_own`).
-/

namespace NanoJS

open List ByteMemory

/-! ## What a job holds -/

namespace Token

/-- The store that only the job has a view of. -/
def own (t : Token) : List ℕ := t.func.own

/-- The stores that the job can write, or give the program a view of. -/
def reach (t : Token) : List ℕ :=
  t.func.stores ++
    match t.place with
    | .running task => task.targets
    | .ready (some args) => args.flatMap Value.stores
    | _ => []

end Token

/-- The function values that the calls of the API create: those that call the user's function, and
the arrow function of `Files.readFile`. -/
def Closure.Shaped (c : Closure) : Prop :=
  c.isPlain = true ∨ ∃ path fn call, c = .statArrow path (.user fn call)

/-- The stores of the jobs on their way. -/
structure World.Private (w : World) : Prop where
  stores_lt : ∀ s ∈ w.stores, s < w.realm.nextStore
  own : ∀ t ∈ w.tokens, ∀ s ∈ t.own,
    s < w.realm.nextStore ∧ s ≠ w.realm.allocPool ∧ s ∉ w.stores
  nodup : (w.tokens.flatMap Token.own).Nodup
  reach : ∀ t ∈ w.tokens, ∀ s ∈ t.reach, s ∈ w.stores ∨ s ∈ t.own
  shaped : ∀ t ∈ w.tokens, t.func.Shaped
  watching : ∀ t ∈ w.tokens, t.place = .watching → t.own = []

/-! ## Arguments hold no view -/

theorem Message.stores_build (v8 : V8) (msg : Message) :
    (msg.build v8).flatMap Value.stores = [] := by
  simp [Message.build, Value.null, Value.stores, buildObject]

theorem Task.stores_execute (task : Task) (node : FileNode) (told : ℤ) (mem : Mem) :
    (task.execute node told mem).2.2.flatMap Value.stores = [] := by
  cases task <;> rfl

/-! ## Steps -/

namespace World

variable {v8 : V8} {w w' : World}

/-- **A step that exchanges tokens keeps the stores private.** The program gets views of the pool,
of new stores and of stores of the jobs that are taken. -/
theorem Private.exchange (h : w.Private) (old new : List Token) {rest : List Token}
    {written : List ℕ} (hold : w.tokens.Perm (old ++ rest)) (hnew : w'.tokens.Perm (new ++ rest))
    (hgrows : w.realm.Grows written w'.realm) (hsub : w.stores ⊆ w'.stores)
    (hstores : ∀ s ∈ w'.stores, s ∈ w.stores ∨ s ∈ old.flatMap Token.own ∨
      (s < w'.realm.nextStore ∧ (s = w'.realm.allocPool ∨ w.realm.nextStore ≤ s)))
    (hown : ∀ t ∈ new, ∀ s ∈ t.own, s < w'.realm.nextStore ∧ s ≠ w'.realm.allocPool ∧
      s ∉ w'.stores ∧ s ∉ rest.flatMap Token.own)
    (hnodup : (new.flatMap Token.own).Nodup)
    (hreach : ∀ t ∈ new, ∀ s ∈ t.reach, s ∈ w'.stores ∨ s ∈ t.own)
    (hshaped : ∀ t ∈ new, t.func.Shaped) (hwatching : ∀ t ∈ new, t.place = .watching → t.own = []) :
    w'.Private := by
  have hmem : ∀ t ∈ rest, t ∈ w.tokens := fun t ht => hold.mem_iff.2 (mem_append_right _ ht)
  have hsplit : ∀ t ∈ w'.tokens, t ∈ new ∨ t ∈ rest := fun t ht =>
    mem_append.1 (hnew.mem_iff.1 ht)
  have hnodup' : (old.flatMap Token.own ++ rest.flatMap Token.own).Nodup := by
    rw [← flatMap_append]
    exact (hold.flatMap_right _).nodup_iff.1 h.nodup
  constructor
  · intro s hs
    rcases hstores s hs with hs | hs | ⟨hs, -⟩
    · exact (h.stores_lt s hs).trans_le hgrows.next_le
    · obtain ⟨t, ht, hs⟩ := mem_flatMap.1 hs
      exact (h.own t (hold.mem_iff.2 (mem_append_left _ ht)) s hs).1.trans_le hgrows.next_le
    · exact hs
  · intro t ht s hs
    rcases hsplit t ht with ht | ht
    · exact ⟨(hown t ht s hs).1, (hown t ht s hs).2.1, (hown t ht s hs).2.2.1⟩
    · obtain ⟨hlt, hpool, hns⟩ := h.own t (hmem t ht) s hs
      have hnext := hgrows.next_le
      have hpool' : s ≠ w'.realm.allocPool := by
        rcases hgrows.pool with hp | hp
        · rwa [hp]
        · omega
      refine ⟨hlt.trans_le hnext, hpool', ?_⟩
      intro hs'
      rcases hstores s hs' with hs' | hs' | ⟨-, hs' | hs'⟩
      · exact hns hs'
      · exact (nodup_append.1 hnodup').2.2 s hs' s (mem_flatMap.2 ⟨t, ht, hs⟩) rfl
      · exact hpool' hs'
      · omega
  · rw [(hnew.flatMap_right Token.own).nodup_iff, flatMap_append, nodup_append]
    refine ⟨hnodup, (nodup_append.1 hnodup').2.1, ?_⟩
    rintro s hs _ hs' rfl
    obtain ⟨t, ht, hs⟩ := mem_flatMap.1 hs
    exact (hown t ht s hs).2.2.2 hs'
  · intro t ht s hs
    rcases hsplit t ht with ht | ht
    · exact hreach t ht s hs
    · exact (h.reach t (hmem t ht) s hs).imp_left fun hs => hsub hs
  · intro t ht
    exact (hsplit t ht).elim (hshaped t) fun ht => h.shaped t (hmem t ht)
  · intro t ht hp
    exact (hsplit t ht).elim (fun ht => hwatching t ht hp) fun ht => h.watching t (hmem t ht) hp

/-- A step that moves tokens. -/
theorem Private.keep (h : w.Private) {written : List ℕ} (hp : w'.tokens.Perm w.tokens)
    (hgrows : w.realm.Grows written w'.realm) (hsub : w.stores ⊆ w'.stores)
    (hstores : ∀ s ∈ w'.stores, s ∈ w.stores ∨
      (s < w'.realm.nextStore ∧ (s = w'.realm.allocPool ∨ w.realm.nextStore ≤ s))) :
    w'.Private :=
  h.exchange [] [] (.refl _) hp hgrows hsub (fun s hs => (hstores s hs).imp_right .inr) (by simp)
    (by simp) (by simp) (by simp) (by simp)

/-- A job that goes on with the same function. -/
theorem Private.advance (h : w.Private) {func : Closure} {place place' : Place}
    {rest : List Token} {written : List ℕ} (hold : w.tokens.Perm (⟨func, place⟩ :: rest))
    (hnew : w'.tokens.Perm (⟨func, place'⟩ :: rest)) (hgrows : w.realm.Grows written w'.realm)
    (hnext : w'.realm.nextStore = w.realm.nextStore)
    (hpool : w'.realm.allocPool = w.realm.allocPool) (hstores : w'.stores = w.stores)
    (hreach : ∀ s ∈ Token.reach ⟨func, place'⟩, s ∈ Token.reach ⟨func, place⟩)
    (hplace : place' ≠ .watching) : w'.Private := by
  have hmem : (⟨func, place⟩ : Token) ∈ w.tokens := hold.mem_iff.2 mem_cons_self
  have hnodup := (hold.flatMap_right Token.own).nodup_iff.1 h.nodup
  rw [flatMap_cons, nodup_append] at hnodup
  refine h.exchange [⟨func, place⟩] [⟨func, place'⟩] hold hnew hgrows (by rw [hstores]; simp)
    (fun s hs => .inl (hstores ▸ hs)) ?_ (by simpa [Token.own] using hnodup.1) ?_ ?_ ?_
  · intro t ht s hs
    obtain rfl := mem_singleton.1 ht
    obtain ⟨h₁, h₂, h₃⟩ := h.own _ hmem s hs
    exact ⟨by rwa [hnext], by rwa [hpool], by rwa [hstores], fun hs' => hnodup.2.2 s hs s hs' rfl⟩
  · intro t ht s hs
    obtain rfl := mem_singleton.1 ht
    rw [hstores]
    exact h.reach _ hmem s (hreach s hs)
  · intro t ht
    obtain rfl := mem_singleton.1 ht
    exact h.shaped ⟨func, place⟩ hmem
  · intro t ht hp
    obtain rfl := mem_singleton.1 ht
    exact absurd hp hplace

/-- What the function of a job starts is the read of a buffer that has just been allocated. -/
theorem Private.started (h : w.Private) {func : Closure} {args : List Value}
    (hmem : (⟨func, .ready (some args)⟩ : Token) ∈ w.tokens) {callback : Closure} {task : Task}
    {r' : Realm} (happly : (func.apply v8 args).run w.realm = .ok (.start callback task) r') :
    ∃ path fn call buffer, (newFastBuffer true buffer.byteLength).run w.realm = .ok buffer r' ∧
      callback = .readWrapper (.readFileWrapper (.user fn call) buffer) buffer ∧
      task = .read (toUtf8String v8 path) buffer.store 0 buffer.byteLength 0 := by
  rcases h.shaped _ hmem with hplain | ⟨path, fn, call, hfunc⟩
  · obtain ⟨fn, args', h'⟩ := func.apply_plain v8 hplain args w.realm
    rw [happly] at h'
    cases h'
  · have hfunc : func = .statArrow path (.user fn call) := hfunc
    rw [hfunc] at happly
    rcases Closure.apply_arrow v8 path (.user fn call) args w.realm with
      ⟨buffer, r'', hbuf, h'⟩ | ⟨e, h'⟩
    · rw [happly] at h'
      cases h'
      exact ⟨path, fn, call, buffer, hbuf, rfl, rfl⟩
    · rw [happly] at h'
      cases h'

/-- **Each step keeps the stores private.** -/
theorem Step.private (hv : v8.Documented) {a : Action} (h : World.Step v8 w a w')
    (hc : w.sys.Control) (hf : w.Framed) (hr : w.realm.WellFormed) (hp : w.Private) :
    w'.Private := by
  have hgrows := h.grows hv hr
  cases h with
  | file => exact hp.keep (.refl _) hgrows (Subset.refl _) fun s hs => .inl hs
  | bufferFrom call hprogram =>
    refine hp.keep (.refl _) hgrows (subset_append_right _ _) fun s hs => ?_
    rcases mem_append.1 hs with hs | hs
    · obtain ⟨view, hview, rfl⟩ := mem_map.1 hs
      exact .inr (fromStep_view_store hv hr call hview)
    · exact .inl hs
  | allocate hprogram halloc =>
    obtain ⟨hstore, hnext, -⟩ := newFastBuffer_eq halloc
    refine hp.keep (.refl _) hgrows (subset_cons_self _ _) fun s hs => ?_
    rcases mem_cons.1 hs with rfl | hs
    · exact .inr ⟨by dsimp only; omega, .inr hstore.ge⟩
    · exact .inl hs
  | write => exact hp.keep (.refl _) hgrows (Subset.refl _) fun s hs => .inl hs
  | @program l fn s' hprogram hl hs =>
    obtain ⟨rest, h₁, h₂⟩ := exchange hs hc
    cases hs with
    | timerCall => exact hp.keep (.refl _) hgrows (Subset.refl _) fun s hs => .inl hs
    | watchFile =>
      obtain rfl := Option.some.inj hl
      exact hp.exchange [] [⟨.user fn w.nextCall, .watching⟩] h₁ h₂ hgrows (Subset.refl _)
        (fun s hs => .inl hs) (by simp [Token.own, Closure.own]) (by simp [Token.own, Closure.own])
        (by simp [Token.reach, Closure.stores]) (by simp [Closure.Shaped, Closure.isPlain])
        (by simp [Token.own, Closure.own])
    | _ => cases hl
  | @request fn api func task r' s' hprogram hviews hperform hs =>
    obtain ⟨rest, h₁, h₂⟩ := exchange hs hc
    rcases api.perform_cases hv hr fn w.nextCall with
      ⟨-, _, _, _, h', -, -, hown, hreach, hshape⟩ | ⟨-, e, h'⟩
    · rw [hperform] at h'
      cases h'
      refine hp.exchange [] [⟨func, .running task⟩] h₁ h₂ hgrows (Subset.refl _)
        (fun s hs => .inl hs) (by simp [Token.own, hown]) (by simp [Token.own, hown]) ?_ ?_
        (by simp)
      · intro t ht s hs
        obtain rfl := mem_singleton.1 ht
        obtain ⟨view, hview, rfl⟩ := hreach s hs
        exact .inl (hviews view hview)
      · intro t ht
        obtain rfl := mem_singleton.1 ht
        rcases hshape with ⟨-, hplain⟩ | ⟨path, -, hfunc, -⟩
        · exact .inl hplain
        · exact .inr ⟨path, fn, _, hfunc⟩
    · rw [hperform] at h'
      cases h'
  | @refuse fn api e r' hprogram hviews h =>
    exact hp.keep (.refl _) hgrows (Subset.refl _) fun s hs => .inl hs
  | arrow hframe hs =>
    exact hp.keep (tokens_arrow hframe hs hc) hgrows (Subset.refl _) fun s hs => .inl hs
  | jsReturn hframe hs =>
    exact hp.keep (tokens_jsReturn hframe hs hc) hgrows (Subset.refl _) fun s hs => .inl hs
  | @passive l s' hl hs =>
    obtain ⟨rest, h₁, h₂⟩ := exchange hs hc
    cases l with
    | watcherChange job path =>
      have hmem : (⟨job.func, .watching⟩ : Token) ∈ w.tokens := h₁.mem_iff.2 mem_cons_self
      have hown := hp.watching _ hmem rfl
      refine hp.exchange _ _ h₁ h₂ hgrows (Subset.refl _) (fun s hs => .inl hs) ?_ ?_ ?_ ?_ ?_
      · simp_all [Label.gives, Token.own]
      · simp_all [Label.gives, Token.own]
      · have := hp.reach _ hmem
        simp_all [Label.gives, Token.own]
      · simpa [Label.gives] using hp.shaped _ hmem
      · simp_all [Label.gives, Token.own]
    | watcherPost job objects =>
      exact hp.advance h₁ h₂ hgrows rfl rfl rfl (by simp [Token.reach]) (by simp)
    | watcherStop job path =>
      exact hp.exchange _ [] h₁ h₂ hgrows (Subset.refl _) (fun s hs => .inl hs) (by simp)
        (by simp) (by simp) (by simp) (by simp)
    | timerCall | startWorker | watchFile | jsReturn | build | invokeCallback | deliver | post =>
      cases hl
    | _ => exact hp.keep (h₂.trans h₁.symm) hgrows (Subset.refl _) fun s hs => .inl hs
  | @build msg s' hpc hs =>
    obtain ⟨rest, h₁, h₂⟩ := exchange hs hc
    rw [Label.takes_build hpc] at h₁
    rw [Label.gives_build hpc] at h₂
    exact hp.advance h₁ h₂ hgrows rfl rfl rfl
      (by simp [Token.reach, Message.stores_build]) (by simp)
  | @invoke job rest args fn call args' r' s' hq hargs happly hs =>
    obtain ⟨rest, h₁, h₂⟩ := exchange hs hc
    rw [Label.takes_invokeCallback hq hargs] at h₁
    obtain ⟨-, rfl, -, hstores⟩ := Closure.apply_call happly
    refine hp.exchange _ [] h₁ h₂ hgrows (subset_append_right _ _) (fun s hs => ?_) (by simp)
      (by simp) (by simp) (by simp) (by simp)
    rcases mem_append.1 hs with hs | hs
    · have hreach := hp.reach _ (h₁.mem_iff.2 mem_cons_self) s (mem_append.2 (hstores s hs))
      exact hreach.imp_right fun hs => .inl (by simpa using hs)
    · exact .inl hs
  | @invokeArrow job rest args callback task r' s' hq hargs happly hs =>
    obtain ⟨rest, h₁, h₂⟩ := exchange hs hc
    rw [Label.takes_invokeCallback hq hargs] at h₁
    rw [hf.frame_of_invokes (hs.invokes hc).1] at h₂
    have hmem : (⟨job.func, .ready (some args)⟩ : Token) ∈ w.tokens := h₁.mem_iff.2 mem_cons_self
    obtain ⟨path, fn, call, buffer, hbuf, rfl, rfl⟩ := hp.started hmem happly
    obtain ⟨hstore, hnext, -, hpool⟩ := newFastBuffer_eq hbuf
    have hfresh : buffer.store ∉ w.stores := by
      intro hs
      have := hp.stores_lt _ hs
      omega
    have hrest : buffer.store ∉ rest.flatMap Token.own := by
      intro hs
      obtain ⟨t, ht, hs⟩ := mem_flatMap.1 hs
      have := (hp.own t (h₁.mem_iff.2 (mem_cons_of_mem _ ht)) _ hs).1
      omega
    have hpl := hr.pool_lt
    refine hp.exchange _ [⟨.readWrapper (.readFileWrapper (.user fn call) buffer) buffer,
      .running (.read (toUtf8String v8 path) buffer.store 0 buffer.byteLength 0)⟩] h₁
      (h₂.cons _) hgrows (Subset.refl _) (fun s hs => .inl hs) ?_ ?_ ?_ ?_ ?_
    · simp only [mem_singleton, forall_eq, Token.own, Closure.own]
      exact ⟨by omega, by omega, hfresh, hrest⟩
    · simp [Token.own, Closure.own]
    · simp [Token.reach, Token.own, Closure.stores, Closure.own, Task.targets]
    · simp [Closure.Shaped, Closure.isPlain]
    · simp
  | @invokeThrow job rest args e r' s' hq hargs happly hs =>
    obtain ⟨rest, h₁, h₂⟩ := exchange hs hc
    rw [hf.frame_of_invokes (hs.invokes hc).1] at h₂
    exact hp.exchange _ [] h₁ h₂ hgrows (Subset.refl _) (fun s hs => .inl hs) (by simp) (by simp)
      (by simp) (by simp) (by simp)
  | @deliver job task told mem' node' args s' htask hs =>
    obtain ⟨rest, h₁, h₂⟩ := exchange hs hc
    have hargs := task.stores_execute (w.fs task.path) told w.realm.mem
    rw [htask] at hargs
    exact hp.advance h₁ h₂ hgrows rfl rfl rfl (by simp +contextual [Token.reach, hargs]) (by simp)
  | @post job task s' hs =>
    obtain ⟨rest, h₁, h₂⟩ := exchange hs hc
    exact hp.advance h₁ h₂ hgrows rfl rfl rfl (by simp +contextual [Token.reach]) (by simp)

theorem Reachable.private (hv : v8.Documented) (hr : World.Reachable v8 w) : w.Private :=
  Transition.Reachable.invariant (I := Private)
    (by
      rintro _ ⟨ms, mem, fs, rfl⟩
      refine ⟨?_, ?_, .nil, ?_, ?_, ?_⟩
      · rintro s ⟨⟩
      all_goals rintro t ⟨⟩)
    (fun _ _ _ hr hp hl => hl.private hv (World.Reachable.sys hr).control
      (World.Reachable.framed hr) (World.Reachable.wellFormed hv hr) hp) hr

/-! ## What has been read -/

/-- Two jobs do not hold the same store. -/
theorem Private.eq_of_own (h : w.Private) {t t' : Token} (ht : t ∈ w.tokens) (ht' : t' ∈ w.tokens)
    {s : ℕ} (hs : s ∈ t.own) (hs' : s ∈ t'.own) : t = t' := by
  by_contra hne
  have hperm := perm_cons_erase ht
  have hnodup := (hperm.flatMap_right Token.own).nodup_iff.1 h.nodup
  rw [flatMap_cons, nodup_append] at hnodup
  have herase : t' ∈ w.tokens.erase t := (mem_erase_of_ne fun heq => hne heq.symm).2 ht'
  exact hnodup.2.2 s hs s (mem_flatMap.2 ⟨t', herase, hs'⟩) rfl

/-- A step that is not the thread of the job keeps the bytes of the job's store. -/
theorem Step.mem_own (hv : v8.Documented) {a : Action} (h : World.Step v8 w a w')
    (hc : w.sys.Control) (hr : w.realm.WellFormed) (hp : w.Private) {t : Token} (ht : t ∈ w.tokens)
    {s : ℕ} (hs : s ∈ t.own)
    (ha : ∀ job task args, a = .engine (.deliver job task args) → t ≠ ⟨job.func, .running task⟩) :
    w'.realm.mem s = w.realm.mem s := by
  obtain ⟨hlt, hpool, hns⟩ := hp.own t ht s hs
  refine (h.grows hv hr).mem s hlt hpool fun hmem => ?_
  rcases mem_append.1 hmem with hmem | hmem
  · unfold Action.targets at hmem
    split at hmem
    · rename_i job task args _
      have hjob : (⟨job.func, .running task⟩ : Token) ∈ w.tokens := by
        cases h with
        | passive hl => cases hl
        | deliver htask hstep =>
          obtain ⟨rest, h₁, -⟩ := exchange hstep hc
          exact h₁.mem_iff.2 mem_cons_self
      rcases hp.reach _ hjob s (mem_append_right _ hmem) with hs' | hs'
      · exact hns hs'
      · exact ha job task args rfl (hp.eq_of_own ht hjob hs hs')
    · cases hmem
  · exact hns hmem

end World

end NanoJS
