import NanoJS.Files.MessageBuild
import NanoJS.Files.Watcher

/-!
# The messages that workers post

What `message::build` pushes has the arguments of `Message.build` (`build_refines`). That is so for
the messages of `statsAsync` and `watcher`: the names that they give to properties are different
ones, for which scripts find no setter, and the values have the types of their tags.
-/

namespace NanoJS

variable {v8 : V8} {prototype : Prototype}

/-! ## `Message.build` -/

/-- An object of a message, with its names as the worker gives them. -/
def ObjectProject.fields (object : ObjectProject) : ObjectFields :=
  ⟨object.property.map fun p => (cString p.1, p.2), object.values⟩

/-- What a handle holds for a value. -/
def Value.built (v8 : V8) : Value → Option BuiltValue
  | .prim .null => some .null
  | .object props => some (.object (props.map fun p => (v8.newFromUtf8 (cString p.1), p.2)))
  | _ => none

/-- The value of a property that `Message.build` finds is the one that was encoded. -/
theorem buildValue_eq {type : String} {v : AnyValue} (htag : v.tag = type)
    (hnul : ∀ s, v = .string s → 0 ∉ s) : buildValue v8 type v = some (v.decoded v8) := by
  subst htag
  cases v with
  | string s =>
    rw [buildValue, AnyValue.tag, if_pos rfl, takeWhile_of_nul (hnul s rfl)]
    rfl
  | int | double | bool => rfl

theorem buildObject_built {object : ObjectProject} (h : object.fields.Encoded v8) :
    (buildObject v8 object).built v8 = some (.object (object.fields.entries v8)) := by
  have hvalue : ∀ p ∈ object.property.zip object.values,
      buildValue v8 p.1.2 p.2 = some (p.2.decoded v8) := by
    rintro ⟨⟨name, type⟩, v⟩ hmem
    obtain ⟨j, hj⟩ := List.mem_iff_getElem?.1 hmem
    obtain ⟨hproperty, hv⟩ := List.getElem?_zip_eq_some.1 hj
    refine buildValue_eq (h.tagged j (cString name) type v ?_ hv) fun s hs => h.strings s ?_
    · rw [ObjectProject.fields, List.getElem?_map, hproperty, Option.map_some]
    · exact hs ▸ List.mem_of_getElem? hv
  have hmap : (object.property.zip object.values).filterMap (fun p =>
      (buildValue v8 p.1.2 p.2).map fun value => (p.1.1, value)) =
        (object.property.zip object.values).map fun p => (p.1.1, p.2.decoded v8) := by
    rw [← List.filterMap_eq_map]
    exact List.filterMap_congr fun p hp => by rw [hvalue p hp]; rfl
  rw [buildObject, hmap, Value.built, ObjectFields.entries, ObjectProject.fields, List.zip_map_left,
    List.map_map, List.map_map]
  rfl

/-- The arguments are those of `Message.build`. -/
theorem build_refines {queue : List BuiltJob} {msg : Message}
    (hfew : msg.objects.length < 2 ^ 31 - 1)
    (henc : ∀ object ∈ msg.objects, object.fields.Encoded v8)
    (hacc : ∀ object ∈ msg.objects, object.fields.Accepted v8 prototype) :
    MessageBuild.build v8 prototype queue msg.job (msg.objects.map ObjectProject.fields) =
      .ok (queue ++ [⟨msg.job, (Message.build v8 msg).map (Value.built v8)⟩]) := by
  rw [MessageBuild.build_ok queue msg.job (by simpa using hfew) (by simpa using henc)
    (by simpa using hacc), MessageBuild.builtArgs, Message.build, List.map_cons, List.map_map,
    List.map_map]
  have hobjects : msg.objects.map ((fun object => some (.object (object.entries v8))) ∘
      ObjectProject.fields) = msg.objects.map (Value.built v8 ∘ buildObject v8) :=
    List.map_congr_left fun object hobject => (buildObject_built (henc object hobject)).symm
  rw [hobjects]
  rfl

/-! ## What the workers post -/

/-- The names that `statsAsync` and `watcher` give to properties. -/
def workerNames : List String :=
  ["eventType", "File", "mode", "size", "dev", "ino", "nlink", "uid", "gid", "rdev", "blksize"]

theorem workerNames_ascii :
    ∀ name ∈ workerNames, ∀ c ∈ name.toList, 0 < c.toNat ∧ c.toNat < 0x80 := by
  have hall : ∀ name ∈ workerNames,
      (name.toList.all fun c => 0 < c.toNat && decide (c.toNat < 0x80)) = true := by decide
  exact fun name hname => ascii_of_all (hall name hname)

theorem workerNames_short : ∀ name ∈ workerNames, (cString name).length ≤ kMaxStringLength := by
  decide

/-- What the objects have in common that the workers post: such names, values with the types of
their tags, and strings without a NUL that V8 accepts. -/
structure ObjectProject.FromWorker (object : ObjectProject) : Prop where
  names : (object.property.map (·.1)).Sublist workerNames
  tags : List.Forall₂ (fun p v => AnyValue.tag v = p.2) object.property object.values
  strings : ∀ s, .string s ∈ object.values → 0 ∉ s ∧ s.length ≤ kMaxStringLength

namespace ObjectProject.FromWorker

variable {object : ObjectProject}

theorem mem_names (h : object.FromWorker) {p : String × String} (hp : p ∈ object.property) :
    p.1 ∈ workerNames := h.names.subset (List.mem_map_of_mem hp)

theorem newFromUtf8_name (h : object.FromWorker) (hv : v8.Documented) {p : String × String}
    (hp : p ∈ object.property) : v8.newFromUtf8 (cString p.1) = jsString p.1 :=
  newFromUtf8_ascii hv (workerNames_ascii p.1 (h.mem_names hp))
    (workerNames_short p.1 (h.mem_names hp))

theorem encoded (h : object.FromWorker) (hv : v8.Documented) : object.fields.Encoded v8 where
  parallel := by
    rw [ObjectProject.fields, List.length_map, h.tags.length_eq]
  tagged j name type v hproperty hvalue := by
    rw [ObjectProject.fields, List.getElem?_map, Option.map_eq_some_iff] at hproperty
    obtain ⟨p, hp, hpair⟩ := hproperty
    have hzip : (object.property.zip object.values)[j]? = some (p, v) :=
      List.getElem?_zip_eq_some.2 ⟨hp, hvalue⟩
    rw [(List.forall₂_iff_zip.1 h.tags).2 (List.mem_of_getElem? hzip)]
    exact congrArg Prod.snd hpair
  distinct := by
    have hjs : (object.property.map fun p => v8.newFromUtf8 (cString p.1)) =
        (object.property.map (·.1)).map jsString := by
      rw [List.map_map]
      exact List.map_congr_left fun p hp => h.newFromUtf8_name hv hp
    have hnodup : (workerNames.map jsString).Nodup := by decide
    rw [ObjectProject.fields, List.map_map]
    exact hjs ▸ hnodup.sublist (h.names.map jsString)
  names p hp := by
    obtain ⟨p, hmem, rfl⟩ := List.mem_map.1 hp
    exact zero_not_mem_cString (workerNames_ascii p.1 (h.mem_names hmem))
  strings s hs := (h.strings s hs).1

/-- Scripts find no setter for these names. -/
theorem accepted (h : object.FromWorker) (hv : v8.Documented) :
    object.fields.Accepted v8 .pristine where
  few := by
    have hlength := h.names.length_le
    rw [List.length_map] at hlength
    rw [ObjectProject.fields, List.length_map]
    exact Nat.lt_of_le_of_lt hlength (by decide)
  short p hp := by
    obtain ⟨p, hmem, rfl⟩ := List.mem_map.1 hp
    exact workerNames_short p.1 (h.mem_names hmem)
  shortStrings s hs := (h.strings s hs).2
  noSetter p hp := by
    obtain ⟨p, hmem, rfl⟩ := List.mem_map.1 hp
    have hothers : ∀ name ∈ workerNames, jsString name ≠ jsString "__proto__" := by decide
    rw [h.newFromUtf8_name hv hmem]
    exact if_neg (hothers p.1 (h.mem_names hmem))

end ObjectProject.FromWorker

theorem statsAsync_fromWorker (node : FileNode) :
    ∀ object ∈ statsAsync node, object.FromWorker := by
  intro object hmem
  cases hstat : node.stat with
  | none =>
    obtain rfl : object = ⟨[], []⟩ := by simpa [statsAsync, hstat] using hmem
    exact ⟨List.nil_sublist _, .nil, by simp⟩
  | some stat =>
    rw [statsAsync, hstat, List.mem_singleton] at hmem
    subst hmem
    refine ⟨?_, ?_, fun s hs => ?_⟩
    · simp only [statFields, List.map_cons, List.map_nil]
      decide
    · simp [statFields, AnyValue.tag]
    · obtain rfl : s = cString (getPermissions stat.mode) := by simpa [statFields] using hs
      refine ⟨zero_not_mem_cString (permissions_ascii stat.mode), ?_⟩
      rw [cString, List.length_map, toList_getPermissions, List.length_map]
      decide

theorem changeObjects_fromWorker {path : CString} (hnul : 0 ∉ path)
    (hlength : path.length ≤ kMaxStringLength) :
    ∀ object ∈ changeObjects path, object.FromWorker := by
  intro object hmem
  rw [changeObjects, List.mem_singleton] at hmem
  subst hmem
  refine ⟨?_, by simp [AnyValue.tag], fun s hs => ?_⟩
  · simp only [List.map_cons, List.map_nil]
    decide
  · rcases (by simpa using hs : s = _ ∨ s = path) with rfl | rfl
    · exact ⟨by decide, by decide⟩
    · exact ⟨hnul, hlength⟩

/-- The callbacks receive what `Message.build` makes of the messages that the workers post. -/
theorem build_fromWorker (hv : v8.Documented) (queue : List BuiltJob) (msg : Message)
    (hfew : msg.objects.length < 2 ^ 31 - 1)
    (hworker : ∀ object ∈ msg.objects, object.FromWorker) :
    MessageBuild.build v8 .pristine queue msg.job (msg.objects.map ObjectProject.fields) =
      .ok (queue ++ [⟨msg.job, (Message.build v8 msg).map (Value.built v8)⟩]) :=
  build_refines hfew (fun object hmem => (hworker object hmem).encoded hv)
    fun object hmem => (hworker object hmem).accepted hv

theorem build_statsAsync_refines (hv : v8.Documented) (queue : List BuiltJob) (job : CallbackJob)
    (node : FileNode) :
    MessageBuild.build v8 .pristine queue job ((statsAsync node).map ObjectProject.fields) =
      .ok (queue ++ [⟨job, (Message.build v8 ⟨job, statsAsync node⟩).map (Value.built v8)⟩]) := by
  have hone : (statsAsync node).length = 1 := by
    unfold statsAsync
    split <;> rfl
  have hfew : (statsAsync node).length < 2 ^ 31 - 1 := by
    rw [hone]
    decide
  exact build_fromWorker hv queue ⟨job, statsAsync node⟩ hfew (statsAsync_fromWorker node)

theorem build_changeObjects_refines (hv : v8.Documented) (queue : List BuiltJob)
    (job : CallbackJob) {path : CString} (hnul : 0 ∉ path)
    (hlength : path.length ≤ kMaxStringLength) :
    MessageBuild.build v8 .pristine queue job ((changeObjects path).map ObjectProject.fields) =
      .ok (queue ++ [⟨job, (Message.build v8 ⟨job, changeObjects path⟩).map (Value.built v8)⟩]) :=
  build_fromWorker hv queue ⟨job, changeObjects path⟩ (by simp [changeObjects])
    (changeObjects_fromWorker hnul hlength)

end NanoJS
