import FactGraph.Sidecar.Files

/-!
# The records of a folder

The files of a folder stand for records: an artifact for each id, with the time of its first write
(`Holds`). Writing, reading and removing keep to this as long as no id is the twin of another, that
is, its file the metadata of the other.
-/

namespace FactGraph.Sidecar

open Protocol Store Db JsonText Check Codec Codec.Support

variable {K A : Type}

theorem get?_remove {K V : Type} [DecidableEq K] (d : List (K × V)) (x y : K) :
    Dict.get? (Dict.remove d x) y = if y = x then none else Dict.get? d y := by
  unfold Dict.remove
  induction d with
  | nil => simp
  | cons p rest ih =>
    obtain ⟨k, v⟩ := p
    by_cases hk : k = x
    · rw [List.filter_cons_of_neg (by simpa using hk), ih, Dict.get?_cons]
      by_cases hy : y = x
      · rw [if_pos hy, if_pos hy]
      · rw [if_neg hy, if_neg hy, if_neg (by rw [hk]; exact hy)]
    · rw [List.filter_cons_of_pos (by simpa using hk), Dict.get?_cons, ih, Dict.get?_cons]
      by_cases hy : y = k
      · rw [if_pos hy, if_pos hy, if_neg (by rw [hy]; exact hk)]
      · rw [if_neg hy, if_neg hy]

/-! ## Records -/

/-- Artifacts under ids, with the time of the first write. -/
abbrev Records (A : Type) := String → Option (A × Int)

/-- What is under an id after a write: the first one stays. -/
def put (records : Records A) (x : String) (a : A) (now : Int) : Records A :=
  fun y => if y = x ∧ records x = none then some (a, now) else records y

/-- The records but one. -/
def drop (records : Records A) (x : String) : Records A := fun y => if y = x then none else records y

theorem drop_self (records : Records A) (x : String) : drop records x x = none := if_pos rfl

theorem drop_of_ne {records : Records A} {x y : String} (h : y ≠ x) :
    drop records x y = records y := if_neg h

/-- No id among some is the twin of another of them. -/
def TwinFree (ids : String → Prop) : Prop := ∀ x, ids x → ¬ ids (twin x)

/-- A record has its two files. -/
def Stored (host : Host K) (codec : ArtifactCodec K A) (folder : FilePath) (files : Files)
    (x : String) : Option (A × Int) → Prop
  | none => True
  | some (a, t) => FileId x ∧ codec.Survives host a ∧
      (∃ text, dumpsRow host (codec.toDict a) = .ok text ∧
        Dict.get? files (folder ++ [x ++ payloadSuffix]) = some text) ∧
      Dict.get? files (folder ++ [x ++ metaSuffix]) = some (metaText host t)

/-- The files of the folder stand for the records. -/
structure Holds (host : Host K) (codec : ArtifactCodec K A) (folder : FilePath) (files : Files)
    (records : Records A) : Prop where
  opened : ∀ name ∈ folder, nul ∉ name.toList
  stored : ∀ x, Stored host codec folder files x (records x)
  recorded : ∀ name, (Dict.get? files (folder ++ [name])).isSome →
    ∃ x, (records x).isSome ∧ (name = x ++ payloadSuffix ∨ name = x ++ metaSuffix)

section

variable {host : Host K} {codec : ArtifactCodec K A} {folder : FilePath} {files files' : Files}
  {records records' : Records A} {ids : String → Prop}

theorem Holds.empty (h : ∀ name ∈ folder, nul ∉ name.toList) :
    Holds host codec folder [] fun _ => none where
  opened := h
  stored := fun _ => trivial
  recorded := fun _ h => by cases h

theorem Holds.of_some (h : Holds host codec folder files records) {x : String} {a : A} {t : Int}
    (hx : records x = some (a, t)) : Stored host codec folder files x (some (a, t)) := by
  rw [← hx]
  exact h.stored x

/-- A record is stored where its files are the same. -/
theorem Stored.congr {x : String} {r : Option (A × Int)} (h : Stored host codec folder files x r)
    (hpayload : Dict.get? files' (folder ++ [x ++ payloadSuffix]) =
      Dict.get? files (folder ++ [x ++ payloadSuffix]))
    (hmeta : Dict.get? files' (folder ++ [x ++ metaSuffix]) =
      Dict.get? files (folder ++ [x ++ metaSuffix])) : Stored host codec folder files' x r := by
  cases r with
  | none => trivial
  | some r =>
    obtain ⟨a, t⟩ := r
    unfold Stored
    rw [hpayload, hmeta]
    exact h

/-- What happens to other folders does not matter. -/
theorem Holds.congr (h : Holds host codec folder files records)
    (hfiles : ∀ name, Dict.get? files' (folder ++ [name]) = Dict.get? files (folder ++ [name])) :
    Holds host codec folder files' records where
  opened := h.opened
  stored := fun x => (h.stored x).congr (hfiles _) (hfiles _)
  recorded := fun name hname => by
    rw [hfiles] at hname
    exact h.recorded name hname

theorem path_inj {m n : String} : folder ++ [m] = folder ++ [n] ↔ m = n := by
  rw [List.append_cancel_left_eq, List.cons.injEq]
  simp

/-- Only the files of one id, and its record, are other ones. -/
theorem Holds.change (h : Holds host codec folder files records) (hids : TwinFree ids)
    (hsub : ∀ x, (records x).isSome → ids x) {x : String} (hx : ids x)
    (hfiles : ∀ name, name ≠ x ++ payloadSuffix → name ≠ x ++ metaSuffix →
      Dict.get? files' (folder ++ [name]) = Dict.get? files (folder ++ [name]))
    (hrecords : ∀ y, y ≠ x → records' y = records y)
    (hstored : Stored host codec folder files' x (records' x))
    (hgone : records' x = none → Dict.get? files' (folder ++ [x ++ payloadSuffix]) = none ∧
      Dict.get? files' (folder ++ [x ++ metaSuffix]) = none) :
    Holds host codec folder files' records' where
  opened := h.opened
  stored := by
    intro y
    by_cases hyx : y = x
    · rw [hyx]
      exact hstored
    rw [hrecords y hyx]
    cases hrecord : records y with
    | none => trivial
    | some r =>
      -- the files of `y` are no files of `x`, for neither is the twin of the other
      have hy : ids y := hsub y (by rw [hrecord]; rfl)
      have htwin : y ≠ twin x := fun heq => hids x hx (heq ▸ hy)
      have htwin' : x ≠ twin y := fun heq => hids y hy (heq ▸ hx)
      rw [← hrecord]
      refine (h.stored y).congr (hfiles _ ?_ ?_) (hfiles _ ?_ ?_)
      · rwa [Ne, payload_inj]
      · rwa [Ne, payload_eq_meta]
      · rwa [Ne, eq_comm, payload_eq_meta]
      · rwa [Ne, meta_inj]
  recorded := by
    intro name hname
    by_cases hpayload : name = x ++ payloadSuffix
    · refine ⟨x, ?_, .inl hpayload⟩
      rw [Option.isSome_iff_ne_none]
      intro hnone
      rw [hpayload, (hgone hnone).1] at hname
      cases hname
    by_cases hmeta : name = x ++ metaSuffix
    · refine ⟨x, ?_, .inr hmeta⟩
      rw [Option.isSome_iff_ne_none]
      intro hnone
      rw [hmeta, (hgone hnone).2] at hname
      cases hname
    rw [hfiles name hpayload hmeta] at hname
    obtain ⟨y, hy, hnames⟩ := h.recorded name hname
    have hyx : y ≠ x := by
      intro heq
      subst heq
      rcases hnames with hname | hname
      · exact hpayload hname
      · exact hmeta hname
    exact ⟨y, by rwa [hrecords y hyx], hnames⟩

/-- An id without a record has no file. -/
theorem Holds.payload_eq_none (h : Holds host codec folder files records) (hids : TwinFree ids)
    (hsub : ∀ x, (records x).isSome → ids x) {x : String} (hx : ids x) (hnone : records x = none) :
    Dict.get? files (folder ++ [x ++ payloadSuffix]) = none := by
  rw [Option.eq_none_iff_forall_ne_some]
  intro text htext
  obtain ⟨y, hy, hname | hname⟩ := h.recorded (x ++ payloadSuffix) (by rw [htext]; rfl)
  · rw [payload_inj] at hname
    subst hname
    rw [hnone] at hy
    cases hy
  · rw [payload_eq_meta] at hname
    subst hname
    exact hids y (hsub y hy) hx

/-! ## Writing -/

theorem eq_of_text {a b : A} {text : String} (ha : codec.Survives host a)
    (hb : codec.Survives host b) (htext : dumpsRow host (codec.toDict a) = .ok text)
    (htext' : dumpsRow host (codec.toDict b) = .ok text) : a = b := by
  obtain ⟨s, row, hs, hrow, hread⟩ := ha
  obtain ⟨s', row', hs', hrow', hread'⟩ := hb
  rw [htext, Except.ok.injEq] at hs
  rw [htext', Except.ok.injEq] at hs'
  subst hs hs'
  rw [hrow, Except.ok.injEq] at hrow'
  subst hrow'
  rw [hread, Except.ok.injEq] at hread'
  exact hread'

/-- The files after the first write of an id. -/
def withArtifact (host : Host K) (folder : FilePath) (x text : String) (now : Int) (files : Files) :
    Files :=
  Dict.set (Dict.set files (folder ++ [x ++ payloadSuffix]) text) (folder ++ [x ++ metaSuffix])
    (metaText host now)

/-- The first write of an id. -/
theorem Holds.write_new (h : Holds host codec folder files records) (hids : TwinFree ids)
    (hsub : ∀ x, (records x).isSome → ids x) {x : String} (hx : ids x) (hname : FileId x)
    (hnone : records x = none) {a : A} (ha : codec.Survives host a) (msg : String) (now : Int) :
    ∃ text, writeArtifact host codec (folder ++ [x ++ payloadSuffix]) a msg now files =
        .ok (withArtifact host folder x text now files) ∧
      Holds host codec folder (withArtifact host folder x text now files)
        (put records x a now) := by
  obtain ⟨text, row, htext, hrow, hread⟩ := ha
  refine ⟨text, ?_, ?_⟩
  · unfold writeArtifact writeBytes
    rw [htext, ok_bind, (opens_file h.opened hname).1, ok_bind, h.payload_eq_none hids hsub hx hnone,
      ok_bind]
    show Except.ok (writeMeta host now (folder ++ [x ++ payloadSuffix]) _) = _
    unfold writeMeta
    rw [metaPath_payload folder hname.1]
    rfl
  · have hput : put records x a now x = some (a, now) := if_pos ⟨rfl, hnone⟩
    refine h.change hids hsub hx ?_ ?_ ?_ ?_
    · intro name hpayload hmeta
      unfold withArtifact
      rw [Dict.get?_set_of_ne (by rwa [Ne, path_inj]), Dict.get?_set_of_ne (by rwa [Ne, path_inj])]
    · intro y hyx
      exact if_neg fun hand => hyx hand.1
    · rw [hput]
      refine ⟨hname, ⟨text, row, htext, hrow, hread⟩, ⟨text, htext, ?_⟩, Dict.get?_set_self _ _ _⟩
      unfold withArtifact
      rw [Dict.get?_set_of_ne, Dict.get?_set_self]
      rw [Ne, path_inj, payload_eq_meta]
      exact ne_twin x
    · intro hgone
      rw [hput] at hgone
      cases hgone

/-- A write of an id that has a record changes nothing: it is refused, unless its text is the same. -/
theorem Holds.write_again (h : Holds host codec folder files records) {x text : String} {a b : A}
    {t : Int} (hrecord : records x = some (b, t)) (htext : dumpsRow host (codec.toDict a) = .ok text)
    (msg : String) (now : Int) :
    writeArtifact host codec (folder ++ [x ++ payloadSuffix]) a msg now files =
      if dumpsRow host (codec.toDict a) = dumpsRow host (codec.toDict b) then .ok files
      else .error (.valueError msg) := by
  obtain ⟨hname, -, ⟨text', htext', hfile⟩, -⟩ := h.of_some hrecord
  unfold writeArtifact writeBytes
  rw [htext, htext', ok_bind, (opens_file h.opened hname).1, ok_bind, hfile]
  simp only [Except.ok.injEq, eq_comm (a := text)]
  split <;> rfl

/-! ## Removing -/

/-- The files once both of an id are removed. -/
def withoutArtifact (folder : FilePath) (x : String) (files : Files) : Files :=
  Dict.remove (Dict.remove files (folder ++ [x ++ payloadSuffix])) (folder ++ [x ++ metaSuffix])

/-- Both files of an id are removed. -/
theorem Holds.remove (h : Holds host codec folder files records) (hids : TwinFree ids)
    (hsub : ∀ x, (records x).isSome → ids x) {x : String} (hx : ids x) :
    Holds host codec folder (withoutArtifact folder x files) (drop records x) := by
  refine h.change hids hsub hx ?_ ?_ ?_ ?_
  · intro name hpayload hmeta
    unfold withoutArtifact
    rw [get?_remove, if_neg (by rwa [path_inj]), get?_remove, if_neg (by rwa [path_inj])]
  · intro y hyx
    exact drop_of_ne hyx
  · rw [drop_self]
    trivial
  · intro _
    unfold withoutArtifact
    constructor
    · rw [get?_remove, get?_remove, if_pos rfl, ite_self]
    · rw [get?_remove, if_pos rfl]

/-! ## Reading -/

/-- A read returns what is recorded. -/
theorem Holds.read (h : Holds host codec folder files records) (hids : TwinFree ids)
    (hsub : ∀ x, (records x).isSome → ids x) {x : String} (hx : ids x) (hname : FileId x) :
    readArtifact host codec (folder ++ [x ++ payloadSuffix]) files =
      .ok ((records x).map Prod.fst) := by
  unfold readArtifact readJsonRow
  rw [(opens_file h.opened hname).1, ok_bind]
  cases hrecord : records x with
  | none =>
    rw [h.payload_eq_none hids hsub hx hrecord]
    rfl
  | some r =>
    obtain ⟨a, t⟩ := r
    obtain ⟨-, ⟨text', row, htext', hrow, hread⟩, ⟨text, htext, hfile⟩, -⟩ := h.of_some hrecord
    rw [htext, Except.ok.injEq] at htext'
    subst htext'
    rw [hfile]
    show ((loadsRow host text).map some >>= _) = _
    rw [hrow]
    show (codec.fromDict row).map some = _
    rw [hread]
    rfl

end

/-!
## Collecting rule traces

`gc_rule_trace` on a folder that stands for records: it finds each record by its two files, and
removes those whose first write is older than the retention time. An id that ends in `.meta` would
break this, for its payload has the name of a metadata file.
-/

variable {K : Type} {host : Host K} {files : Files}

/-! ## Stems -/

/-- The name of a metadata file. -/
def IsMeta (x : String) : Prop := ∃ y, x = twin y

theorem metaStem?_eq_some {name x : String} : metaStem? name = some x ↔ name = x ++ metaSuffix := by
  unfold metaStem?
  constructor
  · intro h
    split_ifs at h with hsuffix
    rw [Option.some.injEq] at h
    obtain ⟨front, hfront⟩ := List.isSuffixOf_iff_suffix.mp hsuffix
    have hname : name = String.ofList front ++ metaSuffix := by
      rw [← String.toList_inj, String.toList_append, String.toList_ofList, hfront]
    rw [hname, String.length_append, Nat.add_sub_cancel, ← String.length_toList,
      String.toList_append, List.take_left, String.ofList_toList] at h
    rw [hname, h]
  · intro h
    subst h
    have hsuffix : metaSuffix.toList.isSuffixOf (x ++ metaSuffix).toList = true := by
      rw [List.isSuffixOf_iff_suffix, String.toList_append]
      exact List.suffix_append _ _
    rw [if_pos hsuffix, String.length_append, Nat.add_sub_cancel, ← String.length_toList,
      String.toList_append, List.take_left, String.ofList_toList]

theorem payloadStem?_payload {x : String} (hx : x ≠ "") (hmeta : ¬ IsMeta x) :
    payloadStem? (x ++ payloadSuffix) = some x := by
  have hsuffix : ¬ metaSuffix.toList.isSuffixOf (x ++ payloadSuffix).toList = true := by
    intro hsuffix
    obtain ⟨front, hfront⟩ := List.isSuffixOf_iff_suffix.mp hsuffix
    refine hmeta ⟨String.ofList front, ?_⟩
    rw [← payload_eq_meta, ← String.toList_inj, String.toList_append, String.toList_append,
      String.toList_ofList, ← String.toList_append, hfront]
  unfold payloadStem?
  rw [if_neg hsuffix, splitSuffix_payload hx, if_pos rfl]

theorem payloadStem?_meta (x : String) : payloadStem? (x ++ metaSuffix) = none := by
  have hsuffix : metaSuffix.toList.isSuffixOf (x ++ metaSuffix).toList = true := by
    rw [List.isSuffixOf_iff_suffix, String.toList_append]
    exact List.suffix_append _ _
  unfold payloadStem?
  rw [if_pos hsuffix]

/-- A file of the folder is the folder and its name. -/
theorem ruleTraceFile_eq {path : FilePath} (h : path.dropLast = host.ruleTraceFolder) :
    host.ruleTraceFolder ++ [path.getLastD ""] = path := by
  have hne : path ≠ [] := by
    intro hnil
    rw [hnil] at h
    unfold Host.ruleTraceFolder at h
    simp at h
  rw [← h, List.getLastD_eq_getLast?, List.getLast?_eq_some_getLast hne, Option.getD_some,
    List.dropLast_append_getLast]

theorem mem_traceNames {name : String} : name ∈ traceNames host files ↔
    (Dict.get? files (host.ruleTraceFolder ++ [name])).isSome := by
  unfold traceNames
  rw [(List.perm_insertionSort _ _).mem_iff, Option.isSome_iff_exists, ← Dict.mem_keys_iff]
  constructor
  · intro h
    obtain ⟨path, hpath, hname⟩ := List.mem_map.mp h
    obtain ⟨hpath, hfolder⟩ := List.mem_filter.mp hpath
    rw [← hname, ruleTraceFile_eq (of_decide_eq_true hfolder)]
    exact hpath
  · intro h
    refine List.mem_map.mpr ⟨_, List.mem_filter.mpr ⟨h, ?_⟩, ?_⟩
    · rw [List.dropLast_concat]
      exact decide_eq_true rfl
    · rw [List.getLastD_concat]

theorem splitSuffix_concat (name : String) : (splitSuffix name).1 ++ (splitSuffix name).2 = name := by
  unfold splitSuffix
  dsimp only
  split_ifs with h
  · exact String.append_empty
  · have hsplit := List.takeWhile_append_dropWhile (p := fun c => decide (c ≠ '.'))
      (l := name.toList.reverse)
    cases hdrop : name.toList.reverse.dropWhile fun c => decide (c ≠ '.') with
    | nil =>
      rw [hdrop] at h
      simp at h
    | cons c rest =>
      have hc : c = '.' := by
        have hhead := List.head_dropWhile_not (p := fun c => decide (c ≠ '.'))
          (l := name.toList.reverse) (by rw [hdrop]; simp)
        simp only [hdrop, List.head_cons] at hhead
        simpa using hhead
      subst hc
      rw [hdrop] at hsplit
      have hname := congrArg List.reverse hsplit
      rw [List.reverse_reverse, List.reverse_append, List.reverse_cons, List.append_assoc,
        List.singleton_append] at hname
      rw [List.drop_one, List.tail_cons, ← String.toList_inj, String.toList_append,
        String.toList_ofList, String.toList_ofList, hname]

theorem eq_of_payloadStem? {name x : String} (h : payloadStem? name = some x) :
    name = x ++ payloadSuffix := by
  unfold payloadStem? at h
  split_ifs at h with hmeta hsuffix
  cases h
  rw [← hsuffix, splitSuffix_concat]

theorem nodup_traceNames (h : (Dict.keys files).Nodup) : (traceNames host files).Nodup := by
  unfold traceNames
  rw [(List.perm_insertionSort _ _).nodup_iff]
  refine List.Nodup.map_on ?_ (h.filter _)
  intro p hp q hq hname
  obtain ⟨-, hp⟩ := List.mem_filter.mp hp
  obtain ⟨-, hq⟩ := List.mem_filter.mp hq
  rw [← ruleTraceFile_eq (of_decide_eq_true hp), ← ruleTraceFile_eq (of_decide_eq_true hq), hname]

/-! ## One record -/

section

variable [DecidableEq K] {records : Records (RuleTraceArtifact K)} {ids : String → Prop}

omit [DecidableEq K] in
theorem loadsRow_metaText (hfloat : FloatText host.floatRepr host.float?) (t : Int) :
    loadsRow host (metaText host t) = .ok (.dict [(.str "captured_at_ns", .leaf (.int t))]) := by
  have hkeys : keysDistinct (.obj [("captured_at_ns", .leaf (.int t))] : Json) := by
    simp [keysDistinct, keysDistinctFields, Dict.keys]
  unfold loadsRow metaText
  rw [jsonLoads?_jsonDumps hfloat jsonEscaping hkeys]
  rfl

/-- The time of a record is read from its metadata. -/
theorem capturedAt_metaText (hfloat : FloatText host.floatRepr host.float?) {path : FilePath} {t : Int}
    (hopens : opens path = .ok ()) (h : Dict.get? files path = some (metaText host t)) :
    capturedAt host files path = .ok t := by
  unfold capturedAt readJsonRow
  rw [hopens, ok_bind, h]
  show ((loadsRow host (metaText host t)).map some >>= _) = _
  rw [loadsRow_metaText hfloat]
  rfl

/-- A record is older than the retention time. -/
def expired (records : Records (RuleTraceArtifact K)) (before : Int) (x : String) : Bool :=
  (records x).any fun r => r.2 < before

/-- The records that are left of some, once the expired ones among the ids are gone. -/
def unexpired (records : Records (RuleTraceArtifact K)) (before : Int) (among : List String) :
    Records (RuleTraceArtifact K) :=
  fun x => if x ∈ among ∧ expired records before x then none else records x

/-- One turn of the loop. -/
theorem collectTrace_eq (hfloat : FloatText host.floatRepr host.float?) {s : Collected}
    (h : Holds host (ruleTraceCodec host) host.ruleTraceFolder s.files records) {x : String}
    (hx : (records x).isSome) (before : Int) (dryRun : Bool) :
    collectTrace host before dryRun s x =
      if expired records before x then
        { s with
          files := if dryRun then s.files else withoutArtifact host.ruleTraceFolder x s.files
          deletedKeys := s.deletedKeys ++ [x] }
      else s := by
  obtain ⟨⟨a, t⟩, hrecord⟩ := Option.isSome_iff_exists.mp hx
  obtain ⟨hname, -, -, hmeta⟩ := h.of_some hrecord
  have hexpired : expired records before x = decide (t < before) := by
    unfold expired
    rw [hrecord]
    rfl
  unfold collectTrace
  rw [show capturedAt host s.files (host.traceMeta x) = .ok t from capturedAt_metaText hfloat
    (opens_file h.opened hname).2 hmeta]
  dsimp only
  rw [hexpired]
  by_cases ht : before ≤ t
  · rw [if_pos ht, if_neg (by simpa using ht)]
  · rw [if_neg ht, if_pos (decide_eq_true (not_le.mp ht))]
    rfl

/-! ## All records -/

/-- What the loop makes of the files, given some records in them. -/
structure Kept (host : Host K) (records : Records (RuleTraceArtifact K)) (files files' : Files) :
    Prop where
  holds : Holds host (ruleTraceCodec host) host.ruleTraceFolder files' records
  nodup : (Dict.keys files').Nodup
  elsewhere : ∀ folder name, folder ≠ host.ruleTraceFolder →
    Dict.get? files' (folder ++ [name]) = Dict.get? files (folder ++ [name])

omit [DecidableEq K] in
theorem withoutArtifact_elsewhere {folder : FilePath} (hfolder : folder ≠ host.ruleTraceFolder)
    (x name : String) : Dict.get? (withoutArtifact host.ruleTraceFolder x files) (folder ++ [name]) =
      Dict.get? files (folder ++ [name]) := by
  have hne : ∀ n, folder ++ [name] ≠ host.ruleTraceFolder ++ [n] := by
    intro n heq
    exact hfolder (List.append_inj_left' heq rfl)
  unfold withoutArtifact
  rw [get?_remove, if_neg (hne _), get?_remove, if_neg (hne _)]

theorem nodup_withoutArtifact (h : (Dict.keys files).Nodup) (folder : FilePath) (x : String) :
    (Dict.keys (withoutArtifact folder x files)).Nodup := by
  have hremove : ∀ {files : Files} (path : FilePath), (Dict.keys files).Nodup →
      (Dict.keys (Dict.remove files path)).Nodup := fun path h =>
    h.sublist (List.filter_sublist.map _)
  exact hremove _ (hremove _ h)

/-- The loop over some recorded ids. -/
theorem fold_collectTrace (hfloat : FloatText host.floatRepr host.float?) (hids : TwinFree ids)
    (before : Int) (dryRun : Bool) : ∀ (xs : List String) (s : Collected)
    (records : Records (RuleTraceArtifact K)), xs.Nodup →
    Holds host (ruleTraceCodec host) host.ruleTraceFolder s.files records →
    (Dict.keys s.files).Nodup → (∀ x, (records x).isSome → ids x) →
    (∀ x ∈ xs, (records x).isSome) →
    Kept host (if dryRun then records else unexpired records before xs) s.files
        (xs.foldl (collectTrace host before dryRun) s).files ∧
      (xs.foldl (collectTrace host before dryRun) s).deletedKeys =
        s.deletedKeys ++ xs.filter (expired records before) ∧
      (xs.foldl (collectTrace host before dryRun) s).failedKeys = s.failedKeys := by
  intro xs
  induction xs with
  | nil =>
    intro s records _ h hnodup _ _
    have hrecords : (if dryRun then records else unexpired records before []) = records := by
      split
      · rfl
      · funext x
        exact if_neg fun hand => by cases hand.1
    rw [hrecords, List.filter_nil, List.append_nil]
    exact ⟨⟨h, hnodup, fun _ _ _ => rfl⟩, rfl, rfl⟩
  | cons x xs ih =>
    intro s records hxs h hnodup hsub hrecorded
    rw [List.nodup_cons] at hxs
    rw [List.forall_mem_cons] at hrecorded
    rw [List.foldl_cons, collectTrace_eq hfloat h hrecorded.1]
    by_cases hexpired : expired records before x
    · rw [if_pos hexpired, List.filter_cons_of_pos hexpired]
      cases dryRun with
      | true =>
        obtain ⟨hkept, hdeleted, hfailed⟩ := ih
          { s with files := if true then s.files else withoutArtifact host.ruleTraceFolder x s.files
                   deletedKeys := s.deletedKeys ++ [x] } records hxs.2 h hnodup hsub hrecorded.2
        refine ⟨hkept, ?_, hfailed⟩
        rw [hdeleted, List.append_assoc, List.singleton_append]
      | false =>
        -- the record of `x` is gone in the rest of the loop
        have hremoved := h.remove hids hsub (hsub x hrecorded.1)
        have hne : ∀ y ∈ xs, y ≠ x := by
          intro y hy heq
          subst heq
          exact hxs.1 hy
        have hsame : ∀ y ∈ xs, expired (drop records x) before y = expired records before y := by
          intro y hy
          unfold expired
          rw [drop_of_ne (hne y hy)]
        obtain ⟨hkept, hdeleted, hfailed⟩ := ih
          { s with files := if false then s.files else withoutArtifact host.ruleTraceFolder x s.files
                   deletedKeys := s.deletedKeys ++ [x] } _ hxs.2 hremoved
          (nodup_withoutArtifact hnodup _ _) (by
            intro y hy
            unfold drop at hy
            split_ifs at hy with hyx
            · cases hy
            · exact hsub y hy) (by
            intro y hy
            rw [drop_of_ne (hne y hy)]
            exact hrecorded.2 y hy)
        have hrecords : unexpired (drop records x) before xs = unexpired records before (x :: xs) := by
          funext y
          unfold unexpired expired
          by_cases hyx : y = x
          · subst hyx
            rw [drop_self, ite_self, if_pos ⟨List.mem_cons_self, hexpired⟩]
          · simp only [drop_of_ne hyx, List.mem_cons, hyx, false_or]
        refine ⟨?_, ?_, hfailed⟩
        · rw [if_neg Bool.false_ne_true] at hkept ⊢
          rw [hrecords] at hkept
          refine ⟨hkept.holds, hkept.nodup, ?_⟩
          intro folder name hfolder
          exact (hkept.elsewhere folder name hfolder).trans (withoutArtifact_elsewhere hfolder x name)
        · rw [hdeleted, List.filter_congr hsame, List.append_assoc, List.singleton_append]
    · rw [if_neg hexpired, List.filter_cons_of_neg hexpired]
      obtain ⟨hkept, hdeleted, hfailed⟩ := ih s records hxs.2 h hnodup hsub hrecorded.2
      have hrecords : unexpired records before xs = unexpired records before (x :: xs) := by
        funext y
        unfold unexpired
        by_cases hyx : y = x
        · subst hyx
          rw [if_neg fun hand => hexpired hand.2, if_neg fun hand => hexpired hand.2]
        · simp only [List.mem_cons, hyx, false_or]
      rw [← hrecords]
      exact ⟨hkept, hdeleted, hfailed⟩

/-- The ids that a folder of records has, by payload and by metadata. -/
theorem mem_stems (h : Holds host (ruleTraceCodec host) host.ruleTraceFolder files records)
    (hplain : ∀ x, (records x).isSome → ¬ IsMeta x) {x : String} :
    (x ∈ (traceNames host files).filterMap payloadStem? ↔ (records x).isSome) ∧
      (x ∈ (traceNames host files).filterMap metaStem? ↔ (records x).isSome) := by
  have hfiles : ∀ {x}, (records x).isSome → x ≠ "" ∧ x ++ payloadSuffix ∈ traceNames host files ∧
      x ++ metaSuffix ∈ traceNames host files := by
    intro x hx
    obtain ⟨⟨a, t⟩, hrecord⟩ := Option.isSome_iff_exists.mp hx
    obtain ⟨hname, -, ⟨text, -, hpayload⟩, hmeta⟩ := h.of_some hrecord
    refine ⟨hname.1, mem_traceNames.mpr ?_, mem_traceNames.mpr ?_⟩
    · rw [hpayload]
      rfl
    · rw [hmeta]
      rfl
  rw [List.mem_filterMap, List.mem_filterMap]
  constructor
  · constructor
    · intro ⟨name, hname, hstem⟩
      obtain ⟨y, hy, rfl | rfl⟩ := h.recorded name (mem_traceNames.mp hname)
      · rw [payloadStem?_payload (hfiles hy).1 (hplain y hy), Option.some.injEq] at hstem
        rwa [← hstem]
      · rw [payloadStem?_meta] at hstem
        cases hstem
    · intro hx
      exact ⟨_, (hfiles hx).2.1, payloadStem?_payload (hfiles hx).1 (hplain x hx)⟩
  · constructor
    · intro ⟨name, hname, hstem⟩
      rw [metaStem?_eq_some] at hstem
      subst hstem
      obtain ⟨y, hy, hnames | hnames⟩ := h.recorded _ (mem_traceNames.mp hname)
      · rw [eq_comm, payload_eq_meta] at hnames
        exact absurd ⟨x, hnames⟩ (hplain y hy)
      · rw [meta_inj] at hnames
        rwa [hnames]
    · intro hx
      exact ⟨_, (hfiles hx).2.2, metaStem?_eq_some.mpr rfl⟩

end

end FactGraph.Sidecar
