import FactGraph.Sidecar.Texts

/-!
# Artifact files

`FileArtifactSidecar` of `core/store/_artifact_sidecar.py`: the names of the files of an artifact, and
what writing, reading and collecting do to the files under the root.

A file is known by the names on the way to it, and holds a text. All folders are there, and no file
has the name of one; what may fail in the file system is left out, but for a path that no file can
have. The clock is read once by each call that reads it.
-/

namespace FactGraph.Sidecar

open Protocol Store Db JsonText Check Codec Codec.Support

section

variable {K : Type} [DecidableEq K]

/-! ## Names -/

/-- The parts of a path. -/
def parts (path : String) : List String :=
  ((path.toList.splitOn '/').map String.ofList).filter fun part => part ≠ "" && part ≠ "."

/-- One part further. -/
def descend (path : FilePath) (part : String) : FilePath :=
  if part = ".." then path.dropLast else path ++ [part]

/-- `folder / path`, as the file system finds it: a path that starts with a slash starts at the top. -/
def joinPath (folder : FilePath) (path : String) : FilePath :=
  (parts path).foldl descend (if path.toList.head? = some '/' then [] else folder)

/-- `Path.stem` and `Path.suffix`: a name, divided at its last dot. A dot at either end divides
nothing. -/
def splitSuffix (name : String) : String × String :=
  let cs := name.toList.reverse
  let head := ((cs.dropWhile (· ≠ '.')).drop 1).reverse
  let tail := (cs.takeWhile (· ≠ '.')).reverse
  if head.isEmpty || tail.isEmpty then (name, "")
  else (String.ofList head, String.ofList ('.' :: tail))

def payloadSuffix : String := ".json"

def metaSuffix : String := ".meta.json"

/-- `_meta_path`: `path.with_suffix(".meta.json")`. -/
def metaPath (path : FilePath) : FilePath :=
  path.dropLast ++ [(splitSuffix (path.getLastD "")).1 ++ metaSuffix]

namespace Host

def supportFolder (host : Host K) : FilePath := host.root ++ ["support", "sha256"]

def ruleTraceFolder (host : Host K) : FilePath := host.root ++ ["rule_trace"]

/-- `_support_path`. -/
def supportPath (host : Host K) (supportDigest : String) : Except SupportErr FilePath := do
  require (startsWith "sha256:" supportDigest)
    (.valueError "support_digest must use sha256: prefix")
  let digestHex := String.ofList (supportDigest.toList.drop 7)
  require (digestHex ≠ "") (.valueError "support_digest hex must be non-empty")
  .ok (joinPath host.supportFolder (digestHex ++ payloadSuffix))

/-- `_rule_trace_path`. -/
def ruleTracePath (host : Host K) (ruleRunId : String) : Except SupportErr FilePath := do
  require (ruleRunId ≠ "") (.valueError "rule_run_id must be non-empty string")
  require (!ruleRunId.toList.any (· ∈ ['/', '\\', nul]))
    (.valueError "rule_run_id must be filesystem-safe")
  .ok (joinPath host.ruleTraceFolder (ruleRunId ++ payloadSuffix))

end Host

/-! ## Writing and reading -/

/-- The files under the root. -/
abbrev Files := List (FilePath × String)

/-- `open` refuses a path with a null character in it. -/
def opens (path : FilePath) : Except SupportErr Unit :=
  require (path.all fun name => nul ∉ name.toList) (.valueError "embedded null byte")

/-- `_write_bytes`: is it the first write? -/
def writeBytes (files : Files) (path : FilePath) (payload collisionMessage : String) :
    Except SupportErr (Bool × Files) := do
  opens path
  match Dict.get? files path with
  | some existing =>
      if existing = payload then .ok (false, files) else .error (.valueError collisionMessage)
  | none => .ok (true, Dict.set files path payload)

/-- The text of `_write_meta`, for a time of at most 4300 digits. -/
def metaText (host : Host K) (capturedAtNs : Int) : String :=
  jsonDumps jsonEscaping host.floatRepr (.obj [("captured_at_ns", .leaf (.int capturedAtNs))])

/-- `_write_meta`. -/
def writeMeta (host : Host K) (now : Int) (path : FilePath) (files : Files) : Files :=
  Dict.set files (metaPath path) (metaText host now)

/-- `write_support` and `write_rule_trace`, from the path on. -/
def writeArtifact {A : Type} (host : Host K) (codec : ArtifactCodec K A) (path : FilePath) (a : A)
    (collisionMessage : String) (now : Int) (files : Files) : Except SupportErr Files := do
  let payload ← dumpsRow host (codec.toDict a)
  let (firstWrite, files) ← writeBytes files path payload collisionMessage
  .ok (if firstWrite then writeMeta host now path files else files)

/-- `write_support`. -/
def writeSupport (host : Host K) (supportDigest : String) (artifact : ProofReceipt K) (now : Int)
    (files : Files) : Except SupportErr Files := do
  let path ← host.supportPath supportDigest
  writeArtifact host (supportCodec host) path artifact
    s!"support_digest collision for different ProofReceipt on disk: {supportDigest}" now files

/-- `write_rule_trace`. -/
def writeRuleTrace (host : Host K) (ruleRunId : String) (artifact : RuleTraceArtifact K) (now : Int)
    (files : Files) : Except SupportErr Files := do
  let path ← host.ruleTracePath ruleRunId
  writeArtifact host (ruleTraceCodec host) path artifact
    s!"rule_run_id collision for different RuleTraceArtifact on disk: {ruleRunId}" now files

/-- `_read_json_row`. -/
def readJsonRow (host : Host K) (files : Files) (path : FilePath) :
    Except SupportErr (Option (PyObj K)) := do
  opens path
  match Dict.get? files path with
  | none => .ok none
  | some text => (loadsRow host text).map some

/-- `read_support` and `read_rule_trace`, from the path on. -/
def readArtifact {A : Type} (host : Host K) (codec : ArtifactCodec K A) (path : FilePath)
    (files : Files) : Except SupportErr (Option A) := do
  match ← readJsonRow host files path with
  | none => .ok none
  | some row => (codec.fromDict row).map some

/-- `read_support`. -/
def readSupport (host : Host K) (supportDigest : String) (files : Files) :
    Except SupportErr (Option (ProofReceipt K)) := do
  let path ← host.supportPath supportDigest
  readArtifact host (supportCodec host) path files

/-- `read_rule_trace`. -/
def readRuleTrace (host : Host K) (ruleRunId : String) (files : Files) :
    Except SupportErr (Option (RuleTraceArtifact K)) := do
  let path ← host.ruleTracePath ruleRunId
  readArtifact host (ruleTraceCodec host) path files

/-! ## Collecting -/

/-- `GCResult`. -/
structure GCResult where
  totalScanned : Nat
  deletedKeys : List String
  deletedOrphanMetaPaths : List FilePath
  skippedOrphanPayloadPaths : List FilePath
  failedKeys : List (String × FilePath × SupportErr)

/-- The names in the folder of rule traces, sorted. -/
def traceNames (host : Host K) (files : Files) : List String :=
  (((Dict.keys files).filter (·.dropLast = host.ruleTraceFolder)).map (·.getLastD "")).insertionSort
    (· ≤ ·)

/-- The key of `meta_paths_by_stem` for a name. -/
def metaStem? (name : String) : Option String :=
  if metaSuffix.toList.isSuffixOf name.toList then
    some (String.ofList (name.toList.take (name.length - metaSuffix.length)))
  else none

/-- The key of `payload_paths_by_stem` for a name. -/
def payloadStem? (name : String) : Option String :=
  if metaSuffix.toList.isSuffixOf name.toList then none
  else if (splitSuffix name).2 = payloadSuffix then some (splitSuffix name).1 else none

def Host.tracePayload (host : Host K) (stem : String) : FilePath :=
  host.ruleTraceFolder ++ [stem ++ payloadSuffix]

def Host.traceMeta (host : Host K) (stem : String) : FilePath :=
  host.ruleTraceFolder ++ [stem ++ metaSuffix]

/-- `captured_at_ns` of a metadata file. -/
def capturedAt (host : Host K) (files : Files) (path : FilePath) : Except SupportErr Int := do
  match ← readJsonRow host files path with
  | none => .error (.valueError "artifact row missing")
  | some row => do
      let fields ← mapping (.valueError "artifact row must decode to object") row
      match get? fields "captured_at_ns" with
      | some (.leaf (.int captured)) => .ok captured
      | _ => .error (.valueError "captured_at_ns must be int")

/-- What the last loop of `gc_rule_trace` goes on with. -/
structure Collected where
  files : Files
  deletedKeys : List String := []
  failedKeys : List (String × FilePath × SupportErr) := []

/-- One turn of the last loop of `gc_rule_trace`. -/
def collectTrace (host : Host K) (before : Int) (dryRun : Bool) (s : Collected) (ruleRunId : String) :
    Collected :=
  match capturedAt host s.files (host.traceMeta ruleRunId) with
  | .error e => { s with failedKeys := s.failedKeys ++ [(ruleRunId, host.traceMeta ruleRunId, e)] }
  | .ok captured =>
      if before ≤ captured then s
      else
        { s with
          files := if dryRun then s.files
            else Dict.remove (Dict.remove s.files (host.tracePayload ruleRunId)) (host.traceMeta ruleRunId)
          deletedKeys := s.deletedKeys ++ [ruleRunId] }

/-- `gc_rule_trace`. -/
def gcRuleTrace (host : Host K) (ttlNs : Int) (dryRun : Bool) (now : Int) (files : Files) :
    Except SupportErr (GCResult × Files) := do
  require (0 < ttlNs) (.valueError "ttl_ns must be positive int")
  let metas := (traceNames host files).filterMap metaStem?
  let payloads := (traceNames host files).filterMap payloadStem?
  let sorted := fun stems : List String => stems.insertionSort (· ≤ ·)
  let orphanMetas := sorted (metas.filter (· ∉ payloads))
  let orphanPayloads := sorted (payloads.filter (· ∉ metas))
  let kept := if dryRun then files
    else orphanMetas.foldl (fun files stem => Dict.remove files (host.traceMeta stem)) files
  let collected := (sorted (payloads.filter (· ∈ metas))).foldl
    (collectTrace host (now - ttlNs) dryRun) { files := kept }
  .ok ({ totalScanned := (payloads ++ metas).dedup.length
         deletedKeys := collected.deletedKeys
         deletedOrphanMetaPaths := orphanMetas.map host.traceMeta
         skippedOrphanPayloadPaths := orphanPayloads.map host.tracePayload
         failedKeys := collected.failedKeys }, collected.files)

/-! ## Runs -/

/-- A call of a sidecar; those that read the clock say what it showed. -/
inductive Op (K : Type) where
  | writeSupport (supportDigest : String) (artifact : ProofReceipt K) (now : Int)
  | writeRuleTrace (ruleRunId : String) (artifact : RuleTraceArtifact K) (now : Int)
  | readSupport (supportDigest : String)
  | readRuleTrace (ruleRunId : String)
  | gcRuleTrace (ttlNs : Int) (dryRun : Bool) (now : Int)

/-- What a call returns. -/
inductive Reply (K : Type) where
  | written
  | support (artifact : Option (ProofReceipt K))
  | ruleTrace (artifact : Option (RuleTraceArtifact K))
  | collected (result : GCResult)

abbrev Outcome (K : Type) := Except SupportErr (Reply K)

/-- A call, with the files it leaves. A call that raises has touched no file. -/
def step (host : Host K) (files : Files) : Op K → Outcome K × Files
  | .writeSupport supportDigest artifact now =>
      match writeSupport host supportDigest artifact now files with
      | .ok files' => (.ok .written, files')
      | .error e => (.error e, files)
  | .writeRuleTrace ruleRunId artifact now =>
      match writeRuleTrace host ruleRunId artifact now files with
      | .ok files' => (.ok .written, files')
      | .error e => (.error e, files)
  | .readSupport supportDigest => ((readSupport host supportDigest files).map .support, files)
  | .readRuleTrace ruleRunId => ((readRuleTrace host ruleRunId files).map .ruleTrace, files)
  | .gcRuleTrace ttlNs dryRun now =>
      match gcRuleTrace host ttlNs dryRun now files with
      | .ok (result, files') => (.ok (.collected result), files')
      | .error e => (.error e, files)

/-- What the calls of a run return, one after the other. -/
def run (host : Host K) : Files → List (Op K) → List (Outcome K)
  | _, [] => []
  | files, op :: ops => (step host files op).1 :: run host (step host files op).2 ops

end

/-!
## The names of artifact files

The payload of `x` is `x.json` and its metadata `x.meta.json`, in one folder. So the metadata of `x`
is the payload of `x.meta`, and nothing else meets: two ids share a file only if one of them is the
other with `.meta` behind it.
-/

variable {K : Type}

/-- The id whose payload is the metadata of `x`. -/
def twin (x : String) : String := x ++ ".meta"

theorem metaSuffix_eq (x : String) : x ++ metaSuffix = twin x ++ payloadSuffix := by
  unfold twin metaSuffix payloadSuffix
  rw [String.append_assoc]
  rfl

theorem payload_inj {x y : String} : x ++ payloadSuffix = y ++ payloadSuffix ↔ x = y :=
  String.append_left_inj payloadSuffix

theorem meta_inj {x y : String} : x ++ metaSuffix = y ++ metaSuffix ↔ x = y :=
  String.append_left_inj metaSuffix

theorem payload_eq_meta {x y : String} : x ++ payloadSuffix = y ++ metaSuffix ↔ x = twin y := by
  rw [metaSuffix_eq, payload_inj]

theorem ne_twin (x : String) : x ≠ twin x := by
  intro h
  have hlength := congrArg String.length h
  unfold twin at hlength
  rw [String.length_append] at hlength
  have hmeta : ".meta".length = 5 := rfl
  omega

/-! ## Suffixes -/

/-- The last dot of a name is that of its suffix. -/
theorem splitSuffix_append {stem : String} {ext : List Char} (hstem : stem ≠ "") (hext : ext ≠ [])
    (hdot : '.' ∉ ext) :
    splitSuffix (stem ++ String.ofList ('.' :: ext)) = (stem, String.ofList ('.' :: ext)) := by
  have hreverse : (stem ++ String.ofList ('.' :: ext)).toList.reverse =
      ext.reverse ++ '.' :: stem.toList.reverse := by
    rw [String.toList_append, String.toList_ofList, List.reverse_append, List.reverse_cons,
      List.append_assoc, List.singleton_append]
  have hall : ∀ c ∈ ext.reverse, (decide (c ≠ '.')) = true := by
    intro c hc
    refine decide_eq_true ?_
    intro heq
    subst heq
    exact hdot (List.mem_reverse.mp hc)
  have htake : (ext.reverse ++ '.' :: stem.toList.reverse).takeWhile (fun c => decide (c ≠ '.')) =
      ext.reverse := by
    rw [List.takeWhile_append_of_pos hall, List.takeWhile_cons_of_neg (by simp), List.append_nil]
  have hdrop : (ext.reverse ++ '.' :: stem.toList.reverse).dropWhile (fun c => decide (c ≠ '.')) =
      '.' :: stem.toList.reverse := by
    rw [List.dropWhile_append_of_pos hall, List.dropWhile_cons_of_neg (by simp)]
  have hstem' : stem.toList ≠ [] := by
    intro hnil
    exact hstem (String.toList_eq_nil_iff.mp hnil)
  unfold splitSuffix
  dsimp only
  rw [hreverse, htake, hdrop, List.drop_one, List.tail_cons, List.reverse_reverse,
    List.reverse_reverse, String.ofList_toList, if_neg]
  simp [hstem', hext]

theorem splitSuffix_payload {x : String} (hx : x ≠ "") :
    splitSuffix (x ++ payloadSuffix) = (x, payloadSuffix) :=
  @splitSuffix_append x ['j', 's', 'o', 'n'] hx (by simp) (by simp)

/-! ## Paths -/

/-- A name is one part. -/
theorem parts_name {name : String} (hslash : '/' ∉ name.toList) (hempty : name ≠ "")
    (hdot : name ≠ ".") : parts name = [name] := by
  have hsplit : name.toList.splitOn '/' = [name.toList] := by
    unfold List.splitOn
    refine List.splitOnP_eq_singleton ?_
    intro c hc
    rw [beq_eq_false_iff_ne]
    intro heq
    subst heq
    exact hslash hc
  unfold parts
  rw [hsplit]
  simp [String.ofList_toList, hempty, hdot]

theorem not_slash_payload {x : String} (h : '/' ∉ x.toList) : '/' ∉ (x ++ payloadSuffix).toList := by
  rw [String.toList_append, List.mem_append, not_or]
  exact ⟨h, by decide⟩

theorem length_payload (x : String) : (x ++ payloadSuffix).length = x.length + 5 := by
  rw [String.length_append]
  rfl

/-- Without a slash, a file is found in its folder. -/
theorem joinPath_payload (folder : FilePath) {x : String} (hslash : '/' ∉ x.toList) :
    joinPath folder (x ++ payloadSuffix) = folder ++ [x ++ payloadSuffix] := by
  have hname := not_slash_payload hslash
  have hne : ∀ s : String, s.length < 5 → x ++ payloadSuffix ≠ s := by
    intro s hs heq
    have hlength := length_payload x
    rw [heq] at hlength
    omega
  have hparts : parts (x ++ payloadSuffix) = [x ++ payloadSuffix] :=
    parts_name hname (hne "" (by decide)) (hne "." (by decide))
  have hhead : (x ++ payloadSuffix).toList.head? ≠ some '/' := by
    intro hhead
    exact hname (List.mem_of_mem_head? hhead)
  unfold joinPath
  rw [hparts, if_neg hhead]
  show descend folder (x ++ payloadSuffix) = _
  unfold descend
  rw [if_neg (hne ".." (by decide))]

theorem metaPath_payload (folder : FilePath) {x : String} (hx : x ≠ "") :
    metaPath (folder ++ [x ++ payloadSuffix]) = folder ++ [x ++ metaSuffix] := by
  unfold metaPath
  rw [List.dropLast_concat, List.getLastD_concat, splitSuffix_payload hx]

/-- The id of a support file. -/
def digestHex (supportDigest : String) : String := String.ofList (supportDigest.toList.drop 7)

theorem supportPath_ok_iff {host : Host K} {d : String} {path : FilePath}
    (hslash : '/' ∉ d.toList) : host.supportPath d = .ok path ↔
      startsWith "sha256:" d = true ∧ digestHex d ≠ "" ∧
        host.supportFolder ++ [digestHex d ++ payloadSuffix] = path := by
  have hhex : '/' ∉ (digestHex d).toList := by
    unfold digestHex
    rw [String.toList_ofList]
    exact fun hmem => hslash (List.mem_of_mem_drop hmem)
  unfold Host.supportPath
  rw [bind_unit_ok_iff, require_ok_iff]
  dsimp only
  rw [bind_unit_ok_iff, require_ok_iff, decide_eq_true_eq, Except.ok.injEq]
  rw [← joinPath_payload host.supportFolder hhex]
  rfl

theorem ruleTracePath_ok_iff {host : Host K} {x : String} {path : FilePath} :
    host.ruleTracePath x = .ok path ↔ x ≠ "" ∧ x.toList.any (· ∈ ['/', '\\', nul]) = false ∧
      host.ruleTraceFolder ++ [x ++ payloadSuffix] = path := by
  unfold Host.ruleTracePath
  rw [bind_unit_ok_iff, require_ok_iff, bind_unit_ok_iff, require_ok_iff, decide_eq_true_eq,
    Bool.not_eq_true', Except.ok.injEq]
  refine and_congr_right fun _ => and_congr_right fun hsafe => ?_
  have hslash : '/' ∉ x.toList := by
    intro hmem
    have hany : x.toList.any (· ∈ ['/', '\\', nul]) = true :=
      List.any_eq_true.mpr ⟨'/', hmem, by decide⟩
    rw [hany] at hsafe
    cases hsafe
  rw [joinPath_payload host.ruleTraceFolder hslash]

/-- An id that names a file. -/
def FileId (x : String) : Prop := x ≠ "" ∧ nul ∉ x.toList

/-- The files of an id can be opened. -/
theorem opens_file {folder : FilePath} (hfolder : ∀ name ∈ folder, nul ∉ name.toList) {x : String}
    (hx : FileId x) : opens (folder ++ [x ++ payloadSuffix]) = .ok () ∧
      opens (folder ++ [x ++ metaSuffix]) = .ok () := by
  have hname : ∀ suffix : String, nul ∉ suffix.toList →
      opens (folder ++ [x ++ suffix]) = .ok () := by
    intro suffix hsuffix
    refine require_of_true (List.all_eq_true.mpr fun name hname => decide_eq_true ?_)
    rcases List.mem_append.mp hname with hname | hname
    · exact hfolder name hname
    · rw [List.mem_singleton.mp hname, String.toList_append, List.mem_append, not_or]
      exact ⟨hx.2, hsuffix⟩
  exact ⟨hname _ (by decide), hname _ (by decide)⟩

theorem fileId_of_ruleTracePath {host : Host K} {x : String} {path : FilePath}
    (h : host.ruleTracePath x = .ok path) : FileId x := by
  obtain ⟨hne, hsafe, -⟩ := ruleTracePath_ok_iff.mp h
  refine ⟨hne, fun hmem => ?_⟩
  have hany : x.toList.any (· ∈ ['/', '\\', nul]) = true :=
    List.any_eq_true.mpr ⟨nul, hmem, by decide⟩
  rw [hany] at hsafe
  cases hsafe

theorem folder_opens {host : Host K} {names : List String} (h : ∀ name ∈ names, nul ∉ name.toList) :
    ∀ name ∈ host.root ++ names, nul ∉ name.toList := by
  intro name hname
  rcases List.mem_append.mp hname with hname | hname
  · exact host.root_opens name hname
  · exact h name hname

theorem ruleTraceFolder_opens (host : Host K) :
    ∀ name ∈ host.ruleTraceFolder, nul ∉ name.toList := folder_opens (by decide)

theorem supportFolder_opens (host : Host K) : ∀ name ∈ host.supportFolder, nul ∉ name.toList :=
  folder_opens (by decide)

/-- A file of the one folder is none of the other. -/
theorem folders_apart (host : Host K) (m n : String) :
    host.supportFolder ++ [m] ≠ host.ruleTraceFolder ++ [n] := by
  unfold Host.supportFolder Host.ruleTraceFolder
  rw [List.append_assoc, List.append_assoc, Ne, List.append_cancel_left_eq]
  simp

end FactGraph.Sidecar
