import FactGraph.Sidecar.Collection

/-!
# Runs of a sidecar

What a sidecar is for: a shelf of artifacts, each under an id, with the time at which it was put there
(`Shelf`). An artifact is on the shelf from its first write until it is collected, and no call looks
at another id than its own.

A run of calls returns what the shelf says (`run_follows`) if each of its calls is steady: it is about
no id whose payload is the metadata of an artifact on the shelf, a collection finds no id on the shelf
that looks like metadata, a digest is a name and not a path, and what is written comes back from its
text. The condition is on the shelf the call meets, not on the run: an id with `.meta` behind it is as
good as any other until its twin is written.
-/

namespace FactGraph.Sidecar

open Protocol Store Db JsonText Check Codec Codec.Support

variable {K : Type}

/-! ## The shelf -/

/-- The artifacts of a sidecar. -/
structure Shelf (K : Type) where
  traces : Records (RuleTraceArtifact K)
  supports : Records (ProofReceipt K)

def Shelf.empty : Shelf K := ⟨fun _ => none, fun _ => none⟩

/-- The records not older than a time. -/
def since {A : Type} (records : Records A) (before : Int) : Records A :=
  fun x => (records x).filter fun r => before ≤ r.2

/-- What a write makes sure of before it opens a file: its id is accepted, and its artifact has a
    text. -/
def admits [DecidableEq K] {A : Type} (host : Host K) (codec : ArtifactCodec K A)
    (path : Except SupportErr FilePath) (a : A) : Except SupportErr Unit := do
  let _ ← path
  let _ ← dumpsRow host (codec.toDict a)
  .ok ()

/-- What is on the shelf after a call. A write that is refused puts nothing there. -/
def Shelf.after [DecidableEq K] (host : Host K) (shelf : Shelf K) : Op K → Shelf K
  | .writeSupport supportDigest artifact now =>
      match admits host (supportCodec host) (host.supportPath supportDigest) artifact with
      | .ok _ => { shelf with supports := put shelf.supports supportDigest artifact now }
      | .error _ => shelf
  | .writeRuleTrace ruleRunId artifact now =>
      match admits host (ruleTraceCodec host) (host.ruleTracePath ruleRunId) artifact with
      | .ok _ => { shelf with traces := put shelf.traces ruleRunId artifact now }
      | .error _ => shelf
  | .readSupport _ | .readRuleTrace _ => shelf
  | .gcRuleTrace ttlNs dryRun now =>
      if 0 < ttlNs ∧ dryRun = false then { shelf with traces := since shelf.traces (now - ttlNs) }
      else shelf

/-- What a write returns: another artifact under the same id is refused. -/
def WriteAnswer {A : Type} (record : Option (A × Int)) (artifact : A) (collisionMessage : String)
    (outcome : Outcome K) : Prop :=
  match record with
  | none => outcome = .ok .written
  | some (a, _) => (artifact = a → outcome = .ok .written) ∧
      (artifact ≠ a → outcome = .error (.valueError collisionMessage))

/-- What a collection returns: the ids of exactly the expired records, in order. -/
def CollectAnswer (traces : Records (RuleTraceArtifact K)) (before : Int) (outcome : Outcome K) :
    Prop :=
  ∃ (result : GCResult) (ids : List String), outcome = .ok (.collected result) ∧ ids.Nodup ∧
    (∀ x, x ∈ ids ↔ (traces x).isSome) ∧ result.totalScanned = ids.length ∧
    result.deletedKeys.Pairwise (· < ·) ∧
    (∀ x, x ∈ result.deletedKeys ↔ expired traces before x = true) ∧
    result.deletedOrphanMetaPaths = [] ∧ result.skippedOrphanPayloadPaths = [] ∧
    result.failedKeys = []

/-- What a call returns, by the shelf. -/
def Shelf.Answers [DecidableEq K] (host : Host K) (shelf : Shelf K) (outcome : Outcome K) : Op K → Prop
  | .writeSupport supportDigest artifact _ =>
      match admits host (supportCodec host) (host.supportPath supportDigest) artifact with
      | .error e => outcome = .error e
      | .ok _ => WriteAnswer (shelf.supports supportDigest) artifact
          s!"support_digest collision for different ProofReceipt on disk: {supportDigest}" outcome
  | .writeRuleTrace ruleRunId artifact _ =>
      match admits host (ruleTraceCodec host) (host.ruleTracePath ruleRunId) artifact with
      | .error e => outcome = .error e
      | .ok _ => WriteAnswer (shelf.traces ruleRunId) artifact
          s!"rule_run_id collision for different RuleTraceArtifact on disk: {ruleRunId}" outcome
  | .readSupport supportDigest =>
      match host.supportPath supportDigest with
      | .error e => outcome = .error e
      | .ok _ => outcome = .ok (.support ((shelf.supports supportDigest).map Prod.fst))
  | .readRuleTrace ruleRunId =>
      match host.ruleTracePath ruleRunId with
      | .error e => outcome = .error e
      | .ok _ => outcome = .ok (.ruleTrace ((shelf.traces ruleRunId).map Prod.fst))
  | .gcRuleTrace ttlNs _ now =>
      if 0 < ttlNs then CollectAnswer shelf.traces (now - ttlNs) outcome
      else outcome = .error (.valueError "ttl_ns must be positive int")

/-- The calls of a run return what the shelf says. -/
def Follows [DecidableEq K] (host : Host K) : Shelf K → List (Op K) → List (Outcome K) → Prop
  | _, [], [] => True
  | shelf, op :: ops, outcome :: outcomes =>
      shelf.Answers host outcome op ∧ Follows host (shelf.after host op) ops outcomes
  | _, _, _ => False

/-! ## Steady calls -/

/-- No artifact has its metadata under the id. -/
def Untwinned {A : Type} (records : Records A) (x : String) : Prop :=
  ∀ y, (records y).isSome → x ≠ twin y

/-- A write that is told from the files of other ids, and comes back. Under an id that has an artifact
    only the text counts, and another text is refused. -/
structure SteadyWrite [DecidableEq K] {A : Type} (host : Host K) (codec : ArtifactCodec K A)
    (plain : A → Prop) (records : Records A) (x : String) (a : A) (now : Int) : Prop where
  untwinned : Untwinned records x
  /-- Its own metadata is no payload. -/
  free : records (twin x) = none
  plain : (∀ b t, records x = some (b, t) →
    dumpsRow host (codec.toDict a) = dumpsRow host (codec.toDict b)) → plain a
  /-- The clock shows a time that can be written. -/
  clock : records x = none → hasDecimal now = true

/-- A digest that is a name in its folder. -/
def Named (supportDigest : String) : Prop := '/' ∉ supportDigest.toList ∧ nul ∉ supportDigest.toList

/-- A call that the files of other ids do not come in the way of. -/
def Shelf.Steady [DecidableEq K] (host : Host K) (shelf : Shelf K) : Op K → Prop
  | .writeSupport d a now =>
      admits host (supportCodec host) (host.supportPath d) a = .ok () →
        Named d ∧ SteadyWrite host (supportCodec host) (PlainReceipt host.keyStr) shelf.supports d a now
  | .writeRuleTrace x a now =>
      admits host (ruleTraceCodec host) (host.ruleTracePath x) a = .ok () →
        SteadyWrite host (ruleTraceCodec host) (PlainTrace host.keyStr) shelf.traces x a now
  | .readSupport d => ∀ path, host.supportPath d = .ok path → Named d ∧ Untwinned shelf.supports d
  | .readRuleTrace x => ∀ path, host.ruleTracePath x = .ok path → Untwinned shelf.traces x
  | .gcRuleTrace ttlNs _ _ => 0 < ttlNs → ∀ x, (shelf.traces x).isSome → ¬ IsMeta x

/-- Each call of the run is steady where it is made. -/
def Steadily [DecidableEq K] (host : Host K) : Shelf K → List (Op K) → Prop
  | _, [] => True
  | shelf, op :: ops => shelf.Steady host op ∧ Steadily host (shelf.after host op) ops

/-! ## One call -/

section

variable {host : Host K} {files : Files} {shelf : Shelf K}

/-- The supports of a shelf, by what follows the prefix of their digests. -/
def Shelf.hexes (shelf : Shelf K) : Records (ProofReceipt K) := fun x => shelf.supports ("sha256:" ++ x)

theorem eq_of_startsWith {d : String} (h : startsWith "sha256:" d = true) :
    "sha256:" ++ digestHex d = d := by
  obtain ⟨rest, hrest⟩ := List.isPrefixOf_iff_prefix.mp h
  have hhex : (digestHex d).toList = rest := by
    unfold digestHex
    rw [String.toList_ofList, ← hrest]
    simp
  rw [← String.toList_inj, String.toList_append, hhex, hrest]

/-- The ids with a record. -/
def held {A : Type} (records : Records A) (x : String) : Prop := (records x).isSome

theorem held_put {A : Type} {records : Records A} {x y : String} {a : A} {now : Int}
    (h : held (put records x a now) y) : held records y ∨ y = x := by
  unfold held put at h
  split_ifs at h with hyx
  · exact .inr hyx.1
  · exact .inl h

/-- One more id that is no twin and has none. -/
theorem TwinFree.insert {A : Type} {records : Records A} (h : TwinFree (held records)) {x : String}
    (hx : Untwinned records x) (hfree : records (twin x) = none) :
    TwinFree fun y => held records y ∨ y = x := by
  rintro y (hy | rfl) (htwin | htwin)
  · exact h y hy htwin
  · exact hx y hy htwin.symm
  · unfold held at htwin
    rw [hfree] at htwin
    cases htwin
  · exact ne_twin y htwin.symm

theorem TwinFree.mono {ids ids' : String → Prop} (h : TwinFree ids) (hsub : ∀ x, ids' x → ids x) :
    TwinFree ids' := fun x hx htwin => h x (hsub x hx) (hsub _ htwin)

/-- A read, of an id that is no twin of a recorded one. -/
theorem Holds.read_untwinned [DecidableEq K] {A : Type} {codec : ArtifactCodec K A} {folder : FilePath}
    {records : Records A} (h : Holds host codec folder files records)
    (hfree : TwinFree (held records)) {x : String} (hx : Untwinned records x) (hname : FileId x) :
    readArtifact host codec (folder ++ [x ++ payloadSuffix]) files =
      .ok ((records x).map Prod.fst) := by
  cases hrecord : records x with
  | some r =>
    rw [← hrecord]
    exact h.read hfree (fun _ hy => hy) (show held records x by unfold held; rw [hrecord]; rfl) hname
  | none =>
    -- no record has the name of the payload: neither as its payload nor as its metadata
    have hnone : Dict.get? files (folder ++ [x ++ payloadSuffix]) = none := by
      rw [Option.eq_none_iff_forall_ne_some]
      intro text htext
      obtain ⟨y, hy, hfile | hfile⟩ := h.recorded (x ++ payloadSuffix) (by rw [htext]; rfl)
      · rw [payload_inj] at hfile
        subst hfile
        rw [hrecord] at hy
        cases hy
      · exact hx y hy (payload_eq_meta.mp hfile)
    unfold readArtifact readJsonRow
    rw [(opens_file h.opened hname).1, ok_bind, hnone]
    rfl

/-- A write that is admitted. -/
theorem Holds.write [DecidableEq K] {A : Type} {codec : ArtifactCodec K A} {folder : FilePath}
    {plain : A → Prop} {records : Records A} (h : Holds host codec folder files records)
    (hfree : TwinFree (held records)) {x text : String} (hname : FileId x) {a : A} {now : Int}
    (htext : dumpsRow host (codec.toDict a) = .ok text)
    (hsteady : SteadyWrite host codec plain records x a now)
    (hplain : ∀ a text, plain a → dumpsRow host (codec.toDict a) = .ok text → codec.Survives host a)
    (msg : String) :
    (∃ files', writeArtifact host codec (folder ++ [x ++ payloadSuffix]) a msg now files = .ok files' ∧
      WriteAnswer (records x) a msg (.ok .written : Outcome K) ∧
      Holds host codec folder files' (put records x a now) ∧
      ((Dict.keys files).Nodup → (Dict.keys files').Nodup) ∧
      ∀ other name, other ≠ folder →
        Dict.get? files' (other ++ [name]) = Dict.get? files (other ++ [name])) ∨
    (writeArtifact host codec (folder ++ [x ++ payloadSuffix]) a msg now files =
        .error (.valueError msg) ∧
      WriteAnswer (records x) a msg (.error (.valueError msg) : Outcome K) ∧
      put records x a now = records) := by
  have hput : ∀ r, records x = some r → put records x a now = records := by
    intro r hr
    funext y
    unfold put
    rw [hr]
    exact if_neg fun hand => by cases hand.2
  cases hrecord : records x with
  | none =>
    have ha := hplain a text (hsteady.plain fun b t hb => by rw [hrecord] at hb; cases hb) htext
    obtain ⟨text, hwrite, hholds⟩ := h.write_new (hfree.insert hsteady.untwinned hsteady.free)
      (fun _ hy => .inl hy) (.inr rfl) hname hrecord ha msg now
    refine .inl ⟨_, hwrite, rfl, hholds, ?_, ?_⟩
    · intro hnodup
      exact Dict.nodup_keys_set (Dict.nodup_keys_set hnodup _ _) _ _
    · intro other name hother
      have hne : ∀ n, other ++ [name] ≠ folder ++ [n] := by
        intro n heq
        exact hother (List.append_inj_left' heq rfl)
      unfold withArtifact
      rw [Dict.get?_set_of_ne (hne _), Dict.get?_set_of_ne (hne _)]
  | some r =>
    obtain ⟨b, t⟩ := r
    have hwrite := h.write_again hrecord htext msg now
    by_cases hsame : dumpsRow host (codec.toDict a) = dumpsRow host (codec.toDict b)
    · -- the same text is that of the same artifact
      have hplainA := hsteady.plain fun b' t' hb' => by
        rw [hrecord] at hb'
        cases hb'
        exact hsame
      have hab : a = b := eq_of_text (hplain a text hplainA htext) (h.of_some hrecord).2.1 htext
        (hsame ▸ htext)
      rw [if_pos hsame] at hwrite
      refine .inl ⟨files, hwrite, ⟨fun _ => rfl, fun hne => absurd hab hne⟩, ?_, fun h => h,
        fun _ _ _ => rfl⟩
      rwa [hput _ hrecord]
    · have hab : a ≠ b := by
        rintro rfl
        exact hsame rfl
      rw [if_neg hsame] at hwrite
      exact .inr ⟨hwrite, ⟨fun heq => absurd heq hab, fun _ => rfl⟩, hput _ hrecord⟩

variable [DecidableEq K]

/-- The files stand for the shelf, and no id on it is the twin of another. -/
structure Stands (host : Host K) (files : Files) (shelf : Shelf K) : Prop where
  traces : Holds host (ruleTraceCodec host) host.ruleTraceFolder files shelf.traces
  supports : Holds host (supportCodec host) host.supportFolder files shelf.hexes
  nodup : (Dict.keys files).Nodup
  tracesApart : TwinFree (held shelf.traces)
  hexesApart : TwinFree (held shelf.hexes)

theorem Stands.empty : Stands host [] Shelf.empty where
  traces := Holds.empty (ruleTraceFolder_opens host)
  supports := Holds.empty (supportFolder_opens host)
  nodup := List.nodup_nil
  tracesApart := fun _ h => by cases h
  hexesApart := fun _ h => by cases h

/-- A collection, on a folder that stands for records. -/
theorem gcRuleTrace_ok {records : Records (RuleTraceArtifact K)}
    (hfloat : FloatText host.floatRepr host.float?) (hids : TwinFree (held records))
    (h : Holds host (ruleTraceCodec host) host.ruleTraceFolder files records)
    (hnodup : (Dict.keys files).Nodup) (hplain : ∀ x, (records x).isSome → ¬ IsMeta x) {ttlNs : Int} (httl : 0 < ttlNs) (dryRun : Bool)
    (now : Int) : ∃ result files', gcRuleTrace host ttlNs dryRun now files = .ok (result, files') ∧
      CollectAnswer records (now - ttlNs) (.ok (.collected result) : Outcome K) ∧
      Kept host (if dryRun then records else since records (now - ttlNs)) files files' := by
  have hstems : ∀ x, (x ∈ (traceNames host files).filterMap payloadStem? ↔ (records x).isSome) ∧
      (x ∈ (traceNames host files).filterMap metaStem? ↔ (records x).isSome) :=
    fun x => mem_stems h hplain
  have hpayloads : ((traceNames host files).filterMap payloadStem?).Nodup := by
    refine List.Nodup.filterMap ?_ (nodup_traceNames hnodup)
    intro m n x hm hn
    rw [eq_of_payloadStem? hm, eq_of_payloadStem? hn]
  unfold gcRuleTrace
  rw [require_of_true (decide_eq_true httl), ok_bind]
  generalize (traceNames host files).filterMap payloadStem? = payloads at hstems hpayloads
  generalize (traceNames host files).filterMap metaStem? = metas at hstems
  -- every payload has its metadata, and the other way round
  have horphanMetas : metas.filter (· ∉ payloads) = [] := by
    rw [List.filter_eq_nil_iff]
    intro x hx hnot
    exact (of_decide_eq_true hnot) ((hstems x).1.mpr ((hstems x).2.mp hx))
  have horphanPayloads : payloads.filter (· ∉ metas) = [] := by
    rw [List.filter_eq_nil_iff]
    intro x hx hnot
    exact (of_decide_eq_true hnot) ((hstems x).2.mpr ((hstems x).1.mp hx))
  have hboth : payloads.filter (· ∈ metas) = payloads := by
    rw [List.filter_eq_self]
    intro x hx
    exact decide_eq_true ((hstems x).2.mpr ((hstems x).1.mp hx))
  dsimp only
  rw [horphanMetas, horphanPayloads, hboth]
  have hsorted := List.perm_insertionSort (· ≤ ·) payloads
  have hmem : ∀ x, x ∈ payloads.insertionSort (· ≤ ·) ↔ (records x).isSome := fun x =>
    hsorted.mem_iff.trans (hstems x).1
  have hkeep : (if dryRun then files else ([] : List String).insertionSort (· ≤ ·) |>.foldl
      (fun files stem => Dict.remove files (host.traceMeta stem)) files) = files := by
    cases dryRun <;> rfl
  rw [hkeep]
  obtain ⟨hkept, hdeleted, hfailed⟩ := fold_collectTrace hfloat hids (now - ttlNs) dryRun
    (payloads.insertionSort (· ≤ ·)) { files } records (hsorted.nodup_iff.mpr hpayloads) h hnodup
    (fun x hx => hx) fun x hx => (hmem x).mp hx
  refine ⟨_, _, rfl, ⟨_, (payloads ++ metas).dedup, rfl, List.nodup_dedup _, ?_, rfl, ?_, ?_, rfl, rfl,
    hfailed⟩, ?_⟩
  · intro x
    rw [List.mem_dedup, List.mem_append, (hstems x).1, (hstems x).2, or_self]
  · show (Collected.deletedKeys _).Pairwise _
    rw [hdeleted, List.nil_append]
    refine List.Pairwise.filter _ ?_
    have hle := List.pairwise_insertionSort (· ≤ ·) payloads
    have hne : (payloads.insertionSort (· ≤ ·)).Pairwise (· ≠ ·) := hsorted.nodup_iff.mpr hpayloads
    exact hle.imp₂ (fun _ _ hab hne => lt_of_le_of_ne hab hne) hne
  · intro x
    show x ∈ Collected.deletedKeys _ ↔ _
    rw [hdeleted, List.nil_append, List.mem_filter, hmem, and_iff_right_iff_imp]
    intro hexpired
    unfold expired at hexpired
    exact Option.isSome_of_any hexpired
  · have hsince : unexpired records (now - ttlNs) (payloads.insertionSort (· ≤ ·)) =
        since records (now - ttlNs) := by
      funext x
      unfold unexpired since expired
      simp only [hmem]
      cases records x with
      | none => rfl
      | some r =>
        rw [Option.isSome_some, Option.any_some, Option.filter_some]
        by_cases hr : r.2 < now - ttlNs
        · rw [if_pos ⟨rfl, decide_eq_true hr⟩, if_neg fun hle => absurd (of_decide_eq_true hle) (not_le.mpr hr)]
        · rw [if_neg (by simpa using hr), if_pos (by simpa using hr)]
    rwa [hsince] at hkept

omit [DecidableEq K] in
theorem folders_ne (host : Host K) : host.supportFolder ≠ host.ruleTraceFolder := by
  intro h
  exact folders_apart host "" "" (by rw [h])

omit [DecidableEq K] in
theorem hexes_put (shelf : Shelf K) {d : String} (hd : startsWith "sha256:" d = true)
    (a : ProofReceipt K) (now : Int) :
    Shelf.hexes ⟨shelf.traces, put shelf.supports d a now⟩ = put shelf.hexes (digestHex d) a now := by
  have hrecord : shelf.hexes (digestHex d) = shelf.supports d := by
    unfold Shelf.hexes
    rw [eq_of_startsWith hd]
  funext x
  have hx : "sha256:" ++ x = d ↔ x = digestHex d := by
    conv_lhs => rw [← eq_of_startsWith hd]
    exact String.append_right_inj "sha256:"
  unfold put
  rw [hrecord]
  show (if "sha256:" ++ x = d ∧ _ then _ else _) = _
  simp only [hx]
  rfl

omit [DecidableEq K] in
theorem hexes_digestHex (shelf : Shelf K) {d : String} (hd : startsWith "sha256:" d = true) :
    shelf.hexes (digestHex d) = shelf.supports d := by
  unfold Shelf.hexes
  rw [eq_of_startsWith hd]

omit [DecidableEq K] in
theorem Untwinned.hexes {d : String} (h : Untwinned shelf.supports d)
    (hd : startsWith "sha256:" d = true) : Untwinned shelf.hexes (digestHex d) := by
  intro y hy heq
  refine h _ hy ?_
  rw [← eq_of_startsWith hd, heq]
  exact String.append_assoc.symm

omit [DecidableEq K] in
theorem fileId_digestHex {d : String} (hd : Named d) (hhex : digestHex d ≠ "") :
    FileId (digestHex d) := by
  refine ⟨hhex, fun hmem => hd.2 ?_⟩
  unfold digestHex at hmem
  rw [String.toList_ofList] at hmem
  exact List.mem_of_mem_drop hmem

theorem admits_ok_iff {A : Type} {codec : ArtifactCodec K A} {path : Except SupportErr FilePath}
    {a : A} : admits host codec path a = .ok () ↔
      (∃ p, path = .ok p) ∧ ∃ text, dumpsRow host (codec.toDict a) = .ok text := by
  unfold admits
  simp [bind_ok_iff]

/-- A write that is not admitted. -/
theorem writeArtifact_of_refused {A : Type} {codec : ArtifactCodec K A}
    {path : Except SupportErr FilePath} {a : A} {e : SupportErr} (h : admits host codec path a = .error e)
    (msg : String) (now : Int) :
    (path >>= fun p => writeArtifact host codec p a msg now files) = .error e := by
  unfold admits at h
  unfold writeArtifact
  cases path with
  | error e' =>
    cases h
    rfl
  | ok p =>
    rw [ok_bind] at h ⊢
    cases htext : dumpsRow host (codec.toDict a) with
    | error e' =>
      rw [htext] at h
      cases h
      rfl
    | ok text =>
      rw [htext] at h
      cases h

/-- A call that writes a support. -/
theorem writeSupport_follows (hfloat : FloatText host.floatRepr host.float?) (h : Stands host files shelf)
    {d : String} {a : ProofReceipt K} {now : Int} (hop : shelf.Steady host (.writeSupport d a now)) :
    shelf.Answers host (step host files (.writeSupport d a now)).1 (.writeSupport d a now) ∧
      Stands host (step host files (.writeSupport d a now)).2
        (shelf.after host (.writeSupport d a now)) := by
  unfold Shelf.Answers Shelf.after step writeSupport
  dsimp only
  cases hadmits : admits host (supportCodec host) (host.supportPath d) a with
  | error e =>
    rw [writeArtifact_of_refused hadmits]
    exact ⟨rfl, h⟩
  | ok _ =>
    obtain ⟨⟨path, hpath⟩, text, htext⟩ := admits_ok_iff.mp hadmits
    obtain ⟨hnamed, hsteady⟩ := hop hadmits
    obtain ⟨hd, hhex, hfile⟩ := (supportPath_ok_iff hnamed.1).mp hpath
    have hrecord := hexes_digestHex shelf hd
    have hfree : shelf.hexes (twin (digestHex d)) = none := by
      -- a twin file has the stem of another digest, so it is read under that one
      have htwin : "sha256:" ++ twin (digestHex d) = twin d := by
        unfold twin
        rw [← String.append_assoc, eq_of_startsWith hd]
      unfold Shelf.hexes
      rw [htwin]
      exact hsteady.free
    have hhexes : SteadyWrite host (supportCodec host) (PlainReceipt host.keyStr) shelf.hexes
        (digestHex d) a now :=
      ⟨hsteady.untwinned.hexes hd, hfree, by rw [hrecord]; exact hsteady.plain,
        by rw [hrecord]; exact hsteady.clock⟩
    have hapart : ∀ r, TwinFree (held (put shelf.hexes (digestHex d) a r)) := fun r =>
      (h.hexesApart.insert hhexes.untwinned hhexes.free).mono fun _ => held_put
    subst hfile
    rw [hpath, ok_bind]
    dsimp only
    rw [← hrecord]
    rcases h.supports.write h.hexesApart (fileId_digestHex hnamed hhex) htext hhexes
      (fun _ _ hplain htext => hplain.survives hfloat htext)
      s!"support_digest collision for different ProofReceipt on disk: {d}" with
      ⟨files', hwrite, hanswer, hholds, hnodup, helsewhere⟩ | ⟨hwrite, hanswer, hput⟩
    · rw [hwrite]
      refine ⟨hanswer, ?_, ?_, hnodup h.nodup, h.tracesApart, ?_⟩
      · exact h.traces.congr fun name => helsewhere _ name (folders_ne host).symm
      · rw [hexes_put shelf hd]
        exact hholds
      · rw [hexes_put shelf hd]
        exact hapart now
    · rw [hwrite]
      refine ⟨hanswer, h.traces, ?_, h.nodup, h.tracesApart, ?_⟩
      · rw [hexes_put shelf hd, hput]
        exact h.supports
      · rw [hexes_put shelf hd]
        exact hapart now

/-- A call that writes a rule trace. -/
theorem writeRuleTrace_follows (hfloat : FloatText host.floatRepr host.float?)
    (h : Stands host files shelf) {x : String} {a : RuleTraceArtifact K} {now : Int}
    (hop : shelf.Steady host (.writeRuleTrace x a now)) :
    shelf.Answers host (step host files (.writeRuleTrace x a now)).1 (.writeRuleTrace x a now) ∧
      Stands host (step host files (.writeRuleTrace x a now)).2
        (shelf.after host (.writeRuleTrace x a now)) := by
  unfold Shelf.Answers Shelf.after step writeRuleTrace
  dsimp only
  cases hadmits : admits host (ruleTraceCodec host) (host.ruleTracePath x) a with
  | error e =>
    rw [writeArtifact_of_refused hadmits]
    exact ⟨rfl, h⟩
  | ok _ =>
    obtain ⟨⟨path, hpath⟩, text, htext⟩ := admits_ok_iff.mp hadmits
    have hsteady := hop hadmits
    have hname := fileId_of_ruleTracePath hpath
    obtain ⟨-, -, hfile⟩ := ruleTracePath_ok_iff.mp hpath
    have hapart : TwinFree (held (put shelf.traces x a now)) :=
      (h.tracesApart.insert hsteady.untwinned hsteady.free).mono fun _ => held_put
    subst hfile
    rw [hpath, ok_bind]
    dsimp only
    rcases h.traces.write h.tracesApart hname htext hsteady
      (fun _ _ hplain htext => hplain.survives hfloat htext)
      s!"rule_run_id collision for different RuleTraceArtifact on disk: {x}" with
      ⟨files', hwrite, hanswer, hholds, hnodup, helsewhere⟩ | ⟨hwrite, hanswer, hput⟩
    · rw [hwrite]
      refine ⟨hanswer, hholds, ?_, hnodup h.nodup, hapart, h.hexesApart⟩
      exact h.supports.congr fun name => helsewhere _ name (folders_ne host)
    · rw [hwrite]
      refine ⟨hanswer, ?_, h.supports, h.nodup, hapart, h.hexesApart⟩
      rw [hput]
      exact h.traces

theorem readSupport_follows (h : Stands host files shelf) {d : String}
    (hop : shelf.Steady host (.readSupport d)) :
    shelf.Answers host (step host files (.readSupport d)).1 (.readSupport d) := by
  unfold Shelf.Answers step readSupport
  dsimp only
  cases hpath : host.supportPath d with
  | error e => rfl
  | ok path =>
    obtain ⟨hnamed, huntwinned⟩ := hop path hpath
    obtain ⟨hd, hhex, hfile⟩ := (supportPath_ok_iff hnamed.1).mp hpath
    have hread := h.supports.read_untwinned h.hexesApart (huntwinned.hexes hd)
      (fileId_digestHex hnamed hhex)
    rw [hexes_digestHex shelf hd] at hread
    subst hfile
    rw [ok_bind]
    dsimp only
    rw [hread]
    rfl

theorem readRuleTrace_follows (h : Stands host files shelf) {x : String}
    (hop : shelf.Steady host (.readRuleTrace x)) :
    shelf.Answers host (step host files (.readRuleTrace x)).1 (.readRuleTrace x) := by
  unfold Shelf.Answers step readRuleTrace
  dsimp only
  cases hpath : host.ruleTracePath x with
  | error e => rfl
  | ok path =>
    obtain ⟨-, -, hfile⟩ := ruleTracePath_ok_iff.mp hpath
    subst hfile
    rw [ok_bind]
    dsimp only
    rw [h.traces.read_untwinned h.tracesApart (hop _ hpath) (fileId_of_ruleTracePath hpath)]
    rfl

/-- A call that collects. -/
theorem gcRuleTrace_follows (hfloat : FloatText host.floatRepr host.float?)
    (h : Stands host files shelf) {ttlNs : Int} {dryRun : Bool} {now : Int}
    (hop : shelf.Steady host (.gcRuleTrace ttlNs dryRun now)) :
    shelf.Answers host (step host files (.gcRuleTrace ttlNs dryRun now)).1
        (.gcRuleTrace ttlNs dryRun now) ∧
      Stands host (step host files (.gcRuleTrace ttlNs dryRun now)).2
        (shelf.after host (.gcRuleTrace ttlNs dryRun now)) := by
  unfold Shelf.Answers Shelf.after step
  dsimp only
  by_cases httl : 0 < ttlNs
  · obtain ⟨result, files', hgc, hanswer, hkept⟩ := gcRuleTrace_ok hfloat h.tracesApart h.traces h.nodup
      (hop httl) httl dryRun now
    rw [hgc, if_pos httl]
    refine ⟨hanswer, ?_⟩
    have hsupports : Holds host (supportCodec host) host.supportFolder files' shelf.hexes :=
      h.supports.congr fun name => hkept.elsewhere _ name (folders_ne host)
    cases dryRun with
    | true =>
      rw [if_neg fun hand => Bool.false_ne_true hand.2.symm]
      exact ⟨hkept.holds, hsupports, hkept.nodup, h.tracesApart, h.hexesApart⟩
    | false =>
      rw [if_pos ⟨httl, rfl⟩]
      refine ⟨hkept.holds, hsupports, hkept.nodup, h.tracesApart.mono fun x hx => ?_, h.hexesApart⟩
      obtain ⟨r, hr⟩ := Option.isSome_iff_exists.mp hx
      unfold since at hr
      rw [Option.filter_eq_some_iff] at hr
      exact Option.isSome_iff_exists.mpr ⟨r, hr.1⟩
  · have hgc : gcRuleTrace host ttlNs dryRun now files =
        .error (.valueError "ttl_ns must be positive int") := by
      unfold gcRuleTrace require
      rw [if_neg (by simpa using httl)]
      rfl
    rw [hgc, if_neg httl, if_neg fun hand => httl hand.1]
    exact ⟨rfl, h⟩

/-- **What one call does.** A steady call returns what the shelf says, and the files then stand for
    the shelf after it. -/
theorem step_follows (hfloat : FloatText host.floatRepr host.float?) (h : Stands host files shelf)
    {op : Op K} (hop : shelf.Steady host op) :
    shelf.Answers host (step host files op).1 op ∧
      Stands host (step host files op).2 (shelf.after host op) := by
  cases op with
  | writeSupport d a now => exact writeSupport_follows hfloat h hop
  | writeRuleTrace x a now => exact writeRuleTrace_follows hfloat h hop
  | readSupport d => exact ⟨readSupport_follows h hop, h⟩
  | readRuleTrace x => exact ⟨readRuleTrace_follows h hop, h⟩
  | gcRuleTrace ttlNs dryRun now => exact gcRuleTrace_follows hfloat h hop

/-- **A run of a sidecar** whose calls are steady returns what the shelf says, call by call. -/
theorem run_follows (hfloat : FloatText host.floatRepr host.float?) {ops : List (Op K)}
    (hops : Steadily host Shelf.empty ops) : Follows host Shelf.empty ops (run host [] ops) := by
  -- by induction on the calls left, for all files that stand for the shelf
  have hrun : ∀ ops files shelf, Stands host files shelf → Steadily host shelf ops →
      Follows host shelf ops (run host files ops) := by
    intro ops
    induction ops with
    | nil => exact fun _ _ _ _ => trivial
    | cons op ops ih =>
      intro files shelf h hops
      obtain ⟨hanswer, hstands⟩ := step_follows hfloat h hops.1
      exact ⟨hanswer, ih _ _ hstands hops.2⟩
  exact hrun ops [] Shelf.empty Stands.empty hops

end

/-! ## A trace, and its metadata -/

def sampleHost : Host Empty where
  root := ["srv"]
  root_opens := by decide
  keyStr := noKeys
  floatRepr := bitsRepr
  float? := bitsFloat?

def sampleTrace : RuleTraceArtifact Empty where
  ruleRunId := "a"
  rootRuleId := "adult"
  rootVersion := "1"
  selectVars := ["$x"]
  invocations := []
  rootRows := [[.leaf (.int 7)]]

def sampleDocument : Json :=
  .obj [("rule_run_id", .leaf (.str "a")),
    ("root_rule", .obj [("rule_id", .leaf (.str "adult")), ("version", .leaf (.str "1"))]),
    ("select_vars", .arr [.leaf (.str "$x")]), ("invocations", .arr []),
    ("root_rows", .arr [.arr [.leaf (.int 7)]])]

theorem sampleTrace_plain : PlainTrace sampleHost.keyStr sampleTrace where
  accepted := rfl
  invocations := fun _ hi => by cases hi
  rootRows := by
    intro r hr v hv
    obtain rfl := List.mem_singleton.mp hr
    obtain rfl := List.mem_singleton.mp hv
    exact ⟨trivial, trivial, trivial⟩

/-- The first write of a shelf. -/
theorem sample_steady (now : Int) (hnow : hasDecimal now = true) :
    Shelf.empty.Steady sampleHost (.writeRuleTrace "a" sampleTrace now) := fun _ =>
  ⟨fun _ hy => (by cases hy), rfl, fun _ => sampleTrace_plain, fun _ => hnow⟩

theorem sample_admits :
    admits sampleHost (ruleTraceCodec sampleHost) (sampleHost.ruleTracePath "a") sampleTrace = .ok () :=
  admits_ok_iff.mpr ⟨⟨_, ruleTracePath_ok_iff.mpr ⟨by decide, by decide, rfl⟩⟩, _,
    dumpsRow_ok_iff.mpr ⟨sampleDocument, rfl, rfl, rfl⟩⟩

/-- The shelf with the one trace. -/
theorem sample_after : Shelf.empty.after sampleHost (.writeRuleTrace "a" sampleTrace 0) =
    ⟨put (fun _ => none) "a" sampleTrace 0, fun _ => none⟩ := by
  unfold Shelf.after
  dsimp only
  rw [sample_admits]
  rfl

/-- Ids that look like metadata come first, as long as nothing has them as its metadata. -/
def sampleRun : List (Op Empty) :=
  [.readRuleTrace "a.meta", .writeRuleTrace "a" sampleTrace 0, .readRuleTrace "a",
    .gcRuleTrace 5 false 9, .readRuleTrace "a", .readSupport "sha256:00"]

/-- The trace is read, collected, and then gone. -/
theorem run_follows_sample : Follows sampleHost Shelf.empty sampleRun (run sampleHost [] sampleRun) := by
  have hheld : ∀ y, held (put (fun _ => none) "a" sampleTrace 0) y → y = "a" := by
    intro y hy
    exact (held_put hy).resolve_left fun h => by cases h
  have htwin : ∀ y, "a" ≠ twin y := by
    intro y heq
    have hlength := congrArg String.length heq
    unfold twin at hlength
    rw [String.length_append] at hlength
    have hone : "a".length = 1 := rfl
    have hmeta : ".meta".length = 5 := rfl
    omega
  refine run_follows bits_floatText ⟨fun _ _ _ hy => (by cases hy), sample_steady 0 rfl, ?_⟩
  show Steadily sampleHost (Shelf.empty.after sampleHost (.writeRuleTrace "a" sampleTrace 0)) _
  rw [sample_after]
  refine ⟨fun _ _ y _ => htwin y, ?_, fun _ _ y _ => htwin y, fun _ _ => ⟨?_, ?_⟩, trivial⟩
  · rintro - x hx ⟨y, rfl⟩
    exact htwin y (hheld _ hx).symm
  · exact ⟨by decide, by decide⟩
  · intro y hy
    cases hy

/-- The metadata of a trace is read as the trace of another id, and is none. -/
theorem metadata_as_trace : ¬ Follows sampleHost Shelf.empty
    [.writeRuleTrace "a" sampleTrace 0, .readRuleTrace "a.meta"]
    (run sampleHost [] [.writeRuleTrace "a" sampleTrace 0, .readRuleTrace "a.meta"]) := by
  have hstands := (step_follows bits_floatText Stands.empty (sample_steady 0 rfl)).2
  have hpath' : sampleHost.ruleTracePath "a.meta" =
      .ok (sampleHost.ruleTraceFolder ++ ["a.meta" ++ payloadSuffix]) :=
    ruleTracePath_ok_iff.mpr ⟨by decide, by decide, rfl⟩
  rw [sample_after] at hstands
  obtain ⟨-, -, -, hmeta⟩ := hstands.traces.of_some (x := "a") (a := sampleTrace) (t := 0) rfl
  have hanswer : ∀ files, Dict.get? files (sampleHost.ruleTraceFolder ++ ["a" ++ metaSuffix]) =
      some (metaText sampleHost 0) →
      (step sampleHost files (.readRuleTrace "a.meta")).1 = .error (.keyError "root_rule") := by
    intro files hfile
    rw [metaSuffix_eq] at hfile
    unfold step readRuleTrace
    dsimp only
    rw [hpath', ok_bind]
    unfold readArtifact readJsonRow
    rw [show "a.meta" = twin "a" from rfl, hfile]
    dsimp only
    rw [loadsRow_metaText bits_floatText]
    rfl
  intro ⟨_, hread, _⟩
  unfold Shelf.Answers at hread
  dsimp only at hread
  rw [hanswer _ hmeta, hpath'] at hread
  cases hread

end FactGraph.Sidecar
