import FactGraph.Evaluate.Bytes

/-!
# The digests of evaluation

`application/protocol/evaluate_result.py`: the digests of an engine profile (`config_digest_for`), of
a row (`_row_digest_for`) and of a result (`result_digest_for`), each taken of the canonical bytes of
one argument list that starts with the name of the digest.

A digest tells what went into its bytes. The iteration count of a profile does not go into them, and
of a certainty only the bound does, which neither `None` nor a boolean certainty has. The digest of a
result is taken of the digests of its rows, so that what a row hides the result hides; and of the
result itself the time, the body of the head and what is attached later are left out by design: a
second run of one evaluation is to have the digest of the first, up to its run id.
-/

namespace FactGraph.Evaluate

open Protocol Store Check JsonText Db

/-! ## Checks of texts -/

/-- `_require_non_empty_str`. -/
def requireNonEmptyStr (value fieldName : String) : Except ShapeError Unit :=
  require (value ≠ "") ⟨s!"{fieldName} must be non-empty string"⟩

def isLowerHex64 (text : String) : Bool :=
  text.toList.length == 64 && text.toList.all fun c => c ∈ "0123456789abcdef".toList

/-- `_require_token_prefix`. -/
def requireTokenPrefix (value start fieldName : String) : Except ShapeError Unit := do
  requireNonEmptyStr value fieldName
  require (startsWith start value) ⟨s!"{fieldName} must start with '{start}'"⟩
  require (isLowerHex64 (String.ofList (value.toList.drop start.toList.length)))
    ⟨s!"{fieldName} must end with 64 lowercase hex characters"⟩

/-- `_require_sha256_hex`. -/
def requireSha256Hex (value fieldName : String) : Except ShapeError Unit := do
  requireNonEmptyStr value fieldName
  require (isLowerHex64 value) ⟨s!"{fieldName} must be 64 lowercase hex characters"⟩

/-- `_require_sha256_token`. -/
def requireSha256Token (value fieldName : String) : Except ShapeError Unit := do
  requireNonEmptyStr value fieldName
  require (startsWith "sha256:" value) ⟨s!"{fieldName} must start with 'sha256:'"⟩
  requireSha256Hex (String.ofList (value.toList.drop 7)) fieldName

/-- A check of a text that may be `None`. -/
def requireOptional (check : String → String → Except ShapeError Unit) (value : Option String)
    (fieldName : String) : Except ShapeError Unit :=
  match value with
  | none => .ok ()
  | some text => check text fieldName

/-! ## Tokens -/

/-- The token of an argument list. -/
def tokenOf (host : Host Val) (items : List Val) : Except ShapeError String :=
  (canonicalBytesForEvaluate host items).map (sha256Token host.sha256)

def optTextVal : Option String → Val
  | none => .none
  | some s => .str s

section Tokens

variable {host : Host Val} {float? : String → Option F64} {xs ys : List Val} {token : String}

end Tokens

/-! ## Profiles -/

/-- `SemanticsProfile`. -/
structure SemanticsProfile where
  name : String
  engine : String
  version : String := "1.0"
  engineOptions : List (String × Val) := []
  iterationCount : Option Int := none
  uncertaintyProjection : List (String × Val) := []
  temporalProjection : List (String × Val) := [("mode", .str "none")]
  ruleProjection : List (String × Val) := []
  certaintyProjection : List (String × Val) := []
  outputReadback : List (String × Val) := []
  fallback : String := "reject_unconfigured"

/-- The `payload` of `config_digest_for`. -/
def SemanticsProfile.payload (p : SemanticsProfile) : List (String × Val) :=
  [("certainty_projection", .mapping p.certaintyProjection),
    ("engine", .str p.engine),
    ("engine_options", .mapping p.engineOptions),
    ("fallback", .str p.fallback),
    ("name", .str p.name),
    ("output_readback", .mapping p.outputReadback),
    ("rule_projection", .mapping p.ruleProjection),
    ("temporal_projection", .mapping p.temporalProjection),
    ("uncertainty_projection", .mapping p.uncertaintyProjection),
    ("version", .str p.version)]

/-- No mapping of the profile spells a kind. -/
def SemanticsProfile.Plain (p : SemanticsProfile) : Prop :=
  (Val.mapping p.certaintyProjection).Plain ∧ (Val.mapping p.engineOptions).Plain ∧
    (Val.mapping p.outputReadback).Plain ∧ (Val.mapping p.ruleProjection).Plain ∧
    (Val.mapping p.temporalProjection).Plain ∧ (Val.mapping p.uncertaintyProjection).Plain

/-- Equal profiles. -/
structure SemanticsProfile.Same (p q : SemanticsProfile) : Prop where
  name : p.name = q.name
  engine : p.engine = q.engine
  version : p.version = q.version
  engineOptions : (Val.mapping p.engineOptions).Same (.mapping q.engineOptions)
  iterationCount : p.iterationCount = q.iterationCount
  uncertaintyProjection :
    (Val.mapping p.uncertaintyProjection).Same (.mapping q.uncertaintyProjection)
  temporalProjection : (Val.mapping p.temporalProjection).Same (.mapping q.temporalProjection)
  ruleProjection : (Val.mapping p.ruleProjection).Same (.mapping q.ruleProjection)
  certaintyProjection : (Val.mapping p.certaintyProjection).Same (.mapping q.certaintyProjection)
  outputReadback : (Val.mapping p.outputReadback).Same (.mapping q.outputReadback)
  fallback : p.fallback = q.fallback

/-- `CertaintyKind`. -/
inductive CertaintyKind where
  | boolean
  | probabilistic
  | possibilistic
  deriving DecidableEq, Repr

/-- `Certainty`. -/
structure Certainty where
  lo : F64
  hi : F64
  kind : CertaintyKind := .boolean
  deriving DecidableEq, Repr

/-- `ClaimKind`. -/
inductive ClaimKind where
  | factTriple
  | ruleHead
  | aggregateResult
  | projection
  deriving DecidableEq, Repr

def ClaimKind.text : ClaimKind → String
  | .factTriple => "fact_triple"
  | .ruleHead => "rule_head"
  | .aggregateResult => "aggregate_result"
  | .projection => "projection"

/-- The fields of an `EvaluateRow` that are compared. -/
structure EvaluateRow where
  rowId : String
  bindings : List (String × Val)
  kind : ClaimKind
  digest : String
  closedHeadDigest : String
  certainty : Option Certainty

/-- `_legacy_raw_kind_bound_for_certainty`. -/
def legacyRawKindBound : Option Certainty → Val × Val
  | none => (.none, .none)
  | some c =>
      match c.kind with
      | .boolean => (.none, .none)
      | .probabilistic => (.str "probabilistic", .tuple [.float c.lo, .float c.hi])
      | .possibilistic => (.str "possibilistic", .tuple [.float c.lo, .float c.hi])

/-- The `claim` of the payload. -/
def EvaluateRow.claimPayload (host : Host Val) (row : EvaluateRow) (claimName : String) :
    List (String × Val) :=
  [("arguments", .mapping row.bindings),
    ("digest", .str row.digest),
    ("kind", .str row.kind.text),
    ("name", .str claimName),
    ("repr", .str (claimName ++ host.dictRepr row.bindings))]

/-- The `evidence_ref` of the payload. -/
def EvaluateRow.refPayload (row : EvaluateRow) (resultId : String) : List (String × Val) :=
  [("closed_head_digest", .str row.closedHeadDigest),
    ("fact_digest", .str row.digest),
    ("result_id", .str resultId),
    ("row_id", .str row.rowId)]

/-- The payload of `_row_digest_for`. -/
def EvaluateRow.payload (host : Host Val) (row : EvaluateRow) (resultId claimName : String) :
    List (String × Val) :=
  [("bindings", .mapping row.bindings),
    ("bound", (legacyRawKindBound row.certainty).2),
    ("claim", .mapping (row.claimPayload host claimName)),
    ("evidence_ref", .mapping (row.refPayload resultId)),
    ("raw_kind", (legacyRawKindBound row.certainty).1),
    ("row_id", .str row.rowId)]

/-- `_row_digest_for`. -/
def rowDigestFor (host : Host Val) (row : EvaluateRow) (resultId claimName : String) :
    Except ShapeError String := do
  requireTokenPrefix resultId "evalr_v1:" "result_id"
  requireNonEmptyStr claimName "claim_name"
  tokenOf host [.str "evaluate_row_digest_v2", .mapping (row.payload host resultId claimName)]

/-- Equal rows, field by field; bindings as Python compares them. -/
structure EvaluateRow.Same (r s : EvaluateRow) : Prop where
  rowId : r.rowId = s.rowId
  bindings : (Val.mapping r.bindings).Same (.mapping s.bindings)
  kind : r.kind = s.kind
  digest : r.digest = s.digest
  closedHeadDigest : r.closedHeadDigest = s.closedHeadDigest
  certainty : r.certainty = s.certainty

/-- The arguments of `result_digest_for`. -/
structure ResultParts where
  resultId : String
  runId : String
  rowDigests : List String
  headId : String
  headContentDigest : String
  engine : String
  engineVersion : Option String
  adapterVersion : Option String
  exprDigest : String
  ruleSetDigest : String
  viewSnapshotDigest : String
  configDigest : Option String
  deriving DecidableEq

/-- The payload of `result_digest_for`. -/
def ResultParts.payload (a : ResultParts) : List (String × Val) :=
  [("adapter_version", optTextVal a.adapterVersion),
    ("config_digest", optTextVal a.configDigest),
    ("engine", .str a.engine),
    ("engine_version", optTextVal a.engineVersion),
    ("expr_digest", .str a.exprDigest),
    ("head_content_digest", .str a.headContentDigest),
    ("head_id", .str a.headId),
    ("result_id", .str a.resultId),
    ("row_digests", .tuple (a.rowDigests.map .str)),
    ("rule_set_digest", .str a.ruleSetDigest),
    ("run_id", .str a.runId),
    ("view_snapshot_digest", .str a.viewSnapshotDigest)]

/-- `result_digest_for`. -/
def resultDigestFor (host : Host Val) (a : ResultParts) : Except ShapeError String := do
  requireTokenPrefix a.resultId "evalr_v1:" "result_id"
  requireTokenPrefix a.runId "run_v1:" "run_id"
  each (fun p => requireSha256Token p.1 s!"row_digests[{p.2}]") a.rowDigests.zipIdx
  requireNonEmptyStr a.headId "head_id"
  requireSha256Hex a.headContentDigest "head_content_digest"
  requireNonEmptyStr a.engine "engine"
  requireOptional requireNonEmptyStr a.engineVersion "engine_version"
  requireOptional requireNonEmptyStr a.adapterVersion "adapter_version"
  requireSha256Token a.exprDigest "expr_digest"
  requireSha256Token a.ruleSetDigest "rule_set_digest"
  requireSha256Token a.viewSnapshotDigest "view_snapshot_digest"
  requireOptional requireSha256Token a.configDigest "config_digest"
  tokenOf host [.str "evaluate_result_digest_v1", .mapping a.payload]

/-- `ResultFingerprint`. -/
structure ResultFingerprint where
  exprDigest : String
  ruleSetDigest : String
  viewSnapshotDigest : String
  configDigest : Option String
  resultDigest : String
  runId : String
  deriving DecidableEq

/-- `EvaluateResult`, as `_derivation_outputs_to_evaluate_result` builds it: `engine_meta` has two
    keys. `rest` stands for the other compared fields, which no digest takes in: the head beyond its
    id and content digest, `evaluated_at`, and what is attached later (`run_anchor`, `run_bundle`,
    `scenario`, `expectation_results`). -/
structure BuiltResult (ρ : Type) where
  resultId : String
  rows : List EvaluateRow
  headId : String
  headContentDigest : String
  engine : String
  engineVersion : Option String
  adapterVersion : Option String
  fingerprint : ResultFingerprint
  rest : ρ

namespace BuiltResult

variable {ρ : Type}

/-- What the builder hands over to `result_digest_for`. -/
def parts (a : BuiltResult ρ) (rowDigests : List String) : ResultParts where
  resultId := a.resultId
  runId := a.fingerprint.runId
  rowDigests := rowDigests
  headId := a.headId
  headContentDigest := a.headContentDigest
  engine := a.engine
  engineVersion := a.engineVersion
  adapterVersion := a.adapterVersion
  exprDigest := a.fingerprint.exprDigest
  ruleSetDigest := a.fingerprint.ruleSetDigest
  viewSnapshotDigest := a.fingerprint.viewSnapshotDigest
  configDigest := a.fingerprint.configDigest

/-- The digest that the builder takes: of the digests of the rows, in their order. -/
def digest (host : Host Val) (a : BuiltResult ρ) : Except ShapeError String := do
  let rowDigests ← mapOk (fun row => rowDigestFor host row a.resultId a.headId) a.rows
  resultDigestFor host (a.parts rowDigests)

/-- No binding of a row has a mapping that spells a kind. -/
def Plain (a : BuiltResult ρ) : Prop := ∀ row ∈ a.rows, (Val.mapping row.bindings).Plain

/-- Equal results, field by field. -/
structure Same (a b : BuiltResult ρ) : Prop where
  resultId : a.resultId = b.resultId
  rows : List.Forall₂ EvaluateRow.Same a.rows b.rows
  headId : a.headId = b.headId
  headContentDigest : a.headContentDigest = b.headContentDigest
  engine : a.engine = b.engine
  engineVersion : a.engineVersion = b.engineVersion
  adapterVersion : a.adapterVersion = b.adapterVersion
  fingerprint : a.fingerprint = b.fingerprint
  rest : a.rest = b.rest

end BuiltResult

/-- A host whose digest is the identity. -/
def plainHost : Host Val where
  sha256 := id
  floatRepr := bitsRepr
  dictRepr := fun _ => ""

end FactGraph.Evaluate
