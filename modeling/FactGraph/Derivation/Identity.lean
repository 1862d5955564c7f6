import FactGraph.Db.Texts
import FactGraph.Derivation.Candidates
import FactGraph.Protocol.Framing

/-!
# The identity of a candidate

`core/derivation/candidates.py`: the canonical content of a candidate, its key, which runs share, and
its id, which is of one run.

Both are digests of texts that end in NUL, one after the other; the last text of a key is a JSON
document. So a digest tells all its texts apart if only the last of them may hold a NUL
(`nulTerminated_inj`), and the content as far as a JSON text tells it: a tuple is a list, bytes are
an object, and a `nan` is like any other. The target goes into the id and not into the key.
-/

namespace FactGraph.Derivation

open Protocol Store Check JsonText Db

/-- What the identity of a candidate takes from the standard library: a digest, `float.__repr__`, and
`str` of an object that is no string. -/
structure Host where
  sha256 : List UInt8 → List UInt8
  floatRepr : F64 → String
  objStr : PyVal → String

/-- `str(obj)`. -/
def Host.str (host : Host) : PyVal → String
  | .leaf (.str s) => s
  | v => host.objStr v

/-! ## Content -/

def leafToJsonable : Scalar → Json
  | .none => .leaf .null
  | .bool b => .leaf (.bool b)
  | .int i => .leaf (.int i)
  | .float x => .leaf (.float x)
  | .str s => .leaf (.str s)
  | .bytes b => .obj [("__bytes_b64__", .leaf (.str (hexdigest b)))]

mutual

/-- `_to_jsonable`. -/
def toJsonable : PyVal → Json
  | .leaf s => leafToJsonable s
  | .list xs => .arr (toJsonableList xs)
  | .tuple xs => .arr (toJsonableList xs)
  | .dict fs => .obj ((toJsonableFields fs).insertionSort fun p q => p.1 ≤ q.1)

def toJsonableList : List PyVal → List Json
  | [] => []
  | x :: xs => toJsonable x :: toJsonableList xs

def toJsonableFields : List (String × PyVal) → List (String × Json)
  | [] => []
  | (k, x) :: fs => (k, toJsonable x) :: toJsonableFields fs

end

def text (s : String) : Json := .leaf (.str s)

def literalTerm (tag : String) (value : PyVal) : Json :=
  .obj [("kind", text "literal"), ("tag", text tag), ("value", toJsonable value)]

/-- `_normalize_term_for_content`. -/
def normalizeTermForContent (host : Host) : PyVal → Json
  | .dict term =>
      match (getKey term "kind").bind PyVal.str? with
      | some "entity_ref" =>
          .obj [("kind", text "entity_ref"),
            ("value", text (((getKey term "value").bind PyVal.str?).getD ""))]
      | some "candidate_ref" =>
          .obj [("kind", text "candidate_ref"),
            ("candidate_key", text (((getKey term "candidate_key").bind PyVal.str?).getD ""))]
      | some "literal" =>
          let tag := match getKey term "tag" with
            | none | some (.leaf .none) => ""
            | some tag => host.str tag
          literalTerm tag ((getKey term "value").getD (.leaf .none))
      | _ => literalTerm "" (.dict term)
  | .tuple [tag, value] => literalTerm (host.str tag) value
  | term => literalTerm "" term

/-- `payload.get(key)` if it is a list, the empty list otherwise. -/
def listField (payload : List (String × PyVal)) (key : String) : List PyVal :=
  match getKey payload key with
  | some (.list xs) => xs
  | _ => []

/-- `payload.get(key)` if it is a `dict`, the empty one otherwise. -/
def dictField (payload : List (String × PyVal)) (key : String) : List (String × PyVal) :=
  match getKey payload key with
  | some (.dict fs) => fs
  | _ => []

/-- `payload.get(key)` if it is a string that is not empty. -/
def textField? (payload : List (String × PyVal)) (key : String) : Option String :=
  ((getKey payload key).bind PyVal.str?).filter (· ≠ "")

/-- `canonical_candidate_content`: the document whose text is the content. -/
def canonicalCandidateContent (host : Host) (candidateKind : CandidateKind) (target : String)
    (payload : List (String × PyVal)) : Except StoreErr Json :=
  match candidateKind with
  | .fact =>
      match getKey payload "terms" with
      | some (.list terms) =>
          .ok (.obj [("pred_id", text ((textField? payload "pred_id").getD target)),
            ("terms", .arr (terms.map (normalizeTermForContent host)))])
      | _ => .error (.valueError "fact candidate payload.terms must be list")
  | .entity =>
      match textField? payload "entity_type" with
      | none =>
          .error (.valueError "entity candidate payload.entity_type must be non-empty string")
      | some entityType =>
          let names (key : String) : Json :=
            .arr ((listField payload key).map fun x => text (host.str x))
          .ok (.obj [("entity_type", text entityType),
            ("identity_fields", names "identity_fields"),
            ("identity_types", toJsonable (.dict (dictField payload "identity_types"))),
            ("resolved_identity", toJsonable (.dict (dictField payload "resolved_identity"))),
            ("missing_identity_fields", names "missing_identity_fields"),
            ("proposed_entity_ref",
              ((textField? payload "proposed_entity_ref").map text).getD (.leaf .null))])

/-- `_stable_json_bytes` of a document without bytes. -/
def stableJson (host : Host) (doc : Json) : String :=
  jsonDumps jsonEscaping host.floatRepr (Store.sortKeys doc)

/-! ## Key and id -/

/-- Texts one after the other, each with a NUL behind it. -/
def nulTerminated (texts : List String) : List UInt8 := texts.flatMap fun s => utf8 s ++ [0]

/-- `compute_candidate_key_v2`. -/
def computeCandidateKeyV2 (host : Host) (derivationId derivationVersion : String)
    (candidateKind : CandidateKind) (target : String) (payload : List (String × PyVal)) :
    Except StoreErr String := do
  let content ← canonicalCandidateContent host candidateKind target payload
  let raw := utf8 "factpy\x00cand_v2\x00" ++
    nulTerminated [derivationId, derivationVersion, candidateKind.text, stableJson host content]
  .ok ("candk_v2:" ++ hexdigest (host.sha256 raw))

/-- `compute_candidate_id_v2`. -/
def computeCandidateIdV2 (host : Host) (runId : String) (candidateKind : CandidateKind)
    (target candidateKey : String) : String :=
  let raw := utf8 "factpy\x00cand_id_v2\x00" ++
    nulTerminated [runId, candidateKind.text, target, candidateKey]
  "cand_v2:" ++ hexdigest (host.sha256 raw)

/-- The arguments of `DerivationOutput(...)` that `__post_init__` reads. -/
structure OutputArgs where
  derivationId : String
  derivationVersion : String
  runId : String
  target : String
  keyTupleDigest : String
  payload : List (String × PyVal)
  confidenceKind : String := "none"
  candidateId : String := ""
  candidateKey : String := ""
  candidateKind : CandidateKind := .fact

/-- `DerivationOutput.__post_init__`. A key or an id that is not given is computed. -/
def OutputArgs.postInit (host : Host) (args : OutputArgs) : Except StoreErr DerivationOutput := do
  require (args.target ≠ "") (.valueError "target must be non-empty string")
  require (args.derivationId ≠ "") (.valueError "derivation_id must be non-empty string")
  require (args.derivationVersion ≠ "") (.valueError "derivation_version must be non-empty string")
  require (args.runId ≠ "") (.valueError "run_id must be non-empty string")
  require (startsWith "sha256:" args.keyTupleDigest)
    (.valueError "key_tuple_digest must be sha256 token")
  require (args.confidenceKind ∈ ["none", "probability", "certainty"])
    (.valueError "confidence_kind must be one of: none, probability, certainty")
  let key ← if args.candidateKey ≠ "" then .ok args.candidateKey else
    computeCandidateKeyV2 host args.derivationId args.derivationVersion args.candidateKind
      args.target args.payload
  require (startsWith "candk_v2:" key) (.valueError "candidate_key must start with 'candk_v2:'")
  let id := if args.candidateId ≠ "" then args.candidateId else
    computeCandidateIdV2 host args.runId args.candidateKind args.target key
  require (startsWith "cand_v2:" id) (.valueError "candidate_id must start with 'cand_v2:'")
  .ok
    { derivationId := args.derivationId
      derivationVersion := args.derivationVersion
      runId := args.runId
      target := args.target
      payload := args.payload
      candidateId := id
      candidateKey := key
      candidateKind := args.candidateKind }

/-! ## Texts that end in NUL -/

theorem utf8_append (s t : String) : utf8 (s ++ t) = utf8 s ++ utf8 t := by
  simp [utf8, String.toByteArray_append]

/-- The characters of `nulTerminated`. -/
def nulChars (texts : List String) : List Char := texts.flatMap fun s => s.toList ++ ['\x00']

theorem nulTerminated_eq (texts : List String) :
    nulTerminated texts = utf8 (String.ofList (nulChars texts)) := by
  induction texts with
  | nil => rfl
  | cons s texts ih =>
    have hsplit : String.ofList (nulChars (s :: texts)) =
        s ++ ("\x00" ++ String.ofList (nulChars texts)) := by
      apply String.toList_injective
      simp [nulChars]
    have hnul : utf8 "\x00" = [0] := by decide
    rw [hsplit, utf8_append, utf8_append, hnul, ← ih]
    simp [nulTerminated]

/-- The text has no NUL character. -/
def NulFree (s : String) : Prop := '\x00' ∉ s.toList

theorem append_nul_inj {xs ys xs' ys' : List Char} (hxs : '\x00' ∉ xs) (hxs' : '\x00' ∉ xs')
    (h : xs ++ '\x00' :: ys = xs' ++ '\x00' :: ys') : xs = xs' ∧ ys = ys' := by
  induction xs generalizing xs' with
  | nil =>
    cases xs' with
    | nil => exact ⟨rfl, (List.cons.inj h).2⟩
    | cons x xs' => exact absurd (by simp [← (List.cons.inj h).1]) hxs'
  | cons x xs ih =>
    cases xs' with
    | nil => exact absurd (by simp [(List.cons.inj h).1]) hxs
    | cons x' xs' =>
      obtain ⟨rfl, htail⟩ := List.cons.inj h
      rcases ih (fun hx => hxs (by simp [hx])) (fun hx => hxs' (by simp [hx])) htail with ⟨rfl, rfl⟩
      exact ⟨rfl, rfl⟩

/-- Texts are told apart by their bytes if only the last of them may hold a NUL. -/
theorem nulTerminated_inj {fs gs : List String} {s t : String} (hlen : fs.length = gs.length)
    (hfs : ∀ f ∈ fs, NulFree f) (hgs : ∀ g ∈ gs, NulFree g)
    (h : nulTerminated (fs ++ [s]) = nulTerminated (gs ++ [t])) : fs = gs ∧ s = t := by
  rw [nulTerminated_eq, nulTerminated_eq] at h
  have hchars := String.ofList_injective (utf8_injective h)
  clear h
  induction fs generalizing gs with
  | nil =>
    cases gs with
    | cons g gs => cases hlen
    | nil =>
      have hst : s.toList = t.toList := by simpa [nulChars] using hchars
      exact ⟨rfl, String.toList_injective hst⟩
  | cons f fs ih =>
    cases gs with
    | nil => cases hlen
    | cons g gs =>
      have hcons : f.toList ++ '\x00' :: nulChars (fs ++ [s]) =
          g.toList ++ '\x00' :: nulChars (gs ++ [t]) := by simpa [nulChars] using hchars
      rcases append_nul_inj (hfs f (by simp)) (hgs g (by simp)) hcons with ⟨hfg, hrest⟩
      rcases ih (Nat.succ.inj hlen) (fun x hx => hfs x (by simp [hx]))
        (fun x hx => hgs x (by simp [hx])) hrest with ⟨rfl, rfl⟩
      exact ⟨by rw [String.toList_injective hfg], rfl⟩

/-! ## What a digest tells -/

/-- A document as far as its canonical text tells it. -/
def canonDoc (d : Json) : Json := mapLeaves telling (Store.sortKeys d)

/-- Two candidates of one kind have the same canonical content. -/
def SameContent (host : Host) (a b : DerivationOutput) : Prop :=
  ∃ c c', canonicalCandidateContent host a.candidateKind a.target a.payload = .ok c ∧
    canonicalCandidateContent host b.candidateKind b.target b.payload = .ok c' ∧
      canonDoc c = canonDoc c'

/-- The contents of two facts are the same if they say the same of their predicates and, term by term,
the same of their terms. -/
theorem canonDoc_fact_iff {p p' : String} {ts ts' : List Json} :
    canonDoc (.obj [("pred_id", text p), ("terms", .arr ts)]) =
      canonDoc (.obj [("pred_id", text p'), ("terms", .arr ts')]) ↔
    p = p' ∧ ts.map canonDoc = ts'.map canonDoc := by
  have hlist : ∀ ts : List Json, mapLeavesList telling (sortKeysList ts) = ts.map canonDoc := by
    intro ts
    induction ts with
    | nil => rfl
    | cons t ts ih => rw [sortKeysList, mapLeavesList, ih, List.map_cons, canonDoc]
  have hdoc : ∀ (p : String) (ts : List Json),
      canonDoc (.obj [("pred_id", text p), ("terms", .arr ts)]) =
        .obj [("pred_id", text p), ("terms", .arr (ts.map canonDoc))] := by
    intro p ts
    have hsorted : "pred_id" ≤ "terms" := by decide
    simp [canonDoc, Store.sortKeys, sortKeysFields, text, mapLeaves, mapLeavesFields, telling, hsorted,
      hlist]
  rw [hdoc, hdoc]
  simp [text]

theorem kind_text_injective {k k' : CandidateKind} (h : k.text = k'.text) : k = k' := by
  cases k <;> cases k' <;> first | rfl | exact absurd h (by decide)

theorem nulFree_kind (k : CandidateKind) : NulFree k.text := by
  unfold NulFree
  cases k <;> decide

section Digest

variable {host : Host} {float? : String → Option F64}

/-- Digests of one domain are equal just if what was hashed behind the domain is. -/
theorem digest_iff (hsha : Function.Injective host.sha256) {start domain : String}
    {fs gs : List String} {s t : String} (hlen : fs.length = gs.length)
    (hfs : ∀ f ∈ fs, NulFree f) (hgs : ∀ g ∈ gs, NulFree g) :
    start ++ hexdigest (host.sha256 (utf8 domain ++ nulTerminated (fs ++ [s]))) =
        start ++ hexdigest (host.sha256 (utf8 domain ++ nulTerminated (gs ++ [t]))) ↔
      fs = gs ∧ s = t := by
  constructor
  · intro h
    have hhex := String.append_right_inj start |>.mp h
    have hraw := hsha (hexdigest_inj hhex)
    exact nulTerminated_inj hlen hfs hgs (List.append_cancel_left hraw)
  · intro h
    rcases h with ⟨rfl, rfl⟩
    rfl

theorem stableJson_iff (hfloat : FloatText host.floatRepr float?) {d d' : Json} :
    stableJson host d = stableJson host d' ↔ canonDoc d = canonDoc d' := by
  unfold stableJson canonDoc
  constructor
  · exact telling_of_jsonDumps hfloat jsonEscaping
  · exact jsonDumps_telling jsonEscaping host.floatRepr

theorem computeCandidateIdV2_iff (hsha : Function.Injective host.sha256) {r r' target target' : String}
    {k k' : CandidateKind} {key key' : String} (hr : NulFree r) (hr' : NulFree r')
    (ht : NulFree target) (ht' : NulFree target') :
    computeCandidateIdV2 host r k target key = computeCandidateIdV2 host r' k' target' key' ↔
      r = r' ∧ k = k' ∧ target = target' ∧ key = key' := by
  have hfree : ∀ f ∈ [r, k.text, target], NulFree f := by
    intro f hf
    simp only [List.mem_cons, List.not_mem_nil, or_false] at hf
    rcases hf with rfl | rfl | rfl
    · exact hr
    · exact nulFree_kind k
    · exact ht
  have hfree' : ∀ f ∈ [r', k'.text, target'], NulFree f := by
    intro f hf
    simp only [List.mem_cons, List.not_mem_nil, or_false] at hf
    rcases hf with rfl | rfl | rfl
    · exact hr'
    · exact nulFree_kind k'
    · exact ht'
  have hdigest := @digest_iff host hsha "cand_v2:" "factpy\x00cand_id_v2\x00"
    [r, k.text, target] [r', k'.text, target'] key key' rfl hfree hfree'
  unfold computeCandidateIdV2
  refine hdigest.trans ?_
  constructor
  · intro h
    simp only [List.cons.injEq, and_true] at h
    exact ⟨h.1.1, kind_text_injective h.1.2.1, h.1.2.2, h.2⟩
  · intro h
    rcases h with ⟨rfl, rfl, rfl, rfl⟩
    exact ⟨rfl, rfl⟩

/-- What a computed key is. -/
theorem computeCandidateKeyV2_ok {i v target : String} {k : CandidateKind}
    {payload : List (String × PyVal)} {key : String}
    (h : computeCandidateKeyV2 host i v k target payload = .ok key) :
    ∃ c, canonicalCandidateContent host k target payload = .ok c ∧
      key = "candk_v2:" ++ hexdigest (host.sha256 (utf8 "factpy\x00cand_v2\x00" ++
        nulTerminated ([i, v, k.text] ++ [stableJson host c]))) := by
  unfold computeCandidateKeyV2 at h
  rcases bind_ok_iff.mp h with ⟨c, hc, hkey⟩
  exact ⟨c, hc, (Except.ok.inj hkey).symm⟩

theorem computeCandidateKeyV2_iff (hsha : Function.Injective host.sha256)
    (hfloat : FloatText host.floatRepr float?) {i i' v v' target target' : String}
    {k k' : CandidateKind} {payload payload' : List (String × PyVal)} {key key' : String}
    (hi : NulFree i) (hi' : NulFree i') (hv : NulFree v) (hv' : NulFree v')
    (h : computeCandidateKeyV2 host i v k target payload = .ok key)
    (h' : computeCandidateKeyV2 host i' v' k' target' payload' = .ok key') :
    key = key' ↔ i = i' ∧ v = v' ∧ k = k' ∧
      ∃ c c', canonicalCandidateContent host k target payload = .ok c ∧
        canonicalCandidateContent host k' target' payload' = .ok c' ∧ canonDoc c = canonDoc c' := by
  rcases computeCandidateKeyV2_ok h with ⟨c, hc, rfl⟩
  rcases computeCandidateKeyV2_ok h' with ⟨c', hc', rfl⟩
  have hfree : ∀ f ∈ [i, v, k.text], NulFree f := by
    intro f hf
    simp only [List.mem_cons, List.not_mem_nil, or_false] at hf
    rcases hf with rfl | rfl | rfl
    · exact hi
    · exact hv
    · exact nulFree_kind k
  have hfree' : ∀ f ∈ [i', v', k'.text], NulFree f := by
    intro f hf
    simp only [List.mem_cons, List.not_mem_nil, or_false] at hf
    rcases hf with rfl | rfl | rfl
    · exact hi'
    · exact hv'
    · exact nulFree_kind k'
  have hdigest := @digest_iff host hsha "candk_v2:" "factpy\x00cand_v2\x00" [i, v, k.text]
    [i', v', k'.text] (stableJson host c) (stableJson host c') rfl hfree hfree'
  rw [hdigest, stableJson_iff hfloat]
  constructor
  · intro hsame
    simp only [List.cons.injEq, and_true] at hsame
    exact ⟨hsame.1.1, hsame.1.2.1, kind_text_injective hsame.1.2.2, c, c', hc, hc', hsame.2⟩
  · intro hsame
    rcases hsame with ⟨rfl, rfl, rfl, d, d', hd, hd', heq⟩
    rw [hc] at hd
    rw [hc'] at hd'
    cases hd
    cases hd'
    exact ⟨rfl, heq⟩

end Digest

/-! ## Candidates -/

/-- The key and the id are left to be computed. -/
def OutputArgs.Computed (args : OutputArgs) : Prop := args.candidateKey = "" ∧ args.candidateId = ""

/-- The texts that a digest puts in front of another have no NUL. -/
structure OutputArgs.NulFree (args : OutputArgs) : Prop where
  derivationId : Derivation.NulFree args.derivationId
  derivationVersion : Derivation.NulFree args.derivationVersion
  runId : Derivation.NulFree args.runId
  target : Derivation.NulFree args.target

/-- A candidate without a key or an id of its own has the arguments as its fields, and a key and an id
computed from them. -/
theorem postInit_ok {host : Host} {args : OutputArgs} {a : DerivationOutput}
    (hcomputed : args.Computed) (h : args.postInit host = .ok a) :
    computeCandidateKeyV2 host a.derivationId a.derivationVersion a.candidateKind a.target a.payload =
        .ok a.candidateKey ∧
      a.candidateId = computeCandidateIdV2 host a.runId a.candidateKind a.target a.candidateKey ∧
      a.derivationId = args.derivationId ∧ a.derivationVersion = args.derivationVersion ∧
      a.runId = args.runId ∧ a.target = args.target := by
  unfold OutputArgs.postInit at h
  simp only [hcomputed.1, hcomputed.2, ne_eq, not_true_eq_false, if_false] at h
  obtain ⟨-, h⟩ := bind_unit_ok_iff.mp h
  obtain ⟨-, h⟩ := bind_unit_ok_iff.mp h
  obtain ⟨-, h⟩ := bind_unit_ok_iff.mp h
  obtain ⟨-, h⟩ := bind_unit_ok_iff.mp h
  obtain ⟨-, h⟩ := bind_unit_ok_iff.mp h
  obtain ⟨-, h⟩ := bind_unit_ok_iff.mp h
  rcases bind_ok_iff.mp h with ⟨key, hkey, h⟩
  obtain ⟨-, h⟩ := bind_unit_ok_iff.mp h
  obtain ⟨-, h⟩ := bind_unit_ok_iff.mp h
  cases h
  exact ⟨hkey, rfl, rfl, rfl, rfl, rfl⟩

/-- **The identity of candidates.** Candidates whose key and id were computed, from texts without NUL,
have one key just if they agree on derivation, version, kind and canonical content, and one id just
if they agree on run, kind, target and key. -/
theorem candidate_identity {host : Host} {float? : String → Option F64}
    (hfloat : FloatText host.floatRepr float?) (hsha : Function.Injective host.sha256)
    {args args' : OutputArgs} {a b : DerivationOutput} (ha : args.postInit host = .ok a)
    (hb : args'.postInit host = .ok b) (hcomputed : args.Computed) (hcomputed' : args'.Computed)
    (hnul : args.NulFree) (hnul' : args'.NulFree) :
    (a.candidateKey = b.candidateKey ↔
      a.derivationId = b.derivationId ∧ a.derivationVersion = b.derivationVersion ∧
        a.candidateKind = b.candidateKind ∧ SameContent host a b) ∧
    (a.candidateId = b.candidateId ↔
      a.runId = b.runId ∧ a.candidateKind = b.candidateKind ∧ a.target = b.target ∧
        a.candidateKey = b.candidateKey) := by
  rcases postInit_ok hcomputed ha with ⟨hkey, hid, hi, hv, hr, ht⟩
  rcases postInit_ok hcomputed' hb with ⟨hkey', hid', hi', hv', hr', ht'⟩
  constructor
  · exact computeCandidateKeyV2_iff hsha hfloat (hi ▸ hnul.derivationId)
      (hi' ▸ hnul'.derivationId) (hv ▸ hnul.derivationVersion) (hv' ▸ hnul'.derivationVersion)
      hkey hkey'
  · rw [hid, hid']
    exact computeCandidateIdV2_iff hsha (hr ▸ hnul.runId) (hr' ▸ hnul'.runId) (ht ▸ hnul.target)
      (ht' ▸ hnul'.target)

/-- A candidate with a content is built. -/
theorem exists_postInit {host : Host} {args : OutputArgs} {c : Json} (hcomputed : args.Computed)
    (ht : args.target ≠ "") (hi : args.derivationId ≠ "") (hv : args.derivationVersion ≠ "")
    (hr : args.runId ≠ "") (hd : startsWith "sha256:" args.keyTupleDigest = true)
    (hk : args.confidenceKind = "none")
    (hc : canonicalCandidateContent host args.candidateKind args.target args.payload = .ok c) :
    ∃ a, args.postInit host = .ok a ∧ a.derivationVersion = args.derivationVersion ∧
      a.target = args.target ∧ a.derivationId = args.derivationId ∧
      a.candidateKind = args.candidateKind ∧ a.payload = args.payload := by
  have hkey : ∃ key, computeCandidateKeyV2 host args.derivationId args.derivationVersion
      args.candidateKind args.target args.payload = .ok ("candk_v2:" ++ key) := by
    unfold computeCandidateKeyV2
    rw [hc]
    exact ⟨_, rfl⟩
  obtain ⟨key, hkey⟩ := hkey
  unfold OutputArgs.postInit
  simp only [hcomputed.1, hcomputed.2, ne_eq, not_true_eq_false, if_false, hkey, ht, hi, hv, hr, hd,
    hk, not_false_eq_true, decide_true, require_of_true, ok_bind, startsWith_append,
    computeCandidateIdV2]
  exact ⟨_, rfl, rfl, rfl, rfl, rfl, rfl⟩

/-- A host whose digest is the identity. -/
def plainHost : Host where
  sha256 := id
  floatRepr := bitsRepr
  objStr := fun _ => ""

/-- One fact about a person, proposed by a version of a rule. -/
def agedArgs (version target : String) : OutputArgs where
  derivationId := "d"
  derivationVersion := version
  runId := "r"
  target := target
  keyTupleDigest := "sha256:00"
  payload := [("pred_id", .leaf (.str "person:age")),
    ("terms", .list [.tuple [.leaf (.str "int"), .leaf (.int 30)]])]

theorem agedArgs_postInit {version target : String} (hv : version ≠ "") (ht : target ≠ "") :
    ∃ a, (agedArgs version target).postInit plainHost = .ok a ∧ a.derivationVersion = version ∧
      a.target = target ∧ a.derivationId = "d" ∧ a.candidateKind = .fact ∧
      a.payload = (agedArgs version target).payload :=
  exists_postInit ⟨rfl, rfl⟩ ht (show "d" ≠ "" by decide) hv (show "r" ≠ "" by decide)
    (show startsWith "sha256:" "sha256:00" = true by decide) rfl rfl

/-- Two versions of a rule propose one fact under two keys. -/
theorem candidate_identity_agedArgs :
    ∃ a b, (agedArgs "1" "person:age").postInit plainHost = .ok a ∧
      (agedArgs "2" "person:age").postInit plainHost = .ok b ∧
      a.candidateKey ≠ b.candidateKey ∧ a.candidateId ≠ b.candidateId := by
  rcases @agedArgs_postInit "1" "person:age" (by decide) (by decide) with
    ⟨a, ha, hva, -⟩
  rcases @agedArgs_postInit "2" "person:age" (by decide) (by decide) with
    ⟨b, hb, hvb, -⟩
  have hfree : ∀ s ∈ ["d", "r", "1", "2", "person:age"], NulFree s := by
    unfold NulFree
    decide
  have hidentity := candidate_identity bits_floatText Function.injective_id ha hb ⟨rfl, rfl⟩ ⟨rfl, rfl⟩
    ⟨hfree _ (by decide), hfree _ (by decide), hfree _ (by decide), hfree _ (by decide)⟩
    ⟨hfree _ (by decide), hfree _ (by decide), hfree _ (by decide), hfree _ (by decide)⟩
  have hkeys : a.candidateKey ≠ b.candidateKey := by
    intro hkey
    have hversion := (hidentity.1.mp hkey).2.1
    rw [hva, hvb] at hversion
    exact absurd hversion (by decide)
  refine ⟨a, b, ha, hb, hkeys, ?_⟩
  intro hid
  exact hkeys (hidentity.2.mp hid).2.2.2

/-- The target is no part of a key: two facts that name their predicate have one key, whatever they are
proposed for. -/
theorem candidateKey_ignores_target :
    ∃ a b, (agedArgs "1" "person:age").postInit plainHost = .ok a ∧
      (agedArgs "1" "person:years").postInit plainHost = .ok b ∧
      a.candidateKey = b.candidateKey ∧ a.target ≠ b.target := by
  rcases @agedArgs_postInit "1" "person:age" (by decide) (by decide) with
    ⟨a, ha, hva, hta, hia, hka, hpa⟩
  rcases @agedArgs_postInit "1" "person:years" (by decide) (by decide) with
    ⟨b, hb, hvb, htb, hib, hkb, hpb⟩
  have hkeya := (postInit_ok ⟨rfl, rfl⟩ ha).1
  have hkeyb := (postInit_ok ⟨rfl, rfl⟩ hb).1
  have hsame : computeCandidateKeyV2 plainHost "d" "1" .fact "person:age"
        (agedArgs "1" "person:age").payload =
      computeCandidateKeyV2 plainHost "d" "1" .fact "person:years"
        (agedArgs "1" "person:years").payload := rfl
  rw [hva, hta, hia, hka, hpa, hsame] at hkeya
  rw [hvb, htb, hib, hkb, hpb, hkeya] at hkeyb
  refine ⟨a, b, ha, hb, Except.ok.inj hkeyb, ?_⟩
  rw [hta, htb]
  decide

end FactGraph.Derivation
