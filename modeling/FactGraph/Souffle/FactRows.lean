import FactGraph.Protocol.Normal
import FactGraph.Souffle.ViewGen
import FactGraph.View.Facts

/-!
# The exported facts

`_build_fact_rows` of `adapters/souffle/package.py`: the rows of a ledger the view program reads, as
text, and the relations they are loaded as. The metadata relations, which no view rule reads, are
left out.
-/

namespace FactGraph.Souffle

open Check Protocol Store View

/-! ## Rows -/

/-- `_atom_to_str`. -/
def atomToStr : Rules.Value → Except StoreErr String
  | .str s => .ok s
  | .bool b => .ok (if b then "true" else "false")
  | .int i => .ok (toString i)
  | .none => .error (.typeError "cannot encode non-atomic TSV value: NoneType")
  | .float _ => .error (.typeError "cannot encode non-atomic TSV value: float")
  | .bytes _ => .error (.typeError "cannot encode non-atomic TSV value: bytes")

/-- The rows the view program reads. -/
structure FactRows where
  claim : List (List String)
  claimArg : List (List String)
  revokes : List (List String)
  claimSeq : List (List String)
  deriving DecidableEq

/-- `sorted(rows)`. -/
def sortRows (rows : List (List String)) : List (List String) :=
  rows.insertionSort fun a b => a ≤ b

def claimRow (host : Host) (c : Claim) : Except StoreErr (List String) := do
  let raw ← canonicalBytesTupV1 c.restTerms
  .ok [c.asrtId, c.predId, c.eRef, sha256Token host.sha256 raw]

def claimArgRow (row : ClaimArg) : Except StoreErr (List String) := do
  let value ← atomToStr row.valAtom
  .ok [row.asrtId, toString row.idx, value, row.tag]

/-- The row of a claim with a sequence. -/
def claimSeqRow (l : Ledger) (c : Claim) : Except StoreErr (Option (List String)) := do
  let sequence ← l.claimSequence c.asrtId
  .ok (sequence.map fun n => [c.asrtId, toString n])

/-- `_build_fact_rows`. -/
def buildFactRows (host : Host) (l : Ledger) : Except StoreErr FactRows := do
  let claim ← mapOk (claimRow host) l.indexes.claims
  let claimArg ← mapOk claimArgRow l.indexes.claimArgs
  let claimSeq ← mapOk (claimSeqRow l) l.indexes.claims
  .ok { claim := sortRows claim
        claimArg := sortRows claimArg
        revokes := sortRows (l.indexes.revokesData.map fun r => [r.revokerAsrtId, r.revokedAsrtId])
        claimSeq := sortRows claimSeq.reduceOption }

/-- The relations the rows are loaded as: every column is a symbol, but for `Seq`. -/
def FactRows.load (rows : FactRows) : Datalog.Interp Rel Cell
  | .claim, t => ∃ row ∈ rows.claim, t = row.map .symbol
  | .claimArg, t => ∃ row ∈ rows.claimArg, t = row.map .symbol
  | .revokes, t => ∃ row ∈ rows.revokes, t = row.map .symbol
  | .claimSeq, t => ∃ a text n, [a, text] ∈ rows.claimSeq ∧ text.toInt? = some n ∧
      t = [.symbol a, .number n]
  | _, _ => False

/-- The fact files, by the names of the relations they are loaded as. -/
def FactRows.files (rows : FactRows) : Datalog.Interp String Cell :=
  fun name t => ∃ r : Rel, r.name = name ∧ rows.load r t

/-! ## What they say of a ledger -/

/-- The text of a cell. -/
def symbolOf (v : Rules.Value) : String :=
  match atomToStr v with
  | .ok s => s
  | .error _ => ""

theorem atomToStr_ok {v : Rules.Value} {s : String} (h : atomToStr v = .ok s) : symbolOf v = s := by
  unfold symbolOf
  rw [h]

/-- The texts of the argument cells of a claim, by position. -/
def texts (c : Claim) : List String := (argsOf c).map fun row => symbolOf row.valAtom

/-- The tags of the argument cells. -/
def tags (c : Claim) : List String := (argsOf c).map (·.tag)

theorem mem_sortRows {rows : List (List String)} {row : List String} :
    row ∈ sortRows rows ↔ row ∈ rows := by
  unfold sortRows
  rw [List.mem_insertionSort]

variable {l : Ledger} {host : Host} {rows : FactRows}

/-- The parts of the export. -/
theorem buildFactRows_ok (h : buildFactRows host l = .ok rows) :
    ∃ claim claimArg claimSeq, mapOk (claimRow host) l.indexes.claims = .ok claim ∧
      mapOk claimArgRow l.indexes.claimArgs = .ok claimArg ∧
      mapOk (claimSeqRow l) l.indexes.claims = .ok claimSeq ∧
      rows = ⟨sortRows claim, sortRows claimArg,
        sortRows (l.indexes.revokesData.map fun r => [r.revokerAsrtId, r.revokedAsrtId]),
        sortRows claimSeq.reduceOption⟩ := by
  unfold buildFactRows at h
  obtain ⟨claim, hclaim, h⟩ := bind_ok_iff.mp h
  obtain ⟨claimArg, harg, h⟩ := bind_ok_iff.mp h
  obtain ⟨claimSeq, hseq, h⟩ := bind_ok_iff.mp h
  exact ⟨claim, claimArg, claimSeq, hclaim, harg, hseq, (Except.ok.inj h).symm⟩

/-- `claim` holds the claims, each with a digest. -/
theorem load_claim (h : buildFactRows host l = .ok rows) :
    ∃ digest : Claim → String, ∀ t, rows.load .claim t ↔ ∃ c ∈ l.indexes.claims,
      t = [.symbol c.asrtId, .symbol c.predId, .symbol c.eRef, .symbol (digest c)] := by
  obtain ⟨claim, _, _, hclaim, _, _, rfl⟩ := buildFactRows_ok h
  let digest : Claim → String := fun c =>
    ((canonicalBytesTupV1 c.restTerms).toOption.map (sha256Token host.sha256)).getD ""
  have hrow : ∀ c row, claimRow host c = .ok row →
      row = [c.asrtId, c.predId, c.eRef, digest c] := by
    intro c row hc
    unfold claimRow at hc
    obtain ⟨raw, hraw, hc⟩ := bind_ok_iff.mp hc
    have hdigest : digest c = sha256Token host.sha256 raw := by
      simp [digest, hraw, Except.toOption]
    rw [hdigest]
    exact (Except.ok.inj hc).symm
  refine ⟨digest, ?_⟩
  intro t
  show (∃ row ∈ sortRows claim, t = row.map .symbol) ↔ _
  simp only [mem_sortRows]
  constructor
  · rintro ⟨row, hmem, rfl⟩
    obtain ⟨c, hc, hval⟩ := mem_of_mapOk hclaim hmem
    rw [hrow c row hval]
    exact ⟨c, hc, rfl⟩
  · rintro ⟨c, hc, rfl⟩
    obtain ⟨row, hmem, hval⟩ := image_of_mapOk hclaim hc
    rw [hrow c row hval] at hmem
    exact ⟨_, hmem, rfl⟩

/-- `claim_arg` holds the cells of the claims, by position. -/
theorem load_claimArg (hl : l.Sound) (h : buildFactRows host l = .ok rows) (t : List Cell) :
    rows.load .claimArg t ↔ ∃ c ∈ l.indexes.claims, ∃ (i : Nat) (row : ClaimArg),
      (argsOf c)[i]? = some row ∧
      t = [.symbol c.asrtId, .symbol (toString i), .symbol (symbolOf row.valAtom),
        .symbol row.tag] := by
  obtain ⟨_, claimArg, _, _, harg, _, rfl⟩ := buildFactRows_ok h
  rw [hl.args] at harg
  have hrow : ∀ (c : Claim) (i : Nat) (row : ClaimArg) (text : List String),
      (argsOf c)[i]? = some row → claimArgRow row = .ok text →
      text = [c.asrtId, toString i, symbolOf row.valAtom, row.tag] := by
    intro c i row text hi htext
    unfold claimArgRow at htext
    obtain ⟨value, hvalue, htext⟩ := bind_ok_iff.mp htext
    rw [← Except.ok.inj htext, argsOf_idx hi, atomToStr_ok hvalue,
      argsOf_asrtId (List.mem_of_getElem? hi)]
  show (∃ row ∈ sortRows claimArg, t = row.map .symbol) ↔ _
  simp only [mem_sortRows]
  constructor
  · rintro ⟨text, hmem, rfl⟩
    obtain ⟨row, hflat, hval⟩ := mem_of_mapOk harg hmem
    obtain ⟨c, hc, hcrow⟩ := List.mem_flatMap.mp hflat
    obtain ⟨i, hi⟩ := List.mem_iff_getElem?.mp hcrow
    rw [hrow c i row text hi hval]
    exact ⟨c, hc, i, row, hi, rfl⟩
  · rintro ⟨c, hc, i, row, hi, rfl⟩
    obtain ⟨text, hmem, hval⟩ := image_of_mapOk harg
      (List.mem_flatMap.mpr ⟨c, hc, List.mem_of_getElem? hi⟩)
    rw [hrow c i row text hi hval] at hmem
    exact ⟨_, hmem, rfl⟩

theorem load_revokes (h : buildFactRows host l = .ok rows) (t : List Cell) :
    rows.load .revokes t ↔ ∃ r ∈ l.indexes.revokesData,
      t = [.symbol r.revokerAsrtId, .symbol r.revokedAsrtId] := by
  obtain ⟨_, _, _, _, _, _, rfl⟩ := buildFactRows_ok h
  show (∃ row ∈ sortRows _, t = row.map .symbol) ↔ _
  simp only [mem_sortRows, List.mem_map, exists_exists_and_eq_and, List.map_cons, List.map_nil]

/-- `claim_seq` holds the insertion sequences of the claims. -/
theorem load_claimSeq (hl : l.Sound) (h : buildFactRows host l = .ok rows) (t : List Cell) :
    rows.load .claimSeq t ↔ ∃ c ∈ l.indexes.claims,
      t = [.symbol c.asrtId, .number ((reads l).seq c)] := by
  obtain ⟨_, _, claimSeq, _, _, hseq, rfl⟩ := buildFactRows_ok h
  have hrow : ∀ c ∈ l.indexes.claims,
      claimSeqRow l c = .ok (some [c.asrtId, Nat.repr ((reads l).seq c)]) := by
    intro c hc
    unfold claimSeqRow
    have hsequence : l.claimSequence c.asrtId = .ok (some ((reads l).seq c)) :=
      (sequenced_of_sound hl).sequence c hc
    rw [hsequence]
    rfl
  have hmem : ∀ row, row ∈ claimSeq.reduceOption ↔
      ∃ c ∈ l.indexes.claims, row = [c.asrtId, Nat.repr ((reads l).seq c)] := by
    intro row
    rw [List.reduceOption_mem_iff]
    constructor
    · intro hrowmem
      obtain ⟨c, hc, hval⟩ := mem_of_mapOk hseq hrowmem
      rw [hrow c hc] at hval
      exact ⟨c, hc, (Option.some.inj (Except.ok.inj hval)).symm⟩
    · rintro ⟨c, hc, rfl⟩
      obtain ⟨row, hrowmem, hval⟩ := image_of_mapOk hseq hc
      rw [hrow c hc] at hval
      rwa [← Except.ok.inj hval] at hrowmem
  show (∃ a text n, [a, text] ∈ sortRows _ ∧ text.toInt? = some n ∧ t = _) ↔ _
  simp only [mem_sortRows, hmem]
  constructor
  · rintro ⟨a, text, n, ⟨c, hc, hrow⟩, hn, rfl⟩
    simp only [List.cons.injEq, and_true] at hrow
    obtain ⟨rfl, rfl⟩ := hrow
    rw [Nat.toInt?_repr, Option.some.injEq] at hn
    subst hn
    exact ⟨c, hc, rfl⟩
  · rintro ⟨c, hc, rfl⟩
    exact ⟨_, _, _, ⟨c, hc, rfl⟩, Nat.toInt?_repr _, rfl⟩

end FactGraph.Souffle
