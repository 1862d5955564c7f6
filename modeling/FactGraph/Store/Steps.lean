import FactGraph.Store.Writes

/-!
# Every call is a step

The public writes of a ledger, as data. `Ledger.Step` is what one call may do — nothing, replace the
transaction defaults, set a lifecycle entry, or commit a session — and `Write.step` says that every
call is such a step.
-/

namespace FactGraph.Store

open Protocol Check Session Indexes

/-! ## Writes -/

/-- The public writes of a ledger. -/
inductive Write where
  | assertion (a : Ledger.AssertionArgs)
  | revocation (a : Ledger.RevocationArgs)
  | claim (c : Claim)
  | metaRows (rows : List MetaRow)
  | annotations (rows : List AnnotationRow)
  | revokes (row : Revokes)
  | setLedgerMeta (key value : String)
  | replaceLedgerMeta (key value : String)
  | replaceTxMetaDefaults (rows : List TxMetaDefault)
  | recordTxMetaDefaults (rows : List TxMetaDefault)
  | commit (b : Batch)

/-- The ledger a call leaves behind. -/
def Write.run (l : Ledger) : Write → Ledger
  | .assertion a => (l.appendAssertion a).1
  | .revocation a => (l.appendRevocation a).1
  | .claim c => (l.appendClaim c).1
  | .metaRows rows => (l.appendMeta rows).1
  | .annotations rows => (l.appendAnnotations rows).1
  | .revokes row => (l.appendRevokes row).1
  | .setLedgerMeta key value => (l.setLedgerMeta key value).1
  | .replaceLedgerMeta key value => (l.replaceLedgerMeta key value).1
  | .replaceTxMetaDefaults rows => (l.replaceTxMetaDefaults rows).1
  | .recordTxMetaDefaults rows => (l.recordTxMetaDefaults rows).1
  | .commit b => (l.commitBatch b).1

/-- A ledger that a run of public writes leads to, from an empty one. -/
def Ledger.Reachable (l : Ledger) : Prop :=
  ∃ (lazyKeys : List String) (ws : List Write), l = ws.foldl Write.run (Ledger.opened lazyKeys)

/-! ## Steps -/

/-- What a write at `n` may do to the positions of `m₀`: place its own ids. -/
structure Indexes.Placed (n : Nat) (ids : String → Prop) (m₀ m : Indexes) : Prop where
  txRefs : ∀ a, Dict.get? m.claimTxRefs a = Dict.get? m₀.claimTxRefs a ∨
    (ids a ∧ Dict.get? m.claimTxRefs a = some n)
  opOrdinals : ∀ a, ¬ids a → Dict.get? m.claimOpOrdinals a = Dict.get? m₀.claimOpOrdinals a

theorem Indexes.Placed.refl (n : Nat) (ids : String → Prop) (m : Indexes) : Placed n ids m m :=
  ⟨fun _ => .inl rfl, fun _ _ => rfl⟩

theorem Indexes.stable_placed (isLazy : String → Bool) (n : Nat) (ids : String → Prop)
    (m₀ : Indexes) : Stable isLazy n ids (Placed n ids m₀) where
  addClaim _ _ hm := ⟨hm.txRefs, hm.opOrdinals⟩
  addClaimArg _ _ hm := ⟨hm.txRefs, hm.opOrdinals⟩
  addSystemClaim _ _ hm := ⟨hm.txRefs, hm.opOrdinals⟩
  setTxRef m a ha hm := by
    refine ⟨?_, hm.opOrdinals⟩
    intro b
    simp only [setTxRef, Dict.get?_set]
    by_cases hb : b = a
    · subst hb
      exact .inr ⟨ha, if_pos rfl⟩
    · rw [if_neg hb]
      exact hm.txRefs b
  setOpOrdinal m a op ha hm := by
    refine ⟨hm.txRefs, ?_⟩
    intro b hb
    have hne : b ≠ a := by
      intro he
      exact hb (he ▸ ha)
    simp only [setOpOrdinal, Dict.get?_set, if_neg hne]
    exact hm.opOrdinals b hb
  addMetaEvent _ _ _ _ hm := ⟨hm.txRefs, hm.opOrdinals⟩
  addMetaRow _ _ _ hm := ⟨hm.txRefs, hm.opOrdinals⟩
  addAnnotationRow m row _ hm := by
    unfold addAnnotationRow
    cases Dict.get? m.annoByIdentity row.slot <;> exact ⟨hm.txRefs, hm.opOrdinals⟩
  idxAddRevoke _ _ hm := ⟨hm.txRefs, hm.opOrdinals⟩

/-- No event in memory is lazy. -/
def Indexes.Eager (isLazy : String → Bool) (m : Indexes) : Prop :=
  ∀ e ∈ m.claimMetaEvents, isLazy e.key.text = false

theorem Indexes.stable_eager (isLazy : String → Bool) (n : Nat) (ids : String → Prop) :
    Stable isLazy n ids (Eager isLazy) where
  addClaim _ _ hm := hm
  addClaimArg _ _ hm := hm
  addSystemClaim _ _ hm := hm
  setTxRef _ _ _ hm := hm
  setOpOrdinal _ _ _ _ hm := hm
  addMetaEvent m e he _ hm := by
    intro f hf
    rcases List.mem_append.mp hf with hf | hf
    · exact hm f hf
    · rw [List.mem_singleton.mp hf]
      exact he
  addMetaRow _ _ _ hm := hm
  addAnnotationRow m row _ hm := by
    unfold addAnnotationRow
    cases Dict.get? m.annoByIdentity row.slot <;> exact hm
  idxAddRevoke _ _ hm := hm

/-- Whatever is revoked is a claim of the user. -/
def Indexes.Targeted (m : Indexes) : Prop :=
  ∀ r ∈ m.revokesData, ∃ c ∈ m.claims, c.asrtId = r.revokedAsrtId

theorem Indexes.Targeted.grown {m m' : Indexes} {d : Delta} (h : m.Targeted) (hg : m.Grown m' d)
    (hd : ∀ r ∈ d.revokes, ∃ c ∈ m.claims, c.asrtId = r.revokedAsrtId) : m'.Targeted := by
  intro r hr
  rw [hg.revokes] at hr
  obtain ⟨c, hc, hid⟩ : ∃ c ∈ m.claims, c.asrtId = r.revokedAsrtId := by
    rcases List.mem_append.mp hr with hr | hr
    · exact h r hr
    · exact hd r hr
  exact ⟨c, hg.claims ▸ List.mem_append_left _ hc, hid⟩

/-- A hook that revokes only claims that are known keeps this. -/
theorem Adds.targeted {hook : Hook Indexes StoreErr} {d : Delta} (hadds : Adds hook d) {m : Indexes}
    (hd : ∀ r ∈ d.revokes, ∃ c ∈ m.claims, c.asrtId = r.revokedAsrtId) (h : m.Targeted) :
    (hook m).1.Targeted := by
  obtain ⟨d', hpart, hgrown, _⟩ := hadds m
  exact h.grown hgrown fun r hr => hd r (hpart.revokes.subset hr)

/-- The claim an id names, if it names one, is among the claims. -/
theorem Indexes.Coherent.mem_of_get? {m : Indexes} (h : m.Coherent) {a : String} {c : Claim}
    (hc : Dict.get? m.claimByAsrtId a = some c) : c ∈ m.claims ∧ c.asrtId = a := by
  rw [h.byId] at hc
  simpa using List.mem_of_getLast? hc

/-- Transaction defaults are found under their own sequence number and key. -/
def DefaultsKeyed (ds : List (Nat × List (String × TxMetaDefault))) : Prop :=
  ∀ n byKey, Dict.get? ds n = some byKey →
    ∀ key d, Dict.get? byKey key = some d → d.txSeq = n ∧ d.key = key

theorem DefaultsKeyed.set {ds : List (Nat × List (String × TxMetaDefault))} (h : DefaultsKeyed ds)
    (d : TxMetaDefault) :
    DefaultsKeyed (Dict.set ds d.txSeq (Dict.set ((Dict.get? ds d.txSeq).getD []) d.key d)) := by
  intro n byKey hn key e he
  rw [Dict.get?_set] at hn
  by_cases hnd : n = d.txSeq
  · subst hnd
    rw [if_pos rfl] at hn
    cases hn
    rw [Dict.get?_set] at he
    by_cases hkd : key = d.key
    · rw [if_pos hkd] at he
      cases he
      exact ⟨rfl, hkd.symm⟩
    · rw [if_neg hkd] at he
      cases hold : Dict.get? ds d.txSeq with
      | none => simp [hold] at he
      | some old =>
        rw [hold] at he
        exact h _ old hold key e he
  · rw [if_neg hnd] at hn
    exact h n byKey hn key e he

theorem defaultsKeyed_normalize {rows : List TxMetaDefault}
    {ds : List (Nat × List (String × TxMetaDefault))}
    (h : Ledger.normalizeTxMetaDefaults rows = .ok ds) : DefaultsKeyed ds := by
  unfold Ledger.normalizeTxMetaDefaults at h
  have hnil : DefaultsKeyed [] := by
    intro n byKey hn
    cases hn
  generalize ([] : List (Nat × List (String × TxMetaDefault))) = acc at h hnil
  induction rows generalizing acc with
  | nil =>
    cases h
    exact hnil
  | cons row rows ih =>
    rw [List.foldlM_cons] at h
    obtain ⟨acc', hacc, h⟩ := bind_ok_iff.mp h
    obtain ⟨_, hacc⟩ := bind_unit_ok_iff.mp hacc
    obtain ⟨_, hacc⟩ := bind_unit_ok_iff.mp hacc
    obtain ⟨_, hacc⟩ := bind_unit_ok_iff.mp hacc
    cases hacc
    exact ih _ h (hnil.set row)

/-- What one call may do. -/
inductive Ledger.Step (l : Ledger) : Ledger → Prop
  | refused : Step l l
  | defaults {ds : List (Nat × List (String × TxMetaDefault))} (h : DefaultsKeyed ds) :
      Step l { l with indexes.txMetaDefaultsByTxSeq := ds }
  | ledgerMeta (kvs : List (String × String)) : Step l { l with tables.ledgerMeta := kvs }
  | wrote {n : Nat} {t : Tables} {hook : Hook Indexes StoreErr} {cs : List Claim} {d : Delta}
      (h : Writes l.isLazy n l.tables t hook cs d)
      (ht : l.indexes.Coherent → l.indexes.Targeted → (hook l.indexes).1.Targeted) :
      Step l { l with tables := t, indexes := (hook l.indexes).1 }

namespace Ledger

/-- A session does nothing or writes. -/
theorem step_session {l : Ledger}
    {body : Tables → Except StoreErr (Tables × Hook Indexes StoreErr)}
    (hb : ∀ t hook, body l.tables = .ok (t, hook) → ∃ n cs d, Writes l.isLazy n l.tables t hook cs d ∧
      (l.indexes.Coherent → l.indexes.Targeted → (hook l.indexes).1.Targeted)) :
    l.Step (l.session body).1 := by
  unfold session
  cases h : body l.tables with
  | error e =>
    rw [Session.run_of_error (s := (l.tables, l.indexes)) h]
    exact .refused
  | ok r =>
    obtain ⟨t, hook⟩ := r
    rw [Session.run_of_ok (s := (l.tables, l.indexes)) h]
    obtain ⟨n, cs, d, hw, ht⟩ := hb t hook h
    exact .wrote hw ht

/-- A session that revokes only claims that are known. -/
theorem step_session_of_known {l : Ledger}
    {body : Tables → Except StoreErr (Tables × Hook Indexes StoreErr)}
    (hb : ∀ t hook, body l.tables = .ok (t, hook) → ∃ n cs d, Writes l.isLazy n l.tables t hook cs d ∧
      (l.indexes.Coherent → ∀ r ∈ d.revokes, ∃ c ∈ l.indexes.claims, c.asrtId = r.revokedAsrtId)) :
    l.Step (l.session body).1 := by
  apply step_session
  intro t hook h
  obtain ⟨n, cs, d, hw, hd⟩ := hb t hook h
  exact ⟨n, cs, d, hw, fun hcoherent => hw.adds.targeted (hd hcoherent)⟩

/-- A session that revokes nothing. -/
theorem step_session_of_nil {l : Ledger}
    {body : Tables → Except StoreErr (Tables × Hook Indexes StoreErr)}
    (hb : ∀ t hook, body l.tables = .ok (t, hook) → ∃ n cs d, Writes l.isLazy n l.tables t hook cs d ∧
      d.revokes = []) :
    l.Step (l.session body).1 := by
  apply step_session_of_known
  intro t hook h
  obtain ⟨n, cs, d, hw, hd⟩ := hb t hook h
  exact ⟨n, cs, d, hw, fun _ => by simp [hd]⟩

/-- What a write that returned has done. -/
structure Extends (l l' : Ledger) (n : Nat) (cs : List Claim) (d : Delta) : Prop where
  tables : ∃ ms, Tables.Grown n l.tables l'.tables cs ms ∧ Matches cs ms d
  indexes : l.indexes.Grown l'.indexes d
  lazyMetaKeys : l'.lazyMetaKeys = l.lazyMetaKeys

/-- A session that returns has appended all there was to append. -/
theorem extends_session {l l' : Ledger} {n : Nat} {d : Delta}
    {body : Tables → Except StoreErr (Tables × Hook Indexes StoreErr)}
    (hb : ∀ t hook, body l.tables = .ok (t, hook) → ∃ cs, Writes l.isLazy n l.tables t hook cs d)
    (h : l.session body = (l', .ok ())) : ∃ cs, l.Extends l' n cs d := by
  unfold session at h
  simp only [Prod.mk.injEq] at h
  obtain ⟨rfl, hok⟩ := h
  obtain ⟨hook, hbody, hhook⟩ := Session.run_ok_iff.mp (Prod.ext rfl hok)
  obtain ⟨cs, hw⟩ := hb _ hook hbody
  obtain ⟨d', _, hgrown, hall⟩ := hw.adds l.indexes
  rw [hhook] at hgrown hall
  rw [hall rfl] at hgrown
  exact ⟨cs, hw.tables, hgrown, rfl⟩

/-- A session that only touches `ledger_meta`. -/
theorem step_session_meta {l : Ledger} (kvs : List (String × String))
    {body : Tables → Except StoreErr (Tables × Hook Indexes StoreErr)}
    (hb : body l.tables = .ok ({ l.tables with ledgerMeta := kvs }, .step id)) :
    l.Step (l.session body).1 := by
  unfold session
  rw [Session.run_of_ok (s := (l.tables, l.indexes)) hb]
  exact .ledgerMeta kvs

/-- The rows `_materialize_idempotency_meta` returns all belong to the assertion. -/
theorem materialize_ids {rows out : List MetaRow} {i : Option Idempotency} {id : String}
    (hrows : ∀ r ∈ rows, r.asrtId = id) (h : materializeIdempotencyMeta rows i id = .ok out) :
    ∀ r ∈ out, r.asrtId = id := by
  unfold materializeIdempotencyMeta at h
  cases i with
  | none =>
    cases h
    exact hrows
  | some i =>
    obtain ⟨_, h⟩ := bind_unit_ok_iff.mp h
    split at h
    · obtain ⟨_, h⟩ := bind_unit_ok_iff.mp h
      cases h
      exact hrows
    · cases h
      intro r hr
      rcases List.mem_append.mp hr with hr | hr
      · exact hrows r hr
      · rw [List.mem_singleton.mp hr]

theorem checkAssertion_ids {a : AssertionArgs} {rows : List MetaRow}
    (h : checkAssertion a = .ok rows) :
    ∀ r ∈ rows, r.asrtId = effectiveId a.asrtId a.claim.asrtId a.newId := by
  unfold checkAssertion at h
  obtain ⟨_, h⟩ := bind_unit_ok_iff.mp h
  obtain ⟨_, h⟩ := bind_unit_ok_iff.mp h
  obtain ⟨_, h⟩ := bind_unit_ok_iff.mp h
  obtain ⟨_, h⟩ := bind_unit_ok_iff.mp h
  refine materialize_ids ?_ h
  intro r hr
  obtain ⟨r', _, rfl⟩ := List.mem_map.mp hr
  rfl

theorem validateClaimInput_user {c : Claim} (h : validateClaimInput c = .ok ()) :
    startsWith systemPrefix c.predId = false := by
  unfold validateClaimInput at h
  obtain ⟨_, h⟩ := bind_unit_ok_iff.mp h
  obtain ⟨_, h⟩ := bind_unit_ok_iff.mp h
  simpa using h

theorem checkAssertion_user {a : AssertionArgs} {rows : List MetaRow}
    (h : checkAssertion a = .ok rows) : startsWith systemPrefix a.claim.predId = false := by
  unfold checkAssertion at h
  exact validateClaimInput_user (bind_unit_ok_iff.mp h).1

theorem buildAssertion_eq {a : AssertionArgs} {rows : List MetaRow} {w : AssertionWrite}
    (h : buildAssertion a rows = .ok w) :
    w.claim = { a.claim with asrtId := effectiveId a.asrtId a.claim.asrtId a.newId } ∧
      w.metaRows = rows := by
  unfold buildAssertion at h
  obtain ⟨_, h⟩ := bind_unit_ok_iff.mp h
  obtain ⟨_, _, h⟩ := bind_ok_iff.mp h
  obtain ⟨_, h⟩ := bind_unit_ok_iff.mp h
  obtain ⟨_, h⟩ := bind_unit_ok_iff.mp h
  cases h
  exact ⟨rfl, rfl⟩

theorem writes_assertionBody {l : Ledger} {w : AssertionWrite}
    (huser : startsWith systemPrefix w.claim.predId = false)
    (hids : ∀ r ∈ w.metaRows, r.asrtId = w.claim.asrtId) {t : Tables}
    {hook : Hook Indexes StoreErr} (h : l.assertionBody w l.tables = .ok (t, hook)) :
    Writes l.isLazy l.tables.nextDirectTxSeq l.tables t hook [w.claim]
      (l.assertionDelta w.claim w.metaRows w.annotationRows l.tables.nextDirectTxSeq 0) := by
  unfold assertionBody at h
  obtain ⟨t', ht', h⟩ := bind_ok_iff.mp h
  cases h
  exact writes_assertion huser hids ht'

theorem step_appendAssertion (l : Ledger) (a : AssertionArgs) : l.Step (l.appendAssertion a).1 := by
  unfold appendAssertion
  cases hcheck : checkAssertion a with
  | error e => exact .refused
  | ok rows =>
    simp only
    rcases l.idempotentAnswer a.idempotency with e | _ | existing
    · exact .refused
    · cases hbuild : buildAssertion a rows with
      | error e => exact .refused
      | ok w =>
        obtain ⟨hclaim, hrows⟩ := buildAssertion_eq hbuild
        have huser : startsWith systemPrefix w.claim.predId = false := by
          rw [hclaim]
          exact checkAssertion_user hcheck
        have hids : ∀ r ∈ w.metaRows, r.asrtId = w.claim.asrtId := by
          rw [hclaim, hrows]
          exact checkAssertion_ids hcheck
        exact step_session_of_nil fun t hook h => ⟨_, _, _, writes_assertionBody huser hids h,
          (l.claimMetaDelta_claims _ _ _ _).2⟩
    · exact .refused

theorem checkRevocation_ids {a : RevocationArgs} {rows : List MetaRow}
    (h : checkRevocation a = .ok rows) :
    ∀ r ∈ rows, r.asrtId = effectiveId a.revokerAsrtId a.revokes.revokerAsrtId a.newId := by
  unfold checkRevocation at h
  obtain ⟨_, h⟩ := bind_unit_ok_iff.mp h
  obtain ⟨_, h⟩ := bind_unit_ok_iff.mp h
  obtain ⟨_, h⟩ := bind_unit_ok_iff.mp h
  refine materialize_ids ?_ h
  intro r hr
  obtain ⟨r', _, rfl⟩ := List.mem_map.mp hr
  rfl

/-- What a revocation leaves in memory. -/
def revocationDelta (l : Ledger) (revokes : Revokes) (metaRows : List MetaRow) (n : Nat) : Delta :=
  { eventsDelta l.isLazy (metaRows.map .row) n 0 true with revokes := [revokes] }

theorem writes_revocationBody {l : Ledger} {revokes : Revokes} {metaRows : List MetaRow}
    {annotationRows : List AnnotationRow} (hids : ∀ r ∈ metaRows, r.asrtId = revokes.revokerAsrtId)
    {t : Tables} {hook : Hook Indexes StoreErr}
    (h : l.revocationBody revokes metaRows annotationRows l.tables = .ok (t, hook)) :
    ∃ cs, Writes l.isLazy l.tables.nextDirectTxSeq l.tables t hook cs
        (l.revocationDelta revokes metaRows l.tables.nextDirectTxSeq) ∧
      (l.getClaim revokes.revokedAsrtId).isSome := by
  unfold revocationBody at h
  cases htarget : l.getClaim revokes.revokedAsrtId with
  | none => simp [htarget] at h
  | some target =>
    simp only [htarget] at h
    obtain ⟨t', ht', h⟩ := bind_ok_iff.mp h
    cases h
    have hadds : Adds (Hook.step fun m : Indexes =>
        (m.idxAddClaimMetaEvents l.isLazy (metaRows.map .row) l.tables.nextDirectTxSeq 0
          true).idxAddAnnotations l.isLazy annotationRows)
        (eventsDelta l.isLazy (metaRows.map .row) l.tables.nextDirectTxSeq 0 true) := by
      apply Adds.step
      intro m
      have h := (grown_idxAddClaimMetaEvents l.isLazy (metaRows.map .row) l.tables.nextDirectTxSeq 0
        true m).trans (grown_idxAddAnnotations l.isLazy annotationRows _)
      simpa [Delta.append] using h
    have hkeeps : Keeps l.isLazy l.tables.nextDirectTxSeq [revokeClaim revokes target]
        ((idxAddSystemRevocationClaim (revokeClaim revokes target)
          (some l.tables.nextDirectTxSeq)).andThen
          ((Hook.step fun m : Indexes => (m.setOpOrdinal revokes.revokerAsrtId 0).idxAddRevoke
            revokes).andThen (Hook.step fun m : Indexes =>
              (m.idxAddClaimMetaEvents l.isLazy (metaRows.map .row) l.tables.nextDirectTxSeq 0
                true).idxAddAnnotations l.isLazy annotationRows))) := by
      intro ids P hP hc
      apply hP.recordRevocation (hc _ List.mem_cons_self) rfl
      apply Hook.preserves_step
      intro m hm
      exact hP.idxAddAnnotations (hP.idxAddClaimMetaEvents hm _ _ _) _
    exact ⟨_, writes_revocation (l := l) hids ht'
      (adds_recordRevocation (revokeClaim revokes target) hadds ⟨rfl, rfl⟩)
      hkeeps rfl
      (by simp only [claimMetaDelta, Delta.append]; exact List.sublist_append_left _ _), rfl⟩

/-- A claim that `get_claim` finds is a claim. -/
theorem known_of_getClaim {l : Ledger} {row : Revokes}
    (h : (l.getClaim row.revokedAsrtId).isSome) (hcoherent : l.indexes.Coherent) :
    ∀ r ∈ [row], ∃ c ∈ l.indexes.claims, c.asrtId = r.revokedAsrtId := by
  intro r hr
  rw [List.mem_singleton.mp hr]
  obtain ⟨c, hc⟩ := Option.isSome_iff_exists.mp h
  exact ⟨c, hcoherent.mem_of_get? hc⟩

theorem step_appendRevocation (l : Ledger) (a : RevocationArgs) :
    l.Step (l.appendRevocation a).1 := by
  unfold appendRevocation
  cases hcheck : checkRevocation a with
  | error e => exact .refused
  | ok rows =>
    simp only
    rcases l.idempotentAnswer a.idempotency with e | _ | existing
    · exact .refused
    · cases validateAnnotationRows (initialMetaAnnotationRows rows) with
      | error e => exact .refused
      | ok u =>
        apply step_session_of_known
        intro t hook h
        obtain ⟨cs, hw, hknown⟩ := writes_revocationBody (checkRevocation_ids hcheck) h
        exact ⟨_, _, _, hw, known_of_getClaim hknown⟩
    · exact .refused

/-- How `append_revocation` comes to write. -/
theorem appendRevocation_written {l l' : Ledger} {a : RevocationArgs} {id : String}
    (h : l.appendRevocation a = (l', .ok ⟨id, true⟩)) :
    ∃ rows, checkRevocation a = .ok rows ∧ l.idempotentAnswer a.idempotency = .ok none ∧
      id = effectiveId a.revokerAsrtId a.revokes.revokerAsrtId a.newId ∧
      l.session (l.revocationBody ⟨id, a.revokes.revokedAsrtId⟩ rows
        (initialMetaAnnotationRows rows)) = (l', .ok ()) := by
  unfold appendRevocation at h
  cases hcheck : checkRevocation a with
  | error e => simp [hcheck] at h
  | ok rows =>
    simp only [hcheck] at h
    rcases hanswer : l.idempotentAnswer a.idempotency with e | _ | existing
    · simp [hanswer] at h
    · simp only [hanswer] at h
      rcases hannotations : validateAnnotationRows (initialMetaAnnotationRows rows) with e | _
      · simp [hannotations] at h
      · simp only [hannotations, Prod.mk.injEq] at h
        obtain ⟨hl', hok⟩ := h
        generalize hs : l.session (l.revocationBody ⟨effectiveId a.revokerAsrtId
          a.revokes.revokerAsrtId a.newId, a.revokes.revokedAsrtId⟩ rows
          (initialMetaAnnotationRows rows)) = s at hl' hok
        obtain ⟨l₁, e | u⟩ := s
        · cases hok
        · cases hok
          cases hl'
          exact ⟨rows, rfl, rfl, rfl, hs⟩
    · simp [hanswer] at h

theorem writes_claimBody (isLazy : String → Bool) {t₀ : Tables} {claim : Claim}
    (huser : startsWith systemPrefix claim.predId = false) {t : Tables}
    {hook : Hook Indexes StoreErr} (h : claimBody claim t₀ = .ok (t, hook)) :
    Writes isLazy t₀.nextDirectTxSeq t₀ t hook [claim] { claims := [claim] } := by
  unfold claimBody at h
  obtain ⟨t', ht', h⟩ := bind_ok_iff.mp h
  cases h
  have hrefs : Adds (Hook.step fun m : Indexes =>
      (m.setTxRef claim.asrtId t₀.nextDirectTxSeq).setOpOrdinal claim.asrtId 0) {} := by
    apply Adds.step
    intro m
    have h := (grown_setTxRef m claim.asrtId t₀.nextDirectTxSeq).trans
      (grown_setOpOrdinal _ claim.asrtId 0)
    simpa [Delta.append] using h
  have hidx : Adds (idxAddClaim claim) { claims := [claim] } := fun m =>
    ⟨_, .refl _, grown_idxAddClaim huser m, fun _ => rfl⟩
  refine ⟨⟨[], Tables.grown_insertClaim ht', ?_⟩, ?_, ?_⟩
  · constructor <;> simp [Claim.isUser, huser]
  · simpa [Delta.append] using hrefs.andThen hidx
  · intro ids P hP hc
    have hid : ids claim.asrtId := hc claim List.mem_cons_self
    exact (Hook.preserves_step fun _ hm => hP.place hid 0 hm).andThen (hP.idxAddClaim hid)

theorem validateIdentifiedClaim_user {claim : Claim} (h : validateIdentifiedClaim claim = .ok ()) :
    startsWith systemPrefix claim.predId = false :=
  validateClaimInput_user (bind_unit_ok_iff.mp h).2

theorem step_appendClaim (l : Ledger) (claim : Claim) : l.Step (l.appendClaim claim).1 := by
  unfold appendClaim
  rcases hcheck : validateIdentifiedClaim claim with e | _
  · exact .refused
  rcases normalizeTerms claim.restTerms with e | _
  · exact .refused
  exact step_session_of_nil fun t hook h =>
    ⟨_, _, _, writes_claimBody l.isLazy (validateIdentifiedClaim_user hcheck) h, rfl⟩

/-- The deltas of rows appended at consecutive ordinals. -/
def appendsDelta (l : Ledger) (projects : MetaAppend → Bool) (n op : Nat)
    (appends : List MetaAppend) : Delta :=
  Delta.concat ((appends.zipIdx op).map fun p => eventsDelta l.isLazy [p.1] n p.2 (projects p.1))

theorem appendsDelta_claims (l : Ledger) (projects : MetaAppend → Bool) (n : Nat) :
    ∀ (op : Nat) (appends : List MetaAppend),
      (l.appendsDelta projects n op appends).claims = [] ∧
        (l.appendsDelta projects n op appends).revokes = []
  | _, [] => ⟨rfl, rfl⟩
  | op, _ :: appends => l.appendsDelta_claims projects n (op + 1) appends

theorem tables_insertOneByOne (l : Ledger) (projects : MetaAppend → Bool) {n : Nat} :
    ∀ {appends : List MetaAppend} {op : Nat} {t t' : Tables},
      insertOneByOne n op t appends = .ok t' →
      ∃ ms, Tables.Grown n t t' [] ms ∧ Matches [] ms (l.appendsDelta projects n op appends) := by
  intro appends
  induction appends with
  | nil =>
    intro op t t' h
    cases h
    exact ⟨[], Tables.Grown.refl n t, .nil⟩
  | cons a appends ih =>
    intro op t t' h
    unfold insertOneByOne at h
    obtain ⟨t₁, ht₁, h⟩ := bind_ok_iff.mp h
    obtain ⟨ms, hgrown, hmatch⟩ :=
      (writes_events l.isLazy [a] (projects a) (by simp) ht₁).tables
    obtain ⟨ms', hgrown', hmatch'⟩ := ih h
    refine ⟨ms ++ ms', hgrown.trans hgrown', ?_⟩
    unfold appendsDelta
    rw [List.zipIdx_cons, List.map_cons]
    exact hmatch.append hmatch'

theorem appendsDelta_rows (l : Ledger) (projects : MetaAppend → Bool) (n op : Nat)
    (rows : List MetaRow) : l.appendsDelta projects n op (rows.map .row) =
      Delta.concat ((rows.zipIdx op).map fun p =>
        eventsDelta l.isLazy [.row p.1] n p.2 (projects (.row p.1))) := by
  unfold appendsDelta
  rw [List.zipIdx_map, List.map_map]
  rfl

theorem writes_metaBody {l : Ledger} {rows : List MetaRow} {t : Tables}
    {hook : Hook Indexes StoreErr} (h : l.metaBody rows l.tables = .ok (t, hook)) :
    Writes l.isLazy l.tables.nextDirectTxSeq l.tables t hook []
      (l.appendsDelta (fun _ => true) l.tables.nextDirectTxSeq 0 (rows.map .row)) := by
  unfold metaBody at h
  obtain ⟨t', ht', h⟩ := bind_ok_iff.mp h
  cases h
  obtain ⟨ms, hgrown, hmatch⟩ := tables_insertOneByOne l (fun _ => true) ht'
  refine ⟨⟨ms, hgrown, hmatch⟩, ?_, ?_⟩
  · apply Adds.step
    intro m
    rw [appendsDelta_rows]
    exact grown_foldl (d := fun p : MetaRow × Nat =>
        eventsDelta l.isLazy [.row p.1] l.tables.nextDirectTxSeq p.2 true)
      (fun m p => grown_idxAddClaimMetaEvents _ _ _ _ _ m) _ m
  · intro ids P hP _
    apply Hook.preserves_step
    intro m hm
    refine foldl_keeps ?_ hm
    intro m p _ hm
    exact hP.idxAddClaimMetaEvents hm _ _ _

theorem step_appendMeta (l : Ledger) (rows : List MetaRow) : l.Step (l.appendMeta rows).1 := by
  unfold appendMeta
  rcases l.checkMeta rows with e | _
  · exact .refused
  · exact step_session_of_nil fun t hook h =>
      ⟨_, _, _, writes_metaBody h, (l.appendsDelta_claims _ _ _ _).2⟩

/-- The delta of one annotation appended on its own. -/
def annotationDelta (l : Ledger) (n : Nat) (p : AnnotationRow × Nat) : Delta :=
  match annotationCompatibilityMetaRows [p.1] [] with
  | .ok rows => eventsDelta l.isLazy (rows.map .row) n p.2 false
  | .error _ => {}

theorem tables_insertAnnotations (l : Ledger) {n : Nat} :
    ∀ {ps : List (AnnotationRow × Nat)} {t t' : Tables},
      ps.foldlM (fun t p => t.insertAnnotationRows [p.1] n p.2 []) t = .ok t' →
      ∃ ms, Tables.Grown n t t' [] ms ∧ Matches [] ms (Delta.concat (ps.map (l.annotationDelta n))) := by
  intro ps
  induction ps with
  | nil =>
    intro t t' h
    cases h
    exact ⟨[], Tables.Grown.refl n t, .nil⟩
  | cons p ps ih =>
    intro t t' h
    rw [List.foldlM_cons] at h
    obtain ⟨t₁, ht₁, h⟩ := bind_ok_iff.mp h
    obtain ⟨rows, ms, hrows, hgrown, hmatch⟩ := tables_insertAnnotationRows (l := l) ht₁
    obtain ⟨ms', hgrown', hmatch'⟩ := ih h
    refine ⟨ms ++ ms', hgrown.trans hgrown', ?_⟩
    have hp : l.annotationDelta n p = eventsDelta l.isLazy (rows.map .row) n p.2 false := by
      simp [annotationDelta, hrows]
    rw [List.map_cons, hp]
    exact hmatch.append hmatch'

/-- What annotations appended on their own leave in memory. -/
def annotationsDelta (l : Ledger) (n : Nat) (rows : List AnnotationRow) : Delta :=
  Delta.concat (rows.zipIdx.map (l.annotationDelta n))

theorem annotationsDelta_revokes (l : Ledger) (n : Nat) (rows : List AnnotationRow) :
    (l.annotationsDelta n rows).revokes = [] := by
  unfold annotationsDelta
  induction rows.zipIdx with
  | nil => rfl
  | cons p ps ih =>
    have hp : (l.annotationDelta n p).revokes = [] := by
      unfold annotationDelta
      cases annotationCompatibilityMetaRows [p.1] [] <;> rfl
    show (l.annotationDelta n p).revokes ++ (Delta.concat (ps.map (l.annotationDelta n))).revokes = []
    rw [hp, ih, List.append_nil]

theorem writes_annotationsBody {l : Ledger} {rows : List AnnotationRow} {t : Tables}
    {hook : Hook Indexes StoreErr} (h : l.annotationsBody rows l.tables = .ok (t, hook)) :
    Writes l.isLazy l.tables.nextDirectTxSeq l.tables t hook []
      (l.annotationsDelta l.tables.nextDirectTxSeq rows) := by
  unfold annotationsBody at h
  obtain ⟨t', ht', h⟩ := bind_ok_iff.mp h
  cases h
  obtain ⟨ms, hgrown, hmatch⟩ := tables_insertAnnotations l ht'
  have hadds : Adds ((Hook.each (fun p : AnnotationRow × Nat =>
      .bind (annotationCompatibilityMetaRows [p.1] []) fun compatibility =>
        .step (Indexes.idxAddClaimMetaEvents l.isLazy (compatibility.map .row)
          l.tables.nextDirectTxSeq p.2 false)) rows.zipIdx).andThen
      (.step (Indexes.idxAddAnnotations l.isLazy rows)))
      ((l.annotationsDelta l.tables.nextDirectTxSeq rows).append {}) := by
    refine Adds.andThen (Adds.each fun p _ => Adds.bind fun compatibility hc => ?_)
      (Adds.step fun m => grown_idxAddAnnotations _ _ m)
    apply Adds.step
    intro m
    simp only [annotationDelta, hc]
    exact grown_idxAddClaimMetaEvents _ _ _ _ _ m
  refine ⟨⟨ms, hgrown, hmatch⟩, by simpa [Delta.append] using hadds, ?_⟩
  intro ids P hP _
  apply Hook.Preserves.andThen
  · apply Hook.preserves_each
    intro p _
    apply Hook.preserves_bind
    intro compatibility _
    exact Hook.preserves_step fun _ hm => hP.idxAddClaimMetaEvents hm _ _ _
  · exact Hook.preserves_step fun _ hm => hP.idxAddAnnotations hm _

theorem step_appendAnnotations (l : Ledger) (rows : List AnnotationRow) :
    l.Step (l.appendAnnotations rows).1 := by
  unfold appendAnnotations
  rcases l.checkAnnotations rows with e | _
  · exact .refused
  · exact step_session_of_nil fun t hook h =>
      ⟨_, _, _, writes_annotationsBody h, l.annotationsDelta_revokes _ _⟩

theorem writes_revokesBody {l : Ledger} {row : Revokes} {t : Tables}
    {hook : Hook Indexes StoreErr} (h : l.revokesBody row l.tables = .ok (t, hook)) :
    ∃ cs, Writes l.isLazy l.tables.nextDirectTxSeq l.tables t hook cs { revokes := [row] } ∧
      (l.getClaim row.revokedAsrtId).isSome := by
  unfold revokesBody at h
  cases htarget : l.getClaim row.revokedAsrtId with
  | none => simp [htarget] at h
  | some target =>
    simp only [htarget] at h
    obtain ⟨t', ht', h⟩ := bind_ok_iff.mp h
    cases h
    have hrecord : Adds (Hook.step fun m : Indexes =>
        (m.setOpOrdinal (revokeClaim row target).asrtId 0).idxAddRevoke row)
        { revokes := [row] } := by
      apply Adds.step
      intro m
      have h := (grown_setOpOrdinal m row.revokerAsrtId 0).trans (grown_idxAddRevoke _ row)
      simpa [Delta.append, revokeClaim] using h
    have huser := isUser_revokeClaim row target
    refine ⟨_, ⟨⟨[], Tables.grown_insertClaim ht', ?_⟩, ?_, ?_⟩, rfl⟩
    · refine ⟨by simp [huser], ?_, List.Sublist.refl _⟩
      rw [List.filter_singleton, huser]
      rfl
    · simpa [Delta.append] using (adds_idxAddSystemRevocationClaim _ _).andThen hrecord
    · intro ids P hP hc
      have hid : ids row.revokerAsrtId := hc _ List.mem_cons_self
      apply (hP.idxAddSystemRevocationClaim hid (by simp)).andThen
      apply Hook.preserves_step
      intro m hm
      exact hP.idxAddRevoke _ row (hP.setOpOrdinal m _ 0 hid hm)

theorem step_appendRevokes (l : Ledger) (row : Revokes) : l.Step (l.appendRevokes row).1 := by
  unfold appendRevokes
  rcases validateRevokesRow row with e | _
  · exact .refused
  · apply step_session_of_known
    intro t hook h
    obtain ⟨cs, hw, hknown⟩ := writes_revokesBody h
    exact ⟨_, _, _, hw, known_of_getClaim hknown⟩

theorem step_setLedgerMeta (l : Ledger) (key value : String) :
    l.Step (l.setLedgerMeta key value).1 := by
  unfold setLedgerMeta
  by_cases h : Dict.has l.tables.ledgerMeta key = true
  · exact step_session_meta l.tables.ledgerMeta (by simp [h])
  · exact step_session_meta _ (by rw [if_neg h])

theorem step_replaceLedgerMeta (l : Ledger) (key value : String) :
    l.Step (l.replaceLedgerMeta key value).1 :=
  step_session_meta _ rfl

theorem step_replaceTxMetaDefaults (l : Ledger) (rows : List TxMetaDefault) :
    l.Step (l.replaceTxMetaDefaults rows).1 := by
  unfold replaceTxMetaDefaults
  cases h : normalizeTxMetaDefaults rows with
  | error e => exact .refused
  | ok ds => exact .defaults (defaultsKeyed_normalize h)

end Ledger

/-! ## Commits -/

namespace Batch

/-- What a loop checks that tests each item against the ids of the items before it. -/
theorem all_of_checks {ι : Type} {id : ι → String} {P : ι → Prop}
    {check : List String → ι → Except StoreErr Unit} {loop : List String → List ι → Except StoreErr Unit}
    (hcheck : ∀ {seen item}, check seen item = .ok () → id item ∉ seen ∧ P item) {items : List ι}
    {seen : List String} (h : loop seen items = .ok ())
    (hloop : ∀ seen item rest, loop seen (item :: rest) = do
      check seen item
      loop (id item :: seen) rest) :
    (items.map id).Nodup ∧ ∀ item ∈ items, id item ∉ seen ∧ P item := by
  induction items generalizing seen with
  | nil => simp
  | cons item items ih =>
    rw [hloop] at h
    obtain ⟨hitem, hrest⟩ := bind_unit_ok_iff.mp h
    obtain ⟨hnodup, hall⟩ := ih hrest
    constructor
    · rw [List.map_cons, List.nodup_cons]
      refine ⟨?_, hnodup⟩
      intro hmem
      obtain ⟨x, hx, hid⟩ := List.mem_map.mp hmem
      exact (hall x hx).1 (by simp [hid])
    · intro x hx
      rcases List.mem_cons.mp hx with rfl | hx
      · exact hcheck hitem
      · exact ⟨fun hmem => (hall x hx).1 (List.mem_cons_of_mem _ hmem), (hall x hx).2⟩

theorem checkAssertion_ok {seen : List String} {item : LedgerAssertionWrite}
    (h : checkAssertion seen item = .ok ()) :
    item.claim.asrtId ∉ seen ∧ startsWith systemPrefix item.claim.predId = false ∧
      (∀ r ∈ item.metaRows, r.asrtId = item.claim.asrtId) ∧
      ∀ r ∈ item.annotationRows, r.asrtId = item.claim.asrtId := by
  unfold checkAssertion at h
  obtain ⟨hclaim, h⟩ := bind_unit_ok_iff.mp h
  obtain ⟨_, h⟩ := bind_unit_ok_iff.mp h
  obtain ⟨_, h⟩ := bind_unit_ok_iff.mp h
  obtain ⟨_, h⟩ := bind_unit_ok_iff.mp h
  obtain ⟨_, h⟩ := bind_unit_ok_iff.mp h
  obtain ⟨hseen, h⟩ := bind_unit_ok_iff.mp h
  obtain ⟨_, h⟩ := bind_unit_ok_iff.mp h
  obtain ⟨hrows, hann⟩ := bind_unit_ok_iff.mp h
  rw [require_ok_iff, decide_eq_true_eq] at hseen
  exact ⟨hseen, Ledger.validateClaimInput_user (bind_unit_ok_iff.mp hclaim).2, by simpa using hrows,
    by simpa using hann⟩

theorem checkRevocation_ok {seen : List String} {item : LedgerRevocationWrite}
    (h : checkRevocation seen item = .ok ()) :
    item.revokes.revokerAsrtId ∉ seen ∧ (∀ r ∈ item.metaRows, r.asrtId = item.revokes.revokerAsrtId) ∧
      ∀ r ∈ item.annotationRows, r.asrtId = item.revokes.revokerAsrtId := by
  unfold checkRevocation at h
  obtain ⟨_, h⟩ := bind_unit_ok_iff.mp h
  obtain ⟨_, h⟩ := bind_unit_ok_iff.mp h
  obtain ⟨_, h⟩ := bind_unit_ok_iff.mp h
  obtain ⟨_, h⟩ := bind_unit_ok_iff.mp h
  obtain ⟨hseen, h⟩ := bind_unit_ok_iff.mp h
  obtain ⟨hrows, hann⟩ := bind_unit_ok_iff.mp h
  rw [require_ok_iff, decide_eq_true_eq] at hseen
  exact ⟨hseen, by simpa using hrows, by simpa using hann⟩

/-- The claims of a batch and what they leave in memory. -/
def assertionsDelta (l : Ledger) (n op : Nat) (items : List LedgerAssertionWrite) : Delta :=
  Delta.concat ((items.zipIdx op).map fun p =>
    l.assertionDelta p.1.claim p.1.metaRows p.1.annotationRows n p.2)

theorem writes_assertions {l : Ledger} {n : Nat} :
    ∀ {items : List LedgerAssertionWrite} {op : Nat} {t t' : Tables},
      (∀ item ∈ items, startsWith systemPrefix item.claim.predId = false ∧
        ∀ r ∈ item.metaRows, r.asrtId = item.claim.asrtId) →
      insertAssertions n op t items = .ok t' →
      Writes l.isLazy n t t' (Hook.each (fun p =>
          l.assertionHook p.1.claim p.1.metaRows p.1.annotationRows n p.2) (items.zipIdx op))
        (items.map (·.claim)) (assertionsDelta l n op items) := by
  intro items
  induction items with
  | nil =>
    intro op t t' _ h
    cases h
    exact Writes.refl l.isLazy n t
  | cons item items ih =>
    intro op t t' hall h
    unfold insertAssertions at h
    obtain ⟨t₁, ht₁, h⟩ := bind_ok_iff.mp h
    obtain ⟨huser, hids⟩ := hall item List.mem_cons_self
    have hhead := Ledger.writes_assertion (l := l) huser hids ht₁
    have htail := ih (fun x hx => hall x (List.mem_cons_of_mem _ hx)) h
    unfold assertionsDelta
    rw [List.zipIdx_cons, List.map_cons, List.map_cons]
    exact hhead.andThen htail

/-- What one revocation of a batch leaves in memory. -/
def revocationDelta (l : Ledger) (n op : Nat) (item : LedgerRevocationWrite) : Delta :=
  { l.claimMetaDelta item.metaRows item.annotationRows n op with revokes := [item.revokes] }

theorem adds_revocationHook (l : Ledger) (b : Batch) (n op : Nat) (item : LedgerRevocationWrite) :
    Adds (revocationHook l b n op item) (revocationDelta l n op item) := by
  intro m
  unfold revocationHook
  cases b.target? (Dict.get? m.claimByAsrtId ·) item.revokes.revokedAsrtId with
  | none => exact ⟨{}, .nil _, Grown.refl m, by simp⟩
  | some target =>
    exact Ledger.adds_recordRevocation _
      (l.adds_claimMetaHook item.metaRows item.annotationRows n op)
      (l.claimMetaDelta_claims _ _ _ _) m

/-- What the revocations of a batch leave in memory. -/
def revocationsDelta (l : Ledger) (n op : Nat) (items : List LedgerRevocationWrite) : Delta :=
  Delta.concat ((items.zipIdx op).map fun p => revocationDelta l n p.2 p.1)

theorem writes_revocations {l : Ledger} {b : Batch} {n : Nat} :
    ∀ {items : List LedgerRevocationWrite} {op : Nat} {t t' : Tables},
      (∀ item ∈ items, ∀ r ∈ item.metaRows, r.asrtId = item.revokes.revokerAsrtId) →
      insertRevocations b l n op t items = .ok t' →
      ∃ cs, Writes l.isLazy n t t' (Hook.each (fun p => revocationHook l b n p.2 p.1) (items.zipIdx op)) cs
          (revocationsDelta l n op items) ∧
        ∀ item ∈ items, (b.target? l.getClaim item.revokes.revokedAsrtId).isSome := by
  intro items
  induction items with
  | nil =>
    intro op t t' _ h
    cases h
    exact ⟨[], Writes.refl l.isLazy n t, by simp⟩
  | cons item items ih =>
    intro op t t' hall h
    unfold insertRevocations at h
    cases htarget : b.target? l.getClaim item.revokes.revokedAsrtId with
    | none => simp [htarget] at h
    | some target =>
      simp only [htarget] at h
      obtain ⟨t₁, ht₁, h⟩ := bind_ok_iff.mp h
      have hhead := Ledger.writes_revocation (l := l) (hall item List.mem_cons_self) ht₁
        (adds_revocationHook l b n op item)
        (fun _ _ hP hc => keeps_revocationHook hP b op (hc _ List.mem_cons_self))
        (l.claimMetaDelta_claims _ _ _ _).1 (List.Sublist.refl _)
      obtain ⟨cs, htail, htargets⟩ := ih (fun x hx => hall x (List.mem_cons_of_mem _ hx)) h
      refine ⟨[revokeClaim item.revokes target] ++ cs, ?_, ?_⟩
      · unfold revocationsDelta
        rw [List.zipIdx_cons, List.map_cons]
        exact hhead.andThen htail
      · intro x hx
        rcases List.mem_cons.mp hx with rfl | hx
        · simp [htarget]
        · exact htargets x hx

/-- Is an appended event also a metadata row? -/
def projects : MetaAppend → Bool
  | .row r => r.key = .plain r.key.text
  | .unset _ => false

theorem adds_appendHook (l : Ledger) (n op : Nat) (a : MetaAppend) :
    Adds (appendHook l n op a) (eventsDelta l.isLazy [a] n op (projects a)) := by
  unfold appendHook
  cases a with
  | unset u => exact Adds.step fun m => grown_idxAddClaimMetaEvents _ _ _ _ _ m
  | row r =>
    obtain ⟨asrtId, key, kind, value⟩ := r
    cases key with
    | plain text =>
      simp only [projects, MetaKey.text, decide_true]
      exact Adds.step fun m => grown_idxAddClaimMetaEvents _ _ _ _ _ m
    | storage id =>
      have hproj : projects (.row ⟨asrtId, .storage id, kind, value⟩) = false := by
        simp [projects]
      rw [hproj]
      have h := (Adds.step fun m => grown_idxAddClaimMetaEvents l.isLazy
        [.row ⟨asrtId, .storage id, kind, value⟩] n op false m).andThen
        (Adds.bind (d := {}) (x := annotationFromStorageKey asrtId (.storage id) kind value)
          fun row _ => Adds.step fun m => grown_idxAddAnnotations l.isLazy [row] m)
      simpa [Delta.append] using h

/-- What a commit leaves in memory after its claims. -/
def restDelta (l : Ledger) (b : Batch) (n : Nat) : Delta :=
  (revocationsDelta l n b.assertions.length b.mergedRevocations).append
    (l.appendsDelta projects n (b.assertions.length + b.revocations.length) b.metaAppends)

/-- What a commit leaves in memory. -/
def delta (l : Ledger) (b : Batch) (n : Nat) : Delta :=
  (assertionsDelta l n 0 b.mergedAssertions).append (b.restDelta l n)

theorem assertionsDelta_claims (l : Ledger) (n : Nat) :
    ∀ (op : Nat) (items : List LedgerAssertionWrite),
      (assertionsDelta l n op items).claims = items.map (·.claim) ∧
        (assertionsDelta l n op items).revokes = []
  | _, [] => ⟨rfl, rfl⟩
  | op, item :: items => by
    obtain ⟨hclaims, hrevokes⟩ := assertionsDelta_claims l n (op + 1) items
    have hitem := l.claimMetaDelta_claims item.metaRows item.annotationRows n op
    constructor
    · show item.claim :: (assertionsDelta l n (op + 1) items).claims = _
      rw [hclaims, List.map_cons]
    · show (l.assertionDelta item.claim item.metaRows item.annotationRows n op).revokes ++
        (assertionsDelta l n (op + 1) items).revokes = []
      rw [hrevokes, List.append_nil]
      exact hitem.2

theorem revocationsDelta_revokes (l : Ledger) (n : Nat) :
    ∀ (op : Nat) (items : List LedgerRevocationWrite),
      (revocationsDelta l n op items).revokes = items.map (·.revokes)
  | _, [] => rfl
  | op, item :: items => by
    show item.revokes :: (revocationsDelta l n (op + 1) items).revokes = _
    rw [revocationsDelta_revokes l n (op + 1) items, List.map_cons]

theorem revocationsDelta_claims (l : Ledger) (n : Nat) :
    ∀ (op : Nat) (items : List LedgerRevocationWrite), (revocationsDelta l n op items).claims = []
  | _, [] => rfl
  | op, item :: items => by
    show (l.claimMetaDelta item.metaRows item.annotationRows n op).claims ++
      (revocationsDelta l n (op + 1) items).claims = []
    rw [revocationsDelta_claims l n (op + 1) items, (l.claimMetaDelta_claims _ _ _ _).1]
    rfl

theorem restDelta_revokes (l : Ledger) (b : Batch) (n : Nat) :
    (b.restDelta l n).revokes = b.revocations.map (·.revokes) := by
  unfold restDelta mergedRevocations
  simp only [Delta.append, revocationsDelta_revokes, l.appendsDelta_claims, List.append_nil,
    List.map_map]
  rfl

theorem mergedAssertions_claims (b : Batch) :
    b.mergedAssertions.map (·.claim) = b.assertions.map (·.claim) := by
  unfold mergedAssertions
  rw [List.map_map]
  rfl

/-- What the checks of a commit establish about the ids of its rows. -/
theorem check_ok {l : Ledger} {b : Batch} {n : Nat} (h : b.check l = .ok n) :
    b.txSeq = .ok n ∧
      (∀ item ∈ b.mergedAssertions, startsWith systemPrefix item.claim.predId = false ∧
        ∀ r ∈ item.metaRows, r.asrtId = item.claim.asrtId) ∧
      ∀ item ∈ b.mergedRevocations, ∀ r ∈ item.metaRows, r.asrtId = item.revokes.revokerAsrtId := by
  unfold check at h
  obtain ⟨_, h⟩ := bind_unit_ok_iff.mp h
  obtain ⟨_, h⟩ := bind_unit_ok_iff.mp h
  obtain ⟨m, hseq, h⟩ := bind_ok_iff.mp h
  obtain ⟨hassertions, h⟩ := bind_unit_ok_iff.mp h
  obtain ⟨hrevocations, h⟩ := bind_unit_ok_iff.mp h
  obtain ⟨_, h⟩ := bind_unit_ok_iff.mp h
  cases h
  refine ⟨hseq, ?_, ?_⟩
  · intro item hitem
    have hall := all_of_checks (fun h => checkAssertion_ok h) hassertions fun _ _ _ => rfl
    exact ⟨(hall.2 item hitem).2.1, (hall.2 item hitem).2.2.1⟩
  · intro item hitem
    have hall := all_of_checks (fun h => checkRevocation_ok h) hrevocations fun _ _ _ => rfl
    exact (hall.2 item hitem).2.1

/-- What the statements of a commit and its hook do: first the claims, then the rest. The targets of
its revocations are known, or claims of the batch. -/
theorem writes_parts {l : Ledger} {b : Batch} {n : Nat} (hcheck : b.check l = .ok n)
    {t : Tables} {hook : Hook Indexes StoreErr}
    (h : l.commitBody b n l.tables = .ok (t, hook)) :
    ∃ t₁ h₁ h₂ cs, hook = h₁.andThen h₂ ∧
      Writes l.isLazy n l.tables t₁ h₁ (b.assertions.map (·.claim))
        (assertionsDelta l n 0 b.mergedAssertions) ∧
      Writes l.isLazy n t₁ t h₂ cs (b.restDelta l n) ∧
      ∀ item ∈ b.revocations, (b.target? l.getClaim item.revokes.revokedAsrtId).isSome := by
  obtain ⟨_, hassertions, hrevocations⟩ := check_ok hcheck
  unfold Ledger.commitBody at h
  obtain ⟨t', hbody, h⟩ := bind_ok_iff.mp h
  cases h
  unfold body at hbody
  obtain ⟨_, hbody⟩ := bind_unit_ok_iff.mp hbody
  obtain ⟨t₀, ht₀, hbody⟩ := bind_ok_iff.mp hbody
  obtain ⟨t₁, ht₁, hbody⟩ := bind_ok_iff.mp hbody
  obtain ⟨t₂, ht₂, hbody⟩ := bind_ok_iff.mp hbody
  obtain ⟨t₃, ht₃, hbody⟩ := bind_ok_iff.mp hbody
  cases hbody
  have hswap : Tables.Grown n l.tables t₀ [] [] := by
    rw [(swapHead_ok_iff.mp ht₀).2]
    exact (Tables.Grown.refl n l.tables).ledgerMeta _
  obtain ⟨⟨ms₁, hgrown₁, hmatch₁⟩, hadds₁, hkeeps₁⟩ := writes_assertions (l := l) hassertions ht₁
  rw [mergedAssertions_claims] at hgrown₁ hmatch₁ hkeeps₁
  obtain ⟨cs, hw₂, htargets⟩ := writes_revocations hrevocations ht₂
  obtain ⟨ms₃, hgrown₃, hmatch₃⟩ := Ledger.tables_insertOneByOne l projects ht₃
  have hw₃ : Writes l.isLazy n t₂ (b.upsertMetadata t₃)
      (Hook.each (fun p => appendHook l n p.2 p.1)
        (b.metaAppends.zipIdx (b.assertions.length + b.revocations.length))) []
      (l.appendsDelta projects n (b.assertions.length + b.revocations.length) b.metaAppends) :=
    ⟨⟨ms₃, hgrown₃.ledgerMeta _, hmatch₃⟩, Adds.each fun p _ => adds_appendHook l n p.2 p.1,
      fun _ _ hP _ => Hook.preserves_each fun p _ => keeps_appendHook hP p.2 p.1⟩
  refine ⟨t₁, _, _, cs ++ [], rfl, ⟨⟨ms₁, hswap.trans hgrown₁, hmatch₁⟩, hadds₁, hkeeps₁⟩,
    hw₂.andThen hw₃, ?_⟩
  intro item hitem
  obtain ⟨rows, hmerged⟩ : ∃ rows, { item with annotationRows := rows } ∈ b.mergedRevocations :=
    ⟨_, List.mem_map.mpr ⟨item, hitem, rfl⟩⟩
  have htarget := htargets _ hmerged
  exact htarget

theorem writes_commitBody {l : Ledger} {b : Batch} {n : Nat} (hcheck : b.check l = .ok n)
    {t : Tables} {hook : Hook Indexes StoreErr}
    (h : l.commitBody b n l.tables = .ok (t, hook)) :
    ∃ cs, Writes l.isLazy n l.tables t hook (b.assertions.map (·.claim) ++ cs) (b.delta l n) := by
  obtain ⟨t₁, h₁, h₂, cs, rfl, hw₁, hw₂, _⟩ := writes_parts hcheck h
  exact ⟨cs, hw₁.andThen hw₂⟩

/-- The revocations of a commit are indexed once its claims are. -/
theorem targeted_commitBody {l : Ledger} {b : Batch} {n : Nat} (hcheck : b.check l = .ok n)
    {t : Tables} {hook : Hook Indexes StoreErr}
    (h : l.commitBody b n l.tables = .ok (t, hook)) (hcoherent : l.indexes.Coherent)
    (htargeted : l.indexes.Targeted) : (hook l.indexes).1.Targeted := by
  obtain ⟨t₁, h₁, h₂, cs, rfl, hw₁, hw₂, htargets⟩ := writes_parts hcheck h
  obtain ⟨hclaims, hrevokes⟩ := assertionsDelta_claims l n 0 b.mergedAssertions
  have hafter₁ := hw₁.adds.targeted (by simp [hrevokes]) htargeted
  obtain ⟨d', _, hgrown, hall⟩ := hw₁.adds l.indexes
  unfold Hook.andThen
  rcases hr : h₁ l.indexes with ⟨m, _ | _⟩
  · rw [hr] at hafter₁
    exact hafter₁
  · rw [hr] at hafter₁ hgrown hall
    obtain rfl := hall rfl
    refine hw₂.adds.targeted ?_ hafter₁
    intro r hr
    rw [restDelta_revokes] at hr
    obtain ⟨item, hitem, rfl⟩ := List.mem_map.mp hr
    obtain ⟨target, htarget⟩ := Option.isSome_iff_exists.mp (htargets item hitem)
    rw [hgrown.claims, hclaims, mergedAssertions_claims]
    unfold target? at htarget
    rw [Option.or_eq_some_iff] at htarget
    rcases htarget with hknown | ⟨_, hnew⟩
    · obtain ⟨hmem, hid⟩ := hcoherent.mem_of_get? hknown
      exact ⟨target, List.mem_append_left _ hmem, hid⟩
    · obtain ⟨x, hx, rfl⟩ := Option.map_eq_some_iff.mp hnew
      have hid : x.claim.asrtId = item.revokes.revokedAsrtId := by simpa using List.find?_some hx
      have hmem : x.claim ∈ b.assertions.map (·.claim) :=
        List.mem_map_of_mem (List.mem_of_find?_eq_some hx)
      exact ⟨x.claim, List.mem_append_right _ hmem, hid⟩

/-- Every ledger a commit leaves behind is a step away. -/
theorem step_commitBatch (l : Ledger) (b : Batch) : l.Step (l.commitBatch b).1 := by
  unfold Ledger.commitBatch
  cases hcheck : b.check l with
  | error e => exact .refused
  | ok n =>
    apply Ledger.step_session
    intro t hook h
    obtain ⟨cs, hw⟩ := writes_commitBody hcheck h
    exact ⟨_, _, _, hw, targeted_commitBody hcheck h⟩

end Batch

/-- **What a write can do.** -/
theorem Write.step (l : Ledger) (w : Write) : l.Step (w.run l) := by
  cases w with
  | assertion a => exact l.step_appendAssertion a
  | revocation a => exact l.step_appendRevocation a
  | claim c => exact l.step_appendClaim c
  | metaRows rows => exact l.step_appendMeta rows
  | annotations rows => exact l.step_appendAnnotations rows
  | revokes row => exact l.step_appendRevokes row
  | setLedgerMeta key value => exact l.step_setLedgerMeta key value
  | replaceLedgerMeta key value => exact l.step_replaceLedgerMeta key value
  | replaceTxMetaDefaults rows => exact l.step_replaceTxMetaDefaults rows
  | recordTxMetaDefaults rows => exact l.step_replaceTxMetaDefaults _
  | commit b => exact Batch.step_commitBatch l b

end FactGraph.Store
