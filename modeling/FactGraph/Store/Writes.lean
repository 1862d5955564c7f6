import FactGraph.Store.Coherence

/-!
# What a write can do

A run of a ledger is a list of calls of its public write methods. This file says once, for all of
them, what a call may change: it appends to the lists of the indexes what it wrote (`Delta`), and to
the table `claims` a row for every claim and every revocation among that, in order. A hook that
raises half way has appended a part; a call that returns has appended all of it.

`Ledger.Sound` collects what every reachable ledger satisfies as a consequence: the indexes are
coherent, the arguments in memory are those of the claims in memory, and the claims and
revocations in memory are, in order, among the rows of the table.
-/

namespace FactGraph.Store

open Protocol Check Session

/-! ## The claims of the indexes and their arguments -/

/-- The argument rows of a claim, none if its terms are not canonical. -/
def argsOf (c : Claim) : List ClaimArg :=
  match claimArgsFromRestTerms c.restTerms with
  | .ok rows => Indexes.argRows c.asrtId rows
  | .error _ => []

/-- What a hook appends to the lists of the indexes. -/
structure Delta where
  claims : List Claim := []
  events : List MetaEvent := []
  rows : List MetaRow := []
  revokes : List Revokes := []

namespace Delta

/-- Two deltas, one after the other. -/
def append (d e : Delta) : Delta where
  claims := d.claims ++ e.claims
  events := d.events ++ e.events
  rows := d.rows ++ e.rows
  revokes := d.revokes ++ e.revokes

/-- The deltas of a list of hooks. -/
def concat (ds : List Delta) : Delta := ds.foldr append {}

/-- A part of a delta. -/
structure PartOf (d e : Delta) : Prop where
  claims : d.claims.Sublist e.claims
  events : d.events.Sublist e.events
  rows : d.rows.Sublist e.rows
  revokes : d.revokes.Sublist e.revokes

theorem PartOf.refl (d : Delta) : PartOf d d := ⟨.refl _, .refl _, .refl _, .refl _⟩

theorem PartOf.nil (d : Delta) : PartOf {} d :=
  ⟨List.nil_sublist _, List.nil_sublist _, List.nil_sublist _, List.nil_sublist _⟩

theorem PartOf.append {d e d' e' : Delta} (h : PartOf d d') (k : PartOf e e') :
    PartOf (d.append e) (d'.append e') :=
  ⟨h.claims.append k.claims, h.events.append k.events, h.rows.append k.rows,
    h.revokes.append k.revokes⟩

theorem PartOf.appendRight {d d' : Delta} (h : PartOf d d') (e : Delta) :
    PartOf d (d'.append e) := by
  have := h.append (PartOf.nil e)
  simpa [Delta.append] using this

end Delta

/-- The lists of the indexes after a delta; everything else may differ. -/
structure Indexes.Grown (m m' : Indexes) (d : Delta) : Prop where
  claims : m'.claims = m.claims ++ d.claims
  args : m'.claimArgs = m.claimArgs ++ d.claims.flatMap argsOf
  events : m'.claimMetaEvents = m.claimMetaEvents ++ d.events
  rows : m'.metaRowsData = m.metaRowsData ++ d.rows
  revokes : m'.revokesData = m.revokesData ++ d.revokes
  defaults : m'.txMetaDefaultsByTxSeq = m.txMetaDefaultsByTxSeq

theorem Indexes.Grown.refl (m : Indexes) : Grown m m {} := by
  constructor <;> simp

theorem Indexes.Grown.trans {m m' m'' : Indexes} {d e : Delta} (h : Grown m m' d)
    (k : Grown m' m'' e) : Grown m m'' (d.append e) where
  claims := by simp [k.claims, h.claims, Delta.append]
  args := by simp [k.args, h.args, Delta.append]
  events := by simp [k.events, h.events, Delta.append]
  rows := by simp [k.rows, h.rows, Delta.append]
  revokes := by simp [k.revokes, h.revokes, Delta.append]
  defaults := k.defaults.trans h.defaults

/-- The hook appends a part of `d`, and all of it if it does not raise. -/
def Adds (h : Hook Indexes StoreErr) (d : Delta) : Prop :=
  ∀ m, ∃ d', d'.PartOf d ∧ Indexes.Grown m (h m).1 d' ∧ ((h m).2 = .ok () → d' = d)

namespace Adds

theorem step {f : Indexes → Indexes} {d : Delta} (hf : ∀ m, Indexes.Grown m (f m) d) :
    Adds (Hook.step f) d := fun m => ⟨d, .refl d, hf m, fun _ => rfl⟩

theorem fail (e : StoreErr) (d : Delta) : Adds (Hook.fail e) d := by
  intro m
  refine ⟨{}, .nil d, Indexes.Grown.refl m, ?_⟩
  intro h
  cases h

theorem andThen {h k : Hook Indexes StoreErr} {d e : Delta} (hh : Adds h d) (hk : Adds k e) :
    Adds (h.andThen k) (d.append e) := by
  intro m
  obtain ⟨d', hpart, hgrown, hall⟩ := hh m
  unfold Hook.andThen
  rcases hr : h m with ⟨m', _ | _⟩
  · rw [hr] at hgrown
    exact ⟨d', hpart.appendRight e, hgrown, by simp⟩
  · rw [hr] at hgrown
    obtain ⟨e', hepart, hegrown, heall⟩ := hk m'
    refine ⟨d'.append e', hpart.append hepart, hgrown.trans hegrown, ?_⟩
    intro hok
    rw [hall (by rw [hr]), heall hok]

theorem bind {A : Type} {x : Except StoreErr A} {k : A → Hook Indexes StoreErr} {d : Delta}
    (hk : ∀ a, x = .ok a → Adds (k a) d) : Adds (Hook.bind x k) d := by
  intro m
  unfold Hook.bind
  cases hx : x with
  | error e => exact ⟨{}, .nil d, Indexes.Grown.refl m, by simp⟩
  | ok a => exact hk a hx m

theorem each {A : Type} {h : A → Hook Indexes StoreErr} {d : A → Delta} :
    ∀ {as : List A}, (∀ a ∈ as, Adds (h a) (d a)) → Adds (Hook.each h as) (Delta.concat (as.map d))
  | [], _ => step fun m => Indexes.Grown.refl m
  | a :: as, hall =>
      (hall a (by simp)).andThen (each fun b hb => hall b (List.mem_cons_of_mem a hb))

end Adds

/-! ## The hooks -/

namespace Indexes

/-- Updates that leave every list alone. -/
theorem grown_setTxRef (m : Indexes) (a : String) (n : Nat) : Grown m (m.setTxRef a n) {} := by
  constructor <;> simp [setTxRef]

theorem grown_setOpOrdinal (m : Indexes) (a : String) (n : Nat) :
    Grown m (m.setOpOrdinal a n) {} := by
  constructor <;> simp [setOpOrdinal]

theorem grown_addSystemClaim (m : Indexes) (c : Claim) : Grown m (m.addSystemClaim c) {} := by
  constructor <;> simp [addSystemClaim]

theorem grown_idxAddRevoke (m : Indexes) (r : Revokes) :
    Grown m (m.idxAddRevoke r) { revokes := [r] } := by
  constructor <;> simp [idxAddRevoke]

theorem grown_foldl {α : Type} {f : Indexes → α → Indexes} {d : α → Delta}
    (hf : ∀ m a, Grown m (f m a) (d a)) (as : List α) (m : Indexes) :
    Grown m (as.foldl f m) (Delta.concat (as.map d)) := by
  induction as generalizing m with
  | nil => exact Grown.refl m
  | cons a as ih => exact (hf m a).trans (ih (f m a))

theorem concat_events (es : List MetaEvent) :
    Delta.concat (es.map fun e => { events := [e] }) = { events := es } := by
  induction es with
  | nil => rfl
  | cons e es ih =>
    simp only [List.map_cons, Delta.concat, List.foldr_cons] at ih ⊢
    rw [ih]
    simp [Delta.append]

theorem concat_rows (rs : List MetaRow) :
    Delta.concat (rs.map fun r => { rows := [r] }) = { rows := rs } := by
  induction rs with
  | nil => rfl
  | cons r rs ih =>
    simp only [List.map_cons, Delta.concat, List.foldr_cons] at ih ⊢
    rw [ih]
    simp [Delta.append]

theorem concat_nil {α : Type} (as : List α) : Delta.concat (as.map fun _ => {}) = {} := by
  induction as with
  | nil => rfl
  | cons a as ih =>
    simp only [List.map_cons, Delta.concat, List.foldr_cons] at ih ⊢
    rw [ih]
    simp [Delta.append]

/-- The delta of `idxAddMeta`. -/
theorem grown_idxAddMeta (isLazy : String → Bool) (rows : List MetaRow) (m : Indexes) :
    Grown m (m.idxAddMeta isLazy rows) { rows := rows.filter fun r => !isLazy r.key.text } := by
  have h := grown_foldl (f := addMetaRow) (d := fun r => { rows := [r] })
    (fun m r => by constructor <;> simp [addMetaRow])
    (rows.filter fun r => !isLazy r.key.text) m
  rwa [concat_rows] at h

/-- The events and rows that appended rows leave in memory. -/
def eventsDelta (isLazy : String → Bool) (appends : List MetaAppend) (txSeq op : Nat)
    (projectMeta : Bool) : Delta where
  events := (appends.map (eventOf txSeq op)).filter fun e => !isLazy e.key.text
  rows := if projectMeta then (rowsOf appends).filter fun r => !isLazy r.key.text else []

theorem grown_idxAddClaimMetaEvents (isLazy : String → Bool) (appends : List MetaAppend)
    (txSeq op : Nat) (projectMeta : Bool) (m : Indexes) :
    Grown m (m.idxAddClaimMetaEvents isLazy appends txSeq op projectMeta)
      (eventsDelta isLazy appends txSeq op projectMeta) := by
  have hev := grown_foldl (f := addMetaEvent) (d := fun e => { events := [e] })
    (fun m e => by constructor <;> simp [addMetaEvent])
    ((appends.map (eventOf txSeq op)).filter fun e => !isLazy e.key.text) m
  rw [concat_events] at hev
  unfold idxAddClaimMetaEvents
  cases projectMeta with
  | false => exact hev
  | true =>
    have h := hev.trans (grown_idxAddMeta isLazy (rowsOf appends) _)
    simpa [Delta.append, eventsDelta] using h

theorem grown_addAnnotationRow (m : Indexes) (row : AnnotationRow) : Grown m (m.addAnnotationRow row) {} := by
  unfold addAnnotationRow
  cases Dict.get? m.annoByIdentity row.slot <;> constructor <;> simp [removeAnnotationRow]

theorem grown_idxAddAnnotations (isLazy : String → Bool) (rows : List AnnotationRow) (m : Indexes) :
    Grown m (m.idxAddAnnotations isLazy rows) {} := by
  have h := grown_foldl (f := addAnnotationRow) (d := fun _ => {}) grown_addAnnotationRow
    (rows.filter fun row => !isLazy row.key) m
  rwa [concat_nil] at h

theorem addClaimArgs_claimArgs (a : String) (rows : List ArgRow) (m : Indexes) :
    (m.addClaimArgs a rows).claimArgs = m.claimArgs ++ argRows a rows ∧
      (m.addClaimArgs a rows).claims = m.claims ∧
      (m.addClaimArgs a rows).claimMetaEvents = m.claimMetaEvents ∧
      (m.addClaimArgs a rows).metaRowsData = m.metaRowsData ∧
      (m.addClaimArgs a rows).revokesData = m.revokesData ∧
      (m.addClaimArgs a rows).txMetaDefaultsByTxSeq = m.txMetaDefaultsByTxSeq := by
  unfold addClaimArgs
  generalize argRows a rows = args
  induction args generalizing m with
  | nil => simp
  | cons arg args ih => simpa [addClaimArg] using ih (m.addClaimArg arg)

theorem idxAddClaim_of_ok {claim : Claim} (h : startsWith systemPrefix claim.predId = false)
    {rows : List ArgRow} (hc : claimArgsFromRestTerms claim.restTerms = .ok rows) (m : Indexes) :
    idxAddClaim claim m = ((m.addClaim claim).addClaimArgs claim.asrtId rows, .ok ()) := by
  unfold idxAddClaim
  rw [h, hc]
  rfl

theorem idxAddClaim_of_error {claim : Claim} (h : startsWith systemPrefix claim.predId = false)
    {e : StoreErr} (hc : claimArgsFromRestTerms claim.restTerms = .error e) (m : Indexes) :
    idxAddClaim claim m = (m.addClaim claim, .error e) := by
  unfold idxAddClaim
  rw [h, hc]
  rfl

/-- A claim of the user is appended, whether or not its arguments can be read. -/
theorem grown_idxAddClaim {claim : Claim} (h : startsWith systemPrefix claim.predId = false)
    (m : Indexes) : Grown m (idxAddClaim claim m).1 { claims := [claim] } := by
  cases hc : claimArgsFromRestTerms claim.restTerms with
  | error e =>
    rw [idxAddClaim_of_error h hc]
    constructor <;> simp [addClaim, argsOf, hc]
  | ok rows =>
    rw [idxAddClaim_of_ok h hc]
    obtain ⟨hargs, hclaims, hevents, hrows, hrevokes, hdefaults⟩ :=
      addClaimArgs_claimArgs claim.asrtId rows (m.addClaim claim)
    constructor
    · rw [hclaims]; rfl
    · rw [hargs]; simp [addClaim, argsOf, hc]
    · rw [hevents]; simp [addClaim]
    · rw [hrows]; simp [addClaim]
    · rw [hrevokes]; simp [addClaim]
    · rw [hdefaults]; rfl

theorem adds_idxAddSystemRevocationClaim (claim : Claim) (txRef : Option Nat) :
    Adds (idxAddSystemRevocationClaim claim txRef) {} := by
  unfold idxAddSystemRevocationClaim
  split
  · exact Adds.fail _ _
  split
  · exact Adds.fail _ _
  · apply Adds.step
    intro m
    cases txRef with
    | none => exact grown_addSystemClaim m claim
    | some tx =>
      have h := (grown_addSystemClaim m claim).trans (grown_setTxRef _ claim.asrtId tx)
      simpa [Delta.append] using h

end Indexes

open Indexes

namespace Ledger

/-- The events and rows a claim's initial metadata and annotations leave in memory. -/
def claimMetaDelta (l : Ledger) (metaRows : List MetaRow) (annotationRows : List AnnotationRow)
    (txSeq op : Nat) : Delta :=
  (eventsDelta l.isLazy (metaRows.map .row) txSeq op true).append
    (match annotationCompatibilityMetaRows annotationRows metaRows with
      | .ok rows => eventsDelta l.isLazy (rows.map .row) txSeq op false
      | .error _ => {})

theorem annotationCompatibilityMetaRows_nil {rows : List MetaRow} {out : List MetaRow}
    (h : annotationCompatibilityMetaRows [] rows = .ok out) : out = [] := by
  unfold annotationCompatibilityMetaRows at h
  obtain ⟨_, _, h⟩ := bind_ok_iff.mp h
  simpa [withoutReproducible] using h.symm

theorem adds_claimMetaHook (l : Ledger) (metaRows : List MetaRow)
    (annotationRows : List AnnotationRow) (txSeq op : Nat) :
    Adds (l.claimMetaHook metaRows annotationRows txSeq op)
      (l.claimMetaDelta metaRows annotationRows txSeq op) := by
  unfold claimMetaHook claimMetaDelta
  apply Adds.andThen
  · exact Adds.step fun m => grown_idxAddClaimMetaEvents _ _ _ _ _ m
  · by_cases hempty : annotationRows.isEmpty = true
    · rw [if_pos hempty]
      simp only [List.isEmpty_iff] at hempty
      subst hempty
      cases hc : annotationCompatibilityMetaRows [] metaRows with
      | error e => exact Adds.step fun m => Grown.refl m
      | ok rows =>
        rw [annotationCompatibilityMetaRows_nil hc]
        exact Adds.step fun m => by simpa [eventsDelta, rowsOf] using Grown.refl m
    · rw [if_neg hempty]
      apply Adds.bind
      intro rows hrows
      rw [hrows]
      apply Adds.step
      intro m
      have h := (grown_idxAddClaimMetaEvents l.isLazy (rows.map .row) txSeq op false m).trans
        (grown_idxAddAnnotations l.isLazy annotationRows _)
      simpa [Delta.append] using h

/-- What a claim of the user leaves in memory. -/
def assertionDelta (l : Ledger) (claim : Claim) (metaRows : List MetaRow)
    (annotationRows : List AnnotationRow) (txSeq op : Nat) : Delta :=
  { l.claimMetaDelta metaRows annotationRows txSeq op with claims := [claim] }

theorem claimMetaDelta_claims (l : Ledger) (metaRows : List MetaRow)
    (annotationRows : List AnnotationRow) (txSeq op : Nat) :
    (l.claimMetaDelta metaRows annotationRows txSeq op).claims = [] ∧
      (l.claimMetaDelta metaRows annotationRows txSeq op).revokes = [] := by
  unfold claimMetaDelta
  cases annotationCompatibilityMetaRows annotationRows metaRows <;>
    simp [Delta.append, eventsDelta]

theorem adds_assertionHook (l : Ledger) {claim : Claim}
    (hclaim : startsWith systemPrefix claim.predId = false) (metaRows : List MetaRow)
    (annotationRows : List AnnotationRow) (txSeq op : Nat) :
    Adds (l.assertionHook claim metaRows annotationRows txSeq op)
      (l.assertionDelta claim metaRows annotationRows txSeq op) := by
  have hrefs : Adds (Hook.step fun m : Indexes =>
      (m.setTxRef claim.asrtId txSeq).setOpOrdinal claim.asrtId op) {} := by
    apply Adds.step
    intro m
    have h := (grown_setTxRef m claim.asrtId txSeq).trans (grown_setOpOrdinal _ claim.asrtId op)
    simpa [Delta.append] using h
  have hidx : Adds (idxAddClaim claim) { claims := [claim] } := fun m =>
    ⟨_, .refl _, grown_idxAddClaim hclaim m, fun _ => rfl⟩
  have h := hrefs.andThen (hidx.andThen (l.adds_claimMetaHook metaRows annotationRows txSeq op))
  have hd := l.claimMetaDelta_claims metaRows annotationRows txSeq op
  have heq : ({} : Delta).append (({ claims := [claim] } : Delta).append
      (l.claimMetaDelta metaRows annotationRows txSeq op)) =
      l.assertionDelta claim metaRows annotationRows txSeq op := by
    simp [Delta.append, assertionDelta, hd.1, hd.2]
  rwa [heq] at h

end Ledger

/-! ## The tables -/

/-- What `_insert_claim` checked of a claim it wrote. -/
structure Claim.Storable (c : Claim) : Prop where
  identity : validateClaimIdentity c.asrtId c.predId c.eRef = .ok ()
  terms : normalizeTerms c.restTerms = .ok ()
  encoded : ∃ s, encodeTerms c.restTerms = .ok s

theorem Claim.Storable.asrtId_ne_empty {c : Claim} (h : c.Storable) : c.asrtId ≠ "" := by
  have hid := h.identity
  unfold validateClaimIdentity at hid
  simpa using (bind_unit_ok_iff.mp hid).1

/-- The row a claim is stored as, up to its sequence number. -/
structure ClaimRow.Of (txSeq : Nat) (r : ClaimRow) (c : Claim) : Prop where
  asrtId : r.asrtId = c.asrtId
  predId : r.predId = c.predId
  eRef : r.eRef = c.eRef
  terms : encodeTerms c.restTerms = .ok r.terms
  txRef : r.txRef = txSeq

/-- Rows were appended: those of the claims `cs`, and the metadata rows `ms`. -/
structure Tables.Grown (txSeq : Nat) (t t' : Tables) (cs : List Claim) (ms : List ClaimMetaRow) :
    Prop where
  claims : ∃ rows, t'.claims.rows = t.claims.rows ++ rows ∧
    List.Forall₂ (ClaimRow.Of txSeq) rows cs
  storable : ∀ c ∈ cs, c.Storable
  claimMeta : t'.claimMeta.rows = t.claimMeta.rows ++ ms
  txSeqs : ∀ r ∈ ms, r.txSeq = txSeq

namespace Tables

variable {n : Nat} {t t' t'' : Tables}

theorem Grown.refl (n : Nat) (t : Tables) : Grown n t t [] [] :=
  ⟨⟨[], by simp⟩, by simp, by simp, by simp⟩

theorem Grown.trans {cs cs' : List Claim} {ms ms' : List ClaimMetaRow} (h : Grown n t t' cs ms)
    (k : Grown n t' t'' cs' ms') : Grown n t t'' (cs ++ cs') (ms ++ ms') := by
  obtain ⟨rows, hrows, hof⟩ := h.claims
  obtain ⟨rows', hrows', hof'⟩ := k.claims
  refine ⟨⟨rows ++ rows', ?_, List.rel_append hof hof'⟩, ?_, ?_, ?_⟩
  · rw [hrows', hrows, List.append_assoc]
  · intro c hc
    rcases List.mem_append.mp hc with hc | hc
    · exact h.storable c hc
    · exact k.storable c hc
  · rw [k.claimMeta, h.claimMeta, List.append_assoc]
  · intro r hr
    rcases List.mem_append.mp hr with hr | hr
    · exact h.txSeqs r hr
    · exact k.txSeqs r hr

/-- A change of `ledger_meta` only. -/
theorem Grown.ledgerMeta {cs : List Claim} {ms : List ClaimMetaRow} (h : Grown n t t' cs ms)
    (ledgerMeta : List (String × String)) : Grown n t { t' with ledgerMeta } cs ms :=
  ⟨h.claims, h.storable, h.claimMeta, h.txSeqs⟩

theorem grown_insertClaim {claim : Claim} (h : t.insertClaim claim n = .ok t') :
    Grown n t t' [claim] [] := by
  unfold insertClaim at h
  obtain ⟨claims, hclaims, h⟩ := bind_ok_iff.mp h
  cases h
  unfold ClaimsTable.insertClaim at hclaims
  obtain ⟨hid, hclaims⟩ := bind_unit_ok_iff.mp hclaims
  obtain ⟨hterms, hclaims⟩ := bind_unit_ok_iff.mp hclaims
  obtain ⟨terms, hencode, hinsert⟩ := bind_ok_iff.mp hclaims
  unfold ClaimsTable.insert at hinsert
  split at hinsert
  · cases hinsert
  · cases hinsert
    exact ⟨⟨_, rfl, .cons ⟨rfl, rfl, rfl, hencode, rfl⟩ .nil⟩,
      by simpa using ⟨hid, hterms, terms, hencode⟩, by simp, by simp⟩

theorem insert_rows {m m' : MetaTable} {r : ClaimMetaRow} (h : m.insert r = .ok m') :
    m'.rows = m.rows ++ [r] := by
  unfold MetaTable.insert at h
  split at h
  · cases h
  · cases h
    rfl

theorem insertAll_rows {rs : List ClaimMetaRow} {m m' : MetaTable}
    (h : rs.foldlM (fun m r => m.insert r) m = .ok m') : m'.rows = m.rows ++ rs := by
  induction rs generalizing m with
  | nil =>
    cases h
    simp
  | cons r rs ih =>
    rw [List.foldlM_cons] at h
    obtain ⟨m₁, hm₁, h⟩ := bind_ok_iff.mp h
    rw [ih h, insert_rows hm₁, List.append_assoc]
    rfl

/-- The events of appended rows and the rows they are stored as share their primary keys. -/
theorem encodeAppend_key {a : MetaAppend} {asrtId : String} {op : Nat} {r : ClaimMetaRow}
    (h : encodeAppend asrtId n op a = .ok r) :
    r.primaryKey = (asrtId, a.key.text, n, op) ∧ r.txSeq = n ∧ r.key = a.key ∧
      r.asrtId = asrtId := by
  cases a with
  | row row =>
    unfold encodeAppend at h
    cases hs : encodeMetaValue row.kind row.value with
    | error e => simp [hs, Except.map] at h
    | ok s =>
      simp only [hs, Except.map, Except.ok.injEq] at h
      subst h
      exact ⟨rfl, rfl, rfl, rfl⟩
  | unset u =>
    cases h
    exact ⟨rfl, rfl, rfl, rfl⟩

theorem grown_insertMetaRows {appends : List MetaAppend} {asrtId : String} {op : Nat}
    (h : t.insertMetaRows asrtId n op appends = .ok t') :
    ∃ ms, Grown n t t' [] ms ∧
      ms.map (·.primaryKey) = appends.map fun a => (asrtId, a.key.text, n, op) := by
  unfold insertMetaRows at h
  obtain ⟨m, hm, h⟩ := bind_ok_iff.mp h
  cases h
  unfold MetaTable.insertMetaRows at hm
  obtain ⟨rows, hrows, hm⟩ := bind_ok_iff.mp hm
  refine ⟨rows, ⟨⟨[], by simp⟩, by simp, insertAll_rows hm, ?_⟩, ?_⟩
  · intro r hr
    obtain ⟨a, _, ha⟩ := mem_of_mapOk hrows hr
    exact (encodeAppend_key ha).2.1
  · exact map_of_mapOk hrows fun a r ha => (encodeAppend_key ha).1

end Tables

/-! ## Both sides of a write -/

/-- The primary key of an event. -/
def MetaEvent.primaryKey (e : MetaEvent) : String × String × Nat × Nat :=
  (e.asrtId, e.key.text, e.txSeq, e.opOrdinal)

/-- Is this a claim of the user? -/
def Claim.isUser (c : Claim) : Bool := !startsWith systemPrefix c.predId

/-- The rows a write inserts and what its hook appends belong together. -/
structure Matches (cs : List Claim) (ms : List ClaimMetaRow) (d : Delta) : Prop where
  claims : d.claims = cs.filter Claim.isUser
  revokes : d.revokes.map (·.revokerAsrtId) = (cs.filter fun c => !c.isUser).map (·.asrtId)
  events : (d.events.map MetaEvent.primaryKey).Sublist (ms.map ClaimMetaRow.primaryKey)

theorem Matches.nil : Matches [] [] {} := ⟨rfl, rfl, List.Sublist.refl _⟩

theorem Matches.append {cs cs' : List Claim} {ms ms' : List ClaimMetaRow} {d d' : Delta}
    (h : Matches cs ms d) (k : Matches cs' ms' d') :
    Matches (cs ++ cs') (ms ++ ms') (d.append d') where
  claims := by simp [Delta.append, h.claims, k.claims]
  revokes := by simp [Delta.append, h.revokes, k.revokes]
  events := by
    simp only [Delta.append, List.map_append]
    exact h.events.append k.events

/-- The hook keeps whatever the writes of the claims `cs` at `n` keep. -/
def Keeps (isLazy : String → Bool) (n : Nat) (cs : List Claim) (hook : Hook Indexes StoreErr) :
    Prop :=
  ∀ (ids : String → Prop) (P : Indexes → Prop), Stable isLazy n ids P → (∀ c ∈ cs, ids c.asrtId) →
    Hook.Preserves P hook

theorem Keeps.andThen {isLazy : String → Bool} {n : Nat} {cs cs' : List Claim} {h k : Hook Indexes StoreErr}
    (hh : Keeps isLazy n cs h) (hk : Keeps isLazy n cs' k) : Keeps isLazy n (cs ++ cs') (h.andThen k) := by
  intro ids P hP hids
  exact (hh ids P hP fun c hc => hids c (List.mem_append_left _ hc)).andThen
    (hk ids P hP fun c hc => hids c (List.mem_append_right _ hc))

/-- A write, its two sides together: `body` turns the tables into `t'` and hands on `hook`. -/
structure Writes (isLazy : String → Bool) (n : Nat) (t t' : Tables) (hook : Hook Indexes StoreErr)
    (cs : List Claim) (d : Delta) : Prop where
  tables : ∃ ms, Tables.Grown n t t' cs ms ∧ Matches cs ms d
  adds : Adds hook d
  keeps : Keeps isLazy n cs hook

/-- Every write keeps the indexes coherent. -/
theorem Writes.coherent {isLazy : String → Bool} {n : Nat} {t t' : Tables}
    {hook : Hook Indexes StoreErr} {cs : List Claim} {d : Delta}
    (h : Writes isLazy n t t' hook cs d) : Hook.Preserves Coherent hook :=
  h.keeps (fun _ => True) Coherent (stable_coherent isLazy n _) fun _ _ => trivial

theorem Writes.refl (isLazy : String → Bool) (n : Nat) (t : Tables) : Writes isLazy n t t (Hook.step id) [] {} :=
  ⟨⟨[], Tables.Grown.refl n t, .nil⟩, Adds.step fun m => Indexes.Grown.refl m,
    fun _ _ _ _ _ hm => hm⟩

theorem Writes.andThen {isLazy : String → Bool} {n : Nat} {t t' t'' : Tables}
    {h k : Hook Indexes StoreErr} {cs cs' : List Claim} {d d' : Delta}
    (hw : Writes isLazy n t t' h cs d) (kw : Writes isLazy n t' t'' k cs' d') :
    Writes isLazy n t t'' (h.andThen k) (cs ++ cs') (d.append d') := by
  obtain ⟨ms, hgrown, hmatch⟩ := hw.tables
  obtain ⟨ms', kgrown, kmatch⟩ := kw.tables
  exact ⟨⟨ms ++ ms', hgrown.trans kgrown, hmatch.append kmatch⟩, hw.adds.andThen kw.adds,
    hw.keeps.andThen kw.keeps⟩

/-- Metadata rows and the events they leave in memory. -/
theorem writes_events {n : Nat} {t t' : Tables} (isLazy : String → Bool) (appends : List MetaAppend)
    {asrtId : String} {op : Nat} (projectMeta : Bool)
    (hids : ∀ a ∈ appends, a.asrtId = asrtId)
    (h : t.insertMetaRows asrtId n op appends = .ok t') :
    Writes isLazy n t t' (Hook.step (Indexes.idxAddClaimMetaEvents isLazy appends n op projectMeta)) []
      (eventsDelta isLazy appends n op projectMeta) := by
  obtain ⟨ms, hgrown, hkeys⟩ := Tables.grown_insertMetaRows h
  refine ⟨⟨ms, hgrown, ⟨rfl, rfl, ?_⟩⟩, Adds.step fun m => grown_idxAddClaimMetaEvents _ _ _ _ _ m,
    fun _ _ hP _ _ hm => hP.idxAddClaimMetaEvents hm _ _ _⟩
  have hevents : (appends.map (eventOf n op)).map MetaEvent.primaryKey =
      appends.map fun a => (asrtId, a.key.text, n, op) := by
    rw [List.map_map]
    apply List.map_congr_left
    intro a ha
    rw [← hids a ha]
    cases a <;> rfl
  rw [hkeys, ← hevents]
  exact List.Sublist.map _ List.filter_sublist

theorem eventsDelta_cons (isLazy : String → Bool) (a : MetaAppend) (as : List MetaAppend)
    (n op : Nat) (projectMeta : Bool) :
    eventsDelta isLazy (a :: as) n op projectMeta =
      (eventsDelta isLazy [a] n op projectMeta).append (eventsDelta isLazy as n op projectMeta) := by
  have hcons : a :: as = [a] ++ as := rfl
  rw [hcons]
  cases projectMeta <;>
    simp only [eventsDelta, Delta.append, List.map_append, List.filter_append, rowsOf,
      List.filterMap_append, if_true, List.append_nil, Bool.false_eq_true, if_false]

/-- Compatibility rows are inserted one statement each, and indexed together. -/
theorem tables_insertRows {n op : Nat} (isLazy : String → Bool) :
    ∀ {rows : List MetaRow} {t t' : Tables},
      rows.foldlM (fun t r => t.insertMetaRows r.asrtId n op [.row r]) t = .ok t' →
      ∃ ms, Tables.Grown n t t' [] ms ∧
        Matches [] ms (eventsDelta isLazy (rows.map .row) n op false) := by
  intro rows
  induction rows with
  | nil =>
    intro t t' h
    cases h
    exact ⟨[], Tables.Grown.refl n t, by simpa [eventsDelta] using Matches.nil⟩
  | cons r rows ih =>
    intro t t' h
    rw [List.foldlM_cons] at h
    obtain ⟨t₁, ht₁, h⟩ := bind_ok_iff.mp h
    have hr := writes_events isLazy [.row r] false (by simp [MetaAppend.asrtId]) ht₁
    obtain ⟨ms, hgrown, hmatch⟩ := hr.tables
    obtain ⟨ms', hgrown', hmatch'⟩ := ih h
    refine ⟨ms ++ ms', hgrown.trans hgrown', ?_⟩
    rw [List.map_cons, eventsDelta_cons]
    exact hmatch.append hmatch'

namespace Ledger

/-- `_insert_annotation_rows` and its compatibility events. -/
theorem tables_insertAnnotationRows {l : Ledger} {n op : Nat} {t t' : Tables}
    {annotationRows : List AnnotationRow} {metaRows : List MetaRow}
    (h : t.insertAnnotationRows annotationRows n op metaRows = .ok t') :
    ∃ compatibility ms, annotationCompatibilityMetaRows annotationRows metaRows = .ok compatibility ∧
      Tables.Grown n t t' [] ms ∧
      Matches [] ms (eventsDelta l.isLazy (compatibility.map .row) n op false) := by
  unfold Tables.insertAnnotationRows at h
  obtain ⟨compatibility, hc, h⟩ := bind_ok_iff.mp h
  obtain ⟨ms, hgrown, hmatch⟩ := tables_insertRows l.isLazy h
  exact ⟨compatibility, ms, hc, hgrown, hmatch⟩

/-- The rows of one claim, user or system, with its metadata and annotations. -/
theorem tables_insertAssertion {l : Ledger} {n op : Nat} {t t' : Tables} {claim : Claim}
    {metaRows : List MetaRow} {annotationRows : List AnnotationRow}
    (hids : ∀ r ∈ metaRows, r.asrtId = claim.asrtId)
    (h : insertAssertion t claim metaRows annotationRows n op = .ok t') :
    ∃ ms, Tables.Grown n t t' [claim] ms ∧
      Matches [] ms (l.claimMetaDelta metaRows annotationRows n op) := by
  unfold insertAssertion at h
  obtain ⟨t₁, ht₁, h⟩ := bind_ok_iff.mp h
  obtain ⟨t₂, ht₂, h⟩ := bind_ok_iff.mp h
  have hclaim := Tables.grown_insertClaim ht₁
  have hmeta := writes_events l.isLazy (metaRows.map .row) true
    (by
      intro a ha
      obtain ⟨r, hr, rfl⟩ := List.mem_map.mp ha
      exact hids r hr) ht₂
  obtain ⟨ms, hgrown, hmatch⟩ := hmeta.tables
  unfold claimMetaDelta
  by_cases hempty : annotationRows.isEmpty = true
  · rw [if_pos hempty] at h
    cases h
    simp only [List.isEmpty_iff] at hempty
    subst hempty
    refine ⟨ms, by simpa using hclaim.trans hgrown, ?_⟩
    have hnil : (match annotationCompatibilityMetaRows [] metaRows with
        | .ok rows => eventsDelta l.isLazy (rows.map .row) n op false
        | .error _ => {}) = ({} : Delta) := by
      cases hc : annotationCompatibilityMetaRows [] metaRows with
      | error e => rfl
      | ok rows =>
        rw [annotationCompatibilityMetaRows_nil hc]
        rfl
    rw [hnil]
    simpa [Delta.append] using hmatch
  · rw [if_neg hempty] at h
    obtain ⟨compatibility, ms', hc, hgrown', hmatch'⟩ := tables_insertAnnotationRows (l := l) h
    refine ⟨ms ++ ms', by simpa using hclaim.trans (hgrown.trans hgrown'), ?_⟩
    rw [hc]
    simpa using hmatch.append hmatch'

/-- **A claim of the user**, written. -/
theorem writes_assertion {l : Ledger} {n op : Nat} {t t' : Tables} {claim : Claim}
    (hclaim : startsWith systemPrefix claim.predId = false) {metaRows : List MetaRow}
    {annotationRows : List AnnotationRow} (hids : ∀ r ∈ metaRows, r.asrtId = claim.asrtId)
    (h : insertAssertion t claim metaRows annotationRows n op = .ok t') :
    Writes l.isLazy n t t' (l.assertionHook claim metaRows annotationRows n op) [claim]
      (l.assertionDelta claim metaRows annotationRows n op) := by
  obtain ⟨ms, hgrown, hmatch⟩ := tables_insertAssertion (l := l) hids h
  have hd := l.claimMetaDelta_claims metaRows annotationRows n op
  refine ⟨⟨ms, hgrown, ⟨?_, ?_, hmatch.events⟩⟩, l.adds_assertionHook hclaim _ _ _ _,
    fun _ _ hP hc => Ledger.keeps_assertionHook hP (hc claim List.mem_cons_self) _ _ _⟩
  · simp [assertionDelta, Claim.isUser, hclaim]
  · simp [assertionDelta, Claim.isUser, hclaim, hd.2]

theorem isUser_revokeClaim (r : Revokes) (target : Claim) :
    (revokeClaim r target).isUser = false := by
  have h : startsWith systemPrefix revocationPredicate = true := by decide
  simp [Claim.isUser, revokeClaim, h]

/-- Recording a revocation, then what else its hook does. -/
theorem adds_recordRevocation (claim : Claim) {revokes : Revokes} {n op : Nat}
    {hook : Hook Indexes StoreErr} {d : Delta} (hadds : Adds hook d)
    (hd : d.claims = [] ∧ d.revokes = []) :
    Adds ((idxAddSystemRevocationClaim claim (some n)).andThen
        ((Hook.step fun m => (m.setOpOrdinal revokes.revokerAsrtId op).idxAddRevoke revokes).andThen
          hook)) { d with revokes := [revokes] } := by
  have hrecord : Adds (Hook.step fun m : Indexes =>
      (m.setOpOrdinal revokes.revokerAsrtId op).idxAddRevoke revokes) { revokes := [revokes] } := by
    apply Adds.step
    intro m
    have h := (grown_setOpOrdinal m revokes.revokerAsrtId op).trans (grown_idxAddRevoke _ revokes)
    simpa [Delta.append] using h
  have h := (adds_idxAddSystemRevocationClaim claim (some n)).andThen (hrecord.andThen hadds)
  have heq : ({} : Delta).append (({ revokes := [revokes] } : Delta).append d) =
      { d with revokes := [revokes] } := by
    simp [Delta.append, hd.1, hd.2]
  rwa [heq] at h

/-- **A revocation**, written. -/
theorem writes_revocation {l : Ledger} {n op : Nat} {t t' : Tables} {revokes : Revokes}
    {target : Claim} {metaRows : List MetaRow} {annotationRows : List AnnotationRow}
    {hook : Hook Indexes StoreErr} {d : Delta}
    (hids : ∀ r ∈ metaRows, r.asrtId = revokes.revokerAsrtId)
    (h : insertRevocation t (revokeClaim revokes target) metaRows annotationRows n op = .ok t')
    (hadds : Adds hook { d with revokes := [revokes] })
    (hkeeps : Keeps l.isLazy n [revokeClaim revokes target] hook)
    (hd : d.claims = [])
    (hpart : d.events.Sublist (l.claimMetaDelta metaRows annotationRows n op).events) :
    Writes l.isLazy n t t' hook [revokeClaim revokes target] { d with revokes := [revokes] } := by
  obtain ⟨ms, hgrown, hmatch⟩ := tables_insertAssertion (l := l) hids h
  have huser := isUser_revokeClaim revokes target
  refine ⟨⟨ms, hgrown, ⟨?_, ?_, ?_⟩⟩, hadds, hkeeps⟩
  · simp [huser, hd]
  · rw [List.filter_singleton, huser]
    rfl
  · exact (hpart.map _).trans hmatch.events

end Ledger

end FactGraph.Store
