import FactGraph.Db.Commits
import FactGraph.Entity.StoreRoute

/-!
# The Database route

Operations that are committed together write what `Coalesce.batched` writes: the loop decides which
inputs it keeps before anything is written. `KeptAt` is where the loop stands.

The Store route asks the ledger at each step who holds an ingest key; the Database route asks once,
before anything is retracted, and takes the retractions of the whole list into account. The two are
compared as functions of the events of the list (`Coalesce.stepwise`, `Coalesce.batched`), where only
keys and holders are left; what a write stores under its key is the same on both routes.
-/

namespace FactGraph.Entity

open Protocol Store Check Evidence Coalesce

/-- The active claim the ledger finds under the key, its first, is one that is let go; or it finds
none. A second active claim under the key is not asked. -/
def free (l : Ledger) (targets : List String) (key : String) : Bool :=
  ((findActiveAssertionByIngestKey l key).filter (· ∉ targets)).isNone

/-- The inputs and the writes they were made of. -/
def Translates (input : Db.AssertionInput) (x : String × FieldWrite) : Prop :=
  ∀ id, input.claim id = x.2.claim id

/-- Where the loop stands: the writes it keeps, and the claims that were let go. -/
structure KeptAt (l : Ledger) (seen gone : List String) (written : List (String × FieldWrite))
    (k : Kept) : Prop where
  assertions : List.Forall₂ Translates k.assertions written
  seen : ∀ key, (Dict.get? k.byIngestKey key).isSome ↔ key ∈ seen
  revocations : ∀ a, a ∈ k.revocations.map (·.revokedAsrtId) ↔
    a ∈ gone ∧ l.hasActiveRevocation a = false
  targets : ∀ a, (Dict.get? k.byTarget a).isSome ↔ a ∈ k.revocations.map (·.revokedAsrtId)

/-! ## One turn -/

section

variable {host : Host} {index : SchemaIndex} {l : Ledger} {targets seen gone : List String}
  {written : List (String × FieldWrite)} {k k' : Kept}

theorem KeptAt.empty : KeptAt l [] [] [] {} where
  assertions := .nil
  seen := by simp [Dict.get?]
  revocations := by simp
  targets := by simp [Dict.get?]

theorem KeptAt.keep (h : KeptAt l seen gone written k) {input : Db.AssertionInput}
    {x : String × FieldWrite} (hx : Translates input x) :
    KeptAt l seen gone (written ++ [x]) (k.keepAssertion input) where
  assertions := List.rel_append h.assertions (.cons hx .nil)
  seen := h.seen
  revocations := h.revocations
  targets := h.targets

/-- A coalesced write is kept if its key is free and not seen. -/
theorem KeptAt.set (h : KeptAt l seen gone written k) {input : Db.AssertionInput}
    {x : String × FieldWrite} (hx : Translates input x) :
    if free l targets x.1 ∧ x.1 ∉ seen then
      KeptAt l (x.1 :: seen) gone (written ++ [x]) (k.set l targets input x.1)
    else KeptAt l seen gone written (k.set l targets input x.1) := by
  unfold Kept.set free
  cases hfind : (findActiveAssertionByIngestKey l x.1).filter (· ∉ targets) with
  | some existing =>
    rw [if_neg (by simp)]
    exact ⟨h.assertions, h.seen, h.revocations, h.targets⟩
  | none =>
    simp only [Option.isNone_none, true_and]
    have hseen := h.seen x.1
    cases hget : Dict.get? k.byIngestKey x.1 with
    | some kept =>
      have hmem : x.1 ∈ seen := hseen.mp (by rw [hget]; rfl)
      rw [if_neg (not_not_intro hmem)]
      exact ⟨h.assertions, h.seen, h.revocations, h.targets⟩
    | none =>
      have hmem : x.1 ∉ seen := by
        intro hmem
        have hsome := hseen.mpr hmem
        rw [hget] at hsome
        cases hsome
      rw [if_pos hmem]
      refine ⟨List.rel_append h.assertions (.cons hx .nil), ?_, h.revocations, h.targets⟩
      intro key
      show (Dict.get? (Dict.set k.byIngestKey x.1 k.assertions.length) key).isSome ↔ _
      rw [Dict.get?_set, List.mem_cons]
      by_cases hkey : key = x.1
      · simp [hkey]
      · rw [if_neg hkey, h.seen]
        simp [hkey]

/-- A retraction is kept if its target is not revoked, and was not named before. -/
theorem KeptAt.retract (h : KeptAt l seen gone written k) (hl : l.Sound) {enforce : Bool}
    {input : Db.RevocationInput} (hk : k.retract index l enforce input = .ok k') :
    KeptAt l seen (input.revokedAsrtId :: gone) written k' := by
  unfold Kept.retract at hk
  -- a target that is revoked already, or that a kept revocation names, is not kept again
  cases hfind : l.findRevoker input.revokedAsrtId with
  | some existing =>
    simp only [hfind] at hk
    cases hk
    have hrevoked : l.hasActiveRevocation input.revokedAsrtId = true := by
      rw [← Bool.not_eq_false, ← findRevoker_none_iff hl, hfind]
      simp
    refine ⟨h.assertions, h.seen, ?_, h.targets⟩
    intro a
    show a ∈ k.revocations.map _ ↔ _
    rw [h.revocations, List.mem_cons]
    constructor
    · exact fun ⟨hgone, hactive⟩ => ⟨.inr hgone, hactive⟩
    · rintro ⟨rfl | hgone, hactive⟩
      · rw [hrevoked] at hactive
        cases hactive
      · exact ⟨hgone, hactive⟩
  | none =>
    simp only [hfind] at hk
    have hactive := (findRevoker_none_iff hl).mp hfind
    cases htarget : Dict.get? k.byTarget input.revokedAsrtId with
    | some kept =>
      simp only [htarget] at hk
      cases hk
      have hgone := (h.revocations _).mp ((h.targets _).mp (by rw [htarget]; rfl))
      refine ⟨h.assertions, h.seen, ?_, h.targets⟩
      intro a
      show a ∈ k.revocations.map _ ↔ _
      rw [h.revocations, List.mem_cons]
      constructor
      · exact fun ⟨hmem, ha⟩ => ⟨.inr hmem, ha⟩
      · rintro ⟨rfl | hmem, ha⟩
        · exact hgone
        · exact ⟨hmem, ha⟩
    | none =>
      simp only [htarget] at hk
      have hkept : k' = k.keepRevocation input := by
        split at hk
        · obtain ⟨_, hk⟩ := bind_unit_ok_iff.mp hk
          exact (Except.ok.inj hk).symm
        · exact (Except.ok.inj hk).symm
      subst hkept
      refine ⟨h.assertions, h.seen, ?_, ?_⟩
      · intro a
        show a ∈ (k.revocations ++ [input]).map _ ↔ _
        rw [List.map_append, List.mem_append, h.revocations, List.mem_cons]
        simp only [List.map_cons, List.map_nil, List.mem_singleton]
        constructor
        · rintro (⟨hmem, ha⟩ | rfl)
          · exact ⟨.inr hmem, ha⟩
          · exact ⟨.inl rfl, hactive⟩
        · rintro ⟨rfl | hmem, ha⟩
          · exact .inr rfl
          · exact .inl ⟨hmem, ha⟩
      · intro a
        show (Dict.get? (Dict.set k.byTarget input.revokedAsrtId _) a).isSome ↔
          a ∈ (k.revocations ++ [input]).map _
        rw [Dict.get?_set, List.map_append, List.mem_append, ← h.targets]
        by_cases ha : a = input.revokedAsrtId
        · simp [ha]
        · simp [ha]

/-- The input of a write. -/
theorem toInput_put {host : Host} {write : Except Fault FieldWrite} {always : Bool}
    {e : Event String FieldWrite String} {now : Int64} {input : Input}
    (hevent : putEvent host write always = .ok e)
    (h : (do
      let w ← write
      let (entries, ingestKey) ← lift (assertionMetaEntries host w now)
      .ok (Input.assertion ⟨w.predId, ("entity_ref", .leaf (.str w.eRef)) :: w.restTerms, entries⟩
        ingestKey)) = Except.ok input) :
    ∃ key w assertion, e = .put key w always ∧ input = .assertion assertion key ∧
      Translates assertion (key, w) := by
  obtain ⟨w, m, key, hw, hprepare, rfl⟩ := putEvent_ok_iff.mp hevent
  rw [hw, ok_bind] at h
  obtain ⟨⟨entries, key'⟩, hentries, h⟩ := bind_ok_iff.mp h
  cases h
  -- both routes take the digest of the same metadata
  obtain ⟨m', hm', hentries⟩ := bind_ok_iff.mp (lift_ok_iff.mp hentries)
  obtain ⟨key'', hkey'', hentries⟩ := bind_ok_iff.mp hentries
  obtain ⟨_, _, hentries⟩ := bind_ok_iff.mp hentries
  cases hentries
  unfold FieldWrite.prepare at hprepare
  obtain ⟨_, hprepare⟩ := bind_unit_ok_iff.mp hprepare
  obtain ⟨m'', hm'', hprepare⟩ := bind_ok_iff.mp hprepare
  obtain ⟨key₃, hkey, hprepare⟩ := bind_ok_iff.mp hprepare
  cases hprepare
  rw [hm'] at hm''
  cases hm''
  rw [hkey] at hkey''
  cases hkey''
  exact ⟨key, w, _, rfl, rfl, fun id => rfl⟩

/-- **One turn of the loop.** -/
theorem KeptAt.turn (h : KeptAt l seen gone written k) (hl : l.Sound) {enforce : Bool}
    {op : PlannedOp} {e : Event String FieldWrite String} (hevent : op.event host index = .ok e)
    {now : Int64} {input : Input} (hinput : toInput host index op now = .ok input)
    (hk : Kept.turn index l enforce targets k (op, input) = .ok k') :
    (∃ key w, e = .put key w true ∧ KeptAt l seen gone (written ++ [(key, w)]) k') ∨
    (∃ key w, e = .put key w false ∧
      if free l targets key ∧ key ∉ seen then
        KeptAt l (key :: seen) gone (written ++ [(key, w)]) k'
      else KeptAt l seen gone written k') ∨
    ∃ target, e = .gone target ∧ KeptAt l seen (target :: gone) written k' := by
  cases op with
  | retract target fieldName assertionId m =>
    cases hevent
    obtain ⟨_, _, hinput⟩ := bind_ok_iff.mp hinput
    obtain ⟨entries, _, hinput⟩ := bind_ok_iff.mp hinput
    cases hinput
    exact .inr (.inr ⟨assertionId, rfl, h.retract hl hk⟩)
  | recordExists target m =>
    obtain ⟨key, w, assertion, rfl, rfl, htranslates⟩ := toInput_put hevent hinput
    cases hk
    exact .inr (.inl ⟨key, w, rfl, h.set htranslates⟩)
  | set target fieldName value m =>
    obtain ⟨key, w, assertion, rfl, rfl, htranslates⟩ := toInput_put hevent hinput
    cases hk
    exact .inr (.inl ⟨key, w, rfl, h.set htranslates⟩)
  | add target fieldName value m =>
    obtain ⟨key, w, assertion, rfl, rfl, htranslates⟩ := toInput_put hevent hinput
    cases hk
    exact .inl ⟨key, w, rfl, h.keep htranslates⟩

/-- **A run of the loop** keeps what `batched` writes. -/
theorem KeptAt.run (hl : l.Sound) {enforce : Bool} {times : Nat → Int64} :
    ∀ {ops : List PlannedOp} {es : List (Event String FieldWrite String)} {start : Nat}
      {inputs : List (PlannedOp × Input)} {seen gone : List String}
      {written : List (String × FieldWrite)} {k k' : Kept},
      eventsOf host index ops = .ok es →
      mapOk (fun p => (toInput host index p.1 (times p.2)).map fun input => (p.1, input))
        (ops.zipIdx start) = .ok inputs →
      KeptAt l seen gone written k →
      inputs.foldlM (Kept.turn index l enforce targets) k = .ok k' →
      ∃ seen', KeptAt l seen' ((goneIn es).reverse ++ gone)
        (written ++ batched (free l targets) seen es) k' := by
  intro ops
  induction ops with
  | nil =>
    intro es start inputs seen gone written k k' hes hinputs h hk
    cases hes
    cases hinputs
    cases hk
    exact ⟨seen, by simpa [goneIn, batched] using h⟩
  | cons op ops ih =>
    intro es start inputs seen gone written k k' hes hinputs h hk
    obtain ⟨e, rest, hevent, hrest, rfl⟩ := eventsOf_cons.mp hes
    rw [List.zipIdx_cons, mapOk] at hinputs
    obtain ⟨_, hone, hinputs⟩ := bind_ok_iff.mp hinputs
    obtain ⟨others, hothers, hinputs⟩ := bind_ok_iff.mp hinputs
    cases hinputs
    obtain ⟨input, hinput, rfl⟩ := map_ok_iff.mp hone
    rw [List.foldlM_cons] at hk
    obtain ⟨k₁, hturn, hk⟩ := bind_ok_iff.mp hk
    rcases h.turn hl hevent hinput hturn with
      ⟨key, w, rfl, h₁⟩ | ⟨key, w, rfl, h₁⟩ | ⟨target, rfl, h₁⟩
    · obtain ⟨seen', hat⟩ := ih hrest hothers h₁ hk
      refine ⟨seen', ?_⟩
      rw [List.append_assoc] at hat
      exact hat
    · unfold batched
      by_cases hkeep : free l targets key ∧ key ∉ seen
      · rw [if_pos hkeep] at h₁ ⊢
        obtain ⟨seen', hat⟩ := ih hrest hothers h₁ hk
        refine ⟨seen', ?_⟩
        rw [List.append_assoc] at hat
        exact hat
      · rw [if_neg hkeep] at h₁ ⊢
        exact ih hrest hothers h₁ hk
    · obtain ⟨seen', hat⟩ := ih hrest hothers h₁ hk
      refine ⟨seen', ?_⟩
      have hgone : (goneIn (Event.gone target :: rest : List (Event String FieldWrite String))).reverse ++
          gone = (goneIn rest).reverse ++ (target :: gone) := by
        simp [goneIn]
      rw [hgone]
      exact hat

end

/-! ## The commit -/

/-- What a route leaves behind: new claims, none of which is revoked, and claims of before that
were let go. -/
structure Changed (l₀ l : Ledger) (gone : List String) (new : List Claim) : Prop where
  claims : l.indexes.claims = l₀.indexes.claims ++ new
  revoked : ∀ a, l.hasActiveRevocation a = true ↔ l₀.hasActiveRevocation a = true ∨ a ∈ gone
  active : ∀ c ∈ new, l₀.hasActiveRevocation c.asrtId = false ∧ c.asrtId ∉ gone

theorem Changed.activeContents {l₀ l : Ledger} {gone : List String} {new : List Claim}
    (h : Changed l₀ l gone new) : activeContents l =
      ((l₀.indexes.claims.filter fun c => !(l₀.hasActiveRevocation c.asrtId || c.asrtId ∈ gone)).map
        contentOf) ++ new.map contentOf := by
  have hrevoked : ∀ a, l.hasActiveRevocation a = (l₀.hasActiveRevocation a || decide (a ∈ gone)) := by
    intro a
    rw [Bool.eq_iff_iff, h.revoked]
    simp
  unfold Entity.activeContents
  rw [h.claims, List.filter_append, List.map_append]
  congr 2
  · apply List.filter_congr
    intro c _
    rw [hrevoked]
  · rw [List.filter_eq_self]
    intro c hc
    obtain ⟨hold, hgone⟩ := h.active c hc
    rw [hrevoked, hold]
    simp [hgone]

theorem At.changed {l₀ l : Ledger} {supply : Supply} {ops : List PlannedOp} {gone : List String}
    {written : List (String × FieldWrite × String)} (h : At l₀ supply gone written l)
    (hl₀ : l₀.Sound) (hfresh : Fresh l₀ supply ops) :
    Changed l₀ l gone (written.map fun x => x.2.1.claim x.2.2) where
  claims := h.claims
  revoked := h.revoked
  active := by
    intro c hc
    obtain ⟨x, hx, rfl⟩ := List.mem_map.mp hc
    exact h.active_new hl₀ hfresh hx

theorem contents_of_translates (ids : Nat → String) {inputs : List Db.AssertionInput}
    {written : List (String × FieldWrite)} (h : List.Forall₂ Translates inputs written)
    (start : Nat) : (inputs.zipIdx start).map (contentOf ∘ fun p => p.1.claim (ids p.2)) =
      written.map fun p => writeContent p.2 := by
  induction h generalizing start with
  | nil => rfl
  | @cons input x inputs written hx _ ih =>
    rw [List.zipIdx_cons, List.map_cons, List.map_cons, ih]
    have hcontent : contentOf (input.claim (ids start)) = writeContent x.2 := by
      rw [hx]
      rfl
    exact congrArg (· :: _) hcontent

theorem sound_of_commit {host : Host} {index : SchemaIndex} {d d' : Db.Database} {supply : Supply}
    {enforce : Bool} {ops : List PlannedOp} {r : Except Fault (List String)} (hl : d.ledger.Sound)
    (h : commitPlannedOps host index d supply enforce ops = (d', r)) : d'.ledger.Sound := by
  have hcommit : ∀ assertions revocations,
      (d.commitChanges host.db assertions revocations supply.ids).1.ledger.Sound := by
    intro assertions revocations
    unfold Db.Database.commitChanges
    cases d.prepareChanges host.db assertions revocations supply.ids with
    | error e => exact hl
    | ok change =>
      have hstep := hl.step (Batch.step_commitBatch d.ledger change.batch)
      simp only
      split
      all_goals
        rename_i heq
        rw [heq] at hstep
        exact hstep
  unfold commitPlannedOps at h
  split at h
  next =>
    cases h
    exact hl
  next k _ =>
    split at h
    next =>
      cases h
      exact hl
    next =>
      have hsound := hcommit k.assertions k.revocations
      split at h
      all_goals
        rename_i heq
        rw [heq] at hsound
        cases h
        exact hsound

/-- **The Database route** writes what `batched` writes. -/
theorem changed_of_commitPlannedOps {host : Host} {index : SchemaIndex} {d d' : Db.Database}
    {supply : Supply} {enforce : Bool} {ops : List PlannedOp} {ids : List String}
    (hl : d.ledger.Sound) (hl' : d'.ledger.Sound) (hfresh : Fresh d.ledger supply ops)
    {es : List (Event String FieldWrite String)} (hes : eventsOf host index ops = .ok es)
    (h : commitPlannedOps host index d supply enforce ops = (d', .ok ids)) :
    ∃ new, Changed d.ledger d'.ledger (goneIn es) new ∧
      new.map contentOf =
        (batched (free d.ledger (revocationTargets ops)) [] es).map fun p => writeContent p.2 := by
  unfold commitPlannedOps at h
  cases hkeep : keepOps host index d.ledger supply enforce ops with
  | error e => simp [hkeep] at h
  | ok k =>
    simp only [hkeep] at h
    unfold keepOps at hkeep
    obtain ⟨inputs, hinputs, hfold⟩ := bind_ok_iff.mp hkeep
    obtain ⟨seen', hat⟩ := KeptAt.run hl hes hinputs KeptAt.empty hfold
    rw [List.append_nil, List.nil_append] at hat
    -- what the commit writes, whether there is anything to commit or not
    have hcommitted : Db.Committed d.ledger d'.ledger (Db.newClaims k.assertions supply.ids)
        (Db.newRevokes k.revocations k.assertions.length supply.ids) := by
      split at h
      next hempty =>
        obtain ⟨rfl, _⟩ := Prod.ext_iff.mp h
        rw [Bool.and_eq_true, List.isEmpty_iff, List.isEmpty_iff] at hempty
        rw [hempty.1, hempty.2]
        exact ⟨(List.append_nil _).symm, (List.append_nil _).symm, rfl⟩
      next =>
        split at h
        next => simp at h
        next result hcommit =>
          obtain ⟨rfl, _⟩ := Prod.ext_iff.mp h
          exact Db.committed hcommit
    refine ⟨Db.newClaims k.assertions supply.ids, ⟨hcommitted.claims, ?_, ?_⟩, ?_⟩
    · intro a
      unfold Ledger.hasActiveRevocation
      rw [decide_eq_true_iff, decide_eq_true_iff, hl'.coherent.revoked, hl.coherent.revoked,
        hcommitted.revokes]
      have hnew : (∃ r ∈ Db.newRevokes k.revocations k.assertions.length supply.ids,
          r.revokedAsrtId = a) ↔ a ∈ goneIn es ∧ d.ledger.hasActiveRevocation a = false := by
        rw [← List.mem_map, Db.newRevokes_revoked, hat.revocations, List.mem_reverse]
      simp only [List.mem_append, or_and_right, exists_or, hnew]
      rw [← hl.coherent.revoked]
      unfold Ledger.hasActiveRevocation
      by_cases hrevoked : a ∈ d.ledger.indexes.revokedAsrtIds <;> simp [hrevoked]
    · intro c hc
      unfold Db.newClaims at hc
      obtain ⟨p, _, rfl⟩ := List.mem_map.mp hc
      constructor
      · rw [← Bool.not_eq_true]
        intro hrevoked
        obtain ⟨c, hc, hid⟩ := claim_of_revoked hl hrevoked
        exact fresh_ne_claim hl hfresh p.2 hc hid
      · rw [goneIn_eventsOf hes]
        exact hfresh.unnamed p.2
    · unfold Db.newClaims
      rw [List.map_map]
      exact contents_of_translates supply.ids hat.assertions 0

/-!
## Two routes

The Store route and the Database route leave the same active claims exactly if of every ingest key at
most one write is due, which comes after the holders of the key are let go (`routes_agree_iff`). Two
`add`s of one value are the shortest list on which they differ.
-/

/-- The writes of a list of operations. -/
def writesOf (host : Host) (index : SchemaIndex) (ops : List PlannedOp) : List FieldWrite :=
  ops.filterMap fun op => (op.write? host index).bind Except.toOption

/-- Of every key at most one write is due, and some write under it stands after its holders are let
go. -/
def WrittenOnce (host : Host) (index : SchemaIndex) (l : Ledger) (ops : List PlannedOp) : Prop :=
  ∃ es, eventsOf host index ops = .ok es ∧
    Settled (holders l) (free l (revocationTargets ops)) es

theorem mem_writesOf {host : Host} {index : SchemaIndex} {ops : List PlannedOp}
    {es : List (Event String FieldWrite String)} (hes : eventsOf host index ops = .ok es)
    {p : String × FieldWrite} (hp : p ∈ puts es) :
    p.2 ∈ writesOf host index ops ∧ ∃ m, p.2.prepare host.db.sha256 = .ok (m, p.1) := by
  obtain ⟨e, he, hput⟩ := List.mem_filterMap.mp hp
  obtain ⟨op, hop, hevent⟩ := mem_of_mapOk hes he
  have hwrite : ∀ {write : Except Fault FieldWrite} {always : Bool},
      op.write? host index = some write → putEvent host write always = .ok e →
      p.2 ∈ writesOf host index ops ∧ ∃ m, p.2.prepare host.db.sha256 = .ok (m, p.1) := by
    intro write always hsome hevent
    obtain ⟨w, m, key, rfl, hprepare, rfl⟩ := putEvent_ok_iff.mp hevent
    cases hput
    refine ⟨List.mem_filterMap.mpr ⟨op, hop, ?_⟩, m, hprepare⟩
    rw [hsome]
    rfl
  cases op with
  | retract target fieldName assertionId m =>
    cases hevent
    cases hput
  | recordExists target m => exact hwrite rfl hevent
  | set target fieldName value m => exact hwrite rfl hevent
  | add target fieldName value m => exact hwrite rfl hevent

/-- A key whose holders are all let go is free. -/
theorem free_of_gone {l : Ledger} {targets : List String} {key : String}
    (h : ∀ a ∈ holders l key, a ∈ targets) : free l targets key = true := by
  unfold free
  rw [Option.isNone_iff_eq_none, Option.filter_eq_none_iff]
  intro a ha
  have hbucket := List.mem_of_find?_eq_some ha
  have hactive := List.find?_some ha
  rw [Bool.and_eq_true, Bool.not_eq_true'] at hactive
  have haccept : l.acceptIngest a = some a := by
    unfold Ledger.acceptIngest
    rw [if_pos hactive.1, if_neg (by rw [hactive.2]; simp)]
  have hgone : a ∈ targets := h a (List.mem_filter.mpr ⟨hbucket, by rw [haccept]; rfl⟩)
  simpa using hgone

/-- A list that only writes goes through on the Database route, if what is kept of it can be
prepared. -/
theorem commitPlannedOps_ok {host : Host} (hsha : ∀ raw, (host.db.sha256 raw).length = 32)
    {index : SchemaIndex} {d : Db.Database} {supply : Supply} {enforce : Bool} {ops : List PlannedOp}
    {k : Kept} (hkeep : keepOps host index d.ledger supply enforce ops = .ok k)
    (hnone : k.revocations = []) {parent : Db.DatabaseValue} (hhead : d.head = .ok parent)
    (hseq : parent.txSeq + 1 < 2 ^ 64) (hcount : k.assertions.length < 2 ^ 32)
    (hprepares : ∀ item ∈ k.assertions, Db.Prepares host.db d.schemaDigest item)
    (hdistinct : ((List.range k.assertions.length).map supply.ids).Nodup)
    (hids : ∀ i < k.assertions.length,
      Db.requireAsrtId (supply.ids i) "asrt_id" = .ok (supply.ids i))
    (hunused : ∀ i < k.assertions.length, Db.Unused d.ledger (supply.ids i)) :
    ∃ d' ids, commitPlannedOps host index d supply enforce ops = (d', .ok ids) := by
  unfold commitPlannedOps
  simp only [hkeep]
  by_cases hempty : k.assertions = []
  · rw [hempty, hnone]
    exact ⟨_, _, rfl⟩
  · obtain ⟨d', result, hcommit⟩ := Db.commitChanges_ok hsha hhead hseq hempty hcount hprepares
      hdistinct hids hunused
    have hsome : (k.assertions.isEmpty && k.revocations.isEmpty) = false := by
      simp [hempty]
    rw [hsome, hnone, hcommit]
    exact ⟨_, _, rfl⟩

/-- **When the two routes agree.** -/
theorem routes_agree_iff {host : Host} {index : SchemaIndex} {d d' : Db.Database} {l' : Ledger}
    {supply supply' : Supply} {enforce : Bool} {ops : List PlannedOp} {applied : List AppliedOp}
    {ids : List String} (hreachable : d.ledger.Reachable)
    (heager : d.ledger.isLazy "ingest_key" = false) (hfresh : Fresh d.ledger supply ops)
    (hfresh' : Fresh d.ledger supply' ops)
    (hsha : CollisionFree host.db.sha256 (writesOf host index ops))
    (hstore : applyOps host index d.ledger supply 0 ops = (l', ⟨applied, []⟩))
    (hdatabase : commitPlannedOps host index d supply' enforce ops = (d', .ok ids)) :
    (activeContents l').Perm (activeContents d'.ledger) ↔
      WrittenOnce host index d.ledger ops := by
  have hl := hreachable.sound
  obtain ⟨es, written, hes, hat, hwritten⟩ := At.run hl hfresh ops 0 (fun a ha => ha)
    (At.refl hl heager) (fun key => Iff.rfl) hstore
  rw [List.append_nil, List.nil_append] at hat
  rw [List.map_nil] at hwritten
  have hstores := (hat.changed hl hfresh).activeContents
  obtain ⟨new, hchanged, hnew⟩ := changed_of_commitPlannedOps hl (sound_of_commit hl hdatabase)
    hfresh' hes hdatabase
  have hcommits := hchanged.activeContents
  have hgone : goneIn es = revocationTargets ops := goneIn_eventsOf hes
  -- the claims of before are kept alike
  simp only [List.mem_reverse] at hstores
  rw [hstores, hcommits, List.perm_append_left_iff, hnew]
  have hstepwise : (written.map fun x => x.2.1.claim x.2.2).map contentOf =
      (stepwise (holders d.ledger) [] [] es).map fun p => writeContent p.2 := by
    rw [← hwritten, List.map_map, List.map_map]
    rfl
  rw [hstepwise, writes_perm_iff]
  · constructor
    · exact fun h => ⟨es, hes, h⟩
    · rintro ⟨es', hes', h⟩
      rw [hes] at hes'
      cases hes'
      exact h
  · intro key hheld
    exact free_of_gone (hgone ▸ hheld)
  · intro p hp q hq hkey
    obtain ⟨hpw, m, hpm⟩ := mem_writesOf hes hp
    obtain ⟨hqw, m', hqm⟩ := mem_writesOf hes hq
    exact content_of_key hsha hpw hqw hpm (hkey ▸ hqm)

/-! ## Two writes of one value -/

/-- A host whose digest is the end of what it reads. -/
def docHost : Host where
  db :=
    { sha256 := fun raw => (raw.reverse ++ List.replicate 32 0).take 32
      shake256 := fun _ => .empty
      floatRepr := fun _ => "0.0" }
  str := fun _ => ""
  reprValue := fun _ => ""
  reprText := fun s => s
  fullmatch := fun _ _ => .ok true

/-- Persons with any number of nicknames. -/
def docIndex : SchemaIndex where
  entities := [("Person", ⟨"Person", [⟨"id", "string"⟩], "Person:exists", []⟩)]
  fieldPredicates := [(("Person", "nick"),
    { predId := "Person:nick", ownerType := "Person", pyFieldName := some "nick"
      cardinality := "multi", valueTypeDomain := some "string" })]
  predicatesById := []
  identityPredIds := []
  existsPredIds := ["Person:exists"]

def docDigest : String := "sha256:" ++ String.ofList (List.replicate 64 '0')

def docDatabase : Db.Database := ⟨Db.createdLedger docHost.db "mem:doc" docDigest, "mem:doc", docDigest⟩

def docSupply : Supply :=
  ⟨fun i => String.ofList (List.replicate 31 '0') ++ toString i, fun i => Int64.ofNat i⟩

/-- `add Person(id="p").nick "x"`. -/
def docAdd : PlannedOp :=
  .add ⟨"Person", [("id", .leaf (.str "p"))], none⟩ "nick" (.scalar (.leaf (.str "x"))) .empty

theorem sha256_docHost (raw : List UInt8) : (docHost.db.sha256 raw).length = 32 := by
  simp [docHost]

theorem requireDigest_doc : Db.requireToken docDigest "sha256:" "schema_digest" = .ok docDigest := by
  rfl

theorem reachable_doc : docDatabase.ledger.Reachable :=
  (Db.create_ok sha256_docHost rfl requireDigest_doc).2

theorem fresh_doc {ops : List PlannedOp} (h : revocationTargets ops = []) :
    Fresh docDatabase.ledger docSupply ops where
  unwritten := fun _ ha => nomatch ha
  undescribed := fun _ _ hr => nomatch hr
  unnamed := fun i ha => by
    rw [h] at ha
    cases ha

/-- Whether at most two assertions are kept and nothing else, and all of them can be prepared. -/
def keepsTwo (k : Kept) : Bool :=
  k.revocations.isEmpty && decide (k.assertions.length ≤ 2) &&
    k.assertions.all fun item =>
      (Db.prepareAssertion docHost.db docDigest item "").toOption.any fun _ => true

/-- Two writes at most go through on the Database route. -/
theorem commits_doc {ops : List PlannedOp}
    (h : (keepOps docHost docIndex docDatabase.ledger docSupply true ops).toOption.any keepsTwo =
      true) :
    ∃ d' ids, commitPlannedOps docHost docIndex docDatabase docSupply true ops = (d', .ok ids) := by
  obtain ⟨k, hkeep, hk⟩ := exists_ok_of_any h
  unfold keepsTwo at hk
  rw [Bool.and_eq_true, Bool.and_eq_true, List.isEmpty_iff, decide_eq_true_eq] at hk
  obtain ⟨⟨hnone, hcount⟩, hall⟩ := hk
  have hsmall : ∀ i < k.assertions.length, i = 0 ∨ i = 1 := by
    intro i hi
    omega
  obtain ⟨parent, hhead, hseq⟩ :=
    Db.readLedgerHead_createdLedger sha256_docHost (rfl : Db.requireDbId "mem:doc" = _)
      requireDigest_doc
  refine commitPlannedOps_ok sha256_docHost hkeep hnone hhead (by omega) (by omega) ?_ ?_ ?_ ?_
  · intro item hitem
    obtain ⟨p, hp, _⟩ := exists_ok_of_any (List.all_eq_true.mp hall item hitem)
    exact ⟨p, hp⟩
  · have htwo : ((List.range k.assertions.length).map docSupply.ids).Sublist
        ((List.range 2).map docSupply.ids) :=
      (List.range_sublist.mpr hcount).map _
    exact htwo.nodup (by decide)
  · intro i hi
    rcases hsmall i hi with rfl | rfl <;> rfl
  · intro i hi
    exact ⟨fun ha => (nomatch ha), fun _ hr => (nomatch hr), rfl⟩

theorem event_docAdd : ∃ w key, docAdd.event docHost docIndex = .ok (.put key w true) := by
  obtain ⟨e, he, _⟩ := exists_ok_of_any (p := fun _ => true)
    (by decide +kernel : (docAdd.event docHost docIndex).toOption.any (fun _ => true) = true)
  obtain ⟨w, m, key, _, _, rfl⟩ := putEvent_ok_iff.mp he
  exact ⟨w, key, he⟩

/-- A run without errors. -/
theorem eq_of_errors {r : Ledger × WriteResult} (h : r.2.errors = []) :
    r = (r.1, ⟨r.2.applied, []⟩) := by
  rw [← h]

/-- Both routes accept one nickname twice; on the Store route one claim is active afterwards. -/
theorem runs_doc : ∃ l' applied d' ids,
    applyOps docHost docIndex docDatabase.ledger docSupply 0 [docAdd, docAdd] =
        (l', ⟨applied, []⟩) ∧
      commitPlannedOps docHost docIndex docDatabase docSupply true [docAdd, docAdd] =
        (d', .ok ids) ∧
      (activeContents l').length = 1 := by
  have hrun : (applyOps docHost docIndex docDatabase.ledger docSupply 0 [docAdd, docAdd]).2.errors =
      [] ∧ (activeContents (applyOps docHost docIndex docDatabase.ledger docSupply 0
        [docAdd, docAdd]).1).length = 1 := by
    decide +kernel
  have hkept : (keepOps docHost docIndex docDatabase.ledger docSupply true
      [docAdd, docAdd]).toOption.any keepsTwo = true := by
    decide +kernel
  obtain ⟨d', ids, hcommit⟩ := commits_doc hkept
  exact ⟨_, _, d', ids, eq_of_errors hrun.1, hcommit, hrun.2⟩

/-- The Store route writes a nickname once, the Database route twice. -/
theorem add_add_differs :
    docDatabase.ledger.Reachable ∧ Fresh docDatabase.ledger docSupply [docAdd, docAdd] ∧
      ∃ l' applied d' ids,
        applyOps docHost docIndex docDatabase.ledger docSupply 0 [docAdd, docAdd] =
          (l', ⟨applied, []⟩) ∧
        commitPlannedOps docHost docIndex docDatabase docSupply true [docAdd, docAdd] =
          (d', .ok ids) ∧
        ¬ (activeContents l').Perm (activeContents d'.ledger) := by
  have hfresh : Fresh docDatabase.ledger docSupply [docAdd, docAdd] := fresh_doc rfl
  obtain ⟨l', applied, d', ids, happlied, hcommit, hone⟩ := runs_doc
  refine ⟨reachable_doc, hfresh, l', applied, d', ids, happlied, hcommit, ?_⟩
  obtain ⟨w, key, hevent⟩ := event_docAdd
  have hes : eventsOf docHost docIndex [docAdd, docAdd] = .ok [.put key w true, .put key w true] :=
    eventsOf_cons.mpr ⟨_, _, hevent, eventsOf_cons.mpr ⟨_, _, hevent, rfl, rfl⟩, rfl⟩
  have hl := reachable_doc.sound
  obtain ⟨new, hchanged, hnew⟩ := changed_of_commitPlannedOps hl (sound_of_commit hl hcommit) hfresh
    hes hcommit
  have hempty : docDatabase.ledger.indexes.claims = [] := rfl
  intro hperm
  have hlength := hperm.length_eq
  rw [hone, hchanged.activeContents, hnew, hempty] at hlength
  simp [batched] at hlength

/-- The two routes on one nickname, twice. -/
theorem routes_agree_add_add :
    ∃ l' applied d' ids,
      applyOps docHost docIndex docDatabase.ledger docSupply 0 [docAdd, docAdd] =
        (l', ⟨applied, []⟩) ∧
      commitPlannedOps docHost docIndex docDatabase docSupply true [docAdd, docAdd] =
        (d', .ok ids) ∧
      ((activeContents l').Perm (activeContents d'.ledger) ↔
        WrittenOnce docHost docIndex docDatabase.ledger [docAdd, docAdd]) := by
  have hfresh : Fresh docDatabase.ledger docSupply [docAdd, docAdd] := fresh_doc rfl
  obtain ⟨l', applied, d', ids, happlied, hcommit, _⟩ := runs_doc
  have hone : ∀ v ∈ writesOf docHost docIndex [docAdd, docAdd],
      (docAdd.write? docHost docIndex).bind Except.toOption = some v := by
    intro v hv
    obtain ⟨op, hop, hwrite⟩ := List.mem_filterMap.mp hv
    have hadd : op = docAdd := by simpa using hop
    rw [← hadd]
    exact hwrite
  have hsha : CollisionFree docHost.db.sha256 (writesOf docHost docIndex [docAdd, docAdd]) := by
    intro v hv w hw x y hx hy _
    have hsame : v = w := Option.some.inj ((hone v hv).symm.trans (hone w hw))
    rw [hsame, hy] at hx
    cases hx
    rfl
  exact ⟨l', applied, d', ids, happlied, hcommit,
    routes_agree_iff reachable_doc rfl hfresh hfresh hsha happlied hcommit⟩

end FactGraph.Entity
