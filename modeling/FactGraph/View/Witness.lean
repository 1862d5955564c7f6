import FactGraph.View.Chosen

/-!
# The two projections

`project_view_facts` and `project_view_facts_with_witness` select, read and sort on their own. They
agree (`projectViewFacts_eq`): the first returns the fact tuples of the second, in order, and raises
what the second raises. The only check the second adds, that a witness id is not empty, never fails:
an active claim has an id, and the witness of an existence row has a fixed prefix.
-/

namespace FactGraph.View

open Protocol Store Check Latest

/-- The fact tuples of a projection with witnesses. -/
def factTuples (views : List (String × List ProjectedFact)) : List (String × List Fact) :=
  views.map fun v => (v.1, v.2.map (·.factTuple))

/-! ## Maps under loops -/

theorem map_ok_bind {ε α β γ : Type} (x : Except ε α) (f : α → Except ε β) (g : β → γ) :
    (x >>= f).map g = x >>= fun a => (f a).map g := by
  cases x <;> rfl

/-- A loop whose body commutes with a projection of its state commutes with it. -/
theorem map_foldlM {ε α σ τ : Type} {φ : σ → τ} {f : σ → α → Except ε σ} {g : τ → α → Except ε τ}
    (h : ∀ s a, (f s a).map φ = g (φ s) a) (as : List α) (s : σ) :
    (as.foldlM f s).map φ = as.foldlM g (φ s) := by
  induction as generalizing s with
  | nil => rfl
  | cons a as ih =>
    rw [List.foldlM_cons, List.foldlM_cons, map_ok_bind, ← h s a]
    cases f s a with
    | error e => rfl
    | ok s' => exact ih s'

theorem sortByFact_map {α : Type} (host : Host) (fact : α → Fact) (rows : List α) :
    (sortByFact host fact rows).map fact = sortByFact host id (rows.map fact) := by
  unfold sortByFact
  exact List.map_insertionSort _ _ fact rows fun a _ b _ => Iff.rfl

/-! ## Ordinary predicates -/

theorem id_ne_empty_of_isActive {r : LedgerReads} {a : String} (h : isActive r a = .ok true) :
    a ≠ "" := by
  unfold isActive at h
  intro he
  simp [he] at h

/-- Active claims have ids. -/
theorem asrtId_ne_empty_of_active {r : LedgerReads} {predId : String} {active : List Claim}
    (h : activeClaims r predId = .ok active) : ∀ c ∈ active, c.asrtId ≠ "" := by
  unfold activeClaims at h
  obtain ⟨claims, _, h⟩ := bind_ok_iff.mp h
  clear * - h
  induction claims generalizing active with
  | nil =>
    cases h
    simp
  | cons c claims ih =>
    unfold filterOk at h
    obtain ⟨b, hb, h⟩ := bind_ok_iff.mp h
    obtain ⟨rest, hrest, h⟩ := bind_ok_iff.mp h
    cases h
    cases b with
    | false => exact ih hrest
    | true =>
      intro d hd
      rcases List.mem_cons.mp hd with rfl | hd
      · exact id_ne_empty_of_isActive hb
      · exact ih hrest d hd

theorem selectActive_subset {r : LedgerReads} {pred : SchemaPred} {predId : String}
    {selected : List Claim} (h : selectActive r pred predId = .ok selected) :
    ∃ active, activeClaims r predId = .ok active ∧ selected ⊆ active := by
  unfold selectActive at h
  obtain ⟨active, hactive, h⟩ := bind_ok_iff.mp h
  refine ⟨active, hactive, ?_⟩
  split at h
  · obtain ⟨chosen, _, h⟩ := bind_ok_iff.mp h
    cases h
    exact List.filter_sublist.subset
  · obtain ⟨_, h⟩ := bind_unit_ok_iff.mp h
    cases h
    exact fun _ hc => hc

/-- The rows of selected claims, without their ids. -/
theorem mapOk_projectedClaim {r : LedgerReads} {claims : List Claim}
    (hids : ∀ c ∈ claims, c.asrtId ≠ "") :
    (mapOk (projectedClaim r) claims).map (List.map (·.factTuple)) =
      mapOk (buildArgsForClaim r) claims := by
  rw [mapOk_map]
  apply mapOk_congr
  intro c hc
  unfold projectedClaim
  cases buildArgsForClaim r c with
  | error e => rfl
  | ok fact =>
    simp only [ok_bind, projectedFact]
    rw [require_of_true (by simpa using hids c hc)]
    rfl

/-! ## Existence predicates -/

/-- The projected rows of one existence predicate. -/
def domainOf (host : Host) (p : String × List (Fact × List String)) :
    String × List ProjectedFact :=
  (p.1, sortByFact host (·.factTuple) (p.2.map fun row =>
    ⟨virtualExistsWitnessId host p.1 (factRef row.1) row.2, row.1⟩))

theorem virtualExistsWitnessId_ne_empty (host : Host) (predId eRef : String)
    (supports : List String) : virtualExistsWitnessId host predId eRef supports ≠ "" := by
  unfold virtualExistsWitnessId
  intro h
  have hlen := congrArg String.length h
  simp at hlen

/-- The domains with witnesses are the rows without them. -/
theorem projectEntityDomainsWithWitness_eq (host : Host) (r : LedgerReads) (schema : SchemaIr) :
    projectEntityDomainsWithWitness host r schema =
      (virtualEntityExistsRows host r schema).map (List.map (domainOf host)) := by
  unfold projectEntityDomainsWithWitness
  cases virtualEntityExistsRows host r schema with
  | error e => rfl
  | ok rows =>
    simp only [ok_bind, Except.map]
    rw [mapOk_ok_iff, List.forall₂_map_right_iff, List.forall₂_same]
    intro p _
    have hrows : mapOk (fun row : Fact × List String =>
        projectedFact (virtualExistsWitnessId host p.1 (factRef row.1) row.2) row.1) p.2 =
        .ok (p.2.map fun row =>
          ⟨virtualExistsWitnessId host p.1 (factRef row.1) row.2, row.1⟩) := by
      rw [mapOk_ok_iff, List.forall₂_map_right_iff, List.forall₂_same]
      intro row _
      unfold projectedFact
      rw [require_of_true (by simpa using virtualExistsWitnessId_ne_empty _ _ _ _)]
      rfl
    rw [hrows]
    rfl

theorem get?_map_domainOf (host : Host) (rows : List (String × List (Fact × List String)))
    (predId : String) :
    (((Dict.get? (rows.map (domainOf host)) predId).getD []).map (·.factTuple)) =
      sortByFact host id (((Dict.get? rows predId).getD []).map Prod.fst) := by
  rw [show domainOf host = fun p => (p.1, (domainOf host (p.1, p.2)).2) from rfl,
    Dict.get?_map fun k vs => (domainOf host (k, vs)).2]
  cases Dict.get? rows predId with
  | none => rfl
  | some vs =>
    simp only [Option.map_some, Option.getD_some, domainOf, sortByFact_map, List.map_map]
    rfl

/-! ## The projections -/

theorem projectPredicate_eq (host : Host) (r : LedgerReads)
    (rows : List (String × List (Fact × List String))) (pred : SchemaPred) :
    projectPredicate host r rows pred =
      (projectPredicateWithWitness host r (rows.map (domainOf host)) pred).map fun v =>
        (v.1, v.2.map (·.factTuple)) := by
  unfold projectPredicate projectPredicateWithWitness
  cases hp : requirePredId pred with
  | error e => rfl
  | ok predId =>
    simp only [ok_bind]
    by_cases hexists : pred.isEntityExists = true
    · rw [if_pos hexists, if_pos hexists]
      simp only [Except.map, get?_map_domainOf]
    · rw [if_neg hexists, if_neg hexists]
      unfold selectViewClaims
      rw [hp]
      simp only [ok_bind]
      cases hselect : selectActive r pred predId with
      | error e => rfl
      | ok claims =>
        obtain ⟨active, hactive, hsub⟩ := selectActive_subset hselect
        have hids : ∀ c ∈ claims, c.asrtId ≠ "" := fun c hc =>
          asrtId_ne_empty_of_active hactive c (hsub hc)
        simp only [ok_bind]
        rw [← mapOk_projectedClaim hids]
        cases mapOk (projectedClaim r) claims with
        | error e => rfl
        | ok projected => simp only [Except.map, ok_bind, sortByFact_map]

theorem factTuples_set (views : List (String × List ProjectedFact)) (predId : String)
    (rows : List ProjectedFact) :
    factTuples (Dict.set views predId rows) =
      Dict.set (factTuples views) predId (rows.map (·.factTuple)) :=
  Dict.map_set (fun _ => List.map ProjectedFact.factTuple) views predId rows

/-- **The two projections agree.** -/
theorem projectViewFacts_eq (host : Host) (r : LedgerReads) (schema : SchemaIr) :
    projectViewFacts host r schema =
      (projectViewFactsWithWitness host r schema).map factTuples := by
  unfold projectViewFacts projectViewFactsWithWitness
  rw [projectEntityDomainsWithWitness_eq]
  cases schemaPredicates schema with
  | error e => rfl
  | ok predicates =>
    simp only [ok_bind]
    cases virtualEntityExistsRows host r schema with
    | error e => rfl
    | ok rows =>
      simp only [ok_bind, Except.map]
      symm
      apply map_foldlM (φ := factTuples)
      intro views pred
      cases requirePred pred with
      | error e => rfl
      | ok pred =>
        simp only [ok_bind]
        rw [projectPredicate_eq]
        cases projectPredicateWithWitness host r (rows.map (domainOf host)) pred with
        | error e => rfl
        | ok v =>
          simp only [Except.map, ok_bind, factTuples_set]

/-! ## The view of a predicate -/

theorem predId_of_require {pred : SchemaPred} {predId : String}
    (h : requirePredId pred = .ok predId) : pred.predId = some predId := by
  unfold requirePredId at h
  cases hp : pred.predId with
  | none => simp [hp] at h
  | some p =>
    simp only [hp] at h
    obtain ⟨_, h⟩ := bind_unit_ok_iff.mp h
    cases h
    rfl

theorem projectPredicate_key {host : Host} {r : LedgerReads}
    {virtualExists : List (String × List (Fact × List String))} {pred : SchemaPred}
    {rows : String × List Fact} (h : projectPredicate host r virtualExists pred = .ok rows) :
    pred.predId = some rows.1 := by
  unfold projectPredicate at h
  obtain ⟨predId, hp, h⟩ := bind_ok_iff.mp h
  split at h
  · cases h
    exact predId_of_require hp
  · obtain ⟨claims, _, h⟩ := bind_ok_iff.mp h
    obtain ⟨facts, _, h⟩ := bind_ok_iff.mp h
    cases h
    exact predId_of_require hp

/-- The loop body of `project_view_facts`. -/
def viewStep (host : Host) (r : LedgerReads)
    (virtualExists : List (String × List (Fact × List String))) (out : List (String × List Fact))
    (pred : Option SchemaPred) : Except StoreErr (List (String × List Fact)) := do
  let pred ← requirePred pred
  let rows ← projectPredicate host r virtualExists pred
  .ok (Dict.set out rows.1 rows.2)

/-- Other predicates leave the view of this one alone. -/
theorem get?_viewSteps {host : Host} {r : LedgerReads}
    {virtualExists : List (String × List (Fact × List String))} {predId : String}
    {preds : List (Option SchemaPred)} (hother : ∀ q, some q ∈ preds → q.predId ≠ some predId)
    {out views : List (String × List Fact)}
    (h : preds.foldlM (viewStep host r virtualExists) out = .ok views) :
    Dict.get? views predId = Dict.get? out predId := by
  induction preds generalizing out with
  | nil =>
    cases h
    rfl
  | cons q preds ih =>
    rw [List.foldlM_cons] at h
    obtain ⟨out₁, hstep, h⟩ := bind_ok_iff.mp h
    rw [ih (fun q' hq' => hother q' (List.mem_cons_of_mem q hq')) h]
    unfold viewStep at hstep
    obtain ⟨q', hq', hstep⟩ := bind_ok_iff.mp hstep
    obtain ⟨rows, hrows, hstep⟩ := bind_ok_iff.mp hstep
    cases hstep
    cases q with
    | none => cases hq'
    | some q =>
      cases hq'
      have hne : predId ≠ rows.1 := by
        intro he
        exact hother q' List.mem_cons_self (he ▸ projectPredicate_key hrows)
      exact Dict.get?_set_of_ne hne

/-- The view of an ordinary predicate is what the selection keeps, read and sorted. -/
theorem view_of_predicate {host : Host} {r : LedgerReads} {schema : SchemaIr}
    {views : List (String × List Fact)} (h : projectViewFacts host r schema = .ok views)
    {before after : List (Option SchemaPred)} {pred : SchemaPred} {predId : String}
    (hpreds : schema.predicates = some (before ++ some pred :: after))
    (hp : pred.predId = some predId) (hlast : ∀ q, some q ∈ after → q.predId ≠ some predId)
    (hordinary : pred.isEntityExists = false) :
    ∃ selected facts, selectActive r pred predId = .ok selected ∧
      mapOk (buildArgsForClaim r) selected = .ok facts ∧
      Dict.get? views predId = some (sortByFact host id facts) := by
  unfold projectViewFacts schemaPredicates at h
  rw [hpreds] at h
  simp only [ok_bind] at h
  obtain ⟨virtualExists, _, h⟩ := bind_ok_iff.mp h
  change (before ++ some pred :: after).foldlM (viewStep host r virtualExists) [] = .ok views at h
  rw [List.foldlM_append] at h
  obtain ⟨out, _, h⟩ := bind_ok_iff.mp h
  rw [List.foldlM_cons] at h
  obtain ⟨out₁, hstep, h⟩ := bind_ok_iff.mp h
  rw [get?_viewSteps hlast h]
  unfold viewStep projectPredicate at hstep
  simp only [requirePred, ok_bind] at hstep
  obtain ⟨rows, hrows, hstep⟩ := bind_ok_iff.mp hstep
  cases hstep
  obtain ⟨p, hpid, hrows⟩ := bind_ok_iff.mp hrows
  have hpp : p = predId := Option.some.inj ((predId_of_require hpid).symm.trans hp)
  subst hpp
  rw [hordinary] at hrows
  simp only [Bool.false_eq_true, if_false] at hrows
  obtain ⟨selected, hselected, hrows⟩ := bind_ok_iff.mp hrows
  obtain ⟨facts, hfacts, hrows⟩ := bind_ok_iff.mp hrows
  cases hrows
  exact ⟨selected, facts, hselected, hfacts, Dict.get?_set_self _ _ _⟩

/-- The rows are those of the claims, sorted. -/
def RowsOf (host : Host) (l : Ledger) (claims : List Claim) (rows : List Fact) : Prop :=
  ∃ facts, List.Forall₂ (fun c f => buildArgsForClaim (reads l) c = .ok f) claims facts ∧
    rows = sortByFact host id facts

/-- **The projections of a reachable ledger.** They agree. The view of an ordinary predicate has the
rows of its active claims if it is multi-valued; if it is single-valued, the rows of the claims that
were inserted last in their group, one for every group with an active claim; and whatever write
revokes such a claim, the one inserted before it in the group takes its place. -/
theorem projection_of_reachable {l : Ledger} (hl : l.Reachable) (host : Host) (schema : SchemaIr) :
    projectViewFacts host (reads l) schema =
        (projectViewFactsWithWitness host (reads l) schema).map factTuples ∧
      ∀ views, projectViewFacts host (reads l) schema = .ok views →
        ∀ before pred after predId, schema.predicates = some (before ++ some pred :: after) →
          pred.predId = some predId → (∀ q, some q ∈ after → q.predId ≠ some predId) →
          pred.isEntityExists = false →
          ∃ rows, Dict.get? views predId = some rows ∧
            (reads l).Sequenced (activeOf l predId) ∧
            (pred.cardinality = "multi" ∧ RowsOf host l (activeOf l predId) rows ∨
              pred.cardinality = "single" ∧ ∃ key : Claim → GroupKey,
                (∀ c ∈ activeOf l predId, groupKeyForClaim (reads l) pred c = .ok (key c)) ∧
                RowsOf host l (lasts key (activeOf l predId)) rows ∧
                (∀ k, group key (lasts key (activeOf l predId)) k =
                  (group key (activeOf l predId) k).getLast?.toList) ∧
                ∀ c ∈ lasts key (activeOf l predId), ∀ w, RevokedBy l c.asrtId w →
                  (∀ d, groupKeyForClaim (reads (w.run l)) pred d =
                    groupKeyForClaim (reads l) pred d) ∧
                  ∀ k, group key (lasts key (activeOf (w.run l) predId)) k =
                    (if k = key c then (group key (activeOf l predId) k).dropLast
                      else group key (activeOf l predId) k).getLast?.toList) := by
  refine ⟨projectViewFacts_eq host (reads l) schema, ?_⟩
  intro views hviews before pred after predId hpreds hp hlast hordinary
  have hsound := hl.sound
  have hseq := sequenced_activeOf hsound predId
  obtain ⟨selected, facts, hselected, hfacts, hget⟩ :=
    view_of_predicate hviews hpreds hp hlast hordinary
  refine ⟨_, hget, hseq, ?_⟩
  have hrows : RowsOf host l selected (sortByFact host id facts) :=
    ⟨facts, mapOk_ok_iff.mp hfacts, rfl⟩
  cases keeps_of_selectActive hp (activeClaims_of_sound hsound predId) hseq hselected with
  | multi hmulti => exact .inl ⟨hmulti, hrows⟩
  | single hsingle key hkey =>
    refine .inr ⟨hsingle, key, hkey, hrows, group_lasts hseq.nodup, ?_⟩
    intro c hc w hw
    have hrevoked := hw.revoked hsound
    exact ⟨fun d => hrevoked.groupKey hsound (hsound.step (w.step l)) pred d,
      fun k => hrevoked.chosen hsound hc k⟩

/-- An age of one person. -/
def ageClaim (asrtId : String) (age : Int) : Claim :=
  ⟨asrtId, "person:age", "e1", [("int", .leaf (.int age))]⟩

/-- A ledger in which the age was asserted twice. -/
def agesLedger : Ledger :=
  [Write.claim (ageClaim "a1" 30), Write.claim (ageClaim "a2" 31)].foldl Write.run .empty

def agePred : SchemaPred := { predId := some "person:age", groupKeyIndexes := some [] }

/-- A host whose functions a projection of one row does not call. -/
def plainHost : Host := ⟨fun _ => "", fun _ => []⟩

theorem projection_of_agesLedger : ∃ key : Claim → GroupKey,
    RowsOf plainHost agesLedger (lasts key (activeOf agesLedger "person:age"))
        [[.str "e1", .int 31]] ∧
      group key (lasts key (activeOf ((Write.revokes ⟨"r1", "a2"⟩).run agesLedger) "person:age"))
        (key (ageClaim "a2" 31)) = [ageClaim "a1" 30] := by
  have hactive : activeOf agesLedger "person:age" = [ageClaim "a1" 30, ageClaim "a2" 31] := by
    rfl
  obtain ⟨rows, hget, _, hmulti | ⟨_, key, hkey, hrows, _, hrevoked⟩⟩ :=
    (projection_of_reachable (l := agesLedger) ⟨[], _, rfl⟩ plainHost ⟨some [some agePred], some []⟩).2
      [("person:age", [[.str "e1", .int 31]])] rfl [] agePred [] "person:age" rfl rfl (by simp) rfl
  · exact absurd hmulti.1 (by decide)
  · cases hget
    have h₁ : key (ageClaim "a1" 30) = ("person:age", "e1", []) :=
      (Except.ok.inj (hkey (ageClaim "a1" 30) (by simp [hactive]))).symm
    have h₂ : key (ageClaim "a2" 31) = ("person:age", "e1", []) :=
      (Except.ok.inj (hkey (ageClaim "a2" 31) (by simp [hactive]))).symm
    have hlast : ageClaim "a2" 31 ∈ lasts key (activeOf agesLedger "person:age") := by
      rw [mem_lasts, hactive]
      simp [group, h₁, h₂]
    have hafter := (hrevoked _ hlast (.revokes ⟨"r1", "a2"⟩) (.revokes rfl rfl)).2
      (key (ageClaim "a2" 31))
    refine ⟨key, hrows, hafter.trans ?_⟩
    simp [hactive, group, h₁, h₂]

end FactGraph.View
