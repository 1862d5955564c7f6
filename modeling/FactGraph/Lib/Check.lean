import Mathlib.Data.List.Basic

/-!
# Checks that raise

A routine that validates its input, or loops over a list and may stop with an error, is an
`Except` computation. The combinators below are the three shapes such code takes — a guard, a
loop that only checks, a loop that collects — and each comes with the lemma that reads a
successful run back: which checks held, which items were collected.
-/

namespace Check

variable {ε α β : Type}

/-- Raise unless the condition holds. -/
@[grind =]
def require (c : Bool) (e : ε) : Except ε Unit := if c then .ok () else .error e

/-- Run a check on every item, in order. -/
@[grind =]
def each (f : α → Except ε Unit) : List α → Except ε Unit
  | [] => .ok ()
  | a :: as => do f a; each f as

/-- Run a step on every item, in order, and append what the steps return. -/
@[grind =]
def collect (f : α → Except ε (List β)) : List α → Except ε (List β)
  | [] => .ok []
  | a :: as => do
      let bs ← f a
      let rest ← collect f as
      .ok (bs ++ rest)

/-- The values of a step along a list, up to the first error. -/
@[grind =]
def mapOk (f : α → Except ε β) : List α → Except ε (List β)
  | [] => .ok []
  | a :: as => do
      let b ← f a
      let bs ← mapOk f as
      .ok (b :: bs)

/-- The items a test accepts; the test may raise. -/
@[grind =]
def filterOk (p : α → Except ε Bool) : List α → Except ε (List α)
  | [] => .ok []
  | a :: as => do
      let b ← p a
      let rest ← filterOk p as
      .ok (if b then a :: rest else rest)

@[simp] theorem require_ok_iff {c : Bool} {e : ε} : require c e = .ok () ↔ c = true := by
  cases c <;> simp [require]

theorem require_of_true {c : Bool} {e : ε} (h : c = true) : require c e = .ok () := by
  simp [h]

/-- A run that succeeds with a value of a kind; the test can be evaluated. -/
theorem exists_ok_of_any {x : Except ε α} {p : α → Bool} (h : x.toOption.any p = true) :
    ∃ a, x = .ok a ∧ p a = true := by
  cases x with
  | error e => cases h
  | ok a => exact ⟨a, rfl, h⟩

theorem bind_ok_iff {x : Except ε α} {f : α → Except ε β} {b : β} :
    x >>= f = .ok b ↔ ∃ a, x = .ok a ∧ f a = .ok b := by
  cases x with
  | error e => simp [bind, Except.bind]
  | ok a => simp [bind, Except.bind]

theorem bind_unit_ok_iff {x : Except ε Unit} {f : Unit → Except ε β} {b : β} :
    x >>= f = .ok b ↔ x = .ok () ∧ f () = .ok b := by
  cases x with
  | error e => simp [bind, Except.bind]
  | ok a => simp [bind, Except.bind]

@[simp] theorem ok_bind (a : α) (f : α → Except ε β) : (Except.ok a >>= f) = f a := rfl

@[simp] theorem error_bind (e : ε) (f : α → Except ε β) :
    (Except.error e >>= f) = .error e := rfl

theorem each_ok_iff {f : α → Except ε Unit} {as : List α} :
    each f as = .ok () ↔ ∀ a ∈ as, f a = .ok () := by
  induction as with
  | nil => simp [each]
  | cons a as ih => simp [each, bind_unit_ok_iff, ih]

theorem mapOk_ok_iff {f : α → Except ε β} {as : List α} {bs : List β} :
    mapOk f as = .ok bs ↔ List.Forall₂ (fun a b => f a = .ok b) as bs := by
  induction as generalizing bs with
  | nil =>
    constructor
    · intro h
      cases h
      exact .nil
    · intro h
      cases h
      rfl
  | cons a as ih =>
    simp only [mapOk, bind_ok_iff, Except.ok.injEq]
    constructor
    · rintro ⟨b, hb, bs', hbs, rfl⟩
      exact .cons hb (ih.mp hbs)
    · intro h
      cases h with
      | cons hb hbs => exact ⟨_, hb, _, ih.mpr hbs, rfl⟩

/-- A loop whose step says when it succeeds and what it returns. -/
theorem mapOk_ok_iff_of {f : α → Except ε β} {as : List α} {P : α → Prop} {g : α → β}
    (h : ∀ a ∈ as, ∀ b, f a = .ok b ↔ P a ∧ b = g a) {bs : List β} :
    mapOk f as = .ok bs ↔ (∀ a ∈ as, P a) ∧ bs = as.map g := by
  induction as generalizing bs with
  | nil => simp [mapOk, eq_comm]
  | cons a as ih =>
    have hrest : ∀ {bs}, mapOk f as = .ok bs ↔ (∀ a ∈ as, P a) ∧ bs = as.map g :=
      ih fun a ha => h a (List.mem_cons_of_mem _ ha)
    simp only [mapOk, bind_ok_iff, Except.ok.injEq, List.forall_mem_cons, List.map_cons]
    constructor
    · rintro ⟨b, hb, bs', hbs, rfl⟩
      rcases (h a List.mem_cons_self b).mp hb with ⟨ha, rfl⟩
      rcases hrest.mp hbs with ⟨hall, rfl⟩
      exact ⟨⟨ha, hall⟩, rfl⟩
    · rintro ⟨⟨ha, hall⟩, rfl⟩
      exact ⟨g a, (h a List.mem_cons_self _).mpr ⟨ha, rfl⟩, _, hrest.mpr ⟨hall, rfl⟩, rfl⟩

theorem mem_of_forall₂ {R : α → β → Prop} {as : List α} {bs : List β} (h : List.Forall₂ R as bs)
    {b : β} (hb : b ∈ bs) : ∃ a ∈ as, R a b := by
  induction h with
  | nil => cases hb
  | cons hab _ ih =>
    rcases List.mem_cons.mp hb with rfl | hb
    · exact ⟨_, List.mem_cons_self, hab⟩
    · obtain ⟨a, ha, hr⟩ := ih hb
      exact ⟨a, List.mem_cons_of_mem _ ha, hr⟩

theorem image_of_forall₂ {R : α → β → Prop} {as : List α} {bs : List β} (h : List.Forall₂ R as bs)
    {a : α} (ha : a ∈ as) : ∃ b ∈ bs, R a b := by
  induction h with
  | nil => cases ha
  | cons hab _ ih =>
    rcases List.mem_cons.mp ha with rfl | ha
    · exact ⟨_, List.mem_cons_self, hab⟩
    · obtain ⟨b, hb, hr⟩ := ih ha
      exact ⟨b, List.mem_cons_of_mem _ hb, hr⟩

theorem mem_of_mapOk {f : α → Except ε β} {as : List α} {bs : List β} (h : mapOk f as = .ok bs)
    {b : β} (hb : b ∈ bs) : ∃ a ∈ as, f a = .ok b :=
  mem_of_forall₂ (mapOk_ok_iff.mp h) hb

theorem image_of_mapOk {f : α → Except ε β} {as : List α} {bs : List β} (h : mapOk f as = .ok bs)
    {a : α} (ha : a ∈ as) : ∃ b ∈ bs, f a = .ok b :=
  image_of_forall₂ (mapOk_ok_iff.mp h) ha

/-- A loop that reads each item without looking at what it has built is a `mapOk` and a fold. -/
theorem foldlM_eq_mapOk {γ : Type} (f : α → Except ε β) (g : γ → β → γ) (as : List α) (c : γ) :
    as.foldlM (fun out a => do let b ← f a; .ok (g out b)) c =
      (do let bs ← mapOk f as; .ok (bs.foldl g c)) := by
  induction as generalizing c with
  | nil => rfl
  | cons a as ih =>
    rw [List.foldlM_cons, mapOk]
    cases hfa : f a with
    | error e => rfl
    | ok b =>
      simp only [ok_bind]
      rw [ih]
      cases mapOk f as <;> rfl

/-- A projection of the values that only depends on what they were computed from. -/
theorem map_of_mapOk {γ : Type} {f : α → Except ε β} {g : β → γ} {k : α → γ} {as : List α}
    {bs : List β} (h : mapOk f as = .ok bs) (hgk : ∀ a b, f a = .ok b → g b = k a) :
    bs.map g = as.map k := by
  rw [mapOk_ok_iff] at h
  induction h with
  | nil => rfl
  | cons hab _ ih => rw [List.map_cons, List.map_cons, ih, hgk _ _ hab]

theorem mapOk_map {γ : Type} (f : α → Except ε β) (g : β → γ) (as : List α) :
    (mapOk f as).map (List.map g) = mapOk (fun a => (f a).map g) as := by
  induction as with
  | nil => rfl
  | cons a as ih =>
    unfold mapOk
    rw [← ih]
    cases f a with
    | error e => rfl
    | ok b => cases mapOk f as <;> rfl

theorem mapOk_congr {f g : α → Except ε β} {as : List α} (h : ∀ a ∈ as, f a = g a) :
    mapOk f as = mapOk g as := by
  induction as with
  | nil => rfl
  | cons a as ih =>
    unfold mapOk
    rw [h a List.mem_cons_self, ih fun b hb => h b (List.mem_cons_of_mem a hb)]

/-- A step that never raises along a list. -/
theorem exists_mapOk {f : α → Except ε β} {as : List α} (h : ∀ a ∈ as, ∃ b, f a = .ok b) :
    ∃ bs, mapOk f as = .ok bs := by
  induction as with
  | nil => exact ⟨[], rfl⟩
  | cons a as ih =>
    obtain ⟨b, hb⟩ := h a List.mem_cons_self
    obtain ⟨bs, hbs⟩ := ih fun c hc => h c (List.mem_cons_of_mem a hc)
    refine ⟨b :: bs, ?_⟩
    unfold mapOk
    rw [hb, hbs]
    rfl

theorem filterOk_of_total {p : α → Except ε Bool} {q : α → Bool} {as : List α}
    (h : ∀ a ∈ as, p a = .ok (q a)) : filterOk p as = .ok (as.filter q) := by
  induction as with
  | nil => rfl
  | cons a as ih =>
    unfold filterOk
    rw [h a List.mem_cons_self, ih fun b hb => h b (List.mem_cons_of_mem a hb)]
    simp only [ok_bind, List.filter_cons]

theorem filterOk_sublist {p : α → Except ε Bool} {as bs : List α} (h : filterOk p as = .ok bs) :
    bs.Sublist as := by
  induction as generalizing bs with
  | nil =>
    cases h
    exact List.Sublist.refl _
  | cons a as ih =>
    unfold filterOk at h
    obtain ⟨b, _, h⟩ := bind_ok_iff.mp h
    obtain ⟨rest, hrest, h⟩ := bind_ok_iff.mp h
    cases h
    cases b with
    | false => exact (ih hrest).cons a
    | true => exact (ih hrest).cons_cons a

@[simp] theorem collect_singleton {f : α → Except ε (List β)} (a : α) :
    collect f [a] = f a := by
  simp only [collect, ok_bind]
  cases f a with
  | error e => rfl
  | ok bs => simp only [ok_bind, List.append_nil]

/-- What a successful collection is made of. -/
theorem collect_eq_flatMap {f : α → Except ε (List β)} {as : List α} {out : List β}
    (h : collect f as = .ok out) :
    ∃ g : α → List β, (∀ a ∈ as, f a = .ok (g a)) ∧ out = as.flatMap g := by
  refine ⟨fun a => (f a).toOption.getD [], ?_⟩
  induction as generalizing out with
  | nil =>
    rw [collect, Except.ok.injEq] at h
    simp [← h]
  | cons a as ih =>
    simp only [collect, bind_ok_iff, Except.ok.injEq] at h
    obtain ⟨p, hp, rest, hrest, rfl⟩ := h
    obtain ⟨hsteps, hflat⟩ := ih hrest
    have hga : (f a).toOption.getD [] = p := by rw [hp]; rfl
    rw [List.forall_mem_cons, List.flatMap_cons, hga, ← hflat]
    exact ⟨⟨hp.trans (congrArg Except.ok hga.symm), hsteps⟩, rfl⟩

/-- Collecting where no step fails. -/
theorem collect_of_total {f : α → Except ε (List β)} {g : α → List β} {as : List α}
    (h : ∀ a ∈ as, f a = .ok (g a)) : collect f as = .ok (as.flatMap g) := by
  induction as with
  | nil => rfl
  | cons a as ih =>
    rw [List.forall_mem_cons] at h
    rw [collect, h.1, ih h.2]
    rfl

/-- An item is collected exactly when some step returned it. -/
theorem mem_of_collect_ok {f : α → Except ε (List β)} {as : List α} {out : List β}
    (h : collect f as = .ok out) {b : β} :
    b ∈ out ↔ ∃ a ∈ as, ∃ p, f a = .ok p ∧ b ∈ p := by
  induction as generalizing out with
  | nil =>
    simp only [collect, Except.ok.injEq] at h
    simp [← h]
  | cons a as ih =>
    simp only [collect, bind_ok_iff, Except.ok.injEq] at h
    obtain ⟨p, hp, rest, hrest, rfl⟩ := h
    simp only [List.mem_append, ih hrest, List.exists_mem_cons_iff]
    constructor
    · rintro (hb | hb)
      · exact Or.inl ⟨p, hp, hb⟩
      · exact Or.inr hb
    · rintro (⟨q, hq, hb⟩ | hb)
      · rw [hp, Except.ok.injEq] at hq
        exact Or.inl (hq ▸ hb)
      · exact Or.inr hb

/-- Every step of a successful collection succeeded. -/
theorem ok_of_collect_ok {f : α → Except ε (List β)} {as : List α} {out : List β}
    (h : collect f as = .ok out) : ∀ a ∈ as, ∃ p, f a = .ok p := by
  induction as generalizing out with
  | nil => simp
  | cons a as ih =>
    simp only [collect, bind_ok_iff] at h
    obtain ⟨p, hp, rest, hrest, -⟩ := h
    rw [List.forall_mem_cons]
    exact ⟨⟨p, hp⟩, ih hrest⟩

end Check
