import Mathlib.Tactic.TypeStar

/-!
# Write-through sessions

A store with a durable part `D` and a cache `M` of it writes in two stages. The **body** works on the
durable part inside a transaction: if it raises, the transaction is rolled back and nothing has
happened. Only when the body has committed is the **hook** it returns run on the cache; a hook is
ordinary code, so it may itself raise half way, and then the cache keeps what it did until then.

`Session.run` is that control flow. `Hook.Total` singles out the hooks that never raise: for a
session whose hook is total, an error means that neither part has changed.
-/

namespace Session

variable {D M E : Type*}

/-! ## Hooks -/

/-- Code that updates a cache and may stop with an error, keeping what it has done. -/
abbrev Hook (M E : Type*) := M → M × Except E Unit

namespace Hook

/-- Update the cache. -/
def step (f : M → M) : Hook M E := fun m => (f m, .ok ())

/-- Raise. -/
def fail (e : E) : Hook M E := fun m => (m, .error e)

/-- One hook, then another if the first did not raise. -/
def andThen (h k : Hook M E) : Hook M E := fun m =>
  match h m with
  | (m', .ok ()) => k m'
  | (m', .error e) => (m', .error e)

/-- A computation that may raise, then the hook it returns. -/
def bind {A : Type*} (x : Except E A) (k : A → Hook M E) : Hook M E := fun m =>
  match x with
  | .ok a => k a m
  | .error e => (m, .error e)

/-- One hook for every item of a list, in order. -/
def each {A : Type*} (h : A → Hook M E) : List A → Hook M E
  | [] => step id
  | a :: as => andThen (h a) (each h as)

/-- The hook never raises, and does `f`. -/
def Total (h : Hook M E) (f : M → M) : Prop := ∀ m, h m = (f m, .ok ())

theorem total_step (f : M → M) : Total (step f : Hook M E) f := fun _ => rfl

theorem Total.andThen {h k : Hook M E} {f g : M → M} (hh : Total h f) (hk : Total k g) :
    Total (andThen h k) (g ∘ f) := by
  intro m
  simp only [Hook.andThen, hh m, hk (f m), Function.comp_apply]

theorem total_bind {A : Type*} {x : Except E A} {a : A} {k : A → Hook M E} {f : M → M}
    (hx : x = .ok a) (hk : Total (k a) f) : Total (bind x k) f := by
  intro m
  simp only [bind, hx, hk m]

theorem exists_total_each {A : Type*} {h : A → Hook M E} :
    ∀ {as : List A}, (∀ a ∈ as, ∃ f, Total (h a) f) → ∃ f, Total (each h as) f
  | [], _ => ⟨id, total_step id⟩
  | a :: as, hall => by
      obtain ⟨f, hf⟩ := hall a List.mem_cons_self
      obtain ⟨g, hg⟩ := exists_total_each fun b hb => hall b (List.mem_cons_of_mem a hb)
      exact ⟨g ∘ f, hf.andThen hg⟩

/-- The hook keeps `P`, also where it stops half way. -/
def Preserves (P : M → Prop) (h : Hook M E) : Prop := ∀ m, P m → P (h m).1

variable {P : M → Prop}

theorem preserves_step {f : M → M} (hf : ∀ m, P m → P (f m)) : Preserves P (step f : Hook M E) := hf

theorem preserves_fail (e : E) : Preserves P (fail e : Hook M E) := fun _ hm => hm

theorem Preserves.andThen {h k : Hook M E} (hh : Preserves P h) (hk : Preserves P k) :
    Preserves P (andThen h k) := by
  intro m hm
  have hm' : P (h m).1 := hh m hm
  unfold Hook.andThen
  rcases hr : h m with ⟨m', _ | _⟩
  · simpa [hr] using hm'
  · rw [hr] at hm'
    exact hk m' hm'

theorem preserves_bind {A : Type*} {x : Except E A} {k : A → Hook M E}
    (hk : ∀ a, x = .ok a → Preserves P (k a)) : Preserves P (bind x k) := by
  intro m hm
  unfold Hook.bind
  cases hx : x with
  | error e => exact hm
  | ok a => exact hk a hx m hm

theorem preserves_each {A : Type*} {h : A → Hook M E} :
    ∀ {as : List A}, (∀ a ∈ as, Preserves P (h a)) → Preserves P (each h as)
  | [], _ => fun _ hm => hm
  | a :: as, hall =>
      (hall a (by simp)).andThen (preserves_each fun b hb => hall b (List.mem_cons_of_mem a hb))

/-! ### Hooks that return, raise, or bring something about -/

/-- Wherever `P` holds, the hook does not raise. -/
def Returns (P : M → Prop) (h : Hook M E) : Prop := ∀ m, P m → (h m).2 = .ok ()

theorem returns_step (f : M → M) : Returns P (step f : Hook M E) := fun _ _ => rfl

theorem Total.returns {h : Hook M E} {f : M → M} (ht : Total h f) : Returns P h := by
  intro m _
  rw [ht m]

theorem Returns.andThen {h k : Hook M E} (hh : Returns P h) (hp : Preserves P h)
    (hk : Returns P k) : Returns P (andThen h k) := by
  intro m hm
  have hok := hh m hm
  have hm' := hp m hm
  unfold Hook.andThen
  rcases hr : h m with ⟨m', e | u⟩
  · rw [hr] at hok
    cases hok
  · rw [hr] at hm'
    exact hk m' hm'

theorem returns_each {A : Type*} {h : A → Hook M E} :
    ∀ {as : List A}, (∀ a ∈ as, Returns P (h a) ∧ Preserves P (h a)) → Returns P (each h as)
  | [], _ => returns_step id
  | a :: as, hall =>
      (hall a (by simp)).1.andThen (hall a (by simp)).2
        (returns_each fun b hb => hall b (List.mem_cons_of_mem a hb))

/-- The hook raises, wherever it starts. -/
def Raises (h : Hook M E) : Prop := ∀ m, ∃ e, (h m).2 = .error e

theorem Raises.andThen {h : Hook M E} (hh : Raises h) (k : Hook M E) : Raises (andThen h k) := by
  intro m
  obtain ⟨e, he⟩ := hh m
  unfold Hook.andThen
  rcases hr : h m with ⟨m', e' | u⟩
  · exact ⟨e', rfl⟩
  · rw [hr] at he
    cases he

theorem Raises.afterwards {k : Hook M E} (h : Hook M E) (hk : Raises k) :
    Raises (Hook.andThen h k) := by
  intro m
  unfold Hook.andThen
  rcases hr : h m with ⟨m', e' | u⟩
  · exact ⟨e', rfl⟩
  · exact hk m'

theorem raises_each {A : Type*} {h : A → Hook M E} {a : A} (ha : Raises (h a)) :
    ∀ {as : List A}, a ∈ as → Raises (each h as)
  | b :: as, hmem => by
      rcases List.mem_cons.mp hmem with rfl | hmem
      · exact ha.andThen _
      · exact Raises.afterwards _ (raises_each ha hmem)

/-- If the hook returns, `P` holds. -/
def Ensures (P : M → Prop) (h : Hook M E) : Prop := ∀ m, (h m).2 = .ok () → P (h m).1

theorem ensures_step {f : M → M} (hf : ∀ m, P (f m)) : Ensures P (step f : Hook M E) :=
  fun m _ => hf m

theorem Ensures.andThen {h k : Hook M E} (hh : Ensures P h) (hk : Preserves P k) :
    Ensures P (andThen h k) := by
  intro m hok
  have hm' := hh m
  unfold Hook.andThen at hok ⊢
  rcases hr : h m with ⟨m', e | u⟩
  · rw [hr] at hok
    cases hok
  · rw [hr] at hm'
    exact hk m' (hm' rfl)

theorem Ensures.afterwards {k : Hook M E} (h : Hook M E) (hk : Ensures P k) :
    Ensures P (Hook.andThen h k) := by
  intro m hok
  unfold Hook.andThen at hok ⊢
  rcases hr : h m with ⟨m', e | u⟩
  · rw [hr] at hok
    cases hok
  · rw [hr] at hok
    exact hk m' hok

/-- What one hook of a list ensures, if the hooks after it keep it. -/
theorem ensures_each {A : Type*} {h : A → Hook M E} {a : A} (ha : Ensures P (h a)) :
    ∀ {before after : List A}, (∀ b ∈ after, Preserves P (h b)) →
      Ensures P (each h (before ++ a :: after)) := by
  intro before after hafter
  induction before with
  | nil => exact ha.andThen (preserves_each hafter)
  | cons b before ih => exact Ensures.afterwards _ ih

end Hook

/-! ## Sessions -/

/-- `BEGIN`, the body, `COMMIT`, the hook; an error of the body is a `ROLLBACK`. -/
def run (body : D → Except E (D × Hook M E)) (s : D × M) : (D × M) × Except E Unit :=
  match body s.1 with
  | .error e => (s, .error e)
  | .ok (d, hook) => ((d, (hook s.2).1), (hook s.2).2)

theorem run_of_error {body : D → Except E (D × Hook M E)} {s : D × M} {e : E}
    (h : body s.1 = .error e) : run body s = (s, .error e) := by
  simp [run, h]

theorem run_of_ok {body : D → Except E (D × Hook M E)} {s : D × M} {d : D} {hook : Hook M E}
    (h : body s.1 = .ok (d, hook)) : run body s = ((d, (hook s.2).1), (hook s.2).2) := by
  simp [run, h]

/-- A session that returns has committed, and its hook has run to the end. -/
theorem run_ok_iff {body : D → Except E (D × Hook M E)} {s s' : D × M} :
    run body s = (s', .ok ()) ↔
      ∃ hook, body s.1 = .ok (s'.1, hook) ∧ hook s.2 = (s'.2, .ok ()) := by
  obtain ⟨d', m'⟩ := s'
  cases hb : body s.1 with
  | error e => simp [run_of_error hb]
  | ok r =>
    obtain ⟨d, hook⟩ := r
    rw [run_of_ok hb]
    cases hm : hook s.2 with
    | mk m r =>
      simp only [Prod.mk.injEq, Except.ok.injEq]
      constructor
      · rintro ⟨⟨rfl, rfl⟩, rfl⟩
        exact ⟨hook, ⟨rfl, rfl⟩, hm⟩
      · rintro ⟨hook', ⟨rfl, rfl⟩, hm'⟩
        rw [hm] at hm'
        simpa using hm'

/-- **Atomicity.** A session leaves both parts alone when it raises, exactly if its body raised or
its hook raises without having done anything. -/
theorem run_error_unchanged_iff {body : D → Except E (D × Hook M E)} {s : D × M} :
    (∀ e, (run body s).2 = .error e → (run body s).1 = s) ↔
      ∀ d hook, body s.1 = .ok (d, hook) →
        (hook s.2).2 = .ok () ∨ (d = s.1 ∧ (hook s.2).1 = s.2) := by
  obtain ⟨d₀, m₀⟩ := s
  cases hb : body d₀ with
  | error e => simp [run_of_error (s := (d₀, m₀)) hb]
  | ok r =>
    obtain ⟨d, hook⟩ := r
    rw [run_of_ok (s := (d₀, m₀)) hb]
    simp only [Except.ok.injEq, Prod.mk.injEq]
    constructor
    · rintro h d' hook' ⟨rfl, rfl⟩
      cases hm : (hook m₀).2 with
      | ok u => exact .inl rfl
      | error e => exact .inr (h e hm)
    · intro h e he
      rcases h d hook ⟨rfl, rfl⟩ with hok | hsame
      · rw [hok] at he
        cases he
      · exact hsame

end Session
