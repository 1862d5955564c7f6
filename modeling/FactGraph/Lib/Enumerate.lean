import Mathlib.Data.List.Lex
import Mathlib.Data.List.Perm.Basic

/-!
# Enumerations in the order of choices

A search that tries the candidates of one level after the other visits its solutions in the
lexicographic order of the choices that lead to them. `Enumerates n out R` says that `out` is
that visit: every solution of `R`, once for each choice sequence that yields it, in the order
of the sequences, which all have length `n`.

The relation `R` fixes the list (`Enumerates.unique`), so "the list of all solutions, in order"
can be spoken of without naming the program that computes it. The rules build enumerations the
way a nested loop does: a loop over a list, a filter, one search inside another.
-/

namespace Enumeration

variable {α β : Type*}

/-- `out` lists the solutions of `R` in the order of their choices. -/
def Enumerates (n : Nat) (out : List α) (R : List Nat → α → Prop) : Prop :=
  ∃ l : List (List Nat × α), out = l.map Prod.snd ∧ (∀ p ∈ l, p.1.length = n) ∧
    l.Pairwise (fun p q => p.1 < q.1) ∧ ∀ c a, (c, a) ∈ l ↔ R c a

/-! ## The order of choices -/

/-- Between sequences of one length, what comes first decides. -/
theorem append_lt_append {c c' : List Nat} (h : c < c') (hlen : c.length = c'.length)
    (d d' : List Nat) : c ++ d < c' ++ d' := by
  induction c generalizing c' with
  | nil =>
    rw [List.length_nil, eq_comm, List.length_eq_zero_iff] at hlen
    exact absurd h (by simp [hlen])
  | cons i c ih =>
    cases c' with
    | nil => simp at hlen
    | cons j c' =>
      rw [List.cons_lt_cons_iff] at h
      rw [List.cons_append, List.cons_append, List.cons_lt_cons_iff]
      rcases h with hij | ⟨rfl, hc⟩
      · exact Or.inl hij
      · exact Or.inr ⟨rfl, ih hc (by simpa using hlen)⟩

theorem append_lt_append_left {d d' : List Nat} (h : d < d') (c : List Nat) :
    c ++ d < c ++ d' := by
  induction c with
  | nil => exact h
  | cons i c ih => exact List.cons_lt_cons_iff.mpr (Or.inr ⟨rfl, ih⟩)

/-! ## Reading an enumeration -/

theorem Enumerates.mem_iff {n : Nat} {out : List α} {R : List Nat → α → Prop}
    (h : Enumerates n out R) {a : α} : a ∈ out ↔ ∃ c, R c a := by
  obtain ⟨l, rfl, -, -, hl⟩ := h
  simp [← hl]

theorem Enumerates.eq_nil_iff {n : Nat} {out : List α} {R : List Nat → α → Prop}
    (h : Enumerates n out R) : out = [] ↔ ¬ ∃ c a, R c a := by
  rw [List.eq_nil_iff_forall_not_mem]
  simp only [h.mem_iff]
  grind

/-- A relation has one enumeration. -/
theorem Enumerates.unique {n m : Nat} {out out' : List α} {R : List Nat → α → Prop}
    (h : Enumerates n out R) (h' : Enumerates m out' R) : out = out' := by
  obtain ⟨l, rfl, -, hsorted, hl⟩ := h
  obtain ⟨l', rfl, -, hsorted', hl'⟩ := h'
  have hnodup : ∀ {k : List (List Nat × α)}, k.Pairwise (fun p q => p.1 < q.1) → k.Nodup :=
    fun hk => hk.imp fun hlt heq => absurd hlt (by rw [heq]; exact lt_irrefl _)
  have hperm : l.Perm l' := by
    rw [List.perm_ext_iff_of_nodup (hnodup hsorted) (hnodup hsorted')]
    rintro ⟨c, a⟩
    rw [hl, hl']
  rw [hperm.eq_of_pairwise (fun p q _ _ hpq hqp => absurd hpq (lt_asymm hqp)) hsorted hsorted']

/-! ## Building an enumeration -/

theorem Enumerates.congr {n : Nat} {out : List α} {R S : List Nat → α → Prop}
    (h : Enumerates n out R) (hRS : ∀ c a, R c a ↔ S c a) : Enumerates n out S := by
  obtain ⟨l, hout, hlen, hsorted, hl⟩ := h
  exact ⟨l, hout, hlen, hsorted, fun c a => (hl c a).trans (hRS c a)⟩

/-- No choice to make, and at most one solution. -/
theorem enumerates_of_forall {out : List α} {R : List Nat → α → Prop}
    (hshort : out.length ≤ 1) (hR : ∀ c a, R c a ↔ c = [] ∧ a ∈ out) : Enumerates 0 out R := by
  refine ⟨out.map fun a => ([], a), by simp [Function.comp_def], by simp, ?_, fun c a => ?_⟩
  · match out, hshort with
    | [], _ => simp
    | [_], _ => simp
  · rw [hR]
    simp [and_comm, eq_comm]

theorem enumerates_nil {n : Nat} {R : List Nat → α → Prop} (hR : ∀ c a, ¬ R c a) :
    Enumerates n [] R :=
  ⟨[], rfl, by simp, by simp, fun c a => by simp [hR c a]⟩

theorem pairwise_zipIdx_filterMap (g : β → Option α) (l : List β) (k : Nat) :
    ((l.zipIdx k).filterMap fun p => (g p.1).map fun a => ([p.2], a)).Pairwise
      (fun p q => p.1 < q.1) ∧
    ∀ q ∈ (l.zipIdx k).filterMap (fun p => (g p.1).map fun a => ([p.2], a)), [k] ≤ q.1 := by
  induction l generalizing k with
  | nil => simp
  | cons b l ih =>
    obtain ⟨hsorted, hge⟩ := ih (k + 1)
    have hk : [k] < [k + 1] := List.cons_lt_cons_iff.mpr (Or.inl (Nat.lt_succ_self k))
    have hgt : ∀ q ∈ ((l.zipIdx (k + 1)).filterMap fun p => (g p.1).map fun a => ([p.2], a)),
        [k] < q.1 := fun q hq => lt_of_lt_of_le hk (hge q hq)
    rw [List.zipIdx_cons, List.filterMap_cons]
    cases hg : g b with
    | none =>
      simp only [Option.map_none]
      exact ⟨hsorted, fun q hq => le_of_lt (hgt q hq)⟩
    | some a =>
      simp only [Option.map_some, List.pairwise_cons, List.forall_mem_cons]
      exact ⟨⟨hgt, hsorted⟩, le_refl _, fun q hq => le_of_lt (hgt q hq)⟩

/-- A loop over a list: the choice is a position. -/
theorem enumerates_filterMap (g : β → Option α) (l : List β) :
    Enumerates 1 (l.filterMap g)
      (fun c a => ∃ i b, c = [i] ∧ l[i]? = some b ∧ g b = some a) := by
  refine ⟨(l.zipIdx 0).filterMap fun p => (g p.1).map fun a => ([p.2], a), ?_, ?_,
    (pairwise_zipIdx_filterMap g l 0).1, fun c a => ?_⟩
  · rw [List.map_filterMap]
    conv_lhs => rw [← List.zipIdx_map_fst 0 l, List.filterMap_map]
    congr 1
    funext p
    simp only [Function.comp_apply, Option.map_map]
    cases g p.1 <;> rfl
  · intro p hp
    simp only [List.mem_filterMap, Option.map_eq_some_iff] at hp
    obtain ⟨-, -, -, -, rfl⟩ := hp
    rfl
  · simp only [List.mem_filterMap, Option.map_eq_some_iff, Prod.exists, Prod.mk.injEq,
      List.mem_zipIdx_iff_getElem?]
    constructor
    · rintro ⟨b, i, hb, a', hg, rfl, rfl⟩
      exact ⟨i, b, rfl, hb, hg⟩
    · rintro ⟨i, b, rfl, hb, hg⟩
      exact ⟨b, i, hb, a, hg, rfl, rfl⟩

/-- One search inside another: the outer choices come first. What the inner search starts from
may carry more than the outer solution `π a` says. -/
theorem Enumerates.flatMap {γ : Type*} {n m : Nat} {as : List α} {π : α → β}
    {R : List Nat → β → Prop} (h : Enumerates n (as.map π) R) {f : α → List γ}
    {S : β → List Nat → γ → Prop} (hf : ∀ a ∈ as, Enumerates m (f a) (S (π a))) :
    Enumerates (n + m) (as.flatMap f)
      (fun c g => ∃ c₁ c₂ b, c = c₁ ++ c₂ ∧ R c₁ b ∧ S b c₂ g) := by
  obtain ⟨l, hout, hlen, hsorted, hl⟩ := h
  simp only [← hl]
  clear hl R
  induction as generalizing l with
  | nil =>
    rw [List.map_nil, eq_comm, List.map_eq_nil_iff] at hout
    subst hout
    exact enumerates_nil (by simp)
  | cons a as ih =>
    obtain ⟨p, l, rfl⟩ : ∃ p l', l = p :: l' := by
      cases l with
      | nil => simp at hout
      | cons p l => exact ⟨p, l, rfl⟩
    rw [List.map_cons, List.map_cons, List.cons.injEq] at hout
    rw [List.forall_mem_cons] at hlen hf
    rw [List.pairwise_cons] at hsorted
    obtain ⟨ih_l, ih_out, ih_len, ih_sorted, ih_mem⟩ := ih hf.2 l hout.2 hlen.2 hsorted.2
    obtain ⟨k, hk_out, hk_len, hk_sorted, hk_mem⟩ := hf.1
    rw [hout.1] at hk_mem
    refine ⟨k.map (fun q => (p.1 ++ q.1, q.2)) ++ ih_l, ?_, ?_, ?_, fun c g => ?_⟩
    · simp [hk_out, ← ih_out, Function.comp_def]
    · intro q hq
      rcases List.mem_append.mp hq with hq | hq
      · obtain ⟨q', hq', rfl⟩ := List.mem_map.mp hq
        simp [hlen.1, hk_len q' hq']
      · exact ih_len q hq
    · refine List.pairwise_append.mpr ⟨?_, ih_sorted, ?_⟩
      · exact List.pairwise_map.mpr (hk_sorted.imp fun hlt => append_lt_append_left hlt p.1)
      · rintro q hq ⟨c, g⟩ hr
        obtain ⟨q', -, rfl⟩ := List.mem_map.mp hq
        obtain ⟨c₁, c₂, b, rfl, hb, -⟩ := (ih_mem c g).mp hr
        exact append_lt_append (hsorted.1 _ hb) ((hlen.1).trans (hlen.2 _ hb).symm) _ _
    · rw [List.mem_append, ih_mem, List.mem_map]
      constructor
      · rintro (⟨q, hq, heq⟩ | ⟨c₁, c₂, b, rfl, hb, hg⟩)
        · rw [Prod.mk.injEq] at heq
          obtain ⟨rfl, rfl⟩ := heq
          exact ⟨p.1, q.1, p.2, rfl, List.mem_cons_self, (hk_mem _ _).mp hq⟩
        · exact ⟨c₁, c₂, b, rfl, List.mem_cons_of_mem _ hb, hg⟩
      · rintro ⟨c₁, c₂, b, rfl, hb, hg⟩
        rcases List.mem_cons.mp hb with heq | hb
        · rw [← heq] at hk_mem ⊢
          exact Or.inl ⟨(c₂, g), (hk_mem _ _).mpr hg, rfl⟩
        · exact Or.inr ⟨c₁, c₂, b, rfl, hb, hg⟩

end Enumeration
