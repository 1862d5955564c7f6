import Mathlib.Data.Fintype.Order
import Mathlib.Data.Set.Finite.List
import Mathlib.Data.List.Perm.Subperm
import Mathlib.Data.List.Sort
import Mathlib.Logic.Relation
import Mathlib.Order.WellFounded
import FactGraph.Lib.Dict

/-!
# Ordering by open dependencies

The queue algorithm for topological orders. Every node carries the number of its dependencies that
are still open; a node without any is queued; taking one off the queue closes it for all that depend
on it. The invariant is `Inv`: the numbers are right, what is taken or queued is exactly what has no
open dependency, and what was taken is in order. A run ends with every node exactly when the relation
has no cycle (`all_taken_iff`).
-/

namespace FactGraph.Kahn

variable {K : Type} [DecidableEq K]

/-! ## The algorithm -/

/-- Close one dependency of a node, and queue the node if it was the last one. -/
def close (s : List K × List (K × Int)) (k : K) : List K × List (K × Int) :=
  let n := (Dict.get? s.2 k).getD 0 - 1
  (if n = 0 then s.1 ++ [k] else s.1, Dict.set s.2 k n)

/-- Take nodes off the queue until it is empty; `outgoing` lists the nodes that depend on one. -/
def drain (outgoing : K → List K) : Nat → List K × List (K × Int) → List K → List K
  | 0, _, ordered => ordered
  | _ + 1, ([], _), ordered => ordered
  | n + 1, (key :: queue, degree), ordered =>
      drain outgoing n ((outgoing key).foldl close (queue, degree)) (ordered ++ [key])

/-! ## Closing a dependency -/

/-- Closing a dependency of every node of a list. -/
theorem foldl_close {ts : List K} (hts : ts.Nodup) (queue : List K) (degree : List (K × Int))
    {n : K → Int} (hn : ∀ t ∈ ts, Dict.get? degree t = some (n t)) :
    (ts.foldl close (queue, degree)).1 = queue ++ ts.filter (fun t => n t = 1) ∧
      ∀ x, Dict.get? (ts.foldl close (queue, degree)).2 x =
        if x ∈ ts then some (n x - 1) else Dict.get? degree x := by
  induction ts generalizing queue degree with
  | nil => simp
  | cons t ts ih =>
    rw [List.nodup_cons] at hts
    have ht : Dict.get? degree t = some (n t) := hn t List.mem_cons_self
    have hclose : close (queue, degree) t =
        (if n t - 1 = 0 then queue ++ [t] else queue, Dict.set degree t (n t - 1)) := by
      unfold close
      simp only [ht, Option.getD_some]
    have hrest : ∀ u ∈ ts, Dict.get? (Dict.set degree t (n t - 1)) u = some (n u) := by
      intro u hu
      have hne : u ≠ t := fun heq => hts.1 (heq ▸ hu)
      rw [Dict.get?_set_of_ne hne]
      exact hn u (List.mem_cons_of_mem _ hu)
    rcases ih hts.2 (if n t - 1 = 0 then queue ++ [t] else queue) (Dict.set degree t (n t - 1))
      hrest with ⟨hqueue, hdegree⟩
    rw [List.foldl_cons, hclose]
    constructor
    · rw [hqueue, List.filter_cons]
      by_cases hone : n t = 1
      · simp [hone]
      · have hzero : ¬ n t - 1 = 0 := by omega
        simp [hone, hzero]
    · intro x
      rw [hdegree x]
      by_cases hx : x = t
      · subst hx
        simp [hts.1, Dict.get?_set_self]
      · simp [hx, Dict.get?_set_of_ne hx]

/-! ## The invariant -/

section Inv

variable (nodes : List K) (E : K → K → Prop) [DecidableRel E]

/-- The dependencies of a node that are not closed yet. -/
def pending (k : K) (closed : List K) : Nat :=
  (nodes.filter fun d => E k d ∧ d ∉ closed).length

/-- Every dependency of a node stands before it. -/
def InOrder (ordered : List K) : Prop :=
  ∀ front k back, ordered = front ++ k :: back → ∀ d ∈ nodes, E k d → d ∈ front

/-- What holds between two steps. -/
structure Inv (queue : List K) (degree : List (K × Int)) (ordered : List K) : Prop where
  degree : ∀ k ∈ nodes, Dict.get? degree k = some (pending nodes E k ordered : Int)
  nodup : (ordered ++ queue).Nodup
  ready : ∀ k, k ∈ ordered ++ queue ↔ k ∈ nodes ∧ pending nodes E k ordered = 0
  inOrder : InOrder nodes E ordered

variable {nodes} {E}

theorem pending_eq_zero_iff {k : K} {closed : List K} :
    pending nodes E k closed = 0 ↔ ∀ d ∈ nodes, E k d → d ∈ closed := by
  unfold pending
  rw [List.length_eq_zero_iff, List.filter_eq_nil_iff]
  simp only [decide_eq_true_eq, not_and, not_not]

/-- Closing one more node closes one dependency of the nodes that depend on it. -/
theorem pending_append (hnodes : nodes.Nodup) {k key : K} {closed : List K} (hkey : key ∈ nodes)
    (hopen : key ∉ closed) :
    pending nodes E k closed =
      pending nodes E k (closed ++ [key]) + if E k key then 1 else 0 := by
  unfold pending
  by_cases hE : E k key
  · have hperm : (nodes.filter fun d => E k d ∧ d ∉ closed).Perm
        (key :: nodes.filter fun d => E k d ∧ d ∉ closed ++ [key]) := by
      apply (List.perm_ext_iff_of_nodup (hnodes.filter _) _).mpr
      · intro d
        simp only [List.mem_filter, List.mem_cons, List.mem_append, List.not_mem_nil, or_false,
          decide_eq_true_eq, not_or]
        constructor
        · intro h
          by_cases hd : d = key
          · exact .inl hd
          · exact .inr ⟨h.1, h.2.1, h.2.2, hd⟩
        · intro h
          rcases h with rfl | h
          · exact ⟨hkey, hE, hopen⟩
          · exact ⟨h.1, h.2.1, h.2.2.1⟩
      · rw [List.nodup_cons]
        exact ⟨by simp, hnodes.filter _⟩
    rw [hperm.length_eq, List.length_cons, if_pos hE]
  · rw [if_neg hE, Nat.add_zero]
    congr 1
    apply List.filter_congr
    intro d _
    have hd : E k d → d ≠ key := fun h heq => hE (heq ▸ h)
    simp only [List.mem_append, List.mem_singleton, not_or, decide_eq_decide]
    exact ⟨fun h => ⟨h.1, h.2, hd h.1⟩, fun h => ⟨h.1, h.2.1⟩⟩

/-- **One step keeps the invariant.** -/
theorem Inv.step (hnodes : nodes.Nodup) {outgoing : K → List K}
    (hout : ∀ d, (outgoing d).Nodup ∧ ∀ k, k ∈ outgoing d ↔ k ∈ nodes ∧ E k d)
    {key : K} {queue : List K} {degree : List (K × Int)} {ordered : List K}
    (h : Inv nodes E (key :: queue) degree ordered) :
    Inv nodes E ((outgoing key).foldl close (queue, degree)).1
      ((outgoing key).foldl close (queue, degree)).2 (ordered ++ [key]) := by
  have hkey := (h.ready key).mp (by simp)
  have hopen : key ∉ ordered := by
    have hdisj := (List.nodup_append.mp h.nodup).2.2
    exact fun hmem => hdisj key hmem key List.mem_cons_self rfl
  have hsplit : ∀ k, pending nodes E k ordered =
      pending nodes E k (ordered ++ [key]) + if E k key then 1 else 0 := fun k =>
    pending_append hnodes hkey.1 hopen
  rcases foldl_close (hout key).1 queue degree (n := fun k => (pending nodes E k ordered : Int))
    (fun t ht => h.degree t (((hout key).2 t).mp ht).1) with ⟨hqueue, hdegree⟩
  -- a node is queued now when this was its last open dependency
  have hqueued : ∀ k, k ∈ (outgoing key).filter (fun t => (pending nodes E t ordered : Int) = 1) ↔
      k ∈ nodes ∧ pending nodes E k (ordered ++ [key]) = 0 ∧ E k key := by
    intro k
    rw [List.mem_filter, (hout key).2, decide_eq_true_eq]
    have hk := hsplit k
    constructor
    · intro hmem
      rw [if_pos hmem.1.2] at hk
      exact ⟨hmem.1.1, by omega, hmem.1.2⟩
    · intro hmem
      rw [if_pos hmem.2.2] at hk
      exact ⟨⟨hmem.1, hmem.2.2⟩, by omega⟩
  have hold : ∀ k, k ∈ ordered ++ key :: queue ↔
      k ∈ nodes ∧ pending nodes E k (ordered ++ [key]) = 0 ∧ ¬ E k key := by
    intro k
    rw [h.ready k]
    have hk := hsplit k
    by_cases hE : E k key
    · rw [if_pos hE] at hk
      exact ⟨fun hmem => absurd hmem.2 (by omega), fun hmem => absurd hE hmem.2.2⟩
    · rw [if_neg hE] at hk
      exact ⟨fun hmem => ⟨hmem.1, by omega, hE⟩, fun hmem => ⟨hmem.1, by omega⟩⟩
  refine ⟨?_, ?_, ?_, ?_⟩
  · intro k hk
    rw [hdegree k]
    have hcount := hsplit k
    by_cases hE : E k key
    · rw [if_pos (((hout key).2 k).mpr ⟨hk, hE⟩)]
      rw [if_pos hE] at hcount
      congr 1
      omega
    · rw [if_neg fun hmem => hE (((hout key).2 k).mp hmem).2, h.degree k hk]
      rw [if_neg hE] at hcount
      rw [hcount, Nat.add_zero]
  · rw [hqueue, List.append_assoc, List.singleton_append, ← List.cons_append, ← List.append_assoc]
    apply List.Nodup.append h.nodup ((hout key).1.filter _)
    intro k hk hk'
    exact ((hold k).mp hk).2.2 ((hqueued k).mp hk').2.2
  · intro k
    rw [hqueue, List.append_assoc, List.singleton_append, ← List.cons_append, ← List.append_assoc,
      List.mem_append, hold, hqueued]
    by_cases hE : E k key <;> simp [hE]
  · intro front k back heq d hd hE
    rcases List.append_eq_append_iff.mp heq with ⟨mid, hfront, hmid⟩ | ⟨mid, hordered, hmid⟩
    · -- the node taken last
      rcases List.singleton_eq_append_iff.mp hmid with ⟨rfl, hlast⟩ | ⟨_, hnil⟩
      · rw [List.append_nil] at hfront
        rw [hfront]
        cases (List.cons.inj hlast).1
        exact pending_eq_zero_iff.mp hkey.2 d hd hE
      · cases hnil
    · cases mid with
      | nil =>
        rw [List.append_nil] at hordered
        rw [List.nil_append] at hmid
        cases (List.cons.inj hmid).1
        exact hordered ▸ pending_eq_zero_iff.mp hkey.2 d hd hE
      | cons k' mid =>
        rcases List.cons.inj hmid with ⟨rfl, _⟩
        exact h.inOrder front k mid hordered d hd hE

/-! ## Whole runs -/

theorem Inv.length_le {queue : List K} {degree : List (K × Int)}
    {ordered : List K} (h : Inv nodes E queue degree ordered) :
    (ordered ++ queue).length ≤ nodes.length := by
  have hsub : ordered ++ queue ⊆ nodes := fun k hk => ((h.ready k).mp hk).1
  exact (List.subperm_of_subset h.nodup hsub).length_le

/-- **A run with enough fuel ends with an empty queue.** -/
theorem drain_inv (hnodes : nodes.Nodup) {outgoing : K → List K}
    (hout : ∀ d, (outgoing d).Nodup ∧ ∀ k, k ∈ outgoing d ↔ k ∈ nodes ∧ E k d) (fuel : Nat)
    {queue : List K} {degree : List (K × Int)} {ordered : List K}
    (h : Inv nodes E queue degree ordered) (hfuel : nodes.length ≤ ordered.length + fuel) :
    ∃ degree', Inv nodes E [] degree' (drain outgoing fuel (queue, degree) ordered) := by
  induction fuel generalizing queue degree ordered with
  | zero =>
    have hlen := h.length_le
    rw [List.length_append] at hlen
    have hempty : queue = [] := List.length_eq_zero_iff.mp (by omega)
    exact ⟨degree, hempty ▸ h⟩
  | succ n ih =>
    cases queue with
    | nil => exact ⟨degree, h⟩
    | cons key queue =>
      apply ih (h.step hnodes hout)
      rw [List.length_append, List.length_singleton]
      omega

/-- The relation, on the nodes. -/
def DependsOn (nodes : List K) (E : K → K → Prop) (k d : K) : Prop := k ∈ nodes ∧ d ∈ nodes ∧ E k d

omit [DecidableEq K] [DecidableRel E] in
/-- In an order, a node comes after everything it depends on in any number of steps. -/
theorem InOrder.transGen {ordered : List K} (h : InOrder nodes E ordered) {k d : K}
    (hkd : Relation.TransGen (DependsOn nodes E) k d) {front back : List K}
    (hk : ordered = front ++ k :: back) : d ∈ front := by
  induction hkd using Relation.TransGen.head_induction_on generalizing front back with
  | single hstep => exact h front _ back hk _ hstep.2.1 hstep.2.2
  | head hstep _ ih =>
    rcases List.append_of_mem (h front _ back hk _ hstep.2.1 hstep.2.2) with ⟨l, r, rfl⟩
    have hd := @ih l (r ++ _ :: back) (by rw [hk, List.append_assoc, List.cons_append])
    exact List.mem_append_left _ hd

omit [DecidableEq K] [DecidableRel E] in
/-- A set of nodes each of which depends on one of the set has a cycle in it. -/
theorem exists_cycle {S : K → Prop} (hS : ∀ k, S k → k ∈ nodes) {k : K} (hk : S k)
    (hnext : ∀ k, S k → ∃ d, S d ∧ E k d) :
    ∃ k, Relation.TransGen (DependsOn nodes E) k k := by
  by_contra hno
  have hfin : Finite {k // k ∈ nodes} :=
    nodes.finite_toSet
  let R : {k // k ∈ nodes} → {k // k ∈ nodes} → Prop := fun d k =>
    Relation.TransGen (DependsOn nodes E) k.1 d.1
  have hirrefl : Std.Irrefl R := ⟨fun x hx => hno ⟨x.1, hx⟩⟩
  have htrans : IsTrans _ R := ⟨fun _ _ _ hab hbc => hbc.trans hab⟩
  have hwf : WellFounded R := Finite.wellFounded_of_trans_of_irrefl R
  rcases hwf.has_min {x | S x.1} ⟨⟨k, hS k hk⟩, hk⟩ with ⟨m, hm, hmin⟩
  rcases hnext m.1 hm with ⟨d, hd, hE⟩
  exact hmin ⟨d, hS d hd⟩ hd (.single ⟨m.2, hS d hd, hE⟩)

/-- **A run takes every node exactly when the relation has no cycle.** -/
theorem all_taken_iff {degree : List (K × Int)} {ordered : List K} (hnodes : nodes.Nodup)
    (h : Inv nodes E [] degree ordered) :
    ordered.length = nodes.length ↔ ¬ ∃ k, Relation.TransGen (DependsOn nodes E) k k := by
  have hnodup : ordered.Nodup := by simpa using h.nodup
  have hsub : ordered ⊆ nodes := fun k hk => ((h.ready k).mp (by simpa using hk)).1
  constructor
  · intro hlen hcycle
    rcases hcycle with ⟨k, hk⟩
    have hperm : ordered.Perm nodes :=
      (List.subperm_of_subset hnodup hsub).perm_of_length_le (by omega)
    have hmem : k ∈ nodes := by
      rcases Relation.TransGen.head'_iff.mp hk with ⟨_, hstep, _⟩
      exact hstep.1
    rcases List.append_of_mem (hperm.mem_iff.mpr hmem) with ⟨front, back, hsplit⟩
    have hfront := h.inOrder.transGen hk hsplit
    rw [hsplit] at hnodup
    exact (List.nodup_append.mp hnodup).2.2 k hfront k List.mem_cons_self rfl
  · intro hno
    by_contra hlen
    have hlt : ¬ nodes ⊆ ordered := fun hall =>
      hlen (Nat.le_antisymm (List.subperm_of_subset hnodup hsub).length_le
        (List.subperm_of_subset hnodes hall).length_le)
    rw [List.subset_def] at hlt
    push Not at hlt
    rcases hlt with ⟨k, hk, hleft⟩
    apply hno
    apply exists_cycle (S := fun k => k ∈ nodes ∧ k ∉ ordered) (fun _ h => h.1) ⟨hk, hleft⟩
    intro k hk
    -- a node that is left has an open dependency, which is left too
    by_contra hnone
    apply hk.2
    have hready : k ∈ ordered ++ [] := by
      apply (h.ready k).mpr
      refine ⟨hk.1, pending_eq_zero_iff.mpr ?_⟩
      intro d hd hE
      by_contra hopen
      exact hnone ⟨d, ⟨hd, hopen⟩, hE⟩
    simpa using hready

end Inv

end FactGraph.Kahn
