import Mathlib.Algebra.BigOperators.Group.Multiset.Basic
import Mathlib.Data.ZMod.Basic
import FactGraph.Db.Tokens

/-!
# The accumulator as a sum

`core/protocol/lthash.py`: the lanes of a state are numbers modulo `2 ^ 16`, and adding or removing an
element adds or subtracts the lanes of its hash. So the lanes after any run of additions and removals
are those before it and a sum over the run, in whatever order it went (`lanes_run`), and the lanes of a
set of elements are the value of a homomorphism from multisets (`laneSum`). A state is no more than its
lanes (`lanes_injective`).
-/

namespace FactGraph.Db

open Protocol Check

/-! ## Lanes -/

/-- The lanes of a byte string, low byte first. -/
def laneBytes : List UInt8 → List (ZMod 65536)
  | lo :: hi :: rest => ((lo.toNat + 256 * hi.toNat : ℕ) : ZMod 65536) :: laneBytes rest
  | _ => []

theorem length_laneBytes : ∀ (n : Nat) (xs : List UInt8), xs.length = 2 * n →
    (laneBytes xs).length = n := by
  intro n
  induction n with
  | zero =>
    intro xs hxs
    rw [List.length_eq_zero_iff.mp hxs]
    rfl
  | succ n ih =>
    intro xs hxs
    match xs with
    | lo :: hi :: xs =>
      simp only [List.length_cons] at hxs
      simp only [laneBytes, List.length_cons, ih xs (by omega)]
    | [] => simp at hxs
    | [_] =>
      simp only [List.length_singleton] at hxs
      omega

/-- Two bytes spell a number below `2 ^ 16`, and the number tells them. -/
theorem bytes_of_lane {lo hi lo' hi' : UInt8}
    (h : ((lo.toNat + 256 * hi.toNat : ℕ) : ZMod 65536) = (lo'.toNat + 256 * hi'.toNat : ℕ)) :
    lo = lo' ∧ hi = hi' := by
  have hlo := lo.toNat_lt
  have hhi := hi.toNat_lt
  have hlo' := lo'.toNat_lt
  have hhi' := hi'.toNat_lt
  rw [ZMod.natCast_eq_natCast_iff'] at h
  have hlow : lo.toNat = lo'.toNat := by omega
  have hhigh : hi.toNat = hi'.toNat := by omega
  exact ⟨UInt8.toNat_inj.mp hlow, UInt8.toNat_inj.mp hhigh⟩

theorem laneBytes_injective : ∀ (n : Nat) {xs ys : List UInt8}, xs.length = 2 * n →
    ys.length = 2 * n → laneBytes xs = laneBytes ys → xs = ys := by
  intro n
  induction n with
  | zero =>
    intro xs ys hxs hys _
    rw [List.length_eq_zero_iff.mp hxs, List.length_eq_zero_iff.mp hys]
  | succ n ih =>
    intro xs ys hxs hys h
    match xs, ys with
    | lo :: hi :: xs, lo' :: hi' :: ys =>
      simp only [List.length_cons] at hxs hys
      simp only [laneBytes, List.cons.injEq] at h
      obtain ⟨hlo, hhi⟩ := bytes_of_lane h.1
      rw [hlo, hhi, ih (by omega) (by omega) h.2]
    | [], _ => simp at hxs
    | [_], _ =>
      simp only [List.length_singleton] at hxs
      omega
    | _ :: _ :: _, [] => simp at hys
    | _ :: _ :: _, [_] =>
      simp only [List.length_singleton] at hys
      omega

/-- The two bytes of a number below `2 ^ 16` spell it. -/
theorem lane_split (value : Nat) (h : value < 65536) :
    (((UInt8.ofNat (value % 256)).toNat + 256 * (UInt8.ofNat (value / 256)).toNat : ℕ) :
      ZMod 65536) = value := by
  have hlow : (UInt8.ofNat (value % 256)).toNat = value % 256 := by
    rw [UInt8.toNat_ofNat']
    omega
  have hhigh : (UInt8.ofNat (value / 256)).toNat = value / 256 := by
    rw [UInt8.toNat_ofNat']
    omega
  rw [hlow, hhigh, Nat.mod_add_div]

/-- One lane of `_combine`. -/
theorem lane_combine (subtract : Bool) (left right : Nat) (h : right < 65536) :
    (((if subtract then left + 65536 - right else left + right) % 65536 : ℕ) : ZMod 65536) =
      if subtract then (left : ZMod 65536) - right else (left : ZMod 65536) + right := by
  rw [ZMod.natCast_mod]
  cases subtract with
  | false => simp
  | true =>
    have hwrap : ((65536 : ℕ) : ZMod 65536) = 0 := ZMod.natCast_self 65536
    rw [if_pos rfl, if_pos rfl, Nat.cast_sub (by omega), Nat.cast_add, hwrap, add_zero]

theorem laneBytes_combineBytes (subtract : Bool) : ∀ (n : Nat) (xs ys : List UInt8),
    xs.length = 2 * n → ys.length = 2 * n →
      laneBytes (combineBytes subtract xs ys) =
        List.zipWith (fun a b => if subtract then a - b else a + b) (laneBytes xs) (laneBytes ys) := by
  intro n
  induction n with
  | zero =>
    intro xs ys hxs hys
    rw [List.length_eq_zero_iff.mp hxs, List.length_eq_zero_iff.mp hys]
    rfl
  | succ n ih =>
    intro xs ys hxs hys
    match xs, ys with
    | lo :: hi :: xs, lo' :: hi' :: ys =>
      simp only [List.length_cons] at hxs hys
      have hlo := lo'.toNat_lt
      have hhi := hi'.toNat_lt
      simp only [combineBytes, laneBytes, List.zipWith_cons_cons, ih xs ys (by omega) (by omega)]
      rw [lane_split _ (Nat.mod_lt _ (by omega)), lane_combine _ _ _ (by omega)]
    | [], _ => simp at hxs
    | [_], _ =>
      simp only [List.length_singleton] at hxs
      omega
    | _ :: _ :: _, [] => simp at hys
    | _ :: _ :: _, [_] =>
      simp only [List.length_singleton] at hys
      omega

namespace LtState

theorem length_lanes (s : LtState) : (laneBytes s.bytes).length = 1024 :=
  length_laneBytes 1024 _ s.size

/-- The 1024 lanes of a state. -/
def lanes (s : LtState) : Fin 1024 → ZMod 65536 := fun i =>
  (laneBytes s.bytes).get (i.cast s.length_lanes.symm)

/-- A state is no more than its lanes. -/
theorem lanes_injective : Function.Injective lanes := by
  intro s t h
  have hlanes : laneBytes s.bytes = laneBytes t.bytes := by
    apply List.ext_get (s.length_lanes.trans t.length_lanes.symm)
    intro i hi _
    exact congrFun h ⟨i, s.length_lanes ▸ hi⟩
  have hbytes := laneBytes_injective 1024 s.size t.size hlanes
  obtain ⟨bytes, size⟩ := s
  subst hbytes
  rfl

theorem lanes_combine (s v : LtState) (subtract : Bool) :
    (s.combine v subtract).lanes = if subtract then s.lanes - v.lanes else s.lanes + v.lanes := by
  funext i
  have hcombine := laneBytes_combineBytes subtract 1024 _ _ s.size v.size
  simp only [lanes, combine, List.get_eq_getElem, hcombine, List.getElem_zipWith]
  cases subtract <;> rfl

theorem lanes_empty : empty.lanes = 0 := by
  have hzero : ∀ n : Nat, laneBytes (List.replicate (2 * n) 0) = List.replicate n 0 := by
    intro n
    induction n with
    | zero => rfl
    | succ n ih =>
      have hsplit : 2 * (n + 1) = 2 * n + 1 + 1 := by omega
      rw [hsplit, List.replicate_succ, List.replicate_succ, laneBytes, ih]
      rfl
  have hget : ∀ (n : Nat) (xs : List (ZMod 65536)), xs = List.replicate n 0 →
      ∀ j : Fin xs.length, xs.get j = 0 := by
    intro n xs hxs j
    have hmem : xs.get j ∈ List.replicate n 0 := hxs ▸ List.get_mem xs j
    exact List.eq_of_mem_replicate hmem
  funext i
  exact hget 1024 _ (hzero 1024) _

end LtState

/-! ## Additions and removals -/

variable (host : Host)

/-- `add`. -/
def add (state : LtState) (element : List UInt8) : LtState :=
  state.combine (hashElement host element) false

/-- `remove`. -/
def remove (state : LtState) (element : List UInt8) : LtState :=
  state.combine (hashElement host element) true

/-- `from_elements`, behind the elements seen so far. -/
def fromElementsAfter (state : LtState) (seen : List (List UInt8)) :
    List (List UInt8) → Except StoreErr LtState
  | [] => .ok state
  | element :: elements =>
      if element ∈ seen then .error (.valueError "LtHash set input contains a duplicate element")
      else fromElementsAfter (add host state element) (element :: seen) elements

/-- `from_elements`. -/
def fromElements (elements : List (List UInt8)) : Except StoreErr LtState :=
  fromElementsAfter host .empty [] elements

/-- A step of a run: whether an element is removed or added. -/
inductive Step where
  | add (element : List UInt8)
  | remove (element : List UInt8)
  deriving DecidableEq

def Step.apply (state : LtState) : Step → LtState
  | .add element => Db.add host state element
  | .remove element => Db.remove host state element

/-- What a step adds to the lanes. -/
def Step.lanes : Step → Fin 1024 → ZMod 65536
  | .add element => (hashElement host element).lanes
  | .remove element => -(hashElement host element).lanes

/-- A run of steps. -/
def runSteps (state : LtState) (steps : List Step) : LtState := steps.foldl (Step.apply host) state

/-- **The sum of the hashes of a multiset of elements**, lane by lane. -/
def laneSum : Multiset (List UInt8) →+ (Fin 1024 → ZMod 65536) where
  toFun elements := (elements.map fun e => (hashElement host e).lanes).sum
  map_zero' := by simp
  map_add' := by simp

section Runs

variable {host}

theorem lanes_add (state : LtState) (element : List UInt8) :
    (add host state element).lanes = state.lanes + (hashElement host element).lanes := by
  rw [add, LtState.lanes_combine, if_neg (by decide)]

theorem lanes_remove (state : LtState) (element : List UInt8) :
    (remove host state element).lanes = state.lanes - (hashElement host element).lanes := by
  rw [remove, LtState.lanes_combine, if_pos rfl]

theorem lanes_apply (state : LtState) (step : Step) :
    (step.apply host state).lanes = state.lanes + step.lanes host := by
  cases step with
  | add element => exact lanes_add state element
  | remove element => exact (lanes_remove state element).trans (sub_eq_add_neg _ _)

/-- **The lanes after a run are those before it and the sum over the run.** -/
theorem lanes_run (state : LtState) (steps : List Step) :
    (runSteps host state steps).lanes = state.lanes + (steps.map (Step.lanes host)).sum := by
  induction steps generalizing state with
  | nil => simp [runSteps]
  | cons step steps ih =>
    have htail := ih (step.apply host state)
    rw [lanes_apply] at htail
    rw [List.map_cons, List.sum_cons, ← add_assoc]
    exact htail

/-- The order of a run does not matter. -/
theorem runSteps_perm {steps steps' : List Step} (h : steps.Perm steps') (state : LtState) :
    runSteps host state steps = runSteps host state steps' := by
  apply LtState.lanes_injective
  rw [lanes_run, lanes_run, (h.map _).sum_eq]

theorem add_remove (state : LtState) (element : List UInt8) :
    remove host (add host state element) element = state := by
  apply LtState.lanes_injective
  rw [lanes_remove, lanes_add, add_sub_cancel_right]

theorem remove_add (state : LtState) (element : List UInt8) :
    add host (remove host state element) element = state := by
  apply LtState.lanes_injective
  rw [lanes_add, lanes_remove, sub_add_cancel]

/-- The elements that have not been seen are added, and one that has been is refused. -/
theorem fromElementsAfter_eq (elements : List (List UInt8)) (seen : List (List UInt8))
    (state : LtState) :
    fromElementsAfter host state seen elements =
      if elements.Nodup ∧ ∀ e ∈ elements, e ∉ seen then .ok (elements.foldl (add host) state)
      else .error (.valueError "LtHash set input contains a duplicate element") := by
  induction elements generalizing seen state with
  | nil => simp [fromElementsAfter]
  | cons e es ih =>
    unfold fromElementsAfter
    by_cases hseen : e ∈ seen
    · rw [if_pos hseen, if_neg]
      intro h
      exact h.2 e List.mem_cons_self hseen
    · rw [if_neg hseen, ih]
      have hguard : (es.Nodup ∧ ∀ d ∈ es, d ∉ e :: seen) ↔
          ((e :: es).Nodup ∧ ∀ d ∈ e :: es, d ∉ seen) := by
        simp only [List.nodup_cons, List.mem_cons, not_or, forall_eq_or_imp]
        constructor
        · intro h
          exact ⟨⟨fun he => (h.2 e he).1 rfl, h.1⟩, hseen, fun d hd => (h.2 d hd).2⟩
        · intro h
          exact ⟨h.1.2, fun d hd => ⟨fun hde => h.1.1 (hde ▸ hd), h.2.2 d hd⟩⟩
      simp only [hguard, List.foldl_cons]

theorem lanes_foldl_add (elements : List (List UInt8)) (state : LtState) :
    (elements.foldl (add host) state).lanes = state.lanes + laneSum host elements := by
  induction elements generalizing state with
  | nil => simp [laneSum]
  | cons e es ih =>
    have hone : laneSum host {e} = (hashElement host e).lanes := by
      show (Multiset.map (fun e => (hashElement host e).lanes) {e}).sum = _
      rw [Multiset.map_singleton, Multiset.sum_singleton]
    rw [List.foldl_cons, ih, lanes_add, add_assoc, ← Multiset.cons_coe, ← Multiset.singleton_add,
      map_add, hone]

/-- The state of a set of elements is that of their multiset, and a second copy is refused. -/
theorem fromElements_eq (elements : List (List UInt8)) :
    fromElements host elements =
      if elements.Nodup then .ok (elements.foldl (add host) .empty)
      else .error (.valueError "LtHash set input contains a duplicate element") := by
  unfold fromElements
  rw [fromElementsAfter_eq]
  simp

theorem fromElements_perm {elements elements' : List (List UInt8)} (h : elements.Perm elements') :
    fromElements host elements = fromElements host elements' := by
  have hfold : elements.foldl (add host) .empty = elements'.foldl (add host) LtState.empty := by
    apply LtState.lanes_injective
    rw [lanes_foldl_add, lanes_foldl_add, Multiset.coe_eq_coe.mpr h]
  rw [fromElements_eq, fromElements_eq, hfold]
  simp only [h.nodup_iff]

end Runs

/-! ## Tokens -/

/-- A token that is accepted is that of its state. -/
theorem encode_of_decodeState {token : String} {state : LtState}
    (h : decodeState token = .ok state) : state.encode = token := by
  unfold decodeState at h
  obtain ⟨-, h⟩ := bind_unit_ok_iff.mp h
  obtain ⟨-, h⟩ := bind_unit_ok_iff.mp h
  dsimp only at h
  split at h
  · cases h
  · split at h
    · obtain ⟨hsame, h⟩ := bind_unit_ok_iff.mp h
      cases h
      simpa using hsame
    · cases h

/-- **The accumulator is a sum.** Its lanes take multisets to sums, additions and removals of any
elements commute and undo each other, the state of a set depends on no order, and the tokens that are
read are those that are written. -/
theorem accumulator_homomorphism (host : Host) :
    (∀ elements : List (List UInt8),
      (elements.foldl (add host) .empty).lanes = laneSum host elements) ∧
    (∀ (state : LtState) (steps steps' : List Step), steps.Perm steps' →
      runSteps host state steps = runSteps host state steps') ∧
    (∀ (state : LtState) (a b : List UInt8),
      add host (add host state a) b = add host (add host state b) a ∧
      remove host (add host state a) b = add host (remove host state b) a ∧
      remove host (remove host state a) b = remove host (remove host state b) a) ∧
    (∀ (state : LtState) (a : List UInt8),
      remove host (add host state a) a = state ∧ add host (remove host state a) a = state) ∧
    (∀ (state : LtState) (a : List UInt8) (i : Fin 1024),
      (add host state a).lanes i = state.lanes i + (hashElement host a).lanes i ∧
      (remove host state a).lanes i = state.lanes i - (hashElement host a).lanes i) ∧
    (∀ elements elements' : List (List UInt8), elements.Perm elements' →
      fromElements host elements = fromElements host elements') ∧
    (∀ (elements : List (List UInt8)) (state : LtState), fromElements host elements = .ok state ↔
      elements.Nodup ∧ state.lanes = laneSum host elements) ∧
    (∀ (token : String) (state : LtState), decodeState token = .ok state ↔ token = state.encode) := by
  -- the lanes are a group: sums first, then what the checks of repeated elements add
  refine ⟨?_, ?_, ?_, ?_, ?_, ?_, ?_, ?_⟩
  · intro elements
    rw [lanes_foldl_add, LtState.lanes_empty, zero_add]
  · intro state steps steps' h
    exact runSteps_perm h state
  · intro state a b
    refine ⟨?_, ?_, ?_⟩
    · exact runSteps_perm (List.Perm.swap (.add b) (.add a) []) state
    · exact runSteps_perm (List.Perm.swap (.remove b) (.add a) []) state
    · exact runSteps_perm (List.Perm.swap (.remove b) (.remove a) []) state
  · intro state a
    exact ⟨add_remove state a, remove_add state a⟩
  · intro state a i
    exact ⟨congrFun (lanes_add state a) i, congrFun (lanes_remove state a) i⟩
  · intro elements elements' h
    exact fromElements_perm h
  · intro elements state
    rw [fromElements_eq]
    split
    · rename_i hnodup
      have hlanes : (elements.foldl (add host) .empty).lanes =
          LtState.empty.lanes + laneSum host elements := lanes_foldl_add elements .empty
      rw [LtState.lanes_empty, zero_add] at hlanes
      constructor
      · intro h
        cases h
        exact ⟨hnodup, hlanes⟩
      · intro h
        rw [LtState.lanes_injective (hlanes.trans h.2.symm)]
    · rename_i hnodup
      constructor
      · intro h
        cases h
      · intro h
        exact absurd h.1 hnodup
  · intro token state
    constructor
    · intro h
      exact (encode_of_decodeState h).symm
    · intro h
      rw [h]
      exact decodeState_encode state

end FactGraph.Db
