import FactGraph.Codec.Objects
import FactGraph.Protocol.Framing
import FactGraph.Rules.Ast

/-!
# The content digest of a rule

`Rule.content_digest` of `application/protocol/rule.py`: the digest of a JSON text of the ports and of
the body, which spells every node of the body, and every constant in it, with the name of its type.

The nodes here are those of `where_ast.py` with their origins, since the text has the origins of terms.
It does not have the origins of atoms, nor the order of a `dict`, and it has one `nan` only. These
apart, rules with one digest have the same ports and the same body (`content_digest_alike`).
-/

namespace FactGraph.Policy.Content

open Protocol Store Db JsonText Codec

/-! ## Constants -/

/-- The value of a `Const`; `O` are the objects of types that are not spelled out here. -/
inductive Constant (O : Type) where
  | none
  | bool (b : Bool)
  | int (i : Int)
  | float (x : F64)
  | str (s : String)
  | bytes (b : List UInt8)
  | tuple (xs : List (Constant O))
  | list (xs : List (Constant O))
  | dict (items : List (Constant O × Constant O))
  | other (o : O)

/-- What the digest takes from elsewhere: the hash, the texts of floats, the `repr` of a key of a
`dict`, and the name of the type and the `repr` of an object of another type. -/
structure Host (O : Type) where
  sha256 : List UInt8 → List UInt8
  floatRepr : F64 → String
  keyRepr : Constant O → String
  qualname : O → String
  repr : O → String
  /-- Bytes are no object of another type. -/
  qualname_ne : ∀ o, qualname o ≠ "bytes"

/-- The character of a byte that `repr` writes as it is. -/
def isPrintable (b : UInt8) : Bool := 0x20 ≤ b.toNat && b.toNat < 0x7f

/-- A byte in the `repr` of bytes. -/
def byteRepr (quote : Char) (b : UInt8) : List Char :=
  if b.toNat = quote.toNat then ['\\', quote]
  else if b.toNat = 92 then ['\\', '\\']
  else if b.toNat = 9 then ['\\', 't']
  else if b.toNat = 10 then ['\\', 'n']
  else if b.toNat = 13 then ['\\', 'r']
  else if isPrintable b then [Char.ofNat b.toNat]
  else ['\\', 'x', hexDigit (b.toNat / 16), hexDigit b.toNat]

/-- Bytes with an apostrophe and without a quotation mark are put into quotation marks. -/
def bytesQuote (bs : List UInt8) : Char :=
  if bs.any (·.toNat = 39) && !bs.any (·.toNat = 34) then '"' else '\''

/-- `repr` of bytes. -/
def bytesRepr (bs : List UInt8) : String :=
  String.ofList ('b' :: bytesQuote bs :: bs.flatMap (byteRepr (bytesQuote bs)) ++ [bytesQuote bs])

section Digest

variable {O : Type} (host : Host O)

/-- The fields of a node with the name of its type. -/
def node (type : String) (fields : List (String × Json)) : Json :=
  .obj (("type", .leaf (.str type)) :: fields)

mutual

/-- `_serialize_value`. -/
def serializeValue : Constant O → Json
  | .none => .leaf .null
  | .bool b => .leaf (.bool b)
  | .int i => .leaf (.int i)
  | .float x => .leaf (.float x)
  | .str s => .leaf (.str s)
  | .tuple xs => node "tuple" [("items", .arr (serializeValues xs))]
  | .list xs => node "list" [("items", .arr (serializeValues xs))]
  | .dict items =>
      node "dict" [("items",
        .arr (((serializeItems items).insertionSort fun p q => p.1 ≤ q.1).map Prod.snd))]
  | .bytes b => node "bytes" [("repr", .leaf (.str (bytesRepr b)))]
  | .other o => node (host.qualname o) [("repr", .leaf (.str (host.repr o)))]

def serializeValues : List (Constant O) → List Json
  | [] => []
  | x :: xs => serializeValue x :: serializeValues xs

/-- The items of a `dict`, each with the `repr` of its key. -/
def serializeItems : List (Constant O × Constant O) → List (String × Json)
  | [] => []
  | (key, value) :: items =>
      (host.keyRepr key, .arr [serializeValue key, serializeValue value]) :: serializeItems items

end

/-! ## Nodes -/

/-- `Origin`. -/
structure Origin where
  source : String
  path : Option String
  deriving DecidableEq

/-- `Var`. -/
structure Var where
  name : String
  origin : Option Origin
  deriving DecidableEq

/-- `Const`. -/
structure Const (O : Type) where
  value : Constant O
  origin : Option Origin

mutual

/-- `Var | Const | AggregateAtom`. -/
inductive Term (O : Type) where
  | var (v : Var)
  | const (c : Const O)
  | agg (kind : Rules.AggKind) (target : Option (Term O)) (filter : List (Atom O))
      (origin : Option Origin)

/-- The atoms of a rule: `PredAtom | CmpAtom | InAtom | BuiltinAtom | NotAtom`. -/
inductive Atom (O : Type) where
  | pred (predId : String) (terms : List (Term O)) (origin : Option Origin)
  | cmp (op : String) (lhs rhs : Term O) (origin : Option Origin)
  | inn (var : Var) (values : List (Const O)) (origin : Option Origin)
  | builtin (op : String) (args : List (Term O)) (origin : Option Origin)
  | not (body : WhereExpr O) (origin : Option Origin)

/-- `AndExpr | OrExpr`. -/
inductive WhereExpr (O : Type) where
  | and (atoms : List (Atom O)) (origin : Option Origin)
  | or (branches : List (WhereExpr O)) (origin : Option Origin)

end

/-- `Rule`. The digest reads its ports and its body only. -/
structure Rule (O : Type) where
  id : String
  when : List (Atom O)
  /-- A mapping, in its order. -/
  ports : List (String × Var)
  id_ne : id ≠ ""
  when_ne : when ≠ []
  ports_ne : ports ≠ []
  ports_distinct : (Dict.keys ports).Nodup

def optText : Option String → Json
  | none => .leaf .null
  | some s => .leaf (.str s)

/-- `_serialize_origin`. -/
def serializeOrigin : Option Origin → Json
  | none => .leaf .null
  | some o => .obj [("source", .leaf (.str o.source)), ("path", optText o.path)]

/-- `_serialize_var`. -/
def serializeVar (v : Var) : Json :=
  node "Var" [("name", .leaf (.str v.name)), ("origin", serializeOrigin v.origin)]

/-- `_serialize_const`. -/
def serializeConst (c : Const O) : Json :=
  node "Const" [("value", serializeValue host c.value), ("origin", serializeOrigin c.origin)]

mutual

/-- `_serialize_term`. -/
def serializeTerm : Term O → Json
  | .var v => serializeVar v
  | .const c => serializeConst host c
  | .agg kind target filter origin =>
      node "AggregateAtom" [("kind", .leaf (.str kind.name)), ("target", serializeTarget target),
        ("filter", .arr (serializeAtoms filter)), ("origin", serializeOrigin origin)]

def serializeTarget : Option (Term O) → Json
  | none => .leaf .null
  | some t => serializeTerm t

def serializeTerms : List (Term O) → List Json
  | [] => []
  | t :: ts => serializeTerm t :: serializeTerms ts

/-- `_serialize_atom`. -/
def serializeAtom : Atom O → Json
  | .pred predId terms _ =>
      node "PredAtom" [("pred_id", .leaf (.str predId)), ("terms", .arr (serializeTerms terms))]
  | .cmp op lhs rhs _ =>
      node "CmpAtom" [("op", .leaf (.str op)), ("lhs", serializeTerm lhs), ("rhs", serializeTerm rhs)]
  | .inn var values _ =>
      node "InAtom" [("var", serializeVar var), ("values", .arr (values.map (serializeConst host)))]
  | .builtin op args _ =>
      node "BuiltinAtom" [("op", .leaf (.str op)), ("args", .arr (serializeTerms args))]
  | .not body _ => node "NotAtom" [("body", serializeWhereExpr body)]

def serializeAtoms : List (Atom O) → List Json
  | [] => []
  | a :: as => serializeAtom a :: serializeAtoms as

/-- `_serialize_where_expr`. -/
def serializeWhereExpr : WhereExpr O → Json
  | .and atoms _ => node "AndExpr" [("atoms", .arr (serializeAtoms atoms))]
  | .or branches _ => node "OrExpr" [("branches", .arr (serializeBranches branches))]

def serializeBranches : List (WhereExpr O) → List Json
  | [] => []
  | b :: bs => serializeWhereExpr b :: serializeBranches bs

end

/-- A port as it is written. -/
def serializePort (p : String × Var) : Json := .arr [.leaf (.str p.1), serializeVar p.2]

/-- What `content_digest` writes. -/
def payload (r : Rule O) : Json :=
  .obj [("ports", .arr ((r.ports.insertionSort fun p q => p.1 ≤ q.1).map serializePort)),
    ("when", .arr (serializeAtoms host r.when))]

/-- A scalar that Python writes. -/
def scalarHasText : JsonScalar → Bool
  | .int i => hasDecimal i
  | .null | .bool _ | .float _ | .str _ => true

/-- `Rule.content_digest`; `none` is the `ValueError`. -/
def contentDigest? (r : Rule O) : Option String :=
  if allLeaves scalarHasText (payload host r) then
    some (hexdigest (host.sha256
      (utf8 (jsonDumps jsonAsciiEscaping host.floatRepr (sortKeys (payload host r))))))
  else none

end Digest

/-! ## What a digest tells -/

section Alike

variable {O : Type} (host : Host O)

/-- Equal constants of one type, but for the order of the items of a `dict`: objects of another type
have one name of their type and one `repr`, and there is one `nan`. -/
inductive Constant.Alike : Constant O → Constant O → Prop where
  | none : Alike .none .none
  | bool (b : Bool) : Alike (.bool b) (.bool b)
  | int (i : Int) : Alike (.int i) (.int i)
  | float {x y : F64} (h : oneNan x = oneNan y) : Alike (.float x) (.float y)
  | str (s : String) : Alike (.str s) (.str s)
  | bytes (b : List UInt8) : Alike (.bytes b) (.bytes b)
  | tuple {xs ys : List (Constant O)} (h : List.Forall₂ Alike xs ys) : Alike (.tuple xs) (.tuple ys)
  | list {xs ys : List (Constant O)} (h : List.Forall₂ Alike xs ys) : Alike (.list xs) (.list ys)
  | dict {items items' reordered : List (Constant O × Constant O)} (hperm : reordered.Perm items')
      (hkeys : List.Forall₂ Alike (items.map Prod.fst) (reordered.map Prod.fst))
      (hvalues : List.Forall₂ Alike (items.map Prod.snd) (reordered.map Prod.snd)) :
      Alike (.dict items) (.dict items')
  | other {o o' : O} (htype : host.qualname o = host.qualname o') (hrepr : host.repr o = host.repr o') :
      Alike (.other o) (.other o')

/-- Constants that are alike, of one origin. -/
def Const.Alike (c c' : Const O) : Prop :=
  Constant.Alike host c.value c'.value ∧ c.origin = c'.origin

mutual

inductive Term.Alike : Term O → Term O → Prop where
  | var (v : Var) : Term.Alike (.var v) (.var v)
  | const {c c' : Const O} (h : c.Alike host c') : Term.Alike (.const c) (.const c')
  | untargeted (kind : Rules.AggKind) {filter filter' : List (Atom O)} (origin : Option Origin)
      (h : List.Forall₂ Atom.Alike filter filter') :
      Term.Alike (.agg kind none filter origin) (.agg kind none filter' origin)
  | agg (kind : Rules.AggKind) {target target' : Term O} {filter filter' : List (Atom O)}
      (origin : Option Origin) (htarget : Term.Alike target target')
      (h : List.Forall₂ Atom.Alike filter filter') :
      Term.Alike (.agg kind (some target) filter origin) (.agg kind (some target') filter' origin)

/-- Atoms of one content. Their origins are not compared. -/
inductive Atom.Alike : Atom O → Atom O → Prop where
  | pred (predId : String) {terms terms' : List (Term O)} (origin origin' : Option Origin)
      (h : List.Forall₂ Term.Alike terms terms') :
      Atom.Alike (.pred predId terms origin) (.pred predId terms' origin')
  | cmp (op : String) {lhs lhs' rhs rhs' : Term O} (origin origin' : Option Origin)
      (hlhs : Term.Alike lhs lhs') (hrhs : Term.Alike rhs rhs') :
      Atom.Alike (.cmp op lhs rhs origin) (.cmp op lhs' rhs' origin')
  | inn (var : Var) {values values' : List (Const O)} (origin origin' : Option Origin)
      (h : List.Forall₂ (Const.Alike host) values values') :
      Atom.Alike (.inn var values origin) (.inn var values' origin')
  | builtin (op : String) {args args' : List (Term O)} (origin origin' : Option Origin)
      (h : List.Forall₂ Term.Alike args args') :
      Atom.Alike (.builtin op args origin) (.builtin op args' origin')
  | not {body body' : WhereExpr O} (origin origin' : Option Origin)
      (h : WhereExpr.Alike body body') : Atom.Alike (.not body origin) (.not body' origin')

inductive WhereExpr.Alike : WhereExpr O → WhereExpr O → Prop where
  | and {atoms atoms' : List (Atom O)} (origin origin' : Option Origin)
      (h : List.Forall₂ Atom.Alike atoms atoms') :
      WhereExpr.Alike (.and atoms origin) (.and atoms' origin')
  | or {branches branches' : List (WhereExpr O)} (origin origin' : Option Origin)
      (h : List.Forall₂ WhereExpr.Alike branches branches') :
      WhereExpr.Alike (.or branches origin) (.or branches' origin')

end

end Alike

/-! ## Documents as far as they are told -/

/-- A document as its text tells it. -/
def told (d : Json) : Json := mapLeaves telling (sortKeys d)

theorem told_leaf (l : JsonScalar) : told (.leaf l) = .leaf (telling l) := rfl

theorem told_arr (xs : List Json) : told (.arr xs) = .arr (xs.map told) := by
  have hlist : ∀ xs : List Json, mapLeavesList telling (sortKeysList xs) = xs.map told := by
    intro xs
    induction xs with
    | nil => rfl
    | cons x xs ih => rw [sortKeysList, mapLeavesList, ih, List.map_cons, told]
  rw [told, sortKeys, mapLeaves, hlist]

theorem told_obj (fs : List (String × Json)) :
    ∃ gs, told (.obj fs) = .obj gs ∧ gs.Perm (fs.map fun p => (p.1, told p.2)) := by
  refine ⟨_, rfl, ?_⟩
  have hfields : ∀ gs : List (String × Json),
      mapLeavesFields telling gs = gs.map fun p => (p.1, mapLeaves telling p.2) := by
    intro gs
    induction gs with
    | nil => rfl
    | cons p gs ih => rw [mapLeavesFields, ih, List.map_cons]
  rw [hfields, sortKeysFields_eq]
  refine ((List.perm_insertionSort _ _).map _).trans (.of_eq ?_)
  rw [List.map_map]
  rfl

/-- Objects that are told alike have the same fields, and they are told alike. -/
theorem told_get? {fs gs : List (String × Json)} (hfs : (Dict.keys fs).Nodup)
    (h : told (.obj fs) = told (.obj gs)) (k : String) :
    (Dict.get? fs k).map told = (Dict.get? gs k).map told := by
  obtain ⟨fs', hfs', hfsperm⟩ := told_obj fs
  obtain ⟨gs', hgs', hgsperm⟩ := told_obj gs
  rw [hfs', hgs'] at h
  cases h
  have hkeys : ∀ ds : List (String × Json),
      Dict.keys (ds.map fun p => (p.1, told p.2)) = Dict.keys ds := by
    intro ds
    simp [Dict.keys]
  have hperm := hfsperm.symm.trans hgsperm
  have hget := Dict.get?_perm hperm (by rw [hkeys]; exact hfs) k
  rwa [Dict.get?_map (fun _ => told) fs, Dict.get?_map (fun _ => told) gs] at hget

theorem told_node_ne_leaf (type : String) (fields : List (String × Json)) (l : JsonScalar) :
    told (node type fields) ≠ .leaf l := by
  obtain ⟨gs, hgs, -⟩ := told_obj (("type", .leaf (.str type)) :: fields)
  rw [node, hgs]
  simp

/-- Nodes that are told alike are of one type, and have the same fields. -/
theorem told_node {type type' : String} {fs gs : List (String × Json)}
    (hfs : ("type" :: fs.map Prod.fst).Nodup) (h : told (node type fs) = told (node type' gs)) :
    type = type' ∧ ∀ k, k ≠ "type" → (Dict.get? fs k).map told = (Dict.get? gs k).map told := by
  have hdistinct : (Dict.keys (("type", Doc.leaf (JsonScalar.str type)) :: fs)).Nodup := hfs
  constructor
  · have htype := told_get? hdistinct h "type"
    simpa [Dict.get?_cons, told_leaf, telling] using htype
  · intro k hk
    have hfield := told_get? hdistinct h k
    simpa [Dict.get?_cons, hk] using hfield

/-! ## Bytes -/

/-- The byte that a text of bytes starts with, and what is behind it. -/
def readByte? : List Char → Option (UInt8 × List Char)
  | '\\' :: 'x' :: high :: low :: rest => do
      let high ← hexNibble? high
      let low ← hexNibble? low
      some (UInt8.ofNat (16 * high + low), rest)
  | '\\' :: 't' :: rest => some (9, rest)
  | '\\' :: 'n' :: rest => some (10, rest)
  | '\\' :: 'r' :: rest => some (13, rest)
  | '\\' :: c :: rest => some (UInt8.ofNat c.toNat, rest)
  | c :: rest => some (UInt8.ofNat c.toNat, rest)
  | [] => none

theorem readByte?_plain {c : Char} (h : c ≠ '\\') (rest : List Char) :
    readByte? (c :: rest) = some (UInt8.ofNat c.toNat, rest) := by
  unfold readByte?
  split <;> simp_all

theorem readByte?_byteRepr {quote : Char} (hquote : quote = '"' ∨ quote = '\'') (b : UInt8)
    (rest : List Char) : readByte? (byteRepr quote b ++ rest) = some (b, rest) := by
  have hbyte : UInt8.ofNat b.toNat = b := UInt8.ofNat_toNat
  unfold byteRepr
  split
  · rename_i h
    have hq : UInt8.ofNat quote.toNat = b := by rw [← h, hbyte]
    rcases hquote with rfl | rfl
    · simpa [readByte?] using hq
    · simpa [readByte?] using hq
  split
  · rename_i h
    have hb : b = 92 := UInt8.toNat_inj.mp h
    subst hb
    rfl
  split
  · rename_i h
    have hb : b = 9 := UInt8.toNat_inj.mp h
    subst hb
    rfl
  split
  · rename_i h
    have hb : b = 10 := UInt8.toNat_inj.mp h
    subst hb
    rfl
  split
  · rename_i h
    have hb : b = 13 := UInt8.toNat_inj.mp h
    subst hb
    rfl
  split
  · rename_i hslash _ _ _ hprint
    have hchar : (Char.ofNat b.toNat).toNat = b.toNat := by
      have hall : ∀ n : Fin 128, (Char.ofNat n).toNat = n := by decide
      simp only [isPrintable, Bool.and_eq_true, decide_eq_true_eq] at hprint
      exact hall ⟨b.toNat, by omega⟩
    have hplain : Char.ofNat b.toNat ≠ '\\' := by
      intro heq
      rw [heq] at hchar
      exact hslash hchar.symm
    rw [List.singleton_append, readByte?_plain hplain, hchar, hbyte]
  · simp only [List.cons_append, List.nil_append, readByte?, hexNibble?_hexDigit]
    have hsplit : 16 * (b.toNat / 16 % 16) + b.toNat % 16 = b.toNat := by
      have := b.toNat_lt
      omega
    simp only [Option.bind_eq_bind, Option.bind_some, hsplit, hbyte]

theorem bytesRepr_injective {bs cs : List UInt8} (h : bytesRepr bs = bytesRepr cs) : bs = cs := by
  have hchars := String.ofList_injective h
  simp only [List.cons_append, List.cons.injEq, true_and] at hchars
  obtain ⟨hquote, htext⟩ := hchars
  rw [← hquote] at htext
  have hbytes := List.append_cancel_right htext
  have hq : bytesQuote bs = '"' ∨ bytesQuote bs = '\'' := by
    unfold bytesQuote
    split
    · exact .inl rfl
    · exact .inr rfl
  generalize bytesQuote bs = quote at hbytes hq
  clear h hquote htext
  induction bs generalizing cs with
  | nil =>
    cases cs with
    | nil => rfl
    | cons c cs =>
      have hread := readByte?_byteRepr hq c (cs.flatMap (byteRepr quote))
      rw [← List.flatMap_cons, ← hbytes] at hread
      cases hread
  | cons b bs ih =>
    have hread := readByte?_byteRepr hq b (bs.flatMap (byteRepr quote))
    rw [← List.flatMap_cons, hbytes] at hread
    cases cs with
    | nil => cases hread
    | cons c cs =>
      rw [List.flatMap_cons, readByte?_byteRepr hq c] at hread
      obtain ⟨hhead, htail⟩ := Prod.mk.inj (Option.some.inj hread)
      rw [hhead, ih htail.symm]

/-! ## Constants -/

theorem forall₂_of_map_eq {α β γ : Type} {R : α → β → Prop} {f : α → γ} {g : β → γ} {xs : List α}
    {ys : List β} (h : xs.map f = ys.map g) (hR : ∀ x ∈ xs, ∀ y, f x = g y → R x y) :
    List.Forall₂ R xs ys := by
  induction xs generalizing ys with
  | nil =>
    cases ys with
    | nil => exact .nil
    | cons y ys => cases h
  | cons x xs ih =>
    cases ys with
    | nil => cases h
    | cons y ys =>
      rw [List.map_cons, List.map_cons, List.cons.injEq] at h
      exact .cons (hR x List.mem_cons_self y h.1)
        (ih h.2 fun x hx => hR x (List.mem_cons_of_mem _ hx))

section Constants

variable {O : Type} (host : Host O)

theorem serializeItems_eq (items : List (Constant O × Constant O)) :
    serializeItems host items = items.map fun p =>
      (host.keyRepr p.1, .arr [serializeValue host p.1, serializeValue host p.2]) := by
  induction items with
  | nil => rfl
  | cons p items ih => rw [serializeItems, ih, List.map_cons]

/-- The items of a `dict` in the order they are written. -/
def sortedItems (items : List (Constant O × Constant O)) : List (Constant O × Constant O) :=
  items.insertionSort fun p q => host.keyRepr p.1 ≤ host.keyRepr q.1

theorem serializeItems_sorted (items : List (Constant O × Constant O)) :
    ((serializeItems host items).insertionSort fun p q => p.1 ≤ q.1).map Prod.snd =
      (sortedItems host items).map fun p =>
        .arr [serializeValue host p.1, serializeValue host p.2] := by
  rw [serializeItems_eq, sortedItems,
    ← List.map_insertionSort (r := fun p q => host.keyRepr p.1 ≤ host.keyRepr q.1), List.map_map]
  · rfl
  · intro a _ b _
    rfl

/-- What is told like the constant is alike. -/
def ToldAlike (x : Constant O) : Prop :=
  ∀ y, told (serializeValue host x) = told (serializeValue host y) → x.Alike host y

/-- Items that are written alike, in their order, are alike up to the order. -/
theorem alike_dict (items items' : List (Constant O × Constant O))
    (h : (sortedItems host items).map (told ∘ fun p =>
        Doc.arr [serializeValue host p.1, serializeValue host p.2]) =
      (sortedItems host items').map (told ∘ fun p =>
        Doc.arr [serializeValue host p.1, serializeValue host p.2]))
    (halike : ∀ p ∈ items, ToldAlike host p.1 ∧ ToldAlike host p.2) :
    (Constant.dict items).Alike host (.dict items') := by
  have hperm : items.Perm (sortedItems host items) := (List.perm_insertionSort _ _).symm
  have hperm' : (sortedItems host items').Perm items' := List.perm_insertionSort _ _
  have hsorted : List.Forall₂ (fun p q => p.1.Alike host q.1 ∧ p.2.Alike host q.2)
      (sortedItems host items) (sortedItems host items') := by
    refine forall₂_of_map_eq h fun p hp q hpq => ?_
    have hpair := halike p (hperm.mem_iff.mpr hp)
    simp [told_arr] at hpq
    exact ⟨hpair.1 q.1 hpq.1, hpair.2 q.2 hpq.2⟩
  obtain ⟨reordered, hpairs, hreordered⟩ := List.perm_comp_forall₂ hperm hsorted
  refine .dict (hreordered.trans hperm') ?_ ?_
  · rw [List.forall₂_map_left_iff, List.forall₂_map_right_iff]
    exact hpairs.imp fun _ _ hpq => hpq.1
  · rw [List.forall₂_map_left_iff, List.forall₂_map_right_iff]
    exact hpairs.imp fun _ _ hpq => hpq.2

mutual

theorem alike_of_told : ∀ x y : Constant O,
    told (serializeValue host x) = told (serializeValue host y) → x.Alike host y
  -- a leaf and a node are told apart, nodes by the name of their type
  | .none, y, h => by
    cases y <;> simp [serializeValue, told_leaf, telling, ne_comm.mp (told_node_ne_leaf _ _ _)] at h
    exact .none
  | .bool b, y, h => by
    cases y <;> simp [serializeValue, told_leaf, telling, ne_comm.mp (told_node_ne_leaf _ _ _)] at h
    rw [h]
    exact .bool _
  | .int i, y, h => by
    cases y <;> simp [serializeValue, told_leaf, telling, ne_comm.mp (told_node_ne_leaf _ _ _)] at h
    rw [h]
    exact .int _
  | .float x, y, h => by
    cases y <;> simp [serializeValue, told_leaf, telling, ne_comm.mp (told_node_ne_leaf _ _ _)] at h
    exact .float h
  | .str s, y, h => by
    cases y <;> simp [serializeValue, told_leaf, telling, ne_comm.mp (told_node_ne_leaf _ _ _)] at h
    rw [h]
    exact .str _
  | .tuple xs, y, h => by
    cases y with
    | tuple ys =>
      have hitems := (told_node (by simp) h).2 "items" (by decide)
      simp [Dict.get?_cons, told_arr] at hitems
      exact .tuple (alike_values xs ys hitems)
    | other o =>
      have hrepr := (told_node (by simp) h).2 "repr" (by decide)
      simp [Dict.get?_cons] at hrepr
    | list ys | dict items | bytes b => exact absurd (told_node (by simp) h).1 (by decide)
    | none | bool _ | int _ | float _ | str _ => exact absurd h (told_node_ne_leaf _ _ _)
  | .list xs, y, h => by
    cases y with
    | list ys =>
      have hitems := (told_node (by simp) h).2 "items" (by decide)
      simp [Dict.get?_cons, told_arr] at hitems
      exact .list (alike_values xs ys hitems)
    | other o =>
      have hrepr := (told_node (by simp) h).2 "repr" (by decide)
      simp [Dict.get?_cons] at hrepr
    | tuple ys | dict items | bytes b => exact absurd (told_node (by simp) h).1 (by decide)
    | none | bool _ | int _ | float _ | str _ => exact absurd h (told_node_ne_leaf _ _ _)
  | .dict items, y, h => by
    cases y with
    | dict items' =>
      have hitems := (told_node (by simp) h).2 "items" (by decide)
      simp only [serializeItems_sorted, Dict.get?_cons, if_true, Option.map_some, told_arr,
        Option.some.injEq, Doc.arr.injEq, List.map_map] at hitems
      exact alike_dict host items items' hitems fun p hp => alike_items items p hp
    | other o =>
      have hrepr := (told_node (by simp) h).2 "repr" (by decide)
      simp [Dict.get?_cons] at hrepr
    | tuple ys | list ys | bytes b => exact absurd (told_node (by simp) h).1 (by decide)
    | none | bool _ | int _ | float _ | str _ => exact absurd h (told_node_ne_leaf _ _ _)
  | .bytes b, y, h => by
    cases y with
    | bytes c =>
      have hrepr := (told_node (by simp) h).2 "repr" (by decide)
      simp [Dict.get?_cons, told_leaf, telling] at hrepr
      rw [bytesRepr_injective hrepr]
      exact .bytes _
    -- no other object has the name of `bytes`; the other names have fields that it lacks
    | other o => exact absurd (told_node (by simp) h).1.symm (host.qualname_ne o)
    | tuple ys | list ys | dict items => exact absurd (told_node (by simp) h).1 (by decide)
    | none | bool _ | int _ | float _ | str _ => exact absurd h (told_node_ne_leaf _ _ _)
  | .other o, y, h => by
    cases y with
    | other o' =>
      obtain ⟨htype, hfields⟩ := told_node (by simp) h
      have hrepr := hfields "repr" (by decide)
      simp [Dict.get?_cons, told_leaf, telling] at hrepr
      exact .other htype hrepr
    | bytes b => exact absurd (told_node (by simp) h).1 (host.qualname_ne o)
    | tuple ys | list ys | dict items =>
      have hrepr := (told_node (by simp) h).2 "repr" (by decide)
      simp [Dict.get?_cons] at hrepr
    | none | bool _ | int _ | float _ | str _ => exact absurd h (told_node_ne_leaf _ _ _)

theorem alike_values : ∀ xs ys : List (Constant O),
    (serializeValues host xs).map told = (serializeValues host ys).map told →
      List.Forall₂ (Constant.Alike host) xs ys
  | [], [], _ => .nil
  | x :: xs, y :: ys, h => by
    simp only [serializeValues, List.map_cons, List.cons.injEq] at h
    exact .cons (alike_of_told x y h.1) (alike_values xs ys h.2)
  | [], _ :: _, h => by simp [serializeValues] at h
  | _ :: _, [], h => by simp [serializeValues] at h

theorem alike_items : ∀ items : List (Constant O × Constant O), ∀ p ∈ items,
    ToldAlike host p.1 ∧ ToldAlike host p.2
  | [], p, hp => by cases hp
  | (key, value) :: items, p, hp => by
    rcases List.mem_cons.mp hp with rfl | hp
    · exact ⟨alike_of_told key, alike_of_told value⟩
    · exact alike_items items p hp

end

/-! ## Nodes -/

theorem told_optText {s t : Option String} (h : told (optText s) = told (optText t)) : s = t := by
  cases s <;> cases t <;> simp_all [optText, told_leaf, telling]

theorem told_origin {o o' : Option Origin}
    (h : told (serializeOrigin o) = told (serializeOrigin o')) : o = o' := by
  have hne : ∀ o : Origin, told (serializeOrigin (some o)) ≠ .leaf .null := by
    intro o
    obtain ⟨gs, hgs, -⟩ := told_obj [("source", .leaf (.str o.source)), ("path", optText o.path)]
    rw [serializeOrigin, hgs]
    simp
  cases o with
  | none =>
    cases o' with
    | none => rfl
    | some o' => exact absurd h.symm (hne o')
  | some o =>
    cases o' with
    | none => exact absurd h (hne o)
    | some o' =>
      have hget := told_get? (by simp [Dict.keys]) h
      have hsource := hget "source"
      have hpath := hget "path"
      simp [Dict.get?_cons, told_leaf, telling] at hsource hpath
      rw [Option.some.injEq, Origin.mk.injEq]
      exact ⟨hsource, told_optText hpath⟩

theorem told_var {v v' : Var} (h : told (serializeVar v) = told (serializeVar v')) : v = v' := by
  have hfields := (told_node (by simp) h).2
  have hname := hfields "name" (by decide)
  have horigin := hfields "origin" (by decide)
  simp [Dict.get?_cons, told_leaf, telling] at hname horigin
  rw [Var.mk.injEq]
  exact ⟨hname, told_origin horigin⟩

theorem told_const {c c' : Const O}
    (h : told (serializeConst host c) = told (serializeConst host c')) : c.Alike host c' := by
  have hfields := (told_node (by simp) h).2
  have hvalue := hfields "value" (by decide)
  have horigin := hfields "origin" (by decide)
  simp [Dict.get?_cons] at hvalue horigin
  exact ⟨alike_of_told host _ _ hvalue, told_origin horigin⟩

theorem AggKind.name_injective {k k' : Rules.AggKind} (h : k.name = k'.name) : k = k' := by
  cases k <;> cases k' <;> first | rfl | exact absurd h (by decide)

theorem told_term_ne_leaf (t : Term O) (l : JsonScalar) :
    told (serializeTerm host t) ≠ .leaf l := by
  cases t <;> exact told_node_ne_leaf _ _ _

mutual

theorem alike_term : ∀ t t' : Term O,
    told (serializeTerm host t) = told (serializeTerm host t') → t.Alike host t'
  | .var v, t', h => by
    cases t' with
    | var v' =>
      rw [told_var h]
      exact .var v'
    | const c' => exact absurd (told_node (by simp) h).1 (by decide)
    | agg kind' target' filter' origin' => exact absurd (told_node (by simp) h).1 (by decide)
  | .const c, t', h => by
    cases t' with
    | const c' => exact .const (told_const host h)
    | var v' => exact absurd (told_node (by simp) h).1 (by decide)
    | agg kind' target' filter' origin' => exact absurd (told_node (by simp) h).1 (by decide)
  | .agg kind none filter origin, t', h => by
    cases t' with
    | var v' => exact absurd (told_node (by simp) h).1 (by decide)
    | const c' => exact absurd (told_node (by simp) h).1 (by decide)
    | agg kind' target' filter' origin' =>
      have hfields := (told_node (by simp) h).2
      have hkind := hfields "kind" (by decide)
      have htarget := hfields "target" (by decide)
      have hfilter := hfields "filter" (by decide)
      have horigin := hfields "origin" (by decide)
      simp [Dict.get?_cons, told_leaf, told_arr, telling] at hkind htarget hfilter horigin
      cases target' with
      | some t' => exact absurd htarget.symm (told_term_ne_leaf host t' _)
      | none =>
        rw [AggKind.name_injective hkind, told_origin horigin]
        exact .untargeted kind' origin' (alike_atoms filter filter' hfilter)
  | .agg kind (some t) filter origin, t', h => by
    cases t' with
    | var v' => exact absurd (told_node (by simp) h).1 (by decide)
    | const c' => exact absurd (told_node (by simp) h).1 (by decide)
    | agg kind' target' filter' origin' =>
      have hfields := (told_node (by simp) h).2
      have hkind := hfields "kind" (by decide)
      have htarget := hfields "target" (by decide)
      have hfilter := hfields "filter" (by decide)
      have horigin := hfields "origin" (by decide)
      simp [Dict.get?_cons, told_leaf, told_arr, telling] at hkind htarget hfilter horigin
      cases target' with
      | none => exact absurd htarget (told_term_ne_leaf host t _)
      | some t' =>
        rw [AggKind.name_injective hkind, told_origin horigin]
        exact .agg kind' origin' (alike_term t t' htarget) (alike_atoms filter filter' hfilter)

theorem alike_terms : ∀ ts ts' : List (Term O),
    (serializeTerms host ts).map told = (serializeTerms host ts').map told →
      List.Forall₂ (Term.Alike host) ts ts'
  | [], [], _ => .nil
  | t :: ts, t' :: ts', h => by
    simp only [serializeTerms, List.map_cons, List.cons.injEq] at h
    exact .cons (alike_term t t' h.1) (alike_terms ts ts' h.2)
  | [], _ :: _, h => by simp [serializeTerms] at h
  | _ :: _, [], h => by simp [serializeTerms] at h

theorem alike_atom : ∀ a a' : Atom O,
    told (serializeAtom host a) = told (serializeAtom host a') → a.Alike host a'
  | .pred predId terms origin, a', h => by
    cases a' with
    | pred predId' terms' origin' =>
      have hfields := (told_node (by simp) h).2
      have hpred := hfields "pred_id" (by decide)
      have hterms := hfields "terms" (by decide)
      simp [Dict.get?_cons, told_leaf, told_arr, telling] at hpred hterms
      rw [hpred]
      exact .pred predId' origin origin' (alike_terms terms terms' hterms)
    | cmp _ _ _ _ | inn _ _ _ | builtin _ _ _ | not _ _ =>
      exact absurd (told_node (by simp) h).1 (by decide)
  | .cmp op lhs rhs origin, a', h => by
    cases a' with
    | cmp op' lhs' rhs' origin' =>
      have hfields := (told_node (by simp) h).2
      have hop := hfields "op" (by decide)
      have hlhs := hfields "lhs" (by decide)
      have hrhs := hfields "rhs" (by decide)
      simp [Dict.get?_cons, told_leaf, telling] at hop hlhs hrhs
      rw [hop]
      exact .cmp op' origin origin' (alike_term lhs lhs' hlhs) (alike_term rhs rhs' hrhs)
    | pred _ _ _ | inn _ _ _ | builtin _ _ _ | not _ _ =>
      exact absurd (told_node (by simp) h).1 (by decide)
  | .inn var values origin, a', h => by
    cases a' with
    | inn var' values' origin' =>
      have hfields := (told_node (by simp) h).2
      have hvar := hfields "var" (by decide)
      have hvalues := hfields "values" (by decide)
      simp only [Dict.get?_cons, String.reduceEq, if_true, if_false, Option.map_some, told_arr,
        Option.some.injEq, Doc.arr.injEq, List.map_map] at hvar hvalues
      rw [told_var hvar]
      exact .inn var' origin origin' (forall₂_of_map_eq hvalues fun _ _ _ => told_const host)
    | pred _ _ _ | cmp _ _ _ _ | builtin _ _ _ | not _ _ =>
      exact absurd (told_node (by simp) h).1 (by decide)
  | .builtin op args origin, a', h => by
    cases a' with
    | builtin op' args' origin' =>
      have hfields := (told_node (by simp) h).2
      have hop := hfields "op" (by decide)
      have hargs := hfields "args" (by decide)
      simp [Dict.get?_cons, told_leaf, told_arr, telling] at hop hargs
      rw [hop]
      exact .builtin op' origin origin' (alike_terms args args' hargs)
    | pred _ _ _ | cmp _ _ _ _ | inn _ _ _ | not _ _ =>
      exact absurd (told_node (by simp) h).1 (by decide)
  | .not body origin, a', h => by
    cases a' with
    | not body' origin' =>
      have hbody := (told_node (by simp) h).2 "body" (by decide)
      simp [Dict.get?_cons] at hbody
      exact .not origin origin' (alike_whereExpr body body' hbody)
    | pred _ _ _ | cmp _ _ _ _ | inn _ _ _ | builtin _ _ _ =>
      exact absurd (told_node (by simp) h).1 (by decide)

theorem alike_atoms : ∀ as as' : List (Atom O),
    (serializeAtoms host as).map told = (serializeAtoms host as').map told →
      List.Forall₂ (Atom.Alike host) as as'
  | [], [], _ => .nil
  | a :: as, a' :: as', h => by
    simp only [serializeAtoms, List.map_cons, List.cons.injEq] at h
    exact .cons (alike_atom a a' h.1) (alike_atoms as as' h.2)
  | [], _ :: _, h => by simp [serializeAtoms] at h
  | _ :: _, [], h => by simp [serializeAtoms] at h

theorem alike_whereExpr : ∀ e e' : WhereExpr O,
    told (serializeWhereExpr host e) = told (serializeWhereExpr host e') → e.Alike host e'
  | .and atoms origin, e', h => by
    cases e' with
    | and atoms' origin' =>
      have hatoms := (told_node (by simp) h).2 "atoms" (by decide)
      simp [Dict.get?_cons, told_arr] at hatoms
      exact .and origin origin' (alike_atoms atoms atoms' hatoms)
    | or branches' origin' => exact absurd (told_node (by simp) h).1 (by decide)
  | .or branches origin, e', h => by
    cases e' with
    | or branches' origin' =>
      have hbranches := (told_node (by simp) h).2 "branches" (by decide)
      simp [Dict.get?_cons, told_arr] at hbranches
      exact .or origin origin' (alike_branches branches branches' hbranches)
    | and atoms' origin' => exact absurd (told_node (by simp) h).1 (by decide)

theorem alike_branches : ∀ bs bs' : List (WhereExpr O),
    (serializeBranches host bs).map told = (serializeBranches host bs').map told →
      List.Forall₂ (WhereExpr.Alike host) bs bs'
  | [], [], _ => .nil
  | b :: bs, b' :: bs', h => by
    simp only [serializeBranches, List.map_cons, List.cons.injEq] at h
    exact .cons (alike_whereExpr b b' h.1) (alike_branches bs bs' h.2)
  | [], _ :: _, h => by simp [serializeBranches] at h
  | _ :: _, [], h => by simp [serializeBranches] at h

end

/-! ## Rules -/

theorem told_port {p q : String × Var} (h : told (serializePort p) = told (serializePort q)) :
    p = q := by
  simp [serializePort, told_arr, told_leaf, telling] at h
  exact Prod.ext h.1 (told_var h.2)

theorem told_ports {ps qs : List (String × Var)}
    (h : (ps.map serializePort).map told = (qs.map serializePort).map told) : ps = qs := by
  rw [List.map_map, List.map_map] at h
  have hall := forall₂_of_map_eq h fun _ _ _ => told_port
  rwa [List.forall₂_eq_eq_eq] at hall

/-- Rules of one digest have the same ports and the same body, the origins of its atoms and of their
bodies apart. -/
theorem content_digest_alike {host : Host O} {float? : String → Option F64}
    (hfloat : FloatText host.floatRepr float?) (hsha : Function.Injective host.sha256)
    {r r' : Rule O} {digest : String} (h : contentDigest? host r = some digest)
    (h' : contentDigest? host r' = some digest) :
    r.ports.Perm r'.ports ∧ List.Forall₂ (Atom.Alike host) r.when r'.when := by
  have hdigest : ∀ {r : Rule O}, contentDigest? host r = some digest → digest =
      hexdigest (host.sha256 (utf8 (jsonDumps jsonAsciiEscaping host.floatRepr
        (sortKeys (payload host r))))) := by
    intro r h
    unfold contentDigest? at h
    split at h
    · exact (Option.some.inj h).symm
    · cases h
  have hbytes := hsha (hexdigest_inj ((hdigest h).symm.trans (hdigest h')))
  have htold : told (payload host r) = told (payload host r') :=
    telling_of_jsonDumps hfloat jsonAsciiEscaping (utf8_injective hbytes)
  have hget := told_get? (by simp [Dict.keys]) htold
  have hports := hget "ports"
  have hwhen := hget "when"
  simp only [Dict.get?_cons, String.reduceEq, if_true, if_false, Option.map_some, told_arr,
    Option.some.injEq, Doc.arr.injEq] at hports hwhen
  have hsorted : ∀ ports : List (String × Var),
      (ports.insertionSort fun p q => p.1 ≤ q.1).Perm ports := fun ports =>
    List.perm_insertionSort _ ports
  refine ⟨(hsorted r.ports).symm.trans ?_, alike_atoms host _ _ hwhen⟩
  rw [told_ports hports]
  exact hsorted r'.ports

end Constants

/-! ## Rules that differ in the origin of an atom -/

/-- A host. -/
def sampleHost : Host Empty where
  sha256 := id
  floatRepr := bitsRepr
  keyRepr := fun _ => ""
  qualname := Empty.elim
  repr := Empty.elim
  qualname_ne := fun o => o.elim

/-- `User:exists($u)`, and `$u` compared with a tuple by an atom of an origin. -/
def sampleRule (origin : Option Origin) : Rule Empty where
  id := "active_user"
  when := [.pred "User:exists" [.var ⟨"$u", none⟩] none,
    .cmp "eq" (.var ⟨"$u", none⟩) (.const ⟨.tuple [.str "u-1", .bytes [0]], none⟩) origin]
  ports := [("user", ⟨"$u", none⟩)]
  id_ne := by decide
  when_ne := by simp
  ports_ne := by simp
  ports_distinct := by simp [Dict.keys]

/-- The place of an atom that was read from a clause. -/
def readPlace : Option Origin := some ⟨"raw_ir", some "$.where[1]"⟩

theorem content_digest_alike_sample :
    ∃ digest, contentDigest? sampleHost (sampleRule none) = some digest ∧
      (sampleRule none).ports.Perm (sampleRule readPlace).ports ∧
      List.Forall₂ (Atom.Alike sampleHost) (sampleRule none).when (sampleRule readPlace).when :=
  ⟨_, rfl, content_digest_alike bits_floatText (fun _ _ h => h) rfl rfl⟩

/-- The digest does not tell the origins of atoms apart. -/
theorem content_digest_forgets_origins : Function.Injective sampleHost.sha256 ∧
    contentDigest? sampleHost (sampleRule none) = contentDigest? sampleHost (sampleRule readPlace) ∧
    (contentDigest? sampleHost (sampleRule none)).isSome ∧
    (sampleRule none).when ≠ (sampleRule readPlace).when := by
  refine ⟨fun _ _ h => h, rfl, rfl, ?_⟩
  intro h
  simp [sampleRule, readPlace] at h

end FactGraph.Policy.Content
