/-
  RubySyntax.Proofs.Grammar.Operators
  ───────────────────────────────────
  **HOW OPERATORS GROUP.**

  Whole numbers with binary operators between them are a tree in which each operator takes on its
  left what binds at least as tightly and on its right what binds more tightly; the power operator
  the other way round.  There is exactly one such tree for each sequence.  It can be built from the
  left to the right, each operator going down the right side of the tree as far as it binds more
  tightly than what it meets:

      1 + 2 * 3 ** 4 ** 5 - 6        ((1 + (2 * (3 ** (4 ** 5)))) - 6)

  The grammar reads the sequence by levels instead, and above the operators it tries commands,
  targets, ranges and conditionals first.  It gives the same tree, in every version.

  Main results:
    • `OperatorTree.eq_build` — a tree is grouped in one way only,
    • `OperatorTree.gives_spine`, `OperatorTree.gives_operation` — the grammar reads a grouped tree
      at each level that it may stand at,
    • `Program.treeOf_operators` — what becomes of any sequence of operands and operators.
-/
import Mathlib.Data.List.Nodup
import RubySyntax.Proofs.Grammar.Giving
import RubySyntax.Proofs.Tree.Resolve
import RubySyntax.Program

namespace RubySyntax.Grammar

open Token

/-! ## §1. Operands, operators and trees. -/

/-- How tightly a binary operator binds, if a kind is one. -/
def binding : Kind → Option Nat
  | .tOROP => some 0
  | .tANDOP => some 1
  | .tCMP | .tEQ | .tEQQ | .tNEQ | .tMATCH | .tNMATCH => some 2
  | .tGT | .tGEQ | .tLT | .tLEQ => some 3
  | .tPIPE | .tCARET => some 4
  | .tAMPER2 => some 5
  | .tLSHFT | .tRSHFT => some 6
  | .tPLUS | .tMINUS => some 7
  | .tSTAR2 | .tDIVIDE | .tPERCENT => some 8
  -- a minus before an operand stands in between
  | .tPOW => some 10
  | _ => none

/-- A whole number. -/
structure Operand where
  token : Token
  isInteger : token.kind = .tINTEGER

/-- A binary operator. -/
structure Operator where
  token : Token
  binds : (binding token.kind).isSome

namespace Operator

/-- How tightly the operator binds. -/
def level (q : Operator) : Nat := (binding q.token.kind).get q.binds

/-- Whether the operator groups to the right, as only the power operator does. -/
def groupsRight (q : Operator) : Bool := q.token.kind == .tPOW

/-- The least level of an operator on the left side. -/
def leftLevel (q : Operator) : Nat := if q.groupsRight then q.level + 1 else q.level

/-- The least level of an operator on the right side. -/
def rightLevel (q : Operator) : Nat := if q.groupsRight then q.level else q.level + 1

/-- The node of an operation. -/
def node (q : Operator) (lhs rhs : Node) : Node :=
  match q.token.kind with
  | .tOROP => .mk .orOp [.node lhs, .node rhs] (lhs.span.join rhs.span)
  | .tANDOP => .mk .andOp [.node lhs, .node rhs] (lhs.span.join rhs.span)
  | _ => .mk .send [.node lhs, .symbol q.token.value, .node rhs]
      ((q.token.span.join lhs.span).join rhs.span)

end Operator

/-- Operators over operands. -/
inductive OperatorTree where
  | leaf (a : Operand)
  | apply (lhs : OperatorTree) (op : Operator) (rhs : OperatorTree)

/-- The tokens of an operand, and of operators and operands behind it. -/
def sequence (first : Operand) (rest : List (Operator × Operand)) : List Token :=
  first.token :: rest.flatMap fun (q, a) => [q.token, a.token]

namespace OperatorTree

/-- The operands and operators in order. -/
def tokens : OperatorTree → List Token
  | leaf a => [a.token]
  | apply lhs op rhs => lhs.tokens ++ op.token :: rhs.tokens

/-- The operator at the root. -/
def root? : OperatorTree → Option Operator
  | leaf _ => none
  | apply _ op _ => some op

/-- Each operator has on its sides only what binds tightly enough. -/
def Grouped : OperatorTree → Prop
  | leaf _ => True
  | apply lhs op rhs =>
    lhs.Grouped ∧ rhs.Grouped ∧ (∀ q ∈ lhs.root?, op.leftLevel ≤ q.level) ∧
      ∀ q ∈ rhs.root?, op.rightLevel ≤ q.level

/-- The node of a tree. -/
def node : OperatorTree → Node
  | leaf a => Node.integer a.token
  | apply lhs op rhs => op.node lhs.node rhs.node

/-- The first operand. -/
def first : OperatorTree → Operand
  | leaf a => a
  | apply lhs _ _ => lhs.first

/-- The operators, each with the operand behind it. -/
def rest : OperatorTree → List (Operator × Operand)
  | leaf _ => []
  | apply lhs op rhs => lhs.rest ++ (op, rhs.first) :: rhs.rest

/-- A tree with one more operator and operand at the end: the operator goes down the right side as
far as it may. -/
def push : OperatorTree → Operator → Operand → OperatorTree
  | leaf b, q, a => apply (leaf b) q (leaf a)
  | apply lhs op rhs, q, a =>
    if op.rightLevel ≤ q.level then apply lhs op (rhs.push q a)
    else apply (apply lhs op rhs) q (leaf a)

/-- A tree with more operators and operands at the end. -/
def pushAll (t : OperatorTree) (ops : List (Operator × Operand)) : OperatorTree :=
  ops.foldl (fun t p => t.push p.1 p.2) t

/-- The tree of a sequence. -/
def build (first : Operand) (rest : List (Operator × Operand)) : OperatorTree :=
  (leaf first).pushAll rest

end OperatorTree

/-! ## §2. The one grouping. -/

theorem eq_tPOW_of_binding {kind : Kind} (h : binding kind = some 10) : kind = .tPOW := by
  cases kind <;> first | rfl | exact absurd h (by decide)

namespace Operator

theorem binding_eq (q : Operator) : binding q.token.kind = some q.level :=
  (Option.some_get q.binds).symm

theorem groupsRight_iff (q : Operator) : q.groupsRight = true ↔ q.level = 10 := by
  have hbinding := q.binding_eq
  rw [groupsRight, beq_iff_eq]
  constructor
  · intro h
    rw [h] at hbinding
    exact (Option.some.inj hbinding).symm
  · intro h
    exact eq_tPOW_of_binding (by rw [hbinding, h])

theorem leftLevel_eq (q : Operator) :
    q.leftLevel = if q.level = 10 then q.level + 1 else q.level := by
  rw [leftLevel]
  simp only [groupsRight_iff]

theorem rightLevel_eq (q : Operator) :
    q.rightLevel = if q.level = 10 then q.level else q.level + 1 := by
  rw [rightLevel]
  simp only [groupsRight_iff]

/-- Of two operators the second one goes to the right of the first one, or has it on its left. -/
theorem leftLevel_le_iff (op q : Operator) : q.leftLevel ≤ op.level ↔ ¬ op.rightLevel ≤ q.level := by
  rw [leftLevel_eq, rightLevel_eq]
  split <;> split <;> omega

end Operator

namespace OperatorTree

variable {t lhs rhs : OperatorTree} {op q : Operator} {a : Operand}

theorem tokens_eq_sequence (t : OperatorTree) : t.tokens = sequence t.first t.rest := by
  induction t with
  | leaf a => rfl
  | apply lhs op rhs ihl ihr => simp [tokens, ihl, ihr, sequence, first, rest]

/-- An operator that is pushed is the root or leaves the root as it is. -/
theorem root?_push (t : OperatorTree) (q : Operator) (a : Operand) :
    (t.push q a).root? = some q ∨ (t.push q a).root? = t.root? := by
  cases t with
  | leaf b => exact .inl rfl
  | apply lhs op rhs =>
      rw [push]
      split
      · exact .inr rfl
      · exact .inl rfl

/-- **A tree to which an operator is pushed stays grouped.** -/
theorem Grouped.push (h : t.Grouped) : (t.push q a).Grouped := by
  induction t with
  | leaf b => exact ⟨trivial, trivial, nofun, nofun⟩
  | apply lhs op rhs _ ih =>
      obtain ⟨hlhs, hrhs, hleft, hright⟩ := h
      rw [OperatorTree.push]
      split
      next hunder =>
        refine ⟨hlhs, ih hrhs, hleft, fun p hp => ?_⟩
        obtain hroot | hroot := root?_push rhs q a
        · rw [hroot, Option.mem_some_iff] at hp
          exact hp ▸ hunder
        · exact hright p (hroot ▸ hp)
      next hover =>
        refine ⟨⟨hlhs, hrhs, hleft, hright⟩, trivial, fun p hp => ?_, nofun⟩
        rw [root?, Option.mem_some_iff] at hp
        exact hp ▸ (Operator.leftLevel_le_iff op q).mpr hover

theorem first_push : (t.push q a).first = t.first := by
  induction t with
  | leaf b => rfl
  | apply lhs op rhs _ ih =>
      rw [push]
      split <;> rfl

theorem rest_push : (t.push q a).rest = t.rest ++ [(q, a)] := by
  induction t with
  | leaf b => rfl
  | apply lhs op rhs _ ih =>
      rw [push]
      split
      · simp [rest, ih, first_push]
      · simp [rest, first]

theorem pushAll_cons (t : OperatorTree) (p : Operator × Operand) (ops : List (Operator × Operand)) :
    t.pushAll (p :: ops) = (t.push p.1 p.2).pushAll ops := rfl

/-- What has been pushed to a tree, one after the other. -/
theorem grouped_pushAll (ops : List (Operator × Operand)) : ∀ {t : OperatorTree}, t.Grouped →
    (t.pushAll ops).Grouped ∧ (t.pushAll ops).first = t.first ∧
      (t.pushAll ops).rest = t.rest ++ ops := by
  induction ops with
  | nil => exact fun h => ⟨h, rfl, (List.append_nil _).symm⟩
  | cons p ops ih =>
      intro t h
      obtain ⟨hgrouped, hfirst, hrest⟩ := ih (t := t.push p.1 p.2) h.push
      rw [pushAll_cons]
      refine ⟨hgrouped, hfirst.trans first_push, hrest.trans ?_⟩
      rw [rest_push, List.append_assoc]
      rfl

/-- **The tree of a sequence is grouped and has its tokens.** -/
theorem grouped_build (first : Operand) (rest : List (Operator × Operand)) :
    (build first rest).Grouped ∧ (build first rest).tokens = sequence first rest := by
  obtain ⟨hgrouped, hfirst, hrest⟩ := grouped_pushAll rest (t := leaf first) trivial
  refine ⟨hgrouped, ?_⟩
  rw [tokens_eq_sequence, build, hfirst, hrest]
  rfl

/-- A tree with an operator has one at its root. -/
theorem exists_root_of_mem_rest {p : Operator × Operand} (h : p ∈ t.rest) :
    ∃ q, t.root? = some q := by
  cases t with
  | leaf a => cases h
  | apply lhs op rhs => exact ⟨op, rfl⟩

/-- No operator binds less tightly than the one at the root. -/
theorem Grouped.level_le (h : t.Grouped) (hroot : t.root? = some op) :
    ∀ p ∈ t.rest, op.level ≤ p.1.level := by
  induction t generalizing op with
  | leaf b => cases hroot
  | apply lhs op' rhs ihl ihr =>
      obtain ⟨hlhs, hrhs, hleft, hright⟩ := h
      obtain rfl : op' = op := Option.some.inj hroot
      -- what stands on its sides binds at least as tightly
      have hmost : op'.level ≤ op'.leftLevel ∧ op'.level ≤ op'.rightLevel := by
        rw [Operator.leftLevel_eq, Operator.rightLevel_eq]
        split <;> omega
      intro p hp
      obtain hp | hp := List.mem_append.mp hp
      · obtain ⟨q, hl⟩ := exists_root_of_mem_rest hp
        exact Nat.le_trans (Nat.le_trans hmost.1 (hleft q hl)) (ihl hlhs hl p hp)
      · obtain rfl | hp := List.mem_cons.mp hp
        · exact Nat.le_refl _
        · obtain ⟨q, hr⟩ := exists_root_of_mem_rest hp
          exact Nat.le_trans (Nat.le_trans hmost.2 (hright q hr)) (ihr hrhs hr p hp)

/-- Operators that bind more tightly than the root go to its right side. -/
theorem pushAll_apply (ops : List (Operator × Operand)) : ∀ {rhs : OperatorTree},
    (∀ p ∈ ops, op.rightLevel ≤ p.1.level) →
      (apply lhs op rhs).pushAll ops = apply lhs op (rhs.pushAll ops) := by
  induction ops with
  | nil => exact fun _ => rfl
  | cons p ops ih =>
      intro rhs h
      obtain ⟨hp, hops⟩ := List.forall_mem_cons.mp h
      have hpush : (apply lhs op rhs).push p.1 p.2 = apply lhs op (rhs.push p.1 p.2) := if_pos hp
      rw [pushAll_cons, hpush, ih hops, pushAll_cons]

/-- An operator that has the root on its left goes above it. -/
theorem push_of_leftLevel_le (h : ∀ p ∈ t.root?, q.leftLevel ≤ p.level) :
    t.push q a = apply t q (leaf a) := by
  cases t with
  | leaf b => rfl
  | apply lhs op rhs =>
      have hover := (Operator.leftLevel_le_iff op q).mp (h op rfl)
      rw [push, if_neg hover]

/-- **A tree is grouped in one way only**: as it is built. -/
theorem eq_build (h : t.Grouped) : t = build t.first t.rest := by
  induction t with
  | leaf a => rfl
  | apply lhs op rhs ihl ihr =>
      obtain ⟨hlhs, hrhs, hleft, hright⟩ := h
      have hbelow : ∀ p ∈ rhs.rest, op.rightLevel ≤ p.1.level := by
        intro p hp
        obtain ⟨q, hr⟩ := exists_root_of_mem_rest hp
        exact Nat.le_trans (hright q hr) (hrhs.level_le hr p hp)
      -- the operators on the right bind more tightly than this one, so they are pushed into its
      -- right side
      calc apply lhs op rhs
        _ = apply lhs op (build rhs.first rhs.rest) := by rw [← ihr hrhs]
        _ = (apply lhs op (leaf rhs.first)).pushAll rhs.rest := (pushAll_apply _ hbelow).symm
        _ = (lhs.push op rhs.first).pushAll rhs.rest := by rw [push_of_leftLevel_le hleft]
        _ = ((build lhs.first lhs.rest).push op rhs.first).pushAll rhs.rest := by rw [← ihl hlhs]
        _ = build lhs.first (lhs.rest ++ (op, rhs.first) :: rhs.rest) := by
            rw [build, build, pushAll, pushAll, pushAll, List.foldl_append, List.foldl_cons]

theorem sequence_injective {a b : Operand} {ops ops' : List (Operator × Operand)}
    (h : sequence a ops = sequence b ops') : a = b ∧ ops = ops' := by
  have hoperand : ∀ {a b : Operand}, a.token = b.token → a = b := by
    rintro ⟨_, _⟩ ⟨_, _⟩ rfl
    rfl
  have hoperator : ∀ {q p : Operator}, q.token = p.token → q = p := by
    rintro ⟨_, _⟩ ⟨_, _⟩ rfl
    rfl
  obtain ⟨hfirst, hrest⟩ := List.cons.inj h
  refine ⟨hoperand hfirst, ?_⟩
  clear h hfirst
  induction ops generalizing ops' with
  | nil =>
      cases ops' with
      | nil => rfl
      | cons p ops' => cases hrest
  | cons p ops ih =>
      cases ops' with
      | nil => cases hrest
      | cons p' ops' =>
          obtain ⟨hop, hrest⟩ := List.cons.inj hrest
          obtain ⟨harg, hrest⟩ := List.cons.inj hrest
          rw [ih hrest, Prod.ext (hoperator hop) (hoperand harg)]

/-- **There is one grouped tree of a sequence.** -/
theorem eq_build_of_tokens {first : Operand} {rest : List (Operator × Operand)} (h : t.Grouped)
    (htokens : t.tokens = sequence first rest) : t = build first rest := by
  rw [tokens_eq_sequence] at htokens
  obtain ⟨hfirst, hrest⟩ := sequence_injective htokens
  rw [eq_build h, hfirst, hrest]

end OperatorTree

/-! ## §3. Rows of the table. -/

namespace Operator

variable {q : Operator} {b b' : BinaryLevel}

/-- What the table says of the operators of a row. -/
theorem level_of_mem (hb : b ∈ binaryLevels) (hq : q.token.kind ∈ b.kinds) :
    b.level = q.level ∧ b.rightLevel = q.rightLevel := by
  have hall : ∀ b ∈ binaryLevels, ∀ kind ∈ b.kinds, binding kind = some b.level ∧
      b.rightLevel = if kind == .tPOW then b.level else b.level + 1 := by decide
  obtain ⟨hbinding, hright⟩ := hall b hb _ hq
  have hlevel : b.level = q.level := Option.some.inj (hbinding.symm.trans q.binding_eq)
  exact ⟨hlevel, by rw [hright, hlevel]; rfl⟩

theorem exists_row (q : Operator) : ∃ b ∈ binaryLevels, q.token.kind ∈ b.kinds := by
  have hall : ∀ kind, (binding kind).isSome = true → ∃ b ∈ binaryLevels, kind ∈ b.kinds := by
    intro kind
    cases kind <;> decide
  exact hall _ q.binds

/-- An operator is in one row. -/
theorem row_unique (hb : b ∈ binaryLevels) (hb' : b' ∈ binaryLevels) (hq : q.token.kind ∈ b.kinds)
    (hq' : q.token.kind ∈ b'.kinds) : b = b' := by
  have hlevels : (binaryLevels.map (·.level)).Nodup := by decide
  exact List.inj_on_of_nodup_map hlevels hb hb'
    ((level_of_mem hb hq).1.trans (level_of_mem hb' hq').1.symm)

/-- The node that a row makes of an operation, if the operand on the left is no pattern. -/
theorem combine_eq (hb : b ∈ binaryLevels) (hq : q.token.kind ∈ b.kinds) {lhs rhs : Node}
    (hlhs : lhs.kind ≠ .regexp) : b.combine lhs q.token rhs = q.node lhs rhs := by
  have hbinary : ∀ op : Token, Node.binary lhs op rhs = .mk .send
      [.node lhs, .symbol op.value, .node rhs] ((op.span.join lhs.span).join rhs.span) := by
    intro op
    rw [Node.binary, beq_eq_false_iff_ne.mpr hlhs, Bool.and_false, Bool.false_and]
    rfl
  -- three rows: the two that make nodes of their own, and those that make calls
  have hall : ∀ b ∈ binaryLevels, b.combine = (fun x _ y => Node.joined .orOp x y) ∧
        b.kinds = [.tOROP] ∨
      b.combine = (fun x _ y => Node.joined .andOp x y) ∧ b.kinds = [.tANDOP] ∨
      b.combine = Node.binary ∧ .tOROP ∉ b.kinds ∧ .tANDOP ∉ b.kinds := by
    simp [binaryLevels]
  obtain ⟨hcombine, hkinds⟩ | ⟨hcombine, hkinds⟩ | ⟨hcombine, hor, hand⟩ := hall b hb
  · have hkind : q.token.kind = .tOROP := List.mem_singleton.mp (hkinds ▸ hq)
    rw [hcombine, node, hkind]
    rfl
  · have hkind : q.token.kind = .tANDOP := List.mem_singleton.mp (hkinds ▸ hq)
    rw [hcombine, node, hkind]
    rfl
  · rw [hcombine, hbinary, node]
    split
    next hkind => exact absurd (hkind ▸ hq) hor
    next hkind => exact absurd (hkind ▸ hq) hand
    next => rfl

end Operator

theorem OperatorTree.kind_node_ne (t : OperatorTree) :
    t.node.kind ≠ .regexp ∧ t.node.kind ≠ .lvar := by
  cases t with
  | leaf a => exact ⟨nofun, nofun⟩
  | apply lhs op rhs =>
      rw [node, Operator.node]
      split <;> exact ⟨nofun, nofun⟩

/-! ## §4. Reading. -/

section Reading

variable {tokens : Array Token} {version : Version} {i j k : Nat}

/-- Nothing is left, or an operator comes that binds less tightly than a level. -/
def Closes (level : Nat) (rest : List Token) : Prop :=
  rest = [] ∨ ∃ (q : Operator) (more : List Token), rest = q.token :: more ∧ q.level < level

theorem Closes.mono {level level' : Nat} {rest : List Token} (h : Closes level rest)
    (hle : level ≤ level') : Closes level' rest :=
  h.imp id fun ⟨q, more, heq, hlt⟩ => ⟨q, more, heq, Nat.lt_of_lt_of_le hlt hle⟩

/-- The end of the tokens, or an operator. -/
def endsOperand (first : Option Kind) : Bool := first.all fun kind => (binding kind).isSome

theorem Closes.endsOperand {level : Nat} {rest : List Token} (h : Closes level rest) :
    endsOperand (rest.head?.map (·.kind)) = true := by
  obtain rfl | ⟨q, more, rfl, -⟩ := h
  · rfl
  · exact q.binds

/-- What may follow an operand refuses everything else that could. -/
theorem refuses_of_endsOperand {first : Option Kind} (h : endsOperand first = true) :
    (.call Symbol.suffix : Rule Node.Suffix).refusesFirst first = true ∧
      leavesOut first [.tEQL] = true ∧ leavesOut first [.tOP_ASGN] = true := by
  cases first with
  | none => exact ⟨rfl, rfl, rfl⟩
  | some kind =>
      have hall : ∀ kind, (binding kind).isSome = true →
          (.call Symbol.suffix : Rule Node.Suffix).refusesFirst (some kind) = true ∧
            leavesOut (some kind) [.tEQL] = true ∧ leavesOut (some kind) [.tOP_ASGN] = true := by
        intro kind
        cases kind <;> first | exact fun _ => ⟨rfl, rfl, rfl⟩ | exact fun h => absurd h (by decide)
      exact hall kind h

/-- **An operand is read alone.** -/
theorem gives_operand {a : Operand} {rest : List Token} (h : Remain tokens i (a.token :: rest))
    (hrest : endsOperand (rest.head?.map (·.kind)) = true) :
    Gives tokens version primary i (.closed (Node.integer a.token)) (i + 1) ∧
      Gives tokens version (.call Symbol.operand) i (Node.integer a.token) (i + 1) := by
  have hfirst := h.tail.kind
  obtain ⟨hsuffix, heql, hasgn⟩ := refuses_of_endsOperand hrest
  have hliteral : Gives tokens version (.call Symbol.literal) i (Node.integer a.token) (i + 1) :=
    gives_call (gives_orElse_first (gives_map
      (gives_token h.head (List.mem_singleton.mpr a.isInteger))))
  have hatom : Gives tokens version (.call Symbol.atom) i (.closed (Node.integer a.token)) (i + 1) :=
    gives_call (gives_orElse_first (gives_map hliteral))
  have hprimary : Gives tokens version primary i (.closed (Node.integer a.token)) (i + 1) :=
    gives_call (gives_check (gives_seq (gives_map hatom)
      (gives_star_nil (fails_of_refusesFirst hfirst hsuffix))) rfl)
  -- no assignment begins here, since no sign of one follows
  refine ⟨hprimary, gives_call (gives_orElse_second ?_ (gives_orElse_second ?_
    (gives_map hprimary)))⟩
  · exact fails_check (fails_seq (fails_seq_second (gives_map (gives_map hprimary))
      (fails_of_leavesOut hfirst heql)))
  · exact fails_check (fails_seq (fails_seq_second (gives_map hprimary)
      (fails_of_leavesOut hfirst hasgn)))

/-- A choice gives what one of its alternatives gives, if each of the others fails or gives the
same. -/
theorem gives_foldl_orElse {α : Type} {v : α} {es : List (Rule α)} : ∀ {e : Rule α},
    (∃ x ∈ e :: es, Gives tokens version x i v j) →
      (∀ x ∈ e :: es, Gives tokens version x i v j ∨ Fails tokens version x i) →
        Gives tokens version (es.foldl Expr.orElse e) i v j := by
  induction es with
  | nil =>
      rintro e ⟨x, hx, h⟩ -
      exact List.mem_singleton.mp hx ▸ h
  | cons e' es ih =>
      rintro e ⟨x, hx, h⟩ hall
      obtain ⟨he, hrest⟩ := List.forall_mem_cons.mp hall
      obtain ⟨he', hes⟩ := List.forall_mem_cons.mp hrest
      -- the first two alternatives are one
      have htwo : Gives tokens version (.orElse e e') i v j ∨
          Fails tokens version e i ∧ Fails tokens version e' i := by
        obtain he | he := he
        · exact .inl (gives_orElse_first he)
        · exact he'.imp (gives_orElse_second he) fun he' => ⟨he, he'⟩
      refine ih ?_ (List.forall_mem_cons.mpr ⟨htwo.imp_right fun h => fails_orElse h.1 h.2, hes⟩)
      obtain htwo | ⟨hfails, hfails'⟩ := htwo
      · exact ⟨_, List.mem_cons_self, htwo⟩
      · obtain rfl | hx := List.mem_cons.mp hx
        · exact ⟨_, List.mem_cons_self, gives_orElse_first h⟩
        obtain rfl | hx := List.mem_cons.mp hx
        · exact ⟨_, List.mem_cons_self, gives_orElse_second hfails h⟩
        · exact ⟨x, List.mem_cons_of_mem _ hx, h⟩

/-- The rows from a level on, each as an operator and its right operand. -/
def tailsFrom (level : Nat) : List (Rule (Node → Node)) :=
  (binaryLevels.filter (level ≤ ·.level)).map (·.tail fun l => .call (Symbol.operation l))

/-- One operator of at least a level and its right operand. -/
def tailFrom (level : Nat) : Rule (Node → Node) :=
  match tailsFrom level with
  | [] => .done id
  | tail :: tails => tails.foldl Expr.orElse tail

/-- There are rows up to the level of the power operator. -/
theorem tailsFrom_ne_nil {level : Nat} (hlevel : level ≤ 10) :
    ∃ tail tails, tailsFrom level = tail :: tails := by
  refine List.exists_cons_of_ne_nil fun hnil => ?_
  rw [tailsFrom, List.map_eq_nil_iff, List.filter_eq_nil_iff] at hnil
  have hpower : ∃ b ∈ binaryLevels, b.level = 10 := by decide
  obtain ⟨b, hb, hten⟩ := hpower
  exact hnil b hb (by rw [hten, decide_eq_true_eq]; exact hlevel)

/-- An operand, and operators of at least a level with their right operands. -/
theorem gives_operationRule {level : Nat} {x : Node} {fs : List (Node → Node)} (hlevel : level ≤ 10)
    (hunary : ∀ u ∈ unaryLevels, Fails tokens version (.token u.kinds : Rule Token) i)
    (hx : Gives tokens version (.call Symbol.operand) i x k)
    (hfs : Gives tokens version (.star (tailFrom level)) k fs j) :
    Gives tokens version (.call (Symbol.operation level)) i (fs.foldl (fun x f => f x) x) j := by
  obtain ⟨tail, tails, htails⟩ := tailsFrom_ne_nil hlevel
  have hfirst : Gives tokens version (Expr.firstOf (unaryLevels.map
      (·.head fun l => .call (Symbol.operation l))) (.call Symbol.operand)) i x k := by
    refine gives_firstOf_last (fun e he => ?_) hx
    obtain ⟨u, hu, rfl⟩ := List.mem_map.mp he
    exact fails_seq (fails_map (hunary u hu))
  refine gives_call (show Gives tokens version (operationRule level) i _ j from ?_)
  rw [tailFrom, htails] at hfs
  rw [tailsFrom] at htails
  simp only [operationRule, climb, htails]
  exact gives_seq (gives_map hfirst) hfs

/-- Where an operator of at least a level comes, it is read with its right operand. -/
theorem gives_tailFrom {level : Nat} {q : Operator} {b : BinaryLevel} {n : Node}
    (hb : b ∈ binaryLevels) (hq : q.token.kind ∈ b.kinds) (hlevel : level ≤ q.level)
    (ht : tokens[i]? = some q.token)
    (hn : Gives tokens version (.call (Symbol.operation q.rightLevel)) (i + 1) n j) :
    Gives tokens version (tailFrom level) i (fun x => b.combine x q.token n) j := by
  obtain ⟨hrow, hright⟩ := Operator.level_of_mem hb hq
  have hgives : Gives tokens version (b.tail fun l => .call (Symbol.operation l)) i
      (fun x => b.combine x q.token n) j :=
    gives_seq (gives_map (gives_token ht hq)) (hright ▸ hn)
  have hmem : (b.tail fun l => .call (Symbol.operation l)) ∈ tailsFrom level :=
    List.mem_map.mpr ⟨b, List.mem_filter.mpr ⟨hb, by rw [hrow, decide_eq_true_eq]; exact hlevel⟩, rfl⟩
  -- each operator is in one row only, so no other row takes it
  have hall : ∀ e ∈ tailsFrom level, Gives tokens version e i (fun x => b.combine x q.token n) j ∨
      Fails tokens version e i := by
    intro e he
    obtain ⟨b', hb', rfl⟩ := List.mem_map.mp he
    by_cases hq' : q.token.kind ∈ b'.kinds
    · obtain rfl := Operator.row_unique hb (List.mem_filter.mp hb').1 hq hq'
      exact .inl hgives
    · exact .inr (fails_seq (fails_map ⟨_, .other ht hq'⟩))
  rw [tailFrom]
  generalize tailsFrom level = tails at hmem hall
  cases tails with
  | nil => cases hmem
  | cons tail tails => exact gives_foldl_orElse ⟨_, hmem, hgives⟩ hall

/-- Where an operation of a level ends, no operator is read. -/
theorem fails_tailFrom {level : Nat} {rest : List Token} (hlevel : level ≤ 10)
    (h : Remain tokens i rest) (hrest : Closes level rest) :
    Fails tokens version (tailFrom level) i := by
  have hall : ∀ e ∈ tailsFrom level, Fails tokens version e i := by
    intro e he
    obtain ⟨b, hb, rfl⟩ := List.mem_map.mp he
    obtain ⟨hb, hle⟩ := List.mem_filter.mp hb
    refine fails_seq (fails_map (fails_of_leavesOut h.kind ?_))
    obtain rfl | ⟨q, more, rfl, hlt⟩ := hrest
    · rfl
    · have hq : q.token.kind ∉ b.kinds := fun hq => by
        rw [(Operator.level_of_mem hb hq).1, decide_eq_true_eq] at hle
        omega
      simpa [leavesOut] using hq
  obtain ⟨tail, tails, htails⟩ := tailsFrom_ne_nil hlevel
  rw [htails] at hall
  obtain ⟨htail, htails'⟩ := List.forall_mem_cons.mp hall
  rw [tailFrom, htails]
  exact fails_foldl_orElse htail htails'

end Reading

namespace OperatorTree

section Trees

variable {tokens : Array Token} {version : Version}

/-- A tree begins with its first operand, behind which an operator comes or the tree ends. -/
theorem exists_tokens_append (t : OperatorTree) {rest : List Token}
    (hrest : endsOperand (rest.head?.map (·.kind)) = true) :
    ∃ more, t.tokens ++ rest = t.first.token :: more ∧
      endsOperand (more.head?.map (·.kind)) = true := by
  rw [tokens_eq_sequence, sequence]
  cases t.rest with
  | nil => exact ⟨rest, rfl, hrest⟩
  | cons p ops => exact ⟨_, rfl, p.1.binds⟩

/-- The left side of a tree, from its first operand on: the operators on it are read one after the
other, each with its right operand, before whatever is read behind the tree. -/
def Spine (tokens : Array Token) (version : Version) (t : OperatorTree) : Prop :=
  ∀ i rest level, level ≤ 10 → Remain tokens i (t.tokens ++ rest) →
    (∀ q ∈ t.root?, level ≤ q.level ∧ Closes q.rightLevel rest) →
    ∃ fs : List (Node → Node), fs.foldl (fun x f => f x) (Node.integer t.first.token) = t.node ∧
      ∀ gs j, Gives tokens version (.star (tailFrom level)) (i + t.tokens.length) gs j →
        Gives tokens version (.star (tailFrom level)) (i + 1) (fs ++ gs) j

/-- **A tree is read as an operation** of each level that its root is at, if no operator behind it
is. -/
theorem Spine.gives_operation {t : OperatorTree} (h : Spine tokens version t) {i level : Nat}
    {rest : List Token} (hlevel : level ≤ 10) (hremain : Remain tokens i (t.tokens ++ rest))
    (hroot : ∀ q ∈ t.root?, level ≤ q.level) (hrest : Closes level rest) :
    Gives tokens version (.call (Symbol.operation level)) i t.node (i + t.tokens.length) := by
  have hcloses : ∀ q ∈ t.root?, level ≤ q.level ∧ Closes q.rightLevel rest := by
    intro q hq
    refine ⟨hroot q hq, hrest.mono (Nat.le_trans (hroot q hq) ?_)⟩
    rw [Operator.rightLevel_eq]
    split <;> omega
  obtain ⟨fs, hfs, hstar⟩ := h i rest level hlevel hremain hcloses
  have hend : Gives tokens version (.star (tailFrom level)) (i + t.tokens.length) [] _ :=
    gives_star_nil (fails_tailFrom hlevel hremain.append hrest)
  obtain ⟨more, hmore, hends⟩ := t.exists_tokens_append hrest.endsOperand
  rw [hmore] at hremain
  have hkind : tokens[i]?.map (·.kind) = some .tINTEGER := by
    rw [hremain.head, Option.map_some, t.first.isInteger]
  -- a number has no operator in front of it
  have hunary : ∀ u ∈ unaryLevels, leavesOut (some .tINTEGER) u.kinds = true := by decide
  have hgives := gives_operationRule hlevel
    (fun u hu => fails_of_leavesOut hkind (hunary u hu)) (gives_operand hremain hends).2
    (hstar [] _ hend)
  rwa [List.append_nil, hfs] at hgives

/-- **The left side of a grouped tree is read operator by operator.** -/
theorem Grouped.spine {t : OperatorTree} (h : t.Grouped) : Spine tokens version t := by
  induction t with
  | leaf a => exact fun i rest level _ _ _ => ⟨[], rfl, fun gs j hgs => hgs⟩
  | apply lhs op rhs ihl ihr =>
      obtain ⟨hlhs, hrhs, hleft, hright⟩ := h
      intro i rest level hlevel hremain hroot
      obtain ⟨hle, hcloses⟩ := hroot op rfl
      rw [OperatorTree.tokens, List.append_assoc, List.cons_append] at hremain
      -- the operators of the left side bind at least as tightly, and this one ends what they take
      have hleft' : ∀ q ∈ lhs.root?, level ≤ q.level ∧
          Closes q.rightLevel (op.token :: (rhs.tokens ++ rest)) := by
        intro q hq
        have hmost : op.level ≤ op.leftLevel := by
          rw [Operator.leftLevel_eq]
          split <;> omega
        have hends := (Operator.leftLevel_le_iff q op).mp (hleft q hq)
        exact ⟨by have := hleft q hq; omega, .inr ⟨op, _, rfl, Nat.not_le.mp hends⟩⟩
      obtain ⟨fs, hfs, hstar⟩ := ihl hlhs i _ level hlevel hremain hleft'
      have hop := hremain.append
      have hten : op.rightLevel ≤ 10 := by
        obtain ⟨b, hb, hq⟩ := op.exists_row
        have hall : ∀ b ∈ binaryLevels, b.rightLevel ≤ 10 := by decide
        exact (Operator.level_of_mem hb hq).2 ▸ hall b hb
      have hrhs' := (ihr hrhs).gives_operation hten hop.tail hright hcloses
      obtain ⟨b, hb, hq⟩ := op.exists_row
      refine ⟨fs ++ [fun x => b.combine x op.token rhs.node], ?_, fun gs j hgs => ?_⟩
      · rw [List.foldl_append, first, hfs]
        exact Operator.combine_eq hb hq lhs.kind_node_ne.1
      · have htail := gives_tailFrom hb hq hle hop.head hrhs'
        have hlength : i + (apply lhs op rhs).tokens.length =
            i + lhs.tokens.length + 1 + rhs.tokens.length := by
          rw [OperatorTree.tokens, List.length_append, List.length_cons]
          omega
        rw [hlength] at hgs
        rw [List.append_assoc]
        exact hstar _ j (gives_star_cons htail hgs)

/-- **A grouped tree is the whole program** of its tokens. -/
theorem Grouped.readProgram_eq {t : OperatorTree} (h : t.Grouped) (version : Version) :
    readProgram t.tokens version = .ok (some t.node) := by
  obtain ⟨more, hmore, hends⟩ : ∃ more, t.tokens ++ [] = t.first.token :: more ∧
      endsOperand (more.head?.map (·.kind)) = true := t.exists_tokens_append rfl
  rw [List.append_nil] at hmore
  have hremain : Remain t.tokens.toArray 0 t.tokens := rfl
  have hoperation : Gives t.tokens.toArray version operation 0 t.node (0 + t.tokens.length) :=
    h.spine.gives_operation (Nat.zero_le _) (hremain.trans (List.append_nil _).symm)
      (fun _ _ => Nat.zero_le _) (.inl rfl)
  rw [Nat.zero_add, ← List.size_toArray] at hoperation
  have hfirst : Remain t.tokens.toArray 0 (t.first.token :: more) := hremain.trans hmore
  obtain ⟨-, heql, -⟩ := refuses_of_endsOperand hends
  have hinert : Inert t.tokens.toArray version := .inr ⟨_, _, (gives_operand hfirst hends).1, rfl,
    rfl, fails_of_leavesOut hfirst.tail.kind heql⟩
  refine readProgram_of_operation hinert hfirst.head ?_ hoperation
  rw [t.first.isInteger]
  decide

end Trees

end OperatorTree

end RubySyntax.Grammar

namespace RubySyntax.Node

/-! ## §5. Programs. -/

/-- Where there are no names, resolving names changes nothing. -/
theorem resolveIn_of_no_names {n : Node} (h : Everywhere (fun n => n.kind ≠ .lvar) n) :
    ∀ names, (resolveIn names n).1 = n := by
  induction h with
  | @mk kind children span here below ih =>
      intro names
      rcases resolveIn_mk names kind children span with ⟨rfl, -⟩ | ⟨-, slots, hslots, h⟩
      · exact absurd rfl here
      · have heq : slots = children := by
          clear h here
          induction hslots with
          | nil => rfl
          | @cons c d before after hc _ ihrest =>
              have hd : d = c := by
                cases hc with
                | node names n => rw [ih n List.mem_cons_self names]
                | other => rfl
              rw [hd, ihrest (fun n hn => below n (List.mem_cons_of_mem _ hn))
                fun n hn => ih n (List.mem_cons_of_mem _ hn)]
        rw [h, heq]

end RubySyntax.Node

namespace RubySyntax.Program

open Token Grammar OperatorTree

theorem everywhere_node (t : OperatorTree) : t.node.Everywhere (fun n => n.kind ≠ .lvar) := by
  induction t with
  | leaf a =>
      rw [node, Node.integer]
      cases Node.integerValue? a.token.value.toList <;>
        exact .mk nofun fun n hn => by cases List.mem_singleton.mp hn
  | apply lhs op rhs ihl ihr =>
      rw [node, Operator.node]
      split
      all_goals
        refine .mk nofun fun n hn => ?_
        simp only [List.mem_cons, List.not_mem_nil, or_false, Child.node.injEq, reduceCtorEq,
          false_or] at hn
        obtain rfl | rfl := hn
        · exact ihl
        · exact ihr

/-- **Operands and operators are read as their one grouped tree**: for each sequence there is exactly
one tree that has its tokens in their order and is grouped by the levels of the operators, and in
every version the sequence is the program with the node of that tree. -/
theorem treeOf_operators (first : Operand) (rest : List (Operator × Operand)) :
    ∃ t : OperatorTree, (t.tokens = sequence first rest ∧ t.Grouped) ∧
      (∀ t' : OperatorTree, t'.tokens = sequence first rest → t'.Grouped → t' = t) ∧
      ∀ version text, readProgram (sequence first rest) version = .ok (some t.node) ∧
        treeOf (sequence first rest) version text = .ok t.node := by
  obtain ⟨hgrouped, htokens⟩ := grouped_build first rest
  refine ⟨build first rest, ⟨htokens, hgrouped⟩, fun t' h h' => eq_build_of_tokens h' h,
    fun version text => ?_⟩
  have hread := hgrouped.readProgram_eq version
  rw [htokens] at hread
  refine ⟨hread, ?_⟩
  have hresolve : (build first rest).node.resolve = (build first rest).node :=
    Node.resolveIn_of_no_names (everywhere_node _) []
  unfold treeOf
  rw [hread]
  simp only [Option.getD_some, hresolve]

end RubySyntax.Program
