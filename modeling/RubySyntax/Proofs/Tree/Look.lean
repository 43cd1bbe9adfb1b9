/-
  RubySyntax.Proofs.Tree.Look
  ───────────────────────────
  **WHAT THE GRAMMAR ASKS ABOUT A NODE.**

  While a program is read, a few questions are asked about what has been read so far: can it be
  assigned to, can a block be attached to it, does it take arguments without parentheses.  The
  answers are the `Look` of a node; most nodes are plain, and all answers are no.

  Each function that makes a node gives nodes of one look when it is given parts of one look.  So
  what can be read does not depend on anything else in a tree.

  Main results:
    • `look_eq_plain`, `primaryLook_eq_plain` — the looks of most kinds of nodes,
    • `command?_alike`, `assign?_alike`, `attachBlock?_alike` — what is refused depends on the look,
    • `applySuffixes?_alike` — so do the looks of primary expressions.
-/
import Mathlib.Data.List.Forall2
import RubySyntax.Node.Build.Control
import RubySyntax.Node.Build.Pattern

namespace RubySyntax.Node

open Token

/-! ## §1. Looks. -/

/-- What is asked about any expression. -/
structure Look where
  /-- Whether it is a spliced list. -/
  isSplat : Bool
  /-- Whether it is a block that is passed on. -/
  isBlockPass : Bool
  /-- Whether it is a regular expression that names groups. -/
  namesGroups : Bool
  /-- Whether a block can be attached to it. -/
  takesBlock : Bool

/-- What is asked about a primary expression. -/
structure PrimaryLook where
  look : Look
  /-- Whether it can be assigned to. -/
  isTarget : Bool
  /-- Whether it reads an attribute of an object. -/
  readsAttribute : Bool
  /-- Whether it is a constant. -/
  isConstant : Bool
  /-- The kind of the call that it makes with arguments, if it can take some. -/
  commandKind? : Option Kind

/-- All answers are no. -/
def Look.plain : Look := ⟨false, false, false, false⟩

/-- All answers are no. -/
def PrimaryLook.plain : PrimaryLook := ⟨.plain, false, false, false, none⟩

/-- The look of an expression. -/
def look (n : Node) : Look where
  isSplat := n.kind == .splat
  isBlockPass := n.kind == .blockPass
  namesGroups := n.kind == .regexp && !n.namedCaptures.isEmpty
  takesBlock := (blockCallee? n).isSome

/-- The look of a primary expression. -/
def primaryLook (n : Node) : PrimaryLook where
  look := n.look
  isTarget := (target? n).isSome
  readsAttribute := n.readsAttribute
  isConstant := n.kind == .constant
  commandKind? := (command? (.opened n) []).map Node.kind

/-- Whether nodes of a kind are plain expressions. -/
def Kind.isPlain : Kind → Bool
  | .splat | .blockPass | .regexp | .lvar | .send | .csend | .superCall | .zsuper => false
  | _ => true

/-- Whether nodes of a kind are plain primary expressions. -/
def Kind.isPlainPrimary : Kind → Bool
  | .ivar | .cvar | .gvar | .constant | .index | .yieldCall => false
  | k => k.isPlain

theorem look_eq_plain {n : Node} (h : n.kind.isPlain = true) : n.look = .plain := by
  obtain ⟨kind, children, span⟩ := n
  cases kind <;> first | rfl | cases h

theorem primaryLook_eq_plain {n : Node} (h : n.kind.isPlainPrimary = true) :
    n.primaryLook = .plain := by
  obtain ⟨kind, children, span⟩ := n
  cases kind <;> first | rfl | cases h

/-- Expressions of one look. -/
def Alike (n m : Node) : Prop := n.look = m.look

/-- Primary expressions of one look. -/
def PrimaryAlike (n m : Node) : Prop := n.primaryLook = m.primaryLook

theorem PrimaryAlike.alike {n m : Node} (h : n.PrimaryAlike m) : n.Alike m :=
  congrArg PrimaryLook.look h

theorem rel_alike {o o' : Option Node} (h : Option.Rel PrimaryAlike o o') :
    Option.Rel Alike o o' := by
  cases h with
  | none => exact .none
  | some h => exact .some h.alike

theorem rel_of_map_eq {α β : Type} {f : α → β} {o o' : Option α} (h : o.map f = o'.map f) :
    Option.Rel (fun a b => f a = f b) o o' := by
  cases o with
  | none =>
      cases o' with
      | none => exact .none
      | some => cases h
  | some =>
      cases o' with
      | none => cases h
      | some => exact .some (Option.some.inj h)

theorem map_const_of_isSome {α β : Type} {o o' : Option α} (h : o.isSome = o'.isSome) (b : β) :
    (o.map fun _ => b) = o'.map fun _ => b := by
  cases o <;> cases o' <;> first | rfl | cases h

theorem map_eq_of_forall₂ {α β : Type} {f : α → β} {as bs : List α}
    (h : List.Forall₂ (fun a b => f a = f b) as bs) : as.map f = bs.map f := by
  rw [← List.forall₂_eq_eq_eq, List.forall₂_map_left_iff, List.forall₂_map_right_iff]
  exact h

/-! ## §2. Arguments. -/

/-- Whether a list of arguments ends with a block that is passed on. -/
def endsInBlock (args : List Node) : Bool := (args.map look).getLast?.any (·.isBlockPass)

/-- What is asked about an element of an argument list. -/
inductive ArgumentLook where
  | positional (look : Look)
  | pair
  | blockPass (look : Look)

namespace ArgumentLook

/-- The look of a positional argument. -/
def positional? : ArgumentLook → Option Look
  | .positional l => some l
  | _ => none

/-- Whether it is a pair. -/
def isPair : ArgumentLook → Bool
  | .pair => true
  | _ => false

/-- The look of a block that is passed on. -/
def blockPass? : ArgumentLook → Option Look
  | .blockPass l => some l
  | _ => none

end ArgumentLook

/-- The look of an element of an argument list. -/
def Argument.look : Argument → ArgumentLook
  | .positional n => .positional n.look
  | .pair _ => .pair
  | .blockPass n => .blockPass n.look

/-- The looks of an argument list whose pairs are grouped. -/
def groupedLooks (items : List ArgumentLook) : List Look :=
  (items.takeWhile (!·.isPair)).filterMap (·.positional?) ++
    (if items.any (·.isPair) then [.plain] else []) ++
    (items.dropWhile (!·.isPair)).filterMap (·.positional?) ++
    (items.filterMap (·.blockPass?)).getLast?.toList

theorem groupPairs_look {kind : Kind} (hkind : kind.isPlain = true) (items : List Argument) :
    (groupPairs kind items).map look = groupedLooks (items.map Argument.look) := by
  have hpair : ∀ a : Argument, (!a.look.isPair) = a.pair?.isNone := fun a => by cases a <;> rfl
  have hpositional : ∀ a : Argument, a.look.positional? = a.positional?.map look :=
    fun a => by cases a <;> rfl
  have hblock : ∀ a : Argument, a.look.blockPass? = a.blockPass?.map look :=
    fun a => by cases a <;> rfl
  have hempty : (items.filterMap (·.pair?)).isEmpty =
      !(items.map Argument.look).any (·.isPair) := by
    induction items with
    | nil => rfl
    | cons a items ih => cases a <;> simp_all [Argument.pair?, Argument.look, ArgumentLook.isPair]
  have hlast : ((items.filterMap (·.blockPass?)).getLast?.toList).map look =
      (items.filterMap fun a => a.blockPass?.map look).getLast?.toList := by
    rw [← Option.toList_map, ← List.getLast?_map, List.map_filterMap]
  simp only [groupPairs, groupedLooks, List.map_append, hempty, hlast, List.takeWhile_map,
    List.dropWhile_map, List.filterMap_map, List.map_filterMap, Function.comp_def, hpair,
    hpositional, hblock]
  cases (items.map Argument.look).any (·.isPair) with
  | false => rfl
  | true => rw [← look_eq_plain (n := .mk kind _ _) hkind]; rfl

/-- The looks of the arguments of a call depend on those of the elements of the list. -/
theorem arguments_look {items items' : List Argument}
    (h : items.map Argument.look = items'.map Argument.look) :
    (arguments items).map look = (arguments items').map look := by
  rw [arguments, arguments, groupPairs_look rfl, groupPairs_look rfl, h]

/-! ## §3. Calls. -/

/-- The look of a call with some arguments. -/
def callLook (args : List Node) : Look := { Look.plain with takesBlock := !endsInBlock args }

theorem callLook_congr {args args' : List Node} (h : args.map look = args'.map look) :
    callLook args = callLook args' := by
  rw [callLook, callLook, endsInBlock, endsInBlock, h]

/-- The arguments are what comes last in a call. -/
theorem look_mk_call {kind : Kind} {span : Span} (cs : List Child) (args : List Node)
    (hkind : kind = .send ∨ kind = .csend ∨ kind = .superCall)
    (h : args ≠ [] ∨ cs.getLast?.bind Child.node? = none) :
    (Node.mk kind (cs ++ slots args) span).look = callLook args := by
  have hlast : ((cs ++ slots args).getLast?.bind Child.node?).any (·.kind == .blockPass) =
      endsInBlock args := by
    rw [endsInBlock, List.getLast?_append, slots, List.getLast?_map, List.getLast?_map]
    cases hargs : args.getLast? with
    | none =>
        have hcs := h.resolve_left (not_not_intro (List.getLast?_eq_none_iff.mp hargs))
        rw [Option.map_none, Option.none_or, hcs]
        rfl
    | some last => rfl
  have hcallee : (blockCallee? (.mk kind (cs ++ slots args) span)).isSome = !endsInBlock args := by
    have hif : ∀ (b : Bool) (n : Node), (if b then none else some n).isSome = !b :=
      fun b n => by cases b <;> rfl
    rw [← hlast]
    rcases hkind with rfl | rfl | rfl <;> exact hif _ _
  rw [look, hcallee]
  rcases hkind with rfl | rfl | rfl <;> rfl

/-- A call can be assigned to if it has a receiver and no arguments. -/
theorem primaryLook_call (receiver : Option Node) (dot : Option Token) (name : String)
    (selector : Span) (args : List Node) (closing : Option Span) :
    (call receiver dot name selector args closing).primaryLook =
      ⟨callLook args, receiver.isSome && args.isEmpty, receiver.isSome && args.isEmpty, false,
        some (if dot.any fun d => d.kind == .tANDDOT then .csend else .send)⟩ := by
  have hlook : (call receiver dot name selector args closing).look = callLook args := by
    refine look_mk_call [.ofOption receiver, .symbol name] args ?_ (.inr rfl)
    split <;> simp
  rw [primaryLook, hlook]
  unfold call
  split <;> cases receiver <;> cases args <;> rfl

theorem call_alike {receiver receiver' : Option Node} {dot : Option Token} {name : String}
    {selector : Span} {args args' : List Node} {closing : Option Span}
    (hreceiver : receiver.isSome = receiver'.isSome) (hargs : args.map look = args'.map look) :
    PrimaryAlike (call receiver dot name selector args closing)
      (call receiver' dot name selector args' closing) := by
  have hempty : args.isEmpty = args'.isEmpty := by
    rw [← List.isEmpty_map (f := look), hargs, List.isEmpty_map]
  rw [PrimaryAlike, primaryLook_call, primaryLook_call, hreceiver, hempty, callLook_congr hargs]

theorem isPlain_withBlock {v : Version} {callee : Node} {parts : BlockParts} :
    (withBlock v callee parts).kind.isPlainPrimary = true := by
  unfold withBlock
  split
  next => rfl
  next =>
    dsimp only
    split <;> rfl

/-- Whether a block can be attached to a node depends on its look alone. -/
theorem attachBlock?_alike {v w : Version} {n m : Node} {parts parts' : BlockParts}
    (h : n.Alike m) : Option.Rel PrimaryAlike (attachBlock? v n parts) (attachBlock? w m parts') := by
  have hplain : ∀ v n parts,
      (attachBlock? v n parts).map primaryLook = (blockCallee? n).map fun _ => .plain := by
    intro v n parts
    rw [attachBlock?, Option.map_map]
    congr 1
    funext callee
    exact primaryLook_eq_plain isPlain_withBlock
  have htakes : (blockCallee? n).isSome = (blockCallee? m).isSome := congrArg Look.takesBlock h
  refine rel_of_map_eq ?_
  rw [hplain, hplain, map_const_of_isSome htakes]

/-! ## §4. Commands. -/

/-- The look of a call of a kind with arguments. -/
def commandLook (kind : Kind) (args : List Node) : Look :=
  if kind == .yieldCall then .plain else callLook args

theorem command?_look {c : Chain} {items : List Argument} (h : items ≠ []) :
    (command? c items).map look =
      (command? c []).map fun n => commandLook n.kind (arguments items) := by
  have hargs := arguments_ne_nil h
  unfold command?
  split
  next => rfl
  next =>
    split
    next => exact congrArg some (look_mk_call [_, _] _ (.inl rfl) (.inl hargs))
    next => exact congrArg some (look_mk_call _ _ (.inl rfl) (.inl hargs))
    next => exact congrArg some (look_mk_call _ _ (.inl rfl) (.inl hargs))
    next => exact congrArg some (look_mk_call _ _ (.inr (.inl rfl)) (.inl hargs))
    next => exact congrArg some (look_mk_call [] _ (.inr (.inr rfl)) (.inl hargs))
    next =>
      dsimp only
      split <;> rfl
    next => rfl

/-- Primary expressions that can be continued alike. -/
structure Chain.Alike (c c' : Chain) : Prop where
  node : c.node.PrimaryAlike c'.node
  isOpen : c.isOpen = c'.isOpen

theorem Chain.Alike.opened {n m : Node} (h : n.PrimaryAlike m) :
    (Chain.opened n).Alike (Chain.opened m) :=
  ⟨h, rfl⟩

theorem Chain.Alike.closed {n m : Node} (h : n.PrimaryAlike m) :
    (Chain.closed n).Alike (Chain.closed m) :=
  ⟨h, rfl⟩

theorem Chain.Alike.refl (c : Chain) : c.Alike c := ⟨rfl, rfl⟩

/-- The call that an open primary expression makes with arguments depends on their looks. -/
theorem command?_alike {c c' : Chain} {items items' : List Argument} (hc : c.Alike c')
    (hitems : items.map Argument.look = items'.map Argument.look) (hne : items ≠ []) :
    Option.Rel Node.Alike (command? c items) (command? c' items') := by
  have hne' : items' ≠ [] := by
    rintro rfl
    exact hne (List.map_eq_nil_iff.mp hitems)
  -- what becomes of the callee does not depend on the arguments
  have hkind : (command? c []).map kind = (command? c' []).map kind := by
    have hopened : (command? (.opened c.node) []).map kind =
        (command? (.opened c'.node) []).map kind :=
      congrArg PrimaryLook.commandKind? hc.node
    obtain ⟨n, isOpen⟩ := c
    obtain ⟨n', isOpen'⟩ := c'
    cases hc.isOpen
    cases isOpen with
    | false => rfl
    | true => exact hopened
  have hlook : ∀ kind, commandLook kind (arguments items) = commandLook kind (arguments items') := by
    intro kind
    rw [commandLook, commandLook, callLook_congr (arguments_look hitems)]
  refine rel_of_map_eq ?_
  rw [command?_look hne, command?_look hne']
  cases hn : command? c [] <;> cases hm : command? c' [] <;> simp_all

/-! ## §5. Primary expressions. -/

/-- Argument lists between parentheses of one look. -/
def ParenArguments.Alike (a b : ParenArguments) : Prop :=
  a.1.map Argument.look = b.1.map Argument.look ∧ a.2 = b.2

/-- What can follow a primary expression alike. -/
inductive Suffix.Alike : Suffix → Suffix → Prop where
  | method (dot name : Token) {args args' : Option ParenArguments}
      (h : Option.Rel ParenArguments.Alike args args') :
      Suffix.Alike (.method dot name args) (.method dot name args')
  | unnamed (dot : Token) {args args' : ParenArguments} (h : args.Alike args') :
      Suffix.Alike (.unnamed dot args) (.unnamed dot args')
  | constant (name : Token) : Suffix.Alike (.constant name) (.constant name)
  | index (args args' : List Argument) (closing : Token) :
      Suffix.Alike (.index args closing) (.index args' closing)
  | block (parts parts' : BlockParts) : Suffix.Alike (.block parts) (.block parts')

theorem applySuffix?_alike {v w : Version} {c c' : Chain} {s s' : Suffix} (hc : c.Alike c')
    (hs : s.Alike s') : Option.Rel Chain.Alike (applySuffix? v c s) (applySuffix? w c' s') := by
  cases hs with
  | method dot name h =>
      cases h with
      | none => exact .some (.opened (call_alike rfl rfl))
      | @some args args' h =>
          obtain ⟨items, closing⟩ := args
          obtain ⟨items', closing'⟩ := args'
          obtain ⟨hitems, hclosing⟩ := h
          cases hclosing
          exact .some (.closed (call_alike rfl (arguments_look hitems)))
  | @unnamed dot args args' h =>
      obtain ⟨items, closing⟩ := args
      obtain ⟨items', closing'⟩ := args'
      obtain ⟨hitems, hclosing⟩ := h
      cases hclosing
      exact .some (.closed (call_alike rfl (arguments_look hitems)))
  | constant name => exact .some (.opened rfl)
  | index args args' closing => exact .some (.closed rfl)
  | block parts parts' =>
      have h : Option.Rel PrimaryAlike (attachBlock? v c.node parts)
          (attachBlock? w c'.node parts') := attachBlock?_alike hc.node.alike
      simp only [applySuffix?]
      generalize attachBlock? v c.node parts = o at h
      generalize attachBlock? w c'.node parts' = o' at h
      cases h with
      | none => exact .none
      | some h => exact .some (.closed h)

/-- **What a primary expression grows to has a look that depends on the looks of its parts.** -/
theorem applySuffixes?_alike {v w : Version} {c c' : Chain} {ops ops' : List Suffix}
    (hc : c.Alike c') (hops : List.Forall₂ Suffix.Alike ops ops') :
    Option.Rel Chain.Alike (applySuffixes? v c ops) (applySuffixes? w c' ops') := by
  induction hops generalizing c c' with
  | nil => exact .some hc
  | @cons op op' ops ops' hop _ ih =>
      have h : Option.Rel Chain.Alike (applySuffix? v c op) (applySuffix? w c' op') :=
        applySuffix?_alike hc hop
      simp only [applySuffixes?, List.foldlM_cons]
      generalize applySuffix? v c op = o at h
      generalize applySuffix? w c' op' = o' at h
      cases h with
      | none => exact .none
      | some h => exact ih h

theorem superChain_alike {kw : Token} {args args' : Option ParenArguments}
    (h : Option.Rel ParenArguments.Alike args args') :
    (superChain kw args).Alike (superChain kw args') := by
  cases h with
  | none => exact .refl _
  | @some a b h =>
      have hlook : ∀ (b : List Argument) (t : Token), (superCall kw b t).primaryLook =
          ⟨callLook (arguments b), false, false, false, none⟩ := by
        intro b t
        rw [primaryLook, show (superCall kw b t).look = callLook (arguments b) from
          look_mk_call [] _ (.inr (.inr rfl)) (.inr rfl)]
        rfl
      refine .closed ?_
      rw [PrimaryAlike, hlook, hlook, callLook_congr (arguments_look h.1)]

theorem yieldChain_alike {kw : Token} {args args' : Option ParenArguments}
    (h : Option.Rel ParenArguments.Alike args args') :
    (yieldChain kw args).Alike (yieldChain kw args') := by
  cases h with
  | none => exact .refl _
  | @some a b h =>
      have hempty : (arguments a.1).isEmpty = (arguments b.1).isEmpty := by
        rw [← List.isEmpty_map (f := look), arguments_look h.1, List.isEmpty_map]
      have hlook : ∀ (b : List Argument) (t : Token), (yieldCall kw b t).primaryLook =
          ⟨.plain, false, false, false,
            if (arguments b).isEmpty then some .yieldCall else none⟩ := by
        intro b t
        unfold yieldCall
        cases arguments b <;> rfl
      refine .closed ?_
      rw [PrimaryAlike, hlook, hlook, hempty]

/-! ## §6. Regular expressions. -/

/-- Parts of strings that have the same plain content. -/
inductive StringPart.Alike : StringPart → StringPart → Prop where
  | plain (t : Token) : StringPart.Alike (.plain t) (.plain t)
  | interpolation (opening : Token) (body body' : List Node) (closing : Token) :
      StringPart.Alike (.interpolation opening body closing)
        (.interpolation opening body' closing)

/-- The text that a node has by itself. -/
def ownText? (n : Node) : Option String := (n.child? 0).bind Child.text?

theorem ofPart_alike {p p' : StringPart} (h : p.Alike p') :
    (ofPart p).kind = (ofPart p').kind ∧ (ofPart p).ownText? = (ofPart p').ownText? := by
  cases h with
  | plain t => exact ⟨rfl, rfl⟩
  | interpolation opening body body' closing =>
      refine ⟨rfl, ?_⟩
      cases body <;> cases body' <;> rfl

theorem plainText?_congr {ns ns' : List Node} (hkind : ns.map kind = ns'.map kind)
    (htext : ns.map ownText? = ns'.map ownText?) : plainText? ns = plainText? ns' := by
  have hall : ∀ ns : List Node, (ns.all fun n => n.kind == .str) = (ns.map kind).all (· == .str) :=
    fun ns => by rw [List.all_map]; rfl
  have htexts : ∀ ns : List Node,
      (ns.filterMap fun n => (n.child? 0).bind Child.text?) = (ns.map ownText?).filterMap id :=
    fun ns => by rw [List.filterMap_map]; rfl
  rw [plainText?, plainText?, hall, hall, htexts, htexts, hkind, htext]

/-- The text of plain parts is that of their tokens. -/
theorem plainText?_plain (contents : List Token) :
    plainText? ((contents.map StringPart.plain).map ofPart) =
      some (String.join (contents.map (·.value))) := by
  rw [plainText?, if_pos]
  · simp [List.filterMap_map, Function.comp_def, ofPart, child?, children, Child.text?]
  · simp [List.all_map, Function.comp_def, ofPart, kind]

/-- The groups of a regular expression stand in its plain content. -/
theorem namedCaptures_regexp (opening : Token) (parts : List StringPart) (closing flags : Token) :
    (regexp opening parts closing flags).namedCaptures =
      ((plainText? (parts.map ofPart)).map fun text =>
        (captureNames text.toList).eraseDups).getD [] := by
  have hnodes : (regexp opening parts closing flags).childNodes =
      parts.map ofPart ++ [options flags] := by
    simp [regexp, childNodes, children, slots, Function.comp_def, Child.node?]
  have hparts : (parts.map ofPart).filter (fun part => part.kind != .regopt) = parts.map ofPart := by
    refine List.filter_eq_self.mpr (List.forall_mem_map.mpr fun p _ => ?_)
    cases p <;> rfl
  have hoptions : [options flags].filter (fun part => part.kind != .regopt) = [] := rfl
  rw [namedCaptures, hnodes, List.filter_append, hparts, hoptions, List.append_nil]
  cases plainText? (parts.map ofPart) <;> rfl

theorem regexp_alike {opening closing flags : Token} {parts parts' : List StringPart}
    (h : List.Forall₂ StringPart.Alike parts parts') :
    (regexp opening parts closing flags).PrimaryAlike (regexp opening parts' closing flags) := by
  have htext : plainText? (parts.map ofPart) = plainText? (parts'.map ofPart) := by
    refine plainText?_congr ?_ ?_
    all_goals
      rw [List.map_map, List.map_map]
      refine map_eq_of_forall₂ (h.imp fun p p' hp => ?_)
    · exact (ofPart_alike hp).1
    · exact (ofPart_alike hp).2
  have hcaptures : (regexp opening parts closing flags).namedCaptures =
      (regexp opening parts' closing flags).namedCaptures := by
    rw [namedCaptures_regexp, namedCaptures_regexp, htext]
  have hlook : ∀ parts : List StringPart, (regexp opening parts closing flags).primaryLook =
      { PrimaryLook.plain with look := { Look.plain with
        namesGroups := !(regexp opening parts closing flags).namedCaptures.isEmpty } } :=
    fun _ => rfl
  rw [PrimaryAlike, hlook, hlook, hcaptures]

/-! ## §7. Operators. -/

theorem binary_alike {op : Token} {lhs lhs' rhs rhs' : Node} (hlhs : lhs.Alike lhs')
    (hrhs : rhs.Alike rhs') : (binary lhs op rhs).Alike (binary lhs' op rhs') := by
  have hgroups : (lhs.kind == .regexp && !lhs.namedCaptures.isEmpty) =
      (lhs'.kind == .regexp && !lhs'.namedCaptures.isEmpty) :=
    congrArg Look.namesGroups hlhs
  have hargs : [rhs].map look = [rhs'].map look := congrArg (fun l => [l]) hrhs
  unfold binary
  rw [Bool.and_assoc, Bool.and_assoc, hgroups]
  split
  next => rfl
  next => exact PrimaryAlike.alike (call_alike rfl hargs)

theorem joined_alike {kind : Kind} (h : kind.isPlain = true) (n m n' m' : Node) :
    (joined kind n m).Alike (joined kind n' m') :=
  (look_eq_plain (n := joined kind n m) h).trans (look_eq_plain (n := joined kind n' m') h).symm

/-! ## §8. Assignments. -/

theorem target?_alike {n m : Node} (h : n.PrimaryAlike m) :
    (target? n).isSome = (target? m).isSome :=
  congrArg PrimaryLook.isTarget h

/-- An assignment to an attribute is a call; any other one is plain. -/
theorem assign?_look (n value : Node) :
    (assign? n value).map look =
      (target? n).map fun _ => if n.readsAttribute then callLook [value] else .plain := by
  obtain ⟨kind, children, span⟩ := n
  rw [assign?, Option.map_map]
  cases hkind : targetKind? kind with
  | some k =>
      cases kind <;> cases hkind <;> rfl
  | none =>
      cases hcall : kind == .send || kind == .csend with
      | false =>
          have hnone : target? (.mk kind children span) = none := by
            simp [target?, Node.kind, hkind, hcall]
          rw [hnone]
          rfl
      | true =>
          have hattribute : target? (.mk kind children span) =
              attributeTarget? (.mk kind children span) := by
            simp [target?, Node.kind, hkind, hcall]
          have hcases : kind = .send ∨ kind = .csend := by simpa using hcall
          rw [hattribute, attributeTarget?]
          split
          next receiver name hchildren =>
            cases hchildren
            have hlook : ∀ span, (Node.mk kind [receiver, .symbol (name ++ "="), .node value]
                span).look = callLook [value] := fun span =>
              look_mk_call [receiver, .symbol (name ++ "=")] [value] (hcases.imp_right .inl)
                (.inl (List.cons_ne_nil _ _))
            have hreads : (Node.mk kind [receiver, .symbol name] span).readsAttribute =
                !receiver.isAbsent := by
              rw [readsAttribute, show ((mk kind [receiver, .symbol name] span).kind == .send ||
                (mk kind [receiver, .symbol name] span).kind == .csend) = true from hcall]
              rfl
            rw [hreads]
            by_cases habsent : receiver.isAbsent = true
            · rw [if_pos habsent]
              rfl
            · rw [if_neg habsent, Bool.eq_false_iff.mpr habsent]
              exact congrArg some (hlook _)
          next => rfl

/-- Whether a value can be assigned depends on the look of the target alone. -/
theorem assign?_alike {n m value value' : Node} (h : n.PrimaryAlike m)
    (hvalue : value.Alike value') :
    Option.Rel Alike (assign? n value) (assign? m value') := by
  have hreads : n.readsAttribute = m.readsAttribute := congrArg PrimaryLook.readsAttribute h
  have hargs : [value].map look = [value'].map look := congrArg (fun l => [l]) hvalue
  refine rel_of_map_eq ?_
  rw [assign?_look, assign?_look, hreads, callLook_congr hargs,
    map_const_of_isSome (target?_alike h)]

theorem operatorAssign?_alike {n m value value' : Node} {op : Token} (h : n.PrimaryAlike m) :
    Option.Rel Alike (operatorAssign? n op value) (operatorAssign? m op value') := by
  have hreads : n.readsAttribute = m.readsAttribute := congrArg PrimaryLook.readsAttribute h
  have hplain : ∀ n value : Node, (operatorAssign? n op value).map look =
      (if n.readsAttribute then some n else target? n).map fun _ => .plain := by
    intro n value
    rw [operatorAssign?, Option.map_map]
    congr 1
    funext t
    dsimp only [Function.comp_apply]
    split
    next => rfl
    next => split <;> rfl
  refine rel_of_map_eq ?_
  rw [hplain, hplain, hreads]
  split
  next => rfl
  next => exact map_const_of_isSome (target?_alike h) _

theorem isSome_assign? {n value : Node} : (assign? n value).isSome = (target? n).isSome :=
  Option.isSome_map

theorem assignValues?_alike {n m : Node} {items items' : List Node} (h : n.PrimaryAlike m)
    (hitems : List.Forall₂ Alike items items') :
    (assignValues? n items).isSome = (assignValues? m items').isSome := by
  have htarget := target?_alike h
  cases hitems with
  | nil => simp only [assignValues?, isSome_assign?, htarget]
  | cons hitem hrest =>
      cases hrest with
      | nil =>
          have hsplat := congrArg Look.isSplat hitem
          simp only [look] at hsplat
          simp only [assignValues?, hsplat]
          split
          next => simp only [isSome_assign?, htarget]
          next => rfl
      | cons => simp only [assignValues?, isSome_assign?, htarget]

end RubySyntax.Node
