/-
  RubySyntax.Proofs.Tree.Kept
  ───────────────────────────
  **WHAT HOLDS OF THE WATCHED NODES IS KEPT.**

  Loops and multiple assignments are watched: there a property may depend on where the parts were
  read.  A property that only watched nodes can fail to have holds of every other new node.  So the
  functions that make nodes keep it: if it holds everywhere in the parts, it holds everywhere in the
  node that is made of them.  Only the functions that make watched nodes have to be looked at.

  A value that is no node yet, such as a list of arguments or the parts of a block, has the property
  if the nodes in it have, and a function if it keeps it.

  Main results:
    • `AboutWatched.mk` — a new node that is not watched,
    • `AboutWatched.condition`, `AboutWatched.arguments`, … — one lemma for each function that makes
      nodes.
-/
import RubySyntax.Node.Loop
import RubySyntax.Proofs.Tree.Place.Control

namespace RubySyntax

open Node

/-! ## §1. Values. -/

/-- Values that have nodes in them. -/
class HasNodes (α : Type) where
  /-- A property holds everywhere in the nodes of a value. -/
  AllNodes : (Node → Prop) → α → Prop

export HasNodes (AllNodes)

instance : HasNodes Token := ⟨fun _ _ => True⟩

instance : HasNodes Unit := ⟨fun _ _ => True⟩

instance : HasNodes Bool := ⟨fun _ _ => True⟩

instance : HasNodes Node := ⟨Everywhere⟩

instance {α : Type} [HasNodes α] : HasNodes (List α) := ⟨fun P as => ∀ a ∈ as, AllNodes P a⟩

instance {α : Type} [HasNodes α] : HasNodes (Option α) := ⟨fun P o => ∀ a ∈ o, AllNodes P a⟩

instance {α β : Type} [HasNodes α] [HasNodes β] : HasNodes (α × β) :=
  ⟨fun P p => AllNodes P p.1 ∧ AllNodes P p.2⟩

/-- A function keeps a property. -/
instance {α β : Type} [HasNodes α] [HasNodes β] : HasNodes (α → β) :=
  ⟨fun P f => ∀ a, AllNodes P a → AllNodes P (f a)⟩

instance : HasNodes Argument := ⟨fun P a => Everywhere P a.node⟩

instance : HasNodes Chain := ⟨fun P c => Everywhere P c.node⟩

instance : HasNodes StringPart := ⟨fun P part => match part with
  | .plain _ => True
  | .interpolation _ body _ => AllNodes P body⟩

instance : HasNodes MethodHead := ⟨fun P head => AllNodes P head.receiver⟩

instance : HasNodes BlockParts := ⟨fun P parts => AllNodes P parts.params ∧ AllNodes P parts.body⟩

instance : HasNodes Suffix := ⟨fun P op => match op with
  | .method _ _ args => AllNodes P args
  | .unnamed _ args => AllNodes P args
  | .constant _ => True
  | .index args _ => AllNodes P args
  | .block parts => AllNodes P parts⟩

/-- Whether a node is watched: a loop or a multiple assignment. -/
def Node.isWatched (n : Node) : Bool := n.isLoop || n.kind == .masgn

theorem Node.isLoop_eq_false_of_not_watched {n : Node} (h : n.isWatched = false) :
    n.isLoop = false :=
  (Bool.or_eq_false_iff.mp h).1

/-- A target is not watched. -/
theorem Node.isWatched_eq_false_of_target {t : Node} (h : t.kind ∈ targetKinds) :
    t.isWatched = false := by
  obtain ⟨kind, children, span⟩ := t
  simp only [targetKinds, List.mem_cons, List.not_mem_nil, or_false] at h
  rcases h with rfl | rfl | rfl | rfl | rfl | rfl | rfl | rfl <;> rfl

theorem Node.Everywhere.of_children {P : Node → Prop} {n : Node} (here : P n)
    (hslots : SlotsAll (Everywhere P) n.children) : Everywhere P n := by
  cases n with
  | mk kind children span => exact .mk here hslots

/-- A property that only watched nodes can fail to have. -/
def AboutWatched (P : Node → Prop) : Prop := ∀ n, n.isWatched = false → P n

namespace AboutWatched

variable {P : Node → Prop} (hP : AboutWatched P)
include hP

/-! ## §2. New nodes. -/

section New

variable {kind : Kind} {children : List Child} {span : Span}

/-- **A new node that is not watched**, with parts that have the property. -/
theorem mk (hkind : (Node.mk kind children span).isWatched = false)
    (hslots : SlotsAll (Everywhere P) children) : Everywhere P (.mk kind children span) :=
  .mk (hP _ hkind) hslots

/-- A node with no nodes in its slots. -/
theorem leaf (hkind : (Node.mk kind children span).isWatched = false)
    (hslots : ∀ n, Child.node n ∉ children) : Everywhere P (.mk kind children span) :=
  hP.mk hkind fun n hn => absurd hn (hslots n)

theorem bare (t : Token) (hkind : (Node.bare kind t).isWatched = false) :
    Everywhere P (Node.bare kind t) :=
  hP.leaf hkind fun _ hn => nomatch hn

theorem named (t : Token) (hkind : (Node.named kind t).isWatched = false) :
    Everywhere P (Node.named kind t) :=
  hP.leaf hkind fun n hn => by simp at hn

theorem joined {x y : Node} (hkind : (Node.joined kind x y).isWatched = false)
    (hx : Everywhere P x) (hy : Everywhere P y) : Everywhere P (Node.joined kind x y) :=
  hP.mk hkind (by simpa using ⟨hx, hy⟩)

end New

theorem ofStatements? {ns : List Node} (h : ∀ n ∈ ns, Everywhere P n) :
    ∀ b ∈ Node.ofStatements? ns, Everywhere P b := by
  match ns with
  | [] => exact fun _ hn => nomatch hn
  | [n] =>
      rintro _ ⟨⟩
      exact h n List.mem_cons_self
  | _ :: _ :: _ =>
      rintro _ ⟨⟩
      exact hP.mk rfl (slotsAll_slots.mpr h)

/-! ## §3. Literals. -/

theorem integer (t : Token) : Everywhere P (Node.integer t) :=
  hP.leaf rfl fun n hn => by
    cases h : integerValue? t.value.toList <;> simp [h] at hn

theorem float (t : Token) : Everywhere P (Node.float t) :=
  hP.leaf rfl fun n hn => by
    cases h : Decimal.read? (String.ofList (t.value.toList.filter (· != '_'))) <;> simp [h] at hn

theorem rational (t : Token) : Everywhere P (Node.rational t) :=
  hP.leaf rfl fun n hn => by simp at hn

theorem complex (t : Token) : Everywhere P (Node.complex t) :=
  hP.leaf rfl fun n hn => by simp at hn

theorem character (t : Token) : Everywhere P (Node.character t) :=
  hP.leaf rfl fun n hn => by simp at hn

theorem markedVariable (t : Token) : Everywhere P (Node.markedVariable t) := by
  unfold Node.markedVariable
  split
  case h_5 =>
    refine hP.leaf rfl fun n hn => ?_
    cases h : ((baseValue? 10 t.value.toList).map Int.ofNat).filter (· ≤ maxInteger) <;>
      simp [h] at hn
  all_goals exact hP.named t rfl

theorem constant {scope : Option Node} (h : ∀ n ∈ scope, Everywhere P n) (name : Token) :
    Everywhere P (Node.constant scope name) :=
  hP.mk rfl (by simpa using h)

theorem topConstant (colons name : Token) : Everywhere P (Node.topConstant colons name) :=
  hP.constant (forall_mem_some (hP.bare colons rfl)) name

section Strings

variable {parts : List StringPart} (h : AllNodes P parts) (opening closing : Token)
include h

theorem stringParts : ∀ n ∈ parts.map ofPart, Everywhere P n := by
  intro n hn
  obtain ⟨part, hpart, rfl⟩ := List.mem_map.mp hn
  cases part with
  | plain t => exact hP.leaf rfl fun n hn => by simp at hn
  | interpolation opening body closing =>
      exact hP.mk rfl (slotsAll_slots.mpr (h _ hpart))

theorem string : Everywhere P (Node.string opening parts closing) := by
  simp only [Node.string]
  split
  · exact hP.leaf rfl fun n hn => by simp at hn
  · exact hP.mk rfl (slotsAll_slots.mpr (hP.stringParts h))

theorem quotedSymbol : Everywhere P (Node.quotedSymbol opening parts closing) := by
  simp only [Node.quotedSymbol]
  split
  · exact hP.leaf rfl fun n hn => by simp at hn
  · exact hP.mk rfl (slotsAll_slots.mpr (hP.stringParts h))

theorem commandString : Everywhere P (Node.commandString opening parts closing) :=
  hP.mk rfl (slotsAll_slots.mpr (hP.stringParts h))

theorem regexp (flags : Token) : Everywhere P (Node.regexp opening parts closing flags) := by
  have hoptions : Everywhere P (options flags) := hP.leaf rfl fun n hn => by simp at hn
  refine hP.mk rfl (slotsAll_slots.mpr fun n hn => ?_)
  rcases List.mem_append.mp hn with hn | hn
  · exact hP.stringParts h n hn
  · cases List.mem_singleton.mp hn
    exact hoptions

end Strings

theorem concatenation {ns : List Node} (h : ∀ n ∈ ns, Everywhere P n) :
    Everywhere P (Node.concatenation ns) := by
  match ns with
  | [n] => exact h n List.mem_cons_self
  | [] | _ :: _ :: _ => exact hP.mk rfl (slotsAll_slots.mpr h)

/-! ## §4. Definitions and parameters. -/

theorem methodDef {head : MethodHead} {params : Node} {body : Option Node} (kw : Token)
    (hhead : ∀ n ∈ head.receiver, Everywhere P n) (hparams : Everywhere P params)
    (hbody : ∀ n ∈ body, Everywhere P n)
    (stop : Span) : Everywhere P (Node.methodDef kw head params body stop) := by
  obtain ⟨receiver, name⟩ := head
  cases receiver with
  | none => exact hP.mk rfl (by simpa using ⟨hparams, hbody⟩)
  | some receiver =>
      have hreceiver : Everywhere P receiver := hhead receiver rfl
      exact hP.mk rfl (by simpa using ⟨hreceiver, hparams, hbody⟩)

theorem methodReceiver (t : Token) : Everywhere P (Node.methodReceiver t) := by
  unfold Node.methodReceiver
  split
  · exact hP.bare t rfl
  · exact hP.constant (by simp) t
  · exact hP.named t rfl

theorem noParams (after : Token) : Everywhere P (Node.noParams after) :=
  hP.leaf rfl fun _ hn => nomatch hn

theorem param {kind : Kind} (start : Token) (name : Option Token) {value : Option Node}
    (hkind : (Node.param kind start name value).isWatched = false)
    (h : ∀ n ∈ value, Everywhere P n) :
    Everywhere P (Node.param kind start name value) := by
  refine hP.mk hkind (slotsAll_append.mpr ⟨fun n hn => ?_, slotsAll_slots.mpr fun n hn => ?_⟩)
  · simp at hn
  · exact h n (Option.mem_toList.mp hn)

theorem takingApart {only : Node} (h : Everywhere P only) :
    Everywhere P (Node.takingApart only) := by
  refine hP.mk rfl ?_
  split
  · exact fun n hn => h.child hn
  · simpa using h

theorem blockParams {params own : List Node} (opening : Token)
    (hparams : ∀ n ∈ params, Everywhere P n) (trailingComma : Bool) (hown : ∀ n ∈ own, Everywhere P n) (closing : Token) :
    Everywhere P (Node.blockParams opening params trailingComma own closing) := by
  refine hP.mk rfl ?_
  rw [slots_append, slotsAll_append]
  refine ⟨slotsAll_slots.mpr ?_, slotsAll_slots.mpr hown⟩
  split
  next only =>
    have honly : Everywhere P only := hparams only List.mem_cons_self
    split
    · exact List.forall_mem_singleton.mpr (hP.takingApart honly)
    · exact List.forall_mem_singleton.mpr honly
  next => exact hparams

/-! ## §5. Collections and calls. -/

theorem groupPairs {kind : Kind} {items : List Argument}
    (hkind : ∀ children span, (Node.mk kind children span).isWatched = false)
    (h : ∀ a ∈ items, Everywhere P a.node) : ∀ n ∈ Node.groupPairs kind items, Everywhere P n := by
  intro n hn
  rcases mem_groupPairs hn with ⟨a, ha, rfl⟩ | ⟨pairs, -, hpairs, rfl⟩
  · exact h a ha
  · refine hP.mk (hkind _ _) (slotsAll_slots.mpr fun p hp => ?_)
    obtain ⟨a, ha, rfl⟩ := hpairs p hp
    exact h a ha

theorem arguments {items : List Argument} (h : ∀ a ∈ items, Everywhere P a.node) :
    ∀ n ∈ Node.arguments items, Everywhere P n :=
  hP.groupPairs (fun _ _ => rfl) h

theorem array {items : List Argument} (opening : Token) (h : ∀ a ∈ items, Everywhere P a.node)
    (closing : Token) : Everywhere P (Node.array opening items closing) :=
  hP.mk rfl (slotsAll_slots.mpr (hP.groupPairs (fun _ _ => rfl) h))

theorem bareArray {ns : List Node} (h : ∀ n ∈ ns, Everywhere P n) :
    Everywhere P (Node.bareArray ns) :=
  hP.mk rfl (slotsAll_slots.mpr h)

theorem pair {key value : Node} (hkey : Everywhere P key) (hvalue : Everywhere P value) :
    Everywhere P (Node.pair key value) :=
  hP.mk rfl (by simpa using ⟨hkey, hvalue⟩)

theorem labelled (label : Token) {value : Node} (h : Everywhere P value) :
    Everywhere P (Node.labelled label value) :=
  hP.pair (hP.named label rfl) h

theorem labelAlone (label : Token) : Everywhere P (Node.labelAlone label) := by
  have hkey : Everywhere P (symbol label) := hP.named label rfl
  have hvalue : Everywhere P (identifier label) := hP.named label rfl
  exact hP.mk rfl (by simpa using ⟨hkey, hvalue⟩)

theorem marked {kind : Kind} {value : Node} {span : Span}
    (hkind : (Node.mk kind [.node value] span).isWatched = false) (h : Everywhere P value) :
    Everywhere P (.mk kind [.node value] span) :=
  hP.mk hkind (by simpa using h)

theorem splat (op : Token) {value : Option Node} (h : ∀ n ∈ value, Everywhere P n) :
    Everywhere P (Node.splat op value) :=
  hP.mk rfl (slotsAll_slots.mpr fun n hn => h n (Option.mem_toList.mp hn))

theorem blockPass (op : Token) {value : Option Node} (h : ∀ n ∈ value, Everywhere P n) :
    Everywhere P (Node.blockPass op value) :=
  hP.mk rfl (by simpa using h)

theorem call {receiver : Option Node} {dot : Option Token} {name : String} {selector : Span}
    {args : List Node} {closing : Option Span} (hreceiver : ∀ n ∈ receiver, Everywhere P n)
    (hargs : ∀ n ∈ args, Everywhere P n) :
    Everywhere P (Node.call receiver dot name selector args closing) := by
  refine hP.mk ?_ ?_
  · split <;> rfl
  · simpa using ⟨hreceiver, hargs⟩

theorem functionCall (name : Token) {items : List Argument} (h : ∀ a ∈ items, Everywhere P a.node)
    (closing : Token) : Everywhere P (Node.functionCall name items closing) :=
  hP.call (fun _ hn => nomatch hn) (hP.arguments h)

theorem nameCall (name : Token) : Everywhere P (Node.nameCall name) :=
  hP.call (fun _ hn => nomatch hn) fun _ hn => nomatch hn

theorem jump (kw : Token) {items : List Argument} (h : ∀ a ∈ items, Everywhere P a.node) :
    Everywhere P (Node.jump kw items) := by
  refine hP.mk ?_ (slotsAll_slots.mpr (hP.arguments h))
  split <;> rfl

theorem unary (op : Token) {x : Node} (h : Everywhere P x) (method : String) :
    Everywhere P (Node.unary op x method) :=
  hP.mk rfl (by simpa using h)

theorem binary (op : Token) {x y : Node} (hx : Everywhere P x) (hy : Everywhere P y) :
    Everywhere P (Node.binary x op y) := by
  unfold Node.binary
  split
  · exact hP.mk rfl (by simpa using ⟨hx, hy⟩)
  · exact hP.call (forall_mem_some hx) (List.forall_mem_singleton.mpr hy)

theorem range {lhs rhs : Option Node} (op : Token) (hlhs : ∀ n ∈ lhs, Everywhere P n)
    (hrhs : ∀ n ∈ rhs, Everywhere P n) : Everywhere P (Node.range lhs op rhs) := by
  refine hP.mk ?_ (by simpa using ⟨hlhs, hrhs⟩)
  split <;> rfl

/-! ## §6. Blocks and primary expressions. -/

theorem blockCallee? {n : Node} (h : Everywhere P n) :
    ∀ m ∈ Node.blockCallee? n, Everywhere P m := by
  intro m hm
  cases makesCallee_of_mem hm with
  | name _ => exact hP.mk rfl (slotsAll_cons.mpr ⟨by simp, fun m hm => h.child hm⟩)
  | call _ _ => exact h

theorem withBlock (v : Version) {callee : Node} {parts : BlockParts} (hcallee : Everywhere P callee)
    (hparts : AllNodes P parts) : Everywhere P (Node.withBlock v callee parts) := by
  obtain ⟨hparams, hbody⟩ := hparts
  simp only [Node.withBlock]
  split
  next params heq =>
    have hparams : Everywhere P params := hparams params heq
    exact hP.mk rfl (by simpa using ⟨hcallee, hparams, hbody⟩)
  next =>
    split
    · exact hP.mk rfl (by simpa using ⟨hcallee, hbody⟩)
    · have hmissing : Everywhere P (.mk .args [] parts.opening.span.atEnd) :=
        hP.leaf rfl (by simp)
      exact hP.mk rfl (by simpa using ⟨hcallee, hmissing, hbody⟩)

theorem attachBlock? (v : Version) {n : Node} {parts : BlockParts} (h : Everywhere P n)
    (hparts : AllNodes P parts) : ∀ m ∈ Node.attachBlock? v n parts, Everywhere P m := by
  intro m hm
  obtain ⟨callee, hcallee, rfl⟩ := Option.map_eq_some_iff.mp hm
  exact hP.withBlock v (hP.blockCallee? h callee hcallee) hparts

theorem lambda (v : Version) (arrow : Token) {params : Option Node} {parts : BlockParts}
    (hparams : ∀ n ∈ params, Everywhere P n) (hparts : AllNodes P parts) :
    Everywhere P (Node.lambda v arrow params parts) := by
  refine hP.withBlock v (hP.bare arrow rfl) ⟨?_, hparts.2⟩
  cases params with
  | none => exact hparts.1
  | some params => exact hparams

theorem applySuffix? (v : Version) {c : Chain} {op : Suffix} (hc : Everywhere P c.node)
    (hop : AllNodes P op) : ∀ c' ∈ Node.applySuffix? v c op, Everywhere P c'.node := by
  intro c' hc'
  match op with
  | .method dot name none =>
      cases hc'
      rw [Chain.opened_node]
      exact hP.call (forall_mem_some hc) (List.forall_mem_nil _)
  | .method dot name (some (items, closing)) =>
      cases hc'
      rw [Chain.closed_node]
      exact hP.call (forall_mem_some hc) (hP.arguments (hop _ rfl).1)
  | .unnamed dot (items, closing) =>
      cases hc'
      rw [Chain.closed_node]
      exact hP.call (forall_mem_some hc) (hP.arguments hop.1)
  | .constant name =>
      cases hc'
      exact hP.constant (forall_mem_some hc) name
  | .index items closing =>
      cases hc'
      refine hP.mk rfl (slotsAll_cons.mpr ⟨?_, slotsAll_slots.mpr (hP.arguments hop)⟩)
      rintro n ⟨⟩
      exact hc
  | .block parts =>
      obtain ⟨n, hn, rfl⟩ := Option.map_eq_some_iff.mp hc'
      exact hP.attachBlock? v hc hop n hn

theorem applySuffixes? (v : Version) {first : Chain} {ops : List Suffix}
    (hfirst : Everywhere P first.node) (hops : ∀ op ∈ ops, AllNodes P op) :
    ∀ c ∈ Node.applySuffixes? v first ops, Everywhere P c.node := by
  induction ops generalizing first with
  | nil =>
      rintro c ⟨⟩
      exact hfirst
  | cons op ops ih =>
      intro c hc
      obtain ⟨hop, hops⟩ := List.forall_mem_cons.mp hops
      obtain ⟨next, hnext, hc⟩ := Option.bind_eq_some_iff.mp hc
      exact ih (hP.applySuffix? v hfirst hop next hnext) hops c hc

theorem superChain (kw : Token) {args : Option ParenArguments} (h : AllNodes P args) :
    Everywhere P (Node.superChain kw args).node := by
  match args with
  | none => exact hP.bare kw rfl
  | some (items, closing) => exact hP.mk rfl (slotsAll_slots.mpr (hP.arguments (h _ rfl).1))

theorem yieldChain (kw : Token) {args : Option ParenArguments} (h : AllNodes P args) :
    Everywhere P (Node.yieldChain kw args).node := by
  match args with
  | none => exact hP.bare kw rfl
  | some (items, closing) => exact hP.mk rfl (slotsAll_slots.mpr (hP.arguments (h _ rfl).1))

theorem command? {c : Chain} {items : List Argument} (hc : Everywhere P c.node)
    (h : ∀ a ∈ items, Everywhere P a.node) : ∀ n ∈ Node.command? c items, Everywhere P n := by
  have hargs := slotsAll_slots.mpr (hP.arguments h)
  have hslots : SlotsAll (Everywhere P) c.node.children := fun n hn => hc.child hn
  intro n hn
  obtain ⟨kind, children, hmakes, rfl⟩ := mem_command? hn
  refine hP.mk ?_ (slotsAll_append.mpr ⟨hmakes.slotsAll hslots, hargs⟩)
  cases hmakes <;> rfl

/-! ## §7. Assignments. -/

section Assignments

variable {n value : Node} (h : Everywhere P n) (hvalue : Everywhere P value)
include h

theorem target? : ∀ t ∈ Node.target? n, Everywhere P t := by
  intro t ht
  obtain ⟨kind, children, hmakes, rfl⟩ := mem_target? ht
  have hslots : SlotsAll (Everywhere P) children := hmakes.slotsAll fun m hm => h.child hm
  exact hP.mk (isWatched_eq_false_of_target hmakes.kind_mem) hslots

include hvalue

theorem assign? : ∀ m ∈ Node.assign? n value, Everywhere P m := by
  intro m hm
  obtain ⟨t, ht, rfl⟩ := Option.map_eq_some_iff.mp hm
  obtain ⟨kind, children, hmakes, rfl⟩ := mem_target? ht
  have hslots : SlotsAll (Everywhere P) children := hmakes.slotsAll fun m hm => h.child hm
  have hassign : (Node.mk kind (children ++ [.node value]) (n.span.join value.span)).isWatched =
      false := isWatched_eq_false_of_target hmakes.kind_mem
  exact hP.mk hassign (slotsAll_append.mpr ⟨hslots, by simpa using hvalue⟩)

theorem operatorAssign? (op : Token) :
    ∀ m ∈ Node.operatorAssign? n op value, Everywhere P m := by
  intro m hm
  obtain ⟨t, ht, rfl⟩ := Option.map_eq_some_iff.mp hm
  have hleft : Everywhere P t := by
    split at ht
    · cases ht
      exact h
    · exact hP.target? h t ht
  dsimp only
  split
  · exact hP.mk rfl (by simpa using ⟨hleft, hvalue⟩)
  split
  · exact hP.mk rfl (by simpa using ⟨hleft, hvalue⟩)
  · exact hP.mk rfl (by simpa using ⟨hleft, hvalue⟩)

theorem rescueModifier (kw : Token) : Everywhere P (Node.rescueModifier n kw value) := by
  have hclause : Everywhere P
      (.mk .resbody [.absent, .absent, .node value] (kw.span.join value.span)) :=
    hP.mk rfl (by simpa using hvalue)
  exact hP.mk rfl (by simpa using ⟨h, hclause⟩)

end Assignments

section Several

variable {ns : List Node} (h : ∀ n ∈ ns, Everywhere P n)
include h

theorem multipleValues : Everywhere P (Node.multipleValues ns) := by
  obtain heq | ⟨n, rfl, heq⟩ := multipleValues_eq ns
  · rw [heq]
    exact hP.bareArray h
  · rw [heq]
    exact h n List.mem_cons_self

theorem targets : Everywhere P (Node.targets ns) := by
  obtain heq | ⟨n, rfl, -, heq⟩ := targets_eq ns
  · rw [heq]
    exact hP.mk rfl (slotsAll_slots.mpr h)
  · rw [heq]
    exact h n List.mem_cons_self

theorem assignValues? {n : Node} (hn : Everywhere P n) :
    ∀ m ∈ Node.assignValues? n ns, Everywhere P m :=
  fun m hm => hP.assign? hn (hP.bareArray h) m (mem_assignValues? hm)

end Several

/-! ## §8. Conditions. -/

/-- A condition has the kind of the expression, or is not watched. -/
theorem condition (n : Node) : Everywhere P n → Everywhere P (condition n) := by
  induction n using ind with
  | mk kind children span ih =>
      intro h
      have hslots : SlotsAll (Everywhere P) (conditionSlots children) := by
        intro m hm
        obtain ⟨n, hn, rfl⟩ := mem_conditionSlots hm
        exact ih n hn (h.child hn)
      unfold Node.condition
      split
      · exact hP.mk rfl (by simpa using h)
      · exact hP.mk rfl hslots
      · exact hP.mk rfl hslots
      · exact hP.mk rfl hslots
      · exact hP.mk rfl hslots
      · split
        · exact hP.mk rfl hslots
        · exact h
      · exact h

section Conditions

variable {cond : Node} {yes no : Option Node} (hcond : Everywhere P cond)
  (hyes : ∀ n ∈ yes, Everywhere P n) (hno : ∀ n ∈ no, Everywhere P n)
include hcond hyes hno

theorem conditional (kw : Token) (stop : Span) :
    Everywhere P (Node.conditional kw cond yes no stop) :=
  hP.mk rfl (by simpa using ⟨hP.condition cond hcond, hyes, hno⟩)

theorem elseIf (kw : Token) : Everywhere P (Node.elseIf kw cond yes no) :=
  hP.conditional hcond hyes hno kw _

end Conditions

theorem ternary {cond yes no : Node} (hcond : Everywhere P cond) (hyes : Everywhere P yes)
    (hno : Everywhere P no) : Everywhere P (Node.ternary cond yes no) :=
  hP.mk rfl (by simpa using ⟨hP.condition cond hcond, hyes, hno⟩)

/-! ## §9. Watched nodes.

A watched node has the property if its parts have it and it has it itself. -/

section Loops

variable {kw closing : Token} {body : Option Node} (hbody : ∀ n ∈ body, Everywhere P n)
include hbody

theorem conditionLoop {cond : Node} (hcond : Everywhere P cond)
    (here : P (Node.conditionLoop kw cond body closing)) :
    Everywhere P (Node.conditionLoop kw cond body closing) := by
  have hslots : SlotsAll (Everywhere P) [.node (Node.condition cond), .ofOption body] := by
    simpa using ⟨hP.condition cond hcond, hbody⟩
  exact .of_children here hslots

omit hP in
theorem forLoop {var elements : Node} (hvar : Everywhere P var) (helements : Everywhere P elements)
    (here : P (Node.forLoop kw var elements body closing)) :
    Everywhere P (Node.forLoop kw var elements body closing) := by
  have hslots : SlotsAll (Everywhere P) [.node var, .node elements, .ofOption body] := by
    simpa using ⟨hvar, helements, hbody⟩
  exact .of_children here hslots

end Loops

omit hP in
theorem multipleAssign {left value : Node} (hleft : Everywhere P left)
    (hvalue : Everywhere P value) (here : P (Node.multipleAssign left value)) :
    Everywhere P (Node.multipleAssign left value) := by
  have hslots : SlotsAll (Everywhere P) [.node left, .node value] := by
    simpa using ⟨hleft, hvalue⟩
  exact .of_children here hslots

theorem modified {kw : Token} {body value : Node} (hbody : Everywhere P body)
    (hvalue : Everywhere P value) (here : P (Node.modified body kw value)) :
    Everywhere P (Node.modified body kw value) := by
  have hcond : Everywhere P (Node.condition value) := hP.condition value hvalue
  have hslots : SlotsAll (Everywhere P) [.node (Node.condition value), .node body] := by
    simpa using ⟨hcond, hbody⟩
  refine .of_children here ?_
  unfold Node.modified
  dsimp only
  split
  · show SlotsAll (Everywhere P) [.node (Node.condition value), .node body, .absent]
    simpa using ⟨hcond, hbody⟩
  · show SlotsAll (Everywhere P) [.node (Node.condition value), .absent, .node body]
    simpa using ⟨hcond, hbody⟩
  · exact hslots
  · exact hslots
  · exact fun n hn => (hP.rescueModifier hbody hvalue kw).child hn

/-! ## §10. Branches and bodies. -/

theorem whenClause (kw : Token) {values : List Node} {body : Option Node}
    (hvalues : ∀ n ∈ values, Everywhere P n) (hbody : ∀ n ∈ body, Everywhere P n) :
    Everywhere P (Node.whenClause kw values body) :=
  hP.mk rfl (by simpa using ⟨hvalues, hbody⟩)

theorem caseWhen (kw : Token) {subject : Option Node} {clauses : List Node}
    {otherwise : Option ElseClause} (hsubject : ∀ n ∈ subject, Everywhere P n)
    (hclauses : ∀ n ∈ clauses, Everywhere P n)
    (hotherwise : ∀ clause ∈ otherwise, ∀ n ∈ clause.2, Everywhere P n) (closing : Token) :
    Everywhere P (Node.caseWhen kw subject clauses otherwise closing) := by
  have hlast : ∀ n, otherwise.bind (·.2) = some n → Everywhere P n := by
    intro n hn
    obtain ⟨clause, hclause, hn⟩ := Option.bind_eq_some_iff.mp hn
    exact hotherwise clause hclause n hn
  refine hP.mk rfl (slotsAll_append.mpr ⟨slotsAll_cons.mpr ⟨?_, slotsAll_slots.mpr hclauses⟩, ?_⟩)
  · simpa using hsubject
  · simpa using hlast

theorem caseMatch (kw : Token) {subject : Node} {clauses : List Node}
    {otherwise : Option ElseClause} (hsubject : Everywhere P subject)
    (hclauses : ∀ n ∈ clauses, Everywhere P n)
    (hotherwise : ∀ clause ∈ otherwise, ∀ n ∈ clause.2, Everywhere P n) (closing : Token) :
    Everywhere P (Node.caseMatch kw subject clauses otherwise closing) := by
  refine hP.mk rfl (slotsAll_append.mpr ⟨slotsAll_cons.mpr ⟨?_, slotsAll_slots.mpr hclauses⟩, ?_⟩)
  · rintro n ⟨⟩
    exact hsubject
  · intro n hn
    have hn := List.mem_singleton.mp hn
    match otherwise with
    | none => cases hn
    | some (keyword, none) =>
        cases hn
        exact hP.bare keyword rfl
    | some (_, some body) =>
        cases hn
        exact hotherwise _ rfl n rfl

theorem inPattern (kw : Token) {pattern : Node} {guard body : Option Node}
    (hpattern : Everywhere P pattern) (hguard : ∀ n ∈ guard, Everywhere P n)
    (hbody : ∀ n ∈ body, Everywhere P n) : Everywhere P (Node.inPattern kw pattern guard body) :=
  hP.mk rfl (by simpa using ⟨hpattern, hguard, hbody⟩)

theorem guard (kw : Token) {cond : Node} (h : Everywhere P cond) :
    Everywhere P (Node.guard kw cond) := by
  refine hP.mk ?_ (by simpa using h)
  split <;> rfl

theorem rescueClause (kw : Token) {classes : Option (List Node)} {var body : Option Node}
    (hclasses : ∀ ns ∈ classes, ∀ n ∈ ns, Everywhere P n) (hvar : ∀ n ∈ var, Everywhere P n)
    (hbody : ∀ n ∈ body, Everywhere P n) :
    Everywhere P (Node.rescueClause kw classes var body) := by
  have harray : ∀ ns, classes = some ns → Everywhere P (Node.bareArray ns) :=
    fun ns hns => hP.bareArray (hclasses ns hns)
  exact hP.mk rfl (by simpa using ⟨harray, hvar, hbody⟩)

section Bodies

variable {statements rescues : List Node} {otherwise : Option (List Node)}
  {ensure : Option (Token × List Node)} (hstatements : ∀ n ∈ statements, Everywhere P n)
  (hrescues : ∀ n ∈ rescues, Everywhere P n)
  (hotherwise : ∀ ns ∈ otherwise, ∀ n ∈ ns, Everywhere P n)
  (hensure : ∀ clause ∈ ensure, ∀ n ∈ clause.2, Everywhere P n)

include hstatements hrescues hotherwise in
theorem rescued? : ∀ b ∈ Node.rescued? statements rescues otherwise, Everywhere P b := by
  have hbody := hP.ofStatements? hstatements
  intro b hb
  unfold Node.rescued? at hb
  dsimp only at hb
  split at hb
  · split at hb
    next more =>
      refine hP.ofStatements? (fun n hn => ?_) b hb
      rcases List.mem_append.mp hn with hn | hn
      · exact hbody n (Option.mem_toList.mp hn)
      · exact hotherwise more rfl n hn
    next => exact hbody b hb
  next first rest =>
    cases hb
    have hlast : ∀ n, otherwise.bind Node.ofStatements? = some n → Everywhere P n := by
      intro n hn
      obtain ⟨ns, hns, hn⟩ := Option.bind_eq_some_iff.mp hn
      exact hP.ofStatements? (hotherwise ns hns) n hn
    refine hP.mk rfl
      (slotsAll_append.mpr ⟨slotsAll_cons.mpr ⟨?_, slotsAll_slots.mpr hrescues⟩, ?_⟩)
    · simpa using hbody
    · simpa using hlast

include hstatements hrescues hotherwise hensure in
theorem bodyStatements :
    ∀ n ∈ Node.bodyStatements statements rescues otherwise ensure, Everywhere P n := by
  have hrescued := hP.rescued? hstatements hrescues hotherwise
  unfold Node.bodyStatements
  split
  · exact hstatements
  · intro n hn
    have hn := Option.mem_toList.mp hn
    unfold Node.ensured? at hn
    split at hn
    · exact hrescued n hn
    next kw last =>
      cases hn
      exact hP.mk rfl (by simpa using ⟨hrescued, hP.ofStatements? (hensure _ rfl)⟩)

end Bodies

theorem beforeOrAfter (kw : Token) {ns : List Node} (h : ∀ n ∈ ns, Everywhere P n)
    (closing : Token) : Everywhere P (Node.beforeOrAfter kw ns closing) := by
  refine hP.mk ?_ (by simpa using hP.ofStatements? h)
  split <;> rfl

/-! ## §11. Patterns. -/

theorem matchRest (star : Token) (name : Option Token) :
    Everywhere P (Node.matchRest star name) := by
  cases name with
  | none => exact hP.bare star rfl
  | some name =>
      have hvar : Everywhere P (matchVar name) := hP.named name rfl
      exact hP.mk rfl (by simpa using hvar)

/-- A list of patterns, with brackets or without. -/
theorem patternList {items : List Node} (h : ∀ n ∈ items, Everywhere P n) (trailing : Bool)
    (span : Span) : Everywhere P (.mk (listPatternKind items trailing) (slots items) span) := by
  refine hP.mk ?_ (slotsAll_slots.mpr h)
  unfold listPatternKind
  dsimp only
  split
  · rfl
  split
  · rfl
  · rfl

theorem topPattern {items : List Node} (h : ∀ n ∈ items, Everywhere P n) (trailing : Bool) :
    Everywhere P (Node.topPattern items trailing) := by
  obtain heq | ⟨only, rfl, heq⟩ := topPattern_eq items trailing
  · rw [heq]
    exact hP.patternList h trailing _
  · rw [heq]
    exact h only List.mem_cons_self

theorem constPattern {scope inner : Node} (hscope : Everywhere P scope)
    (hinner : Everywhere P inner) (closing : Token) :
    Everywhere P (Node.constPattern scope inner closing) :=
  hP.mk rfl (by simpa using ⟨hscope, hinner⟩)

theorem matchPattern (v : Version) (op : Token) {value pattern : Node}
    (hvalue : Everywhere P value) (hpattern : Everywhere P pattern) :
    Everywhere P (Node.matchPattern v value op pattern) := by
  refine hP.joined ?_ hvalue hpattern
  split
  · rfl
  split
  · rfl
  · rfl

end AboutWatched

end RubySyntax
