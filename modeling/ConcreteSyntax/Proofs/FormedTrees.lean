import ConcreteSyntax.Proofs.TokenPlaces
import ConcreteSyntax.Proofs.PrecedenceLayers

/-!
# Formed trees

What the grammar reads is formed: the tokens of a node are of the kinds that belong to such a
node, a list or a sequence has terms, and a declaration declares, types or initializes something.
So every node but the file without declarations has tokens, delimiters stand at enclosures only,
and the two delimiters of an enclosure are of one type.
-/

namespace ConcreteSyntax

open TokenParser Grammar

/-! ## Properties of all nodes -/

namespace Tree

variable {τ : Type} {P Q : Tree τ → Prop} {t operand node : Tree τ}

/-- Whether a node is a type constructor. -/
def isConstructor : Tree τ → Bool
  | array .. | function .. | template .. => true
  | _ => false

/-- What holds everywhere holds at the root. -/
theorem Everywhere.root (h : t.Everywhere P) : P t := h [] t rfl

/-- A path that goes on leads through the node in between. -/
theorem descend_append (t : Tree τ) (path further : List Nat) :
    t.descend (path ++ further) = (t.descend path).bind fun node => node.descend further := by
  induction path generalizing t with
  | nil => rfl
  | cons place path ih => simp only [List.cons_append, descend, ih, Option.bind_assoc]

/-- What holds everywhere in a tree holds everywhere in what stands inside of it. -/
theorem Everywhere.inside (h : t.Everywhere P) {path : List Nat}
    (hpath : t.descend path = some node) : node.Everywhere P := fun further inner hinner =>
  h (path ++ further) inner (by rw [descend_append, hpath, Option.bind_some, hinner])

/-- An operand is what the path of its place leads to. -/
theorem descend_singleton {place : Nat} (h : t.operand? place = some operand) :
    t.descend [place] = some operand := by
  simp [descend, h]

/-- A present child stands at some place. -/
theorem exists_operand?_of_mem (h : some operand ∈ t.children) :
    ∃ place, t.operand? place = some operand := by
  obtain ⟨place, hplace⟩ := List.mem_iff_getElem?.1 h
  exact ⟨place, by simp [operand?, hplace]⟩

/-- The tokens of what stands inside of a tree are tokens of the tree, one behind the other. -/
theorem tokens_infix_of_descend [HasKind τ] {path : List Nat} (h : t.descend path = some node) :
    node.tokens <:+: t.tokens := by
  induction path generalizing t with
  | nil => exact Option.some.inj h ▸ List.infix_rfl
  | cons place path ih =>
    obtain ⟨operand, hoperand, hpath⟩ := Option.bind_eq_some_iff.1 h
    rw [operand?, Option.join_eq_some_iff] at hoperand
    have hmem := List.mem_of_getElem? hoperand
    have hin : ∀ slots : List (Option (Tree τ)), some operand ∈ slots →
        operand.tokens <:+: slots.flatMap slotTokens := fun _ hslots =>
      List.infix_of_mem_flatten (List.mem_map_of_mem hslots)
    rw [← List.take_append_drop t.operandsBefore t.children, List.mem_append] at hmem
    refine (ih hpath).trans ?_
    rw [t.tokens_eq]
    rcases hmem with hmem | hmem
    · refine (hin _ hmem).trans ?_
      simp only [List.append_assoc]
      exact (List.prefix_append ..).isInfix
    · exact (hin _ hmem).trans (List.infix_append ..)

/-- What holds everywhere in a tree holds everywhere in its children. -/
theorem Everywhere.child (h : t.Everywhere P) (hc : some operand ∈ t.children) :
    operand.Everywhere P := by
  obtain ⟨place, hplace⟩ := exists_operand?_of_mem hc
  exact h.inside (descend_singleton hplace)

/-- What holds everywhere in some trees holds everywhere in the joined tree, if it holds
of lists. -/
theorem everywhere_joined (hl : ∀ ts, ts ≠ [] → P (list ts)) {ts : List (Tree τ)}
    (hne : ts ≠ []) (h : ∀ t ∈ ts, Everywhere P t) : Everywhere P (joined ts) := by
  have hlist : Everywhere P (list ts) :=
    everywhere_of_children (hl ts hne) (by simpa [children] using h)
  cases ts with
  | nil => exact hlist
  | cons t ts =>
    cases ts with
    | nil => exact h t List.mem_cons_self
    | cons u ts => exact hlist

/-- What holds everywhere in some trees holds everywhere in their sequence, if it holds
of sequences. -/
theorem everywhere_sequence? (hs : ∀ ts, ts ≠ [] → P (sequence ts)) {ts : List (Tree τ)}
    (h : ∀ t ∈ ts, Everywhere P t) : ∀ s ∈ sequence? ts, Everywhere P s := by
  cases ts with
  | nil => simp [sequence?]
  | cons t ts =>
    rintro s ⟨⟩
    exact everywhere_of_children (hs _ (List.cons_ne_nil t ts)) (by simpa [children] using h)

end Tree

/-- Whether every node of a tree passes a test. -/
def Tree.allNodes {τ : Type} (p : Tree τ → Bool) : Tree τ → Bool :=
  fold fun node inner => p node && inner.all fun slot => slot.all id

/-- All nodes pass a test when the property holds everywhere. -/
theorem Tree.allNodes_iff {τ : Type} {p : Tree τ → Bool} {t : Tree τ} :
    t.allNodes p = true ↔ t.Everywhere fun node => p node = true := by
  induction t using children_induction with
  | step t ih =>
    rw [allNodes, fold_eq, Bool.and_eq_true]
    constructor
    · rintro ⟨hroot, hinner⟩
      refine everywhere_of_children hroot ?_
      rintro _ hslot child rfl
      exact (ih child hslot).1 (List.all_eq_true.1 hinner _ (List.mem_map_of_mem hslot))
    · intro h
      refine ⟨h.root, List.all_eq_true.2 (List.forall_mem_map.2 fun slot hslot => ?_)⟩
      cases slot with
      | none => rfl
      | some child => exact (ih child hslot).2 (h.child hslot)

/-- What holds everywhere in the joined tree holds everywhere in the trees that it is made of. -/
theorem Tree.everywhere_of_joined {τ : Type} {P : Tree τ → Prop} {ts : List (Tree τ)}
    (h : (joined ts).Everywhere P) : ∀ t ∈ ts, t.Everywhere P := by
  have hlist : (list ts).Everywhere P → ∀ t ∈ ts, t.Everywhere P := fun h t ht =>
    h.child (by simpa [children] using ht)
  cases ts with
  | nil => nofun
  | cons t ts =>
    cases ts with
    | nil => exact List.forall_mem_singleton.2 h
    | cons => exact hlist h

/-- What holds everywhere in the sequence of some trees holds everywhere in the trees. -/
theorem Tree.everywhere_of_sequence? {τ : Type} {P : Tree τ → Prop} {ts : List (Tree τ)}
    (h : ∀ s ∈ sequence? ts, s.Everywhere P) : ∀ t ∈ ts, t.Everywhere P := by
  cases ts with
  | nil => nofun
  | cons t ts => exact fun u hu => (h _ rfl).child (by simpa [children] using hu)

/-- That a property holds of each tree that a category reads. -/
def Category.Each {τ : Type} (Q : Tree τ → Prop) : (c : Category τ) → c.Result → Prop
  | .separated _, vs | .statements, vs | .declarations, vs => ∀ v ∈ vs, Q v
  | .typing, v | .initial, v => ∀ t ∈ v, Q t
  | .suffixes _, v | .operations _ _, v | .defined _ _, v | .phrase _, v | .element _, v
  | .type, v | .parameter, v | .enclosed _ _, v | .block, v | .constructor, v | .primary, v
  | .layer _, v | .alternative, v | .functionHead, v | .scope, v | .control, v
  | .definition, v => Q v

/-- That a property holds of the tree that has been read before. -/
def Category.Held {τ : Type} (Q : Tree τ → Prop) : Category τ → Prop
  | .suffixes value => Q value
  | .operations _ left => Q left
  | .defined _ declarator => Q declarator
  | _ => True

/-! ## Formed nodes -/

/-- The kinds of tokens that lead control constructs and their parts. -/
def controlTokens : KindSet := controlWords.union (.ofList [.elseKw, .fatArrow])

/-- The kinds of tokens that mark constructors. -/
def constructorMarks : KindSet :=
  .ofList [.arrayKw, .funcKw, .templKw, .thinArrow, .fatArrow]

variable {τ : Type} [HasKind τ] {rules : Rules}

/-- Whether the tokens of a node are of kinds that belong there, and whether the node has enough
parts. The delimiters of an enclosure and the operator between operands are left open. -/
def Tree.isFormed (rules : Rules) : Tree τ → Bool
  | .literal token => rules.literals.contains (HasKind.kind token)
  | .identifier token => HasKind.kind token == .ident
  | .prefixOp operator _ => rules.prefixOperators.contains (HasKind.kind operator)
  | .postfixOp _ operator => HasKind.kind operator == .caret
  | .file declarations => declarations.isSome
  | .array mark _ _ | .function mark _ _ | .template mark _ _ =>
    mark.all fun m => constructorMarks.contains (HasKind.kind m)
  | .control keyword _ _ => controlTokens.contains (HasKind.kind keyword)
  | .constraint mark _ _ => HasKind.kind mark == .isKw
  | .declaration introducer declarator type initializer terminator =>
    introducer.all (fun i => HasKind.kind i == .defKw) &&
      terminator.all (fun s => HasKind.kind s == .semicolon) &&
        (declarator.isSome || type.isSome || initializer.isSome)
  | .list terms | .sequence terms => !terms.isEmpty
  | .enclosure .. | .infixOp .. | .call .. | .index .. | .capture .. => true

/-- One or more elements are read where elements are separated. -/
theorem Reading.separated_ne_nil {e : Element} {ts rest : List τ} {vs : List (Tree τ)}
    (h : Reading rules (.separated e) ts vs rest) : vs ≠ [] := by
  cases h <;> exact List.cons_ne_nil _ _

/-- A parameter without names has a type or an initial value, since its type is left out in front
of an equals sign only. -/
theorem Reading.isSome_of_unnamed {ts mid rest : List τ} {type value : Option (Tree τ)}
    (ht : Reading rules .typing ts type mid) (hv : Reading rules .initial mid value rest) :
    (type.isSome || value.isSome) = true := by
  cases ht with
  | omittedType _ hn =>
    cases hv with
    | noInitial hn' => exact absurd hn hn'
    | initial => rfl
  | plainType | constrainedType | colonConstraint | bareConstraint => rfl

omit [HasKind τ] in
/-- A constructor is formed when its mark is one. -/
theorem ConstructorSort.isFormed_build [HasKind τ] (sort : ConstructorSort) {mark : Option τ}
    (s r : Tree τ) (h : ∀ m ∈ mark, constructorMarks.contains (kind m) = true) :
    (sort.build mark s r).isFormed rules = true := by
  cases mark with
  | none => cases sort <;> rfl
  | some m => cases sort <;> exact h m rfl

/-- The constructors that are read are formed. -/
theorem Reading.isFormed_constructor {ts rest : List τ} {t : Tree τ}
    (h : Reading rules .constructor ts t rest) : t.isFormed rules = true := by
  cases h with
  | @wordConstructor sort m _ _ _ s r _ hm =>
    refine sort.isFormed_build s r ?_
    rintro _ ⟨⟩
    rw [hm]
    cases sort <;> decide
  | @unmarkedConstructor sort _ _ _ s r =>
    refine sort.isFormed_build s r ?_
    rintro _ ⟨⟩
  | @markedConstructor sort m _ _ _ s r _ hm =>
    refine sort.isFormed_build s r ?_
    rintro _ ⟨⟩
    rw [hm]
    cases sort <;> decide

/-- A control construct is formed when a control word leads it. -/
theorem Tree.isFormed_control {k : τ} {word : TokenKind} {head body : Option (Tree τ)}
    (hk : HasKind.kind k = word) (hword : controlTokens.contains word = true := by decide) :
    (control k head body).isFormed rules = true := by
  rw [isFormed, hk, hword]

/-- A definition is formed when its introducer and its terminator are of their kinds. -/
theorem Tree.isFormed_definition {i s : Option τ} {d : Tree τ} {type value : Option (Tree τ)}
    (hi : ∀ w ∈ i, HasKind.kind w = .defKw) (hs : ∀ w ∈ s, HasKind.kind w = .semicolon) :
    (declaration i (some d) type value s).isFormed rules = true := by
  have hall : ∀ {k : TokenKind} {o : Option τ}, (∀ w ∈ o, HasKind.kind w = k) →
      o.all (fun w => HasKind.kind w == k) = true :=
    fun {_ o} ho => (Option.all_eq_true _ o).2 fun w hw => beq_iff_eq.2 (ho w hw)
  rw [isFormed, hall hi, hall hs]
  rfl

/-! ## Readings are formed everywhere -/

/-- That a property holds everywhere in what a category reads, if it holds everywhere in
what has been read before. -/
def Category.Everywhere (P : Tree τ → Prop) : (c : Category τ) → c.Result → Prop
  | .separated _, vs | .statements, vs | .declarations, vs => ∀ v ∈ vs, Tree.Everywhere P v
  | .typing, v | .initial, v => ∀ t ∈ v, Tree.Everywhere P t
  | .suffixes value, v => value.Everywhere P → v.Everywhere P
  | .operations _ left, v => left.Everywhere P → v.Everywhere P
  | .defined introducer declarator, v =>
    (∀ i ∈ introducer, kind i = .defKw) → declarator.Everywhere P → v.Everywhere P
  | .phrase _, v | .element _, v | .type, v | .parameter, v | .enclosed _ _, v | .block, v
  | .constructor, v | .primary, v | .layer _, v | .alternative, v | .functionHead, v | .scope, v
  | .control, v | .definition, v => v.Everywhere P

/-- A property of all constructors that are read, and of all other nodes that are formed, holds
everywhere in what is read. -/
theorem Reading.everywhere {P : Tree τ → Prop}
    (hconstructor : ∀ {ts rest : List τ} {t : Tree τ}, Reading rules .constructor ts t rest → P t)
    (hother : ∀ t : Tree τ, t.isConstructor = false → t.isFormed rules = true → P t)
    {c : Category τ} {ts rest : List τ} {v : c.Result} (h : Reading rules c ts v rest) :
    c.Everywhere P v := by
  have hlist : ∀ ts : List (Tree τ), ts ≠ [] → P (.list ts) := fun ts hne =>
    hother _ rfl (by simpa [Tree.isFormed] using hne)
  have hsequence : ∀ ts : List (Tree τ), ts ≠ [] → P (.sequence ts) := fun ts hne =>
    hother _ rfl (by simpa [Tree.isFormed] using hne)
  have hnode : ∀ t : Tree τ, t.isConstructor = false → t.isFormed rules = true →
      (∀ slot ∈ t.children, ∀ child ∈ slot, child.Everywhere P) → t.Everywhere P :=
    fun t ht hf hc => Tree.everywhere_of_children (hother t ht hf) hc
  have hone : ∀ {t only : Tree τ}, t.isConstructor = false → t.isFormed rules = true →
      (∀ slot ∈ t.children, ∀ child ∈ slot, child = only) → only.Everywhere P →
      t.Everywhere P :=
    fun ht hf hc ho => hnode _ ht hf fun slot hs child hm => hc slot hs child hm ▸ ho
  have hbuild : ∀ (sort : ConstructorSort) (m : Option τ) (s r : Tree τ),
      P (sort.build m s r) → s.Everywhere P → r.Everywhere P →
      (sort.build m s r).Everywhere P := by
    intro sort m s r hp hs hr
    cases sort <;>
      exact Tree.everywhere_of_children hp (by simp [ConstructorSort.build, Tree.children, hs, hr])
  induction h with
  | name hk => exact hnode _ rfl (by simp [Tree.isFormed, hk]) (by simp [Tree.children])
  | last _ _ ih => exact List.forall_mem_singleton.2 ih
  | more _ _ _ ih ih' => exact List.forall_mem_cons.2 ⟨ih, ih'⟩
  | operandType _ _ ih => exact ih
  | implicationType _ _ ih => exact ih
  | omittedType => rintro _ ⟨⟩
  | plainType _ _ _ _ ih => rintro t ⟨⟩; exact ih
  | constrainedType _ _ _ hm _ ih ih' =>
    rintro t ⟨⟩
    exact hnode _ rfl (by simp [Tree.isFormed, hm]) (by simpa [Tree.children] using ⟨ih, ih'⟩)
  | colonConstraint _ hm _ ih =>
    rintro t ⟨⟩
    exact hone rfl (by simp [Tree.isFormed, hm]) (by simp [Tree.children]) ih
  | bareConstraint hm _ ih =>
    rintro t ⟨⟩
    exact hone rfl (by simp [Tree.isFormed, hm]) (by simp [Tree.children]) ih
  | noInitial => rintro _ ⟨⟩
  | initial _ _ ih => rintro t ⟨⟩; exact ih
  | unnamedParameter _ ht hv ih ih' =>
    have hsome := ht.isSome_of_unnamed hv
    exact hnode _ rfl (by simpa [Tree.isFormed] using hsome)
      (by simpa [Tree.children] using ⟨ih, ih'⟩)
  | namedParameter _ hn _ _ ih ih' ih'' =>
    have hnames := Tree.everywhere_joined hlist hn.separated_ne_nil ih
    exact hnode _ rfl (by simp [Tree.isFormed])
      (by simpa [Tree.children] using ⟨hnames, ih', ih''⟩)
  | parameterItem _ _ ih => exact ih
  | expressionItem _ _ ih => exact ih
  | @items _ _ vs h ih =>
    have hitems : ∀ t ∈ vs, t.Everywhere P := ih
    exact Tree.everywhere_of_children (hlist vs h.separated_ne_nil)
      (by simpa [Tree.children] using hitems)
  | emptyEnclosure => exact hnode _ rfl rfl (by simp [Tree.children])
  | enclosure _ _ h _ ih =>
    have hterm := Tree.everywhere_joined hlist h.separated_ne_nil ih
    exact hnode _ rfl rfl (by simpa [Tree.children] using hterm)
  | noStatements => rintro _ ⟨⟩
  | statements _ _ _ _ ih ih' => exact List.forall_mem_cons.2 ⟨ih, ih'⟩
  | block _ _ _ ih =>
    have hterm := Tree.everywhere_sequence? hsequence ih
    exact hnode _ rfl rfl (by simpa [Tree.children] using hterm)
  | wordConstructor hc hm hs hr ih ih' =>
    exact hbuild _ _ _ _ (hconstructor (.wordConstructor hc hm hs hr)) ih ih'
  | unmarkedConstructor ho hs hr ih ih' =>
    exact hbuild _ _ _ _ (hconstructor (.unmarkedConstructor ho hs hr)) ih ih'
  | markedConstructor ho hm hs hr ih ih' =>
    exact hbuild _ _ _ _ (hconstructor (.markedConstructor ho hm hs hr)) ih ih'
  | literal hl => exact hnode _ rfl hl (by simp [Tree.children])
  | identifier _ hk => exact hnode _ rfl (by simp [Tree.isFormed, hk]) (by simp [Tree.children])
  | paren _ _ ih => exact ih
  | bracket _ _ ih => exact ih
  | suffixesEnd => exact id
  | call _ _ ih ih' =>
    intro hv
    exact ih' (hnode _ rfl rfl (by simpa [Tree.children] using ⟨hv, ih⟩))
  | index _ _ ih ih' =>
    intro hv
    exact ih' (hnode _ rfl rfl (by simpa [Tree.children] using ⟨hv, ih⟩))
  | @member _ _ _ n _ _ _ hn _ ih =>
    intro hv
    have hname : (Tree.identifier n).Everywhere P :=
      hnode _ rfl (by simp [Tree.isFormed, hn]) (by simp [Tree.children])
    exact ih (hnode _ rfl rfl (by simpa [Tree.children] using ⟨hv, hname⟩))
  | caret hc _ _ ih =>
    intro hv
    exact ih (hnode _ rfl (by simp [Tree.isFormed, hc]) (by simpa [Tree.children] using hv))
  | value _ _ ih ih' => exact ih' ih
  | prefixOperand ho _ ih => exact hone rfl ho (by simp [Tree.children]) ih
  | constructorOperand _ _ ih => exact ih
  | valueOperand _ _ _ ih => exact ih
  | layerOperand _ ih => exact ih
  | layer _ _ ih ih' => exact ih' ih
  | operationsEnd => exact id
  | operation _ _ _ ih ih' =>
    intro hl
    exact ih' (hnode _ rfl rfl (by simpa [Tree.children] using ⟨hl, ih⟩))
  | implicationEnd _ _ ih => exact ih
  | implication _ _ _ ih ih' => exact hnode _ rfl rfl (by simpa [Tree.children] using ⟨ih, ih'⟩)
  | assignmentEnd _ _ ih => exact ih
  | assignment _ _ _ ih ih' => exact hnode _ rfl rfl (by simpa [Tree.children] using ⟨ih, ih'⟩)
  | conditional hk _ _ _ ih ih' =>
    exact hnode _ rfl (Tree.isFormed_control hk) (by simpa [Tree.children] using ⟨ih, ih'⟩)
  | @choice k _ _ _ _ _ c b _ hk _ _ he _ ih ih' ih'' =>
    have hfirst : (Tree.control k (some c) (some b)).Everywhere P :=
      hnode _ rfl (Tree.isFormed_control hk) (by simpa [Tree.children] using ⟨ih, ih'⟩)
    exact hnode _ rfl (Tree.isFormed_control he) (by simpa [Tree.children] using ⟨hfirst, ih''⟩)
  | furtherChoice _ _ ih => exact ih
  | lastChoice _ _ ih => exact ih
  | branch _ ha _ ih ih' =>
    exact hnode _ rfl (Tree.isFormed_control ha) (by simpa [Tree.children] using ⟨ih, ih'⟩)
  | conditionalControl _ _ ih => exact ih
  | @caseDistinction _ _ _ _ _ bs hk _ hb ih ih' =>
    have hall : ∀ b ∈ bs, b.Everywhere P := ih'
    have hbranches : (Tree.sequence bs).Everywhere P :=
      Tree.everywhere_of_children (hsequence bs hb.separated_ne_nil)
        (by simpa [Tree.children] using hall)
    exact hnode _ rfl (Tree.isFormed_control hk) (by simpa [Tree.children] using ⟨ih, hbranches⟩)
  | loop hk _ _ ih ih' =>
    refine hnode _ rfl ?_ (by simpa [Tree.children] using ⟨ih, ih'⟩)
    rcases hk with hk | hk <;> exact Tree.isFormed_control hk
  | doBlock hk _ _ ih => exact hone rfl (Tree.isFormed_control hk) (by simp [Tree.children]) ih
  | @doWhile _ w _ _ _ _ c hk _ hw _ _ ih ih' =>
    have hcondition : (Tree.control w (some c) none).Everywhere P :=
      hone rfl (Tree.isFormed_control hw) (by simp [Tree.children]) ih'
    exact hnode _ rfl (Tree.isFormed_control hk) (by simpa [Tree.children] using ⟨ih, hcondition⟩)
  | captures _ _ _ ih ih' => exact hnode _ rfl rfl (by simpa [Tree.children] using ⟨ih, ih'⟩)
  | noCaptures _ _ ih => exact ih
  | functionValue hk _ _ ih ih' =>
    exact hnode _ rfl (Tree.isFormed_control hk) (by simpa [Tree.children] using ⟨ih, ih'⟩)
  | blockScope _ _ ih => exact ih
  | expressionScope _ _ ih => exact ih
  | localBinding hk _ _ ih ih' =>
    exact hnode _ rfl (Tree.isFormed_control hk) (by simpa [Tree.children] using ⟨ih, ih'⟩)
  | controlExpression _ _ ih => exact ih
  | assignmentExpression _ _ ih => exact ih
  | typedOnly _ hs ih =>
    intro hi hd
    have htype := ih _ rfl
    exact hnode _ rfl (Tree.isFormed_definition hi (by rintro _ ⟨⟩; exact hs))
      (by simpa [Tree.children] using ⟨hd, htype⟩)
  | definedBlock _ _ ih ih' =>
    intro hi hd
    exact hnode _ rfl (Tree.isFormed_definition hi (by rintro _ ⟨⟩))
      (by simpa [Tree.children] using ⟨hd, ih, ih'⟩)
  | definedValue _ _ _ hs ih ih' =>
    intro hi hd
    exact hnode _ rfl (Tree.isFormed_definition hi (by rintro _ ⟨⟩; exact hs))
      (by simpa [Tree.children] using ⟨hd, ih, ih'⟩)
  | introduced hi hd _ ih ih' =>
    exact ih' (by rintro _ ⟨⟩; exact hi) (Tree.everywhere_joined hlist hd.separated_ne_nil ih)
  | unintroduced _ hd _ ih ih' =>
    exact ih' (by rintro _ ⟨⟩) (Tree.everywhere_joined hlist hd.separated_ne_nil ih)
  | definitionStatement _ _ ih => exact ih
  | controlStatement _ _ _ _ ih => exact ih
  | terminatedControl _ _ _ _ ih => exact ih
  | expressionStatement _ _ _ _ ih => exact ih
  | noDeclarations => rintro _ ⟨⟩
  | declarations _ _ _ ih ih' => exact List.forall_mem_cons.2 ⟨ih, ih'⟩

/-! ## Tokens of formed trees -/

/-- A formed node has a token of its own or a child. -/
theorem Tree.exists_part_of_isFormed {t : Tree τ} (h : t.isFormed rules = true) :
    (∃ b, b ∈ t.ownTokens) ∨ ∃ child, some child ∈ t.children := by
  cases t with
  | literal a | identifier a | prefixOp a | postfixOp _ a | infixOp _ a | enclosure a
  | control a | constraint a => exact .inl ⟨a, by simp [ownTokens, token?]⟩
  | array _ s | function _ s | template _ s | call s | index s | capture s =>
    exact .inr ⟨s, by simp [children]⟩
  | file declarations =>
    obtain ⟨d, rfl⟩ := Option.isSome_iff_exists.1 h
    exact .inr ⟨d, by simp [children]⟩
  | declaration i d type value s =>
    simp only [isFormed, Bool.and_eq_true, Bool.or_eq_true, Option.isSome_iff_exists] at h
    obtain ⟨-, (⟨part, rfl⟩ | ⟨part, rfl⟩) | ⟨part, rfl⟩⟩ := h <;>
      exact .inr ⟨part, by simp [children]⟩
  | list terms | sequence terms =>
    obtain ⟨part, hpart⟩ := List.exists_mem_of_ne_nil terms (by simpa [isFormed] using h)
    exact .inr ⟨part, by simpa [children] using hpart⟩

/-- A tree that is formed everywhere has tokens. -/
theorem Tree.Everywhere.exists_mem_tokens {t : Tree τ}
    (h : t.Everywhere fun node => node.isFormed rules = true) : ∃ b, b ∈ t.tokens := by
  induction t using children_induction with
  | step t ih =>
    rcases exists_part_of_isFormed h.root with ⟨b, hb⟩ | ⟨part, hpart⟩
    · exact ⟨b, mem_tokens.2 (.inl hb)⟩
    · obtain ⟨b, hb⟩ := ih part hpart (h.child hpart)
      obtain ⟨place, hplace⟩ := exists_operand?_of_mem hpart
      exact ⟨b, mem_tokens.2 (.inr ⟨place, part, hplace, hb⟩)⟩

/-! ## Delimiters -/

/-- The closing delimiter that belongs to an opening one. -/
def TokenKind.partner? : TokenKind → Option TokenKind
  | leftParen => some rightParen
  | leftBracket => some rightBracket
  | leftBrace => some rightBrace
  | _ => none

/-- Whether a kind is neither a bracket nor the end of the text, and valid. -/
def TokenKind.isPlain (k : TokenKind) : Bool := !k.isBracket && k != eof && k != invalid

/-- The delimiters of an enclosure are of one type; no other node has brackets of its own, and
no node has the end or an invalid token. -/
def Tree.isDelimited : Tree τ → Bool
  | .enclosure opening _ closing =>
    (HasKind.kind opening).partner? == some (HasKind.kind closing)
  | t => t.ownTokens.all fun b => (HasKind.kind b).isPlain

/-- Literals and operators of the dialects are plain. -/
theorem Dialect.isPlain_of_rules (d : Dialect) {k : TokenKind}
    (h : d.rules.literals.contains k = true ∨ d.rules.prefixOperators.contains k = true ∨
      (infixLevel? d.rules k).isSome = true) : k.isPlain = true :=
  TokenKind.forall_of_all
    (p := fun k => d.rules.literals.contains k = true ∨
      d.rules.prefixOperators.contains k = true ∨ (infixLevel? d.rules k).isSome = true →
      k.isPlain = true) (by cases d <;> decide) k h

/-- The words of control constructs and the marks of constructors are plain. -/
theorem isPlain_of_marks {k : TokenKind}
    (h : controlTokens.contains k = true ∨ constructorMarks.contains k = true) :
    k.isPlain = true :=
  TokenKind.forall_of_all
    (p := fun k => controlTokens.contains k = true ∨ constructorMarks.contains k = true →
      k.isPlain = true) (by decide) k h

/-- A node that is formed and layered is delimited. -/
theorem Tree.isDelimited_of_isFormed (d : Dialect) {t : Tree τ}
    (hf : t.isFormed d.rules = true) (hl : t.isLayered d.rules = true) :
    t.isDelimited = true := by
  have hword : ∀ k, k ∈ [TokenKind.ident, .caret, .isKw, .defKw, .semicolon] →
      k.isPlain = true := by decide
  cases t with
  | enclosure a term b =>
    simp only [isLayered] at hl
    split at hl
    · next ha hb => simp [isDelimited, ha, hb, TokenKind.partner?]
    · next ha hb => simp [isDelimited, ha, hb, TokenKind.partner?]
    · next ha hb => simp [isDelimited, ha, hb, TokenKind.partner?]
    · contradiction
  | infixOp l a r =>
    have hlevel : (infixLevel? d.rules (HasKind.kind a)).isSome = true := by
      cases hi : infixLevel? d.rules (HasKind.kind a) with
      | none => simp [isLayered, hi] at hl
      | some => rfl
    simpa [isDelimited, ownTokens, token?, trailingToken?] using
      d.isPlain_of_rules (.inr (.inr hlevel))
  | literal a =>
    simpa [isDelimited, ownTokens, token?, trailingToken?] using d.isPlain_of_rules (.inl hf)
  | prefixOp a =>
    simpa [isDelimited, ownTokens, token?, trailingToken?] using
      d.isPlain_of_rules (.inr (.inl hf))
  | identifier a | postfixOp _ a | constraint a =>
    have hk := beq_iff_eq.1 hf
    simp [isDelimited, ownTokens, token?, trailingToken?, hk, hword]
  | control a =>
    simpa [isDelimited, ownTokens, token?, trailingToken?] using isPlain_of_marks (.inl hf)
  | array m | function m | template m =>
    refine List.all_eq_true.2 fun b hb => ?_
    obtain rfl : m = some b := by simpa [ownTokens, token?, trailingToken?] using hb
    exact isPlain_of_marks (.inr hf)
  | declaration i d type value s =>
    refine List.all_eq_true.2 fun b hb => ?_
    simp only [isFormed, Bool.and_eq_true, Option.all_eq_true, beq_iff_eq] at hf
    obtain ⟨⟨hi, hs⟩, -⟩ := hf
    rcases List.mem_append.1 hb with hb | hb
    · rw [hi b (Option.mem_toList.1 hb)]
      rfl
    · rw [hs b (Option.mem_toList.1 hb)]
      rfl
  | file | call | index | capture | list | sequence => rfl

/-- A delimited node is an enclosure with delimiters of one type, or its own tokens are plain. -/
theorem Tree.isDelimited_cases {t : Tree τ} (h : t.isDelimited = true) :
    (∃ a term b, t = .enclosure a term b ∧
      (HasKind.kind a).partner? = some (HasKind.kind b)) ∨
    ∀ b ∈ t.ownTokens, (HasKind.kind b).isPlain = true := by
  cases t with
  | enclosure a term b => exact .inl ⟨a, term, b, rfl, beq_iff_eq.1 h⟩
  | _ => exact .inr (List.all_eq_true.1 h)

/-- A delimited node has no invalid token of its own. -/
theorem Tree.kind_ne_invalid_of_isDelimited {t : Tree τ} (h : t.isDelimited = true) {b : τ}
    (hb : b ∈ t.ownTokens) : HasKind.kind b ≠ .invalid := by
  have hpartner : ∀ {j k : TokenKind}, j.partner? = some k → j ≠ .invalid ∧ k ≠ .invalid := by
    intro j k hjk
    cases j <;> simp only [TokenKind.partner?, reduceCtorEq, Option.some.injEq] at hjk <;>
      (subst hjk; decide)
  rcases isDelimited_cases h with ⟨a, term, c, rfl, hac⟩ | hplain
  · have hor : b = a ∨ b = c := by simpa [ownTokens, token?, trailingToken?] using hb
    rcases hor with rfl | rfl
    · exact (hpartner hac).1
    · exact (hpartner hac).2
  · have hk := hplain b hb
    simp only [TokenKind.isPlain, Bool.and_eq_true, bne_iff_ne] at hk
    exact hk.2

/-- In the tree of an accepted text that has declarations, every node is formed. -/
theorem everywhere_isFormed {symbols : SymbolTable} {dialect : Dialect} {text : String}
    {t : Tree Token} (h : (parseText symbols dialect text).1 = .ok t) (hne : t ≠ .file none) :
    t.Everywhere fun node => node.isFormed dialect.rules = true := by
  obtain ⟨ds, rfl, hr⟩ := exists_reading_of_parseText h
  have hds : ∀ d ∈ ds, d.Everywhere fun node => node.isFormed dialect.rules = true :=
    hr.everywhere (fun h => h.isFormed_constructor) fun _ _ hf => hf
  cases ds with
  | nil => exact absurd rfl hne
  | cons d ds =>
    have hbody := Tree.everywhere_sequence? (fun ts hts => by simpa [Tree.isFormed] using hts) hds
    exact Tree.everywhere_of_children rfl (by simpa [Tree.children] using hbody)

/-- What holds of all files, and of all nodes that are formed and layered, holds everywhere in the
tree of an accepted text. -/
theorem everywhere_of_parseText {symbols : SymbolTable} {dialect : Dialect} {text : String}
    {t : Tree Token} {P : Tree Token → Prop} (hfile : ∀ ds, P (.file ds))
    (hnode : ∀ node : Tree Token, node.isFormed dialect.rules = true →
      node.isLayered dialect.rules = true → P node)
    (h : (parseText symbols dialect text).1 = .ok t) : t.Everywhere P := by
  obtain ⟨ds, rfl, hr⟩ := exists_reading_of_parseText h
  have hlayered : ∀ d ∈ ds, d.Fits dialect.rules Tree.isDeclaration :=
    hr.fits dialect.arrowImplications
  have hformed : ∀ d ∈ ds, d.Everywhere fun node => node.isFormed dialect.rules = true :=
    hr.everywhere (fun h => h.isFormed_constructor) fun _ _ hf => hf
  have hds : ∀ d ∈ ds, d.Everywhere P := fun d hd path node hpath =>
    hnode node (hformed d hd path node hpath) ((hlayered d hd).layered path node hpath)
  have hbody := Tree.everywhere_sequence?
    (fun ts hts => hnode _ (by simpa [Tree.isFormed] using hts) rfl) hds
  exact Tree.everywhere_of_children (hfile _) (by simpa [Tree.children] using hbody)

/-- In the tree of an accepted text every node is delimited. -/
theorem everywhere_isDelimited {symbols : SymbolTable} {dialect : Dialect} {text : String}
    {t : Tree Token} (h : (parseText symbols dialect text).1 = .ok t) :
    t.Everywhere fun node => node.isDelimited = true :=
  everywhere_of_parseText (fun _ => rfl) (fun node => node.isDelimited_of_isFormed dialect) h

end ConcreteSyntax
