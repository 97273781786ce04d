import ConcreteSyntax.Proofs.ExpressionLevels
import ConcreteSyntax.Proofs.GeneratedTrees
import ConcreteSyntax.Proofs.RoundTrips

/-!
# Readings of generated trees

In a dialect that looks for no closer, the printed words of a generated tree are read as
the tree, whatever stands behind them that ends it. Greedy loops and single tokens ahead
never mislead, and the names of a definition are told from other names by what follows
them. Hence the text of a generated file is accepted, and no other generated file has it.
-/

namespace ConcreteSyntax

open TokenParser Grammar ConcreteSyntax.Tree

/-- The kinds that end an item of a list. -/
def itemEnds : List TokenKind := [.comma, .semicolon, .rightParen, .rightBracket]

/-- That the printed words of a generated tree are read as the tree. -/
def Nonterminal.Reads (rules : Rules) : Nonterminal → Tree Word → Prop
  | .expression n, t => ExpressionReads rules n t
  | .group opening closing, t => IsGroupDelimiters opening closing → ∀ place rest,
    Reading rules (.enclosed opening closing) (print place t ++ rest) t rest ∧
      kindAt (print place t ++ rest) 0 = opening
  | .items, t => t.isList = true ∧ ∀ place rest, kindAt rest 0 ∈ itemEnds → kindAt rest 0 ≠ .comma →
    Reading rules (.element .items) (print place t ++ rest) t rest ∧
      kindAt (print place t ++ rest) 0 ∉ itemEnds
  | .item, t => t.isList = false ∧ ∀ place rest, kindAt rest 0 ∈ itemEnds →
    (t.isIdentifier = true → marksNames rest = false) →
    Reading rules (.element .item) (print (Place.ofFirst place t) t ++ rest) t rest ∧
      kindAt (print (Place.ofFirst place t) t ++ rest) 0 ∉ itemEnds ∧
      opensDefinition (print (Place.ofFirst place t) t ++ rest) = t.isNamed
  | .typing, t => ∀ rest, Ends rules rules.typeBound (kindAt rest 0) → kindAt rest 0 ≠ .isKw →
    Reading rules .typing (TokenKind.colon.word :: (print .plain t ++ rest)) (some t) rest ∧
      (isBareConstraint (some t) = true →
        Reading rules .typing (print .plain t ++ rest) (some t) rest ∧
          kindAt (print .plain t ++ rest) 0 = .isKw)
  | .declarator introduced, t => ∃ vs, t = joined vs ∧ ∀ rest,
    kindAt rest 0 = .colon ∨ kindAt rest 0 = .isKw →
    Reading rules (.separated (if introduced then .value else .name)) (print .plain t ++ rest) vs
        rest ∧
      (introduced = false → kindAt (print .plain t ++ rest) 0 = .ident ∧
        opensDefinition (print .plain t ++ rest) = true)
  | .parameter, t => t.isDeclaration = true ∧ ∀ place rest, kindAt rest 0 ∈ itemEnds →
    Reading rules .parameter (print place t ++ rest) t rest ∧
      (kindAt (print place t ++ rest) 0 = .colon ∨ kindAt (print place t ++ rest) 0 = .ident) ∧
      opensParameter (print place t ++ rest) = true ∧
      opensDefinition (print place t ++ rest) = t.isNamed
  | .definition, t => t.isDeclaration = true ∧ ∀ rest,
    Reading rules .definition (print .plain t ++ rest) t rest ∧
      opensDeclaration (print .plain t ++ rest) = true
  | .block, t => t.isBlock = true ∧ ∀ rest,
    Reading rules .block (print .plain t ++ rest) t rest ∧
      kindAt (print .plain t ++ rest) 0 = .leftBrace
  | .statement, t => ∀ rest,
    Reading rules (.phrase .statement) (print .plain t ++ printTerminator t ++ rest) t rest ∧
      kindAt (print .plain t ++ printTerminator t ++ rest) 0 ∉ [TokenKind.rightBrace, .eof]
  | .file, t => ∃ ds, t = .file (sequence? ds) ∧
    Reading rules .declarations (printStatements ds) ds []

variable {rules : Rules}

namespace Nonterminal

/-! ## Expressions -/

/-- An assignment is read. -/
theorem reads_assignment {l r : Tree Word} {o : Word} (ho : kind o = .eq)
    (hl : ExpressionReads rules 1 l) (hr : ExpressionReads rules 0 r) :
    ExpressionReads rules 0 (.infixOp l o r) := by
  have hwords : ∀ rest, print .plain (.infixOp l o r) ++ rest =
      print .plain l ++ o :: (print .plain r ++ rest) := fun rest => by simp [print]
  refine .of_assignment (fun rest => hwords rest ▸ hl.opens _) fun rest hend => ?_
  rw [hwords]
  have hend' : Ends rules 1 (kind o) := ho ▸ ends_eq (by decide)
  exact .assignment (hl.implication (Nat.le_refl 1) _ hend') ho (hr.assignment rest hend)

/-- An implication is read. -/
theorem reads_implication (hp : rules.Printable) {l r : Tree Word} {o : Word}
    (ho : rules.implicationOperators.contains (kind o) = true)
    (hl : ExpressionReads rules 2 l) (hr : ExpressionReads rules 1 r) :
    ExpressionReads rules 1 (.infixOp l o r) := by
  have hwords : ∀ rest, print .plain (.infixOp l o r) ++ rest =
      print .plain l ++ o :: (print .plain r ++ rest) := fun rest => by simp [print]
  refine .of_implication (fun rest => hwords rest ▸ hl.opens _) fun rest hend => ?_
  rw [hwords]
  have hvalue : continuesValue rules (kind o) = false := by
    rcases hp.arrows _ ho with h | h <;> simp [h, continuesValue]
  have hend' : Ends rules 2 (kind o) :=
    .of_level (infixLevel?_of_implication hp.arrows ho) hvalue (by decide)
  exact .implication (hl.layer 6 (Nat.le_refl 6) (Nat.le_refl 2) _ hend') ho
    (hr.implication (Nat.le_refl 1) rest hend)

/-- An operator of a level below that of the dot belongs to a layer. -/
theorem exists_layer_of_operatorLevel? {k : TokenKind} {level : Nat}
    (h : operatorLevel? k = some level) (hn : level < 8) :
    ∃ j < 6, level = 7 - j ∧ (layerOperators j).contains k = true ∧
      ∀ rules, continuesValue rules k = false := by
  have hall : ∀ k ∈ TokenKind.all, ∀ level ∈ operatorLevel? k, level < 8 →
      7 - level < 6 ∧ level = 7 - (7 - level) ∧ (layerOperators (7 - level)).contains k = true ∧
        k ≠ .leftParen ∧ k ≠ .leftBracket ∧ k ≠ .dot ∧ k ≠ .caret := by decide
  obtain ⟨hj, hlevel, hcontains, hparen, hbracket, hdot, hcaret⟩ := hall k k.mem_all level h hn
  exact ⟨7 - level, hj, hlevel, hcontains, fun rules => by
    simp [continuesValue, hparen, hbracket, hdot, hcaret]⟩

/-- An operation is read. -/
theorem reads_operation (hp : rules.Printable) {level : Nat} {l r : Tree Word} {o : Word}
    (ho : operatorLevel? (kind o) = some level) (hn : level < 8)
    (hl : ExpressionReads rules level l) (hr : ExpressionReads rules (level + 1) r) :
    ExpressionReads rules level (.infixOp l o r) := by
  obtain ⟨j, hj, rfl, hlayer, hvalue⟩ := exists_layer_of_operatorLevel? ho hn
  have hwords : ∀ rest, print .plain (.infixOp l o r) ++ rest =
      print .plain l ++ o :: (print .plain r ++ rest) := fun rest => by simp [print]
  refine .of_operations (fun rest => hwords rest ▸ hl.opens _) hp hj fun rest v rest' hend h => ?_
  rw [hwords]
  have hend' : Ends rules (8 - j) (kind o) :=
    .of_level (infixLevel?_of_layer hp.arrows hlayer).2 (hvalue rules) (by omega)
  have hright := hr.layer j (by omega) (by omega) rest hend
  exact hl.operations j hj (Nat.le_refl _) _ _ _ hend' (.operation hlayer hright h)

/-- A prefix operation is read. -/
theorem reads_prefixOperation (hp : rules.Printable) {o : Word} {t : Tree Word}
    (ho : rules.prefixOperators.contains (kind o) = true) (h : ExpressionReads rules 8 t) :
    ExpressionReads rules 8 (.prefixOp o t) := by
  have hwords : ∀ rest, print .plain (.prefixOp o t) ++ rest = o :: (print .plain t ++ rest) :=
    fun rest => by simp [print]
  refine .of_operand (fun rest => ?_) hp fun rest hend => ?_
  · rw [hwords, kindAt_cons_zero]
    simp [opensOperand, ho]
  · rw [hwords]
    exact .prefixOperand ho (h.operand (Nat.le_refl 8) rest hend)

/-- A constructor behind its reserved word is read. -/
theorem reads_constructor (hs : rules.Scanless) {sort : ConstructorSort} {m : Word}
    {s r : Tree Word} (hc : rules.constructors = .keyword) (hm : kind m = sort.word)
    (hspecifier : Nonterminal.Reads rules (.group sort.opening sort.closing) s)
    (hr : ExpressionReads rules 8 r) : ExpressionReads rules 8 (sort.build (some m) s r) := by
  have hwords : ∀ rest, print .plain (sort.build (some m) s r) ++ rest =
      m :: (print sort.place s ++ (print .plain r ++ rest)) := fun rest => by
    simp [print_build_of_leads sort (sort.leads_word hm)]
  have hword : kind m = .arrayKw ∨ kind m = .templKw ∨ kind m = .funcKw := by
    cases sort <;> simp [hm, ConstructorSort.word]
  have hopens : opensOperand rules (kind m) = true := by
    rcases hword with h | h | h <;> simp [opensOperand, hc, h]
  have hordinary : rules.prefixOperators.contains (kind m) = false := hs.words hc _ hword
  refine .of_operand (fun rest => ?_) hs.toPrintable fun rest hend => ?_
  · rw [hwords]
    exact hopens
  · rw [hwords]
    have hresult := hr.operand (Nat.le_refl 8) rest hend
    obtain ⟨hgroup, -⟩ := hspecifier sort.isGroupDelimiters sort.place (print .plain r ++ rest)
    exact .constructorOperand hordinary (.wordConstructor hc hm hgroup hresult)

/-- A single token is read as a value. -/
theorem reads_token (hs : rules.Scanless) {w : Word} {t : Tree Word} (ht : print .plain t = [w])
    (hopens : opensValue rules (kind w) = true)
    (h : ∀ rest, Reading rules .primary (w :: rest) t rest) : ExpressionReads rules 9 t := by
  refine .of_value hs (fun rest => ?_) fun rest v rest' hsuffixes => ?_
  · rw [ht]
    exact hopens
  · rw [ht]
    exact .value (h rest) hsuffixes

/-- A group is read as a value. -/
theorem reads_grouped (hs : rules.Scanless) {opening closing : TokenKind} {t : Tree Word}
    (hd : IsGroupDelimiters opening closing)
    (h : Nonterminal.Reads rules (.group opening closing) t) : ExpressionReads rules 9 t := by
  have hliteral : ∀ k : TokenKind, k.isBracket = true → rules.literals.contains k = false :=
    fun k hk => Bool.eq_false_iff.2 fun hl => by rw [(hs.literals hl).1] at hk; contradiction
  refine .of_value hs (fun rest => ?_) fun rest v rest' hsuffixes => ?_
  · rw [(h hd .plain rest).2]
    rcases hd with ⟨rfl, -⟩ | ⟨rfl, -⟩ <;> simp [opensValue]
  · obtain ⟨hgroup, hkind⟩ := h hd .plain rest
    rcases hd with ⟨rfl, rfl⟩ | ⟨rfl, rfl⟩
    · exact .value (.paren (hkind ▸ hliteral _ rfl) hgroup) hsuffixes
    · exact .value (.bracket (hkind ▸ hliteral _ rfl) hgroup) hsuffixes

/-- A value with a suffix is read. -/
theorem reads_suffix (hs : rules.Scanless) (suffix : List Word) {v v' : Tree Word}
    (hprint : print .plain v' = print .plain v ++ suffix) (hv : ExpressionReads rules 9 v)
    (h : ∀ rest t rest', Reading rules (.suffixes v') rest t rest' →
      Reading rules (.suffixes v) (suffix ++ rest) t rest') : ExpressionReads rules 9 v' := by
  have hwords : ∀ rest, print .plain v' ++ rest = print .plain v ++ (suffix ++ rest) :=
    fun rest => by rw [hprint, List.append_assoc]
  refine .of_value hs (fun rest => hwords rest ▸ hv.begins (Nat.le_refl 9) _)
    fun rest t rest' hsuffixes => ?_
  rw [hwords]
  exact hv.value (Nat.le_refl 9) _ _ _ (h rest t rest' hsuffixes)

/-! ## Types and parameters -/

/-- A type is read behind a colon. -/
theorem reads_plainType (hs : rules.Scanless) {t : Tree Word}
    (ht : ExpressionReads rules rules.typeBound t) : Nonterminal.Reads rules .typing t := by
  intro rest hend hne
  have hread := ht.type hend
  refine ⟨.plainType rfl (hs.typeOmitted_eq (ht.opens rest)) hread hne, fun h => ?_⟩
  rw [isBareConstraint_of_atLeast (hread.fits hs.arrows).passes] at h
  contradiction

/-- A constrained type is read behind a colon. -/
theorem reads_constrainedType (hs : rules.Scanless) {m : Word} {t p : Tree Word}
    (hm : kind m = .isKw) (ht : ExpressionReads rules rules.typeBound t)
    (hp : ExpressionReads rules rules.typeBound p) :
    Nonterminal.Reads rules .typing (.constraint m (some t) p) := by
  intro rest hend _
  have hmark : Ends rules rules.typeBound (kind m) :=
    ends_of_mem hs.toPrintable (by rw [hm]; decide)
  have hwords : print .plain (.constraint m (some t) p) ++ rest =
      print .plain t ++ m :: (print .plain p ++ rest) := by simp [print, printSlot]
  rw [hwords]
  exact ⟨.constrainedType rfl (hs.typeOmitted_eq (ht.opens _)) (ht.type hmark) hm (hp.type hend),
    by rintro ⟨⟩⟩

/-- A constraint without a type is read with a colon and without. -/
theorem reads_constraint {m : Word} {p : Tree Word} (hm : kind m = .isKw)
    (hp : ExpressionReads rules rules.typeBound p) :
    Nonterminal.Reads rules .typing (.constraint m none p) := by
  intro rest hend _
  have hwords : print .plain (.constraint m none p) ++ rest = m :: (print .plain p ++ rest) := by
    simp [print, printSlot]
  rw [hwords]
  exact ⟨.colonConstraint rfl hm (hp.type hend), fun _ => ⟨.bareConstraint hm (hp.type hend), hm⟩⟩

/-- The type of a declaration is read, where it may be left out in front of a value. -/
theorem reads_typing {type : Option (Tree Word)}
    (ht : ∀ t ∈ type, Nonterminal.Reads rules .typing t) (rest : List Word)
    (hend : Ends rules rules.typeBound (kindAt rest 0)) (hne : kindAt rest 0 ≠ .isKw)
    (heq : type = none → kindAt rest 0 = .eq) :
    Reading rules .typing (TokenKind.colon.word :: (printSlot .plain type ++ rest)) type rest ∧
      (isBareConstraint type = true →
        Reading rules .typing (printSlot .plain type ++ rest) type rest ∧
          kindAt (printSlot .plain type ++ rest) 0 = .isKw) := by
  cases type with
  | none => exact ⟨.omittedType rfl (heq rfl), by rintro ⟨⟩⟩
  | some t => exact ht t rfl rest hend hne

/-- What ends an item ends every expression, and no value and no constraint follows. -/
theorem itemEnds_spec (hp : rules.Printable) {n : Nat} {k : TokenKind} (hk : k ∈ itemEnds) :
    Ends rules n k ∧ k ≠ .eq ∧ k ≠ .isKw := by
  have hall : ∀ k ∈ itemEnds, k ∈ endKinds ∧ k ≠ .eq ∧ k ≠ .isKw := by decide
  obtain ⟨hend, heq, his⟩ := hall k hk
  exact ⟨ends_of_mem hp hend, heq, his⟩

/-- The initial value of a parameter is read, and it ends the type in front of it. -/
theorem reads_initial (hs : rules.Scanless) {value : Option (Tree Word)}
    (hv : ∀ v ∈ value, ExpressionReads rules 0 v) {rest : List Word}
    (hend : kindAt rest 0 ∈ itemEnds) :
    ∃ tail, printEquals value ++ (printSlot .plain value ++ rest) = tail ∧
      Reading rules .initial tail value rest ∧ Ends rules rules.typeBound (kindAt tail 0) ∧
      kindAt tail 0 ≠ .isKw ∧ (value ≠ none → kindAt tail 0 = .eq) := by
  refine ⟨_, rfl, ?_⟩
  cases value with
  | none =>
    obtain ⟨htype, heq, his⟩ := itemEnds_spec hs.toPrintable (n := rules.typeBound) hend
    exact ⟨.noInitial heq, htype, his, fun h => absurd rfl h⟩
  | some v =>
    have hblock := ((hv v rfl).shape hs).2.2
    have hwords : printEquals (some v) ++ (printSlot .plain (some v) ++ rest) =
        TokenKind.eq.word :: (print .plain v ++ rest) := by simp [printEquals, printSlot, hblock]
    rw [hwords]
    have hread := (hv v rfl).expression hs rest (itemEnds_spec hs.toPrintable hend).1
    exact ⟨.initial rfl hread, ends_eq rules.typeBound_pos, by simp, fun _ => rfl⟩

/-- A parameter without names is read. -/
theorem reads_unnamedParameter (hs : rules.Scanless) {type value : Option (Tree Word)}
    (ht : ∀ t ∈ type, Nonterminal.Reads rules .typing t)
    (hv : ∀ v ∈ value, ExpressionReads rules 0 v) (ho : type = none → value ≠ none) :
    Nonterminal.Reads rules .parameter (.declaration none none type value none) := by
  refine ⟨rfl, fun place rest hend => ?_⟩
  obtain ⟨tail, htail, hinitial, htype, his, heq⟩ := reads_initial hs hv hend
  obtain ⟨htyping, -⟩ := reads_typing ht tail htype his fun h => heq (ho h)
  have hwords : print place (.declaration none none type value none) ++ rest =
      TokenKind.colon.word :: (printSlot .plain type ++ tail) := by
    simp [print, printSlot, printColon, ← htail]
  rw [hwords]
  refine ⟨.unnamedParameter rfl htyping hinitial, .inl rfl, ?_, ?_⟩
  · simp [opensParameter]
  · simp [opensDefinition_cons, isNamed]

/-- A parameter with names is read. -/
theorem reads_namedParameter (hs : rules.Scanless) {d : Tree Word} {type value : Option (Tree Word)}
    (hd : Nonterminal.Reads rules (.declarator false) d)
    (ht : ∀ t ∈ type, Nonterminal.Reads rules .typing t)
    (hv : ∀ v ∈ value, ExpressionReads rules 0 v) (ho : type = none → value ≠ none) :
    Nonterminal.Reads rules .parameter (.declaration none (some d) type value none) := by
  refine ⟨rfl, fun place rest hend => ?_⟩
  obtain ⟨ns, rfl, hnames⟩ := hd
  obtain ⟨tail, htail, hinitial, htype, his, heq⟩ := reads_initial hs hv hend
  obtain ⟨hwith, hwithout⟩ := reads_typing ht tail htype his fun h => heq (ho h)
  obtain ⟨htyping, hmark, -⟩ := hwith.typed place (.joined ns) hwithout rfl
  have hwords : print place (.declaration none (some (.joined ns)) type value none) ++ rest =
      print .plain (.joined ns) ++
        (printColon place (some (.joined ns)) type ++ (printSlot .plain type ++ tail)) := by
    simp [print, printSlot, ← htail]
  rw [hwords]
  obtain ⟨hread, hfirst⟩ := hnames _ hmark
  obtain ⟨hident, hopens⟩ := hfirst rfl
  refine ⟨.namedParameter (by rw [hident]; decide) hread htyping hinitial, .inr hident, ?_, ?_⟩
  · simp [opensParameter, hopens]
  · rw [hopens]
    rfl

/-! ## Lists and groups -/

/-- Before the end of a list no name is marked. -/
theorem marksNames_of_itemEnds {rest : List Word} (hend : kindAt rest 0 ∈ itemEnds)
    (hc : kindAt rest 0 ≠ .comma) : marksNames rest = false := by
  simp only [itemEnds, List.mem_cons, List.not_mem_nil, or_false] at hend
  unfold marksNames
  rcases hend with h | h | h | h
  · exact absurd h hc
  · simp [h]
  · simp [h]
  · simp [h]

/-- A parameter is read as an item. -/
theorem reads_parameterItem {t : Tree Word} (h : Nonterminal.Reads rules .parameter t) :
    Nonterminal.Reads rules .item t := by
  obtain ⟨hd, hparameter⟩ := h
  have hlist : t.isList = false := by cases t <;> simp_all [isDeclaration, isList]
  refine ⟨hlist, fun place rest hend _ => ?_⟩
  have hfirst : place.ofFirst t = place := by simp [Place.ofFirst, hd]
  rw [hfirst]
  obtain ⟨hread, hkind, hopens, hnamed⟩ := hparameter place rest hend
  refine ⟨.parameterItem hopens hread, ?_, hnamed⟩
  rcases hkind with h | h <;> rw [h] <;> decide

/-- An expression is read as an item. -/
theorem reads_expressionItem (hs : rules.Scanless) {t : Tree Word} (h : ExpressionReads rules 0 t) :
    Nonterminal.Reads rules .item t := by
  obtain ⟨hlist, hd, -⟩ := h.shape hs
  refine ⟨hlist, fun place rest hend hm => ?_⟩
  have hfirst : place.ofFirst t = .plain := by simp [Place.ofFirst, hlist, hd]
  rw [hfirst]
  have hexpression := (itemEnds_spec hs.toPrintable (n := 0) hend).1
  have hopens := h.opensDefinition_eq hs rest hexpression hm
  have hkind := hs.operands _ (h.opens rest)
  have hcolon : kindAt (print .plain t ++ rest) 0 ≠ .colon := fun hk => by
    rw [hk] at hkind
    exact hkind (by decide)
  refine ⟨.expressionItem ?_ (h.expression hs rest hexpression), fun hk => hkind ?_, ?_⟩
  · simp [opensParameter, hopens, hcolon]
  · have hall : ∀ k ∈ itemEnds, k ∈ nonOperands := by decide
    exact hall _ hk
  · rw [hopens]
    cases t <;> simp_all [isDeclaration, isNamed]

/-- Items with commas between them are read, if no name stands in front of a parameter with
names. -/
theorem reads_separatedItems {vs : List (Tree Word)} (hne : vs ≠ [])
    (h : ∀ v ∈ vs, Nonterminal.Reads rules .item v)
    (hn : vs.IsChain fun u v => u.isIdentifier = true → v.isNamed = false) :
    ∀ place rest, kindAt rest 0 ∈ itemEnds → kindAt rest 0 ≠ .comma →
      Reading rules (.separated .item) (printTerms place TokenKind.comma.word vs ++ rest) vs rest ∧
        kindAt (printTerms place TokenKind.comma.word vs ++ rest) 0 ∉ itemEnds ∧
        ∀ v ∈ vs.head?, opensDefinition (printTerms place TokenKind.comma.word vs ++ rest) =
          v.isNamed := by
  induction vs with
  | nil => exact absurd rfl hne
  | cons v vs ih =>
    intro place rest hend hc
    obtain ⟨⟨hlist, hv⟩, hvs⟩ := List.forall_mem_cons.1 h
    cases vs with
    | nil =>
      rw [printTerms_singleton]
      obtain ⟨hread, hkind, hnamed⟩ := hv place rest hend fun _ => marksNames_of_itemEnds hend hc
      refine ⟨.last hread hc, hkind, ?_⟩
      rintro u ⟨⟩
      exact hnamed
    | cons w ws =>
      obtain ⟨hpair, hchain⟩ := List.isChain_cons_cons.1 hn
      obtain ⟨hothers, -, hnext⟩ := ih (by simp) hvs hchain .plain rest hend hc
      have hwords : printTerms place TokenKind.comma.word (v :: w :: ws) ++ rest =
          print (place.ofFirst v) v ++ TokenKind.comma.word ::
            (printTerms .plain TokenKind.comma.word (w :: ws) ++ rest) := by
        rw [printTerms_cons _ _ _ (by simp), List.append_assoc, List.cons_append]
      rw [hwords]
      obtain ⟨hread, hkind, hnamed⟩ := hv place (TokenKind.comma.word ::
        (printTerms .plain TokenKind.comma.word (w :: ws) ++ rest)) (by simp [itemEnds]) fun hi =>
          (hnext w rfl).trans (hpair hi)
      refine ⟨.more hread rfl hothers, hkind, ?_⟩
      rintro u ⟨⟩
      exact hnamed

/-- A list of items is read. -/
theorem reads_items {vs : List (Tree Word)} (hne : vs ≠ [])
    (h : ∀ v ∈ vs, Nonterminal.Reads rules .item v)
    (hn : vs.IsChain fun u v => u.isIdentifier = true → v.isNamed = false) :
    Nonterminal.Reads rules .items (.list vs) := by
  refine ⟨rfl, fun place rest hend hc => ?_⟩
  rw [print_list place fun v hv => (h v hv).1]
  obtain ⟨hread, hkind, -⟩ := reads_separatedItems hne h hn place rest hend hc
  exact ⟨.items hread, hkind⟩

/-- Lists with semicolons between them are read. -/
theorem reads_separatedLists {vs : List (Tree Word)} (hne : vs ≠ [])
    (h : ∀ v ∈ vs, Nonterminal.Reads rules .items v) :
    ∀ place rest, kindAt rest 0 = .rightParen ∨ kindAt rest 0 = .rightBracket →
      Reading rules (.separated .items) (printTerms place TokenKind.semicolon.word vs ++ rest) vs
          rest ∧
        kindAt (printTerms place TokenKind.semicolon.word vs ++ rest) 0 ∉ itemEnds := by
  induction vs with
  | nil => exact absurd rfl hne
  | cons v vs ih =>
    intro place rest hend
    obtain ⟨⟨hlist, hv⟩, hvs⟩ := List.forall_mem_cons.1 h
    have hfirst : place.ofFirst v = place := by simp [Place.ofFirst, hlist]
    cases vs with
    | nil =>
      rw [printTerms_singleton, hfirst]
      have hmem : kindAt rest 0 ∈ itemEnds := by rcases hend with h | h <;> rw [h] <;> decide
      have hother : kindAt rest 0 ≠ .comma ∧ kindAt rest 0 ≠ .semicolon := by
        rcases hend with h | h <;> rw [h] <;> decide
      obtain ⟨hread, hkind⟩ := hv place rest hmem hother.1
      exact ⟨.last hread hother.2, hkind⟩
    | cons w ws =>
      obtain ⟨hothers, -⟩ := ih (by simp) hvs .plain rest hend
      obtain ⟨hread, hkind⟩ := hv place (TokenKind.semicolon.word ::
        (printTerms .plain TokenKind.semicolon.word (w :: ws) ++ rest)) (by simp [itemEnds])
        (by simp)
      rw [printTerms_cons _ _ _ (by simp), hfirst, List.append_assoc, List.cons_append]
      exact ⟨.more hread rfl hothers, hkind⟩

/-- A group is read. -/
theorem reads_group {opening closing : TokenKind} {a b : Word} {vs : List (Tree Word)}
    (ha : kind a = opening) (hb : kind b = closing) (hne : vs ≠ [])
    (h : ∀ v ∈ vs, Nonterminal.Reads rules .items v) :
    Nonterminal.Reads rules (.group opening closing) (.enclosure a (some (.joined vs)) b) := by
  intro hd place rest
  have hend : kind b = .rightParen ∨ kind b = .rightBracket := by
    rcases hd with ⟨-, rfl⟩ | ⟨-, rfl⟩
    · exact .inl hb
    · exact .inr hb
  obtain ⟨hread, hkind⟩ := reads_separatedLists hne h place (b :: rest) hend
  have hwords : print place (.enclosure a (some (.joined vs)) b) ++ rest =
      a :: (printTerms place TokenKind.semicolon.word vs ++ b :: rest) := by
    simp [print, printSlot, print_joined_lists place hne fun v hv => (h v hv).1]
  rw [hwords]
  refine ⟨.enclosure ha (fun hk => hkind ?_) hread hb, ha⟩
  rw [hk, ← hb]
  rcases hend with h | h <;> rw [h] <;> decide

/-! ## Definitions and files -/

/-- Values are read as what is declared. -/
theorem reads_values (hs : rules.Scanless) {vs : List (Tree Word)} (hne : vs ≠ [])
    (h : ∀ v ∈ vs, ExpressionReads rules 9 v) :
    Nonterminal.Reads rules (.declarator true) (.joined vs) := by
  refine ⟨vs, rfl, fun rest hmark => ⟨?_, by rintro ⟨⟩⟩⟩
  rw [print_joined hne fun v hv => ((h v hv).shape hs).1]
  have hcomma : kindAt rest 0 ≠ .comma := by rcases hmark with h | h <;> rw [h] <;> decide
  have hrest : continuesValue rules (kindAt rest 0) = false := by
    rcases hmark with h | h <;> simp [h, continuesValue]
  induction vs with
  | nil => exact absurd rfl hne
  | cons v vs ih =>
    obtain ⟨hv, hvs⟩ := List.forall_mem_cons.1 h
    have hvalue := hv.value (Nat.le_refl 9)
    cases vs with
    | nil =>
      rw [printTerms_singleton, ofFirst_plain]
      exact .last (hvalue _ _ _ (.suffixesEnd hrest)) hcomma
    | cons w ws =>
      rw [printTerms_cons _ _ _ (by simp), ofFirst_plain, List.append_assoc, List.cons_append]
      exact .more (hvalue _ _ _ (.suffixesEnd (by simp [continuesValue]))) rfl (ih (by simp) hvs)

/-- Names are read as what is declared. -/
theorem reads_names {ns : List Word} (hne : ns ≠ []) (hk : ∀ n ∈ ns, kind n = .ident) :
    Nonterminal.Reads rules (.declarator false) (.joined (ns.map .identifier)) := by
  refine ⟨ns.map .identifier, rfl, fun rest hmark => ?_⟩
  have hlist : ∀ v ∈ ns.map Tree.identifier, v.isList = false :=
    List.forall_mem_map.2 fun _ _ => rfl
  rw [print_joined (by simpa using hne) hlist]
  have hcomma : kindAt rest 0 ≠ .comma := by rcases hmark with h | h <;> rw [h] <;> decide
  have hmarks : marksNames rest = true := by rcases hmark with h | h <;> simp [marksNames, h]
  induction ns with
  | nil => exact absurd rfl hne
  | cons n ns ih =>
    obtain ⟨hn, hns⟩ := List.forall_mem_cons.1 hk
    cases ns with
    | nil =>
      have hwords : printTerms .plain TokenKind.comma.word ([n].map Tree.identifier) ++ rest =
          n :: rest := by simp [print]
      rw [hwords]
      exact ⟨.last (.name hn) hcomma, fun _ => ⟨hn, by simp [opensDefinition_cons, hn, hmarks]⟩⟩
    | cons m ms =>
      obtain ⟨hothers, hnext⟩ := ih (by simp) hns (List.forall_mem_map.2 fun _ _ => rfl)
      obtain ⟨-, hopens⟩ := hnext rfl
      have hwords : printTerms .plain TokenKind.comma.word ((n :: m :: ms).map Tree.identifier) ++
          rest = n :: TokenKind.comma.word ::
            (printTerms .plain TokenKind.comma.word ((m :: ms).map Tree.identifier) ++ rest) := by
        rw [List.map_cons, printTerms_cons _ _ _ (by simp)]
        simp [print]
      rw [hwords]
      refine ⟨.more (.name hn) rfl hothers, fun _ => ⟨hn, ?_⟩⟩
      rw [opensDefinition_cons]
      simpa [hn, marksNames] using hopens

/-- A definition is read when what follows its names is. -/
theorem reads_definition (words : List Word) {i : Option Word} {d t : Tree Word}
    (hi : ∀ w ∈ i, kind w = .defKw) (hd : Nonterminal.Reads rules (.declarator i.isSome) d)
    (hdecl : t.isDeclaration = true)
    (hprint : print .plain t = i.toList ++ (print .plain d ++ words))
    (h : ∀ rest, Reading rules (.defined i d) (words ++ rest) t rest ∧
      (kindAt (words ++ rest) 0 = .colon ∨ kindAt (words ++ rest) 0 = .isKw)) :
    Nonterminal.Reads rules .definition t := by
  obtain ⟨vs, rfl, hvs⟩ := hd
  refine ⟨hdecl, fun rest => ?_⟩
  obtain ⟨hdefined, hmark⟩ := h rest
  obtain ⟨hread, hfirst⟩ := hvs _ hmark
  rw [hprint, List.append_assoc, List.append_assoc]
  cases i with
  | none =>
    obtain ⟨hident, hopens⟩ := hfirst rfl
    refine ⟨.unintroduced ?_ hread hdefined, ?_⟩
    · rw [Option.toList_none, List.nil_append, hident]
      decide
    · simp [opensDeclaration, hopens]
  | some w =>
    refine ⟨.introduced (hi w rfl) hread hdefined, ?_⟩
    simp [opensDeclaration, hi w rfl]

/-- A definition with a type and without a value is read. -/
theorem reads_typedDefinition (hs : rules.Scanless) {i : Option Word} {d type : Tree Word}
    {s : Word} (hi : ∀ w ∈ i, kind w = .defKw) (hd : Nonterminal.Reads rules (.declarator i.isSome) d)
    (ht : Nonterminal.Reads rules .typing type) (hsemi : kind s = .semicolon) :
    Nonterminal.Reads rules .definition (.declaration i (some d) (some type) none (some s)) := by
  refine reads_definition (printColon .plain (some d) (some type) ++ (print .plain type ++ [s])) hi
    hd rfl ?_ fun rest => ?_
  · simp [print, printSlot, printEquals]
  · have hend : Ends rules rules.typeBound (kind s) :=
      ends_of_mem hs.toPrintable (by rw [hsemi]; decide)
    obtain ⟨hwith, hwithout⟩ := ht (s :: rest) hend (by simp [hsemi])
    obtain ⟨hread, hmark, -⟩ := hwith.typed .plain d hwithout rfl
    have hwords : printColon .plain (some d) (some type) ++ (print .plain type ++ [s]) ++ rest =
        printColon .plain (some d) (some type) ++ (print .plain type ++ s :: rest) := by simp
    rw [hwords]
    exact ⟨.typedOnly hread hsemi, hmark⟩

/-- A definition with a block is read. -/
theorem reads_blockDefinition (hs : rules.Scanless) {i : Option Word} {d type b : Tree Word}
    (hi : ∀ w ∈ i, kind w = .defKw) (hd : Nonterminal.Reads rules (.declarator i.isSome) d)
    (ht : Nonterminal.Reads rules .typing type) (hb : Nonterminal.Reads rules .block b) :
    Nonterminal.Reads rules .definition (.declaration i (some d) (some type) (some b) none) := by
  obtain ⟨hblock, hread⟩ := hb
  refine reads_definition
    (printColon .plain (some d) (some type) ++ (print .plain type ++ print .plain b)) hi hd rfl ?_
    fun rest => ?_
  · simp [print, printSlot, printEquals, hblock]
  · obtain ⟨hbody, hopening⟩ := hread rest
    have hend : Ends rules rules.typeBound (kindAt (print .plain b ++ rest) 0) :=
      ends_of_mem hs.toPrintable (by rw [hopening]; decide)
    obtain ⟨hwith, hwithout⟩ := ht _ hend (by simp [hopening])
    obtain ⟨htyped, hmark, -⟩ := hwith.typed .plain d hwithout rfl
    rw [List.append_assoc, List.append_assoc]
    exact ⟨.definedBlock htyped hbody, hmark⟩

/-- A definition with a value is read. -/
theorem reads_valueDefinition (hs : rules.Scanless) {i : Option Word} {d v : Tree Word}
    {type : Option (Tree Word)} {s : Word} (hi : ∀ w ∈ i, kind w = .defKw)
    (hd : Nonterminal.Reads rules (.declarator i.isSome) d)
    (ht : ∀ t ∈ type, Nonterminal.Reads rules .typing t) (hv : ExpressionReads rules 0 v)
    (hsemi : kind s = .semicolon) :
    Nonterminal.Reads rules .definition (.declaration i (some d) type (some v) (some s)) := by
  have hblock := (hv.shape hs).2.2
  refine reads_definition (printColon .plain (some d) type ++ (printSlot .plain type ++
    (TokenKind.eq.word :: (print .plain v ++ [s])))) hi hd rfl ?_ fun rest => ?_
  · simp [print, printSlot, printEquals, hblock]
  · have hend : Ends rules 0 (kind s) := ends_of_mem hs.toPrintable (by rw [hsemi]; decide)
    have hvalue : Reading rules (.phrase .expression) (print .plain v ++ s :: rest) v (s :: rest) :=
      hv.expression hs _ hend
    obtain ⟨hwith, hwithout⟩ := reads_typing ht
      (TokenKind.eq.word :: (print .plain v ++ s :: rest)) (ends_eq rules.typeBound_pos)
      (by simp) fun _ => rfl
    obtain ⟨hread, hmark, -⟩ := hwith.typed .plain d hwithout rfl
    have hwords : printColon .plain (some d) type ++ (printSlot .plain type ++
        (TokenKind.eq.word :: (print .plain v ++ [s]))) ++ rest =
        printColon .plain (some d) type ++ (printSlot .plain type ++
          TokenKind.eq.word :: (print .plain v ++ s :: rest)) := by simp
    rw [hwords]
    exact ⟨.definedValue hread rfl hvalue hsemi, hmark⟩

/-- A definition is read as a statement. -/
theorem reads_definitionStatement {t : Tree Word} (h : Nonterminal.Reads rules .definition t) :
    Nonterminal.Reads rules .statement t := by
  obtain ⟨hdecl, hdefinition⟩ := h
  intro rest
  obtain ⟨hread, hopens⟩ := hdefinition rest
  have hwords : print .plain t ++ printTerminator t ++ rest = print .plain t ++ rest := by
    simp [printTerminator, hdecl]
  rw [hwords]
  refine ⟨.definitionStatement hopens hread, ?_⟩
  rcases kindAt_of_opensDeclaration hopens with h | h <;> rw [h] <;> decide

/-- An expression is read as a statement. -/
theorem reads_expressionStatement (hs : rules.Scanless) {t : Tree Word}
    (h : ExpressionReads rules 0 t) : Nonterminal.Reads rules .statement t := by
  intro rest
  have hend : Ends rules 0 .semicolon := ends_of_mem hs.toPrintable (by decide)
  have hwords : print .plain t ++ printTerminator t ++ rest =
      print .plain t ++ TokenKind.semicolon.word :: rest := by
    simp [printTerminator, (h.shape hs).2.1]
  rw [hwords]
  have hkind := hs.operands _ (h.opens (TokenKind.semicolon.word :: rest))
  have hopens := h.opensDefinition_eq hs (TokenKind.semicolon.word :: rest) hend fun _ => rfl
  have hdef : opensDeclaration (print .plain t ++ TokenKind.semicolon.word :: rest) = false := by
    refine Bool.or_eq_false_iff.2 ⟨beq_eq_false_iff_ne.2 fun hk => ?_, hopens⟩
    rw [hk] at hkind
    exact hkind (by decide)
  refine ⟨.expressionStatement hdef (by simp [opensControl, hs.control])
    (h.expression hs (TokenKind.semicolon.word :: rest) hend) rfl, fun hk => hkind ?_⟩
  have hall : ∀ k ∈ [TokenKind.rightBrace, .eof], k ∈ nonOperands := by decide
  exact hall _ hk

/-- Statements are read up to the end of their block. -/
theorem reads_statements {ss : List (Tree Word)}
    (h : ∀ s ∈ ss, Nonterminal.Reads rules .statement s) {rest : List Word} (hend : kindAt rest 0 = .rightBrace) :
    Reading rules .statements (printStatements ss ++ rest) ss rest := by
  induction ss with
  | nil => exact .noStatements (.inl hend)
  | cons s ss ih =>
    obtain ⟨hstatement, hss⟩ := List.forall_mem_cons.1 h
    obtain ⟨hread, hkind⟩ := hstatement (printStatements ss ++ rest)
    simp only [List.mem_cons, List.not_mem_nil, or_false, not_or] at hkind
    rw [printStatements, List.append_assoc]
    exact .statements hkind.1 hkind.2 hread (ih hss)

/-- A block is read. -/
theorem reads_block {a b : Word} {ss : List (Tree Word)} (ha : kind a = .leftBrace)
    (hb : kind b = .rightBrace) (h : ∀ s ∈ ss, Nonterminal.Reads rules .statement s) :
    Nonterminal.Reads rules .block (.enclosure a (sequence? ss) b) := by
  refine ⟨by simp [isBlock, ha], fun rest => ?_⟩
  have hwords : print .plain (.enclosure a (sequence? ss) b) ++ rest =
      a :: (printStatements ss ++ b :: rest) := by simp [print, printSlot_sequence?]
  rw [hwords]
  exact ⟨.block ha (reads_statements h hb) hb, ha⟩

/-- The declarations of a file are read. -/
theorem reads_declarations {ds : List (Tree Word)}
    (h : ∀ d ∈ ds, Nonterminal.Reads rules .definition d) :
    Reading rules .declarations (printStatements ds) ds [] := by
  induction ds with
  | nil => exact .noDeclarations rfl
  | cons d ds ih =>
    obtain ⟨⟨hdecl, hdefinition⟩, hds⟩ := List.forall_mem_cons.1 h
    obtain ⟨hread, hopens⟩ := hdefinition (printStatements ds)
    have hwords : printStatements (d :: ds) = print .plain d ++ printStatements ds := by
      simp [printStatements, printTerminator, hdecl]
    rw [hwords]
    exact .declarations hopens hread (ih hds)

end Nonterminal

/-! ## All generated trees -/

/-- The printed words of a generated tree are read as the tree. -/
theorem Generates.reads (hs : rules.Scanless) {n : Nonterminal} {t : Tree Word}
    (h : Generates rules n t) : n.Reads rules t := by
  have hp := hs.toPrintable
  induction h with
  | looser _ hm ih => exact ExpressionReads.looser ih hm
  | assignment ho _ _ ih ih' => exact Nonterminal.reads_assignment ho ih ih'
  | implication ho _ _ ih ih' => exact Nonterminal.reads_implication hp ho ih ih'
  | operation ho hn _ _ ih ih' => exact Nonterminal.reads_operation hp ho hn ih ih'
  | prefixOperation ho _ ih => exact Nonterminal.reads_prefixOperation hp ho ih
  | constructor hc hm _ _ ih ih' => exact Nonterminal.reads_constructor hs hc hm ih ih'
  | literal hl =>
    exact Nonterminal.reads_token hs rfl (by simp [opensValue, hl]) fun _ => .literal hl
  | identifier hk =>
    exact Nonterminal.reads_token hs rfl (by simp [opensValue, hk]) fun _ =>
      .identifier (hk ▸ hp.nameLiteral) hk
  | grouped hd _ ih => exact Nonterminal.reads_grouped hs hd ih
  | call _ _ ih ih' =>
    refine Nonterminal.reads_suffix hs _ (by rw [print]) ih fun rest _ _ hsuffixes => ?_
    exact .call (ih' (.inl ⟨rfl, rfl⟩) .plain rest).1 hsuffixes
  | index _ _ ih ih' =>
    refine Nonterminal.reads_suffix hs _ (by rw [print]) ih fun rest _ _ hsuffixes => ?_
    exact .index (ih' (.inr ⟨rfl, rfl⟩) .plain rest).1 hsuffixes
  | @member v d n _ hd hn ih =>
    exact Nonterminal.reads_suffix hs [d, n] (by simp [print]) ih fun _ _ _ => .member hd hn
  | @caret v c _ hc hpost ih =>
    exact Nonterminal.reads_suffix hs [c] (by simp [print]) ih fun _ _ _ => .caret hc hpost
  | @emptyGroup _ _ a b ha hb =>
    intro _ place rest
    have hwords : print place (.enclosure a none b) ++ rest = a :: b :: rest := by
      simp [print, printSlot]
    rw [hwords]
    exact ⟨.emptyEnclosure ha hb, ha⟩
  | group ha hb hne _ ih => exact Nonterminal.reads_group ha hb hne ih
  | items hne _ hn ih => exact Nonterminal.reads_items hne ih hn
  | parameterItem _ ih => exact Nonterminal.reads_parameterItem ih
  | expressionItem _ ih => exact Nonterminal.reads_expressionItem hs ih
  | type _ ih => exact Nonterminal.reads_plainType hs ih
  | constrainedType hm _ _ ih ih' => exact Nonterminal.reads_constrainedType hs hm ih ih'
  | constraint hm _ ih => exact Nonterminal.reads_constraint hm ih
  | values hne _ ih => exact Nonterminal.reads_values hs hne ih
  | names hne hk => exact Nonterminal.reads_names hne hk
  | @parameter declarator _ _ _ _ _ ho ihd iht ihv =>
    cases declarator with
    | none => exact Nonterminal.reads_unnamedParameter hs iht ihv ho
    | some d => exact Nonterminal.reads_namedParameter hs (ihd d rfl) iht ihv ho
  | typedDefinition hi _ _ hsemi ihd iht =>
    exact Nonterminal.reads_typedDefinition hs hi ihd iht hsemi
  | blockDefinition hi _ _ _ ihd iht ihb =>
    exact Nonterminal.reads_blockDefinition hs hi ihd iht ihb
  | valueDefinition hi _ _ _ hsemi ihd iht ihv =>
    exact Nonterminal.reads_valueDefinition hs hi ihd iht ihv hsemi
  | block ha hb _ ih => exact Nonterminal.reads_block ha hb ih
  | definitionStatement _ ih => exact Nonterminal.reads_definitionStatement ih
  | expressionStatement _ ih => exact Nonterminal.reads_expressionStatement hs ih
  | file _ ih => exact ⟨_, rfl, Nonterminal.reads_declarations ih⟩

/-- The printed text of a generated file is parsed as the file. -/
theorem exists_parseText_of_generates {dialect : Dialect} (hs : dialect.rules.Scanless)
    {t : Tree Word} (h : Generates dialect.rules .file t)
    (hlex : ∀ w ∈ t.tokens, w.isLexeme = true) (symbols : SymbolTable) :
    ∃ t', (parseText symbols dialect t.text).1 = .ok t' ∧ t'.map Token.word = t := by
  obtain ⟨ds, rfl, hread⟩ := h.reads hs
  have hprint : print .plain (.file (sequence? ds)) = printStatements ds := by
    rw [print, printSlot_sequence?]
  have hwords := hprint ▸ isLexeme_of_mem_print hlex .plain
  rw [Tree.text, hprint]
  exact exists_parseText_join hwords hread symbols

/-- Every file that the grammar of a dialect without a search for closers generates is
parsed from its printed text, and no other generated file has that text. -/
theorem parseText_generated (symbols : SymbolTable) (dialect : Dialect)
    (hd : dialect = .keyword ∨ dialect = .pointer) (t : Tree Word)
    (h : Generates dialect.rules .file t) (hlex : ∀ w ∈ t.tokens, w.isLexeme = true) :
    (∃ t', (parseText symbols dialect t.text).1 = .ok t' ∧ t'.map Token.word = t) ∧
      ∀ u, Generates dialect.rules .file u → (∀ w ∈ u.tokens, w.isLexeme = true) →
        u.text = t.text → u = t := by
  have hs := Dialect.scanless_rules hd
  obtain ⟨t', hparse, htree⟩ := exists_parseText_of_generates hs h hlex symbols
  refine ⟨⟨t', hparse, htree⟩, fun u hu hulex htext => ?_⟩
  obtain ⟨u', hparse', htree'⟩ := exists_parseText_of_generates hs hu hulex symbols
  rw [htext, hparse] at hparse'
  rw [← htree, ← htree', Except.ok.inj hparse']

/-- A definition with an array type is generated, and its printed text is parsed as it. -/
theorem parseText_generated_array :
    ∃ t : Tree Word, t.text = "a : array [ ] b ;" ∧
      ∃ t', (parseText (.empty 0) .keyword t.text).1 = .ok t' ∧ t'.map Token.word = t := by
  have hname : Generates Dialect.keyword.rules (.declarator false)
      (joined ([(⟨.ident, "a"⟩ : Word)].map .identifier)) :=
    .names (by simp) (List.forall_mem_singleton.2 rfl)
  have hresult : Generates Dialect.keyword.rules (.expression 8)
      (.identifier (⟨.ident, "b"⟩ : Word)) := .looser (.identifier rfl) (by decide)
  have htype : Generates Dialect.keyword.rules (.expression 8)
      (ConstructorSort.array.build (some TokenKind.arrayKw.word)
        (.enclosure TokenKind.leftBracket.word none TokenKind.rightBracket.word) _) :=
    .constructor rfl rfl (.emptyGroup rfl rfl) hresult
  have hfile : Generates Dialect.keyword.rules .file (.file (sequence?
      [.declaration none (some _) (some _) none (some TokenKind.semicolon.word)])) :=
    .file (List.forall_mem_singleton.2 (.typedDefinition (by simp) hname (.type htype) rfl))
  exact ⟨_, by decide +kernel,
    (parseText_generated (.empty 0) .keyword (.inl rfl) _ hfile (by decide +kernel)).1⟩

end ConcreteSyntax
