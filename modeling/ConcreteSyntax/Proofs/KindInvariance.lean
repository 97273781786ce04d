import ConcreteSyntax.Proofs.PrintedTrees
import ConcreteSyntax.GrammarRecursion

/-!
# Only the kinds of tokens matter to the parser

When every token is replaced by one of the same kind, the parser does the same things.
It yields the tree with the tokens replaced, or it fails with the same expectation and the
replaced token at the same place. Two parsers correspond along a replacement of tokens when
this holds of them, and corresponding parts make corresponding phrases.
-/

namespace ConcreteSyntax

open TokenParser

/-- A failure with its token replaced. -/
def Failure.map {τ σ : Type} (f : τ → σ) (e : Failure τ) : Failure σ := ⟨e.expected, e.found.map f⟩

/-- A failure stays as it is when its token does. -/
@[simp]
theorem Failure.map_id {τ : Type} (e : Failure τ) : e.map id = e := by
  rw [Failure.map, Option.map_id, id]

/-- An outcome with every token replaced. -/
def Outcome.map {τ σ α β : Type} (f : τ → σ) (F : α → β) : Outcome τ α → Outcome σ β
  | done value rest => done (F value) (rest.map f)
  | failed failure rest => failed (failure.map f) (rest.map f)

namespace Tree

variable {τ σ : Type} (f : τ → σ)

/-- Joined trees are mapped one by one. -/
theorem map_joined (ts : List (Tree τ)) : (joined ts).map f = joined (ts.map (map f)) := by
  cases ts with
  | nil => simp [joined, Tree.map]
  | cons t ts => cases ts <;> simp [joined, Tree.map]

/-- A sequence is mapped tree by tree. -/
theorem map_sequence? (ts : List (Tree τ)) :
    (sequence? ts).map (map f) = sequence? (ts.map (map f)) := by
  cases ts with
  | nil => rfl
  | cons t ts => simp [sequence?, Tree.map]

end Tree

/-- A suffix with every token replaced. -/
def Suffix.map {τ σ : Type} (f : τ → σ) : Suffix τ → Suffix σ
  | call arguments => .call (arguments.map f)
  | index arguments => .index (arguments.map f)
  | member dot name => .member (f dot) (name.map f)
  | operator token => .operator (f token)

/-- Attached suffixes are mapped one by one. -/
theorem Suffix.map_foldl_attach {τ σ : Type} (f : τ → σ) (ss : List (Suffix τ)) (v : Tree τ) :
    (ss.foldl Suffix.attach v).map f = (ss.map (Suffix.map f)).foldl Suffix.attach (v.map f) := by
  induction ss generalizing v with
  | nil => rfl
  | cons s ss ih =>
    rw [List.foldl_cons, ih, List.map_cons, List.foldl_cons]
    cases s <;> rfl

namespace TokenParser

variable {τ σ α β γ δ : Type} (f : τ → σ)

/-- A parser on replaced tokens does what another parser does on the tokens. -/
def Corresponds (F : α → β) (p : TokenParser τ α) (q : TokenParser σ β) : Prop :=
  ∀ ts, q (ts.map f) = (p ts).map f F

namespace Corresponds

variable {f} {F : α → β} {p : TokenParser τ α} {q : TokenParser σ β}

/-- Corresponding values correspond as parsers. -/
theorem value {a : α} {b : β} (h : F a = b) :
    Corresponds f F (pure a : TokenParser τ α) (pure b : TokenParser σ β) :=
  h ▸ fun _ => rfl

/-- Failures correspond. -/
theorem fail (F : α → β) (expected : Expectation) :
    Corresponds f F (fail expected : TokenParser τ α) (fail expected : TokenParser σ β) := by
  intro ts
  cases ts <;> rfl

/-- Sequences of corresponding parts correspond. -/
theorem bind {G : γ → δ} {k : α → TokenParser τ γ} {l : β → TokenParser σ δ}
    (h : Corresponds f F p q) (hk : ∀ a, Corresponds f G (k a) (l (F a))) :
    Corresponds f G (p >>= k) (q >>= l) := by
  intro ts
  rw [bind_apply, bind_apply, h ts]
  cases hp : p ts with
  | done a rest => exact hk a rest
  | failed e rest => rfl

/-- The tokens ahead correspond. -/
theorem ahead : Corresponds f (List.map f) ahead ahead := fun _ => rfl

/-- The next tokens correspond. -/
theorem next? : Corresponds f (Option.map f) next? next? := by
  intro ts
  cases ts <;> rfl

/-- Repetitions of corresponding parts correspond. -/
theorem many {p : TokenParser τ (Option α)} {q : TokenParser σ (Option β)}
    (h : Corresponds f (Option.map F) p q) : Corresponds f (List.map F) (many p) (many q) := by
  have hw : ∀ budget : List τ,
      Corresponds f (List.map F) (manyWithin p budget) (manyWithin q (budget.map f)) := by
    intro budget
    induction budget with
    | nil => exact fun _ => rfl
    | cons b budget ih =>
      intro ts
      rw [List.map_cons, manyWithin, manyWithin, h ts]
      cases hp : p ts with
      | failed e rest => rfl
      | done a rest =>
        cases a with
        | none => rfl
        | some a =>
          simp only [Outcome.map, Option.map_some, ih rest]
          cases manyWithin p budget rest <;> rfl
  exact fun ts => hw ts ts

end Corresponds

end TokenParser

variable {τ σ : Type} [HasKind τ] [HasKind σ] {f : τ → σ}

section

variable (hf : ∀ t, kind (f t) = kind t)

include hf

/-! ## Looking ahead -/

theorem kindAt_map (ts : List τ) (place : Nat) : kindAt (ts.map f) place = kindAt ts place := by
  unfold kindAt
  rw [List.getElem?_map]
  cases ts[place]? with
  | none => rfl
  | some t => exact hf t

theorem closerFrom_map (depth place : Nat) (ts : List τ) :
    closerFrom depth place (ts.map f) = closerFrom depth place ts := by
  induction ts generalizing depth place with
  | nil => rfl
  | cons t ts ih => simp only [List.map_cons, closerFrom, hf, ih]

theorem matchingCloser_map (ts : List τ) : matchingCloser (ts.map f) = matchingCloser ts := by
  cases ts with
  | nil => rfl
  | cons t ts => simp only [List.map_cons, matchingCloser, hf, closerFrom_map hf]

theorem bracketFollowedBy_map (k : TokenKind) (ts : List τ) :
    bracketFollowedBy k (ts.map f) = bracketFollowedBy k ts := by
  simp only [bracketFollowedBy, matchingCloser_map hf, kindAt_map hf]

theorem opensDefinition_map (ts : List τ) : opensDefinition (ts.map f) = opensDefinition ts := by
  induction ts using opensDefinition.induct with
  | case1 name mark ts ih => simp only [List.map_cons, opensDefinition, hf, ih]
  | case2 ts hts =>
    cases ts with
    | nil => rfl
    | cons name ts =>
      cases ts with
      | nil => rfl
      | cons mark ts => exact (hts name mark ts rfl).elim

theorem opensParameter_map (ts : List τ) : opensParameter (ts.map f) = opensParameter ts := by
  simp only [opensParameter, kindAt_map hf, opensDefinition_map hf]

theorem opensDeclaration_map (ts : List τ) :
    opensDeclaration (ts.map f) = opensDeclaration ts := by
  simp only [opensDeclaration, kindAt_map hf, opensDefinition_map hf]

theorem opensParameters_map (ts : List τ) : opensParameters (ts.map f) = opensParameters ts := by
  simp only [opensParameters, kindAt_map hf]

theorem startsLoop_map (ts : List τ) : startsLoop (ts.map f) = startsLoop ts := by
  simp only [startsLoop_eq_scan, kindAt_map hf, ← List.map_drop, bracketFollowedBy_map hf]

namespace Grammar

theorem constructorAhead?_map (rules : Rules) (ts : List τ) :
    constructorAhead? rules (ts.map f) = constructorAhead? rules ts := by
  simp only [constructorAhead?_eq_scan, matchingCloser_map hf, kindAt_map hf, ← List.map_drop,
    opensParameter_map hf]

theorem opensControl_map (rules : Rules) (ts : List τ) :
    opensControl rules (ts.map f) = opensControl rules ts := by
  simp only [opensControl, kindAt_map hf]

end Grammar

namespace TokenParser.Corresponds

variable {α β : Type} {F : α → β} {p : TokenParser τ α} {q : TokenParser σ β}

theorem peek : Corresponds f id (peek : TokenParser τ TokenKind) peek := by
  intro ts
  show Outcome.done (kindAt (ts.map f) 0) (ts.map f) = .done (kindAt ts 0) (ts.map f)
  rw [kindAt_map hf]

theorem eatAny (kinds : KindSet) : Corresponds f (Option.map f) (eatAny kinds) (eatAny kinds) := by
  intro ts
  cases ts with
  | nil => rfl
  | cons t ts =>
    simp only [List.map_cons, TokenParser.eatAny, hf]
    split <;> rfl

theorem eat (k : TokenKind) : Corresponds f (Option.map f) (eat k) (eat k) := by
  intro ts
  cases ts with
  | nil => rfl
  | cons t ts =>
    simp only [List.map_cons, TokenParser.eat, hf]
    split <;> rfl

theorem expect (k : TokenKind) : Corresponds f f (expect k) (expect k) := by
  intro ts
  cases ts with
  | nil => rfl
  | cons t ts =>
    simp only [List.map_cons, TokenParser.expect, hf]
    split <;> rfl

theorem unlessNext (h : Corresponds f F p q) (k : TokenKind) :
    Corresponds f (Option.map F) (unlessNext k p) (unlessNext k q) := by
  refine (peek hf).bind fun next => ?_
  simp only [id]
  split
  · exact value rfl
  · exact h.bind fun _ => value rfl

theorem behind (h : Corresponds f F p q) (k : TokenKind) :
    Corresponds f (Option.map F) (behind k p) (behind k q) := by
  refine (eat hf k).bind fun mark => ?_
  cases mark with
  | none => exact value rfl
  | some mark => exact h.bind fun _ => value rfl

theorem separatedBy (h : Corresponds f F p q) (separator : TokenKind) :
    Corresponds f (List.map F) (separatedBy separator p) (separatedBy separator q) :=
  h.bind fun _ => (h.behind hf separator).many.bind fun _ => value rfl

end TokenParser.Corresponds

end

namespace Grammar

/-- Two grammars have the same rules, and their nested phrases correspond. -/
structure Corresponds (f : τ → σ) (g : Grammar τ) (g' : Grammar σ) : Prop where
  /-- The rules are the same. -/
  rules : g'.rules = g.rules
  /-- The nested phrases correspond. -/
  phrase : ∀ p, TokenParser.Corresponds f (Tree.map f) (g.phrase p) (g'.phrase p)

end Grammar

namespace Grammar.Corresponds

variable {g : Grammar τ} {g' : Grammar σ} (hf : ∀ t, kind (f t) = kind t) (h : Corresponds f g g')

/-! ## Groups, parameters and types -/

section

include hf

theorem identifier : TokenParser.Corresponds f (Tree.map f) identifier identifier :=
  (TokenParser.Corresponds.expect hf _).bind fun _ => .value rfl

theorem identifiers : TokenParser.Corresponds f (Tree.map f) identifiers identifiers :=
  ((identifier hf).separatedBy hf _).bind fun ns => .value (Tree.map_joined f ns)

end

omit [HasKind τ] [HasKind σ] in
include h in
theorem type : TokenParser.Corresponds f (Tree.map f) g.type g'.type := by
  unfold Grammar.type
  rw [h.rules]
  cases g.rules.typeLevel with
  | operand => exact h.phrase _
  | implication => exact h.phrase _

include hf h

theorem plainType? :
    TokenParser.Corresponds f (Option.map (Tree.map f)) g.plainType? g'.plainType? := by
  refine (TokenParser.Corresponds.peek hf).bind fun next => ?_
  simp only [id]
  split
  · exact .value rfl
  · exact h.type.bind fun _ => .value rfl

theorem typing : TokenParser.Corresponds f (Option.map (Tree.map f)) g.typing g'.typing := by
  refine (TokenParser.Corresponds.eat hf _).bind fun colon => ?_
  cases colon with
  | some colon =>
    refine (plainType? hf h).bind fun type => (TokenParser.Corresponds.eat hf _).bind fun mark => ?_
    cases mark with
    | none => exact .value rfl
    | some mark => exact h.type.bind fun _ => .value (by simp [Tree.map])
  | none =>
    refine (TokenParser.Corresponds.eat hf _).bind fun mark => ?_
    cases mark with
    | none => exact .fail _ _
    | some mark => exact h.type.bind fun _ => .value (by simp [Tree.map])

theorem parameter : TokenParser.Corresponds f (Tree.map f) g.parameter g'.parameter :=
  ((identifiers hf).unlessNext hf _).bind fun _ => (typing hf h).bind fun _ =>
    ((h.phrase _).behind hf _).bind fun _ => .value (by simp [Tree.map])

theorem item : TokenParser.Corresponds f (Tree.map f) g.item g'.item := by
  refine TokenParser.Corresponds.ahead.bind fun ts => ?_
  rw [opensParameter_map hf]
  split
  · exact parameter hf h
  · exact h.phrase _

theorem items : TokenParser.Corresponds f (Tree.map f) g.items g'.items :=
  ((item hf h).separatedBy hf _).bind fun _ => .value (by simp [Tree.map])

theorem group : TokenParser.Corresponds f (Tree.map f) g.group g'.group :=
  ((items hf h).separatedBy hf _).bind fun ts => .value (Tree.map_joined f ts)

theorem enclosed (opening closing : TokenKind) :
    TokenParser.Corresponds f (Tree.map f) (g.enclosed opening closing)
      (g'.enclosed opening closing) :=
  (TokenParser.Corresponds.expect hf _).bind fun _ => ((group hf h).unlessNext hf _).bind fun _ =>
    (TokenParser.Corresponds.expect hf _).bind fun _ => .value (by simp [Tree.map])

/-! ## Blocks and type constructors -/

theorem statement? :
    TokenParser.Corresponds f (Option.map (Tree.map f)) g.statement? g'.statement? := by
  refine (TokenParser.Corresponds.peek hf).bind fun next => ?_
  simp only [id]
  split
  · exact .value rfl
  · exact .value rfl
  · exact (h.phrase _).bind fun _ => .value rfl

theorem block : TokenParser.Corresponds f (Tree.map f) g.block g'.block :=
  (TokenParser.Corresponds.expect hf _).bind fun _ => (statement? hf h).many.bind fun ts =>
    (TokenParser.Corresponds.expect hf _).bind fun _ =>
      .value (by simp [Tree.map, Tree.map_sequence?])

theorem specifier (sort : ConstructorSort) :
    TokenParser.Corresponds f (Tree.map f) (g.specifier sort) (g'.specifier sort) := by
  cases sort <;> exact enclosed hf h _ _

omit [HasKind τ] [HasKind σ] hf h in
theorem build (sort : ConstructorSort) (mark : Option τ) (s r : Tree τ) :
    (sort.build mark s r).map f = sort.build (mark.map f) (s.map f) (r.map f) := by
  cases sort <;> rfl

theorem lookaheadConstructor :
    TokenParser.Corresponds f (Option.map (Tree.map f)) g.lookaheadConstructor
      g'.lookaheadConstructor := by
  refine TokenParser.Corresponds.ahead.bind fun ts => ?_
  rw [h.rules, constructorAhead?_map hf]
  cases constructorAhead? g.rules ts with
  | none => exact .value rfl
  | some form =>
    refine (specifier hf h _).bind fun s => ?_
    have hmark : TokenParser.Corresponds f (Option.map f) (mark? form.marked)
        (mark? form.marked) := by
      unfold mark?
      cases form.marked with
      | false => exact .value rfl
      | true => exact .next?
    exact hmark.bind fun _ => (h.phrase _).bind fun _ => .value (congrArg some (build ..))

theorem introducedConstructor (word : TokenKind) (sort : ConstructorSort) :
    TokenParser.Corresponds f (Option.map (Tree.map f)) (g.introducedConstructor word sort)
      (g'.introducedConstructor word sort) :=
  (TokenParser.Corresponds.expect hf _).bind fun _ => (specifier hf h _).bind fun _ =>
    (h.phrase _).bind fun _ => .value (congrArg some (build ..))

theorem keywordConstructor :
    TokenParser.Corresponds f (Option.map (Tree.map f)) g.keywordConstructor
      g'.keywordConstructor := by
  refine (TokenParser.Corresponds.peek hf).bind fun next => ?_
  simp only [id]
  split
  · exact introducedConstructor hf h _ _
  · exact introducedConstructor hf h _ _
  · exact introducedConstructor hf h _ _
  · exact .value rfl

theorem arrowConstructor :
    TokenParser.Corresponds f (Option.map (Tree.map f)) g.arrowConstructor
      g'.arrowConstructor := by
  rw [arrowConstructor_eq_scan, arrowConstructor_eq_scan]
  refine (TokenParser.Corresponds.peek hf).bind fun next => ?_
  simp only [id]
  split
  · refine (enclosed hf h _ _).bind fun _ => (TokenParser.Corresponds.eat hf _).bind fun mark =>
      (h.phrase _).bind fun _ => ?_
    cases mark <;> exact .value rfl
  · refine TokenParser.Corresponds.ahead.bind fun ts => ?_
    rw [bracketFollowedBy_map hf]
    split
    · exact (enclosed hf h _ _).bind fun _ => (TokenParser.Corresponds.expect hf _).bind fun _ =>
        (h.phrase _).bind fun _ => .value rfl
    · exact .value rfl
  · exact .value rfl

theorem parameterConstructor :
    TokenParser.Corresponds f (Option.map (Tree.map f)) g.parameterConstructor
      g'.parameterConstructor := by
  refine (TokenParser.Corresponds.peek hf).bind fun next => ?_
  simp only [id]
  split
  · exact (enclosed hf h _ _).bind fun _ => (h.phrase _).bind fun _ => .value rfl
  · refine TokenParser.Corresponds.ahead.bind fun ts => ?_
    rw [opensParameters_map hf]
    split
    · exact (enclosed hf h _ _).bind fun _ => (h.phrase _).bind fun _ => .value rfl
    · exact .value rfl
  · exact .value rfl

theorem constructor? :
    TokenParser.Corresponds f (Option.map (Tree.map f)) g.constructor? g'.constructor? := by
  unfold Grammar.constructor?
  rw [h.rules]
  cases g.rules.constructors with
  | lookahead => exact lookaheadConstructor hf h
  | keyword => exact keywordConstructor hf h
  | arrow => exact arrowConstructor hf h
  | parameter => exact parameterConstructor hf h
  | absent => exact .value rfl

/-! ## Operands and layers of operators -/

theorem primary : TokenParser.Corresponds f (Tree.map f) g.primary g'.primary := by
  unfold Grammar.primary
  rw [h.rules]
  refine (TokenParser.Corresponds.eatAny hf _).bind fun literal => ?_
  cases literal with
  | some literal => exact .value rfl
  | none =>
    refine (TokenParser.Corresponds.eat hf _).bind fun name => ?_
    cases name with
    | some name => exact .value rfl
    | none =>
      refine (TokenParser.Corresponds.peek hf).bind fun next => ?_
      simp only [id]
      split
      · exact enclosed hf h _ _
      · exact enclosed hf h _ _
      · exact .fail _ _

theorem suffix? :
    TokenParser.Corresponds f (Option.map (Suffix.map f)) g.suffix? g'.suffix? := by
  unfold Grammar.suffix?
  rw [h.rules]
  refine (TokenParser.Corresponds.peek hf).bind fun next => ?_
  simp only [id]
  split
  · exact (enclosed hf h _ _).bind fun _ => .value rfl
  · exact (enclosed hf h _ _).bind fun _ => .value rfl
  · refine (TokenParser.Corresponds.eat hf _).bind fun dot => ?_
    cases dot with
    | some dot => exact (identifier hf).bind fun _ => .value rfl
    | none =>
      simp only [Option.map_none]
      split
      · exact (TokenParser.Corresponds.eat hf _).bind fun o => .value (by cases o <;> rfl)
      · exact .value rfl

theorem suffixed : TokenParser.Corresponds f (Tree.map f) g.suffixed g'.suffixed :=
  (primary hf h).bind fun v => (suffix? hf h).many.bind fun ss =>
    .value (Suffix.map_foldl_attach f ss v)

theorem operand : TokenParser.Corresponds f (Tree.map f) g.operand g'.operand := by
  unfold Grammar.operand
  rw [h.rules]
  refine (TokenParser.Corresponds.eatAny hf _).bind fun operator => ?_
  cases operator with
  | some operator => exact (h.phrase _).bind fun _ => .value rfl
  | none =>
    refine (constructor? hf h).bind fun constructor => ?_
    cases constructor with
    | some constructor => exact .value rfl
    | none => exact suffixed hf h

omit h in
theorem leftAssociative (operators : KindSet) {p : TokenParser τ (Tree τ)}
    {q : TokenParser σ (Tree σ)} (hp : TokenParser.Corresponds f (Tree.map f) p q) :
    TokenParser.Corresponds f (Tree.map f) (leftAssociative operators p)
      (leftAssociative operators q) := by
  have ho : TokenParser.Corresponds f (Option.map (Prod.map f (Tree.map f)))
      (operation? operators p) (operation? operators q) := by
    refine (TokenParser.Corresponds.eatAny hf _).bind fun operator => ?_
    cases operator with
    | none => exact .value rfl
    | some operator => exact hp.bind fun _ => .value rfl
  refine hp.bind fun first => ho.many.bind fun others => .value ?_
  induction others generalizing first with
  | nil => rfl
  | cons o others ih => exact ih _

theorem disjunction : TokenParser.Corresponds f (Tree.map f) g.disjunction g'.disjunction :=
  leftAssociative hf _ <| leftAssociative hf _ <| leftAssociative hf _ <|
    leftAssociative hf _ <| leftAssociative hf _ <| leftAssociative hf _ <| operand hf h

theorem implication : TokenParser.Corresponds f (Tree.map f) g.implication g'.implication := by
  unfold Grammar.implication
  rw [h.rules]
  refine (disjunction hf h).bind fun left => (TokenParser.Corresponds.eatAny hf _).bind fun o => ?_
  cases o with
  | none => exact .value rfl
  | some o => exact (h.phrase _).bind fun _ => .value rfl

theorem assignment : TokenParser.Corresponds f (Tree.map f) g.assignment g'.assignment := by
  refine (implication hf h).bind fun left => (TokenParser.Corresponds.eat hf _).bind fun o => ?_
  cases o with
  | none => exact .value rfl
  | some o => exact (h.phrase _).bind fun _ => .value rfl

/-! ## Control constructs -/

theorem alternative : TokenParser.Corresponds f (Tree.map f) g.alternative g'.alternative := by
  refine (TokenParser.Corresponds.peek hf).bind fun next => ?_
  simp only [id]
  split
  · exact h.phrase _
  · exact block hf h

theorem conditional : TokenParser.Corresponds f (Tree.map f) g.conditional g'.conditional := by
  refine (TokenParser.Corresponds.expect hf _).bind fun keyword =>
    (enclosed hf h _ _).bind fun condition => (block hf h).bind fun consequence =>
    (TokenParser.Corresponds.eat hf _).bind fun mark => ?_
  cases mark with
  | none => exact .value rfl
  | some mark => exact (alternative hf h).bind fun _ => .value rfl

theorem branch : TokenParser.Corresponds f (Tree.map f) g.branch g'.branch :=
  (disjunction hf h).bind fun _ => (TokenParser.Corresponds.expect hf _).bind fun _ =>
    (block hf h).bind fun _ => .value rfl

theorem caseDistinction :
    TokenParser.Corresponds f (Tree.map f) g.caseDistinction g'.caseDistinction :=
  (TokenParser.Corresponds.expect hf _).bind fun _ => (enclosed hf h _ _).bind fun _ =>
    ((branch hf h).separatedBy hf _).bind fun _ => .value (by simp [Tree.map])

theorem loop (word : TokenKind) :
    TokenParser.Corresponds f (Tree.map f) (g.loop word) (g'.loop word) :=
  (TokenParser.Corresponds.expect hf _).bind fun _ => (enclosed hf h _ _).bind fun _ =>
    (block hf h).bind fun _ => .value rfl

theorem repetition? :
    TokenParser.Corresponds f (Option.map (Tree.map f)) g.repetition? g'.repetition? := by
  refine (TokenParser.Corresponds.peek hf).bind fun next =>
    TokenParser.Corresponds.ahead.bind fun ts => ?_
  simp only [id, startsLoop_map hf]
  split
  · exact (TokenParser.Corresponds.expect hf _).bind fun _ =>
      (enclosed hf h _ _).bind fun _ => .value rfl
  · exact .value rfl

theorem doBlock : TokenParser.Corresponds f (Tree.map f) g.doBlock g'.doBlock :=
  (TokenParser.Corresponds.expect hf _).bind fun _ => (block hf h).bind fun _ =>
    (repetition? hf h).bind fun _ => .value (by simp [Tree.map])

theorem functionHead : TokenParser.Corresponds f (Tree.map f) g.functionHead g'.functionHead := by
  refine (TokenParser.Corresponds.peek hf).bind fun next => ?_
  simp only [id]
  split
  · exact (enclosed hf h _ _).bind fun _ => (enclosed hf h _ _).bind fun _ => .value rfl
  · exact enclosed hf h _ _

theorem functionValue :
    TokenParser.Corresponds f (Tree.map f) g.functionValue g'.functionValue :=
  (TokenParser.Corresponds.expect hf _).bind fun _ => (functionHead hf h).bind fun _ =>
    (block hf h).bind fun _ => .value rfl

theorem scope : TokenParser.Corresponds f (Tree.map f) g.scope g'.scope := by
  refine (TokenParser.Corresponds.peek hf).bind fun next => ?_
  simp only [id]
  split
  · exact block hf h
  · exact h.phrase _

theorem localBinding : TokenParser.Corresponds f (Tree.map f) g.localBinding g'.localBinding :=
  (TokenParser.Corresponds.expect hf _).bind fun _ => (enclosed hf h _ _).bind fun _ =>
    (scope hf h).bind fun _ => .value rfl

theorem control : TokenParser.Corresponds f (Tree.map f) g.control g'.control := by
  refine (TokenParser.Corresponds.peek hf).bind fun next => ?_
  simp only [id]
  split
  · exact conditional hf h
  · exact caseDistinction hf h
  · exact loop hf h _
  · exact loop hf h _
  · exact doBlock hf h
  · exact functionValue hf h
  · exact localBinding hf h
  · exact .fail _ _

/-! ## Expressions, definitions and statements -/

theorem expression : TokenParser.Corresponds f (Tree.map f) g.expression g'.expression := by
  refine TokenParser.Corresponds.ahead.bind fun ts => ?_
  rw [h.rules, opensControl_map hf]
  split
  · exact control hf h
  · exact assignment hf h

theorem declarators (introduced : Bool) :
    TokenParser.Corresponds f (Tree.map f) (g.declarators introduced)
      (g'.declarators introduced) := by
  cases introduced with
  | false => exact identifiers hf
  | true => exact ((suffixed hf h).separatedBy hf _).bind fun ts => .value (Tree.map_joined f ts)

theorem definiens :
    TokenParser.Corresponds f (Prod.map (Tree.map f) (Option.map f)) g.definiens g'.definiens := by
  refine (TokenParser.Corresponds.peek hf).bind fun next => ?_
  simp only [id]
  split
  · exact (block hf h).bind fun _ => .value rfl
  · exact (TokenParser.Corresponds.expect hf _).bind fun _ => (h.phrase _).bind fun _ =>
      (TokenParser.Corresponds.expect hf _).bind fun _ => .value rfl

theorem definition : TokenParser.Corresponds f (Tree.map f) g.definition g'.definition := by
  refine (TokenParser.Corresponds.eat hf _).bind fun introducer => ?_
  rw [Option.isSome_map]
  refine (declarators hf h _).bind fun declarator => (typing hf h).bind fun type => ?_
  rw [Option.isSome_map]
  have ht : TokenParser.Corresponds f (Option.map f) (terminator? type.isSome)
      (terminator? type.isSome) := by
    cases type with
    | none => exact .value rfl
    | some type => exact .eat hf _
  refine ht.bind fun terminator => ?_
  cases terminator with
  | some terminator => exact .value (by simp [Tree.map])
  | none => exact (definiens hf h).bind fun _ => .value (by simp [Tree.map])

theorem declaration : TokenParser.Corresponds f (Tree.map f) g.declaration g'.declaration := by
  refine TokenParser.Corresponds.ahead.bind fun ts => ?_
  rw [opensDeclaration_map hf]
  split
  · exact definition hf h
  · exact .fail _ _

theorem statement : TokenParser.Corresponds f (Tree.map f) g.statement g'.statement := by
  refine TokenParser.Corresponds.ahead.bind fun ts => ?_
  rw [h.rules, opensDeclaration_map hf, opensControl_map hf]
  split
  · exact definition hf h
  · split
    · exact (control hf h).bind fun _ => (TokenParser.Corresponds.eat hf _).bind fun _ =>
        .value rfl
    · exact (expression hf h).bind fun _ => (TokenParser.Corresponds.expect hf _).bind fun _ =>
        .value rfl

/-! ## All phrases -/

theorem body (p : Phrase) : TokenParser.Corresponds f (Tree.map f) (g.body p) (g'.body p) := by
  cases p with
  | operand => exact operand hf h
  | implication => exact implication hf h
  | assignment => exact assignment hf h
  | expression => exact expression hf h
  | statement => exact statement hf h
  | conditional => exact conditional hf h

theorem file : TokenParser.Corresponds f (Tree.map f) g.file g'.file :=
  ((declaration hf h).unlessNext hf _).many.bind fun ts =>
    .value (by simp [Tree.map, Tree.map_sequence?])

end Grammar.Corresponds

section

variable (hf : ∀ t, kind (f t) = kind t)

include hf

/-- Phrases of the same depth correspond. -/
theorem Grammar.corresponds_nested (rules : Rules) (depth : Nat) (p : Phrase) :
    TokenParser.Corresponds f (Tree.map f) (nested rules depth p) (nested rules depth p) := by
  induction depth generalizing p with
  | zero => exact .fail _ _
  | succ depth ih =>
    have hg : Corresponds f ⟨rules, nested rules depth⟩ ⟨rules, nested rules depth⟩ := ⟨rfl, ih⟩
    exact hg.body hf p

/-- The grammar of a dialect corresponds to itself. -/
theorem Grammar.corresponds_ofRules (rules : Rules) :
    Corresponds f (ofRules rules) (ofRules rules) where
  rules := rfl
  phrase p ts := by
    show nested rules ((ts.map f).length + 1) p (ts.map f) = _
    rw [List.length_map]
    exact corresponds_nested hf rules _ p ts

/-- The parser reads tokens of the same kinds in the same way. -/
theorem parseTokens_map (dialect : Dialect) (ts : List τ) :
    parseTokens dialect (ts.map f) = (parseTokens dialect ts).map f (Tree.map f) :=
  (Grammar.corresponds_ofRules hf dialect.rules).file hf ts

end

end ConcreteSyntax
