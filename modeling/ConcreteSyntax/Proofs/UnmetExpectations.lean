import ConcreteSyntax.Proofs.TreeRanges
import ConcreteSyntax.Proofs.ViableTexts

/-!
# Unmet expectations

Which expectations a file can leave unmet, and where. The tokens ahead decide about most branches of
the grammar before a token is required, so many requirements cannot fail: the reserved word of a
control construct is there, and so are the names that begin a definition and the arrow behind
parameters. The others fail in certain dialects or behind certain tokens only.

A parser is confined at some tokens if it fails there only with such an expectation. One lemma per
combinator and per nonterminal follows the grammar. A declaration is missed at the level of the
file alone, behind the declarations before it.
-/

namespace ConcreteSyntax

open TokenParser Grammar

section

variable {τ : Type} [HasKind τ] {d : Dialect}

/-- Whether a file of a dialect can leave an expectation unmet, where `read` are the tokens in front
of the place and `rest` those from it on. -/
def Expectation.MayFail (d : Dialect) (read rest : List τ) : Expectation → Prop
  | .construct .declaration =>
    read = [] ∨
      ∃ front last, read = front ++ [last] ∧ (kind last = .semicolon ∨ kind last = .rightBrace)
  | .construct .primaryExpression => True
  | .construct .controlExpression => False
  | .token .ident => ∃ front dot, read = front ++ [dot] ∧ kind dot = .dot
  | .token .colon =>
    ∃ front word declared ds, read = front ++ word :: declared ∧ kind word = .defKw ∧
      Reading d.rules (.separated .value) (declared ++ rest) ds rest
  | .token .eq | .token .semicolon | .token .rightParen | .token .rightBracket => True
  | .token .fatArrow | .token .leftBrace => d = .standard
  | .token .leftBracket => d = .keyword
  | .token .leftParen => d = .standard ∨ d = .keyword
  | .token .rightBrace => kindAt rest 0 = .eof
  | .token _ => False

namespace Expectation.MayFail

variable {e : Expectation} {read rest : List τ}

/-- Other tokens in front make no difference, except where a declaration is missed. -/
theorem append_left (h : e.MayFail d read rest) (he : e ≠ .construct .declaration)
    (front : List τ) : e.MayFail d (front ++ read) rest := by
  cases e with
  | construct what => cases what <;> first | exact absurd rfl he | exact h
  | token k =>
    cases k
    case ident =>
      obtain ⟨front', dot, rfl, hdot⟩ := h
      exact ⟨front ++ front', dot, (List.append_assoc ..).symm, hdot⟩
    case colon =>
      obtain ⟨front', word, declared, ds, rfl, hword, hds⟩ := h
      exact ⟨front ++ front', word, declared, ds, (List.append_assoc ..).symm, hword, hds⟩
    all_goals exact h

/-- Behind a whole declaration the same may be missed as at the beginning of a file. -/
theorem append_closed (h : e.MayFail d read rest) (front : List τ) {last : τ}
    (hlast : kind last = .semicolon ∨ kind last = .rightBrace) :
    e.MayFail d (front ++ last :: read) rest := by
  by_cases he : e = .construct .declaration
  · subst he
    rcases h with rfl | ⟨front', last', rfl, hlast'⟩
    · exact .inr ⟨front, last, rfl, hlast⟩
    · exact .inr ⟨front ++ last :: front', last', by simp, hlast'⟩
  · have := h.append_left he (front ++ [last])
    rwa [List.append_assoc] at this

end Expectation.MayFail

/-- That an expectation is unmet inside a declaration, at the front of `rest`, in a way that the
dialect allows. The tokens from `ts` on have been read before. -/
def Misses (d : Dialect) (ts : List τ) (e : Failure τ) (rest : List τ) : Prop :=
  e.expected ≠ .construct .declaration ∧ ∃ read, ts = read ++ rest ∧ e.expected.MayFail d read rest

theorem Misses.of_suffix {ts mid rest : List τ} {e : Failure τ} (h : Misses d mid e rest)
    (hs : mid <:+ ts) : Misses d ts e rest := by
  obtain ⟨front, rfl⟩ := hs
  obtain ⟨he, read, rfl, hread⟩ := h
  exact ⟨he, front ++ read, (List.append_assoc ..).symm, hread.append_left he front⟩

/-- Statements end at a closing brace or at the end of the text. -/
theorem Reading.kindAt_behind_of_statements {rules : Rules} {ts rest : List τ} {ss : List (Tree τ)}
    (h : Reading rules .statements ts ss rest) :
    kindAt rest 0 = .rightBrace ∨ kindAt rest 0 = .eof := by
  induction ss generalizing ts with
  | nil =>
    cases h with
    | noStatements hn => exact hn
  | cons s ss ih =>
    cases h with
    | statements _ _ _ ho => exact ih ho

/-! ## Combinators -/

namespace TokenParser

variable {α β : Type} {p : TokenParser τ α} {ts : List τ}

/-- That a parser fails on some tokens only in a way that the dialect allows. -/
def Confined (d : Dialect) (p : TokenParser τ α) (ts : List τ) : Prop :=
  ∀ ⦃e rest⦄, p ts = .failed e rest → Misses d ts e rest

omit [HasKind τ] in
/-- What a parser leaves on success is the end of what it was given. -/
theorem Trims.suffix (hp : p.Trims) {mid : List τ} {a : α} (h : p ts = .done a mid) :
    mid <:+ ts := by
  have hs := hp ts
  rwa [h] at hs

theorem confined_pure (a : α) (ts : List τ) : Confined d (pure a) ts :=
  fun _ _ h => absurd h pure_ne_failed

theorem confined_eat (k : TokenKind) (ts : List τ) : Confined d (eat k) ts :=
  fun _ _ h => absurd h eat_ne_failed

theorem confined_eatAny (kinds : KindSet) (ts : List τ) : Confined d (eatAny kinds) ts :=
  fun _ _ h => absurd h eatAny_ne_failed

/-- A required token is there or may be missed. -/
theorem confined_expect {k : TokenKind} (hk : k ≠ .eof)
    (h : kindAt ts 0 ≠ k → (Expectation.token k).MayFail d [] ts) : Confined d (expect k) ts := by
  intro e rest hfailed
  obtain ⟨rfl, -⟩ := failure_of_expect hfailed
  obtain ⟨rfl, hne⟩ := expect_eq_failed hfailed hk
  exact ⟨nofun, [], rfl, h hne⟩

/-- A sequence is confined if its second part is confined behind the first one. -/
theorem Confined.bind {f : α → TokenParser τ β} (hp : Confined d p ts) (ht : p.Trims)
    (hf : ∀ {a mid}, p ts = .done a mid → Confined d (f a) mid) : Confined d (p >>= f) ts := by
  intro e rest h
  rcases bind_eq_failed h with h | ⟨a, mid, ha, h⟩
  · exact hp h
  · exact (hf ha h).of_suffix (ht.suffix ha)

/-- A required token that is there is not missed, so what follows it decides. -/
theorem confined_expect_bind {k : TokenKind} {f : τ → TokenParser τ β} (hk : kindAt ts 0 = k)
    (hne : k ≠ .eof) (hf : ∀ t mid, Confined d (f t) mid) : Confined d (expect k >>= f) ts :=
  (confined_expect hne fun h => absurd hk h).bind (consumes_expect k).trims fun _ => hf _ _

/-- Looking at the tokens ahead reads none of them. -/
theorem confined_ahead {f : List τ → TokenParser τ β} (hf : Confined d (f ts) ts) :
    Confined d (ahead >>= f) ts := hf

/-- Looking at the next kind reads no token. -/
theorem confined_peek {f : TokenKind → TokenParser τ β} (hf : Confined d (f (kindAt ts 0)) ts) :
    Confined d (peek >>= f) ts := hf

theorem Confined.map (hp : Confined d p ts) (f : α → β) :
    Confined d (do return f (← p) : TokenParser τ β) ts :=
  fun _ _ h => hp (map_eq_failed h)

theorem Confined.unlessNext {k : TokenKind} (hp : kindAt ts 0 ≠ k → Confined d p ts) :
    Confined d (unlessNext k p) ts := by
  intro e rest h
  obtain ⟨hk, h⟩ := unlessNext_eq_failed h
  exact hp hk h

theorem Confined.behind {k : TokenKind} (hp : ∀ ts, Confined d p ts) :
    Confined d (behind k p) ts := by
  intro e rest h
  obtain ⟨t, mid, rfl, -, h⟩ := behind_eq_failed h
  exact (hp mid h).of_suffix (List.suffix_cons t mid)

/-- A repetition is confined if its turns are. The induction is on the number of tokens. -/
theorem confined_many {p : TokenParser τ (Option α)} (hp : p.Repeats)
    (hconfined : ∀ ts, Confined d p ts) (ts : List τ) : Confined d (many p) ts := by
  intro e rest h
  induction hn : ts.length using Nat.strongRecOn generalizing ts with
  | ind n ih =>
    rcases hp.many_eq_failed h with h | ⟨a, mid, ha, h⟩
    · exact hconfined ts h
    · have hshort := hp.advances.shorter ha
      exact (ih mid.length (hn ▸ hshort) mid h rfl).of_suffix (hp.advances.trims.suffix ha)

theorem confined_separatedBy (k : TokenKind) (hp : p.Trims) (hconfined : ∀ ts, Confined d p ts)
    (ts : List τ) : Confined d (separatedBy k p) ts :=
  (hconfined ts).bind hp fun _ => .bind (confined_many (hp.repeats_behind k)
    (fun _ => .behind hconfined) _) (hp.behind k).trims.many fun _ => confined_pure _ _

end TokenParser

/-! ## Names, types and parameters -/

namespace Grammar

/-- Names that begin a definition are read, up to its typing. -/
theorem exists_identifiers {ts : List τ} (h : opensDefinition ts = true) :
    ∃ names mid, identifiers ts = .done names mid ∧
      (kindAt mid 0 = .colon ∨ kindAt mid 0 = .isKw) := by
  have htrims : (identifier : TokenParser τ (Tree τ)).Trims := consumes_identifier.trims
  have hname : ∀ {n : τ} (us : List τ), kind n = .ident →
      identifier (n :: us) = .done (.identifier n) us := fun us hn =>
    bind_eq_done.2 ⟨_, us, expect_eq_done.2 ⟨rfl, hn⟩, rfl⟩
  suffices hnames : ∃ names mid, separatedBy .comma identifier ts = .done names mid ∧
      (kindAt mid 0 = .colon ∨ kindAt mid 0 = .isKw) by
    obtain ⟨names, mid, hdone, hk⟩ := hnames
    exact ⟨_, mid, bind_eq_done.2 ⟨names, mid, hdone, rfl⟩, hk⟩
  have hlast : ∀ {n m : τ} {us : List τ}, kind n = .ident → (kind m = .colon ∨ kind m = .isKw) →
      ∃ names mid, separatedBy .comma identifier (n :: m :: us) = .done names mid ∧
        (kindAt mid 0 = .colon ∨ kindAt mid 0 = .isKw) := by
    intro n m us hn hm
    refine ⟨_, m :: us, (separatedBy_eq_singleton (by decide) htrims).2 ⟨hname _ hn, ?_⟩, hm⟩
    rcases hm with hm | hm <;> (rw [kindAt_cons_zero, hm]; decide)
  induction ts using opensDefinition.induct with
  | case1 n m us ih =>
    rw [opensDefinition_cons, Bool.and_eq_true, beq_iff_eq] at h
    obtain ⟨hn, hm⟩ := h
    unfold marksNames at hm
    split at hm
    · rename_i hcomma
      obtain ⟨names, mid, hdone, hk⟩ := ih hm
      cases names with
      | nil => exact absurd hdone separatedBy_ne_nil
      | cons b bs =>
        exact ⟨_, mid, (separatedBy_eq_cons htrims).2 ⟨m, us, hname _ hn, hcomma, hdone⟩, hk⟩
    · exact hlast hn (.inl ‹_›)
    · exact hlast hn (.inr ‹_›)
    · contradiction
  | case2 ts hne => simp [opensDefinition] at h

/-- That the nested phrases of a grammar of a dialect take tokens, have readings and are confined.
A choice is only called for in a dialect that has them, at its reserved word. -/
structure IsConfined (g : Grammar τ) (d : Dialect) : Prop where
  /-- The rules are those of the dialect. -/
  rules : g.rules = d.rules
  /-- Phrases take tokens from the front. -/
  consumes : ∀ p, (g.phrase p).Consumes
  /-- The results of phrases have readings. -/
  reads : ∀ p, Reads g.rules (.phrase p) (g.phrase p)
  /-- Phrases fail only as the dialect allows. -/
  confined : ∀ p ts, (p = .conditional → d = .standard ∧ kindAt ts 0 = .ifKw) →
    Confined d (g.phrase p) ts

variable {g : Grammar τ} (hg : g.IsConfined d)

include hg

theorem IsConfined.proper : g.rules.Proper := hg.rules ▸ d.proper_rules

/-- All nested phrases but choices are confined wherever they are called. -/
theorem IsConfined.phrase (p : Phrase) (hp : p ≠ .conditional) (ts : List τ) :
    Confined d (g.phrase p) ts :=
  hg.confined p ts fun h => absurd h hp

theorem confined_type (ts : List τ) : Confined d g.type ts := by
  unfold Grammar.type
  split
  · exact hg.phrase .operand nofun ts
  · exact hg.phrase .implication nofun ts

theorem confined_plainType? (ts : List τ) : Confined d g.plainType? ts := by
  refine confined_peek ?_
  split
  · exact confined_pure _ ts
  · exact (confined_type hg ts).map some

/-- Typing that begins with its colon or with a constraint is confined. -/
theorem confined_typing {ts : List τ} (h : kindAt ts 0 = .colon ∨ kindAt ts 0 = .isKw) :
    Confined d g.typing ts := by
  refine (confined_eat _ ts).bind (advances_eat _).trims fun {colon mid} hcolon => ?_
  cases colon with
  | some c =>
    refine (confined_plainType? hg mid).bind (trims_plainType? hg.consumes) fun {type mid'} _ => ?_
    refine (confined_eat _ mid').bind (advances_eat _).trims fun {mark mid''} _ => ?_
    cases mark with
    | some m => exact (confined_type hg mid'').map _
    | none => exact confined_pure _ _
  | none =>
    obtain ⟨rfl, hne⟩ := (eat_eq_none (by decide)).1 hcolon
    refine (confined_eat _ mid).bind (advances_eat _).trims fun {mark mid'} hmark => ?_
    cases mark with
    | some m => exact (confined_type hg mid').map _
    | none => exact absurd (h.resolve_left hne) ((eat_eq_none (by decide)).1 hmark).2

omit hg in
/-- Typing that begins otherwise is missed at once. -/
theorem typing_eq_failed {ts : List τ} (hcolon : kindAt ts 0 ≠ .colon) (his : kindAt ts 0 ≠ .isKw) :
    g.typing ts = .failed ⟨.token .colon, ts.head?⟩ ts := by
  simp only [Grammar.typing, bind_apply, (eat_eq_none (k := .colon) (by decide)).2 ⟨rfl, hcolon⟩,
    (eat_eq_none (k := .isKw) (by decide)).2 ⟨rfl, his⟩]
  rfl

theorem confined_parameter {ts : List τ} (h : opensParameter ts = true) :
    Confined d g.parameter ts := by
  have hnames : kindAt ts 0 ≠ .colon → ∃ names mid, identifiers ts = .done names mid ∧
      (kindAt mid 0 = .colon ∨ kindAt mid 0 = .isKw) := fun hne =>
    exists_identifiers ((Bool.or_eq_true_iff.1 h).resolve_left (mt beq_iff_eq.1 hne))
  refine .bind (.unlessNext fun hne => ?_) (consumes_identifiers.unlessNext _).trims
    fun {names mid} hdone => ?_
  · obtain ⟨names, mid, hdone, -⟩ := hnames hne
    intro e rest hfailed
    rw [hdone] at hfailed
    contradiction
  have htyping : kindAt mid 0 = .colon ∨ kindAt mid 0 = .isKw := by
    cases names with
    | none =>
      obtain ⟨rfl, hcolon⟩ := unlessNext_eq_none.1 hdone
      exact .inl hcolon
    | some t =>
      obtain ⟨hne, ht⟩ := unlessNext_eq_some.1 hdone
      obtain ⟨names, mid', hdone', hk⟩ := hnames hne
      rw [hdone'] at ht
      cases ht
      exact hk
  refine (confined_typing hg htyping).bind (consumes_typing hg.consumes).trims fun _ => ?_
  exact .bind (.behind (hg.phrase .expression nofun)) ((hg.consumes _).trims.behind _).trims
    fun _ => confined_pure _ _

/-! ## Groups and blocks -/

theorem confined_item (ts : List τ) : Confined d g.item ts := by
  refine confined_ahead ?_
  split
  · exact confined_parameter hg ‹_›
  · exact hg.phrase .expression nofun ts

theorem confined_items (ts : List τ) : Confined d g.items ts :=
  (confined_separatedBy _ (consumes_item hg.consumes).trims (confined_item hg) ts).map _

theorem confined_group (ts : List τ) : Confined d g.group ts :=
  (confined_separatedBy _ (consumes_items hg.consumes).trims (confined_items hg) ts).map _

/-- A group is confined where its opening delimiter may be missed or comes next. -/
theorem confined_enclosed {opening closing : TokenKind} (hdel : IsGroupDelimiters opening closing)
    {ts : List τ} (h : kindAt ts 0 ≠ opening → (Expectation.token opening).MayFail d [] ts) :
    Confined d (g.enclosed opening closing) ts := by
  have hopening : opening ≠ .eof := by rcases hdel with ⟨rfl, -⟩ | ⟨rfl, -⟩ <;> decide
  have hclosing : closing ≠ .eof := by rcases hdel with ⟨-, rfl⟩ | ⟨-, rfl⟩ <;> decide
  have hclose : ∀ rest : List τ, (Expectation.token closing).MayFail d [] rest := by
    rcases hdel with ⟨-, rfl⟩ | ⟨-, rfl⟩ <;> exact fun _ => trivial
  refine (confined_expect hopening h).bind (consumes_expect _).trims fun _ => ?_
  refine .bind (.unlessNext fun _ => confined_group hg _)
    ((consumes_group hg.consumes).unlessNext _).trims fun _ => ?_
  exact (confined_expect hclosing fun _ => hclose _).map _

theorem confined_paren {ts : List τ}
    (h : kindAt ts 0 ≠ .leftParen → d = .standard ∨ d = .keyword) : Confined d g.paren ts :=
  confined_enclosed hg isGroupDelimiters_paren h

theorem confined_bracket {ts : List τ} (h : kindAt ts 0 ≠ .leftBracket → d = .keyword) :
    Confined d g.bracket ts :=
  confined_enclosed hg isGroupDelimiters_bracket h

theorem confined_statement? (ts : List τ) : Confined d g.statement? ts := by
  refine confined_peek ?_
  split
  · exact confined_pure _ ts
  · exact confined_pure _ ts
  · exact (hg.phrase .statement nofun ts).map _

/-- A block lacks its closing brace only at the end of the text. -/
theorem confined_block {ts : List τ} (h : kindAt ts 0 ≠ .leftBrace → d = .standard) :
    Confined d g.block ts := by
  have hstatements := repeats_statement? hg.consumes
  refine (confined_expect (by decide) h).bind (consumes_expect _).trims fun _ => ?_
  refine (confined_many hstatements (confined_statement? hg) _).bind
    hstatements.advances.trims.many fun {ss mid} hss => ?_
  refine (confined_expect (by decide) fun hne => ?_).map _
  exact (reads_statements hg.consumes hg.reads hss).kindAt_behind_of_statements.resolve_left hne

/-! ## Constructors and operands -/

/-- A specifier is confined where its opening delimiter comes next, and everywhere in the dialect of
reserved words. -/
theorem confined_specifier {sort : ConstructorSort} {ts : List τ}
    (h : kindAt ts 0 ≠ sort.opening → d = .keyword) : Confined d (g.specifier sort) ts := by
  cases sort with
  | function => exact confined_paren hg fun hne => .inr (h hne)
  | array => exact confined_bracket hg h
  | template => exact confined_bracket hg h

omit hg in
/-- A constructor that is recognised by looking ahead begins with the delimiter of its
specifier. -/
theorem kindAt_of_constructorAhead? {rules : Rules} {ts : List τ} {form : ConstructorForm}
    (h : constructorAhead? rules ts = some form) : kindAt ts 0 = form.sort.opening := by
  rw [constructorAhead?_eq_scan] at h
  split at h
  · contradiction
  · split at h <;> dsimp only at h
    · split_ifs at h <;> (cases h; assumption)
    · split_ifs at h <;> (cases h; assumption)
    · contradiction

omit hg in
theorem confined_mark? (marked : Bool) (ts : List τ) :
    Confined d (mark? marked : TokenParser τ (Option τ)) ts := by
  intro e rest h
  cases marked with
  | false => cases h
  | true => cases ts <;> cases h

theorem confined_lookaheadConstructor (ts : List τ) : Confined d g.lookaheadConstructor ts := by
  refine confined_ahead ?_
  split
  · exact confined_pure _ ts
  · rename_i form hform
    have hopening := kindAt_of_constructorAhead? hform
    refine (confined_specifier hg fun hne => absurd hopening hne).bind
      (consumes_specifier hg.consumes _).trims fun _ => ?_
    refine (confined_mark? _ _).bind (trims_mark? _) fun _ => ?_
    exact (hg.phrase .operand nofun _).map _

theorem confined_introducedConstructor (hd : d = .keyword) {word : TokenKind}
    (sort : ConstructorSort) {ts : List τ} (hw : kindAt ts 0 = word) (hne : word ≠ .eof) :
    Confined d (g.introducedConstructor word sort) ts := by
  refine confined_expect_bind hw hne fun _ _ => ?_
  refine (confined_specifier hg fun _ => hd).bind (consumes_specifier hg.consumes _).trims
    fun _ => ?_
  exact (hg.phrase .operand nofun _).map _

theorem confined_keywordConstructor (hd : d = .keyword) (ts : List τ) :
    Confined d g.keywordConstructor ts := by
  refine confined_peek ?_
  split
  · exact confined_introducedConstructor hg hd .array ‹_› (by decide)
  · exact confined_introducedConstructor hg hd .template ‹_› (by decide)
  · exact confined_introducedConstructor hg hd .function ‹_› (by decide)
  · exact confined_pure _ ts

/-- The arrow that is seen behind a closer is there behind the parameters. -/
theorem confined_arrowConstructor (ts : List τ) : Confined d g.arrowConstructor ts := by
  rw [arrowConstructor_eq_scan]
  refine confined_peek ?_
  split
  · refine (confined_bracket hg fun hne => absurd ‹_› hne).bind (consumes_bracket hg.consumes).trims
      fun _ => ?_
    refine (confined_eat _ _).bind (advances_eat _).trims fun _ => ?_
    exact (hg.phrase .operand nofun _).map _
  · refine confined_ahead ?_
    split
    · rename_i hfollowed
      refine (confined_paren hg fun hne => absurd ‹_› hne).bind (consumes_paren hg.consumes).trims
        fun {parameters mid} hdone => ?_
      have harrow : kindAt mid 0 = .thinArrow := by
        have hread := reads_enclosed hg.consumes hg.reads _ _ hdone
        rw [hread.bracketFollowedBy_eq hg.proper isGroupDelimiters_paren.isDelimiters] at hfollowed
        exact beq_iff_eq.1 hfollowed
      refine confined_expect_bind harrow (by decide) fun _ _ => ?_
      exact (hg.phrase .operand nofun _).map _
    · exact confined_pure _ ts
  · exact confined_pure _ ts

theorem confined_parameterConstructor (ts : List τ) : Confined d g.parameterConstructor ts := by
  refine confined_peek ?_
  split
  · refine (confined_bracket hg fun hne => absurd ‹_› hne).bind (consumes_bracket hg.consumes).trims
      fun _ => ?_
    exact (hg.phrase .operand nofun _).map _
  · refine confined_ahead ?_
    split
    · refine (confined_paren hg fun hne => absurd ‹_› hne).bind (consumes_paren hg.consumes).trims
        fun _ => ?_
      exact (hg.phrase .operand nofun _).map _
    · exact confined_pure _ ts
  · exact confined_pure _ ts

theorem confined_constructor? (ts : List τ) : Confined d g.constructor? ts := by
  have hrules := hg.rules
  unfold Grammar.constructor?
  cases d <;> simp only [hrules]
  case standard => exact confined_lookaheadConstructor hg ts
  case keyword => exact confined_keywordConstructor hg rfl ts
  case arrow => exact confined_arrowConstructor hg ts
  case parameter => exact confined_parameterConstructor hg ts
  case pointer => exact confined_pure _ ts

theorem confined_primary (ts : List τ) : Confined d g.primary ts := by
  refine (confined_eatAny _ ts).bind (advances_eatAny _).trims fun {token mid} _ => ?_
  cases token with
  | some t => exact confined_pure _ mid
  | none =>
    refine (confined_eat _ mid).bind (advances_eat _).trims fun {token mid'} _ => ?_
    cases token with
    | some t => exact confined_pure _ mid'
    | none =>
      refine confined_peek ?_
      split
      · exact confined_paren hg fun hne => absurd ‹_› hne
      · exact confined_bracket hg fun hne => absurd ‹_› hne
      · rintro e rest ⟨⟩
        exact ⟨nofun, [], rfl, trivial⟩

/-- A name is missed directly behind a dot. -/
theorem confined_suffix? (ts : List τ) : Confined d g.suffix? ts := by
  refine confined_peek ?_
  split
  · exact (confined_paren hg fun hne => absurd ‹_› hne).map _
  · exact (confined_bracket hg fun hne => absurd ‹_› hne).map _
  · intro e rest h
    rcases bind_eq_failed h with h₁ | ⟨dot, mid, hdot, h₁⟩
    · exact absurd h₁ eat_ne_failed
    cases dot with
    | some dot =>
      obtain ⟨rfl, hk⟩ := eat_eq_some.1 hdot
      have hname := map_eq_failed (map_eq_failed h₁)
      obtain ⟨rfl, rfl⟩ := failure_of_expect hname
      exact ⟨nofun, [dot], rfl, [], dot, rfl, hk⟩
    | none =>
      cases hcaret : g.rules.postfixCaret with
      | true =>
        simp only [hcaret] at h₁
        exact absurd (map_eq_failed h₁) eat_ne_failed
      | false =>
        simp only [hcaret] at h₁
        exact absurd h₁ pure_ne_failed

theorem confined_suffixed (ts : List τ) : Confined d g.suffixed ts := by
  have hsuffix := repeats_suffix? hg.consumes
  refine (confined_primary hg ts).bind (consumes_primary hg.consumes).trims fun _ => ?_
  exact (confined_many hsuffix (confined_suffix? hg) _).map _

theorem confined_operand (ts : List τ) : Confined d g.operand ts := by
  refine (confined_eatAny _ ts).bind (advances_eatAny _).trims fun {operator mid} _ => ?_
  cases operator with
  | some o => exact (hg.phrase .operand nofun mid).map _
  | none =>
    refine (confined_constructor? hg mid).bind (advances_constructor? hg.consumes).trims
      fun {constructor mid'} _ => ?_
    cases constructor with
    | some c => exact confined_pure _ mid'
    | none => exact confined_suffixed hg mid'

/-! ## Operations -/

omit hg in
theorem confined_operation? {operators : KindSet} {p : TokenParser τ (Tree τ)}
    (hp : ∀ ts, Confined d p ts) (ts : List τ) : Confined d (operation? operators p) ts := by
  refine (confined_eatAny _ ts).bind (advances_eatAny _).trims fun {operator mid} _ => ?_
  cases operator with
  | some o => exact (hp mid).map _
  | none => exact confined_pure _ mid

omit hg in
theorem confined_leftAssociative {operators : KindSet} {p : TokenParser τ (Tree τ)}
    (hc : p.Consumes) (hp : ∀ ts, Confined d p ts) (ts : List τ) :
    Confined d (leftAssociative operators p) ts := by
  refine (hp ts).bind hc.trims fun _ => ?_
  exact (confined_many (repeats_operation? hc) (confined_operation? hp) _).map _

theorem confined_layerParser (n : Nat) (ts : List τ) : Confined d (g.layerParser n) ts := by
  induction n generalizing ts with
  | zero => exact confined_operand hg ts
  | succ n ih => exact confined_leftAssociative (consumes_layerParser hg.consumes n) ih ts

theorem confined_disjunction (ts : List τ) : Confined d g.disjunction ts :=
  confined_layerParser hg 6 ts

theorem confined_implication (ts : List τ) : Confined d g.implication ts := by
  refine (confined_disjunction hg ts).bind (consumes_disjunction hg.consumes).trims fun _ => ?_
  refine (confined_eatAny _ _).bind (advances_eatAny _).trims fun {operator mid} _ => ?_
  cases operator with
  | some o => exact (hg.phrase .implication nofun mid).map _
  | none => exact confined_pure _ mid

theorem confined_assignment (ts : List τ) : Confined d g.assignment ts := by
  refine (confined_implication hg ts).bind (consumes_implication hg.consumes).trims fun _ => ?_
  refine (confined_eat _ _).bind (advances_eat _).trims fun {operator mid} _ => ?_
  cases operator with
  | some o => exact (hg.phrase .assignment nofun mid).map _
  | none => exact confined_pure _ mid

/-! ## Control constructs -/

section Control

variable (hd : d = .standard)

include hd

/-- Where there are control constructs, a parenthesis may be missed. -/
theorem confined_head (ts : List τ) : Confined d g.paren ts := confined_paren hg fun _ => .inl hd

/-- Where there are control constructs, a block may be missed. -/
theorem confined_body (ts : List τ) : Confined d g.block ts := confined_block hg fun _ => hd

theorem confined_alternative (ts : List τ) : Confined d g.alternative ts := by
  refine confined_peek ?_
  split
  · exact hg.confined .conditional ts fun _ => ⟨hd, ‹_›⟩
  · exact confined_body hg hd ts

theorem confined_conditional {ts : List τ} (hk : kindAt ts 0 = .ifKw) :
    Confined d g.conditional ts := by
  refine confined_expect_bind hk (by decide) fun _ _ => ?_
  refine (confined_head hg hd _).bind (consumes_paren hg.consumes).trims fun _ => ?_
  refine (confined_body hg hd _).bind (consumes_block hg.consumes).trims fun _ => ?_
  refine (confined_eat _ _).bind (advances_eat _).trims fun {keyword mid} _ => ?_
  cases keyword with
  | some k => exact (confined_alternative hg hd mid).map _
  | none => exact confined_pure _ mid

theorem confined_branch (ts : List τ) : Confined d g.branch ts := by
  refine (confined_disjunction hg ts).bind (consumes_disjunction hg.consumes).trims fun _ => ?_
  refine (confined_expect (k := .fatArrow) (by decide) fun _ => hd).bind (consumes_expect _).trims
    fun _ => ?_
  exact (confined_body hg hd _).map _

theorem confined_caseDistinction {ts : List τ} (hk : kindAt ts 0 = .caseKw) :
    Confined d g.caseDistinction ts := by
  refine confined_expect_bind hk (by decide) fun _ _ => ?_
  refine (confined_head hg hd _).bind (consumes_paren hg.consumes).trims fun _ => ?_
  exact (confined_separatedBy _ (consumes_branch hg.consumes).trims (confined_branch hg hd) _).map _

theorem confined_loop {word : TokenKind} (hw : word ≠ .eof) {ts : List τ}
    (hk : kindAt ts 0 = word) : Confined d (g.loop word) ts := by
  refine confined_expect_bind hk hw fun _ _ => ?_
  refine (confined_head hg hd _).bind (consumes_paren hg.consumes).trims fun _ => ?_
  exact (confined_body hg hd _).map _

theorem confined_repetition? (ts : List τ) : Confined d g.repetition? ts := by
  refine confined_peek (confined_ahead ?_)
  split
  · rename_i h
    have hk := of_decide_eq_true (Bool.and_eq_true_iff.1 h).1
    refine confined_expect_bind hk (by decide) fun _ _ => ?_
    exact (confined_head hg hd _).map _
  · exact confined_pure _ ts

theorem confined_doBlock {ts : List τ} (hk : kindAt ts 0 = .doKw) : Confined d g.doBlock ts := by
  refine confined_expect_bind hk (by decide) fun _ _ => ?_
  refine (confined_body hg hd _).bind (consumes_block hg.consumes).trims fun _ => ?_
  exact (confined_repetition? hg hd _).map _

theorem confined_functionHead (ts : List τ) : Confined d g.functionHead ts := by
  refine confined_peek ?_
  split
  · refine (confined_bracket hg fun hne => absurd ‹_› hne).bind (consumes_bracket hg.consumes).trims
      fun _ => ?_
    exact (confined_head hg hd _).map _
  · exact confined_head hg hd ts

theorem confined_functionValue {ts : List τ} (hk : kindAt ts 0 = .lambdaKw) :
    Confined d g.functionValue ts := by
  refine confined_expect_bind hk (by decide) fun _ _ => ?_
  refine (confined_functionHead hg hd _).bind (consumes_functionHead hg.consumes).trims fun _ => ?_
  exact (confined_body hg hd _).map _

theorem confined_scope (ts : List τ) : Confined d g.scope ts := by
  refine confined_peek ?_
  split
  · exact confined_body hg hd ts
  · exact hg.phrase .expression nofun ts

theorem confined_localBinding {ts : List τ} (hk : kindAt ts 0 = .letKw) :
    Confined d g.localBinding ts := by
  refine confined_expect_bind hk (by decide) fun _ _ => ?_
  refine (confined_head hg hd _).bind (consumes_paren hg.consumes).trims fun _ => ?_
  exact (confined_scope hg hd _).map _

/-- Where a control construct begins, the words that choose it are there. -/
theorem confined_control {ts : List τ} (hk : controlWords.contains (kindAt ts 0) = true) :
    Confined d g.control ts := by
  have hword : kindAt ts 0 ∈
      [TokenKind.ifKw, .caseKw, .forKw, .whileKw, .doKw, .lambdaKw, .letKw] := by
    rw [controlWords, KindSet.contains_ofList] at hk
    exact List.contains_iff_mem.1 hk
  refine confined_peek ?_
  split
  case h_1 h => exact confined_conditional hg hd h
  case h_2 h => exact confined_caseDistinction hg hd h
  case h_3 h => exact confined_loop hg hd (by decide) h
  case h_4 h => exact confined_loop hg hd (by decide) h
  case h_5 h => exact confined_doBlock hg hd h
  case h_6 h => exact confined_functionValue hg hd h
  case h_7 h => exact confined_localBinding hg hd h
  case h_8 => simp_all only [List.mem_cons, List.not_mem_nil, or_false, imp_false, or_self]

end Control

/-- Only one dialect has control constructs. -/
theorem standard_of_opensControl {ts : List τ} (h : opensControl g.rules ts = true) :
    d = .standard ∧ controlWords.contains (kindAt ts 0) = true := by
  rw [opensControl, hg.rules, Bool.and_eq_true] at h
  refine ⟨?_, h.2⟩
  cases d <;> first | rfl | exact absurd h.1 (by decide)

theorem confined_expression (ts : List τ) : Confined d g.expression ts := by
  refine confined_ahead ?_
  split
  · obtain ⟨hd, hk⟩ := standard_of_opensControl hg ‹_›
    exact confined_control hg hd hk
  · exact confined_assignment hg ts

/-! ## Definitions and statements -/

theorem confined_definiens (ts : List τ) : Confined d g.definiens ts := by
  refine confined_peek ?_
  split
  · exact (confined_block hg fun hne => absurd ‹_› hne).map _
  · refine (confined_expect (k := .eq) (by decide) fun _ => trivial).bind (consumes_expect _).trims
      fun _ => ?_
    refine (hg.phrase .expression nofun _).bind (hg.consumes _).trims fun _ => ?_
    exact (confined_expect (k := .semicolon) (by decide) fun _ => trivial).map _

/-- What follows the names of a definition is confined behind its colon or its constraint. -/
theorem misses_of_defined {ts rest : List τ} {e : Failure τ}
    (hk : kindAt ts 0 = .colon ∨ kindAt ts 0 = .isKw)
    (h : g.typing ts = .failed e rest ∨
      ∃ type mid, g.typing ts = .done type mid ∧ g.definiens mid = .failed e rest) :
    Misses d ts e rest := by
  rcases h with h | ⟨type, mid, ht, h⟩
  · exact confined_typing hg hk h
  · exact (confined_definiens hg mid h).of_suffix ((consumes_typing hg.consumes).trims.suffix ht)

/-- A colon is missed behind the values that a definition introduces, and nowhere else. -/
theorem confined_definition {ts : List τ} (h : opensDeclaration ts = true) :
    Confined d g.definition ts := by
  intro e rest hfailed
  rcases bind_eq_failed hfailed with h₁ | ⟨introducer, mid, hi, h₁⟩
  · exact absurd h₁ eat_ne_failed
  cases introducer with
  | none =>
    obtain ⟨rfl, hne⟩ := (eat_eq_none (by decide)).1 hi
    obtain ⟨names, mid', hnames, hk⟩ := exists_identifiers
      ((Bool.or_eq_true_iff.1 h).resolve_left (mt beq_iff_eq.1 hne))
    rcases bind_eq_failed h₁ with h₂ | ⟨names', mid'', hnames', h₂⟩
    · exact absurd (h₂.symm.trans hnames) nofun
    · obtain ⟨rfl, rfl⟩ : names' = names ∧ mid'' = mid' := by
        cases hnames'.symm.trans hnames
        exact ⟨rfl, rfl⟩
      exact (misses_of_defined hg hk (defined_eq_failed h₂)).of_suffix
        (consumes_identifiers.trims.suffix hnames)
  | some i =>
    obtain ⟨rfl, hi'⟩ := eat_eq_some.1 hi
    have hsuffixed := consumes_suffixed hg.consumes
    rcases bind_eq_failed h₁ with h₂ | ⟨values, mid', hvalues, h₂⟩
    · have hvalues := confined_separatedBy .comma hsuffixed.trims (confined_suffixed hg) mid
      exact (hvalues (map_eq_failed h₂)).of_suffix (List.suffix_cons i mid)
    obtain ⟨ds, mid'', hds, h₃⟩ := bind_eq_done.1 hvalues
    obtain ⟨-, rfl⟩ := pure_eq_done.1 h₃
    obtain ⟨declared, rfl⟩ := (hsuffixed.separatedBy .comma).trims.suffix hds
    by_cases hk : kindAt mid'' 0 = .colon ∨ kindAt mid'' 0 = .isKw
    · exact (misses_of_defined hg hk (defined_eq_failed h₂)).of_suffix ⟨i :: declared, rfl⟩
    · obtain ⟨hcolon, his⟩ := not_or.1 hk
      have htyping := typing_eq_failed (g := g) hcolon his
      obtain ⟨rfl, rfl⟩ : e = ⟨.token .colon, mid''.head?⟩ ∧ rest = mid'' := by
        rcases defined_eq_failed h₂ with h₃ | ⟨type, mid', h₃, -⟩ <;> cases h₃.symm.trans htyping
        exact ⟨rfl, rfl⟩
      have hread := reads_separatedBy (reads_suffixed hg.consumes hg.proper hg.reads)
        hsuffixed.trims hds
      exact ⟨nofun, i :: declared, rfl, [], i, declared, ds, rfl, hi', hg.rules ▸ hread⟩

theorem confined_statement (ts : List τ) : Confined d g.statement ts := by
  refine confined_ahead ?_
  split
  · exact confined_definition hg ‹_›
  split
  · obtain ⟨hd, hk⟩ := standard_of_opensControl hg ‹_›
    refine (confined_control hg hd hk).bind (consumes_control hg.consumes).trims fun _ => ?_
    exact (confined_eat _ _).map _
  · refine (confined_expression hg ts).bind (consumes_expression hg.consumes).trims fun _ => ?_
    exact (confined_expect (k := .semicolon) (by decide) fun _ => trivial).map _

/-! ## All phrases and files -/

/-- A phrase is confined if the phrases nested in it are. -/
theorem confined_phrase (p : Phrase) (ts : List τ)
    (hp : p = .conditional → d = .standard ∧ kindAt ts 0 = .ifKw) : Confined d (g.body p) ts := by
  cases p with
  | operand => exact confined_operand hg ts
  | implication => exact confined_implication hg ts
  | assignment => exact confined_assignment hg ts
  | expression => exact confined_expression hg ts
  | statement => exact confined_statement hg ts
  | conditional => exact confined_conditional hg (hp rfl).1 (hp rfl).2

omit hg

/-- The phrases of every depth are confined. -/
theorem confined_nested (d : Dialect) (depth : Nat) (p : Phrase) (ts : List τ)
    (hp : p = .conditional → d = .standard ∧ kindAt ts 0 = .ifKw) :
    Confined d (nested d.rules depth p) ts := by
  induction depth generalizing p ts with
  | zero =>
    rintro e rest ⟨⟩
    exact ⟨nofun, [], rfl, trivial⟩
  | succ depth ih =>
    have hg : (⟨d.rules, nested d.rules depth⟩ : Grammar τ).IsConfined d :=
      ⟨rfl, consumes_nested d.rules depth, reads_nested d.proper_rules depth, ih⟩
    exact confined_phrase hg p ts hp

/-- The grammar of a dialect is confined. -/
theorem isConfined_ofRules (d : Dialect) : (ofRules d.rules : Grammar τ).IsConfined d where
  rules := rfl
  consumes := consumes_ofRules d.rules
  reads := reads_ofRules d.proper_rules
  confined := fun p ts hp _ _ h => confined_nested d (ts.length + 1) p ts hp h

/-- Where the declarations of a file fail, the dialect allows it. A declaration is missed where the
file or the last declaration ends. The induction is on the number of tokens. -/
theorem mayFail_of_declarations {ts rest : List τ} {e : Failure τ}
    (h : many (unlessNext .eof (ofRules d.rules : Grammar τ).declaration) ts = .failed e rest) :
    ∃ read, ts = read ++ rest ∧ e.expected.MayFail d read rest := by
  have hg := isConfined_ofRules (τ := τ) d
  have hrepeats := repeats_declaration (τ := τ) d.rules
  induction hn : ts.length using Nat.strongRecOn generalizing ts with
  | ind n ih =>
    rcases hrepeats.many_eq_failed h with h₁ | ⟨t, mid, ht, h₁⟩
    · rcases bind_eq_failed (unlessNext_eq_failed h₁).2 with h₂ | ⟨us, mid, hus, h₂⟩
      · cases h₂
      obtain ⟨rfl, rfl⟩ := ahead_eq_done.1 hus
      split at h₂
      · exact (confined_definition hg ‹_› h₂).2
      · cases h₂
        exact ⟨[], rfl, .inl rfl⟩
    · have hshort : mid.length < n := hn ▸ hrepeats.advances.shorter ht
      obtain ⟨us, mid', hus, h₂⟩ := bind_eq_done.1 (unlessNext_eq_some.1 ht).2
      obtain ⟨rfl, rfl⟩ := ahead_eq_done.1 hus
      split at h₂
      · have hread := reads_definition hg.consumes hg.proper hg.reads h₂
        obtain ⟨front, last, rfl, -, hlast⟩ := hread.exists_last_of_definition
        obtain ⟨read, rfl, hmay⟩ := ih mid.length hshort h₁ rfl
        exact ⟨front ++ last :: read, by simp, hmay.append_closed front hlast⟩
      · exact absurd h₂ fail_ne_done

end Grammar

end

/-- A text leaves only such expectations unmet as its dialect allows, at the token that was found
instead. -/
theorem mayFail_of_parseText {symbols : SymbolTable} {dialect : Dialect} {text : String}
    {e : SyntaxError} (h : (parseText symbols dialect text).1 = .error e) :
    ∃ read rest finish, (tokenize symbols text).1 = read ++ rest ++ [finish] ∧
      e.found = rest.headD finish ∧ kind e.found = kindAt rest 0 ∧
      e.expected.MayFail dialect read rest := by
  obtain ⟨used, rest, finish, failure, hbuffer, hp, hexpected, hfound⟩ :=
    exists_failed_of_parseText h
  obtain ⟨read, hread, hmay⟩ := mayFail_of_declarations (map_eq_failed hp)
  obtain rfl : used = read := List.append_cancel_right hread
  refine ⟨used, rest, finish, hbuffer, hfound, ?_, hexpected ▸ hmay⟩
  rw [hfound]
  cases rest with
  | nil =>
    obtain ⟨ts, last, hspec, hlast, -⟩ := tokenize_spec symbols text
    have hsame : finish = last := by
      have hends := congrArg List.getLast? (hbuffer.symm.trans hspec)
      rw [List.getLast?_concat, List.getLast?_concat] at hends
      exact Option.some.inj hends
    exact hsame ▸ hlast
  | cons found rest => rfl

/-- Where the names of a definition are introduced by their reserved word, a colon may be missed
behind them: here behind a value with arguments. -/
theorem mayFail_of_parseText_colon : ∃ e,
    (parseText (.empty 0) .keyword "a: int; def f(x), g = 1;").1 = .error e ∧
    ∃ read rest finish, (tokenize (.empty 0) "a: int; def f(x), g = 1;").1 =
        read ++ rest ++ [finish] ∧
      e.found = rest.headD finish ∧ kind e.found = kindAt rest 0 ∧
      e.expected.MayFail .keyword read rest := by
  obtain ⟨e, he⟩ := exists_error_of_isOk (.empty 0) .keyword "a: int; def f(x), g = 1;"
    (by decide +kernel)
  exact ⟨e, he, mayFail_of_parseText he⟩

end ConcreteSyntax
