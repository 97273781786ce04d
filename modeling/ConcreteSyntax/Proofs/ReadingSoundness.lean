import ConcreteSyntax.Proofs.BalancedBrackets
import ConcreteSyntax.Proofs.ParserOutcomes

/-!
# Successful parses are readings

Whatever a parser of the grammar yields has a reading. The statements follow the
grammar from names to files. Each one assumes that the nested phrases have readings,
and an induction on the depth of nesting removes this assumption.
-/

namespace ConcreteSyntax

open TokenParser

/-- All results of a parser have readings of a category. -/
def Reads {τ : Type} [HasKind τ] (rules : Rules) (c : Category τ) (p : TokenParser τ c.Result) :
    Prop :=
  ∀ {ts rest : List τ} {v : c.Result}, p ts = .done v rest → Reading rules c ts v rest

namespace Grammar

variable {τ : Type} [HasKind τ]

/-- A separator is not the end of the text. -/
theorem separator_ne_eof (e : Element) : e.separator ≠ .eof := by cases e <;> decide

/-- Sequences are read if their elements are. -/
theorem reads_separatedBy {rules : Rules} {e : Element} {p : TokenParser τ (Tree τ)}
    (hp : Reads rules (.element e) p) (ht : p.Trims) :
    Reads rules (.separated e) (separatedBy e.separator p) := by
  intro ts rest v h
  induction v generalizing ts with
  | nil => exact absurd h separatedBy_ne_nil
  | cons t vs ih =>
    cases vs with
    | nil =>
      obtain ⟨h₁, hr⟩ := (separatedBy_eq_singleton (separator_ne_eof e) ht).1 h
      exact .last (hp h₁) hr
    | cons u us =>
      obtain ⟨s, mid, h₁, hs, ho⟩ := (separatedBy_eq_cons ht).1 h
      exact .more (hp h₁) hs (ih ho)

theorem reads_identifier {rules : Rules} :
    Reads rules (.element .name : Category τ) identifier := by
  intro ts rest v h
  obtain ⟨t, mid, h₁, hv⟩ := bind_eq_done.1 h
  obtain ⟨rfl, hk⟩ := expect_eq_done.1 h₁
  obtain ⟨rfl, rfl⟩ := pure_eq_done.1 hv
  exact .name hk

theorem reading_of_identifiers {rules : Rules} {ts rest : List τ} {t : Tree τ}
    (h : identifiers ts = .done t rest) :
    ∃ ns, t = .joined ns ∧ Reading rules (.separated .name) ts ns rest := by
  obtain ⟨ns, mid, h₁, hv⟩ := bind_eq_done.1 h
  obtain ⟨rfl, rfl⟩ := pure_eq_done.1 hv
  exact ⟨ns, rfl, reads_separatedBy reads_identifier consumes_identifier.trims h₁⟩

/-- A member or an operator behind a value, if one follows. -/
def simpleSuffix? (g : Grammar τ) : TokenParser τ (Option (Suffix τ)) := do
  match ← eat .dot with
  | some dot => return some (.member dot (← identifier))
  | none =>
    if g.rules.postfixCaret then return (← eat .caret).map Suffix.operator else return none

variable {g : Grammar τ} (hg : ∀ phrase, (g.phrase phrase).Consumes) (hp : g.rules.Proper)
  (hr : ∀ phrase, Reads g.rules (.phrase phrase) (g.phrase phrase))

/-! ## Groups, parameters and types -/

include hr

theorem reads_type : Reads g.rules .type g.type := by
  intro ts rest v h
  unfold Grammar.type at h
  cases hl : g.rules.typeLevel with
  | operand => rw [hl] at h; exact .operandType hl (hr _ h)
  | implication => rw [hl] at h; exact .implicationType hl (hr _ h)

/-- The type behind a colon is left out before an equals sign or a constraint, and is
read otherwise. -/
theorem plainType?_cases {ts rest : List τ} {type : Option (Tree τ)}
    (h : g.plainType? ts = .done type rest) :
    type = none ∧ rest = ts ∧ typeOmitted.contains (kindAt ts 0) = true ∨
      ∃ t, type = some t ∧ typeOmitted.contains (kindAt ts 0) = false ∧
        Reading g.rules .type ts t rest := by
  obtain ⟨k, mid, hk, h₁⟩ := bind_eq_done.1 h
  obtain ⟨rfl, rfl⟩ := peek_eq_done.1 hk
  split at h₁
  · obtain ⟨rfl, rfl⟩ := pure_eq_done.1 h₁
    exact .inl ⟨rfl, rfl, ‹_›⟩
  · obtain ⟨t, mid, ht, h₂⟩ := bind_eq_done.1 h₁
    obtain ⟨rfl, rfl⟩ := pure_eq_done.1 h₂
    exact .inr ⟨t, rfl, Bool.eq_false_iff.2 ‹_›, reads_type hr ht⟩

omit hr in
/-- A kind behind which the type is left out is an equals sign or the reserved word of a
constraint. -/
theorem eq_or_isKw_of_typeOmitted {k : TokenKind} (h : typeOmitted.contains k = true) :
    k = .eq ∨ k = .isKw := by
  rw [typeOmitted, KindSet.contains_ofList] at h
  simpa using h

theorem reads_typing : Reads g.rules .typing g.typing := by
  intro ts rest v h
  obtain ⟨colon, mid, hcolon, h₁⟩ := bind_eq_done.1 h
  cases colon with
  | none =>
    obtain ⟨rfl, -⟩ := (eat_eq_none (by decide)).1 hcolon
    obtain ⟨mark, mid, hmark, h₂⟩ := bind_eq_done.1 h₁
    cases mark with
    | none => exact absurd h₂ fail_ne_done
    | some m =>
      obtain ⟨p, mid, hpat, h₃⟩ := bind_eq_done.1 h₂
      obtain ⟨rfl, rfl⟩ := pure_eq_done.1 h₃
      obtain ⟨rfl, hm⟩ := eat_eq_some.1 hmark
      exact .bareConstraint hm (reads_type hr hpat)
  | some c =>
    obtain ⟨rfl, hc⟩ := eat_eq_some.1 hcolon
    obtain ⟨type, mid, htype, h₂⟩ := bind_eq_done.1 h₁
    obtain ⟨mark, mid', hmark, h₃⟩ := bind_eq_done.1 h₂
    cases mark with
    | none =>
      obtain ⟨rfl, rfl⟩ := pure_eq_done.1 h₃
      obtain ⟨rfl, hne⟩ := (eat_eq_none (by decide)).1 hmark
      obtain ⟨rfl, rfl, ho⟩ | ⟨t, rfl, ho, ht⟩ := plainType?_cases hr htype
      · exact .omittedType hc ((eq_or_isKw_of_typeOmitted ho).resolve_right hne)
      · exact .plainType hc ho ht hne
    | some m =>
      obtain ⟨p, mid'', hpat, h₄⟩ := bind_eq_done.1 h₃
      obtain ⟨rfl, rfl⟩ := pure_eq_done.1 h₄
      obtain ⟨rfl, hm⟩ := eat_eq_some.1 hmark
      obtain ⟨rfl, rfl, -⟩ | ⟨t, rfl, ho, ht⟩ := plainType?_cases hr htype
      · exact .colonConstraint hc hm (reads_type hr hpat)
      · exact .constrainedType hc ho ht hm (reads_type hr hpat)

theorem reads_initial : Reads g.rules .initial (behind .eq (g.phrase .expression)) := by
  intro ts rest v h
  cases v with
  | none =>
    obtain ⟨rfl, hn⟩ := (behind_eq_none (by decide)).1 h
    exact .noInitial hn
  | some v =>
    obtain ⟨e, mid, rfl, he, h₁⟩ := behind_eq_some.1 h
    exact .initial he (hr _ h₁)

theorem reads_parameter : Reads g.rules .parameter g.parameter := by
  intro ts rest v h
  obtain ⟨names, mid, hn, h₁⟩ := bind_eq_done.1 h
  obtain ⟨type, mid', ht, h₂⟩ := bind_eq_done.1 h₁
  obtain ⟨value, mid'', hv, h₃⟩ := bind_eq_done.1 h₂
  obtain ⟨rfl, rfl⟩ := pure_eq_done.1 h₃
  cases names with
  | none =>
    obtain ⟨rfl, hk⟩ := unlessNext_eq_none.1 hn
    exact .unnamedParameter hk (reads_typing hr ht) (reads_initial hr hv)
  | some t =>
    obtain ⟨hk, hn₁⟩ := unlessNext_eq_some.1 hn
    obtain ⟨ns, rfl, hns⟩ := reading_of_identifiers hn₁
    exact .namedParameter hk hns (reads_typing hr ht) (reads_initial hr hv)

theorem reads_item : Reads g.rules (.element .item) g.item := by
  intro ts rest v h
  obtain ⟨us, mid, hus, h₁⟩ := bind_eq_done.1 h
  obtain ⟨rfl, rfl⟩ := ahead_eq_done.1 hus
  split at h₁
  · exact .parameterItem ‹_› (reads_parameter hr h₁)
  · exact .expressionItem (Bool.eq_false_iff.2 ‹_›) (hr _ h₁)

include hg

theorem reads_items : Reads g.rules (.element .items) g.items := by
  intro ts rest v h
  obtain ⟨vs, mid, hvs, h₁⟩ := bind_eq_done.1 h
  obtain ⟨rfl, rfl⟩ := pure_eq_done.1 h₁
  exact .items (reads_separatedBy (reads_item hr) (consumes_item hg).trims hvs)

theorem reading_of_group {ts rest : List τ} {t : Tree τ} (h : g.group ts = .done t rest) :
    ∃ vs, t = .joined vs ∧ Reading g.rules (.separated .items) ts vs rest := by
  obtain ⟨vs, mid, hvs, h₁⟩ := bind_eq_done.1 h
  obtain ⟨rfl, rfl⟩ := pure_eq_done.1 h₁
  exact ⟨vs, rfl, reads_separatedBy (reads_items hg hr) (consumes_items hg).trims hvs⟩

theorem reads_enclosed (opening closing : TokenKind) :
    Reads g.rules (.enclosed opening closing) (g.enclosed opening closing) := by
  intro ts rest v h
  obtain ⟨a, mid, ha, h₁⟩ := bind_eq_done.1 h
  obtain ⟨term, mid', ht, h₂⟩ := bind_eq_done.1 h₁
  obtain ⟨b, mid'', hb, h₃⟩ := bind_eq_done.1 h₂
  obtain ⟨rfl, rfl⟩ := pure_eq_done.1 h₃
  obtain ⟨rfl, ha₁⟩ := expect_eq_done.1 ha
  obtain ⟨rfl, hb₁⟩ := expect_eq_done.1 hb
  cases term with
  | none =>
    obtain ⟨rfl, -⟩ := unlessNext_eq_none.1 ht
    exact .emptyEnclosure ha₁ hb₁
  | some t =>
    obtain ⟨hn, ht₁⟩ := unlessNext_eq_some.1 ht
    obtain ⟨vs, rfl, hvs⟩ := reading_of_group hg hr ht₁
    exact .enclosure ha₁ hn hvs hb₁

/-! ## Blocks and type constructors -/

omit hr in
/-- Statements are repeated up to a closing brace or the end of the tokens. -/
theorem repeats_statement? : g.statement?.Repeats := ⟨advances_statement? hg, rfl⟩

theorem reads_statements : Reads g.rules .statements (many g.statement?) := by
  intro ts rest v h
  induction v generalizing ts with
  | nil =>
    obtain ⟨k, mid, hk, h₁⟩ := bind_eq_done.1 ((repeats_statement? hg).many_eq_nil.1 h)
    obtain ⟨rfl, rfl⟩ := peek_eq_done.1 hk
    cases hk : kindAt mid 0
    case rightBrace =>
      rw [hk] at h₁
      obtain ⟨-, rfl⟩ := pure_eq_done.1 h₁
      exact .noStatements (.inl hk)
    case eof =>
      rw [hk] at h₁
      obtain ⟨-, rfl⟩ := pure_eq_done.1 h₁
      exact .noStatements (.inr hk)
    all_goals
      rw [hk] at h₁
      obtain ⟨t, mid, -, h₂⟩ := bind_eq_done.1 h₁
      cases (pure_eq_done.1 h₂).1
  | cons s ss ih =>
    obtain ⟨mid, h₁, hss⟩ := (repeats_statement? hg).many_eq_cons.1 h
    obtain ⟨k, mid', hk, h₂⟩ := bind_eq_done.1 h₁
    obtain ⟨rfl, rfl⟩ := peek_eq_done.1 hk
    cases hk : kindAt mid' 0
    case rightBrace => rw [hk] at h₂; cases (pure_eq_done.1 h₂).1
    case eof => rw [hk] at h₂; cases (pure_eq_done.1 h₂).1
    all_goals
      rw [hk] at h₂
      obtain ⟨t, mid', ht, h₃⟩ := bind_eq_done.1 h₂
      obtain ⟨hts, rfl⟩ := pure_eq_done.1 h₃
      cases hts
      exact .statements (by simp [hk]) (by simp [hk]) (hr _ ht) (ih hss)

theorem reads_block : Reads g.rules .block g.block := by
  intro ts rest v h
  obtain ⟨a, mid, ha, h₁⟩ := bind_eq_done.1 h
  obtain ⟨ss, mid', hss, h₂⟩ := bind_eq_done.1 h₁
  obtain ⟨b, mid'', hb, h₃⟩ := bind_eq_done.1 h₂
  obtain ⟨rfl, rfl⟩ := pure_eq_done.1 h₃
  obtain ⟨rfl, ha₁⟩ := expect_eq_done.1 ha
  obtain ⟨rfl, hb₁⟩ := expect_eq_done.1 hb
  exact .block ha₁ (reads_statements hg hr hss) hb₁

theorem reads_specifier (sort : ConstructorSort) :
    Reads g.rules (.enclosed sort.opening sort.closing) (g.specifier sort) := by
  cases sort with
  | array => exact reads_enclosed hg hr _ _
  | function => exact reads_enclosed hg hr _ _
  | template => exact reads_enclosed hg hr _ _

/-- The constructors that a parser yields have readings, and where it yields none, no
constructor begins and no token is read. -/
def ReadsConstructor (g : Grammar τ) (p : TokenParser τ (Option (Tree τ))) : Prop :=
  ∀ {ts rest : List τ} {v : Option (Tree τ)}, p ts = .done v rest →
    v = none ∧ rest = ts ∧ opensConstructor g.rules ts = false ∨
      ∃ t, v = some t ∧ Reading g.rules .constructor ts t rest

include hp in
theorem reads_lookaheadConstructor (hc : g.rules.constructors = .lookahead) :
    g.ReadsConstructor g.lookaheadConstructor := by
  intro ts rest v h
  obtain ⟨us, mid, hus, h₁⟩ := bind_eq_done.1 h
  obtain ⟨rfl, rfl⟩ := ahead_eq_done.1 hus
  cases hf : constructorAhead? g.rules mid with
  | none =>
    rw [hf] at h₁
    obtain ⟨rfl, rfl⟩ := pure_eq_done.1 h₁
    exact .inl ⟨rfl, rfl, by simp [opensConstructor, hc, hf]⟩
  | some form =>
    obtain ⟨sort, marked⟩ := form
    rw [hf] at h₁
    obtain ⟨s, mid', hs, h₂⟩ := bind_eq_done.1 h₁
    obtain ⟨m, mid'', hm, h₃⟩ := bind_eq_done.1 h₂
    obtain ⟨r, mid''', hres, h₄⟩ := bind_eq_done.1 h₃
    obtain ⟨rfl, rfl⟩ := pure_eq_done.1 h₄
    have hs' := reads_specifier hg hr sort hs
    refine .inr ⟨_, rfl, ?_⟩
    cases marked with
    | false =>
      obtain ⟨rfl, rfl⟩ := pure_eq_done.1 hm
      exact .unmarkedConstructor (by simpa [OpensUnmarked, hc] using hf) hs' (hr _ hres)
    | true =>
      cases mid' with
      | nil =>
        -- Behind the end of the tokens there is no result.
        cases hm
        exact absurd ((hg _).shorter hres) (Nat.not_lt_zero _)
      | cons t mid' =>
        cases hm
        exact .markedConstructor (by simpa [OpensMarked, hc] using hf)
          (hs'.arrow_of_constructorAhead? hp hf) hs' (hr _ hres)

theorem reads_introducedConstructor (hc : g.rules.constructors = .keyword)
    (sort : ConstructorSort) {ts rest : List τ} {v : Option (Tree τ)}
    (h : g.introducedConstructor sort.word sort ts = .done v rest) :
    ∃ t, v = some t ∧ Reading g.rules .constructor ts t rest := by
  obtain ⟨m, mid, hm, h₁⟩ := bind_eq_done.1 h
  obtain ⟨s, mid', hs, h₂⟩ := bind_eq_done.1 h₁
  obtain ⟨r, mid'', hres, h₃⟩ := bind_eq_done.1 h₂
  obtain ⟨rfl, rfl⟩ := pure_eq_done.1 h₃
  obtain ⟨rfl, hm₁⟩ := expect_eq_done.1 hm
  exact ⟨_, rfl, .wordConstructor hc hm₁ (reads_specifier hg hr sort hs) (hr _ hres)⟩

theorem reads_keywordConstructor (hc : g.rules.constructors = .keyword) :
    g.ReadsConstructor g.keywordConstructor := by
  intro ts rest v h
  obtain ⟨k, mid, hk, h₁⟩ := bind_eq_done.1 h
  obtain ⟨rfl, rfl⟩ := peek_eq_done.1 hk
  cases hk : kindAt mid 0
  case arrayKw => rw [hk] at h₁; exact .inr (reads_introducedConstructor hg hr hc .array h₁)
  case templKw => rw [hk] at h₁; exact .inr (reads_introducedConstructor hg hr hc .template h₁)
  case funcKw => rw [hk] at h₁; exact .inr (reads_introducedConstructor hg hr hc .function h₁)
  all_goals
    rw [hk] at h₁
    obtain ⟨rfl, rfl⟩ := pure_eq_done.1 h₁
    exact .inl ⟨rfl, rfl, by simp [opensConstructor, hc, hk]⟩

theorem reads_arrowConstructor (hc : g.rules.constructors = .arrow) :
    g.ReadsConstructor g.arrowConstructor := by
  rw [arrowConstructor_eq_scan]
  intro ts rest v h
  obtain ⟨k, mid, hk, h₁⟩ := bind_eq_done.1 h
  obtain ⟨rfl, rfl⟩ := peek_eq_done.1 hk
  cases hk : kindAt mid 0
  case leftBracket =>
    rw [hk] at h₁
    obtain ⟨s, mid', hs, h₂⟩ := bind_eq_done.1 h₁
    obtain ⟨m, mid'', hm, h₃⟩ := bind_eq_done.1 h₂
    obtain ⟨r, mid''', hres, h₄⟩ := bind_eq_done.1 h₃
    obtain ⟨rfl, rfl⟩ := pure_eq_done.1 h₄
    have hs' := reads_specifier hg hr .array hs
    refine .inr ⟨_, rfl, ?_⟩
    cases m with
    | none =>
      obtain ⟨rfl, hne⟩ := (eat_eq_none (by decide)).1 hm
      have ho : OpensUnmarked g.rules .array mid mid'' := by simp [OpensUnmarked, hc, hk, hne]
      exact .unmarkedConstructor ho hs' (hr _ hres)
    | some m =>
      obtain ⟨rfl, hm'⟩ := eat_eq_some.1 hm
      have ho : OpensMarked g.rules .template mid := by simp [OpensMarked, hc, hk]
      exact .markedConstructor ho hm' hs' (hr _ hres)
  case leftParen =>
    rw [hk] at h₁
    obtain ⟨us, mid', hus, h₂⟩ := bind_eq_done.1 h₁
    obtain ⟨rfl, rfl⟩ := ahead_eq_done.1 hus
    split at h₂
    · rename_i hf
      obtain ⟨s, mid'', hs, h₃⟩ := bind_eq_done.1 h₂
      obtain ⟨m, mid''', hm, h₄⟩ := bind_eq_done.1 h₃
      obtain ⟨r, mid'''', hres, h₅⟩ := bind_eq_done.1 h₄
      obtain ⟨rfl, rfl⟩ := pure_eq_done.1 h₅
      obtain ⟨rfl, hm'⟩ := expect_eq_done.1 hm
      have ho : OpensMarked g.rules .function mid' := by simp [OpensMarked, hc, hk, hf]
      exact .inr ⟨_, rfl,
        .markedConstructor ho hm' (reads_specifier hg hr .function hs) (hr _ hres)⟩
    · rename_i hf
      obtain ⟨rfl, rfl⟩ := pure_eq_done.1 h₂
      exact .inl ⟨rfl, rfl, by simp [opensConstructor, hc, hk, hf]⟩
  all_goals
    rw [hk] at h₁
    obtain ⟨rfl, rfl⟩ := pure_eq_done.1 h₁
    exact .inl ⟨rfl, rfl, by simp [opensConstructor, hc, hk]⟩

theorem reads_parameterConstructor (hc : g.rules.constructors = .parameter) :
    g.ReadsConstructor g.parameterConstructor := by
  intro ts rest v h
  obtain ⟨k, mid, hk, h₁⟩ := bind_eq_done.1 h
  obtain ⟨rfl, rfl⟩ := peek_eq_done.1 hk
  cases hk : kindAt mid 0
  case leftBracket =>
    rw [hk] at h₁
    obtain ⟨s, mid', hs, h₂⟩ := bind_eq_done.1 h₁
    obtain ⟨r, mid'', hres, h₃⟩ := bind_eq_done.1 h₂
    obtain ⟨rfl, rfl⟩ := pure_eq_done.1 h₃
    have ho : OpensUnmarked g.rules .array mid mid' := by simp [OpensUnmarked, hc, hk]
    exact .inr ⟨_, rfl, .unmarkedConstructor ho (reads_specifier hg hr .array hs) (hr _ hres)⟩
  case leftParen =>
    rw [hk] at h₁
    obtain ⟨us, mid', hus, h₂⟩ := bind_eq_done.1 h₁
    obtain ⟨rfl, rfl⟩ := ahead_eq_done.1 hus
    split at h₂
    · rename_i hf
      obtain ⟨s, mid'', hs, h₃⟩ := bind_eq_done.1 h₂
      obtain ⟨r, mid''', hres, h₄⟩ := bind_eq_done.1 h₃
      obtain ⟨rfl, rfl⟩ := pure_eq_done.1 h₄
      have ho : OpensUnmarked g.rules .function mid' mid'' := by simp [OpensUnmarked, hc, hk, hf]
      exact .inr ⟨_, rfl,
        .unmarkedConstructor ho (reads_specifier hg hr .function hs) (hr _ hres)⟩
    · rename_i hf
      obtain ⟨rfl, rfl⟩ := pure_eq_done.1 h₂
      exact .inl ⟨rfl, rfl, by simp [opensConstructor, hc, hk, hf]⟩
  all_goals
    rw [hk] at h₁
    obtain ⟨rfl, rfl⟩ := pure_eq_done.1 h₁
    exact .inl ⟨rfl, rfl, by simp [opensConstructor, hc, hk]⟩

include hp in
theorem reads_constructor? : g.ReadsConstructor g.constructor? := by
  intro ts rest v h
  unfold Grammar.constructor? at h
  cases hc : g.rules.constructors with
  | lookahead => rw [hc] at h; exact reads_lookaheadConstructor hg hp hr hc h
  | keyword => rw [hc] at h; exact reads_keywordConstructor hg hr hc h
  | arrow => rw [hc] at h; exact reads_arrowConstructor hg hr hc h
  | parameter => rw [hc] at h; exact reads_parameterConstructor hg hr hc h
  | absent =>
    rw [hc] at h
    obtain ⟨rfl, rfl⟩ := pure_eq_done.1 h
    exact .inl ⟨rfl, rfl, by simp [opensConstructor, hc]⟩

/-! ## Operands and layers of operators -/

include hp in
theorem reads_primary : Reads g.rules .primary g.primary := by
  intro ts rest v h
  obtain ⟨token, mid, ht, h₁⟩ := bind_eq_done.1 h
  cases token with
  | some t =>
    obtain ⟨rfl, hl⟩ := eatAny_eq_some.1 ht
    obtain ⟨rfl, rfl⟩ := pure_eq_done.1 h₁
    exact .literal hl
  | none =>
    have heof : g.rules.literals.contains .eof = false :=
      Bool.eq_false_iff.2 fun h => (hp.literals h).2 rfl
    obtain ⟨rfl, hl⟩ := (eatAny_eq_none heof).1 ht
    obtain ⟨token, mid', ht', h₂⟩ := bind_eq_done.1 h₁
    cases token with
    | some t =>
      obtain ⟨rfl, hk⟩ := eat_eq_some.1 ht'
      obtain ⟨rfl, rfl⟩ := pure_eq_done.1 h₂
      exact .identifier hl hk
    | none =>
      obtain ⟨rfl, -⟩ := (eat_eq_none (by decide)).1 ht'
      obtain ⟨k, mid'', hk, h₃⟩ := bind_eq_done.1 h₂
      obtain ⟨rfl, rfl⟩ := peek_eq_done.1 hk
      cases hk : kindAt mid'' 0
      case leftParen => rw [hk] at h₃; exact .paren hl (reads_enclosed hg hr _ _ h₃)
      case leftBracket => rw [hk] at h₃; exact .bracket hl (reads_enclosed hg hr _ _ h₃)
      all_goals
        rw [hk] at h₃
        exact absurd h₃ fail_ne_done

omit hg hr in
/-- Before a token that opens no arguments, a suffix is a member or an operator. -/
theorem suffix?_apply {ts : List τ} (hp : kindAt ts 0 ≠ .leftParen)
    (hb : kindAt ts 0 ≠ .leftBracket) : g.suffix? ts = g.simpleSuffix? ts := by
  simp only [suffix?, bind_apply, peek]
  cases hk : kindAt ts 0 <;> rfl

/-- A suffix is read as one step of the suffixes behind a value, and where none is
yielded, no suffix follows. -/
theorem suffix?_cases {ts rest : List τ} {s : Option (Suffix τ)}
    (h : g.suffix? ts = .done s rest) :
    s = none ∧ rest = ts ∧ continuesValue g.rules (kindAt ts 0) = false ∨
      ∃ suffix, s = some suffix ∧ ∀ {v t : Tree τ} {rest' : List τ},
        Reading g.rules (.suffixes (suffix.attach v)) rest t rest' →
          Reading g.rules (.suffixes v) ts t rest' := by
  by_cases hparen : kindAt ts 0 = .leftParen
  · obtain ⟨k, mid, hk, h₁⟩ := bind_eq_done.1 h
    obtain ⟨rfl, rfl⟩ := peek_eq_done.1 hk
    rw [hparen] at h₁
    obtain ⟨a, mid', ha, h₂⟩ := bind_eq_done.1 h₁
    obtain ⟨rfl, rfl⟩ := pure_eq_done.1 h₂
    exact .inr ⟨_, rfl, fun h => .call (reads_enclosed hg hr _ _ ha) h⟩
  by_cases hbracket : kindAt ts 0 = .leftBracket
  · obtain ⟨k, mid, hk, h₁⟩ := bind_eq_done.1 h
    obtain ⟨rfl, rfl⟩ := peek_eq_done.1 hk
    rw [hbracket] at h₁
    obtain ⟨a, mid', ha, h₂⟩ := bind_eq_done.1 h₁
    obtain ⟨rfl, rfl⟩ := pure_eq_done.1 h₂
    exact .inr ⟨_, rfl, fun h => .index (reads_enclosed hg hr _ _ ha) h⟩
  rw [suffix?_apply hparen hbracket] at h
  obtain ⟨dot, mid, hdot, h₁⟩ := bind_eq_done.1 h
  cases dot with
  | some d =>
    obtain ⟨rfl, hd⟩ := eat_eq_some.1 hdot
    obtain ⟨name, mid', hname, h₂⟩ := bind_eq_done.1 h₁
    obtain ⟨rfl, rfl⟩ := pure_eq_done.1 h₂
    obtain ⟨n, mid'', hn, h₃⟩ := bind_eq_done.1 hname
    obtain ⟨rfl, hn'⟩ := expect_eq_done.1 hn
    obtain ⟨rfl, rfl⟩ := pure_eq_done.1 h₃
    exact .inr ⟨_, rfl, fun h => .member hd hn' h⟩
  | none =>
    obtain ⟨rfl, hd⟩ := (eat_eq_none (by decide)).1 hdot
    cases hcaret : g.rules.postfixCaret with
    | false =>
      simp only [hcaret] at h₁
      obtain ⟨rfl, rfl⟩ := pure_eq_done.1 h₁
      exact .inl ⟨rfl, rfl, by simp [continuesValue, hparen, hbracket, hd, hcaret]⟩
    | true =>
      simp only [hcaret] at h₁
      obtain ⟨c, mid', hc, h₂⟩ := bind_eq_done.1 h₁
      obtain ⟨rfl, rfl⟩ := pure_eq_done.1 h₂
      cases c with
      | none =>
        obtain ⟨rfl, hne⟩ := (eat_eq_none (by decide)).1 hc
        exact .inl ⟨rfl, rfl, by simp [continuesValue, hparen, hbracket, hd, hne]⟩
      | some c =>
        obtain ⟨rfl, hc'⟩ := eat_eq_some.1 hc
        exact .inr ⟨_, rfl, fun h => .caret hc' hcaret h⟩

omit hr in
/-- Suffixes are repeated. -/
theorem repeats_suffix? : g.suffix?.Repeats := by
  refine ⟨advances_suffix? hg, ?_⟩
  cases hcaret : g.rules.postfixCaret <;> simp [suffix?, bind_apply, peek, eat, hcaret]

theorem reading_of_suffixes {ts rest : List τ} {ss : List (Suffix τ)} (v : Tree τ)
    (h : many g.suffix? ts = .done ss rest) :
    Reading g.rules (.suffixes v) ts (ss.foldl Suffix.attach v) rest := by
  induction ss generalizing ts v with
  | nil =>
    obtain ⟨-, rfl, hn⟩ | ⟨s, hs, -⟩ :=
      suffix?_cases hg hr ((repeats_suffix? hg).many_eq_nil.1 h)
    · exact .suffixesEnd hn
    · cases hs
  | cons s ss ih =>
    obtain ⟨mid, hs, hss⟩ := (repeats_suffix? hg).many_eq_cons.1 h
    obtain ⟨hs', -⟩ | ⟨suffix, hs', hstep⟩ := suffix?_cases hg hr hs
    · cases hs'
    · cases hs'
      exact hstep (ih (s.attach v) hss)

include hp in
theorem reads_suffixed : Reads g.rules (.element .value) g.suffixed := by
  intro ts rest v h
  obtain ⟨value, mid, hv, h₁⟩ := bind_eq_done.1 h
  obtain ⟨ss, mid', hss, h₂⟩ := bind_eq_done.1 h₁
  obtain ⟨rfl, rfl⟩ := pure_eq_done.1 h₂
  exact .value (reads_primary hg hp hr hv) (reading_of_suffixes hg hr value hss)

include hp in
theorem reads_operand : Reads g.rules (.phrase .operand) g.operand := by
  intro ts rest v h
  obtain ⟨o, mid, ho, h₁⟩ := bind_eq_done.1 h
  cases o with
  | some o =>
    obtain ⟨rfl, ho'⟩ := eatAny_eq_some.1 ho
    obtain ⟨t, mid', ht, h₂⟩ := bind_eq_done.1 h₁
    obtain ⟨rfl, rfl⟩ := pure_eq_done.1 h₂
    exact .prefixOperand ho' (hr _ ht)
  | none =>
    have heof : g.rules.prefixOperators.contains .eof = false :=
      Bool.eq_false_iff.2 fun h => (hp.prefixes h).2 rfl
    obtain ⟨rfl, ho'⟩ := (eatAny_eq_none heof).1 ho
    obtain ⟨c, mid', hc, h₂⟩ := bind_eq_done.1 h₁
    obtain ⟨rfl, rfl, hn⟩ | ⟨t, rfl, ht⟩ := reads_constructor? hg hp hr hc
    · exact .valueOperand ho' hn (reads_suffixed hg hp hr h₂)
    · obtain ⟨rfl, rfl⟩ := pure_eq_done.1 h₂
      exact .constructorOperand ho' ht

/-- The parser of a layer of operators: the layers up to a level have operands between
them. -/
def layerParser (g : Grammar τ) : Nat → TokenParser τ (Tree τ)
  | 0 => g.operand
  | n + 1 => leftAssociative (layerOperators n) (layerParser g n)

omit hr in
theorem consumes_layerParser (n : Nat) : (g.layerParser n).Consumes := by
  induction n with
  | zero => exact consumes_operand hg
  | succ n ih => exact consumes_leftAssociative ih

omit hg hr in
/-- Operations are repeated. -/
theorem repeats_operation? {operators : KindSet} {p : TokenParser τ (Tree τ)} (hp : p.Consumes) :
    (operation? operators p).Repeats :=
  ⟨advances_operation? hp, rfl⟩

omit hg hr in
/-- Left-associative operations are read one after the other. -/
theorem reading_of_operations {rules : Rules} {n : Nat} {p : TokenParser τ (Tree τ)}
    (hp : Reads rules (.layer n) p) (hc : p.Consumes) {ts rest : List τ}
    {os : List (τ × Tree τ)} (l : Tree τ)
    (h : many (operation? (layerOperators n) p) ts = .done os rest) :
    Reading rules (.operations n l) ts
      (os.foldl (fun left (operator, right) => .infixOp left operator right) l) rest := by
  have heof : (layerOperators n).contains .eof = false :=
    Bool.eq_false_iff.2 fun h => (layerOperators_proper h).2 rfl
  induction os generalizing ts l with
  | nil =>
    obtain ⟨o, mid, ho, h₁⟩ := bind_eq_done.1 ((repeats_operation? hc).many_eq_nil.1 h)
    cases o with
    | none =>
      obtain ⟨-, rfl⟩ := pure_eq_done.1 h₁
      obtain ⟨rfl, hn⟩ := (eatAny_eq_none heof).1 ho
      exact .operationsEnd hn
    | some o =>
      obtain ⟨r, mid', -, h₂⟩ := bind_eq_done.1 h₁
      cases (pure_eq_done.1 h₂).1
  | cons pair os ih =>
    obtain ⟨mid, hpair, hos⟩ := (repeats_operation? hc).many_eq_cons.1 h
    obtain ⟨o, mid', ho, h₁⟩ := bind_eq_done.1 hpair
    cases o with
    | none => cases (pure_eq_done.1 h₁).1
    | some o =>
      obtain ⟨r, mid'', hr, h₂⟩ := bind_eq_done.1 h₁
      obtain ⟨hpair', rfl⟩ := pure_eq_done.1 h₂
      cases hpair'
      obtain ⟨rfl, ho'⟩ := eatAny_eq_some.1 ho
      exact .operation ho' (hp hr) (ih (.infixOp l o r) hos)

include hp in
theorem reads_layerParser (n : Nat) : Reads g.rules (.layer n) (g.layerParser n) := by
  induction n with
  | zero => exact fun h => .layerOperand (reads_operand hg hp hr h)
  | succ n ih =>
    intro ts rest v h
    obtain ⟨l, mid, hl, h₁⟩ := bind_eq_done.1 h
    obtain ⟨os, mid', hos, h₂⟩ := bind_eq_done.1 h₁
    obtain ⟨rfl, rfl⟩ := pure_eq_done.1 h₂
    exact .layer (ih hl) (reading_of_operations ih (consumes_layerParser hg n) l hos)

include hp in
theorem reads_disjunction : Reads g.rules (.layer 6) g.disjunction := reads_layerParser hg hp hr 6

include hp in
theorem reads_implication : Reads g.rules (.phrase .implication) g.implication := by
  have heof : g.rules.implicationOperators.contains .eof = false :=
    Bool.eq_false_iff.2 fun h => (hp.implications h).2 rfl
  intro ts rest v h
  obtain ⟨l, mid, hl, h₁⟩ := bind_eq_done.1 h
  obtain ⟨o, mid', ho, h₂⟩ := bind_eq_done.1 h₁
  cases o with
  | none =>
    obtain ⟨rfl, hn⟩ := (eatAny_eq_none heof).1 ho
    obtain ⟨rfl, rfl⟩ := pure_eq_done.1 h₂
    exact .implicationEnd (reads_disjunction hg hp hr hl) hn
  | some o =>
    obtain ⟨rfl, ho'⟩ := eatAny_eq_some.1 ho
    obtain ⟨r, mid'', hres, h₃⟩ := bind_eq_done.1 h₂
    obtain ⟨rfl, rfl⟩ := pure_eq_done.1 h₃
    exact .implication (reads_disjunction hg hp hr hl) ho' (hr _ hres)

include hp in
theorem reads_assignment : Reads g.rules (.phrase .assignment) g.assignment := by
  intro ts rest v h
  obtain ⟨l, mid, hl, h₁⟩ := bind_eq_done.1 h
  obtain ⟨o, mid', ho, h₂⟩ := bind_eq_done.1 h₁
  cases o with
  | none =>
    obtain ⟨rfl, hn⟩ := (eat_eq_none (by decide)).1 ho
    obtain ⟨rfl, rfl⟩ := pure_eq_done.1 h₂
    exact .assignmentEnd (reads_implication hg hp hr hl) hn
  | some o =>
    obtain ⟨rfl, ho'⟩ := eat_eq_some.1 ho
    obtain ⟨r, mid'', hres, h₃⟩ := bind_eq_done.1 h₂
    obtain ⟨rfl, rfl⟩ := pure_eq_done.1 h₃
    exact .assignment (reads_implication hg hp hr hl) ho' (hr _ hres)

/-! ## Control constructs -/

theorem reads_alternative : Reads g.rules .alternative g.alternative := by
  intro ts rest v h
  obtain ⟨k, mid, hk, h₁⟩ := bind_eq_done.1 h
  obtain ⟨rfl, rfl⟩ := peek_eq_done.1 hk
  split at h₁
  · exact .furtherChoice ‹_› (hr _ h₁)
  · exact .lastChoice ‹_› (reads_block hg hr h₁)

theorem reads_conditional : Reads g.rules (.phrase .conditional) g.conditional := by
  intro ts rest v h
  obtain ⟨k, mid, hk, h₁⟩ := bind_eq_done.1 h
  obtain ⟨c, mid', hc, h₂⟩ := bind_eq_done.1 h₁
  obtain ⟨b, mid'', hb, h₃⟩ := bind_eq_done.1 h₂
  obtain ⟨e, mid''', he, h₄⟩ := bind_eq_done.1 h₃
  obtain ⟨rfl, hk'⟩ := expect_eq_done.1 hk
  have hc' := reads_enclosed hg hr _ _ hc
  have hb' := reads_block hg hr hb
  cases e with
  | none =>
    obtain ⟨rfl, hn⟩ := (eat_eq_none (by decide)).1 he
    obtain ⟨rfl, rfl⟩ := pure_eq_done.1 h₄
    exact .conditional hk' hc' hb' hn
  | some e =>
    obtain ⟨rfl, he'⟩ := eat_eq_some.1 he
    obtain ⟨a, mid'''', ha, h₅⟩ := bind_eq_done.1 h₄
    obtain ⟨rfl, rfl⟩ := pure_eq_done.1 h₅
    exact .choice hk' hc' hb' he' (reads_alternative hg hr ha)

include hp in
theorem reads_branch : Reads g.rules (.element .branch) g.branch := by
  intro ts rest v h
  obtain ⟨p, mid, hpat, h₁⟩ := bind_eq_done.1 h
  obtain ⟨a, mid', ha, h₂⟩ := bind_eq_done.1 h₁
  obtain ⟨b, mid'', hb, h₃⟩ := bind_eq_done.1 h₂
  obtain ⟨rfl, rfl⟩ := pure_eq_done.1 h₃
  obtain ⟨rfl, ha'⟩ := expect_eq_done.1 ha
  exact .branch (reads_disjunction hg hp hr hpat) ha' (reads_block hg hr hb)

include hp in
theorem reads_caseDistinction : Reads g.rules .control g.caseDistinction := by
  intro ts rest v h
  obtain ⟨k, mid, hk, h₁⟩ := bind_eq_done.1 h
  obtain ⟨s, mid', hs, h₂⟩ := bind_eq_done.1 h₁
  obtain ⟨bs, mid'', hbs, h₃⟩ := bind_eq_done.1 h₂
  obtain ⟨rfl, rfl⟩ := pure_eq_done.1 h₃
  obtain ⟨rfl, hk'⟩ := expect_eq_done.1 hk
  exact .caseDistinction hk' (reads_enclosed hg hr _ _ hs)
    (reads_separatedBy (reads_branch hg hp hr) (consumes_branch hg).trims hbs)

theorem reads_loop {word : TokenKind} (hw : word = .forKw ∨ word = .whileKw) :
    Reads g.rules .control (g.loop word) := by
  intro ts rest v h
  obtain ⟨k, mid, hk, h₁⟩ := bind_eq_done.1 h
  obtain ⟨c, mid', hc, h₂⟩ := bind_eq_done.1 h₁
  obtain ⟨b, mid'', hb, h₃⟩ := bind_eq_done.1 h₂
  obtain ⟨rfl, rfl⟩ := pure_eq_done.1 h₃
  obtain ⟨rfl, rfl⟩ := expect_eq_done.1 hk
  exact .loop hw (reads_enclosed hg hr _ _ hc) (reads_block hg hr hb)

theorem reads_doBlock : Reads g.rules .control g.doBlock := by
  intro ts rest v h
  obtain ⟨k, mid, hk, h₁⟩ := bind_eq_done.1 h
  obtain ⟨b, mid', hb, h₂⟩ := bind_eq_done.1 h₁
  obtain ⟨c, mid'', hc, h₃⟩ := bind_eq_done.1 h₂
  obtain ⟨rfl, rfl⟩ := pure_eq_done.1 h₃
  obtain ⟨rfl, hk'⟩ := expect_eq_done.1 hk
  obtain ⟨next, mid''', hnext, h₄⟩ := bind_eq_done.1 hc
  obtain ⟨rfl, rfl⟩ := peek_eq_done.1 hnext
  obtain ⟨us, mid'''', hus, h₅⟩ := bind_eq_done.1 h₄
  obtain ⟨rfl, rfl⟩ := ahead_eq_done.1 hus
  split at h₅
  · rename_i hloop
    obtain ⟨hwhile, hstart⟩ := Bool.and_eq_true_iff.1 hloop
    obtain ⟨w, mid, hw, h₆⟩ := bind_eq_done.1 h₅
    obtain ⟨t, mid', ht, h₇⟩ := bind_eq_done.1 h₆
    obtain ⟨rfl, rfl⟩ := pure_eq_done.1 h₇
    obtain ⟨rfl, hw'⟩ := expect_eq_done.1 hw
    exact .doWhile hk' (reads_block hg hr hb) hw' (by simpa using hstart)
      (reads_enclosed hg hr _ _ ht)
  · rename_i hloop
    obtain ⟨rfl, rfl⟩ := pure_eq_done.1 h₅
    exact .doBlock hk' (reads_block hg hr hb) (by simpa using hloop)

theorem reads_functionHead : Reads g.rules .functionHead g.functionHead := by
  intro ts rest v h
  obtain ⟨k, mid, hk, h₁⟩ := bind_eq_done.1 h
  obtain ⟨rfl, rfl⟩ := peek_eq_done.1 hk
  split at h₁
  · obtain ⟨c, mid', hc, h₂⟩ := bind_eq_done.1 h₁
    obtain ⟨p, mid'', hpar, h₃⟩ := bind_eq_done.1 h₂
    obtain ⟨rfl, rfl⟩ := pure_eq_done.1 h₃
    exact .captures ‹_› (reads_enclosed hg hr _ _ hc) (reads_enclosed hg hr _ _ hpar)
  · exact .noCaptures ‹_› (reads_enclosed hg hr _ _ h₁)

theorem reads_functionValue : Reads g.rules .control g.functionValue := by
  intro ts rest v h
  obtain ⟨k, mid, hk, h₁⟩ := bind_eq_done.1 h
  obtain ⟨f, mid', hf, h₂⟩ := bind_eq_done.1 h₁
  obtain ⟨b, mid'', hb, h₃⟩ := bind_eq_done.1 h₂
  obtain ⟨rfl, rfl⟩ := pure_eq_done.1 h₃
  obtain ⟨rfl, hk'⟩ := expect_eq_done.1 hk
  exact .functionValue hk' (reads_functionHead hg hr hf) (reads_block hg hr hb)

theorem reads_scope : Reads g.rules .scope g.scope := by
  intro ts rest v h
  obtain ⟨k, mid, hk, h₁⟩ := bind_eq_done.1 h
  obtain ⟨rfl, rfl⟩ := peek_eq_done.1 hk
  split at h₁
  · exact .blockScope ‹_› (reads_block hg hr h₁)
  · exact .expressionScope ‹_› (hr _ h₁)

theorem reads_localBinding : Reads g.rules .control g.localBinding := by
  intro ts rest v h
  obtain ⟨k, mid, hk, h₁⟩ := bind_eq_done.1 h
  obtain ⟨p, mid', hpar, h₂⟩ := bind_eq_done.1 h₁
  obtain ⟨s, mid'', hs, h₃⟩ := bind_eq_done.1 h₂
  obtain ⟨rfl, rfl⟩ := pure_eq_done.1 h₃
  obtain ⟨rfl, hk'⟩ := expect_eq_done.1 hk
  exact .localBinding hk' (reads_enclosed hg hr _ _ hpar) (reads_scope hg hr hs)

include hp in
theorem reads_control : Reads g.rules .control g.control := by
  intro ts rest v h
  obtain ⟨k, mid, hk, h₁⟩ := bind_eq_done.1 h
  obtain ⟨rfl, rfl⟩ := peek_eq_done.1 hk
  cases hk : kindAt mid 0
  case ifKw => rw [hk] at h₁; exact .conditionalControl hk (reads_conditional hg hr h₁)
  case caseKw => rw [hk] at h₁; exact reads_caseDistinction hg hp hr h₁
  case forKw => rw [hk] at h₁; exact reads_loop hg hr (.inl rfl) h₁
  case whileKw => rw [hk] at h₁; exact reads_loop hg hr (.inr rfl) h₁
  case doKw => rw [hk] at h₁; exact reads_doBlock hg hr h₁
  case lambdaKw => rw [hk] at h₁; exact reads_functionValue hg hr h₁
  case letKw => rw [hk] at h₁; exact reads_localBinding hg hr h₁
  all_goals
    rw [hk] at h₁
    exact absurd h₁ fail_ne_done

/-! ## Expressions, definitions and statements -/

include hp

theorem reads_expression : Reads g.rules (.phrase .expression) g.expression := by
  intro ts rest v h
  obtain ⟨us, mid, hus, h₁⟩ := bind_eq_done.1 h
  obtain ⟨rfl, rfl⟩ := ahead_eq_done.1 hus
  split at h₁
  · exact .controlExpression ‹_› (reads_control hg hp hr h₁)
  · exact .assignmentExpression (Bool.eq_false_iff.2 ‹_›) (reads_assignment hg hp hr h₁)

omit hp in
/-- What follows the names of a definition is a semicolon behind a type, a block, or a
value and a semicolon. -/
theorem reading_of_defined (i : Option τ) (d : Tree τ) {ts rest : List τ} {t : Tree τ}
    (h : (do
      let type ← g.typing
      match ← terminator? type.isSome with
      | some terminator => return .declaration i (some d) type none (some terminator)
      | none =>
        let (value, terminator) ← g.definiens
        return .declaration i (some d) type (some value) terminator : TokenParser τ (Tree τ)) ts =
      .done t rest) : Reading g.rules (.defined i d) ts t rest := by
  obtain ⟨type, mid, ht, h₁⟩ := bind_eq_done.1 h
  obtain ⟨s, mid', hs, h₂⟩ := bind_eq_done.1 h₁
  cases s with
  | some s =>
    obtain ⟨rfl, rfl⟩ := pure_eq_done.1 h₂
    cases type with
    | none => cases (pure_eq_done.1 hs).1
    | some type =>
      obtain ⟨rfl, hs'⟩ := eat_eq_some.1 hs
      exact .typedOnly (reads_typing hr ht) hs'
  | none =>
    have hmid : mid' = mid := by
      cases type with
      | none => exact (pure_eq_done.1 hs).2.symm
      | some type => exact ((eat_eq_none (by decide)).1 hs).1
    subst hmid
    obtain ⟨⟨v, terminator⟩, mid'', hv, h₃⟩ := bind_eq_done.1 h₂
    obtain ⟨rfl, rfl⟩ := pure_eq_done.1 h₃
    obtain ⟨k, mid''', hk, h₄⟩ := bind_eq_done.1 hv
    obtain ⟨rfl, rfl⟩ := peek_eq_done.1 hk
    split at h₄
    · obtain ⟨b, mid', hb, h₅⟩ := bind_eq_done.1 h₄
      obtain ⟨hpair, rfl⟩ := pure_eq_done.1 h₅
      cases hpair
      exact .definedBlock (reads_typing hr ht) (reads_block hg hr hb)
    · obtain ⟨e, mid', he, h₅⟩ := bind_eq_done.1 h₄
      obtain ⟨x, mid'', hx, h₆⟩ := bind_eq_done.1 h₅
      obtain ⟨s, mid''', hsemi, h₇⟩ := bind_eq_done.1 h₆
      obtain ⟨hpair, rfl⟩ := pure_eq_done.1 h₇
      cases hpair
      obtain ⟨rfl, he'⟩ := expect_eq_done.1 he
      obtain ⟨rfl, hs'⟩ := expect_eq_done.1 hsemi
      exact .definedValue (reads_typing hr ht) he' (hr _ hx) hs'

theorem reads_definition : Reads g.rules .definition g.definition := by
  intro ts rest v h
  obtain ⟨i, mid, hi, h₁⟩ := bind_eq_done.1 h
  obtain ⟨d, mid', hd, h₂⟩ := bind_eq_done.1 h₁
  have hdef := reading_of_defined hg hr i d h₂
  cases i with
  | some i =>
    obtain ⟨rfl, hi'⟩ := eat_eq_some.1 hi
    obtain ⟨ds, mid'', hds, h₃⟩ := bind_eq_done.1 hd
    obtain ⟨rfl, rfl⟩ := pure_eq_done.1 h₃
    exact .introduced hi'
      (reads_separatedBy (reads_suffixed hg hp hr) (consumes_suffixed hg).trims hds) hdef
  | none =>
    obtain ⟨rfl, hn⟩ := (eat_eq_none (by decide)).1 hi
    obtain ⟨ns, rfl, hns⟩ := reading_of_identifiers hd
    exact .unintroduced hn hns hdef

theorem reads_statement : Reads g.rules (.phrase .statement) g.statement := by
  intro ts rest v h
  obtain ⟨us, mid, hus, h₁⟩ := bind_eq_done.1 h
  obtain ⟨rfl, rfl⟩ := ahead_eq_done.1 hus
  split at h₁
  · exact .definitionStatement ‹_› (reads_definition hg hp hr h₁)
  · rename_i hd
    split at h₁
    · rename_i hc
      obtain ⟨t, mid', ht, h₂⟩ := bind_eq_done.1 h₁
      obtain ⟨s, mid'', hs, h₃⟩ := bind_eq_done.1 h₂
      obtain ⟨rfl, rfl⟩ := pure_eq_done.1 h₃
      have ht' := reads_control hg hp hr ht
      cases s with
      | none =>
        obtain ⟨rfl, hn⟩ := (eat_eq_none (by decide)).1 hs
        exact .controlStatement (Bool.eq_false_iff.2 hd) hc ht' hn
      | some s =>
        obtain ⟨rfl, hs'⟩ := eat_eq_some.1 hs
        exact .terminatedControl (Bool.eq_false_iff.2 hd) hc ht' hs'
    · rename_i hc
      obtain ⟨t, mid', ht, h₂⟩ := bind_eq_done.1 h₁
      obtain ⟨s, mid'', hs, h₃⟩ := bind_eq_done.1 h₂
      obtain ⟨rfl, rfl⟩ := pure_eq_done.1 h₃
      obtain ⟨rfl, hs'⟩ := expect_eq_done.1 hs
      exact .expressionStatement (Bool.eq_false_iff.2 hd) (Bool.eq_false_iff.2 hc)
        (reads_expression hg hp hr ht) hs'

/-! ## All phrases -/

/-- The results of a phrase have readings if those of the phrases nested in it do. -/
theorem reads_body (phrase : Phrase) : Reads g.rules (.phrase phrase) (g.body phrase) := by
  cases phrase with
  | operand => exact reads_operand hg hp hr
  | implication => exact reads_implication hg hp hr
  | assignment => exact reads_assignment hg hp hr
  | expression => exact reads_expression hg hp hr
  | statement => exact reads_statement hg hp hr
  | conditional => exact reads_conditional hg hr

omit hg hp hr

/-- The results of phrases of every depth have readings. -/
theorem reads_nested {rules : Rules} (hp : rules.Proper) (depth : Nat) (phrase : Phrase) :
    Reads rules (.phrase phrase) (nested rules depth phrase : TokenParser τ (Tree τ)) := by
  induction depth generalizing phrase with
  | zero => exact fun h => absurd h fail_ne_done
  | succ depth ih =>
    exact reads_body (g := ⟨rules, nested rules depth⟩) (consumes_nested rules depth) hp ih phrase

/-- The results of the phrases of a dialect have readings. -/
theorem reads_ofRules {rules : Rules} (hp : rules.Proper) (phrase : Phrase) :
    Reads rules (.phrase phrase) ((ofRules rules : Grammar τ).phrase phrase) :=
  fun {ts _ _} h => reads_nested hp (ts.length + 1) phrase h

/-- Declarations are repeated up to the end of the text. -/
theorem repeats_declaration (rules : Rules) :
    (unlessNext .eof (ofRules rules : Grammar τ).declaration).Repeats :=
  ⟨(consumes_declaration (consumes_ofRules rules)).unlessNext _, rfl⟩

/-- The declarations of a file have readings. -/
theorem reads_declarations {rules : Rules} (hp : rules.Proper) :
    Reads rules .declarations
      (many (unlessNext .eof (ofRules rules : Grammar τ).declaration)) := by
  intro ts rest v h
  induction v generalizing ts with
  | nil =>
    obtain ⟨rfl, hk⟩ := unlessNext_eq_none.1 ((repeats_declaration rules).many_eq_nil.1 h)
    exact .noDeclarations hk
  | cons d ds ih =>
    obtain ⟨mid, hd, hds⟩ := (repeats_declaration rules).many_eq_cons.1 h
    obtain ⟨-, hd'⟩ := unlessNext_eq_some.1 hd
    obtain ⟨us, mid', hus, h₁⟩ := bind_eq_done.1 hd'
    obtain ⟨rfl, rfl⟩ := ahead_eq_done.1 hus
    split at h₁
    · exact .declarations ‹_›
        (reads_definition (consumes_ofRules rules) hp (reads_ofRules hp) h₁) (ih hds)
    · exact absurd h₁ fail_ne_done

end Grammar

/-- A file that is accepted holds declarations that have a reading. -/
theorem reading_of_parseTokens {τ : Type} [HasKind τ] {dialect : Dialect} {ts rest : List τ}
    {t : Tree τ} (h : parseTokens dialect ts = .done t rest) :
    ∃ ds, t = .file (Tree.sequence? ds) ∧ Reading dialect.rules .declarations ts ds rest := by
  obtain ⟨ds, mid, hds, h₁⟩ := bind_eq_done.1 h
  obtain ⟨rfl, rfl⟩ := pure_eq_done.1 h₁
  exact ⟨ds, rfl, Grammar.reads_declarations dialect.proper_rules hds⟩

end ConcreteSyntax
