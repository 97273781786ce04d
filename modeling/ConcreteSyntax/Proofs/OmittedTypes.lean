import ConcreteSyntax.Proofs.LastTokens
import ConcreteSyntax.Proofs.ReadNodes

/-!
# Types that are left out

A type behind a colon may be left out in front of an equals sign or of a constraint. What follows a
colon is therefore one of these two or the beginning of an operand, in whatever way the colon was
reached. In front of a block, and at the end of a parameter, a type has to be written: without its
tokens the colon stands in front of a brace, a separator or a closing delimiter, and no dialect
accepts such a text.
-/

namespace ConcreteSyntax

open TokenParser Grammar

/-! ## Tokens behind colons -/

/-- The kinds of the tokens that may follow a colon. -/
def Rules.colonFollowers (rules : Rules) : KindSet :=
  rules.operandBeginnings.union typeOmitted

variable {τ : Type} [HasKind τ] {rules : Rules}

/-- That tokens are taken from the front of others, and that each colon among them stands in front
of a token that may follow it. -/
inductive ColonsTo (rules : Rules) : List τ → List τ → Prop
  | refl (ts : List τ) : ColonsTo rules ts ts
  | token {t : τ} {ts rest : List τ}
    (ht : kind t = .colon → rules.colonFollowers.contains (kindAt ts 0) = true)
    (h : ColonsTo rules ts rest) : ColonsTo rules (t :: ts) rest

namespace ColonsTo

variable {ts mid rest : List τ}

/-- Tokens may be taken one after another. -/
theorem trans (h : ColonsTo rules ts mid) (h' : ColonsTo rules mid rest) :
    ColonsTo rules ts rest := by
  induction h with
  | refl => exact h'
  | token ht _ ih => exact .token ht (ih h')

/-- A token that is no colon may be taken. -/
theorem cons {t : τ} (hk : kind t ≠ .colon) (h : ColonsTo rules ts rest) :
    ColonsTo rules (t :: ts) rest :=
  .token (fun hcolon => absurd hcolon hk) h

/-- A token of a given kind other than a colon may be taken. -/
theorem consOf {t : τ} {k : TokenKind} (ht : kind t = k) (h : ColonsTo rules ts rest)
    (hk : k ≠ .colon := by decide) : ColonsTo rules (t :: ts) rest :=
  cons (ht ▸ hk) h

/-- A colon that is taken with all tokens behind it stands in front of a token that may follow
it. -/
theorem follower {front us : List τ} {c : τ} (h : ColonsTo rules (front ++ c :: us) [])
    (hc : kind c = .colon) : rules.colonFollowers.contains (kindAt us 0) = true := by
  induction front with
  | nil =>
    cases h with
    | token ht => exact ht hc
  | cons t front ih =>
    cases h with
    | token _ h => exact ih h

end ColonsTo

/-- Operators and literals are no colons. -/
theorem Rules.Extensible.ne_colon (he : rules.Extensible) {k : TokenKind}
    (h : rules.literals.contains k = true ∨ rules.prefixOperators.contains k = true ∨
      rules.implicationOperators.contains k = true ∨
      ∃ n, (layerOperators n).contains k = true) : k ≠ .colon := by
  rcases h with h | h | h | ⟨n, h⟩
  · refine kind_ne_of_nonStarters (he.beginnings k ?_).1 rfl
    simp only [operandBeginnings, KindSet.contains_union, h, Bool.or_true, Bool.true_or]
  · refine kind_ne_of_nonStarters (he.beginnings k ?_).1 rfl
    simp only [operandBeginnings, KindSet.contains_union, h, Bool.or_true]
  · rcases he.arrows k h with rfl | rfl <;> decide
  · rintro rfl
    have hlevel := (operatorLevel?_of_layer h).2.2.2.2
    contradiction

/-- What begins a type may follow a colon. -/
theorem Reading.colonFollowers_of_type {ts rest : List τ} {t : Tree τ}
    (h : Reading rules .type ts t rest) : rules.colonFollowers.contains (kindAt ts 0) = true := by
  rw [Rules.colonFollowers, KindSet.contains_union, h.operandBeginnings trivial, Bool.true_or]

/-- Delimiters are no colons. -/
theorem IsDelimiters.ne_colon {opening closing : TokenKind} (h : IsDelimiters opening closing) :
    opening ≠ .colon ∧ closing ≠ .colon := by
  obtain ⟨hopening, hclosing, -⟩ := h
  constructor <;> rintro rfl <;> contradiction

/-- Whatever has a reading has its colons in front of tokens that may follow them. -/
theorem Reading.colonsTo (he : rules.Extensible) {c : Category τ} {ts rest : List τ}
    {v : c.Result} (h : Reading rules c ts v rest) (hdel : c.Delimited) :
    ColonsTo rules ts rest := by
  have paren : IsDelimiters .leftParen .rightParen := by unfold IsDelimiters; decide
  have bracket : IsDelimiters .leftBracket .rightBracket := by unfold IsDelimiters; decide
  have htyped : ∀ {c : τ} {ts rest : List τ}, rules.colonFollowers.contains (kindAt ts 0) = true →
      ColonsTo rules ts rest → ColonsTo rules (c :: ts) rest := fun hn h => .token (fun _ => hn) h
  have homitted : ∀ {k : TokenKind}, typeOmitted.contains k = true →
      rules.colonFollowers.contains k = true := fun hk => by
    rw [Rules.colonFollowers, KindSet.contains_union, hk, Bool.or_true]
  induction h with
  | name hk | identifier _ hk => exact .consOf hk (.refl _)
  | literal hl => exact .cons (he.ne_colon (.inl hl)) (.refl _)
  | noInitial | noStatements | suffixesEnd | operationsEnd | noDeclarations => exact .refl _
  | @more e _ _ _ _ _ _ _ hs _ ih ih' =>
    exact (ih trivial).trans (.cons (by rw [hs]; cases e <;> decide) (ih' trivial))
  | omittedType _ hn => exact htyped (homitted (by rw [hn]; decide)) (.refl _)
  | plainType _ _ h _ ih => exact htyped h.colonFollowers_of_type (ih trivial)
  | constrainedType _ _ h hm _ ih ih' =>
    exact htyped h.colonFollowers_of_type ((ih trivial).trans (.consOf hm (ih' trivial)))
  | colonConstraint _ hm _ ih =>
    exact htyped (homitted (by rw [kindAt_cons_zero, hm]; decide)) (.consOf hm (ih trivial))
  | bareConstraint hk _ ih | initial hk _ ih | doBlock hk _ _ ih | caret hk _ _ ih =>
    exact .consOf hk (ih trivial)
  | namedParameter _ _ _ _ ih ih' ih'' =>
    exact (ih trivial).trans ((ih' trivial).trans (ih'' trivial))
  | emptyEnclosure ha hb =>
    exact .cons (ha ▸ hdel.ne_colon.1) (.cons (hb ▸ hdel.ne_colon.2) (.refl _))
  | enclosure ha _ _ hb ih =>
    exact .cons (ha ▸ hdel.ne_colon.1)
      ((ih trivial).trans (.cons (hb ▸ hdel.ne_colon.2) (.refl _)))
  | block ha _ hb ih => exact .consOf ha ((ih trivial).trans (.consOf hb (.refl _)))
  | @wordConstructor sort _ _ _ _ _ _ _ hm _ _ ih ih' =>
    exact .cons (by rw [hm]; cases sort <;> decide) ((ih sort.isDelimiters).trans (ih' trivial))
  | @unmarkedConstructor sort _ _ _ _ _ _ _ _ ih ih' =>
    exact (ih sort.isDelimiters).trans (ih' trivial)
  | @markedConstructor sort _ _ _ _ _ _ _ hm _ _ ih ih' =>
    exact (ih sort.isDelimiters).trans (.cons (by rw [hm]; cases sort <;> decide) (ih' trivial))
  | call _ _ ih ih' => exact (ih paren).trans (ih' trivial)
  | index _ _ ih ih' => exact (ih bracket).trans (ih' trivial)
  | paren _ _ ih | noCaptures _ _ ih => exact ih paren
  | bracket _ _ ih => exact ih bracket
  | member hd hn _ ih => exact .consOf hd (.consOf hn (ih trivial))
  | prefixOperand ho _ ih => exact .cons (he.ne_colon (.inr (.inl ho))) (ih trivial)
  | operation ho _ _ ih ih' =>
    exact .cons (he.ne_colon (.inr (.inr (.inr ⟨_, ho⟩)))) ((ih trivial).trans (ih' trivial))
  | implication _ ho _ ih ih' =>
    exact (ih trivial).trans (.cons (he.ne_colon (.inr (.inr (.inl ho)))) (ih' trivial))
  | assignment _ hk _ ih ih' | branch _ hk _ ih ih' =>
    exact (ih trivial).trans (.consOf hk (ih' trivial))
  | conditional hk _ _ _ ih ih' | caseDistinction hk _ _ ih ih' | localBinding hk _ _ ih ih' =>
    exact .consOf hk ((ih paren).trans (ih' trivial))
  | choice hk _ _ hword _ ih ih' ih'' =>
    exact .consOf hk ((ih paren).trans ((ih' trivial).trans (.consOf hword (ih'' trivial))))
  | loop hk _ _ ih ih' =>
    exact .cons (by rcases hk with hk | hk <;> (rw [hk]; decide)) ((ih paren).trans (ih' trivial))
  | doWhile hk _ hw _ _ ih ih' => exact .consOf hk ((ih trivial).trans (.consOf hw (ih' paren)))
  | captures _ _ _ ih ih' => exact (ih bracket).trans (ih' paren)
  | functionValue hk _ _ ih ih' | introduced hk _ _ ih ih' =>
    exact .consOf hk ((ih trivial).trans (ih' trivial))
  | typedOnly _ hs ih | terminatedControl _ _ _ hs ih | expressionStatement _ _ _ hs ih =>
    exact (ih trivial).trans (.consOf hs (.refl _))
  | definedValue _ hk _ hs ih ih' =>
    exact (ih trivial).trans (.consOf hk ((ih' trivial).trans (.consOf hs (.refl _))))
  | unnamedParameter _ _ _ ih ih' | statements _ _ _ _ ih ih' | value _ _ ih ih'
  | layer _ _ ih ih' | definedBlock _ _ ih ih' | unintroduced _ _ _ ih ih'
  | declarations _ _ _ ih ih' => exact (ih trivial).trans (ih' trivial)
  | last _ _ ih | operandType _ _ ih | implicationType _ _ ih | parameterItem _ _ ih
  | expressionItem _ _ ih | items _ ih | constructorOperand _ _ ih | valueOperand _ _ _ ih
  | layerOperand _ ih | implicationEnd _ _ ih | assignmentEnd _ _ ih | furtherChoice _ _ ih
  | lastChoice _ _ ih | conditionalControl _ _ ih | blockScope _ _ ih | expressionScope _ _ ih
  | controlExpression _ _ ih | assignmentExpression _ _ ih | definitionStatement _ _ ih
  | controlStatement _ _ _ _ ih => exact ih trivial

/-! ## Types between a colon and what follows -/

/-- That tokens are those of a tree: they begin and end with its first and its last token, and all
of them but separators are its tokens in order. -/
structure Tree.Spells (t : Tree τ) (used : List τ) : Prop where
  /-- There are tokens. -/
  nonempty : used ≠ []
  /-- The first token of the tree comes first. -/
  first : used.head? = t.tokens.head?
  /-- The last token of the tree comes last. -/
  last : used.getLast? = t.tokens.getLast?
  /-- Only separators are left out by the tree. -/
  keeps : Keeps (fun b => droppedKinds.contains (HasKind.kind b) = true) t.tokens used

/-- The tokens that are read as a type are those of its tree. -/
theorem Reading.spells_of_type (d : Dialect) {ts rest : List τ} {t : Tree τ}
    (h : Reading d.rules .type ts t rest) : ∃ used, ts = used ++ rest ∧ t.Spells used := by
  have hdropped : ∀ k, nonStarters.contains k = false → droppedKinds.contains k = false :=
    TokenKind.forall_of_all (by decide)
  have hkeeps : KeepsTo ts t.tokens rest := h.ordered
  have hbegins := h.nonStarters_of_operand d.extensible_rules trivial
  obtain ⟨first, others, hfirst, hhead⟩ := hkeeps.exists_first h.taken_le (hdropped _ hbegins)
  obtain ⟨used, last, hlast, hend, -⟩ := EndsIn.exists_last d h.ends.lastKinds hkeeps
  obtain ⟨used', hused, hkept⟩ := hkeeps
  obtain rfl : used ++ [last] = used' :=
    List.append_cancel_right (by rw [← hused, hlast]; simp)
  refine ⟨used ++ [last], hused, by simp, ?_, by rw [hend]; simp, hkept⟩
  cases used with
  | nil => simpa [hhead] using (List.cons_eq_cons.1 (hlast.symm.trans hfirst)).1
  | cons u used => simpa [hhead] using (List.cons_eq_cons.1 (hlast.symm.trans hfirst)).1

/-- A type without a constraint is read behind a colon. -/
theorem Reading.colon_of_typing {ts rest : List τ} {t : Tree τ}
    (h : Reading rules .typing ts (some t) rest) (ht : t.isConstraint = false) :
    ∃ c us, ts = c :: us ∧ kind c = .colon ∧ Reading rules .type us t rest := by
  cases h with
  | plainType hc _ h => exact ⟨_, _, rfl, hc, h⟩
  | constrainedType | colonConstraint | bareConstraint => contradiction

/-- That a declaration has a block for its body or nothing behind its type. -/
def EndsWithType (value : Option (Tree τ)) (terminator : Option τ) : Prop :=
  value = none ∧ terminator = none ∨ ∃ b, value = some b ∧ b.isBlock = true

/-- The type of a definition with a block, or of a parameter without an initial value, if it has no
constraint. -/
def Tree.optionalType : Tree τ → Option (Tree τ)
  | .declaration _ _ (some type) value terminator =>
    if !type.isConstraint && (value.any isBlock || value.isNone && terminator.isNone) then
      some type
    else none
  | _ => none

/-- A node with such a type is a declaration that ends with it or with a block behind it. -/
theorem Tree.eq_declaration_of_optionalType {node type : Tree τ}
    (h : node.optionalType = some type) :
    ∃ i d value s, node = .declaration i d (some type) value s ∧ type.isConstraint = false ∧
      EndsWithType value s := by
  unfold optionalType at h
  split at h
  · next i d type value s =>
    split at h
    · next hends =>
      obtain rfl := Option.some.inj h
      simp only [Bool.and_eq_true, Bool.or_eq_true, Bool.not_eq_true', Option.any_eq_true,
        Option.isNone_iff_eq_none] at hends
      exact ⟨i, d, value, s, rfl, hends.1, hends.2.symm⟩
    · contradiction
  · contradiction

/-- An expression is no block. -/
theorem Reading.not_isBlock (ha : rules.ArrowImplications) {ts rest : List τ} {t : Tree τ}
    (h : Reading rules (.phrase .expression) ts t rest) : t.isBlock = false :=
  (Tree.isExpression_shape (h.fits ha).passes).2.2

/-- The type of a parameter without an initial value ends where the parameter does. -/
theorem Reading.type_of_parameter (ha : rules.ArrowImplications) {us rest : List τ}
    {i s : Option τ} {d value : Option (Tree τ)} {t : Tree τ}
    (h : Reading rules .parameter us (.declaration i d (some t) value s) rest)
    (ht : t.isConstraint = false) (hvalue : EndsWithType value s) :
    ∃ c ts, c :: ts <:+ us ∧ kind c = .colon ∧ Reading rules .type ts t rest := by
  have hinitial {mid : List τ} (hv : Reading rules .initial mid value rest) : mid = rest := by
    cases hv with
    | noInitial => rfl
    | initial _ h =>
      rcases hvalue with ⟨hnone, -⟩ | ⟨b, hb, hblock⟩
      · contradiction
      · obtain rfl := Option.some.inj hb
        rw [h.not_isBlock ha] at hblock
        contradiction
  cases h with
  | unnamedParameter _ htyping hv =>
    obtain ⟨c, ts, rfl, hc, htype⟩ := htyping.colon_of_typing ht
    exact ⟨c, ts, List.suffix_refl _, hc, hinitial hv ▸ htype⟩
  | namedParameter _ hn htyping hv =>
    obtain ⟨c, ts, rfl, hc, htype⟩ := htyping.colon_of_typing ht
    exact ⟨c, ts, hn.suffix, hc, hinitial hv ▸ htype⟩

/-- The type of a definition with a block stands in front of a brace. -/
theorem Reading.type_of_defined (ha : rules.ArrowImplications) {us rest : List τ}
    {j i s : Option τ} {e t : Tree τ} {d value : Option (Tree τ)}
    (h : Reading rules (.defined j e) us (.declaration i d (some t) value s) rest)
    (ht : t.isConstraint = false) (hvalue : EndsWithType value s) :
    ∃ c ts mid, c :: ts <:+ us ∧ kind c = .colon ∧ Reading rules .type ts t mid ∧
      kindAt mid 0 = .leftBrace := by
  cases h with
  | typedOnly =>
    rcases hvalue with ⟨-, hnone⟩ | ⟨b, hb, -⟩ <;> contradiction
  | definedBlock htyping hb =>
    obtain ⟨c, ts, rfl, hc, htype⟩ := htyping.colon_of_typing ht
    exact ⟨c, ts, _, List.suffix_refl _, hc, htype, hb.kindAt_of_block⟩
  | definedValue _ _ hv =>
    rcases hvalue with ⟨hnone, -⟩ | ⟨b, hb, hblock⟩
    · contradiction
    · obtain rfl := Option.some.inj hb
      rw [hv.not_isBlock ha] at hblock
      contradiction

/-! ## Texts without the type -/

section Texts

variable {symbols : SymbolTable} {dialect : Dialect} {text : String}

/-- A text in which a colon stands in front of a token that may not follow it is refused. -/
theorem isOk_of_colon {front us : List Token} {c : Token}
    (hbuffer : (tokenize symbols text).1 = front ++ c :: us) (hc : c.kind = .colon)
    (hn : dialect.rules.colonFollowers.contains (kindAt us 0) = false) :
    (parseText symbols dialect text).1.isOk = false := by
  refine Bool.eq_false_iff.2 fun hok => ?_
  obtain ⟨t, ht⟩ := exists_tree_of_isOk _ _ _ hok
  obtain ⟨ds, -, hr⟩ := exists_reading_of_parseText ht
  obtain ⟨ts, finish, hspec, hfinish, -⟩ := tokenize_spec symbols text
  rw [hspec, List.dropLast_concat] at hr
  rw [hspec] at hbuffer
  have hcolons := hr.colonsTo dialect.extensible_rules trivial
  rcases us.eq_nil_or_concat with rfl | ⟨us, last, rfl⟩
  · obtain ⟨-, hlast⟩ := List.append_inj' hbuffer rfl
    obtain rfl := List.singleton_inj.1 hlast
    rw [hc] at hfinish
    contradiction
  · rw [List.concat_eq_append] at hbuffer hn
    have hsplit : ts ++ [finish] = (front ++ c :: us) ++ [last] := by simpa using hbuffer
    obtain ⟨rfl, hlast⟩ := List.append_inj' hsplit rfl
    obtain rfl := List.singleton_inj.1 hlast
    rw [kindAt_concat hfinish, hcolons.follower hc] at hn
    contradiction

variable {t node T : Tree Token} {path : List Nat}

/-- The type of a definition with a block, or of a parameter without an initial value, is read
behind a colon and in front of a brace or of what ends an item. -/
theorem exists_type_reading (h : (parseText symbols dialect text).1 = .ok t)
    (hnode : t.descend path = some node) (hT : node.optionalType = some T) :
    ∃ c us rest, c :: us <:+ (tokenize symbols text).1.dropLast ∧ c.kind = .colon ∧
      Reading dialect.rules .type us T rest ∧
      (kindAt rest 0 = .leftBrace ∨ kindAt rest 0 ∈ itemEnds) := by
  obtain ⟨i, d, value, s, rfl, hplain, hvalue⟩ := Tree.eq_declaration_of_optionalType hT
  rcases (readFrom_of_parseText h).descend hnode with hread | htail
  · cases hread with
    | node hnode =>
      cases hnode with
      | simple hs => contradiction
      | block _ h => cases h
      | parameter hs h hr =>
        obtain ⟨c, us, hus, hc, htype⟩ :=
          h.type_of_parameter dialect.arrowImplications hplain hvalue
        exact ⟨c, us, _, hus.trans hs, hc, htype, .inr hr⟩
      | defined hs h =>
        obtain ⟨c, us, mid, hus, hc, htype, hbrace⟩ :=
          h.type_of_defined dialect.arrowImplications hplain hvalue
        exact ⟨c, us, mid, hus.trans hs, hc, htype, .inl hbrace⟩
  · cases htail

/-- No dialect has a colon in front of a brace or of what ends an item. -/
theorem Dialect.colonFollowers_eq_false (d : Dialect) (k : TokenKind)
    (h : k = .leftBrace ∨ k ∈ itemEnds) : d.rules.colonFollowers.contains k = false :=
  TokenKind.forall_of_all
    (p := fun k => k = .leftBrace ∨ k ∈ itemEnds → d.rules.colonFollowers.contains k = false)
    (by cases d <;> decide) k h

/-- Without the tokens of the type of a definition with a block, or of a parameter without an
initial value, no dialect accepts a text that it accepts with them. -/
theorem omitted_type_refused (h : (parseText symbols dialect text).1 = .ok t)
    (hnode : t.descend path = some node) (hT : node.optionalType = some T) :
    ∃ front used back, (tokenize symbols text).1 = front ++ (used ++ back) ∧ T.Spells used ∧
      ∀ symbols' text', (tokenize symbols' text').1.map Token.kind =
        (front ++ back).map Token.kind → (parseText symbols' dialect text').1.isOk = false := by
  obtain ⟨c, us, rest, hsuffix, hc, htype, hrest⟩ := exists_type_reading h hnode hT
  obtain ⟨used, rfl, hspells⟩ := htype.spells_of_type
  obtain ⟨ts, finish, hbuffer, hfinish, -⟩ := tokenize_spec symbols text
  rw [hbuffer, List.dropLast_concat] at hsuffix
  obtain ⟨front, rfl⟩ := hsuffix
  refine ⟨front ++ [c], used, rest ++ [finish], by simp [hbuffer], hspells,
    fun symbols' text' hkinds => ?_⟩
  rw [List.append_assoc, List.map_append] at hkinds
  obtain ⟨front', behind, hbuffer', -, hbehind⟩ := List.map_eq_append_iff.1 hkinds
  obtain ⟨c', us', rfl, hc', hus'⟩ := List.map_eq_cons_iff.1 hbehind
  refine isOk_of_colon hbuffer' (hc'.trans hc) ?_
  have hmap (ts : List Token) : kindAt (ts.map Token.kind) 0 = kindAt ts 0 :=
    kindAt_map (f := Token.kind) (fun _ => rfl) ts 0
  have hkind : kindAt us' 0 = kindAt rest 0 := by
    rw [← hmap us', hus', hmap]
    exact kindAt_concat hfinish rest 0
  rw [hkind]
  exact dialect.colonFollowers_eq_false _ hrest

/-- The type of a definition with a block. -/
theorem omitted_type_refused_definition :
    let text := "def f: int { }"
    ∃ t node T, (parseText (.empty 0) .standard text).1 = .ok t ∧
      t.descend [0, 0] = some node ∧ node.optionalType = some T ∧
      ∃ front used back, (tokenize (.empty 0) text).1 = front ++ (used ++ back) ∧ T.Spells used ∧
        ∀ symbols' text', (tokenize symbols' text').1.map Token.kind =
          (front ++ back).map Token.kind →
            (parseText symbols' .standard text').1.isOk = false := by
  intro text
  obtain ⟨t, ht, htype⟩ := exists_tree_of_any
    (p := fun t => (t.descend [0, 0]).any fun node => node.optionalType.isSome)
    (show (parseText (.empty 0) .standard text).1.toOption.any _ = true by decide +kernel)
  obtain ⟨node, hnode, htype⟩ := (Option.any_eq_true _ _).1 htype
  obtain ⟨T, hT⟩ := Option.isSome_iff_exists.1 htype
  exact ⟨t, node, T, ht, hnode, hT, omitted_type_refused ht hnode hT⟩

/-- With its type this definition is accepted, and without the only token of it the same definition
is refused. -/
theorem definition_needs_type :
    let typed := "def f: int { }"
    let untyped := "def f: { }"
    let buffer := (tokenize (.empty 0) typed).1
    (∃ t node T, (parseText (.empty 0) .standard typed).1 = .ok t ∧
      t.descend [0, 0] = some node ∧ node.optionalType = some T ∧
      T.tokens.map Token.offset = ((buffer.drop 3).take 1).map Token.offset) ∧
    (tokenize (.empty 0) untyped).1.map Token.kind =
      (buffer.take 3 ++ buffer.drop 4).map Token.kind ∧
    (parseText (.empty 0) .standard untyped).1.isOk = false := by
  intro typed untyped buffer
  obtain ⟨t, ht, htype⟩ := exists_tree_of_any
    (p := fun t => (t.descend [0, 0]).any fun node => node.optionalType.any fun T =>
      T.tokens.map Token.offset == ((buffer.drop 3).take 1).map Token.offset)
    (show (parseText (.empty 0) .standard typed).1.toOption.any _ = true by decide +kernel)
  refine ⟨?_, by decide +kernel, by decide +kernel⟩
  obtain ⟨node, hnode, htype⟩ := (Option.any_eq_true _ _).1 htype
  obtain ⟨T, hT, htokens⟩ := (Option.any_eq_true _ _).1 htype
  exact ⟨t, node, T, ht, hnode, hT, beq_iff_eq.1 htokens⟩

end Texts

end ConcreteSyntax
