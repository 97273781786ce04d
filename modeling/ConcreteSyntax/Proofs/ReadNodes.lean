import ConcreteSyntax.Proofs.GeneratedReadings
import ConcreteSyntax.Proofs.InitialGroups

/-!
# Where the nodes of a tree were read

A node does not show which tokens stood in front of the parser when it was made. For blocks,
declarations and repetitions this is recovered here: each of them has a reading of its own, which
begins somewhere in the tokens of the file. The condition of a repetition behind its block is read
with that block, so it stands at no other place of a tree.
-/

namespace ConcreteSyntax

open TokenParser Grammar

variable {τ : Type} [HasKind τ]

/-- Whether a node is neither a block nor a declaration nor a repetition. -/
def Tree.isSimple : Tree τ → Bool
  | .enclosure opening _ _ => HasKind.kind opening != .leftBrace
  | .declaration .. => false
  | .control keyword _ _ => HasKind.kind keyword != .whileKw && HasKind.kind keyword != .doKw
  | _ => true

variable {rules : Rules} {all : List τ}

/-- The reading of a node somewhere in the tokens of a file. -/
inductive NodeReadFrom (rules : Rules) (all : List τ) : Tree τ → Prop
  | simple {t : Tree τ} (h : t.isSimple = true) : NodeReadFrom rules all t
  | block {us rest : List τ} {t : Tree τ} (hs : us <:+ all) (h : Reading rules .block us t rest) :
    NodeReadFrom rules all t
  | parameter {us rest : List τ} {t : Tree τ} (hs : us <:+ all)
    (h : Reading rules .parameter us t rest) (hr : kindAt rest 0 ∈ itemEnds) :
    NodeReadFrom rules all t
  | defined {introducer : Option τ} {declarator : Tree τ} {us rest : List τ} {t : Tree τ}
    (hs : us <:+ all) (h : Reading rules (.defined introducer declarator) us t rest) :
    NodeReadFrom rules all t
  | loop {k : τ} {us mid rest : List τ} {c b : Tree τ} (hs : k :: us <:+ all)
    (hk : kind k = .whileKw) (hc : Reading rules (.enclosed .leftParen .rightParen) us c mid)
    (hb : Reading rules .block mid b rest) :
    NodeReadFrom rules all (.control k (some c) (some b))
  | doBlock {k : τ} {us rest : List τ} {b : Tree τ} (hs : k :: us <:+ all) (hk : kind k = .doKw)
    (hb : Reading rules .block us b rest)
    (hn : kindAt rest 0 = .whileKw → startsLoop rest = true) :
    NodeReadFrom rules all (.control k (some b) none)

/-- A tree all nodes of which have readings somewhere in the tokens of a file. -/
inductive ReadFrom (rules : Rules) (all : List τ) : Tree τ → Prop
  | node {t : Tree τ} (ht : NodeReadFrom rules all t)
    (hc : ∀ slot ∈ t.children, ∀ child ∈ slot, ReadFrom rules all child) : ReadFrom rules all t
  | doWhile {k w : τ} {us mid rest : List τ} {b c : Tree τ} (hs : k :: us <:+ all)
    (hk : kind k = .doKw) (hb : Reading rules .block us b (w :: mid)) (hw : kind w = .whileKw)
    (hl : startsLoop (w :: mid) = false)
    (hc : Reading rules (.enclosed .leftParen .rightParen) mid c rest)
    (hblock : ReadFrom rules all b) (hcondition : ReadFrom rules all c) :
    ReadFrom rules all (.control k (some b) (some (.control w (some c) none)))

/-- That a path of a tree leads to the condition of a repetition behind its block. It is the second
operand of the node that the block belongs to. -/
inductive TailReadFrom (rules : Rules) (all : List τ) (t : Tree τ) : List Nat → Tree τ → Prop
  | intro {front : List Nat} {k w : τ} {b c : Tree τ} {mid rest : List τ}
    (hpath : t.descend front = some (.control k (some b) (some (.control w (some c) none))))
    (hk : kind k = .doKw) (hw : kind w = .whileKw) (hs : w :: mid <:+ all)
    (hl : startsLoop (w :: mid) = false)
    (hc : Reading rules (.enclosed .leftParen .rightParen) mid c rest) :
    TailReadFrom rules all t (front ++ [1]) (.control w (some c) none)

/-- What stands below an operand stands below the node. -/
theorem TailReadFrom.below {t operand node : Tree τ} {place : Nat} {path : List Nat}
    (h : TailReadFrom rules all operand path node) (hoperand : t.operand? place = some operand) :
    TailReadFrom rules all t (place :: path) node := by
  cases h with
  | @intro front _ _ _ _ _ _ hpath hk hw hs hl hc =>
    have hbelow : t.descend (place :: front) = operand.descend front := by
      rw [Tree.descend, hoperand, Option.bind_some]
    exact .intro (hbelow.trans hpath) hk hw hs hl hc

namespace ReadFrom

variable {t : Tree τ} {ts : List (Tree τ)}

/-- A simple node has no reading to remember. -/
theorem simple (ht : t.isSimple = true)
    (hc : ∀ slot ∈ t.children, ∀ child ∈ slot, ReadFrom rules all child) : ReadFrom rules all t :=
  .node (.simple ht) hc

/-- A simple node without operands. -/
theorem leaf (ht : t.isSimple = true) (hc : t.children = []) : ReadFrom rules all t :=
  .simple ht (by simp [hc])

/-- A simple node with one operand. -/
theorem single {operand : Tree τ} (ht : t.isSimple = true) (hc : t.children = [some operand])
    (h : ReadFrom rules all operand) : ReadFrom rules all t :=
  .simple ht (by simpa [hc] using h)

/-- A simple node with two operands. -/
theorem pair {left right : Tree τ} (ht : t.isSimple = true)
    (hc : t.children = [some left, some right]) (hl : ReadFrom rules all left)
    (hr : ReadFrom rules all right) : ReadFrom rules all t :=
  .simple ht (by simpa [hc] using ⟨hl, hr⟩)

/-- A list of trees. -/
theorem list (h : ∀ t ∈ ts, ReadFrom rules all t) : ReadFrom rules all (.list ts) :=
  .simple rfl (by simpa [Tree.children] using h)

/-- Trees that are joined. -/
theorem joined (h : ∀ t ∈ ts, ReadFrom rules all t) : ReadFrom rules all (.joined ts) := by
  cases ts with
  | nil => exact list h
  | cons t ts =>
    cases ts with
    | nil => exact h t List.mem_cons_self
    | cons => exact list h

/-- The sequence of some trees. -/
theorem sequence? (h : ∀ t ∈ ts, ReadFrom rules all t) :
    ∀ s ∈ Tree.sequence? ts, ReadFrom rules all s := by
  cases ts with
  | nil => nofun
  | cons t ts =>
    rintro s ⟨⟩
    exact .simple rfl (by simpa [Tree.children] using h)

/-- A constructor. -/
theorem build {sort : ConstructorSort} {mark : Option τ} {s r : Tree τ}
    (hs : ReadFrom rules all s) (hr : ReadFrom rules all r) :
    ReadFrom rules all (sort.build mark s r) := by
  cases sort <;> exact .pair rfl rfl hs hr

/-- A control construct that is no repetition. -/
theorem control {k : τ} {word : TokenKind} {head body : Tree τ} (hk : kind k = word)
    (hh : ReadFrom rules all head) (hb : ReadFrom rules all body)
    (hw : (word != .whileKw && word != .doKw) = true := by decide) :
    ReadFrom rules all (.control k (some head) (some body)) :=
  .pair (by rw [Tree.isSimple, hk, hw]) rfl hh hb

/-- A node of a tree has its reading, or it is the condition of a repetition behind its block. -/
theorem descend {path : List Nat} {node : Tree τ} (h : ReadFrom rules all t)
    (hpath : t.descend path = some node) :
    ReadFrom rules all node ∨ TailReadFrom rules all t path node := by
  induction h generalizing path with
  | @node t ht hc ih =>
    cases path with
    | nil => exact .inl (Option.some.inj hpath ▸ .node ht hc)
    | cons place path =>
      obtain ⟨operand, hoperand, hpath⟩ := Option.bind_eq_some_iff.1 hpath
      rw [Tree.operand?, Option.join_eq_some_iff] at hoperand
      have hbelow := ih _ (List.mem_of_getElem? hoperand) operand rfl hpath
      exact hbelow.imp_right (·.below (by simp [Tree.operand?, hoperand]))
  | @doWhile k w us mid rest b c hs hk hb hw hl hc hblock hcondition ihb ihc =>
    have htail : w :: mid <:+ all := hb.suffix.trans ((List.suffix_cons k us).trans hs)
    cases path with
    | nil => exact .inl (Option.some.inj hpath ▸ .doWhile hs hk hb hw hl hc hblock hcondition)
    | cons place path =>
      obtain ⟨operand, hoperand, hpath⟩ := Option.bind_eq_some_iff.1 hpath
      rcases place with - | - | place
      · obtain rfl := Option.some.inj hoperand
        exact (ihb hpath).imp_right (·.below rfl)
      · obtain rfl := Option.some.inj hoperand
        cases path with
        | nil =>
          obtain rfl := Option.some.inj hpath
          have hroot : (Tree.control k (some b) (some (.control w (some c) none))).descend [] =
              some _ := rfl
          exact .inr (.intro hroot hk hw htail hl hc)
        | cons place path =>
          obtain ⟨operand, hoperand, hpath⟩ := Option.bind_eq_some_iff.1 hpath
          rcases place with - | - | place
          · obtain rfl := Option.some.inj hoperand
            exact (ihc hpath).imp_right fun htail => (htail.below hoperand).below rfl
          · contradiction
          · contradiction
      · contradiction

end ReadFrom

/-- That what follows a phrase ends an item, where items are concerned, and that a group is not in
braces. -/
def Category.EndsItem : Category τ → List τ → Prop
  | .element .item, rest | .element .items, rest | .separated .item, rest
  | .separated .items, rest | .parameter, rest => kindAt rest 0 ∈ itemEnds
  | .enclosed opening closing, _ => opening ≠ .leftBrace ∧ closing ∈ itemEnds
  | _, _ => True

/-- Specifiers of constructors are not in braces. -/
theorem ConstructorSort.endsItem (sort : ConstructorSort) (rest : List τ) :
    (Category.enclosed sort.opening sort.closing).EndsItem rest := by
  cases sort <;> exact ⟨by decide, by decide⟩

/-- The trees that are read have readings in the tokens of the file. -/
theorem Reading.readFrom {c : Category τ} {ts rest : List τ} {v : c.Result}
    (h : Reading rules c ts v rest) (hall : ts <:+ all) (hends : c.EndsItem rest)
    (hheld : c.Held (ReadFrom rules all)) : c.Each (ReadFrom rules all) v := by
  have htail : ∀ {t : τ} {ts : List τ}, t :: ts <:+ all → ts <:+ all := fun {t ts} =>
    (List.suffix_cons t ts).trans
  have hparen (rest : List τ) : (Category.enclosed .leftParen .rightParen).EndsItem rest :=
    ⟨by decide, by decide⟩
  have hbracket (rest : List τ) : (Category.enclosed .leftBracket .rightBracket).EndsItem rest :=
    ⟨by decide, by decide⟩
  induction h with
  | name | literal | identifier => exact .leaf rfl rfl
  | @last e _ _ _ _ _ ih =>
    exact List.forall_mem_singleton.2 (ih hall (by cases e <;> exact hends) trivial)
  | @more e _ mid _ _ s _ h hs _ ih ih' =>
    have hseparator : (Category.element e).EndsItem (s :: mid) := by
      cases e <;> simp [Category.EndsItem, kindAt_cons_zero, hs, Element.separator, itemEnds]
    have hmid := htail (h.suffix.trans hall)
    exact List.forall_mem_cons.2 ⟨ih hall hseparator trivial,
      ih' hmid (by cases e <;> exact hends) trivial⟩
  | operandType _ _ ih | implicationType _ _ ih => exact ih hall trivial trivial
  | omittedType | noInitial | noStatements | noDeclarations => rintro _ ⟨⟩
  | plainType _ _ _ _ ih => rintro _ ⟨⟩; exact ih (htail hall) trivial trivial
  | constrainedType _ _ h _ _ ih ih' =>
    rintro _ ⟨⟩
    have hmid := htail (h.suffix.trans (htail hall))
    exact .pair rfl rfl (ih (htail hall) trivial trivial) (ih' hmid trivial trivial)
  | colonConstraint _ _ _ ih =>
    rintro _ ⟨⟩
    have hpattern : ReadFrom rules all _ := ih (htail (htail hall)) trivial trivial
    exact .simple rfl (by simpa [Tree.children] using hpattern)
  | bareConstraint _ _ ih =>
    rintro _ ⟨⟩
    have hpattern : ReadFrom rules all _ := ih (htail hall) trivial trivial
    exact .simple rfl (by simpa [Tree.children] using hpattern)
  | initial _ _ ih => rintro _ ⟨⟩; exact ih (htail hall) trivial trivial
  | unnamedParameter hk ht hv ih ih' =>
    have htype := ih hall trivial trivial
    have hvalue := ih' (ht.suffix.trans hall) trivial trivial
    exact .node (.parameter hall (.unnamedParameter hk ht hv) hends)
      (by simpa [Tree.children] using ⟨htype, hvalue⟩)
  | namedParameter hk hn ht hv ih ih' ih'' =>
    have hmid := hn.suffix.trans hall
    have hnames := ReadFrom.joined (ih hall trivial trivial)
    have htype := ih' hmid trivial trivial
    have hvalue := ih'' (ht.suffix.trans hmid) trivial trivial
    exact .node (.parameter hall (.namedParameter hk hn ht hv) hends)
      (by simpa [Tree.children] using ⟨hnames, htype, hvalue⟩)
  | parameterItem _ _ ih => exact ih hall hends trivial
  | expressionItem _ _ ih => exact ih hall trivial trivial
  | items _ ih => exact .list (ih hall hends trivial)
  | emptyEnclosure ha =>
    exact .simple (by simp [Tree.isSimple, ha, hends.1]) (by simp [Tree.children])
  | enclosure ha _ _ hb ih =>
    have hterm := ReadFrom.joined (ih (htail hall) (by rw [← hb] at hends; exact hends.2) trivial)
    exact .single (by simp [Tree.isSimple, ha, hends.1]) rfl hterm
  | statements _ _ h _ ih ih' =>
    exact List.forall_mem_cons.2
      ⟨ih hall trivial trivial, ih' (h.suffix.trans hall) trivial trivial⟩
  | block ha h hb ih =>
    have hterm := ReadFrom.sequence? (ih (htail hall) trivial trivial)
    exact .node (.block hall (.block ha h hb)) (by simpa [Tree.children] using hterm)
  | wordConstructor _ _ hs _ ih ih' =>
    exact .build (ih (htail hall) (ConstructorSort.endsItem _ _) trivial)
      (ih' (hs.suffix.trans (htail hall)) trivial trivial)
  | unmarkedConstructor _ hs _ ih ih' =>
    exact .build (ih hall (ConstructorSort.endsItem _ _) trivial)
      (ih' (hs.suffix.trans hall) trivial trivial)
  | markedConstructor _ _ hs _ ih ih' =>
    exact .build (ih hall (ConstructorSort.endsItem _ _) trivial)
      (ih' (htail (hs.suffix.trans hall)) trivial trivial)
  | paren _ _ ih => exact ih hall (hparen _) trivial
  | bracket _ _ ih => exact ih hall (hbracket _) trivial
  | suffixesEnd | operationsEnd => exact hheld
  | call ha _ ih ih' =>
    exact ih' (ha.suffix.trans hall) trivial (.pair rfl rfl hheld (ih hall (hparen _) trivial))
  | index ha _ ih ih' =>
    exact ih' (ha.suffix.trans hall) trivial (.pair rfl rfl hheld (ih hall (hbracket _) trivial))
  | member _ _ _ ih =>
    exact ih (htail (htail hall)) trivial (.pair rfl rfl hheld (.leaf rfl rfl))
  | caret _ _ _ ih => exact ih (htail hall) trivial (.single rfl rfl hheld)
  | value hp _ ih ih' => exact ih' (hp.suffix.trans hall) trivial (ih hall trivial trivial)
  | prefixOperand _ _ ih => exact .single rfl rfl (ih (htail hall) trivial trivial)
  | constructorOperand _ _ ih | valueOperand _ _ _ ih | layerOperand _ ih | implicationEnd _ _ ih
  | assignmentEnd _ _ ih | furtherChoice _ _ ih | lastChoice _ _ ih | conditionalControl _ _ ih
  | blockScope _ _ ih | expressionScope _ _ ih | controlExpression _ _ ih
  | assignmentExpression _ _ ih | definitionStatement _ _ ih | controlStatement _ _ _ _ ih
  | terminatedControl _ _ _ _ ih | expressionStatement _ _ _ _ ih =>
    exact ih hall trivial trivial
  | layer hl _ ih ih' => exact ih' (hl.suffix.trans hall) trivial (ih hall trivial trivial)
  | operation _ hr _ ih ih' =>
    exact ih' (hr.suffix.trans (htail hall)) trivial
      (.pair rfl rfl hheld (ih (htail hall) trivial trivial))
  | implication hl _ _ ih ih' | assignment hl _ _ ih ih' =>
    exact .pair rfl rfl (ih hall trivial trivial)
      (ih' (htail (hl.suffix.trans hall)) trivial trivial)
  | conditional hk hc _ _ ih ih' =>
    exact .control hk (ih (htail hall) (hparen _) trivial)
      (ih' (hc.suffix.trans (htail hall)) trivial trivial)
  | choice hk hc hb he _ ih ih' ih'' =>
    have hmid := hc.suffix.trans (htail hall)
    exact .control he (.control hk (ih (htail hall) (hparen _) trivial) (ih' hmid trivial trivial))
      (ih'' (htail (hb.suffix.trans hmid)) trivial trivial)
  | branch hp ha _ ih ih' =>
    exact .control ha (ih hall trivial trivial)
      (ih' (htail (hp.suffix.trans hall)) trivial trivial)
  | caseDistinction hk hs _ ih ih' =>
    have hbranches : ∀ b ∈ _, ReadFrom rules all b :=
      ih' (hs.suffix.trans (htail hall)) trivial trivial
    exact .control hk (ih (htail hall) (hparen _) trivial)
      (.simple rfl (by simpa [Tree.children] using hbranches))
  | loop hk hc hb ih ih' =>
    have hcondition := ih (htail hall) (hparen _) trivial
    have hblock := ih' (hc.suffix.trans (htail hall)) trivial trivial
    rcases hk with hk | hk
    · exact .control hk hcondition hblock
    · exact .node (.loop hall hk hc hb) (by simpa [Tree.children] using ⟨hcondition, hblock⟩)
  | doBlock hk hb hn ih =>
    have hblock : ReadFrom rules all _ := ih (htail hall) trivial trivial
    exact .node (.doBlock hall hk hb hn) (by simpa [Tree.children] using hblock)
  | doWhile hk hb hw hl hc ih ih' =>
    have hmid := htail (hb.suffix.trans (htail hall))
    exact .doWhile hall hk hb hw hl hc (ih (htail hall) trivial trivial)
      (ih' hmid (hparen _) trivial)
  | captures _ hc _ ih ih' =>
    exact .pair rfl rfl (ih hall (hbracket _) trivial)
      (ih' (hc.suffix.trans hall) (hparen _) trivial)
  | noCaptures _ _ ih => exact ih hall (hparen _) trivial
  | functionValue hk hf _ ih ih' =>
    exact .control hk (ih (htail hall) trivial trivial)
      (ih' (hf.suffix.trans (htail hall)) trivial trivial)
  | localBinding hk hp _ ih ih' =>
    exact .control hk (ih (htail hall) (hparen _) trivial)
      (ih' (hp.suffix.trans (htail hall)) trivial trivial)
  | typedOnly ht hs ih =>
    have htype := ih hall trivial trivial _ rfl
    exact .node (.defined hall (.typedOnly ht hs))
      (by simpa [Tree.children] using ⟨hheld, htype⟩)
  | definedBlock ht hb ih ih' =>
    have htype := ih hall trivial trivial
    have hblock := ih' (ht.suffix.trans hall) trivial trivial
    exact .node (.defined hall (.definedBlock ht hb))
      (by simpa [Tree.children] using ⟨hheld, htype, hblock⟩)
  | definedValue ht he hv hs ih ih' =>
    have htype := ih hall trivial trivial
    have hvalue := ih' (htail (ht.suffix.trans hall)) trivial trivial
    exact .node (.defined hall (.definedValue ht he hv hs))
      (by simpa [Tree.children] using ⟨hheld, htype, hvalue⟩)
  | introduced _ hd _ ih ih' =>
    have hnames := ReadFrom.joined (ih (htail hall) trivial trivial)
    exact ih' (hd.suffix.trans (htail hall)) trivial hnames
  | unintroduced _ hd _ ih ih' =>
    exact ih' (hd.suffix.trans hall) trivial (ReadFrom.joined (ih hall trivial trivial))
  | declarations _ h _ ih ih' =>
    exact List.forall_mem_cons.2
      ⟨ih hall trivial trivial, ih' (h.suffix.trans hall) trivial trivial⟩

/-- A block has its braces, and the closing one stands in front of what is left. -/
theorem Reading.exists_closer_of_block {ts rest : List τ} {t : Tree τ}
    (h : Reading rules .block ts t rest) :
    ∃ a term b, t = .enclosure a term b ∧ kind a = .leftBrace ∧ kind b = .rightBrace ∧
      b :: rest <:+ ts := by
  cases h with
  | @block a b _ _ ss ha h hb =>
    exact ⟨a, Tree.sequence? ss, b, rfl, ha, hb, h.suffix.trans (List.suffix_cons a _)⟩

/-! ## Readings of texts -/

/-- The tree of an accepted text has readings in the tokens of the text. -/
theorem readFrom_of_parseText {symbols : SymbolTable} {dialect : Dialect} {text : String}
    {t : Tree Token} (h : (parseText symbols dialect text).1 = .ok t) :
    ReadFrom dialect.rules (tokenize symbols text).1.dropLast t := by
  obtain ⟨ds, rfl, hr⟩ := exists_reading_of_parseText h
  have hbody := ReadFrom.sequence? (hr.readFrom (List.suffix_refl _) trivial trivial)
  exact .simple rfl (by simpa [Tree.children] using hbody)

/-- A token begins one end only of tokens without repetitions. -/
theorem rest_unique {τ : Type} {all us vs : List τ} {b : τ} (hn : all.Nodup) (hu : b :: us <:+ all)
    (hv : b :: vs <:+ all) : us = vs := by
  have hall : ∀ {us vs : List τ}, b :: us <:+ b :: vs → b :: vs <:+ all → us = vs := by
    intro us vs huv hv
    rcases List.suffix_cons_iff.1 huv with heq | hbelow
    · exact (List.cons_eq_cons.1 heq).2
    · have hmem : b ∈ vs := hbelow.subset List.mem_cons_self
      exact absurd hmem (List.nodup_cons.1 (hn.sublist hv.sublist)).1
  rcases List.suffix_or_suffix_of_suffix hu hv with huv | hvu
  · exact hall huv hv
  · exact (hall hvu hu).symm

/-- A token of a text in front of given tokens stands at one place only. They stand behind it, and
the kinds that are found there are theirs. -/
theorem exists_place_of_suffix {symbols : SymbolTable} {text : String} {b : Token}
    {rest : List Token} (h : b :: rest <:+ (tokenize symbols text).1.dropLast) :
    ∃ i, (∀ j, (tokenize symbols text).1[j]? = some b ↔ j = i) ∧
      (∀ place, kindAt (tokenize symbols text).1 (i + 1 + place) = kindAt rest place) ∧
      ∀ next, rest.head? = some next → (tokenize symbols text).1[i + 1]? = some next := by
  obtain ⟨ts, finish, hbuffer, hfinish, -⟩ := tokenize_spec symbols text
  rw [hbuffer, List.dropLast_concat] at h
  obtain ⟨front, hfront⟩ := h
  have hindex : (tokenize symbols text).1[front.length]? = some b := by
    rw [hbuffer, ← hfront]
    simp
  refine ⟨front.length, fun j => ⟨fun hj => tokenize_getElem?_unique hj hindex, ?_⟩,
    fun place => ?_, fun next hnext => ?_⟩
  · rintro rfl
    exact hindex
  · rw [hbuffer, kindAt_concat hfinish, ← hfront, ← kindAt_drop]
    simp
  · obtain ⟨us, rfl⟩ := List.head?_eq_some_iff.1 hnext
    rw [hbuffer, ← hfront]
    simp

end ConcreteSyntax
