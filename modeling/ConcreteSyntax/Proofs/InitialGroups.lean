import ConcreteSyntax.Proofs.ConstructorMarks
import ConcreteSyntax.Proofs.ContinuedReadings
import ConcreteSyntax.Proofs.ErrorPlaces
import ConcreteSyntax.Proofs.PrintedReadings

/-!
# Groups in prefix position

In the standard dialect a group in parentheses or brackets may be a value or the specifier of a
constructor. The parser decides by tokens: by the token behind the opening delimiter, and by what
follows the closer. The tree shows what was decided. A specifier is empty or begins with a
declaration as its sort requires, and a group that stays a value in prefix position is followed by
nothing that would make it a specifier.

A group is in prefix position where an operand begins: it is the first one in its chain of
suffixes, and the chain is not what a definition introduces, which is read as a value at once.
-/

namespace ConcreteSyntax

open TokenParser Grammar

variable {τ : Type} [HasKind τ]

/-! ## Specifiers -/

namespace Tree

/-- The first item between the delimiters of an enclosure. The items stand in a list, or in the
first one of several lists. -/
def firstItem? : Tree τ → Option (Tree τ)
  | enclosure _ (some (list (list (item :: _) :: _))) _ => some item
  | enclosure _ (some (list (item :: _))) _ => some item
  | _ => none

/-- Whether the first item of an enclosure is a declaration. -/
def beginsDeclaring (t : Tree τ) : Bool := t.firstItem?.any isDeclaration

/-- Whether a node is an enclosure with certain delimiters. -/
def isEnclosedBy (opening closing : TokenKind) : Tree τ → Bool
  | enclosure a _ b => HasKind.kind a == opening && HasKind.kind b == closing
  | _ => false

/-- Whether the specifier of a constructor is one of its sort. Parameters are in parentheses and
empty or begin with a declaration; the specifiers of templates and arrays are in brackets. That of a
template begins with a declaration or has an arrow behind it, that of an array does neither. -/
def isSpecified : Tree τ → Bool
  | function _ specifier _ =>
    specifier.isEnclosedBy .leftParen .rightParen &&
      (specifier.isHollow || specifier.beginsDeclaring)
  | template mark specifier _ =>
    specifier.isEnclosedBy .leftBracket .rightBracket &&
      (mark.any (fun m => HasKind.kind m == .fatArrow) || specifier.beginsDeclaring)
  | array mark specifier _ =>
    specifier.isEnclosedBy .leftBracket .rightBracket &&
      (specifier.isHollow || !specifier.beginsDeclaring) && mark.isNone
  | _ => true

end Tree

section

variable {rules : Rules} {ts rest : List τ} {t : Tree τ}

/-- An item is a declaration where it begins like a parameter, and it is no list. -/
theorem Reading.isDeclaration_of_item (ha : rules.ArrowImplications)
    (h : Reading rules (.element .item) ts t rest) :
    t.isDeclaration = opensParameter ts ∧ t.isList = false := by
  cases h with
  | parameterItem ho h =>
    rw [ho]
    cases h <;> exact ⟨rfl, rfl⟩
  | expressionItem ho h =>
    obtain ⟨hl, hd, -⟩ := Tree.isExpression_shape (h.fits ha).passes
    exact ⟨hd.trans ho.symm, hl⟩

omit [HasKind τ] in
/-- A group of lists begins with the first item of its first list. -/
theorem Tree.firstItem?_joined {a b : τ} {item : Tree τ} {items lists : List (Tree τ)}
    (hl : item.isList = false) :
    (enclosure a (some (joined (list (item :: items) :: lists))) b).firstItem? = some item := by
  cases lists with
  | cons l lists => rfl
  | nil => cases item <;> first | rfl | contradiction

/-- A group begins with a declaration exactly where a parameter begins behind its opening
delimiter. -/
theorem Reading.beginsDeclaring_eq (ha : rules.ArrowImplications) {opening closing : TokenKind}
    (hdel : IsGroupDelimiters opening closing)
    (h : Reading rules (.enclosed opening closing) ts t rest) :
    t.beginsDeclaring = opensParameter (ts.drop 1) := by
  cases h with
  | @emptyEnclosure _ _ a b _ _ hb =>
    have hclosing : opensParameter (b :: rest) = false := by
      rcases hdel with ⟨-, rfl⟩ | ⟨-, rfl⟩ <;> simp [opensParameter, opensDefinition_cons, hb]
    exact hclosing.symm
  | enclosure _ _ h _ =>
    have hfirst : ∀ {us us' : List τ} {l : Tree τ} {ls : List (Tree τ)} {a b : τ},
        Reading rules (.element .items) us l us' →
        (Tree.enclosure a (some (.joined (l :: ls))) b).beginsDeclaring = opensParameter us := by
      intro us us' l ls a b hitems
      cases hitems with
      | items hitems =>
        cases hitems with
        | last hitem | more hitem =>
          obtain ⟨hd, hl⟩ := hitem.isDeclaration_of_item ha
          rw [Tree.beginsDeclaring, Tree.firstItem?_joined hl]
          exact hd
    cases h with
    | last hitems | more hitems => exact hfirst hitems

/-- An enclosure has its delimiters, and its closer stands in front of what is left. -/
theorem Reading.exists_closer {opening closing : TokenKind}
    (h : Reading rules (.enclosed opening closing) ts t rest) :
    ∃ a term b, t = .enclosure a term b ∧ kind a = opening ∧ kind b = closing ∧
      kindAt ts 0 = opening ∧ b :: rest <:+ ts := by
  cases h with
  | @emptyEnclosure _ _ a b _ ha hb => exact ⟨a, none, b, rfl, ha, hb, ha, List.suffix_cons a _⟩
  | @enclosure _ _ a b _ _ vs ha hn h hb =>
    obtain ⟨used, rfl, -⟩ : KeepsTo _ _ (b :: rest) := h.ordered
    exact ⟨a, _, b, rfl, ha, hb, ha, a :: used, rfl⟩

/-- What the tokens of a specifier tell about it when they announce a constructor of its sort. -/
def ConstructorSort.Announced (marked hollow declares : Bool) : ConstructorSort → Prop
  | function => (hollow || declares) = true
  | template => (marked || declares) = true
  | array => declares = false ∧ marked = false

theorem ConstructorSort.announced_of_form {sort : ConstructorSort} {marked hollow declares : Bool}
    {first second : TokenKind}
    (h : constructorForm? rules sort.opening hollow declares first second = some ⟨sort, marked⟩) :
    sort.Announced marked hollow declares := by
  cases sort <;> simp only [constructorForm?, opening] at h <;> grind [Announced]

/-- The constructors of the standard dialect have specifiers of their sorts. -/
theorem Reading.isSpecified_constructor
    (h : Reading Dialect.standard.rules .constructor ts t rest) : t.isSpecified = true := by
  have hp := Dialect.standard.proper_rules
  have ha := Dialect.standard.arrowImplications
  have hannounced : ∀ {sort : ConstructorSort} {marked : Bool} {ts mid : List τ} {s : Tree τ},
      constructorAhead? Dialect.standard.rules ts = some ⟨sort, marked⟩ →
      Reading Dialect.standard.rules (.enclosed sort.opening sort.closing) ts s mid →
      sort.Announced marked s.isHollow s.beginsDeclaring ∧
        s.isEnclosedBy sort.opening sort.closing = true := by
    intro sort marked ts mid s hahead hs
    obtain ⟨a, term, b, rfl, hka, hkb, hk, -⟩ := hs.exists_closer
    have hdel : IsGroupDelimiters sort.opening sort.closing := by
      cases sort <;> first | exact .inl ⟨rfl, rfl⟩ | exact .inr ⟨rfl, rfl⟩
    rw [hs.constructorAhead?_eq hp sort.isDelimiters, hk, ← hs.beginsDeclaring_eq ha hdel] at hahead
    exact ⟨ConstructorSort.announced_of_form hahead, by simp [Tree.isEnclosedBy, hka, hkb]⟩
  cases h with
  | wordConstructor hc => contradiction
  | @unmarkedConstructor sort ts mid rest s r ho hs hr =>
    obtain ⟨hannounced, henclosed⟩ := hannounced ho hs
    cases sort with
    | function => exact Bool.and_eq_true_iff.2 ⟨henclosed, hannounced⟩
    | template => exact Bool.and_eq_true_iff.2 ⟨henclosed, hannounced⟩
    | array =>
      have hitems : (s.isHollow || !s.beginsDeclaring) = true := by simp [hannounced.1]
      exact Bool.and_eq_true_iff.2 ⟨Bool.and_eq_true_iff.2 ⟨henclosed, hitems⟩, rfl⟩
  | @markedConstructor sort m ts mid rest s r ho hm hs hr =>
    obtain ⟨hannounced, henclosed⟩ := hannounced ho hs
    cases sort with
    | function => exact Bool.and_eq_true_iff.2 ⟨henclosed, hannounced⟩
    | template =>
      have harrow : kind m = .fatArrow := hm
      have hmark : ((some m).any (fun m => kind m == .fatArrow) || s.beginsDeclaring) = true := by
        simp [harrow]
      exact Bool.and_eq_true_iff.2 ⟨henclosed, hmark⟩
    | array => exact absurd hannounced.2 (by decide)

end

/-- In the tree of a text that the standard dialect accepts, all specifiers are of their sorts. -/
theorem everywhere_isSpecified {symbols : SymbolTable} {text : String} {t : Tree Token}
    (h : (parseText symbols .standard text).1 = .ok t) :
    t.Everywhere fun node => node.isSpecified = true := by
  obtain ⟨ds, rfl, hr⟩ := exists_reading_of_parseText h
  have hother : ∀ t : Tree Token, t.isConstructor = false →
      t.isFormed Dialect.standard.rules = true → t.isSpecified = true := by
    intro t ht _
    cases t <;> first | rfl | contradiction
  have hds : ∀ d ∈ ds, d.Everywhere fun node => node.isSpecified = true :=
    hr.everywhere (fun h => h.isSpecified_constructor) hother
  have hbody := Tree.everywhere_sequence? (fun _ _ => rfl) hds
  exact Tree.everywhere_of_children rfl (by simpa [Tree.children] using hbody)

/-! ## Prefix position -/

namespace Tree

/-- Whether what stands at a place of a node is in prefix position, where `initial` tells it of the
node. The first operand of a suffix begins where the whole does, and so do the terms of a list.
What a definition introduces, arguments, specifiers, heads of control constructs and the parts of
captures are read without asking for a constructor. A pattern in front of its arrow is an operand
as all others are. -/
def isInitialPlace (initial : Bool) : Tree τ → Nat → Bool
  | call _ _, place | index _ _, place => initial && place == 0
  | postfixOp _ _, _ | list _, _ => initial
  | infixOp _ operator _, place => initial || place != 0 || HasKind.kind operator != .dot
  | declaration introducer _ _ _ _, place => introducer.isNone || place != 0
  | array _ _ _, place | function _ _ _, place | template _ _ _, place => place != 0
  | control keyword _ _, place => place != 0 || HasKind.kind keyword == .fatArrow
  | capture _ _, _ => false
  | literal _, _ | identifier _, _ | prefixOp _ _, _ | enclosure _ _ _, _ | file _, _
  | constraint _ _ _, _ | sequence _, _ => true

/-- Whether the node at the end of a path is in prefix position, where `initial` tells it of the
root. -/
def isInitialAt (initial : Bool) (t : Tree τ) : List Nat → Bool
  | [] => initial
  | place :: path =>
    (t.operand? place).elim false fun operand =>
      operand.isInitialAt (t.isInitialPlace initial place) path

/-- That a group begins no constructor, where `first` and `second` are the kinds behind it: neither
a function, for which it has to be empty or to begin with a declaration, nor a template or an
array. -/
structure BeginsNoConstructor (opening first second : TokenKind) (group : Tree τ) : Prop where
  /-- No arrow and no result follow what could be parameters. -/
  paren : opening = .leftParen → (group.isHollow || group.beginsDeclaring) = true →
    first ≠ .thinArrow ∧ Dialect.standard.rules.operandStart.contains first = false
  /-- No result follows a bracket, and none follows an arrow behind it. -/
  bracket : opening = .leftBracket →
    Dialect.standard.rules.operandStart.contains first = false ∧
      (first = .fatArrow → Dialect.standard.rules.operandStart.contains second = false)

omit [HasKind τ] in
/-- Where no constructor is announced, a group begins none. -/
theorem beginsNoConstructor_of_form {opening first second : TokenKind} {group : Tree τ}
    (h : constructorForm? Dialect.standard.rules opening group.isHollow group.beginsDeclaring
      first second = none) : group.BeginsNoConstructor opening first second := by
  constructor
  · rintro rfl hgroup
    simp only [constructorForm?, hgroup] at h
    grind
  · rintro rfl
    simp only [constructorForm?] at h
    grind

/-- That the groups of a tree that are in prefix position begin no constructor, where `all` are the
tokens of the text. -/
def PlainGroups (all : List τ) (initial : Bool) (t : Tree τ) : Prop :=
  ∀ path a term b, t.descend path = some (enclosure a term b) →
    t.isInitialAt initial path = true → ∃ rest, b :: rest <:+ all ∧
      (enclosure a term b).BeginsNoConstructor (HasKind.kind a) (kindAt rest 0) (kindAt rest 1)

variable {all : List τ} {i j : Bool} {t : Tree τ}

/-- Whatever is in prefix position in a node that is not is so in one that is. -/
theorem isInitialPlace_mono (h : j = true → i = true) {place : Nat}
    (hplace : t.isInitialPlace j place = true) : t.isInitialPlace i place = true := by
  cases i with
  | true => cases j <;> cases t <;> simp_all [isInitialPlace]
  | false =>
    cases j with
    | true => exact absurd (h rfl) nofun
    | false => exact hplace

theorem isInitialAt_mono (h : j = true → i = true) {path : List Nat}
    (hpath : t.isInitialAt j path = true) : t.isInitialAt i path = true := by
  induction path generalizing t i j with
  | nil => exact h hpath
  | cons place path ih =>
    cases hoperand : t.operand? place with
    | none => simp [isInitialAt, hoperand] at hpath
    | some operand =>
      simp only [isInitialAt, hoperand, Option.elim_some] at hpath ⊢
      exact ih (isInitialPlace_mono h) hpath

namespace PlainGroups

theorem mono (h : t.PlainGroups all i) (hij : j = true → i = true) : t.PlainGroups all j :=
  fun path a term b hpath hinitial => h path a term b hpath (isInitialAt_mono hij hinitial)

/-- A part of a node that is there is one tree. -/
theorem of_some (h : t.PlainGroups all i) : ∀ part ∈ some t, part.PlainGroups all i := by
  rintro _ ⟨⟩
  exact h

/-- The groups of a tree are the tree itself and the groups of its operands. -/
theorem of_operands
    (hroot : ∀ {a term b}, t = enclosure a term b → i = true → ∃ rest, b :: rest <:+ all ∧
      t.BeginsNoConstructor (HasKind.kind a) (kindAt rest 0) (kindAt rest 1))
    (h : ∀ place (operand : Tree τ), t.children[place]? = some (some operand) →
      operand.PlainGroups all (t.isInitialPlace i place)) : t.PlainGroups all i := by
  intro path a term b hpath hinitial
  cases path with
  | nil =>
    obtain rfl : t = enclosure a term b := Option.some.inj hpath
    exact hroot rfl hinitial
  | cons place path =>
    obtain ⟨operand, hoperand, hpath⟩ := Option.bind_eq_some_iff.1 hpath
    simp only [isInitialAt, hoperand, Option.elim_some] at hinitial
    exact h place operand (Option.join_eq_some_iff.1 hoperand) path a term b hpath hinitial

/-- The operands of a tree with plain groups have them where they stand. -/
theorem inside (h : t.PlainGroups all i) {place : Nat} {operand : Tree τ}
    (hoperand : t.operand? place = some operand) :
    operand.PlainGroups all (t.isInitialPlace i place) := fun path a term b hpath hinitial =>
  h (place :: path) a term b (Option.bind_eq_some_iff.2 ⟨operand, hoperand, hpath⟩)
    (by simpa [isInitialAt, hoperand] using hinitial)

/-- A node that is no enclosure has plain groups if its operands have them where they stand. -/
theorem of_children (ht : (t.kind == .enclosure) = false)
    (h : ∀ place (operand : Tree τ), t.children[place]? = some (some operand) →
      operand.PlainGroups all (t.isInitialPlace i place)) : t.PlainGroups all i := by
  refine of_operands (fun heq => ?_) h
  rw [heq] at ht
  contradiction

/-- A node that is no enclosure has plain groups if its operands have them in prefix position. -/
theorem node (ht : (t.kind == .enclosure) = false)
    (h : ∀ slot ∈ t.children, ∀ operand ∈ slot, operand.PlainGroups all true) :
    t.PlainGroups all i := by
  refine of_children ht fun place operand hoperand => ?_
  exact (h _ (List.mem_of_getElem? hoperand) operand rfl).mono fun _ => rfl

/-- A node with one operand has plain groups if the operand has them where it stands. -/
theorem single {only : Tree τ} (hc : t.children = [some only])
    (ht : (t.kind == .enclosure) = false) (h : only.PlainGroups all (t.isInitialPlace i 0)) :
    t.PlainGroups all i := by
  refine of_children ht fun place operand hoperand => ?_
  rw [hc] at hoperand
  cases place with
  | zero => cases hoperand; exact h
  | succ => contradiction

/-- A node with two operands has plain groups if each operand has them where it stands. -/
theorem pair {l r : Option (Tree τ)} (hc : t.children = [l, r])
    (ht : (t.kind == .enclosure) = false)
    (hl : ∀ operand ∈ l, operand.PlainGroups all (t.isInitialPlace i 0))
    (hr : ∀ operand ∈ r, operand.PlainGroups all (t.isInitialPlace i 1)) :
    t.PlainGroups all i := by
  refine of_children ht fun place operand hoperand => ?_
  rw [hc] at hoperand
  rcases place with _ | _ | place
  · exact hl operand (Option.some.inj hoperand)
  · exact hr operand (Option.some.inj hoperand)
  · contradiction

/-- The group between two delimiters begins with an operand, wherever the delimiters stand. -/
theorem enclosure {a b : τ} {term : Option (Tree τ)} (h : ∀ t ∈ term, t.PlainGroups all true)
    (hroot : i = true → ∃ rest, b :: rest <:+ all ∧ (Tree.enclosure a term b).BeginsNoConstructor
      (HasKind.kind a) (kindAt rest 0) (kindAt rest 1)) :
    (Tree.enclosure a term b).PlainGroups all i := by
  refine of_operands (fun heq hi => ?_) fun place operand hoperand => ?_
  · cases heq
    exact hroot hi
  · have hmem : some operand ∈ [term] := List.mem_of_getElem? hoperand
    exact h operand (List.mem_singleton.1 hmem).symm

/-- The parts of a definition are operands, apart from what it introduces. -/
theorem declaration {introducer terminator : Option τ} {d type value : Option (Tree τ)}
    (hd : ∀ t ∈ d, t.PlainGroups all introducer.isNone)
    (htype : ∀ t ∈ type, t.PlainGroups all true) (hvalue : ∀ t ∈ value, t.PlainGroups all true) :
    (Tree.declaration introducer d type value terminator).PlainGroups all i := by
  refine of_children rfl fun place operand hoperand => ?_
  rcases place with _ | _ | _ | place
  · exact (hd operand (Option.some.inj hoperand)).mono (by simp [isInitialPlace])
  · exact (htype operand (Option.some.inj hoperand)).mono fun _ => rfl
  · exact (hvalue operand (Option.some.inj hoperand)).mono fun _ => rfl
  · contradiction

/-- The head of a control construct is required for itself. -/
theorem control {k : τ} {head body : Option (Tree τ)} (hk : HasKind.kind k ≠ .fatArrow)
    (hhead : ∀ t ∈ head, t.PlainGroups all false) (hbody : ∀ t ∈ body, t.PlainGroups all true) :
    (Tree.control k head body).PlainGroups all i :=
  pair rfl rfl (fun t ht => (hhead t ht).mono (by simp [isInitialPlace, hk]))
    fun t ht => (hbody t ht).mono fun _ => rfl

/-- A specifier is required for itself, and the result behind it is an operand. -/
theorem build {sort : ConstructorSort} {mark : Option τ} {s r : Tree τ}
    (hs : s.PlainGroups all false) (hr : r.PlainGroups all true) :
    (sort.build mark s r).PlainGroups all i := by
  cases sort <;>
    exact pair rfl rfl (.of_some hs) (.of_some hr)

theorem list {ts : List (Tree τ)} (h : ∀ t ∈ ts, t.PlainGroups all i) :
    (Tree.list ts).PlainGroups all i := by
  refine of_children rfl fun place operand hoperand => ?_
  exact h operand (by simpa [children] using List.mem_of_getElem? hoperand)

theorem joined {ts : List (Tree τ)} (h : ∀ t ∈ ts, t.PlainGroups all i) :
    (Tree.joined ts).PlainGroups all i := by
  cases ts with
  | nil => exact list h
  | cons t ts =>
    cases ts with
    | nil => exact h t List.mem_cons_self
    | cons u ts => exact list h

theorem sequence? {ts : List (Tree τ)} (h : ∀ t ∈ ts, t.PlainGroups all true) :
    ∀ s ∈ Tree.sequence? ts, s.PlainGroups all true := by
  cases ts with
  | nil => simp [Tree.sequence?]
  | cons t ts =>
    rintro s ⟨⟩
    exact node rfl (by simpa [children] using h)

end PlainGroups

end Tree

/-! ## Readings have plain groups -/

/-- Whether elements of a sequence are read as operands, which may be constructors. -/
def Element.isInitial : Element → Bool
  | value => false
  | name | item | items | branch => true

/-- That what a category reads has plain groups. Groups that are required for themselves are in no
prefix position, and values only where no constructor begins. -/
def Category.PlainGroups (all : List τ) : (c : Category τ) → List τ → c.Result → Prop
  | .separated e, _, vs => ∀ v ∈ vs, Tree.PlainGroups all e.isInitial v
  | .statements, _, vs | .declarations, _, vs => ∀ v ∈ vs, Tree.PlainGroups all true v
  | .typing, _, v | .initial, _, v => ∀ t ∈ v, Tree.PlainGroups all true t
  | .enclosed _ _, _, v | .functionHead, _, v => v.PlainGroups all false
  | .element e, ts, v =>
    v.PlainGroups all (e.isInitial || !opensConstructor Dialect.standard.rules ts)
  | .primary, ts, v => v.PlainGroups all (!opensConstructor Dialect.standard.rules ts)
  | .suffixes value, _, v => ∀ i, value.PlainGroups all i → v.PlainGroups all i
  | .operations _ left, _, v => left.PlainGroups all true → v.PlainGroups all true
  | .defined introducer declarator, _, v =>
    declarator.PlainGroups all introducer.isNone → v.PlainGroups all true
  | .phrase _, _, v | .type, _, v | .parameter, _, v | .block, _, v | .constructor, _, v
  | .layer _, _, v | .alternative, _, v | .scope, _, v | .control, _, v | .definition, _, v =>
    v.PlainGroups all true

/-- A reading leaves the end of its tokens. -/
theorem Reading.suffix {rules : Rules} {c : Category τ} {ts rest : List τ} {v : c.Result}
    (h : Reading rules c ts v rest) : rest <:+ ts := by
  have hkeeps : ∃ kept, KeepsTo ts kept rest := by
    have ho := h.ordered
    cases c
    case suffixes | operations | defined =>
      obtain ⟨kept, -, hkept⟩ := ho
      exact ⟨kept, hkept⟩
    all_goals exact ⟨_, ho⟩
  obtain ⟨kept, used, rfl, -⟩ := hkeeps
  exact List.suffix_append used rest

/-- A group that is read as a value begins a constructor at most where the tokens do. -/
theorem Reading.plainGroups_of_group {all ts rest : List τ} {t : Tree τ}
    {opening closing : TokenKind} (hdel : IsGroupDelimiters opening closing)
    (h : Reading Dialect.standard.rules (.enclosed opening closing) ts t rest) (hs : ts <:+ all)
    (ht : t.PlainGroups all false) :
    t.PlainGroups all (!opensConstructor Dialect.standard.rules ts) := by
  have hp := Dialect.standard.proper_rules
  obtain ⟨a, term, b, rfl, ha, -, hk, hcloser⟩ := h.exists_closer
  refine .enclosure (fun u hu => ?_) fun hvalue => ⟨rest, hcloser.trans hs, ?_⟩
  · subst hu
    have hoperand : (Tree.enclosure a (some u) b).operand? 0 = some u := rfl
    exact ht.inside hoperand
  · have hnone : constructorAhead? Dialect.standard.rules ts = none := by
      simpa [opensConstructor, Dialect.rules, Rules.standard] using hvalue
    rw [h.constructorAhead?_eq hp hdel.isDelimiters, hk, ← ha,
      ← h.beginsDeclaring_eq Dialect.standard.arrowImplications hdel] at hnone
    exact Tree.beginsNoConstructor_of_form hnone

/-- What the standard dialect reads has plain groups. -/
theorem Reading.plainGroups {all : List τ} {c : Category τ} {ts rest : List τ} {v : c.Result}
    (h : Reading Dialect.standard.rules c ts v rest) (hall : ts <:+ all) :
    c.PlainGroups all ts v := by
  have htail : ∀ {t : τ} {ts : List τ}, t :: ts <:+ all → ts <:+ all := fun {t ts} =>
    (List.suffix_cons t ts).trans
  have hleaf : ∀ {t : Tree τ} {i : Bool}, (t.kind == .enclosure) = false → t.children = [] →
      t.PlainGroups all i := fun ht hc => .node ht (by simp [hc])
  induction h with
  | name => exact hleaf rfl rfl
  | last _ _ ih =>
    exact List.forall_mem_singleton.2 ((ih hall).mono fun he => by rw [he]; rfl)
  | more h _ _ ih ih' =>
    exact List.forall_mem_cons.2
      ⟨(ih hall).mono fun he => by rw [he]; rfl, ih' (htail (h.suffix.trans hall))⟩
  | operandType _ _ ih | implicationType _ _ ih => exact ih hall
  | omittedType => rintro _ ⟨⟩
  | plainType _ _ _ _ ih => exact .of_some (ih (htail hall))
  | constrainedType _ _ h _ _ ih ih' =>
    have hmid := htail (h.suffix.trans (htail hall))
    exact .of_some (.node rfl (by simpa [Tree.children] using ⟨ih (htail hall), ih' hmid⟩))
  | colonConstraint _ _ _ ih =>
    exact .of_some (.pair rfl rfl nofun (.of_some (ih (htail (htail hall)))))
  | bareConstraint _ _ ih =>
    exact .of_some (.pair rfl rfl nofun (.of_some (ih (htail hall))))
  | noInitial => rintro _ ⟨⟩
  | initial _ _ ih => exact .of_some (ih (htail hall))
  | unnamedParameter _ ht _ ih ih' =>
    exact .declaration (by rintro _ ⟨⟩) (ih hall) (ih' (ht.suffix.trans hall))
  | namedParameter _ hn ht _ ih ih' ih'' =>
    have hmid := hn.suffix.trans hall
    exact .declaration (.of_some (.joined (ih hall))) (ih' hmid)
      (ih'' (ht.suffix.trans hmid))
  | parameterItem _ _ ih | expressionItem _ _ ih => exact ih hall
  | items _ ih => exact .list (ih hall)
  | emptyEnclosure => exact .enclosure (by rintro _ ⟨⟩) nofun
  | enclosure _ _ _ _ ih =>
    exact .enclosure (.of_some (.joined (ih (htail hall)))) nofun
  | noStatements => rintro _ ⟨⟩
  | statements _ _ h _ ih ih' =>
    exact List.forall_mem_cons.2 ⟨ih hall, ih' (h.suffix.trans hall)⟩
  | block ha h _ ih =>
    refine .enclosure (.sequence? (ih (htail hall))) fun _ =>
      ⟨_, h.suffix.trans (htail hall), ⟨fun hk => ?_, fun hk => ?_⟩⟩ <;>
    · rw [ha] at hk
      contradiction
  | wordConstructor hc => contradiction
  | unmarkedConstructor _ hs _ ih ih' => exact .build (ih hall) (ih' (hs.suffix.trans hall))
  | markedConstructor _ _ hs _ ih ih' => exact .build (ih hall) (ih' (htail (hs.suffix.trans hall)))
  | literal | identifier => exact hleaf rfl rfl
  | paren _ h ih => exact h.plainGroups_of_group isGroupDelimiters_paren hall (ih hall)
  | bracket _ h ih => exact h.plainGroups_of_group isGroupDelimiters_bracket hall (ih hall)
  | suffixesEnd => exact fun _ hv => hv
  | call ha _ ih ih' | index ha _ ih ih' =>
    intro i hv
    exact ih' (ha.suffix.trans hall) i (.pair rfl rfl
      (.of_some (hv.mono (by simp [Tree.isInitialPlace])))
      (.of_some ((ih hall).mono (by simp [Tree.isInitialPlace]))))
  | member hd _ _ ih =>
    intro i hv
    exact ih (htail (htail hall)) i (.pair rfl rfl
      (.of_some (hv.mono (by simp [Tree.isInitialPlace, hd]))) (.of_some (hleaf rfl rfl)))
  | caret _ _ _ ih => exact fun i hv => ih (htail hall) i (.single rfl rfl hv)
  | value hp _ ih ih' => exact ih' (hp.suffix.trans hall) _ (ih hall)
  | prefixOperand _ _ ih => exact .single rfl rfl (ih (htail hall))
  | constructorOperand _ _ ih => exact ih hall
  | valueOperand _ hc _ ih => exact (ih hall).mono (by simp [hc])
  | layerOperand _ ih => exact ih hall
  | layer hl _ ih ih' => exact ih' (hl.suffix.trans hall) (ih hall)
  | operationsEnd => exact id
  | operation _ hr _ ih ih' =>
    intro hl
    exact ih' (hr.suffix.trans (htail hall))
      (.node rfl (by simpa [Tree.children] using ⟨hl, ih (htail hall)⟩))
  | implicationEnd _ _ ih => exact ih hall
  | implication hl _ _ ih ih' =>
    have hmid := htail (hl.suffix.trans hall)
    exact .node rfl (by simpa [Tree.children] using ⟨ih hall, ih' hmid⟩)
  | assignmentEnd _ _ ih => exact ih hall
  | assignment hl _ _ ih ih' =>
    have hmid := htail (hl.suffix.trans hall)
    exact .node rfl (by simpa [Tree.children] using ⟨ih hall, ih' hmid⟩)
  | conditional hk hc _ _ ih ih' =>
    exact .control (by simp [hk]) (.of_some (ih (htail hall)))
      (.of_some (ih' (hc.suffix.trans (htail hall))))
  | @choice k _ _ _ _ _ c b _ hk hc hb he _ ih ih' ih'' =>
    have hmid := hc.suffix.trans (htail hall)
    have hfirst : (Tree.control k (some c) (some b)).PlainGroups all false :=
      .control (by simp [hk]) (.of_some (ih (htail hall))) (.of_some (ih' hmid))
    exact .control (by simp [he]) (.of_some hfirst)
      (.of_some (ih'' (htail (hb.suffix.trans hmid))))
  | furtherChoice _ _ ih | lastChoice _ _ ih => exact ih hall
  | branch hp _ _ ih ih' =>
    have hmid := htail (hp.suffix.trans hall)
    exact .node rfl (by simpa [Tree.children] using ⟨ih hall, ih' hmid⟩)
  | conditionalControl _ _ ih => exact ih hall
  | caseDistinction hk hs _ ih ih' =>
    have hbranches : ∀ b ∈ _, Tree.PlainGroups all true b := ih' (hs.suffix.trans (htail hall))
    exact .control (by simp [hk]) (.of_some (ih (htail hall)))
      (.of_some (.node rfl (by simpa [Tree.children] using hbranches)))
  | loop hk hc _ ih ih' =>
    exact .control (by rcases hk with hk | hk <;> simp [hk]) (.of_some (ih (htail hall)))
      (.of_some (ih' (hc.suffix.trans (htail hall))))
  | doBlock hk _ _ ih =>
    exact .control (by simp [hk]) (.of_some ((ih (htail hall)).mono nofun)) nofun
  | @doWhile _ w _ _ _ _ c hk hb hw _ _ ih ih' =>
    have hmid := htail (hb.suffix.trans (htail hall))
    have hcondition : (Tree.control w (some c) none).PlainGroups all true :=
      .control (by simp [hw]) (.of_some (ih' hmid)) nofun
    exact .control (by simp [hk]) (.of_some ((ih (htail hall)).mono nofun))
      (.of_some hcondition)
  | captures _ hc _ ih ih' =>
    exact .pair rfl rfl (.of_some (ih hall)) (.of_some (ih' (hc.suffix.trans hall)))
  | noCaptures _ _ ih => exact ih hall
  | functionValue hk hf _ ih ih' =>
    exact .control (by simp [hk]) (.of_some (ih (htail hall)))
      (.of_some (ih' (hf.suffix.trans (htail hall))))
  | blockScope _ _ ih | expressionScope _ _ ih => exact ih hall
  | localBinding hk hp _ ih ih' =>
    exact .control (by simp [hk]) (.of_some (ih (htail hall)))
      (.of_some (ih' (hp.suffix.trans (htail hall))))
  | controlExpression _ _ ih | assignmentExpression _ _ ih => exact ih hall
  | typedOnly _ _ ih =>
    intro hd
    exact .declaration (.of_some hd) (ih hall) nofun
  | definedBlock ht _ ih ih' =>
    intro hd
    exact .declaration (.of_some hd) (ih hall) (.of_some (ih' (ht.suffix.trans hall)))
  | definedValue ht _ _ _ ih ih' =>
    intro hd
    exact .declaration (.of_some hd) (ih hall) (.of_some (ih' (htail (ht.suffix.trans hall))))
  | introduced _ hd _ ih ih' =>
    exact ih' (hd.suffix.trans (htail hall)) (.joined (ih (htail hall)))
  | unintroduced _ hd _ ih ih' => exact ih' (hd.suffix.trans hall) (.joined (ih hall))
  | definitionStatement _ _ ih | controlStatement _ _ _ _ ih | terminatedControl _ _ _ _ ih
  | expressionStatement _ _ _ _ ih =>
    exact ih hall
  | noDeclarations => rintro _ ⟨⟩
  | declarations _ h _ ih ih' =>
    exact List.forall_mem_cons.2 ⟨ih hall, ih' (h.suffix.trans hall)⟩

/-! ## Texts of the standard dialect -/

/-- A token of the end behind other tokens is of the kind that is found there anyway. -/
theorem kindAt_concat {finish : τ} (h : kind finish = .eof) (ts : List τ) (place : Nat) :
    kindAt (ts ++ [finish]) place = kindAt ts place := by
  induction ts generalizing place with
  | nil => cases place <;> simp [kindAt, h]
  | cons t ts ih =>
    cases place with
    | zero => rfl
    | succ place => exact ih place

/-- In the tree of a text that the standard dialect accepts, constructors and groups are told apart
as the tokens say: specifiers are of the sorts of their constructors, and a group in prefix
position, which ends at one place of the buffer only, has nothing behind it that would make it a
specifier. -/
theorem constructors_told_apart {symbols : SymbolTable} {text : String} {t : Tree Token}
    (h : (parseText symbols .standard text).1 = .ok t) :
    (t.Everywhere fun node => node.isSpecified = true) ∧
    ∀ path a term b, t.descend path = some (.enclosure a term b) →
      t.isInitialAt true path = true →
      ∃ i, (∀ j, (tokenize symbols text).1[j]? = some b ↔ j = i) ∧
        (Tree.enclosure a term b).BeginsNoConstructor (kind a)
          (kindAt (tokenize symbols text).1 (i + 1))
          (kindAt (tokenize symbols text).1 (i + 2)) := by
  refine ⟨everywhere_isSpecified h, fun path a term b hpath hinitial => ?_⟩
  obtain ⟨ds, rfl, hr⟩ := exists_reading_of_parseText h
  obtain ⟨ts, finish, hbuffer, hfinish, -⟩ := tokenize_spec symbols text
  rw [hbuffer, List.dropLast_concat] at hr
  have hplain : (Tree.file (Tree.sequence? ds)).PlainGroups ts true :=
    .node rfl (by simpa [Tree.children] using
      Tree.PlainGroups.sequence? (hr.plainGroups (List.suffix_refl ts)))
  obtain ⟨rest, ⟨front, hfront⟩, hgroup⟩ := hplain path a term b hpath hinitial
  have hindex : (tokenize symbols text).1[front.length]? = some b := by
    rw [hbuffer, ← hfront]
    simp
  have hbehind : ∀ k, kindAt (tokenize symbols text).1 (front.length + 1 + k) = kindAt rest k := by
    intro k
    rw [hbuffer, kindAt_concat hfinish, ← hfront, ← kindAt_drop]
    simp
  refine ⟨front.length, fun j => ⟨fun hj => tokenize_getElem?_unique hj hindex, ?_⟩, ?_⟩
  · rintro rfl
    exact hindex
  · rw [hbehind 0, hbehind 1]
    exact hgroup

/-- Constructors stand beside groups: in a declarator parentheses and brackets are values, and so is
a group with a declaration in it that is taken apart by a dot. -/
theorem constructors_told_apart_sorts :
    let text := "def (x)[1](y: int): [2] int = (a: int).b; t: [T: type] => (x: T) -> T;"
    ∃ t, (parseText (.empty 0) .standard text).1 = .ok t ∧
      (t.Everywhere fun node => node.isSpecified = true) ∧
      ∀ path a term b, t.descend path = some (.enclosure a term b) →
        t.isInitialAt true path = true →
        ∃ i, (∀ j, (tokenize (.empty 0) text).1[j]? = some b ↔ j = i) ∧
          (Tree.enclosure a term b).BeginsNoConstructor (kind a)
            (kindAt (tokenize (.empty 0) text).1 (i + 1))
            (kindAt (tokenize (.empty 0) text).1 (i + 2)) := by
  obtain ⟨t, ht⟩ := exists_tree_of_isOk (.empty 0) .standard
    "def (x)[1](y: int): [2] int = (a: int).b; t: [T: type] => (x: T) -> T;" (by decide +kernel)
  exact ⟨t, ht, constructors_told_apart ht⟩

end ConcreteSyntax
