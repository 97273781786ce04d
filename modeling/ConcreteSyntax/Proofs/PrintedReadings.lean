import ConcreteSyntax.Proofs.ConstructorLookahead

/-!
# Readings of printed words

What was read from some words is read again from its printed words, whatever follows
them in place of what followed before. Printing puts back one separator for each one
that was dropped, but it may add a semicolon behind a control construct, and it writes
the colon of a bare constraint or leaves it out in its own way.
-/

namespace ConcreteSyntax

open TokenParser Grammar

namespace Tree

/-! ## Printed parts -/

attribute [local simp] print printTerms printOthers

/-- The first term at a plain place is at a plain place. -/
@[simp] theorem ofFirst_plain (t : Tree Word) : Place.plain.ofFirst t = .plain := by
  simp [Place.ofFirst]

/-- One term is printed without a separator. -/
@[simp] theorem printTerms_singleton (place : Place) (sep : Word) (t : Tree Word) :
    printTerms place sep [t] = print (place.ofFirst t) t := by
  simp

/-- Further terms are printed behind a separator. -/
theorem printTerms_cons (place : Place) (sep : Word) (t : Tree Word) {ts : List (Tree Word)}
    (h : ts ≠ []) :
    printTerms place sep (t :: ts) =
      print (place.ofFirst t) t ++ sep :: printTerms .plain sep ts := by
  cases ts with
  | nil => exact absurd rfl h
  | cons u us => simp

/-- Joined trees that are no lists are printed with commas. -/
theorem print_joined {vs : List (Tree Word)} (hne : vs ≠ []) (h : ∀ v ∈ vs, v.isList = false) :
    print .plain (joined vs) = printTerms .plain TokenKind.comma.word vs := by
  cases vs with
  | nil => exact absurd rfl hne
  | cons u vs =>
    cases vs with
    | nil => simp [joined]
    | cons v vs => simp [joined, separator, h u List.mem_cons_self]

/-- Joined lists are printed with semicolons. -/
theorem print_joined_lists (place : Place) {vs : List (Tree Word)} (hne : vs ≠ [])
    (h : ∀ v ∈ vs, v.isList = true) :
    print place (joined vs) = printTerms place TokenKind.semicolon.word vs := by
  cases vs with
  | nil => exact absurd rfl hne
  | cons u vs =>
    cases vs with
    | nil => simp [joined, Place.ofFirst, h u List.mem_cons_self]
    | cons v vs => simp [joined, separator, h u List.mem_cons_self]

/-- A list of items is printed with commas. -/
theorem print_list (place : Place) {vs : List (Tree Word)} (h : ∀ v ∈ vs, v.isList = false) :
    print place (list vs) = printTerms place TokenKind.comma.word vs := by
  cases vs with
  | nil => rfl
  | cons v vs => simp [separator, h v List.mem_cons_self]

/-- The statements of a block or a file are printed one behind the other. -/
theorem printSlot_sequence? (ss : List (Tree Word)) :
    printSlot .plain (sequence? ss) = printStatements ss := by
  cases ss with
  | nil => rfl
  | cons s ss => simp [sequence?, printSlot]

/-- A reserved word is printed in front of the specifier of a constructor. -/
theorem print_build_of_leads (sort : ConstructorSort) {m : Word} (h : leads (some m) = true)
    (s r : Tree Word) :
    print .plain (sort.build (some m) s r) = m :: (print sort.place s ++ print .plain r) := by
  cases sort <;> simp [ConstructorSort.build, ConstructorSort.place, printConstructor, h]

/-- An arrow is printed behind the specifier of a constructor. -/
theorem print_build_of_not_leads (sort : ConstructorSort) {m : Option Word}
    (h : leads m = false) (s r : Tree Word) :
    print .plain (sort.build m s r) = print sort.place s ++ (m.toList ++ print .plain r) := by
  cases sort <;> simp [ConstructorSort.build, ConstructorSort.place, printConstructor, h]

end Tree

/-! ## What readings tell about printing -/

namespace Tree

variable {τ : Type} [HasKind τ] {rules : Rules} {t : Tree τ}

attribute [local simp] isList isDeclaration isConstraint isBlock

/-- An expression of some level is no list, no declaration, no constraint and no block. -/
theorem atLeast_shape {n : Nat} (h : t.atLeast rules n = true) :
    t.isList = false ∧ t.isDeclaration = false ∧ t.isConstraint = false ∧ t.isBlock = false := by
  cases t <;> simp_all [atLeast, level?]; grind

/-- An expression is no list, no declaration and no block. -/
theorem isExpression_shape (h : t.isExpression rules = true) :
    t.isList = false ∧ t.isDeclaration = false ∧ t.isBlock = false := by
  rw [isExpression, Bool.or_eq_true] at h
  rcases h with h | h
  · cases t <;> simp_all [isControl]
  · obtain ⟨hl, hd, -, hb⟩ := atLeast_shape h
    exact ⟨hl, hd, hb⟩

/-- An item is no list. -/
theorem isList_of_isItem (h : t.isItem rules = true) : t.isList = false := by
  rw [isItem, Bool.or_eq_true] at h
  rcases h with h | h
  · cases t <;> simp_all [isParameter]
  · exact (isExpression_shape h).1

/-- A list of items is a list. -/
theorem isList_of_isItems (h : t.isItems rules = true) : t.isList = true := by
  cases t <;> simp_all [isItems]

omit [HasKind τ] in
/-- A name is no list. -/
theorem isList_of_isIdentifier (h : t.isIdentifier = true) : t.isList = false := by
  cases t <;> simp_all [isIdentifier]

/-- A type is no constraint without a type. -/
theorem isBareConstraint_of_atLeast {n : Nat} (h : t.atLeast rules n = true) :
    isBareConstraint (some t) = false := by
  obtain ⟨-, -, hc, -⟩ := atLeast_shape h
  cases t <;> simp_all [isBareConstraint]

end Tree

/-! ## Reading again -/

/-- That words in front of a rest are read as a result, and that they begin with a token
of the same kind as the tokens from which the result was read before. -/
structure ReadsAgain (rules : Rules) (c : Category Word) (ts : List Word) (v : c.Result)
    (words rest : List Word) : Prop where
  /-- The words are read as the result. -/
  reading : Reading rules c (words ++ rest) v rest
  /-- The words begin like the tokens. -/
  kind : kindAt (words ++ rest) 0 = kindAt ts 0

/-- Words may be written in another way. -/
theorem ReadsAgain.of_eq {rules : Rules} {c : Category Word} {ts : List Word} {v : c.Result}
    {words rest w : List Word} (he : words ++ rest = w) (hr : Reading rules c w v rest)
    (hk : kindAt w 0 = kindAt ts 0) : ReadsAgain rules c ts v words rest :=
  ⟨he ▸ hr, he ▸ hk⟩

open ConcreteSyntax.Tree in
/-- That what a category has read is read again from its printed words. -/
def Category.Reprints (rules : Rules) :
    (c : Category Word) → List Word → c.Result → List Word → Prop
  | .phrase .statement, ts, v, _ => ∀ rest',
    ReadsAgain rules (.phrase .statement) ts v (print .plain v ++ printTerminator v) rest'
  | .phrase p, ts, v, rest => ∀ rest', MayReplace rules rest rest' →
    ReadsAgain rules (.phrase p) ts v (print .plain v) rest'
  | .element .name, ts, v, rest => ∃ n, kind n = .ident ∧ v = .identifier n ∧ ts = n :: rest
  | .element .item, ts, v, rest => ∀ place rest', place ≠ .branches → MayReplace rules rest rest' →
    ReadsAgain rules (.element .item) ts v (print (place.ofFirst v) v) rest' ∧
      OpensAlike place ts (print (place.ofFirst v) v ++ rest')
  | .element .items, ts, v, rest => ∀ place rest', place ≠ .branches → MayReplace rules rest rest' →
    ReadsAgain rules (.element .items) ts v (print place v) rest' ∧
      OpensAlike place ts (print place v ++ rest')
  | .element .branch, ts, v, rest => ∀ rest', MayReplace rules rest rest' →
    ReadsAgain rules (.element .branch) ts v (print .plain v) rest'
  | .element .value, ts, v, rest => continuesValue rules (kindAt rest 0) = false ∧
    (∀ rest', continuesValue rules (kindAt rest' 0) = false →
      ReadsAgain rules (.element .value) ts v (print .plain v) rest') ∧
    ∀ rest', MayReplace rules rest rest' → opensConstructor rules ts = false →
      opensConstructor rules (print .plain v ++ rest') = false
  | .separated .name, ts, vs, _ => (∀ rest', kindAt rest' 0 ≠ .comma →
      ReadsAgain rules (.separated .name) ts vs (printTerms .plain TokenKind.comma.word vs) rest') ∧
    ∀ rest', kindAt rest' 0 = .colon ∨ kindAt rest' 0 = .isKw →
      opensDefinition (printTerms .plain TokenKind.comma.word vs ++ rest') = true
  | .separated .item, ts, vs, rest => ∀ place rest', place ≠ .branches →
    MayReplace rules rest rest' →
    ReadsAgain rules (.separated .item) ts vs (printTerms place TokenKind.comma.word vs) rest' ∧
      OpensAlike place ts (printTerms place TokenKind.comma.word vs ++ rest')
  | .separated .items, ts, vs, rest => ∀ place rest', place ≠ .branches →
    MayReplace rules rest rest' → kindAt rest' 0 ≠ .semicolon →
    ReadsAgain rules (.separated .items) ts vs
        (printTerms place TokenKind.semicolon.word vs) rest' ∧
      OpensAlike place ts (printTerms place TokenKind.semicolon.word vs ++ rest')
  | .separated .branch, ts, vs, rest => ∀ rest', MayReplace rules rest rest' →
    ReadsAgain rules (.separated .branch) ts vs (printTerms .plain TokenKind.elseKw.word vs) rest'
  | .separated .value, ts, vs, _ => ∀ rest', continuesValue rules (kindAt rest' 0) = false →
    kindAt rest' 0 ≠ .comma →
    ReadsAgain rules (.separated .value) ts vs (printTerms .plain TokenKind.comma.word vs) rest'
  | .type, ts, v, rest => ∀ rest', MayReplace rules rest rest' →
    ReadsAgain rules .type ts v (print .plain v) rest'
  | .typing, ts, v, rest => (kindAt ts 0 = .colon ∨ kindAt ts 0 = .isKw) ∧
    (isBareConstraint v = false → kindAt ts 0 = .colon) ∧ (v = none → kindAt rest 0 = .eq) ∧
    ∀ rest', MayReplace rules rest rest' → (v = none → kindAt rest' 0 = .eq) →
      Reading rules .typing (TokenKind.colon.word :: (printSlot .plain v ++ rest')) v rest' ∧
        (isBareConstraint v = true → Reading rules .typing (printSlot .plain v ++ rest') v rest' ∧
          kindAt (printSlot .plain v ++ rest') 0 = .isKw)
  | .initial, ts, v, rest => ∀ rest', MayReplace rules rest rest' →
    Reading rules .initial (printEquals v ++ (printSlot .plain v ++ rest')) v rest' ∧
      MayReplace rules ts (printEquals v ++ (printSlot .plain v ++ rest')) ∧
      (kindAt ts 0 = .eq → kindAt (printEquals v ++ (printSlot .plain v ++ rest')) 0 = .eq)
  | .parameter, ts, v, rest => ∀ place rest', place ≠ .branches → MayReplace rules rest rest' →
    ReadsAgain rules .parameter ts v (print place v) rest' ∧
      opensParameter (print place v ++ rest') = true ∧
      (place = .specifier → opensNamed ts = true → opensNamed (print place v ++ rest') = true) ∧
      (place = .plain → opensNamed (print place v ++ rest') = true → opensNamed ts = true)
  | .enclosed opening closing, ts, v, _ => IsGroupDelimiters opening closing →
    ∀ place rest', place ≠ .branches →
      ReadsAgain rules (.enclosed opening closing) ts v (print place v) rest' ∧
        OpensAlike place (ts.drop 1) ((print place v ++ rest').drop 1)
  | .statements, _, ss, _ => ∀ rest', kindAt rest' 0 = .rightBrace ∨ kindAt rest' 0 = .eof →
    Reading rules .statements (printStatements ss ++ rest') ss rest'
  | .block, ts, v, _ => ∀ rest', ReadsAgain rules .block ts v (print .plain v) rest'
  | .constructor, ts, v, rest => ∀ rest', MayReplace rules rest rest' →
    ReadsAgain rules .constructor ts v (print .plain v) rest'
  | .primary, ts, v, rest =>
    (∀ rest', ReadsAgain rules .primary ts v (print .plain v) rest') ∧
    ∀ rest', MayReplace rules rest rest' → opensConstructor rules ts = false →
      opensConstructor rules (print .plain v ++ rest') = false
  | .suffixes value, ts, v, rest => continuesValue rules (kindAt rest 0) = false ∧
    ∃ words, print .plain v = print .plain value ++ words ∧
      (∀ rest', continuesValue rules (kindAt rest' 0) = false →
        Reading rules (.suffixes value) (words ++ rest') v rest') ∧
      ∀ rest', MayReplace rules rest rest' → MayReplace rules ts (words ++ rest')
  | .layer n, ts, v, rest => ∀ rest', MayReplace rules rest rest' →
    ReadsAgain rules (.layer n) ts v (print .plain v) rest'
  | .operations n left, ts, v, rest =>
    ∃ words, print .plain v = print .plain left ++ words ∧
      ∀ rest', MayReplace rules rest rest' →
        Reading rules (.operations n left) (words ++ rest') v rest' ∧
          MayReplace rules ts (words ++ rest')
  | .alternative, ts, v, rest => ∀ rest', MayReplace rules rest rest' →
    ReadsAgain rules .alternative ts v (print .plain v) rest'
  | .functionHead, ts, v, _ => ∀ rest',
    ReadsAgain rules .functionHead ts v (print .plain v) rest'
  | .scope, ts, v, rest => ∀ rest', MayReplace rules rest rest' →
    ReadsAgain rules .scope ts v (print .plain v) rest'
  | .control, ts, v, rest => ∀ rest', MayReplace rules rest rest' →
    ReadsAgain rules .control ts v (print .plain v) rest'
  | .defined introducer declarator, _, v, _ =>
    ∃ words, print .plain v = introducer.toList ++ (print .plain declarator ++ words) ∧
      ∀ rest', Reading rules (.defined introducer declarator) (words ++ rest') v rest' ∧
        (kindAt (words ++ rest') 0 = .colon ∨ kindAt (words ++ rest') 0 = .isKw)
  | .definition, ts, v, _ => ∀ rest',
    ReadsAgain rules .definition ts v (print .plain v) rest' ∧
      opensDeclaration (print .plain v ++ rest') = true
  | .declarations, _, ds, _ => ∀ rest', kindAt rest' 0 = .eof →
    Reading rules .declarations (printStatements ds ++ rest') ds rest'

/-! ## Sequences -/

section

open ConcreteSyntax.Tree

variable {rules : Rules}

/-- Tokens that begin alike look like the names of a definition alike. -/
theorem OpensAlike.definition {place : Place} {ts new : List Word} (h : OpensAlike place ts new)
    (hk : kindAt new 0 = kindAt ts 0) : opensDefinition new = opensDefinition ts := by
  have hcolon : ∀ us : List Word, kindAt us 0 = .colon → opensDefinition us = false := by
    intro us hus
    obtain ⟨t, us, rfl, ht⟩ := exists_of_kindAt hus (by decide)
    simp [opensDefinition_cons, ht]
  have hpar := h.parameter
  unfold opensParameter at hpar
  rw [hk] at hpar
  by_cases hc : kindAt ts 0 = .colon
  · rw [hcolon ts hc, hcolon new (hk.trans hc)]
  · simpa [beq_eq_false_iff_ne.2 hc] using hpar

/-- Names are read again. -/
theorem reprints_last_name {ts rest : List Word} {t : Tree Word}
    (ih : Category.Reprints rules (.element .name) ts t rest) :
    Category.Reprints rules (.separated .name) ts [t] rest := by
  obtain ⟨n, hn, rfl, rfl⟩ := ih
  refine ⟨fun rest' hne => .of_eq (by simp [print]) (.last (.name hn) hne) rfl, fun rest' hk => ?_⟩
  rw [printTerms_singleton]
  show opensDefinition (n :: rest') = true
  rcases hk with hk | hk <;> simp [opensDefinition_cons, hn, marksNames, hk]

/-- Names in front of others are read again. -/
theorem reprints_more_name {ts mid rest : List Word} {s : Word} {v : Tree Word}
    {vs : List (Tree Word)} (hne : vs ≠ [])
    (ih : Category.Reprints rules (.element .name) ts v (s :: mid))
    (ih' : Category.Reprints rules (.separated .name) mid vs rest) :
    Category.Reprints rules (.separated .name) ts (v :: vs) rest := by
  obtain ⟨n, hn, rfl, rfl⟩ := ih
  have hwords : ∀ rest', printTerms .plain TokenKind.comma.word (.identifier n :: vs) ++ rest' =
      n :: TokenKind.comma.word :: (printTerms .plain TokenKind.comma.word vs ++ rest') := by
    intro rest'
    rw [printTerms_cons _ _ _ hne]
    rfl
  refine ⟨fun rest' hc => .of_eq (hwords rest') (.more (.name hn) rfl (ih'.1 rest' hc).reading) rfl,
    fun rest' hk => ?_⟩
  rw [hwords, opensDefinition_cons]
  simpa [hn, marksNames] using ih'.2 rest' hk

/-- The last item of a list is read again. -/
theorem reprints_last_item {ts rest : List Word} {t : Tree Word} (hr : kindAt rest 0 ≠ .comma)
    (ih : Category.Reprints rules (.element .item) ts t rest) :
    Category.Reprints rules (.separated .item) ts [t] rest := by
  intro place rest' hplace hm
  obtain ⟨⟨hread, hkind⟩, halike⟩ := ih place rest' hplace hm
  rw [printTerms_singleton]
  exact ⟨⟨.last hread (hm.kind_ne hr (by decide)), hkind⟩, halike⟩

/-- An item in front of others is read again. -/
theorem reprints_more_item {ts mid rest : List Word} {s : Word} {v : Tree Word}
    {vs : List (Tree Word)} (hne : vs ≠ []) (hs : kind s = .comma)
    (ih : Category.Reprints rules (.element .item) ts v (s :: mid))
    (ih' : Category.Reprints rules (.separated .item) mid vs rest) :
    Category.Reprints rules (.separated .item) ts (v :: vs) rest := by
  intro place rest' hplace hm
  obtain ⟨⟨hread', hkind'⟩, halike'⟩ := ih' .plain rest' (by decide) hm
  have hcomma : MayReplace rules (s :: mid)
      (TokenKind.comma.word :: (printTerms .plain TokenKind.comma.word vs ++ rest')) :=
    .inr ⟨hs.symm, by rw [kindAt_cons_zero, hs]; decide,
      fun _ h => absurd (hs.symm.trans h) (by decide), fun _ => halike'.definition hkind'⟩
  obtain ⟨⟨hread, hkind⟩, halike⟩ := ih place _ hplace hcomma
  have hwords : printTerms place TokenKind.comma.word (v :: vs) ++ rest' =
      print (place.ofFirst v) v ++
        TokenKind.comma.word :: (printTerms .plain TokenKind.comma.word vs ++ rest') := by
    rw [printTerms_cons _ _ _ hne, List.append_assoc, List.cons_append]
  rw [hwords]
  exact ⟨.of_eq hwords (.more hread rfl hread') hkind, halike⟩

/-- The last list of a group is read again. -/
theorem reprints_last_items {ts rest : List Word} {t : Tree Word} (ht : t.isList = true)
    (ih : Category.Reprints rules (.element .items) ts t rest) :
    Category.Reprints rules (.separated .items) ts [t] rest := by
  intro place rest' hplace hm hne
  obtain ⟨⟨hread, hkind⟩, halike⟩ := ih place rest' hplace hm
  have hplace : place.ofFirst t = place := by simp [Place.ofFirst, ht]
  rw [printTerms_singleton, hplace]
  exact ⟨⟨.last hread hne, hkind⟩, halike⟩

/-- A list in front of others is read again. -/
theorem reprints_more_items {ts mid rest : List Word} {s : Word} {v : Tree Word}
    {vs : List (Tree Word)} (ht : v.isList = true) (hne : vs ≠ [])
    (ih : Category.Reprints rules (.element .items) ts v (s :: mid))
    (ih' : Category.Reprints rules (.separated .items) mid vs rest) :
    Category.Reprints rules (.separated .items) ts (v :: vs) rest := by
  intro place rest' hplace hm hsemi
  obtain ⟨⟨hread', -⟩, -⟩ := ih' .plain rest' (by decide) hm hsemi
  obtain ⟨⟨hread, hkind⟩, halike⟩ := ih place
    (TokenKind.semicolon.word :: (printTerms .plain TokenKind.semicolon.word vs ++ rest')) hplace
    (.inl rfl)
  have hwords : printTerms place TokenKind.semicolon.word (v :: vs) ++ rest' =
      print place v ++
        TokenKind.semicolon.word :: (printTerms .plain TokenKind.semicolon.word vs ++ rest') := by
    rw [printTerms_cons _ _ _ hne, List.append_assoc, List.cons_append]
    simp [Place.ofFirst, ht]
  rw [hwords]
  exact ⟨.of_eq hwords (.more hread rfl hread') hkind, halike⟩

/-- The last branch of a case distinction is read again. -/
theorem reprints_last_branch {ts rest : List Word} {t : Tree Word}
    (hr : kindAt rest 0 ≠ .elseKw)
    (ih : Category.Reprints rules (.element .branch) ts t rest) :
    Category.Reprints rules (.separated .branch) ts [t] rest := by
  intro rest' hm
  obtain ⟨hread, hkind⟩ := ih rest' hm
  refine .of_eq ?_ (.last hread (hm.kind_ne hr (by decide))) hkind
  rw [printTerms_singleton, ofFirst_plain]

/-- A branch in front of others is read again. -/
theorem reprints_more_branch {ts mid rest : List Word} {s : Word} {v : Tree Word}
    {vs : List (Tree Word)} (hne : vs ≠ []) (hs : kind s = .elseKw)
    (ih : Category.Reprints rules (.element .branch) ts v (s :: mid))
    (ih' : Category.Reprints rules (.separated .branch) mid vs rest) :
    Category.Reprints rules (.separated .branch) ts (v :: vs) rest := by
  intro rest' hm
  obtain ⟨hread', -⟩ := ih' rest' hm
  obtain ⟨hread, hkind⟩ := ih (TokenKind.elseKw.word :: _) (.of_kind hs (kindAt_cons_zero ..))
  refine .of_eq ?_ (.more hread rfl hread') hkind
  rw [printTerms_cons _ _ _ hne, ofFirst_plain, List.append_assoc, List.cons_append]

/-- The last declarator of a definition is read again. -/
theorem reprints_last_value {ts rest : List Word} {t : Tree Word}
    (ih : Category.Reprints rules (.element .value) ts t rest) :
    Category.Reprints rules (.separated .value) ts [t] rest := by
  intro rest' hvalue hne
  obtain ⟨hread, hkind⟩ := ih.2.1 rest' hvalue
  refine .of_eq ?_ (.last hread hne) hkind
  rw [printTerms_singleton, ofFirst_plain]

/-- A declarator in front of others is read again. -/
theorem reprints_more_value {ts mid rest : List Word} {s : Word} {v : Tree Word}
    {vs : List (Tree Word)} (hne : vs ≠ [])
    (ih : Category.Reprints rules (.element .value) ts v (s :: mid))
    (ih' : Category.Reprints rules (.separated .value) mid vs rest) :
    Category.Reprints rules (.separated .value) ts (v :: vs) rest := by
  intro rest' hvalue hcomma
  obtain ⟨hread', -⟩ := ih' rest' hvalue hcomma
  obtain ⟨hread, hkind⟩ := ih.2.1 (TokenKind.comma.word :: _) (by simp [continuesValue])
  refine .of_eq ?_ (.more hread rfl hread') hkind
  rw [printTerms_cons _ _ _ hne, ofFirst_plain, List.append_assoc, List.cons_append]

/-! ## Types and parameters -/

/-- A type that is left out is read again. -/
theorem reprints_omittedType {c : Word} {ts : List Word} (hc : kind c = .colon)
    (hn : kindAt ts 0 = .eq) : Category.Reprints rules .typing (c :: ts) none ts :=
  ⟨.inl hc, fun _ => hc, fun _ => hn,
    fun _ _ heq => ⟨.omittedType rfl (heq rfl), by rintro ⟨⟩⟩⟩

/-- A type behind a colon is read again. -/
theorem reprints_plainType {c : Word} {ts rest : List Word} {t : Tree Word}
    (hc : kind c = .colon) (ho : typeOmitted.contains (kindAt ts 0) = false)
    (hr : kindAt rest 0 ≠ .isKw) (hb : isBareConstraint (some t) = false)
    (ih : Category.Reprints rules .type ts t rest) :
    Category.Reprints rules .typing (c :: ts) (some t) rest := by
  refine ⟨.inl hc, fun _ => hc, (by rintro ⟨⟩), fun rest' hm _ => ⟨?_, fun h => ?_⟩⟩
  · obtain ⟨hread, hkind⟩ := ih rest' hm
    exact .plainType rfl (hkind ▸ ho) hread (hm.kind_ne hr (by decide))
  · rw [hb] at h
    contradiction

/-- A constrained type is read again. -/
theorem reprints_constrainedType {c m : Word} {ts mid rest : List Word} {t p : Tree Word}
    (hc : kind c = .colon) (ho : typeOmitted.contains (kindAt ts 0) = false)
    (hmark : kind m = .isKw) (ih : Category.Reprints rules .type ts t (m :: mid))
    (ih' : Category.Reprints rules .type mid p rest) :
    Category.Reprints rules .typing (c :: ts) (some (.constraint m (some t) p)) rest := by
  refine ⟨.inl hc, fun _ => hc, (by rintro ⟨⟩), fun rest' hm _ => ⟨?_, (by rintro ⟨⟩)⟩⟩
  obtain ⟨hread', -⟩ := ih' rest' hm
  obtain ⟨hread, hkind⟩ := ih (m :: (print .plain p ++ rest')) (.of_kind hmark hmark)
  have hwords : printSlot .plain (some (.constraint m (some t) p)) ++ rest' =
      print .plain t ++ m :: (print .plain p ++ rest') := by simp [printSlot, print]
  rw [hwords]
  exact .constrainedType rfl (hkind ▸ ho) hread hmark hread'

/-- A bare constraint is read again, with a colon and without. -/
theorem reprints_bareConstraint {m : Word} {ts mid rest : List Word} {p : Tree Word}
    (hts : kindAt ts 0 = .colon ∨ kindAt ts 0 = .isKw) (hmark : kind m = .isKw)
    (ih : Category.Reprints rules .type mid p rest) :
    Category.Reprints rules .typing ts (some (.constraint m none p)) rest := by
  refine ⟨hts, (by rintro ⟨⟩), (by rintro ⟨⟩), fun rest' hm _ => ?_⟩
  obtain ⟨hread, -⟩ := ih rest' hm
  have hwords : printSlot .plain (some (.constraint m none p)) ++ rest' =
      m :: (print .plain p ++ rest') := by simp [printSlot, print]
  rw [hwords]
  exact ⟨.colonConstraint rfl hmark hread, fun _ => ⟨.bareConstraint hmark hread, hmark⟩⟩

/-- A value that is left out stays so. -/
theorem reprints_noInitial {ts : List Word} (hn : kindAt ts 0 ≠ .eq) :
    Category.Reprints rules .initial ts none ts :=
  fun _ hm => ⟨.noInitial (hm.kind_ne hn (by decide)), hm, fun h => absurd h hn⟩

/-- An initial value is read again. -/
theorem reprints_initial {e : Word} {ts rest : List Word} {v : Tree Word} (he : kind e = .eq)
    (hb : v.isBlock = false) (ih : Category.Reprints rules (.phrase .expression) ts v rest) :
    Category.Reprints rules .initial (e :: ts) (some v) rest := by
  intro rest' hm
  obtain ⟨hread, -⟩ := ih rest' hm
  have hwords : printEquals (some v) ++ (printSlot .plain (some v) ++ rest') =
      TokenKind.eq.word :: (print .plain v ++ rest') := by simp [printEquals, printSlot, hb]
  rw [hwords]
  exact ⟨.initial rfl hread, .of_kind he rfl, fun _ => rfl⟩

/-- A parameter without names is read again. -/
theorem reprints_unnamedParameter {ts mid rest : List Word} {type value : Option (Tree Word)}
    (hts : kindAt ts 0 = .colon) (ih : Category.Reprints rules .typing ts type mid)
    (ih' : Category.Reprints rules .initial mid value rest) :
    Category.Reprints rules .parameter ts (.declaration none none type value none) rest := by
  intro place rest' _ hm
  obtain ⟨-, -, hnone, htype⟩ := ih
  obtain ⟨hvalue, hmid, heq⟩ := ih' rest' hm
  obtain ⟨hread, -⟩ := htype _ hmid fun h => heq (hnone h)
  have hwords : print place (.declaration none none type value none) ++ rest' =
      TokenKind.colon.word ::
        (printSlot .plain type ++ (printEquals value ++ (printSlot .plain value ++ rest'))) := by
    simp [print, printSlot, printColon]
  have hcolon : ∀ us : List Word, kindAt (TokenKind.colon.word :: us) 0 = .colon := fun _ => rfl
  have hnamed : ∀ us : List Word, kindAt us 0 = .colon → opensNamed us = true :=
    fun us hus => by simp [opensNamed, hus]
  refine ⟨.of_eq hwords (.unnamedParameter rfl hread hvalue) hts.symm, ?_, ?_, ?_⟩
  · rw [hwords]
    simp [opensParameter, hcolon]
  · exact fun _ _ => hwords ▸ hnamed _ rfl
  · exact fun _ _ => hnamed ts hts

/-- Names are named when there is one and a colon follows. -/
theorem opensNamed_of_names {ts mid : List Word} {ns : List (Tree Word)}
    (h : Reading rules (.separated .name) ts ns mid) :
    opensNamed ts = (ns.length == 1 && kindAt mid 0 == .colon) := by
  cases h with
  | last h _ =>
    cases h with
    | @name n _ hn =>
      have hone : kindAt (n :: mid) 1 = kindAt mid 0 := rfl
      simp [opensNamed, hn, hone]
  | more h hs ho =>
    cases h with
    | @name n _ hn =>
      have hone : ∀ (s : Word) us, kindAt (n :: s :: us) 1 = kind s := fun _ _ => rfl
      cases ho <;> simp [opensNamed, hn, hone, hs, Element.separator]

/-- A type is read behind a declarator, whether its colon is written or left out, when it
is read behind a colon and, if it is a bare constraint, without one. -/
theorem Reading.typed (place : Place) (d : Tree Word) {type : Option (Tree Word)}
    {rest typed : List Word}
    (hwith : Reading rules .typing (TokenKind.colon.word :: (printSlot .plain type ++ rest)) type
      rest)
    (hwithout : isBareConstraint type = true →
      Reading rules .typing (printSlot .plain type ++ rest) type rest ∧
        kindAt (printSlot .plain type ++ rest) 0 = .isKw)
    (htyped : printColon place (some d) type ++ (printSlot .plain type ++ rest) = typed) :
    Reading rules .typing typed type rest ∧ (kindAt typed 0 = .colon ∨ kindAt typed 0 = .isKw) ∧
      (place = .specifier → kindAt typed 0 = .colon) ∧
      (place = .plain → kindAt typed 0 = .colon → isBareConstraint type = false) := by
  -- The colon is left out exactly when the type is a bare constraint and the place is plain.
  by_cases hbare : isBareConstraint type = true ∧ place ≠ .specifier
  · obtain ⟨hread, hmark⟩ := hwithout hbare.1
    have hprint : printColon place (some d) type = [] := by
      simp [printColon, hbare.1, hbare.2]
    rw [hprint, List.nil_append] at htyped
    subst htyped
    refine ⟨hread, .inr hmark, fun h => absurd h hbare.2, fun _ h => ?_⟩
    rw [hmark] at h
    contradiction
  · have hprint : printColon place (some d) type = [TokenKind.colon.word] := by
      unfold printColon
      rw [if_neg]
      simpa using hbare
    rw [hprint, List.singleton_append] at htyped
    subst htyped
    refine ⟨hwith, .inl rfl, fun _ => rfl, fun h _ => Bool.eq_false_iff.2 fun hb => ?_⟩
    exact hbare ⟨hb, by rw [h]; decide⟩

/-- The type of a declaration is read again behind its declarator. -/
theorem reprints_typed (place : Place) (d : Tree Word) {ts rest rest' typed : List Word}
    {type : Option (Tree Word)} (ih : Category.Reprints rules .typing ts type rest)
    (hm : MayReplace rules rest rest') (heq : type = none → kindAt rest' 0 = .eq)
    (htyped : printColon place (some d) type ++ (printSlot .plain type ++ rest') = typed) :
    Reading rules .typing typed type rest' ∧ (kindAt typed 0 = .colon ∨ kindAt typed 0 = .isKw) ∧
      (place = .specifier → kindAt typed 0 = .colon) ∧
      (place = .plain → kindAt typed 0 = .colon → kindAt ts 0 = .colon) := by
  obtain ⟨-, hcolon, -, htype⟩ := ih
  obtain ⟨hwith, hwithout⟩ := htype rest' hm heq
  obtain ⟨hread, hmark, hspecifier, hplain⟩ := hwith.typed place d hwithout htyped
  exact ⟨hread, hmark, hspecifier, fun h h' => hcolon (hplain h h')⟩

/-- A parameter with names is read again. -/
theorem reprints_namedParameter {ts mid mid' rest : List Word} {ns : List (Tree Word)}
    {type value : Option (Tree Word)} (hts : kindAt ts 0 ≠ .colon) (hne : ns ≠ [])
    (hlist : ∀ n ∈ ns, n.isList = false) (hn : Reading rules (.separated .name) ts ns mid)
    (ih : Category.Reprints rules (.separated .name) ts ns mid)
    (ih' : Category.Reprints rules .typing mid type mid')
    (ih'' : Category.Reprints rules .initial mid' value rest) :
    Category.Reprints rules .parameter ts (.declaration none (some (.joined ns)) type value none)
      rest := by
  intro place rest' _ hm
  obtain ⟨hvalue, hmid, heq⟩ := ih'' rest' hm
  generalize htyped : printColon place (some (.joined ns)) type ++ (printSlot .plain type ++
    (printEquals value ++ (printSlot .plain value ++ rest'))) = typed
  obtain ⟨hread, hmark, hspecifier, hplain⟩ :=
    reprints_typed place (.joined ns) ih' hmid (fun h => heq (ih'.2.2.1 h)) htyped
  have hwords : print place (.declaration none (some (.joined ns)) type value none) ++ rest' =
      printTerms .plain TokenKind.comma.word ns ++ typed := by
    simp [print, printSlot, print_joined hne hlist, ← htyped]
  have hcomma : kindAt typed 0 ≠ .comma := by rcases hmark with h | h <;> rw [h] <;> decide
  obtain ⟨hnames, hkind⟩ := ih.1 typed hcomma
  rw [hwords]
  refine ⟨.of_eq hwords (.namedParameter (hkind ▸ hts) hnames hread hvalue) hkind, ?_, ?_, ?_⟩
  · simp [opensParameter, ih.2 typed hmark]
  · intro hplace hnamed
    rw [opensNamed_of_names hn, Bool.and_eq_true] at hnamed
    rw [opensNamed_of_names hnames, hnamed.1, hspecifier hplace]
    rfl
  · intro hplace hnamed
    rw [opensNamed_of_names hnames, Bool.and_eq_true, beq_iff_eq (a := kindAt typed 0)] at hnamed
    rw [opensNamed_of_names hn, hnamed.1, hplain hplace hnamed.2]
    rfl

/-! ## Groups and blocks -/

/-- A parameter in a list is read again. -/
theorem reprints_parameterItem {ts rest : List Word} {t : Tree Word} (hd : t.isDeclaration = true)
    (ho : opensParameter ts = true) (ih : Category.Reprints rules .parameter ts t rest) :
    Category.Reprints rules (.element .item) ts t rest := by
  intro place rest' hplace hm
  obtain ⟨⟨hread, hkind⟩, hopens, hspecifier, hplain⟩ := ih place rest' hplace hm
  have hfirst : place.ofFirst t = place := by simp [Place.ofFirst, hd]
  rw [hfirst]
  exact ⟨⟨.parameterItem hopens hread, hkind⟩, hopens.trans ho.symm, hspecifier, hplain⟩

/-- An expression in a list is read again. -/
theorem reprints_expressionItem (hp : rules.Printable) {ts rest : List Word} {t : Tree Word}
    (hl : t.isList = false) (hd : t.isDeclaration = false) (ho : opensParameter ts = false)
    (h : Reading rules (.phrase .expression) ts t rest)
    (ih : Category.Reprints rules (.phrase .expression) ts t rest) :
    Category.Reprints rules (.element .item) ts t rest := by
  intro place rest' _ hm
  obtain ⟨hread, hkind⟩ := ih rest' hm
  have hfirst : place.ofFirst t = .plain := by simp [Place.ofFirst, hl, hd]
  rw [hfirst]
  have hnot : opensParameter (print .plain t ++ rest') = false := by
    obtain ⟨hcolon, hdefinition⟩ := Bool.or_eq_false_iff.1 ho
    refine Bool.or_eq_false_iff.2 ⟨hkind ▸ hcolon, Bool.eq_false_iff.2 fun hnew => ?_⟩
    obtain ⟨⟨n, hn, hident⟩, hmarks⟩ := (hread.opensDefinition_eq hp).1 hnew
    have hold := (h.opensDefinition_eq hp).2 ⟨⟨n, hn, hkind ▸ hident⟩, hm.marksNames hmarks⟩
    rw [hold] at hdefinition
    contradiction
  exact ⟨⟨.expressionItem hnot hread, hkind⟩, .of_not_parameter ho hnot⟩

/-- A list is read again. -/
theorem reprints_items {ts rest : List Word} {vs : List (Tree Word)}
    (hl : ∀ v ∈ vs, v.isList = false) (ih : Category.Reprints rules (.separated .item) ts vs rest) :
    Category.Reprints rules (.element .items) ts (.list vs) rest := by
  intro place rest' hplace hm
  obtain ⟨⟨hread, hkind⟩, halike⟩ := ih place rest' hplace hm
  rw [print_list place hl]
  exact ⟨⟨.items hread, hkind⟩, halike⟩

/-- An empty group is read again. -/
theorem reprints_emptyEnclosure {opening closing : TokenKind} {a b : Word} {ts : List Word}
    (ha : kind a = opening) (hb : kind b = closing) :
    Category.Reprints rules (.enclosed opening closing) (a :: b :: ts) (.enclosure a none b)
      ts := by
  intro hdel place rest' _
  have hnot : ∀ us : List Word, opensParameter (b :: us) = false := by
    intro us
    rcases hdel with ⟨-, rfl⟩ | ⟨-, rfl⟩ <;>
      simp [opensParameter, opensDefinition_cons, hb]
  have hwords : print place (.enclosure a none b) ++ rest' = a :: b :: rest' := by
    simp [print, printSlot]
  rw [hwords]
  exact ⟨.of_eq hwords (.emptyEnclosure ha hb) rfl, .of_not_parameter (hnot _) (hnot _)⟩

/-- A group between delimiters is read again. -/
theorem reprints_enclosure {opening closing : TokenKind} {a b : Word} {ts rest : List Word}
    {vs : List (Tree Word)} (ha : kind a = opening) (hn : kindAt ts 0 ≠ closing) (hne : vs ≠ [])
    (hl : ∀ v ∈ vs, v.isList = true) (hb : kind b = closing)
    (ih : Category.Reprints rules (.separated .items) ts vs (b :: rest)) :
    Category.Reprints rules (.enclosed opening closing) (a :: ts)
      (.enclosure a (some (.joined vs)) b) rest := by
  intro hdel place rest' hplace
  have hsemi : kind b ≠ .semicolon := by rcases hdel with ⟨-, rfl⟩ | ⟨-, rfl⟩ <;> simp [hb]
  have hmay : MayReplace rules (b :: rest) (b :: rest') := by
    rcases hdel with ⟨-, rfl⟩ | ⟨-, rfl⟩ <;> exact .of_kind hb hb
  obtain ⟨⟨hread, hkind⟩, halike⟩ := ih place (b :: rest') hplace hmay hsemi
  have hwords : print place (.enclosure a (some (.joined vs)) b) ++ rest' =
      a :: (printTerms place TokenKind.semicolon.word vs ++ b :: rest') := by
    simp [print, printSlot, print_joined_lists place hne hl]
  rw [hwords]
  exact ⟨.of_eq hwords (.enclosure ha (hkind ▸ hn) hread hb) rfl, halike⟩

/-- Statements in front of others are read again. -/
theorem reprints_statements {ts mid rest : List Word} {s : Tree Word} {ss : List (Tree Word)}
    (hb : kindAt ts 0 ≠ .rightBrace) (he : kindAt ts 0 ≠ .eof)
    (ih : Category.Reprints rules (.phrase .statement) ts s mid)
    (ih' : Category.Reprints rules .statements mid ss rest) :
    Category.Reprints rules .statements ts (s :: ss) rest := by
  intro rest' hend
  obtain ⟨hread, hkind⟩ := ih (printStatements ss ++ rest')
  have hwords : printStatements (s :: ss) ++ rest' =
      print .plain s ++ printTerminator s ++ (printStatements ss ++ rest') := by
    simp [printStatements]
  rw [hwords]
  exact .statements (hkind ▸ hb) (hkind ▸ he) hread (ih' rest' hend)

/-- A block is read again. -/
theorem reprints_block {a b : Word} {ts rest : List Word} {ss : List (Tree Word)}
    (ha : kind a = .leftBrace) (hb : kind b = .rightBrace)
    (ih : Category.Reprints rules .statements ts ss (b :: rest)) :
    Category.Reprints rules .block (a :: ts) (.enclosure a (Tree.sequence? ss) b) rest := by
  intro rest'
  refine .of_eq ?_ (.block ha (ih (b :: rest') (.inl hb)) hb) rfl
  simp [print, printSlot_sequence?]

end

end ConcreteSyntax
