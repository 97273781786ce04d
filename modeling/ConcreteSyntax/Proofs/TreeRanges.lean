import ConcreteSyntax.Proofs.FormedTrees
import ConcreteSyntax.Proofs.KeptTokens
import ConcreteSyntax.Proofs.LexemeReadings
import ConcreteSyntax.Proofs.SpanCovers
import ConcreteSyntax.Proofs.TokenLayout

/-!
# Where the nodes of a tree are

The span of a node is computed without regard to the order of its tokens. In the tree of an accepted
text the tokens are in order, none of them is invalid, and every node has some, so the span of a
node runs from the start of its first token to the end of its last one. Spans of children lie within
that of their parent and follow one another, and the whole file begins and ends with tokens that the
tree keeps.
-/

namespace ConcreteSyntax

open TokenParser Grammar

/-! ## Places of the tokens of a text -/

namespace TextCursor

/-- A valid token ends at the position of the cursor behind its lexeme. -/
theorem stop_of_next {c : TextCursor} {t : Token} (h : t.lexeme = c.next.1)
    (hk : t.kind ≠ .invalid) : t.stop = c.next.2.position := by
  have hstart : t.start = c.skipGap.position := congrArg Lexeme.start h
  have hascii := ascii_of_next fun hno => hk ((congrArg Lexeme.kind h).trans hno)
  rw [Token.stop, symbol_size_of_next h, ← Position.foldl_after_of_ascii hascii, hstart,
    toList_text_next]
  rfl

/-- The cursor behind more lexemes is not at an earlier position. -/
theorem position_afterLexemes_mono (c : TextCursor) {m n : Nat} (h : m ≤ n) :
    (c.afterLexemes m).position ≤ (c.afterLexemes n).position := by
  obtain ⟨k, rfl⟩ := Nat.exists_eq_add_of_le h
  obtain ⟨count, hcount⟩ := (c.afterLexemes m).exists_afterLexemes_eq_move k
  rw [afterLexemes_add, hcount]
  exact Position.le_foldl_after _ _

end TextCursor

/-- That a token comes before another one and ends no later than where that one starts. -/
def Token.Precedes (a b : Token) : Prop := a.offset < b.offset ∧ a.stop ≤ b.start

/-- A token starts no later than it ends. -/
theorem Token.start_le_stop (t : Token) : t.start ≤ t.stop := t.start.le_advance _

section Buffer

variable {symbols : SymbolTable} {text : String}

/-- A token of a text starts behind the gap that follows the tokens before it. -/
theorem start_of_tokenize {i : Nat} {t : Token} (h : (tokenize symbols text).1[i]? = some t) :
    ((TextCursor.ofText text).afterLexemes i).position ≤ t.start := by
  have hstart : t.start = ((TextCursor.ofText text).afterLexemes i).skipGap.position :=
    congrArg Lexeme.start (lexeme_of_tokenize h)
  rw [hstart]
  exact Position.le_foldl_after _ _

/-- Every token of a text has a place. -/
theorem isValid_of_mem_tokenize {t : Token} (h : t ∈ (tokenize symbols text).1) :
    t.span.IsValid := by
  obtain ⟨i, hi⟩ := List.mem_iff_getElem?.1 h
  have hmono := (TextCursor.ofText text).position_afterLexemes_mono (Nat.zero_le i)
  have hline : 1 ≤ t.start.line := Position.line_mono (hmono.trans (start_of_tokenize hi))
  exact Nat.one_le_iff_ne_zero.1 hline

/-- A valid token of a text ends no later than where a later token starts. -/
theorem pairwise_stop_tokenize (symbols : SymbolTable) (text : String) :
    (tokenize symbols text).1.Pairwise fun a b => a.kind ≠ .invalid → a.stop ≤ b.start := by
  refine List.pairwise_iff_getElem.2 fun i j hi hj hij hk => ?_
  have hlexeme := lexeme_of_tokenize (List.getElem?_eq_getElem hi)
  rw [TextCursor.stop_of_next hlexeme hk, ← TextCursor.afterLexemes_succ]
  have hmono := (TextCursor.ofText text).position_afterLexemes_mono (Nat.succ_le_of_lt hij)
  exact hmono.trans (start_of_tokenize (List.getElem?_eq_getElem hj))

end Buffer

/-! ## The first and the last token of a tree -/

/-- Of tokens in order, one that comes first also starts first and ends first. -/
theorem start_le_and_stop_le {ts : List Token} (h : ts.Pairwise Token.Precedes) {a b : Token}
    (ha : a ∈ ts) (hb : b ∈ ts) (hab : a.offset ≤ b.offset) :
    a.start ≤ b.start ∧ a.stop ≤ b.stop := by
  obtain ⟨i, hi, rfl⟩ := List.getElem_of_mem ha
  obtain ⟨j, hj, rfl⟩ := List.getElem_of_mem hb
  rcases Nat.lt_trichotomy i j with hij | rfl | hij
  · have hprecedes := List.pairwise_iff_getElem.1 h i j hi hj hij
    exact ⟨(Token.start_le_stop _).trans hprecedes.2, hprecedes.2.trans (Token.start_le_stop _)⟩
  · exact ⟨le_refl _, le_refl _⟩
  · have hprecedes := List.pairwise_iff_getElem.1 h j i hj hi hij
    exact absurd hprecedes.1 (Nat.not_lt.2 hab)

/-- No token comes before the one in front. -/
theorem offset_le_of_cons {ts others : List Token} {first : Token}
    (h : ts.Pairwise fun a b => a.offset < b.offset) (hts : ts = first :: others) :
    ∀ b ∈ ts, first.offset ≤ b.offset := by
  rw [hts] at h ⊢
  exact List.forall_mem_cons.2 ⟨Nat.le_refl _, fun b hb =>
    Nat.le_of_lt ((List.pairwise_cons.1 h).1 b hb)⟩

/-- No token comes after the one at the end. -/
theorem le_offset_of_concat {ts front : List Token} {last : Token}
    (h : ts.Pairwise fun a b => a.offset < b.offset) (hts : ts = front ++ [last]) :
    ∀ b ∈ ts, b.offset ≤ last.offset := by
  rw [hts] at h ⊢
  refine List.forall_mem_append.2 ⟨fun b hb => ?_, List.forall_mem_singleton.2 (Nat.le_refl _)⟩
  exact Nat.le_of_lt ((List.pairwise_append.1 h).2.2 b hb last List.mem_cons_self)

namespace Tree

/-- That two tokens of a tree are the first and the last one in the text. -/
structure HasEnds (t : Tree Token) (first last : Token) : Prop where
  /-- The first token belongs to the tree. -/
  first_mem : first ∈ t.tokens
  /-- The last token belongs to the tree. -/
  last_mem : last ∈ t.tokens
  /-- No token comes before the first one. -/
  first_le : ∀ b ∈ t.tokens, first.offset ≤ b.offset
  /-- No token comes after the last one. -/
  le_last : ∀ b ∈ t.tokens, b.offset ≤ last.offset

variable {t : Tree Token}

/-- A tree with tokens in order has a first and a last one. -/
theorem exists_hasEnds (h : t.tokens.Pairwise Token.Precedes) (hne : t.tokens ≠ []) :
    ∃ first last, t.HasEnds first last := by
  have hoffsets := h.imp And.left
  obtain ⟨first, others, hfront⟩ := List.exists_cons_of_ne_nil hne
  obtain ⟨front, last, hback⟩ := (List.eq_nil_or_concat t.tokens).resolve_left hne
  rw [List.concat_eq_append] at hback
  exact ⟨first, last, by simp [hfront], by simp [hback], offset_le_of_cons hoffsets hfront,
    le_offset_of_concat hoffsets hback⟩

/-- The span of a tree with tokens in order runs from its first token to its last one. -/
theorem HasEnds.span_eq {first last : Token} (he : t.HasEnds first last)
    (h : t.tokens.Pairwise Token.Precedes) (hvalid : ∀ b ∈ t.tokens, b.span.IsValid) :
    t.span = ⟨first.start, last.stop⟩ := by
  have hcover := t.isCover_span
  have hplace : t.span.IsValid :=
    hcover.isValid_iff.2 ⟨_, List.mem_map_of_mem he.first_mem, hvalid _ he.first_mem⟩
  have hleast : IsLeast (Span.sides Span.start (t.tokens.map Token.span)) first.start := by
    refine ⟨⟨_, List.mem_map_of_mem he.first_mem, hvalid _ he.first_mem, rfl⟩, ?_⟩
    rintro p ⟨a, ha, -, rfl⟩
    obtain ⟨b, hb, rfl⟩ := List.mem_map.1 ha
    exact (start_le_and_stop_le h he.first_mem hb (he.first_le b hb)).1
  have hgreatest : IsGreatest (Span.sides Span.stop (t.tokens.map Token.span)) last.stop := by
    refine ⟨⟨_, List.mem_map_of_mem he.last_mem, hvalid _ he.last_mem, rfl⟩, ?_⟩
    rintro p ⟨a, ha, -, rfl⟩
    obtain ⟨b, hb, rfl⟩ := List.mem_map.1 ha
    exact (start_le_and_stop_le h hb he.last_mem (he.le_last b hb)).2
  have hstart := (hcover.isLeast hplace).unique hleast
  have hstop := (hcover.isGreatest hplace).unique hgreatest
  rw [← hstart, ← hstop]

/-- The tokens of the present children of a node are tokens of the node, in order. -/
theorem flatMap_present_sublist (t : Tree Token) :
    (t.present.flatMap tokens).Sublist t.tokens := by
  have hslots : t.children.flatMap slotTokens =
      (t.children.take t.operandsBefore).flatMap slotTokens ++
        (t.children.drop t.operandsBefore).flatMap slotTokens := by
    rw [← List.flatMap_append, List.take_append_drop]
  rw [flatMap_tokens_present, hslots, tokens_eq]
  refine (List.Sublist.append ?_ (List.Sublist.refl _)).trans (List.sublist_append_left _ _)
  exact List.sublist_append_left _ _

end Tree

/-! ## The ends of files -/

section Files

variable {τ : Type} [HasKind τ] {rules : Rules} {ts rest : List τ}

/-- The last token of a definition is its terminator or the closing brace of its block, and the tree
keeps it. -/
theorem Reading.exists_last_of_defined {i : Option τ} {d t : Tree τ}
    (h : Reading rules (.defined i d) ts t rest) :
    ∃ used last, ts = used ++ last :: rest ∧ last ∈ t.tokens ∧
      (kind last = .semicolon ∨ kind last = .rightBrace) := by
  cases h with
  | @typedOnly _ _ type s _ _ ht hs =>
    obtain ⟨used, rfl, -⟩ : KeepsTo ts _ (s :: rest) := ht.ordered
    exact ⟨used, s, rfl, by simp, .inl hs⟩
  | @definedBlock _ _ b type _ mid _ ht hb =>
    obtain ⟨used, rfl, -⟩ : KeepsTo ts _ mid := ht.ordered
    cases hb with
    | @block a b _ _ ss _ hs hb =>
      obtain ⟨used', rfl, -⟩ : KeepsTo _ _ (b :: rest) := hs.ordered
      exact ⟨used ++ a :: used', b, by simp, by simp, .inr hb⟩
  | @definedValue _ _ v type e s _ mid _ ht _ hv hs =>
    obtain ⟨used, rfl, -⟩ : KeepsTo ts _ (e :: mid) := ht.ordered
    obtain ⟨used', rfl, -⟩ : KeepsTo mid _ (s :: rest) := hv.ordered
    exact ⟨used ++ e :: used', s, by simp, by simp, .inl hs⟩

/-- The last token of a definition is a semicolon or a brace, and it is kept. -/
theorem Reading.exists_last_of_definition {t : Tree τ} (h : Reading rules .definition ts t rest) :
    ∃ used last, ts = used ++ last :: rest ∧ last ∈ t.tokens ∧
      (kind last = .semicolon ∨ kind last = .rightBrace) := by
  cases h with
  | @introduced i _ mid _ ds _ _ hd h =>
    obtain ⟨used, rfl, -⟩ : KeepsTo _ _ mid := hd.ordered
    obtain ⟨used', last, rfl, hlast, hk⟩ := h.exists_last_of_defined
    exact ⟨i :: (used ++ used'), last, by simp, hlast, hk⟩
  | @unintroduced _ mid _ ds _ _ hd h =>
    obtain ⟨used, rfl, -⟩ : KeepsTo ts _ mid := hd.ordered
    obtain ⟨used', last, rfl, hlast, hk⟩ := h.exists_last_of_defined
    exact ⟨used ++ used', last, by simp, hlast, hk⟩

/-- The last token of declarations is kept. -/
theorem Reading.exists_last_of_declarations {ds : List (Tree τ)}
    (h : Reading rules .declarations ts ds rest) (hne : ds ≠ []) :
    ∃ used last, ts = used ++ last :: rest ∧ last ∈ ds.flatMap Tree.tokens := by
  induction ds generalizing ts with
  | nil => contradiction
  | cons d ds ih =>
    cases h with
    | @declarations _ mid _ _ _ _ hd hs =>
      obtain ⟨used, last, rfl, hlast, -⟩ := hd.exists_last_of_definition
      cases ds with
      | nil =>
        cases hs with
        | noDeclarations => exact ⟨used, last, rfl, by simpa using hlast⟩
      | cons d' ds =>
        obtain ⟨used', last', rfl, hlast'⟩ := ih hs (List.cons_ne_nil d' ds)
        exact ⟨used ++ last :: used', last', by simp, List.mem_append_right _ hlast'⟩

/-- The first token of declarations is an introducer or a name, which is no separator. -/
theorem Reading.exists_first_of_declarations {ds : List (Tree τ)}
    (h : Reading rules .declarations ts ds rest) (hne : ds ≠ []) :
    ∃ first others, ts = first :: others ∧ droppedKinds.contains (kind first) = false := by
  cases h with
  | noDeclarations => contradiction
  | declarations ho =>
    cases ts with
    | nil => contradiction
    | cons first others =>
      refine ⟨first, others, rfl, ?_⟩
      rcases Bool.or_eq_true_iff.1 ho with hdef | hname
      · have hk : kind first = .defKw := beq_iff_eq.1 hdef
        rw [hk]
        decide
      · cases others with
        | nil => contradiction
        | cons mark others =>
          have hk : kind first = .ident := beq_iff_eq.1 (Bool.and_eq_true_iff.1 hname).1
          rw [hk]
          decide

end Files

/-! ## Accepted texts -/

section Texts

variable {symbols : SymbolTable} {dialect : Dialect} {text : String} {t node child : Tree Token}
  {path : List Nat}

/-- The tokens of the tree of a text are valid. -/
theorem kind_ne_invalid_of_mem_tokens (h : (parseText symbols dialect text).1 = .ok t) {b : Token}
    (hb : b ∈ t.tokens) : b.kind ≠ .invalid := by
  obtain ⟨path, node, hpath, hown⟩ := Tree.mem_tokens_iff_descend.1 hb
  exact Tree.kind_ne_invalid_of_isDelimited (everywhere_isDelimited h path node hpath) hown

/-- The tokens of the tree of a text are in order, one behind the other. -/
theorem pairwise_precedes_tokens (h : (parseText symbols dialect text).1 = .ok t) :
    t.tokens.Pairwise Token.Precedes := by
  have hsub : t.tokens.Sublist (tokenize symbols text).1 :=
    (keeps_of_parseText h).sublist.trans (List.dropLast_sublist _)
  have hstop := (pairwise_stop_tokenize symbols text).sublist hsub
  have hboth := (pairwise_offset_tokens h).and hstop
  refine hboth.imp_of_mem fun ha _ hab => ⟨hab.1, hab.2 (kind_ne_invalid_of_mem_tokens h ha)⟩

/-- The tokens of the tree of a text have places. -/
theorem isValid_of_mem_tokens (h : (parseText symbols dialect text).1 = .ok t) :
    ∀ b ∈ t.tokens, b.span.IsValid := fun _ hb =>
  isValid_of_mem_tokenize (mem_tokenize_of_mem_tokens h hb)

/-- Inside of the empty file there is nothing else. -/
theorem eq_of_descend_file_none (h : (Tree.file none).descend path = some node) :
    node = .file none := by
  cases path with
  | nil => exact (Option.some.inj h).symm
  | cons place path =>
    obtain ⟨operand, hoperand, -⟩ := Option.bind_eq_some_iff.1 h
    cases place <;> simp [Tree.operand?, Tree.children] at hoperand

/-- Every node in the tree of a text, other than the empty file, is formed. -/
theorem everywhere_isFormed_of_descend (h : (parseText symbols dialect text).1 = .ok t)
    (hpath : t.descend path = some node) (hne : node ≠ .file none) :
    node.Everywhere fun n => n.isFormed dialect.rules = true := by
  have hfile : t ≠ .file none := by
    rintro rfl
    exact hne (eq_of_descend_file_none hpath)
  exact (everywhere_isFormed h hfile).inside hpath

/-- The span of a node in the tree of a text, other than the empty file, runs from its first token
to its last one. -/
theorem exists_ends_of_descend (h : (parseText symbols dialect text).1 = .ok t)
    (hpath : t.descend path = some node) (hne : node ≠ .file none) :
    ∃ first last, node.HasEnds first last ∧ node.span = ⟨first.start, last.stop⟩ := by
  have hpiece := Tree.tokens_infix_of_descend hpath
  have hpair := (pairwise_precedes_tokens h).sublist hpiece.sublist
  obtain ⟨b, hb⟩ := (everywhere_isFormed_of_descend h hpath hne).exists_mem_tokens
  obtain ⟨first, last, hends⟩ := Tree.exists_hasEnds hpair (List.ne_nil_of_mem hb)
  refine ⟨first, last, hends, hends.span_eq hpair fun b hb => ?_⟩
  exact isValid_of_mem_tokens h b (hpiece.subset hb)

/-- A present child of a node in the tree of a text has a span that runs from its first token to its
last one. -/
theorem exists_ends_of_present (h : (parseText symbols dialect text).1 = .ok t)
    (hpath : t.descend path = some node) (hc : child ∈ node.present) :
    ∃ first last, child.HasEnds first last ∧ child.span = ⟨first.start, last.stop⟩ := by
  have hmem : some child ∈ node.children := List.reduceOption_mem_iff.1 hc
  obtain ⟨place, hplace⟩ := Tree.exists_operand?_of_mem hmem
  have hnode : node ≠ .file none := by
    rintro rfl
    simp [Tree.children] at hmem
  have hchild : child ≠ .file none := by
    rintro rfl
    have hformed := ((everywhere_isFormed_of_descend h hpath hnode).child hmem).root
    contradiction
  have hfurther : t.descend (path ++ [place]) = some child := by
    rw [Tree.descend_append, hpath, Option.bind_some, Tree.descend_singleton hplace]
  exact exists_ends_of_descend h hfurther hchild

/-- The span of a child lies within the span of its parent. -/
theorem span_of_present (h : (parseText symbols dialect text).1 = .ok t)
    (hpath : t.descend path = some node) (hc : child ∈ node.present) :
    node.span.start ≤ child.span.start ∧ child.span.stop ≤ node.span.stop := by
  obtain ⟨first, last, hends, hspan⟩ := exists_ends_of_present h hpath hc
  have hmem : ∀ b ∈ child.tokens, b ∈ node.tokens := fun b hb =>
    node.flatMap_present_sublist.subset (List.mem_flatMap.2 ⟨child, hc, hb⟩)
  have hvalid : ∀ b ∈ node.tokens, b.span.IsValid := fun b hb =>
    isValid_of_mem_tokens h b ((Tree.tokens_infix_of_descend hpath).subset hb)
  have hfirst := hmem first hends.first_mem
  have hlast := hmem last hends.last_mem
  rw [hspan]
  have hstart : node.span.start ≤ first.span.start :=
    node.isCover_span.start_le (List.mem_map_of_mem hfirst) (hvalid first hfirst)
  have hstop : last.span.stop ≤ node.span.stop :=
    node.isCover_span.le_stop (List.mem_map_of_mem hlast) (hvalid last hlast)
  exact ⟨hstart, hstop⟩

/-- The spans of the present children of a node follow one another. -/
theorem pairwise_span_present (h : (parseText symbols dialect text).1 = .ok t)
    (hpath : t.descend path = some node) :
    node.present.Pairwise fun c d => c.span.stop ≤ d.span.start := by
  have hpair := (pairwise_precedes_tokens h).sublist
    (node.flatMap_present_sublist.trans (Tree.tokens_infix_of_descend hpath).sublist)
  obtain ⟨-, hbetween⟩ := List.pairwise_flatMap.1 hpair
  refine hbetween.imp_of_mem fun {c d} hc hd hcd => ?_
  obtain ⟨_, last, hends, hspan⟩ := exists_ends_of_present h hpath hc
  obtain ⟨first, _, hends', hspan'⟩ := exists_ends_of_present h hpath hd
  rw [hspan, hspan']
  exact (hcd last hends.last_mem first hends'.first_mem).2

/-- The tree of a text with declarations has the first token of the text and the last one before the
end. -/
theorem exists_ends_of_declarations (h : (parseText symbols dialect text).1 = .ok t)
    (hne : t.declarations ≠ []) :
    ∃ first last, t.HasEnds first last ∧ (tokenize symbols text).1.head? = some first ∧
      ((tokenize symbols text).1.filter fun b => !b.isEof).getLast? = some last := by
  obtain ⟨ts, finish, hbuffer, hfinish, -, hpair⟩ := tokenize_spec symbols text
  have hkeeps := keeps_of_parseText h
  have hnot : ∀ b ∈ (tokenize symbols text).1.dropLast, kind b ≠ .eof :=
    kind_ne_eof_of_mem_tokenize
  obtain ⟨ds, rfl, hr⟩ := exists_reading_of_parseText h
  rw [Tree.declarations_file] at hne
  rw [hbuffer, List.dropLast_concat] at hkeeps hr hnot
  have hoffsets := hpair.sublist (List.sublist_append_left ts [finish])
  have hmem : ∀ b ∈ (Tree.file (Tree.sequence? ds)).tokens, b ∈ ts := fun b hb =>
    hkeeps.sublist.subset hb
  obtain ⟨first, others, hfirst, hkept⟩ := hr.exists_first_of_declarations hne
  obtain ⟨used, last, hlast, hlastmem⟩ := hr.exists_last_of_declarations hne
  have hfirstmem : first ∈ (Tree.file (Tree.sequence? ds)).tokens := by
    refine (hkeeps.mem_or first (by simp [hfirst])).resolve_right fun hdropped => ?_
    exact Bool.false_ne_true (hkept.symm.trans hdropped)
  refine ⟨first, last, ⟨hfirstmem, by simpa using hlastmem, fun b hb => ?_, fun b hb => ?_⟩, ?_, ?_⟩
  · exact offset_le_of_cons hoffsets hfirst b (hmem b hb)
  · exact le_offset_of_concat hoffsets hlast b (hmem b hb)
  · rw [hbuffer, hfirst]
    rfl
  · have hfilter : ts.filter (fun b => !b.isEof) = ts := List.filter_eq_self.2 fun b hb => by
      have hk : b.kind ≠ .eof := hnot b hb
      simpa [Token.isEof] using hk
    have hend : finish.isEof = true := beq_iff_eq.2 hfinish
    rw [hbuffer, List.filter_append, hfilter, hlast]
    simp [hend]

end Texts

/-- Ranges of accepted trees are exact and nested. Every node, but the file of a text without
declarations, has a valid span from the start of its first token to the end of its last one; the
span of a child lies within that of its parent; of two present children the earlier one ends before
the later one starts; and a file with declarations runs from the first token of the text to the last
one before the end. -/
theorem parseText_ranges (symbols : SymbolTable) (dialect : Dialect) (text : String)
    (t : Tree Token) (h : (parseText symbols dialect text).1 = .ok t) :
    (∀ path node, t.descend path = some node → node ≠ .file none →
      node.span.IsValid ∧ ∃ first last, node.HasEnds first last ∧
        node.span = ⟨first.start, last.stop⟩) ∧
    (∀ path node, t.descend path = some node → ∀ child ∈ node.present,
      node.span.start ≤ child.span.start ∧ child.span.stop ≤ node.span.stop) ∧
    (∀ path node, t.descend path = some node →
      node.present.Pairwise fun c d => c.span.stop ≤ d.span.start) ∧
    (t.declarations ≠ [] → ∃ first last, (tokenize symbols text).1.head? = some first ∧
      ((tokenize symbols text).1.filter fun b => !b.isEof).getLast? = some last ∧
      t.span = ⟨first.start, last.stop⟩) := by
  refine ⟨fun path node hpath hne => ?_, fun path node hpath child hc => span_of_present h hpath hc,
    fun path node hpath => pairwise_span_present h hpath, fun hne => ?_⟩
  · obtain ⟨first, last, hends, hspan⟩ := exists_ends_of_descend h hpath hne
    have hmem := (Tree.tokens_infix_of_descend hpath).subset hends.first_mem
    have hvalid : first.span.IsValid := isValid_of_mem_tokens h first hmem
    exact ⟨by rw [hspan]; exact hvalid, first, last, hends, hspan⟩
  · obtain ⟨first, last, hends, hfirst, hlast⟩ := exists_ends_of_declarations h hne
    exact ⟨first, last, hfirst, hlast,
      hends.span_eq (pairwise_precedes_tokens h) (isValid_of_mem_tokens h)⟩

/-- The tree of two definitions, with a comment of other characters than ASCII between them, runs
from the first name to the last semicolon. -/
theorem parseText_ranges_comment :
    ∃ t, (parseText (.empty 0) .standard "a: int = 1; # größer
b: (n: int) -> a;").1 = .ok t ∧
      t.span = ⟨⟨1, 1⟩, ⟨2, 18⟩⟩ ∧
      ∀ path node, t.descend path = some node →
        node.present.Pairwise fun c d => c.span.stop ≤ d.span.start := by
  obtain ⟨t, ht⟩ := exists_tree_of_isOk (.empty 0) .standard
    "a: int = 1; # größer\nb: (n: int) -> a;" (by decide +kernel)
  obtain ⟨-, -, hchildren, hroot⟩ := parseText_ranges _ _ _ t ht
  have hdeclarations : t.declarations ≠ [] := by
    have hread : (parseText (.empty 0) .standard
        "a: int = 1; # größer\nb: (n: int) -> a;").1.toOption.any
        (fun t => !t.declarations.isEmpty) = true := by decide +kernel
    rw [ht] at hread
    simpa [Except.toOption] using hread
  obtain ⟨first, last, hfirst, hlast, hspan⟩ := hroot hdeclarations
  have hstart : (tokenize (.empty 0) "a: int = 1; # größer\nb: (n: int) -> a;").1.head?.map
      Token.start = some ⟨1, 1⟩ := by decide +kernel
  have hstop : ((tokenize (.empty 0) "a: int = 1; # größer\nb: (n: int) -> a;").1.filter
      fun b => !b.isEof).getLast?.map Token.stop = some ⟨2, 18⟩ := by decide +kernel
  rw [hfirst] at hstart
  rw [hlast] at hstop
  refine ⟨t, ht, ?_, hchildren⟩
  rw [hspan, Option.some.inj hstart, Option.some.inj hstop]

end ConcreteSyntax
