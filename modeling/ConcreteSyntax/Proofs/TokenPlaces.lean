import ConcreteSyntax.Proofs.FileReadings
import Mathlib.Data.List.Nodup

/-!
# The places of tokens in a tree

The tokens of a tree are those of its nodes. When no token occurs twice, every token of
the tree stands at one node only, and there is one path to that node. The tree of an
accepted text has every token of the text but separators and the end, each at one node.
-/

namespace ConcreteSyntax

namespace Tree

variable {τ : Type} [HasKind τ]

/-- The tokens of a tree are, in another order, its own and those of its operands. -/
theorem tokens_perm (t : Tree τ) :
    t.tokens.Perm (t.ownTokens ++ t.children.flatMap slotTokens) := by
  have hsplit : t.children.flatMap slotTokens =
      (t.children.take t.operandsBefore).flatMap slotTokens ++
        (t.children.drop t.operandsBefore).flatMap slotTokens := by
    rw [← List.flatMap_append, List.take_append_drop]
  rw [tokens_eq, hsplit, ownTokens]
  generalize (t.children.take t.operandsBefore).flatMap slotTokens = before
  generalize (t.children.drop t.operandsBefore).flatMap slotTokens = behind
  rw [List.append_assoc, List.append_assoc, List.append_assoc]
  have hlead : (before ++ (t.token?.toList ++ (behind ++ t.trailingToken?.toList))).Perm
      (t.token?.toList ++ (before ++ (behind ++ t.trailingToken?.toList))) :=
    List.perm_append_comm_assoc ..
  refine hlead.trans (List.Perm.append_left _ ?_)
  rw [← List.append_assoc]
  exact List.perm_append_comm

/-- A token of a tree is one of its own or a token of an operand. -/
theorem mem_tokens {t : Tree τ} {b : τ} :
    b ∈ t.tokens ↔ b ∈ t.ownTokens ∨ ∃ place child, t.operand? place = some child ∧
      b ∈ child.tokens := by
  rw [t.tokens_perm.mem_iff, List.mem_append, List.mem_flatMap]
  refine or_congr_right ⟨?_, ?_⟩
  · rintro ⟨slot, hslot, hb⟩
    cases slot with
    | none => simp at hb
    | some child =>
      obtain ⟨place, hplace⟩ := List.mem_iff_getElem?.1 hslot
      exact ⟨place, child, by simp [operand?, hplace], hb⟩
  · rintro ⟨place, child, hchild, hb⟩
    refine ⟨some child, ?_, hb⟩
    rw [operand?, Option.join_eq_some_iff] at hchild
    exact List.mem_of_getElem? hchild

/-- Some node of a tree has a token exactly when the tree has it. -/
theorem mem_tokens_iff_descend {t : Tree τ} {b : τ} :
    b ∈ t.tokens ↔ ∃ path node, t.descend path = some node ∧ b ∈ node.ownTokens := by
  constructor
  · induction t using children_induction with
    | step t ih =>
      intro hb
      rcases mem_tokens.1 hb with hown | ⟨place, child, hchild, hb⟩
      · exact ⟨[], t, rfl, hown⟩
      · have hmem : some child ∈ t.children := by
          rw [operand?, Option.join_eq_some_iff] at hchild
          exact List.mem_of_getElem? hchild
        obtain ⟨path, node, hpath, hown⟩ := ih child hmem hb
        exact ⟨place :: path, node, by simp [descend, hchild, hpath], hown⟩
  · rintro ⟨path, node, hpath, hown⟩
    induction path generalizing t with
    | nil =>
      obtain rfl : t = node := Option.some.inj hpath
      exact mem_tokens.2 (.inl hown)
    | cons place path ih =>
      obtain ⟨child, hchild, hpath⟩ := Option.bind_eq_some_iff.1 hpath
      exact mem_tokens.2 (.inr ⟨place, child, hchild, ih hpath⟩)

/-- When no token occurs twice, a token at a node is not a token of an operand. -/
theorem not_mem_operand_of_mem_ownTokens {t : Tree τ} (hn : t.tokens.Nodup) {b : τ}
    (hb : b ∈ t.ownTokens) {place : Nat} {child : Tree τ} (hc : t.operand? place = some child) :
    b ∉ child.tokens := by
  intro hb'
  have hd := (List.nodup_append'.1 (t.tokens_perm.nodup_iff.1 hn)).2.2
  rw [operand?, Option.join_eq_some_iff] at hc
  exact hd hb (List.mem_flatMap.2 ⟨some child, List.mem_of_getElem? hc, hb'⟩)

/-- When no token occurs twice, no two operands have a token in common. -/
theorem place_unique {t : Tree τ} (hn : t.tokens.Nodup) {b : τ} {i j : Nat} {c d : Tree τ}
    (hc : t.operand? i = some c) (hd : t.operand? j = some d) (hbc : b ∈ c.tokens)
    (hbd : b ∈ d.tokens) : i = j := by
  have hflat := (List.nodup_append'.1 (t.tokens_perm.nodup_iff.1 hn)).2.1
  have hpair : t.children.Pairwise fun s s' => (slotTokens s).Disjoint (slotTokens s') :=
    (List.nodup_flatMap.1 hflat).2
  rw [operand?, Option.join_eq_some_iff] at hc hd
  obtain ⟨hi, hc⟩ := List.getElem?_eq_some_iff.1 hc
  obtain ⟨hj, hd⟩ := List.getElem?_eq_some_iff.1 hd
  rcases Nat.lt_trichotomy i j with h | h | h
  · have hdis := List.pairwise_iff_getElem.1 hpair i j hi hj h
    rw [hc, hd] at hdis
    exact (hdis hbc hbd).elim
  · exact h
  · have hdis := List.pairwise_iff_getElem.1 hpair j i hj hi h
    rw [hc, hd] at hdis
    exact (hdis hbd hbc).elim

/-- When no token occurs twice, the tokens of an operand do not either. -/
theorem nodup_operand {t : Tree τ} (hn : t.tokens.Nodup) {place : Nat} {child : Tree τ}
    (hc : t.operand? place = some child) : child.tokens.Nodup := by
  have hflat := (List.nodup_append'.1 (t.tokens_perm.nodup_iff.1 hn)).2.1
  rw [operand?, Option.join_eq_some_iff] at hc
  exact (List.nodup_flatMap.1 hflat).1 (some child) (List.mem_of_getElem? hc)

/-- When no token occurs twice, paths to nodes with the same token are the same. -/
theorem path_unique {t : Tree τ} (hn : t.tokens.Nodup) {b : τ} {path path' : List Nat}
    {node node' : Tree τ} (hp : t.descend path = some node) (hb : b ∈ node.ownTokens)
    (hp' : t.descend path' = some node') (hb' : b ∈ node'.ownTokens) : path = path' := by
  induction path generalizing t path' with
  | nil =>
    obtain rfl : t = node := Option.some.inj hp
    cases path' with
    | nil => rfl
    | cons place path' =>
      obtain ⟨child, hchild, hpath⟩ := Option.bind_eq_some_iff.1 hp'
      have hmem := mem_tokens_iff_descend.2 ⟨path', node', hpath, hb'⟩
      exact (not_mem_operand_of_mem_ownTokens hn hb hchild hmem).elim
  | cons place path ih =>
    obtain ⟨child, hchild, hpath⟩ := Option.bind_eq_some_iff.1 hp
    have hmem := mem_tokens_iff_descend.2 ⟨path, node, hpath, hb⟩
    cases path' with
    | nil =>
      obtain rfl : t = node' := Option.some.inj hp'
      exact (not_mem_operand_of_mem_ownTokens hn hb' hchild hmem).elim
    | cons place' path' =>
      obtain ⟨child', hchild', hpath'⟩ := Option.bind_eq_some_iff.1 hp'
      have hmem' := mem_tokens_iff_descend.2 ⟨path', node', hpath', hb'⟩
      obtain rfl := place_unique hn hchild hchild' hmem hmem'
      obtain rfl : child = child' := Option.some.inj (hchild.symm.trans hchild')
      rw [ih (nodup_operand hn hchild) hpath hpath']

end Tree

/-- The tokens of the tree of an accepted text, in grammatical order, are tokens of the
text at increasing offsets. Every other token of the text is the end or a comma, a
semicolon, a colon, an equals sign or the word between branches. Hence every token of
another kind stands at exactly one node of the tree. -/
theorem parseText_keeps_tokens (symbols : SymbolTable) (dialect : Dialect) (text : String)
    (t : Tree Token) (h : (parseText symbols dialect text).1 = .ok t) :
    t.tokens.Sublist (tokenize symbols text).1 ∧
      t.tokens.Pairwise (fun a b => a.offset < b.offset) ∧
      (∀ b ∈ (tokenize symbols text).1, b ∉ t.tokens →
        b.kind ∈ [TokenKind.eof, .comma, .semicolon, .colon, .eq, .elseKw]) ∧
      ∀ b ∈ (tokenize symbols text).1,
        b.kind ∉ [TokenKind.eof, .comma, .semicolon, .colon, .eq, .elseKw] →
        ∃! path, ∃ node, t.descend path = some node ∧ b ∈ node.ownTokens := by
  obtain ⟨ds, rfl, hr⟩ := exists_reading_of_parseText h
  obtain ⟨ts, finish, hbuffer, hfinish, -, hpair⟩ := tokenize_spec symbols text
  rw [hbuffer, List.dropLast_concat] at hr
  obtain ⟨used, hused, hkeeps⟩ : KeepsTo ts (ds.flatMap Tree.tokens) [] := hr.ordered
  rw [List.append_nil] at hused
  subst hused
  have htokens : (Tree.file (Tree.sequence? ds)).tokens = ds.flatMap Tree.tokens := by simp
  rw [hbuffer, htokens]
  have hsub : (ds.flatMap Tree.tokens).Sublist (ts ++ [finish]) :=
    hkeeps.sublist.trans (List.sublist_append_left ts [finish])
  have hoffsets := hpair.sublist hsub
  have hkinds : ∀ b ∈ ts ++ [finish], b ∉ ds.flatMap Tree.tokens →
      b.kind ∈ [TokenKind.eof, .comma, .semicolon, .colon, .eq, .elseKw] := by
    intro b hb hmissed
    rcases List.mem_append.1 hb with hb | hb
    · have hdropped := (hkeeps.mem_or b hb).resolve_left hmissed
      have hall : ∀ k ∈ TokenKind.all, droppedKinds.contains k = true →
          k ∈ [TokenKind.eof, .comma, .semicolon, .colon, .eq, .elseKw] := by decide
      exact hall b.kind b.kind.mem_all hdropped
    · rw [List.mem_singleton.1 hb, hfinish]
      decide
  refine ⟨hsub, hoffsets, hkinds, fun b hb hk => ?_⟩
  have hmem : b ∈ (Tree.file (Tree.sequence? ds)).tokens := by
    rw [htokens]
    exact Classical.byContradiction fun hmissed => hk (hkinds b hb hmissed)
  have hnodup : (Tree.file (Tree.sequence? ds)).tokens.Nodup := by
    rw [htokens]
    exact hoffsets.imp fun hlt heq => Nat.ne_of_lt hlt (congrArg Token.offset heq)
  obtain ⟨path, node, hpath, hown⟩ := Tree.mem_tokens_iff_descend.1 hmem
  refine ⟨path, ⟨node, hpath, hown⟩, ?_⟩
  rintro path' ⟨node', hpath', hown'⟩
  exact Tree.path_unique hnodup hpath' hown' hpath hown

/-- The tree of a definition keeps all tokens of its text but separators, at increasing
offsets. -/
theorem parseText_keeps_tokens_definition :
    ∃ t, (parseText (.empty 0) .standard "a, b: int = c;").1 = .ok t ∧
      t.tokens.Sublist (tokenize (.empty 0) "a, b: int = c;").1 ∧
      t.tokens.Pairwise fun a b => a.offset < b.offset := by
  obtain ⟨t, ht⟩ := exists_tree_of_isOk (.empty 0) .standard "a, b: int = c;" (by decide +kernel)
  obtain ⟨hsub, hoffsets, -⟩ := parseText_keeps_tokens _ _ _ t ht
  exact ⟨t, ht, hsub, hoffsets⟩

end ConcreteSyntax
