import ConcreteSyntax.Proofs.BracketNesting
import ConcreteSyntax.Proofs.ReadNodes

/-!
# Loops and repetitions behind blocks

The same word leads a loop and the condition behind a block that is repeated. Which of the two it is
gets decided before the condition is read, by counting brackets up to the closer of the condition
and looking at the token behind it. The trees of the standard dialect show that the decision is
right: a loop has a block, the condition behind a block has none, and in the text a brace follows
the one and not the other.
-/

namespace ConcreteSyntax

open TokenParser Grammar

namespace Tree

variable {τ : Type}

/-- That a token leads a control construct with a condition, which ends with the given closer, and a
body. -/
def LeadsLoop (t : Tree τ) (w b : τ) : Prop :=
  ∃ path a term body, t.descend path = some (.control w (some (.enclosure a term b)) (some body))

/-- That a token leads the second operand of a repetition, which has a condition that ends with the
given closer and no body. -/
def LeadsTail [HasKind τ] (t : Tree τ) (w b : τ) : Prop :=
  ∃ path k block a term, HasKind.kind k = .doKw ∧
    t.descend path =
      some (.control k (some block) (some (.control w (some (.enclosure a term b)) none)))

end Tree

/-- That a token stands at one place of a buffer only, in front of a token of some kind. -/
def StandsBefore {τ : Type} [HasKind τ] (buffer : List τ) (b : τ) (next : TokenKind) : Prop :=
  ∃ i, (∀ j, buffer[j]? = some b ↔ j = i) ∧ kindAt buffer (i + 1) = next

/-- That a token leads a loop of its own: it has a condition and a body, and the token behind the
closing parenthesis of the condition is a brace. -/
def IsLoop (buffer : List Token) (t : Tree Token) (w : Token) : Prop :=
  ∃ b, b.kind = .rightParen ∧ t.LeadsLoop w b ∧ StandsBefore buffer b .leftBrace

/-- That a token leads the condition behind a block: it has a condition only, in the second operand
of a repetition, and the token behind the closing parenthesis of the condition is no brace. -/
def IsTail (buffer : List Token) (t : Tree Token) (w : Token) : Prop :=
  ∃ b next, b.kind = .rightParen ∧ t.LeadsTail w b ∧ StandsBefore buffer b next ∧
    next ≠ .leftBrace

/-- The word of a loop stands at control constructs only. -/
theorem Tree.eq_control_of_while {τ : Type} [HasKind τ] (d : Dialect) {t : Tree τ}
    (hf : t.isFormed d.rules = true) (hl : t.isLayered d.rules = true) {w : τ}
    (hw : w ∈ t.ownTokens) (hk : HasKind.kind w = .whileKw) :
    ∃ head body, t = .control w head body := by
  have hwords : ∀ k, d.rules.literals.contains k = true ∨
      d.rules.prefixOperators.contains k = true ∨ (infixLevel? d.rules k).isSome = true ∨
      constructorMarks.contains k = true ∨
      k ∈ [TokenKind.ident, .caret, .isKw, .defKw, .semicolon] → k ≠ .whileKw :=
    TokenKind.forall_of_all (by cases d <;> decide)
  have hown : w ∈ t.token?.toList ++ t.trailingToken?.toList := hw
  cases t with
  | control k head body =>
    obtain rfl : w = k := by simpa [token?, trailingToken?] using hown
    exact ⟨head, body, rfl⟩
  | enclosure a term b =>
    have hdelimited : (HasKind.kind a).partner? = some (HasKind.kind b) :=
      beq_iff_eq.1 (isDelimited_of_isFormed d hf hl)
    have hor : w = a ∨ w = b := by simpa [token?, trailingToken?] using hown
    rcases hor with rfl | rfl
    · rw [hk] at hdelimited
      contradiction
    · obtain ⟨-, hcloser, -⟩ := TokenKind.isDelimiters_of_partner? hdelimited
      rw [hk] at hcloser
      contradiction
  | infixOp l a r =>
    obtain rfl : w = a := by simpa [token?, trailingToken?] using hown
    have hlevel : (infixLevel? d.rules (HasKind.kind w)).isSome = true := by
      cases hi : infixLevel? d.rules (HasKind.kind w) with
      | none => simp [isLayered, hi] at hl
      | some => rfl
    exact absurd hk (hwords _ (.inr (.inr (.inl hlevel))))
  | literal a =>
    obtain rfl : w = a := by simpa [token?, trailingToken?] using hown
    exact absurd hk (hwords _ (.inl hf))
  | prefixOp a =>
    obtain rfl : w = a := by simpa [token?, trailingToken?] using hown
    exact absurd hk (hwords _ (.inr (.inl hf)))
  | identifier a | postfixOp _ a | constraint a =>
    obtain rfl : w = a := by simpa [token?, trailingToken?] using hown
    refine absurd hk (hwords _ (.inr (.inr (.inr (.inr ?_)))))
    rw [beq_iff_eq.1 hf]
    decide
  | array m | function m | template m =>
    obtain rfl : m = some w := by simpa [token?, trailingToken?] using hown
    exact absurd hk (hwords _ (.inr (.inr (.inr (.inl hf)))))
  | declaration i _ _ _ s =>
    simp only [isFormed, Bool.and_eq_true, Option.all_eq_true, beq_iff_eq] at hf
    obtain ⟨⟨hi, hs⟩, -⟩ := hf
    refine absurd hk (hwords _ (.inr (.inr (.inr (.inr ?_)))))
    rcases List.mem_append.1 hown with hintroducer | hterminator
    · rw [hi w (Option.mem_toList.1 hintroducer)]
      decide
    · rw [hs w (Option.mem_toList.1 hterminator)]
      decide
  | file | call | index | capture | list | sequence => contradiction

variable {symbols : SymbolTable} {text : String} {t : Tree Token} {w : Token}

/-- The word of a loop is the token of a control construct in the tree. -/
theorem exists_control_of_while (h : (parseText symbols .standard text).1 = .ok t)
    (hw : w ∈ (tokenize symbols text).1) (hk : w.kind = .whileKw) :
    ∃ path head body, t.descend path = some (.control w head body) := by
  obtain ⟨ts, finish, hbuffer, hfinish, -⟩ := tokenize_spec symbols text
  have hkeeps := keeps_of_parseText h
  rw [hbuffer, List.dropLast_concat] at hkeeps
  have hts : w ∈ ts := by
    rw [hbuffer] at hw
    refine (List.mem_append.1 hw).resolve_right fun hlast => ?_
    rw [List.mem_singleton.1 hlast, hfinish] at hk
    contradiction
  have hwt : w ∈ t.tokens := by
    refine (hkeeps.mem_or w hts).resolve_right fun hdropped => ?_
    rw [show kind w = .whileKw from hk] at hdropped
    contradiction
  obtain ⟨path, node, hpath, hown⟩ := Tree.mem_tokens_iff_descend.1 hwt
  have hcontrol : t.Everywhere fun node => ∀ v ∈ node.ownTokens, kind v = .whileKw →
      ∃ head body, node = .control v head body :=
    everywhere_of_parseText (fun _ _ hv => absurd hv List.not_mem_nil)
      (fun _ hf hl _ => Tree.eq_control_of_while .standard hf hl) h
  obtain ⟨head, body, rfl⟩ := hcontrol path node hpath w hown hk
  exact ⟨path, head, body, hpath⟩

/-- A control construct that the word of a loop leads was read where the word is, and what counting
brackets tells there is its sort. -/
theorem exists_sort_of_while (h : (parseText symbols .standard text).1 = .ok t) {path : List Nat}
    {head body : Option (Tree Token)} (hpath : t.descend path = some (.control w head body))
    (hk : w.kind = .whileKw) :
    ∃ mid, w :: mid <:+ (tokenize symbols text).1.dropLast ∧
      (startsLoop (w :: mid) = true ∧ IsLoop (tokenize symbols text).1 t w ∨
        startsLoop (w :: mid) = false ∧ IsTail (tokenize symbols text).1 t w) := by
  have hp := Dialect.standard.proper_rules
  have hdo : ∀ {k : Token}, kind k = .doKw → k = w → False := by
    rintro k hdo rfl
    exact absurd (hdo.symm.trans hk) (by decide)
  rcases (readFrom_of_parseText h).descend hpath with hread | htail
  · cases hread with
    | node hnode =>
      cases hnode with
      | simple hs => simp [Tree.isSimple, show kind w = .whileKw from hk] at hs
      | block _ h => cases h
      | parameter _ h => cases h
      | defined _ h => cases h
      | @loop _ us mid rest c b hs _ hc hb =>
        obtain ⟨a, term, closer, rfl, -, hcloser, -, hclosed⟩ := hc.exists_closer
        obtain ⟨i, hplace, hkinds, -⟩ :=
          exists_place_of_suffix (hclosed.trans ((List.suffix_cons w us).trans hs))
        have hbrace : kindAt mid 0 = .leftBrace := hb.kindAt_of_block
        refine ⟨us, hs, .inl ⟨?_, closer, hcloser, ⟨path, a, term, b, hpath⟩, i, hplace, ?_⟩⟩
        · rw [hc.startsLoop_eq hp, hbrace]
          rfl
        · rw [← hbrace, ← hkinds 0]
      | doBlock _ hk' => exact (hdo hk' rfl).elim
    | doWhile _ hk' => exact (hdo hk' rfl).elim
  · cases htail with
    | @intro front k _ b c mid rest hfront hk' _ hs hl hc =>
      obtain ⟨a, term, closer, rfl, -, hcloser, -, hclosed⟩ := hc.exists_closer
      obtain ⟨i, hplace, hkinds, -⟩ :=
        exists_place_of_suffix (hclosed.trans ((List.suffix_cons w mid).trans hs))
      have hbrace : kindAt rest 0 ≠ .leftBrace := by
        rw [hc.startsLoop_eq hp] at hl
        exact beq_eq_false_iff_ne.1 hl
      exact ⟨mid, hs, .inr ⟨hl, closer, kindAt rest 0, hcloser, ⟨front, k, b, a, term, hk', hfront⟩,
        ⟨i, hplace, hkinds 0⟩, hbrace⟩⟩

/-- No word is of both sorts. -/
theorem not_isTail_of_isLoop (h : (parseText symbols .standard text).1 = .ok t)
    (hloop : IsLoop (tokenize symbols text).1 t w) : ¬ IsTail (tokenize symbols text).1 t w := by
  rintro ⟨b, _, -, ⟨front, _, _, a, term, -, hfront⟩, -⟩
  obtain ⟨_, -, ⟨path, _, _, _, hpath⟩, -⟩ := hloop
  have htail : t.descend (front ++ [1]) = some (.control w (some (.enclosure a term b)) none) := by
    rw [Tree.descend_append, hfront]
    rfl
  have hown : ∀ head body, w ∈ (Tree.control w head body).ownTokens := fun head body => by
    simp [Tree.ownTokens, Tree.token?]
  -- A token of the tree belongs to one node of it, and this node has a body or has none.
  obtain rfl := Tree.path_unique (nodup_tokens h) hpath (hown ..) htail (hown ..)
  rw [hpath] at htail
  simp at htail

/-- A block that is not repeated has a closing brace, and counting brackets behind that finds a loop
if it finds its word. -/
theorem exists_closer_of_doBlock (h : (parseText symbols .standard text).1 = .ok t)
    {path : List Nat} {k : Token} {head : Option (Tree Token)}
    (hpath : t.descend path = some (.control k head none)) (hk : k.kind = .doKw) :
    ∃ a term b rest, head = some (.enclosure a term b) ∧ b.kind = .rightBrace ∧
      b :: rest <:+ (tokenize symbols text).1.dropLast ∧
      (kindAt rest 0 = .whileKw → startsLoop rest = true) := by
  rcases (readFrom_of_parseText h).descend hpath with hread | htail
  · cases hread with
    | node hnode =>
      cases hnode with
      | simple hs => simp [Tree.isSimple, show kind k = .doKw from hk] at hs
      | block _ h => cases h
      | parameter _ h => cases h
      | defined _ h => cases h
      | @doBlock _ us rest _ hs _ hb hn =>
        obtain ⟨a, term, b, rfl, -, hclosing, hclosed⟩ := hb.exists_closer_of_block
        exact ⟨a, term, b, rest, rfl, hclosing, hclosed.trans ((List.suffix_cons k us).trans hs),
          hn⟩
  · cases htail with
    | intro _ _ hw => exact absurd (hk.symm.trans hw) (by decide)

/-- The word of a loop that counting brackets takes for one leads a loop. -/
theorem isLoop_of_startsLoop (h : (parseText symbols .standard text).1 = .ok t)
    {us : List Token} (hus : w :: us <:+ (tokenize symbols text).1.dropLast)
    (hk : w.kind = .whileKw) (hl : startsLoop (w :: us) = true) :
    IsLoop (tokenize symbols text).1 t w := by
  have hmem : w ∈ (tokenize symbols text).1 :=
    List.dropLast_subset _ (hus.subset List.mem_cons_self)
  obtain ⟨path, head, body, hpath⟩ := exists_control_of_while h hmem hk
  obtain ⟨mid, hmid, hsort⟩ := exists_sort_of_while h hpath hk
  have hnodup := (nodup_tokenize symbols text).sublist (List.dropLast_sublist _)
  obtain rfl := rest_unique hnodup hmid hus
  exact (hsort.resolve_right fun htail => by simp [hl] at htail).2

/-- Loops and conditions behind blocks are told apart. Each word of a loop in a text that the
standard dialect accepts leads either a loop of its own, with a brace behind the condition, or the
condition behind the block of a repetition, with no brace there. A block without a condition behind
it is followed by such a word only if that one leads a loop of its own. -/
theorem repetitions_told_apart (h : (parseText symbols .standard text).1 = .ok t) :
    (∀ w ∈ (tokenize symbols text).1, w.kind = .whileKw →
      (IsLoop (tokenize symbols text).1 t w ∨ IsTail (tokenize symbols text).1 t w) ∧
        ¬ (IsLoop (tokenize symbols text).1 t w ∧ IsTail (tokenize symbols text).1 t w)) ∧
    ∀ path k head, t.descend path = some (.control k head none) → k.kind = .doKw →
      ∃ a term b i, head = some (.enclosure a term b) ∧ b.kind = .rightBrace ∧
        (∀ j, (tokenize symbols text).1[j]? = some b ↔ j = i) ∧
        ∀ w, (tokenize symbols text).1[i + 1]? = some w → w.kind = .whileKw →
          IsLoop (tokenize symbols text).1 t w := by
  refine ⟨fun w hw hk => ⟨?_, fun hboth => not_isTail_of_isLoop h hboth.1 hboth.2⟩,
    fun path k head hpath hk => ?_⟩
  · obtain ⟨path, head, body, hpath⟩ := exists_control_of_while h hw hk
    obtain ⟨_, _, hsort⟩ := exists_sort_of_while h hpath hk
    exact Or.imp And.right And.right hsort
  · obtain ⟨a, term, b, rest, rfl, hclosing, hbehind, hn⟩ := exists_closer_of_doBlock h hpath hk
    obtain ⟨i, hplace, hkinds, hnext⟩ := exists_place_of_suffix hbehind
    refine ⟨a, term, b, i, rfl, hclosing, hplace, fun w hw hword => ?_⟩
    have hrest : kindAt rest 0 = .whileKw := by
      rw [← hkinds 0, Nat.add_zero, kindAt, hw]
      exact hword
    obtain ⟨w', us, rfl, -⟩ := exists_of_kindAt hrest (by decide)
    obtain rfl : w = w' := Option.some.inj (hw.symm.trans (hnext w' rfl))
    exact isLoop_of_startsLoop h ((List.suffix_cons b _).trans hbehind) hword (hn hrest)

/-- A repetition with its condition behind the block, and a block in front of a loop. -/
theorem repetitions_told_apart_blocks :
    let text := "f: int { do { } while (a) do { } while (b) { } }"
    let buffer := (tokenize (.empty 0) text).1
    ∃ t, (parseText (.empty 0) .standard text).1 = .ok t ∧
      (∀ w ∈ buffer, w.kind = .whileKw →
        (IsLoop buffer t w ∨ IsTail buffer t w) ∧ ¬ (IsLoop buffer t w ∧ IsTail buffer t w)) ∧
      ∀ path k head, t.descend path = some (.control k head none) → k.kind = .doKw →
        ∃ a term b i, head = some (.enclosure a term b) ∧ b.kind = .rightBrace ∧
          (∀ j, buffer[j]? = some b ↔ j = i) ∧
          ∀ w, buffer[i + 1]? = some w → w.kind = .whileKw → IsLoop buffer t w := by
  intro text buffer
  obtain ⟨t, ht⟩ := exists_tree_of_isOk (.empty 0) .standard text (by decide +kernel)
  exact ⟨t, ht, repetitions_told_apart ht⟩

end ConcreteSyntax
