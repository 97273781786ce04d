import ConcreteSyntax.Proofs.FormedTrees
import ConcreteSyntax.Proofs.KeptTokens

/-!
# How brackets are nested

Looking ahead counts brackets of all types alike. That the brackets of an accepted text are nested
by type comes from the tree: only enclosures have brackets, each has an opening and a closing one
of the same type, and the tokens of the operand stand between them. Separators, which the tree
drops, are no brackets. So the text is nested as its tree is, and the partner of an opening bracket
closes the same enclosure.
-/

namespace ConcreteSyntax

open TokenParser Grammar

/-! ## Nested brackets -/

section Words

variable {τ : Type} [HasKind τ]

/-- That the brackets among tokens are nested, with pairs of one type. -/
inductive WellNested : List τ → Prop
  /-- Nothing is nested. -/
  | nil : WellNested []
  /-- A token that is no bracket does not matter. -/
  | other {t : τ} {ts : List τ} (ht : (kind t).isBracket = false) (h : WellNested ts) :
    WellNested (t :: ts)
  /-- A pair of brackets stands around nested tokens and in front of nested tokens. -/
  | pair {a b : τ} {inside after : List τ} (hab : (kind a).partner? = some (kind b))
    (hi : WellNested inside) (ha : WellNested after) :
    WellNested (a :: (inside ++ b :: after))

/-- The partner of a kind closes brackets, and the kind opens them. -/
theorem TokenKind.isDelimiters_of_partner? {j k : TokenKind} (h : j.partner? = some k) :
    IsDelimiters j k := by
  cases j <;> simp only [partner?, reduceCtorEq, Option.some.injEq] at h <;>
    (subst h; unfold IsDelimiters; decide)

namespace WellNested

variable {ts us : List τ}

/-- Nested tokens may be joined. -/
theorem append (h : WellNested ts) (h' : WellNested us) : WellNested (ts ++ us) := by
  induction h with
  | nil => exact h'
  | other ht _ ih => exact .other ht ih
  | @pair a b inside after hab hi _ _ ih =>
    rw [List.cons_append, List.append_assoc, List.cons_append]
    exact .pair hab hi ih

/-- Tokens without brackets are nested. -/
theorem of_forall (h : ∀ t ∈ ts, (kind t).isBracket = false) : WellNested ts := by
  induction ts with
  | nil => exact .nil
  | cons t ts ih =>
    obtain ⟨ht, hts⟩ := List.forall_mem_cons.1 h
    exact .other ht (ih hts)

/-- Nested parts make nested tokens. -/
theorem flatMap {α : Type} {f : α → List τ} {xs : List α} (h : ∀ x ∈ xs, WellNested (f x)) :
    WellNested (xs.flatMap f) := by
  induction xs with
  | nil => exact .nil
  | cons x xs ih =>
    obtain ⟨hx, hxs⟩ := List.forall_mem_cons.1 h
    rw [List.flatMap_cons]
    exact hx.append (ih hxs)

/-- Counting brackets passes over nested tokens without a change of depth. -/
theorem balancedTo (h : WellNested ts) (rest : List τ) : BalancedTo (ts ++ rest) rest := by
  induction h generalizing rest with
  | nil => exact .refl rest
  | other ht _ ih => exact .cons ht (ih rest)
  | @pair a b inside after hab _ _ ih ih' =>
    obtain ⟨ha, hb, hb'⟩ := TokenKind.isDelimiters_of_partner? hab
    have hinside : BalancedTo (inside ++ b :: (after ++ rest)) (b :: (after ++ rest)) := ih _
    have hall := (BalancedTo.brackets ha hb hb' hinside).trans (ih' rest)
    simpa using hall

/-- The closer that counting finds inside of a bracket is the one behind nested tokens. -/
theorem closerFrom_eq (h : WellNested ts) {b : τ} (hb : closers.contains (kind b) = true)
    (hb' : openers.contains (kind b) = false) (rest : List τ) :
    closerFrom 0 0 (ts ++ b :: rest) = some ts.length := by
  obtain ⟨used, hused, hbalanced⟩ := h.balancedTo (b :: rest)
  obtain rfl : ts = used := List.append_cancel_right hused
  rw [hbalanced, closerFrom, if_neg (by simp [hb']), if_pos hb, Nat.zero_add]

/-- Tokens of which nested tokens are kept are nested, if only others than brackets are dropped. -/
theorem of_keeps {droppable : τ → Prop} (h : WellNested ts)
    (hd : ∀ t, droppable t → (kind t).isBracket = false) (hk : Keeps droppable ts us) :
    WellNested us := by
  induction h generalizing us with
  | nil => exact of_forall fun t ht => hd t ((hk.mem_or t ht).resolve_left List.not_mem_nil)
  | other ht _ ih =>
    obtain ⟨skipped, rest, rfl, hskipped, hrest⟩ := hk.exists_of_cons
    exact (of_forall fun t h => hd t (hskipped t h)).append (.other ht (ih hrest))
  | @pair a b inside after hab _ _ ih ih' =>
    obtain ⟨skipped, rest, rfl, hskipped, hrest⟩ := hk.exists_of_cons
    obtain ⟨front, rest, rfl, hfront, hrest⟩ := hrest.exists_of_append
    obtain ⟨skipped', rest, rfl, hskipped', hrest⟩ := hrest.exists_of_cons
    have hinside := (ih hfront).append (of_forall fun t h => hd t (hskipped' t h))
    rw [← List.append_assoc front]
    exact (of_forall fun t h => hd t (hskipped t h)).append (.pair hab hinside (ih' hrest))

end WellNested

/-- That a closing bracket is the partner of an opening one among tokens: they are of one type, and
the brackets between them are nested. -/
def Partners (ts : List τ) (a b : τ) : Prop :=
  ∃ before inside after, ts = before ++ a :: (inside ++ b :: after) ∧
    (kind a).partner? = some (kind b) ∧ WellNested inside

namespace Partners

variable {ts : List τ} {a b b' : τ}

/-- Partners stay partners when other tokens follow. -/
theorem append_right (h : Partners ts a b) (us : List τ) : Partners (ts ++ us) a b := by
  obtain ⟨before, inside, after, rfl, hab, hi⟩ := h
  exact ⟨before, inside, after ++ us, by simp, hab, hi⟩

/-- Among tokens of which none occurs twice, a bracket has at most one partner, for counting finds
only one. -/
theorem unique (hn : ts.Nodup) (h : Partners ts a b) (h' : Partners ts a b') : b = b' := by
  obtain ⟨before, inside, after, rfl, hab, hi⟩ := h
  obtain ⟨before', inside', after', heq, hab', hi'⟩ := h'
  have hnot := (List.nodup_cons.1 (List.nodup_middle.1 hn)).1
  rw [List.mem_append, not_or] at hnot
  obtain ⟨-, -, hrest⟩ := (List.append_cons_inj_of_notMem hnot.1 hnot.2).1 heq
  obtain ⟨-, hb, hopen⟩ := TokenKind.isDelimiters_of_partner? hab
  obtain ⟨-, hb', hopen'⟩ := TokenKind.isDelimiters_of_partner? hab'
  have hclose := hi.closerFrom_eq hb hopen after
  have hclose' := hi'.closerFrom_eq hb' hopen' after'
  rw [hrest, hclose'] at hclose
  obtain ⟨-, htail⟩ := List.append_inj hrest (Option.some.inj hclose).symm
  exact (List.cons_eq_cons.1 htail).1

end Partners

/-! ## Nested trees -/

/-- The tokens of a delimited tree are nested. -/
theorem Tree.Everywhere.wellNested {t : Tree τ}
    (h : t.Everywhere fun node => node.isDelimited = true) : WellNested t.tokens := by
  induction t using Tree.children_induction with
  | step t ih =>
    have hslots : ∀ slot ∈ t.children, WellNested (Tree.slotTokens slot) := by
      rintro (_ | child) hchild
      · exact .nil
      · exact ih child hchild (h.child hchild)
    rcases Tree.isDelimited_cases h.root with ⟨a, term, b, rfl, hab⟩ | hplain
    · have hterm := hslots term (by simp [Tree.children])
      rw [Tree.tokens_enclosure]
      exact .pair hab hterm .nil
    · have hown : ∀ b ∈ t.ownTokens, (HasKind.kind b).isBracket = false := fun b hb => by
        have hb := hplain b hb
        simp only [TokenKind.isPlain, Bool.and_eq_true, Bool.not_eq_true'] at hb
        exact hb.1.1
      rw [Tree.ownTokens, List.forall_mem_append] at hown
      rw [Tree.tokens_eq]
      have hfront := WellNested.flatMap fun slot hslot => hslots slot
        (List.mem_of_mem_take (i := t.operandsBefore) hslot)
      have hback := WellNested.flatMap fun slot hslot => hslots slot
        (List.mem_of_mem_drop (i := t.operandsBefore) hslot)
      exact ((hfront.append (.of_forall hown.1)).append hback).append (.of_forall hown.2)

end Words

/-! ## Nested texts -/

/-- Separators are no brackets. -/
theorem isBracket_of_dropped {k : TokenKind} (h : droppedKinds.contains k = true) :
    k.isBracket = false :=
  TokenKind.forall_of_all (p := fun k => droppedKinds.contains k = true → k.isBracket = false)
    (by decide) k h

/-- Whether a token lies strictly between two others. -/
def Token.isBetween (a b x : Token) : Bool := decide (a.offset < x.offset ∧ x.offset < b.offset)

/-- What stands between two tokens at increasing offsets is what lies strictly between them. -/
theorem filter_isBetween {before inside after : List Token} {a b : Token}
    (h : (before ++ a :: (inside ++ b :: after)).Pairwise fun x y => x.offset < y.offset) :
    (before ++ a :: (inside ++ b :: after)).filter (a.isBetween b) = inside := by
  obtain ⟨-, hbehind, hfront⟩ := List.pairwise_append.1 h
  obtain ⟨ha, hbehind⟩ := List.pairwise_cons.1 hbehind
  obtain ⟨-, hback, hmiddle⟩ := List.pairwise_append.1 hbehind
  have hbefore : before.filter (a.isBetween b) = [] := List.filter_eq_nil_iff.2 fun x hx => by
    have hlt := hfront x hx a List.mem_cons_self
    simp only [Token.isBetween, decide_eq_true_eq]
    omega
  have hinside : inside.filter (a.isBetween b) = inside := List.filter_eq_self.2 fun x hx =>
    decide_eq_true ⟨ha x (List.mem_append_left _ hx), hmiddle x hx b List.mem_cons_self⟩
  have hafter : after.filter (a.isBetween b) = [] := List.filter_eq_nil_iff.2 fun x hx => by
    have hlt := (List.pairwise_cons.1 hback).1 x hx
    simp only [Token.isBetween, decide_eq_true_eq]
    omega
  have hends : a.isBetween b a = false ∧ a.isBetween b b = false := by simp [Token.isBetween]
  simp [List.filter_append, hbefore, hinside, hafter, hends]

section Texts

variable {symbols : SymbolTable} {dialect : Dialect} {text : String} {t : Tree Token}

/-- No token of a text occurs twice. -/
theorem nodup_tokenize (symbols : SymbolTable) (text : String) :
    (tokenize symbols text).1.Nodup := by
  obtain ⟨ts, finish, hbuffer, -, -, hpair⟩ := tokenize_spec symbols text
  rw [hbuffer]
  exact hpair.imp fun hlt heq => Nat.ne_of_lt hlt (congrArg Token.offset heq)

/-- No token of the tree of a text occurs twice. -/
theorem nodup_tokens (h : (parseText symbols dialect text).1 = .ok t) : t.tokens.Nodup :=
  (pairwise_offset_tokens h).imp fun hlt heq => Nat.ne_of_lt hlt (congrArg Token.offset heq)

/-- The brackets of an accepted text are nested. -/
theorem wellNested_tokenize (h : (parseText symbols dialect text).1 = .ok t) :
    WellNested (tokenize symbols text).1 := by
  obtain ⟨ts, finish, hbuffer, hfinish, -⟩ := tokenize_spec symbols text
  have hkeeps := keeps_of_parseText h
  rw [hbuffer, List.dropLast_concat] at hkeeps
  have hts := (everywhere_isDelimited h).wellNested.of_keeps
    (fun b hb => isBracket_of_dropped hb) hkeeps
  have hlast : (kind finish).isBracket = false := by
    rw [show kind finish = .eof from hfinish]
    rfl
  rw [hbuffer]
  exact hts.append (.other hlast .nil)

/-- A bracket of an accepted text is a delimiter of an enclosure. -/
theorem exists_enclosure_of_isBracket (h : (parseText symbols dialect text).1 = .ok t) {b : Token}
    (hb : b ∈ (tokenize symbols text).1) (hk : b.kind.isBracket = true) :
    ∃ path a term c, t.descend path = some (.enclosure a term c) ∧
      a.kind.partner? = some c.kind ∧ (b = a ∨ b = c) := by
  obtain ⟨ts, finish, hbuffer, hfinish, -⟩ := tokenize_spec symbols text
  have hkeeps := keeps_of_parseText h
  rw [hbuffer, List.dropLast_concat] at hkeeps
  have hbts : b ∈ ts := by
    rw [hbuffer] at hb
    refine (List.mem_append.1 hb).resolve_right fun hlast => ?_
    rw [List.mem_singleton.1 hlast, hfinish] at hk
    contradiction
  have hbt : b ∈ t.tokens := by
    refine (hkeeps.mem_or b hbts).resolve_right fun hdropped => ?_
    exact Bool.false_ne_true ((isBracket_of_dropped hdropped).symm.trans hk)
  obtain ⟨path, node, hpath, hown⟩ := Tree.mem_tokens_iff_descend.1 hbt
  rcases Tree.isDelimited_cases (everywhere_isDelimited h path node hpath) with
    ⟨a, term, c, rfl, hac⟩ | hplain
  · have hor : b = a ∨ b = c := by
      simpa [Tree.ownTokens, Tree.token?, Tree.trailingToken?] using hown
    exact ⟨path, a, term, c, hpath, hac, hor⟩
  · have hb := hplain b hown
    have hk : (HasKind.kind b).isBracket = true := hk
    simp [TokenKind.isPlain, hk] at hb

/-- The delimiters of an enclosure in the tree of a text are partners, and the tokens of its
operand are those of the tree that lie between them. -/
theorem partners_of_descend (h : (parseText symbols dialect text).1 = .ok t) {path : List Nat}
    {a b : Token} {term : Option (Tree Token)}
    (hpath : t.descend path = some (.enclosure a term b)) :
    Partners (tokenize symbols text).1 a b ∧
      Tree.slotTokens term = t.tokens.filter (a.isBetween b) := by
  obtain ⟨before, after, htokens⟩ := Tree.tokens_infix_of_descend hpath
  have htokens : t.tokens = before ++ a :: (Tree.slotTokens term ++ b :: after) := by
    rw [← htokens, Tree.tokens_enclosure]
    simp
  have hdelimited := (everywhere_isDelimited h).inside hpath
  have hab : (kind a).partner? = some (kind b) := beq_iff_eq.1 hdelimited.root
  have hterm : WellNested (Tree.slotTokens term) := by
    cases term with
    | none => exact .nil
    | some child => exact (hdelimited.child (by simp [Tree.children])).wellNested
  have hoffsets := pairwise_offset_tokens h
  have hkeeps := keeps_of_parseText h
  rw [htokens] at hoffsets hkeeps
  refine ⟨?_, by rw [htokens, filter_isBetween hoffsets]⟩
  obtain ⟨front, behind, hfront, -, hbehind⟩ := hkeeps.exists_of_append
  obtain ⟨skipped, rest, rfl, -, hrest⟩ := hbehind.exists_of_cons
  obtain ⟨inside, rest, rfl, hinside, hrest⟩ := hrest.exists_of_append
  obtain ⟨skipped', rest, rfl, hskipped', -⟩ := hrest.exists_of_cons
  have hnested : WellNested (inside ++ skipped') :=
    (hterm.of_keeps (fun _ hb => isBracket_of_dropped hb) hinside).append
      (.of_forall fun u hu => isBracket_of_dropped (hskipped' u hu))
  have hpartners : Partners (tokenize symbols text).1.dropLast a b :=
    ⟨front ++ skipped, inside ++ skipped', rest, by simp [hfront], hab, hnested⟩
  obtain ⟨ts, finish, hbuffer, -⟩ := tokenize_spec symbols text
  rw [hbuffer, List.dropLast_concat] at hpartners
  rw [hbuffer]
  exact hpartners.append_right [finish]

end Texts

/-- Accepted texts are bracketed. The brackets of the text are nested by type; each opening bracket
has one partner, and the two are the delimiters of an enclosure in the tree; each bracket belongs to
one enclosure; and the delimiters of each enclosure are partners, with the tokens of its operand the
kept ones between them. -/
theorem parseText_bracketed (symbols : SymbolTable) (dialect : Dialect) (text : String)
    (t : Tree Token) (h : (parseText symbols dialect text).1 = .ok t) :
    WellNested (tokenize symbols text).1 ∧
      (∀ a ∈ (tokenize symbols text).1, openers.contains a.kind = true →
        ∃! b, Partners (tokenize symbols text).1 a b) ∧
      (∀ a b, Partners (tokenize symbols text).1 a b →
        ∃ path term, t.descend path = some (.enclosure a term b)) ∧
      (∀ b ∈ (tokenize symbols text).1, b.kind.isBracket = true →
        ∃! path, ∃ node, t.descend path = some node ∧ node.kind = .enclosure ∧
          b ∈ node.ownTokens) ∧
      ∀ path a term b, t.descend path = some (.enclosure a term b) →
        Partners (tokenize symbols text).1 a b ∧
          Tree.slotTokens term = t.tokens.filter (a.isBetween b) := by
  have hopening : ∀ a ∈ (tokenize symbols text).1, openers.contains a.kind = true →
      ∃ path term b, t.descend path = some (.enclosure a term b) := by
    intro a ha hk
    obtain ⟨path, c, term, b, hpath, hcb, rfl | rfl⟩ :=
      exists_enclosure_of_isBracket h ha (by rw [TokenKind.isBracket, hk, Bool.true_or])
    · exact ⟨path, term, b, hpath⟩
    · obtain ⟨-, -, hne⟩ := TokenKind.isDelimiters_of_partner? hcb
      exact absurd (hk.symm.trans hne) (by decide)
  have hunique : ∀ {a b b' : Token}, Partners (tokenize symbols text).1 a b →
      Partners (tokenize symbols text).1 a b' → b = b' :=
    Partners.unique (nodup_tokenize symbols text)
  refine ⟨wellNested_tokenize h, fun a ha hk => ?_, fun a b hab => ?_, fun b hb hk => ?_,
    fun path a term b hpath => partners_of_descend h hpath⟩
  · obtain ⟨path, term, b, hpath⟩ := hopening a ha hk
    have hab := (partners_of_descend h hpath).1
    exact ⟨b, hab, fun b' hab' => hunique hab' hab⟩
  · have ha : a ∈ (tokenize symbols text).1 := by
      obtain ⟨before, inside, after, heq, -⟩ := hab
      simp [heq]
    have hk : openers.contains a.kind = true := by
      obtain ⟨-, -, -, -, hk, -⟩ := hab
      exact (TokenKind.isDelimiters_of_partner? hk).1
    obtain ⟨path, term, c, hpath⟩ := hopening a ha hk
    obtain rfl : c = b := hunique (partners_of_descend h hpath).1 hab
    exact ⟨path, term, hpath⟩
  · obtain ⟨path, a, term, c, hpath, -, hor⟩ := exists_enclosure_of_isBracket h hb hk
    have hown : b ∈ (Tree.enclosure a term c).ownTokens := by
      simpa [Tree.ownTokens, Tree.token?, Tree.trailingToken?] using hor
    refine ⟨path, ⟨_, hpath, rfl, hown⟩, ?_⟩
    rintro path' ⟨node, hpath', -, hown'⟩
    exact Tree.path_unique (nodup_tokens h) hpath' hown' hpath hown

/-- In a text with groups inside of a block the brackets are nested, and each is a delimiter in the
tree. -/
theorem parseText_bracketed_block :
    ∃ t, (parseText (.empty 0) .standard "f: (n: int) -> int { a[n] = (n, 1); }").1 = .ok t ∧
      WellNested (tokenize (.empty 0) "f: (n: int) -> int { a[n] = (n, 1); }").1 ∧
      ∀ b ∈ (tokenize (.empty 0) "f: (n: int) -> int { a[n] = (n, 1); }").1,
        b.kind.isBracket = true →
          ∃! path, ∃ node, t.descend path = some node ∧ node.kind = .enclosure ∧
            b ∈ node.ownTokens := by
  obtain ⟨t, ht⟩ := exists_tree_of_isOk (.empty 0) .standard
    "f: (n: int) -> int { a[n] = (n, 1); }" (by decide +kernel)
  obtain ⟨hnested, -, -, hbrackets, -⟩ := parseText_bracketed _ _ _ t ht
  exact ⟨t, ht, hnested, hbrackets⟩

end ConcreteSyntax
