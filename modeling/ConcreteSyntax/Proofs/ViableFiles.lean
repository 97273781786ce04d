import ConcreteSyntax.Proofs.ViableConstructs

/-!
# Viable files

A definition that fails can be completed, by a type and a semicolon if nothing else, and so can
a statement. Hence the phrases of every depth of nesting are viable, and with them the files of
a dialect: the tokens in front of the place where a file fails are the front of a file that is
accepted.
-/

namespace ConcreteSyntax

open TokenParser Grammar

/-- What follows the names of a definition begins with a colon or with the word of a
constraint. -/
theorem Reading.kindAt_of_defined {rules : Rules} {i : Option TokenKind} {d t : Tree TokenKind}
    {ts rest : List TokenKind} (h : Reading rules (.defined i d) ts t rest) :
    kindAt ts 0 = .colon ∨ kindAt ts 0 = .isKw := by
  cases h with
  | typedOnly ht | definedBlock ht | definedValue ht => exact ht.kindAt_of_typing

namespace Grammar

variable {g : Grammar TokenKind} (hg : g.IsViable)

include hg

/-! ## Definitions -/

/-- What is defined can be completed behind its type wherever it fails. -/
theorem completable_definiens (i : Option TokenKind) (d : Tree TokenKind)
    {type : Option (Tree TokenKind)} {ts mid rest : List TokenKind} {e : Failure TokenKind}
    (ht : Reading g.rules .typing ts type mid) (h : g.definiens mid = .failed e rest) :
    Completable g.rules (.defined i d) ts rest := by
  have he := hg.extensible
  have htyping := ht.continues he id
  rcases bind_eq_failed h with h₁ | ⟨k, us, hk, h₁⟩
  · cases h₁
  obtain ⟨rfl, rfl⟩ := peek_eq_done.1 hk
  split at h₁
  · rename_i hk
    refine (viable_block hg (map_eq_failed h₁)).last (fun _ => trivial) (fun _ => trivial) fun _ _ hpart => ?_
    obtain ⟨ts', hts, htype⟩ := htyping.again ⟨.of_kind hk hpart.kindAt_of_block (by decide),
      fun heq => absurd (hk.symm.trans heq) (by decide)⟩
    exact ⟨ts', _, hts, .definedBlock htype hpart⟩
  rcases bind_eq_failed h₁ with h₂ | ⟨q, mid', hq, h₂⟩
  · obtain ⟨rfl, hne⟩ := expect_eq_failed h₂ nofun
    cases type with
    | none =>
      -- An omitted type has an equals sign behind it.
      cases ht with
      | omittedType _ hn => exact absurd hn hne
    | some type =>
      refine .of_rest [.semicolon] (by decide) (fun _ => trivial) fun after _ => ?_
      obtain ⟨ts', hts, htype⟩ :=
        htyping.again ⟨.inl (.of_token (k := .semicolon) rfl after rfl), fun heq => absurd heq hne⟩
      exact ⟨ts', _, hts, .typedOnly htype rfl⟩
  obtain ⟨rfl, hq'⟩ := expect_eq_done.1 hq
  have hread : ∀ {us v after}, Reading g.rules (.phrase .expression) us v (.semicolon :: after) →
      ∃ ts' v', SameFront ts mid' ts' us ∧ Reading g.rules (.defined i d) ts' v' after := by
    intro us v after hvalue
    obtain ⟨ts', hts, htype⟩ := htyping.again ⟨.of_token hq' mid' us (by decide), fun _ => hq'⟩
    exact ⟨ts', _, hts.trans (.token q _ _), .definedValue htype hq' hvalue rfl⟩
  rcases bind_eq_failed h₂ with h₃ | ⟨v, mid'', hv, h₃⟩
  · exact (hg.viable _ h₃).extend [.semicolon] (by decide) (fun _ => trivial) (fun _ => .of_token (k := .semicolon) rfl _ rfl)
      fun _ _ hpart => hread hpart
  · obtain ⟨rfl, -⟩ := expect_eq_failed (map_eq_failed h₃) nofun
    refine .of_rest [.semicolon] (by decide) (fun _ => trivial) fun after _ => ?_
    obtain ⟨us, hus, hvalue⟩ :=
      ((hg.reads _ hv).continues he id).again (.inl (.of_token (k := .semicolon) rfl after rfl))
    obtain ⟨ts', v', hts, hdefined⟩ := hread hvalue
    exact ⟨ts', v', hts.trans hus, hdefined⟩

omit hg in
/-- What follows the names of a definition fails in its type or in what is defined. -/
theorem defined_eq_failed {τ : Type} [HasKind τ] {g : Grammar τ} {i : Option τ} {d : Tree τ}
    {ts rest : List τ} {e : Failure τ} (h : (do
      let type ← g.typing
      match ← terminator? type.isSome with
      | some terminator => return .declaration i (some d) type none (some terminator)
      | none =>
        let (value, terminator) ← g.definiens
        return .declaration i (some d) type (some value) terminator : TokenParser τ (Tree τ)) ts =
      .failed e rest) :
    g.typing ts = .failed e rest ∨
      ∃ type mid, g.typing ts = .done type mid ∧ g.definiens mid = .failed e rest := by
  rcases bind_eq_failed h with h₁ | ⟨type, mid, ht, h₁⟩
  · exact .inl h₁
  rcases bind_eq_failed h₁ with h₂ | ⟨s, mid', hs, h₂⟩
  · cases type with
    | none => exact absurd h₂ pure_ne_failed
    | some _ => exact absurd h₂ eat_ne_failed
  cases s with
  | some s => exact absurd h₂ pure_ne_failed
  | none =>
    have hmid : mid' = mid := by
      cases type with
      | none => exact (pure_eq_done.1 hs).2.symm
      | some type => exact ((eat_eq_none (by decide)).1 hs).1
    subst hmid
    exact .inr ⟨type, mid', ht, map_eq_failed h₂⟩

/-- What follows the names of a definition can be completed wherever it fails. -/
theorem completable_defined (i : Option TokenKind) (d : Tree TokenKind) {ts rest : List TokenKind}
    {e : Failure TokenKind} (h : g.typing ts = .failed e rest ∨
      ∃ type mid, g.typing ts = .done type mid ∧ g.definiens mid = .failed e rest) :
    Completable g.rules (.defined i d) ts rest := by
  rcases h with h | ⟨type, mid, ht, h⟩
  · refine (viable_typing hg h).extend [.semicolon] (by decide) (fun _ => trivial) (fun _ => .of_token (k := .semicolon) rfl _ rfl)
      fun {_ _ v} _ _ hpart => ?_
    cases v with
    | none =>
      cases hpart with
      | omittedType _ hn => contradiction
    | some type => exact ⟨_, _, .refl _ _, .typedOnly hpart rfl⟩
  · exact completable_definiens hg i d (reads_typing hg.reads ht) h

theorem viable_definition : Viable g.rules .definition g.definition := by
  intro ts rest e h
  have he := hg.extensible
  have hsuffixed := consumes_suffixed hg.consumes
  have hreads : Reads g.rules (.element .value) g.suffixed :=
    reads_suffixed hg.consumes he.toProper hg.reads
  rcases bind_eq_failed h with h₁ | ⟨i, mid, hi, h₁⟩
  · exact absurd h₁ eat_ne_failed
  cases i with
  | none =>
    obtain ⟨rfl, hn⟩ := (eat_eq_none (by decide)).1 hi
    rcases bind_eq_failed h₁ with h₂ | ⟨names, mid', hnames, h₂⟩
    · refine (viable_identifiers he h₂).extend [.colon, .intNumber, .semicolon] (by decide) (fun _ => trivial)
        (fun _ => ⟨trivial, show TokenKind.colon ≠ .comma by decide⟩) fun {_ _ ns} _ _ hpart => ?_
      obtain ⟨t, ht⟩ := defined_number he none (.joined ns)
      refine ⟨_, t, .refl _ _, .unintroduced ?_ hpart ht⟩
      rw [hpart.kindAt_of_names]
      decide
    · obtain ⟨ns, rfl, hns⟩ := reading_of_identifiers hnames
      refine (completable_defined hg none (.joined ns) (defined_eq_failed h₂)).last (fun _ => trivial) (fun _ => trivial)
        fun {_ us _} _ _ hpart => ?_
      have hcomma : kindAt us 0 ≠ .comma := by
        rcases hpart.kindAt_of_defined with hk | hk <;> (rw [hk]; decide)
      obtain ⟨ts', hts, hread⟩ := (hns.continues he id).again ⟨trivial, fun _ => hcomma⟩
      exact ⟨ts', _, hts, .unintroduced (hns.kindAt_of_front hts rfl ▸ hn) hread hpart⟩
  | some i =>
    obtain ⟨rfl, hi'⟩ := eat_eq_some.1 hi
    rcases bind_eq_failed h₁ with h₂ | ⟨values, mid', hvalues, h₂⟩
    · have hfailed := viable_separatedBy he hsuffixed hreads (viable_suffixed hg) (map_eq_failed h₂)
      refine hfailed.extend [.colon, .intNumber, .semicolon] (by decide) (fun _ => trivial)
        (fun _ => ⟨?_, show TokenKind.colon ≠ .comma by decide⟩) fun {_ _ vs} _ _ hpart => ?_
      · exact show continuesValue g.rules .colon = false by simp [continuesValue]
      · obtain ⟨t, ht⟩ := defined_number he (some i) (.joined vs)
        exact ⟨_, t, .token i _ _, .introduced hi' hpart ht⟩
    · obtain ⟨vs, mid'', hvs, h₃⟩ := bind_eq_done.1 hvalues
      obtain ⟨rfl, rfl⟩ := pure_eq_done.1 h₃
      have hread := reads_separatedBy hreads hsuffixed.trims hvs
      refine (completable_defined hg (some i) (.joined vs) (defined_eq_failed h₂)).last (fun _ => trivial) (fun _ => trivial)
        fun {_ us _} _ _ hpart => ?_
      have hcomma : kindAt us 0 ≠ .comma := by
        rcases hpart.kindAt_of_defined with hk | hk <;> (rw [hk]; decide)
      have hend : continuesValue g.rules (kindAt us 0) = false := by
        rcases hpart.kindAt_of_defined with hk | hk <;> (rw [hk]; simp [continuesValue])
      obtain ⟨ts', hts, hread'⟩ := (hread.continues he id).again ⟨.inl hend, fun _ => hcomma⟩
      exact ⟨_, _, hts.cons i, .introduced hi' hread' hpart⟩

/-! ## Statements and all phrases -/

theorem viable_statement : Viable g.rules (.phrase .statement) g.statement := by
  intro ts rest e h
  have he := hg.extensible
  rcases bind_eq_failed h with h₁ | ⟨us, mid, hus, h₁⟩
  · cases h₁
  obtain ⟨rfl, rfl⟩ := ahead_eq_done.1 hus
  split at h₁
  · exact (viable_definition hg h₁).map (fun _ => trivial) (fun _ => trivial) fun _ h =>
      ⟨_, .definitionStatement h.opensDeclaration_of_definition h⟩
  split at h₁
  · rename_i ho
    have hc := (Bool.and_eq_true_iff.1 ho).1
    rcases bind_eq_failed h₁ with h₂ | ⟨t, mid', -, h₂⟩
    · refine (viable_control hg hc h₂).map (fun _ => trivial)
        (fun hafter => .of_stopper (k := .rightBrace) hafter rfl) fun {after _ _} hafter h => ?_
      have hafter : kindAt after 0 = .rightBrace := hafter
      have ho := Bool.and_eq_true_iff.2 ⟨hc, h.controlWord⟩
      exact ⟨_, .controlStatement (opensDeclaration_of_opensControl ho) ho h
        (by rw [hafter]; decide)⟩
    · exact absurd (map_eq_failed h₂) eat_ne_failed
  · rcases bind_eq_failed h₁ with h₂ | ⟨t, mid', ht, h₂⟩
    · exact (viable_expression hg h₂).extend [.semicolon] (by decide) (fun _ => trivial) (fun _ => .of_token rfl _ rfl)
        fun _ _ hpart => ⟨_, _, .refl _ _, hpart.statement_of_expression he rfl⟩
    · obtain ⟨rfl, -⟩ := expect_eq_failed (map_eq_failed h₂) nofun
      have hvalue := reads_expression hg.consumes he.toProper hg.reads ht
      refine .of_rest [.semicolon] (by decide) (fun _ => trivial) fun after _ => ?_
      obtain ⟨ts', hts, hread⟩ :=
        (hvalue.continues he id).again (.inl (.of_token (k := .semicolon) rfl after rfl))
      exact ⟨ts', _, hts, hread.statement_of_expression he rfl⟩

/-- A phrase is viable if the phrases nested in it are. -/
theorem viable_body (phrase : Phrase) : Viable g.rules (.phrase phrase) (g.body phrase) := by
  cases phrase with
  | operand => exact viable_operand hg
  | implication => exact viable_implication hg
  | assignment => exact viable_assignment hg
  | expression => exact viable_expression hg
  | statement => exact viable_statement hg
  | conditional => exact viable_conditional hg

omit hg

variable {rules : Rules} (he : rules.Extensible)

include he

/-- The phrases of every depth are viable. -/
theorem viable_nested (depth : Nat) (phrase : Phrase) :
    Viable rules (.phrase phrase) (nested rules depth phrase) := by
  induction depth generalizing phrase with
  | zero =>
    intro ts rest e h
    obtain rfl := fail_eq_failed h
    exact completable_phrase he phrase rest
  | succ depth ih =>
    have hg : (⟨rules, nested rules depth⟩ : Grammar TokenKind).IsViable :=
      ⟨he, consumes_nested rules depth, reads_nested he.toProper depth, ih⟩
    intro ts rest e h
    exact viable_body hg phrase h

/-- The grammar of a dialect is viable. -/
theorem isViable_ofRules : (ofRules rules : Grammar TokenKind).IsViable where
  extensible := he
  consumes := consumes_ofRules rules
  reads := reads_ofRules he.toProper
  viable := fun phrase {ts _ _} h => viable_nested he (ts.length + 1) phrase h

/-! ## Files -/

theorem viable_declaration : Viable rules .definition (ofRules rules).declaration := by
  intro ts rest e h
  rcases bind_eq_failed h with h₁ | ⟨us, mid, hus, h₁⟩
  · cases h₁
  obtain ⟨rfl, rfl⟩ := ahead_eq_done.1 hus
  split at h₁
  · exact viable_definition (isViable_ofRules he) h₁
  · obtain rfl := fail_eq_failed h₁
    refine .of_start [.ident, .colon, .intNumber, .semicolon] (by decide) (fun _ => trivial) fun after _ => ?_
    obtain ⟨t, ht⟩ := defined_number he none (.joined [.identifier .ident])
    exact ⟨t, .unintroduced (show TokenKind.ident ≠ .defKw by decide)
      (.last (.name rfl) (show TokenKind.colon ≠ .comma by decide)) ht⟩

/-- The declarations of a file are viable. The induction is on the number of tokens. -/
theorem viable_declarations :
    Viable rules .declarations (many (unlessNext .eof (ofRules rules).declaration)) := by
  intro ts rest e h
  have hrepeats : (unlessNext .eof (ofRules rules : Grammar TokenKind).declaration).Repeats :=
    repeats_declaration rules
  induction hn : ts.length using Nat.strongRecOn generalizing ts with
  | ind n ih =>
    rcases hrepeats.many_eq_failed h with h₁ | ⟨d, mid, hd, h₁⟩
    · refine (viable_declaration he (unlessNext_eq_failed h₁).2).map (fun _ => trivial)
        (fun _ => trivial) fun hafter h => ?_
      obtain rfl : _ = [] := hafter
      exact ⟨_, .declarations h.opensDeclaration_of_definition h (.noDeclarations rfl)⟩
    · have hshort : mid.length < n := by
        have := hrepeats.advances.shorter hd
        omega
      have hdefinition : Reading rules .definition ts d mid := by
        obtain ⟨us, mid', hus, h₂⟩ := bind_eq_done.1 (unlessNext_eq_some.1 hd).2
        obtain ⟨rfl, rfl⟩ := ahead_eq_done.1 hus
        split at h₂
        · exact reads_definition (consumes_ofRules rules) he.toProper (reads_ofRules he.toProper) h₂
        · exact absurd h₂ fail_ne_done
      refine (ih mid.length hshort h₁ rfl).last (fun _ => trivial) id fun _ _ hpart => ?_
      obtain ⟨ts', hts, hread⟩ := hdefinition.again_of_closes he trivial trivial _
      exact ⟨ts', _, hts, .declarations hread.opensDeclaration_of_definition hread hpart⟩

end Grammar

/-- The tokens in front of the place where a file fails are the front of a file that is
accepted. -/
theorem exists_done_of_parseTokens {dialect : Dialect} {ts rest : List TokenKind}
    {e : Failure TokenKind} (h : parseTokens dialect ts = .failed e rest) :
    ∃ used w t, ts = used ++ rest ∧ Writable w ∧
      parseTokens dialect (used ++ w) = .done t [] := by
  obtain ⟨w, hw, hcomplete⟩ := viable_declarations dialect.extensible_rules (map_eq_failed h)
  obtain ⟨ts', ds, ⟨used, hts, hts'⟩, hread, -⟩ := hcomplete [] rfl
  rw [List.append_nil] at hts'
  exact ⟨used, w, _, hts, hw, hts' ▸ parseTokens_of_reading hread⟩

end ConcreteSyntax
