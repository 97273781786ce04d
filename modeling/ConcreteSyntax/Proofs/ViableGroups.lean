import ConcreteSyntax.Proofs.Completions
import ConcreteSyntax.Proofs.ReadingCompleteness

/-!
# Viable groups

Where the parser of a phrase fails, what it has read can be completed as such a phrase. The
statements follow the grammar, here from names to groups and blocks, and each one assumes that
the nested phrases are viable. What was read before the place of the failure is read again in
front of the completed part, and what is still missing behind this part is written down.
-/

namespace ConcreteSyntax

open TokenParser Grammar

/-- That the nested phrases of a grammar take tokens, have readings and are viable. -/
structure Grammar.IsViable (g : Grammar TokenKind) : Prop where
  /-- Texts can be completed in the dialect. -/
  extensible : g.rules.Extensible
  /-- Phrases take tokens from the front. -/
  consumes : ∀ p, (g.phrase p).Consumes
  /-- The results of phrases have readings. -/
  reads : ∀ p, Reads g.rules (.phrase p) (g.phrase p)
  /-- Where a phrase fails it can be completed. -/
  viable : ∀ p, Viable g.rules (.phrase p) (g.phrase p)

/-! ## Sequences and names -/

/-- A sequence is viable if its elements are. The induction is on the number of tokens. -/
theorem viable_separatedBy {rules : Rules} (he : rules.Extensible) {e : Element}
    {p : TokenParser TokenKind (Tree TokenKind)} (hp : p.Consumes)
    (hr : Reads rules (.element e) p) (hv : Viable rules (.element e) p) :
    Viable rules (.separated e) (separatedBy e.separator p) := by
  intro ts rest exp h
  induction hn : ts.length using Nat.strongRecOn generalizing ts with
  | ind n ih =>
    rcases separatedBy_eq_failed hp.trims h with h₁ | ⟨a, s, mid, ha, hs, h₁⟩
    · obtain ⟨w, hw, hcomplete⟩ := hv h₁
      refine ⟨w, hw, fun after hafter => ?_⟩
      obtain ⟨ts', v, hts, hread, hresume⟩ := hcomplete after hafter.1
      refine ⟨ts', [v], hts, .last hread hafter.2, ?_⟩
      cases e with
      | item => exact hresume
      | _ => trivial
    · have hshort : mid.length < n := by
        have := hp.shorter ha
        simp only [List.length_cons] at this
        omega
      obtain ⟨w, hw, hcomplete⟩ := ih mid.length hshort h₁ rfl
      refine ⟨w, hw, fun after hafter => ?_⟩
      obtain ⟨mid', vs, hmid, hothers, hresume⟩ := hcomplete after hafter
      have hfirst : e.MayEnd rules (s :: mid) (s :: mid') := by
        refine Element.mayEnd_separator hs ?_
        rintro rfl
        exact hresume
      obtain ⟨ts', hts, hread, hplain⟩ := (hr ha).continues he id (s :: mid') hfirst
      refine ⟨ts', a :: vs, hts.trans (hmid.cons s), .more hread hs hothers, ?_⟩
      cases e with
      | item => exact hplain hfirst
      | _ => trivial

namespace Grammar

theorem viable_identifier {rules : Rules} :
    Viable rules (.element .name) (identifier : TokenParser TokenKind (Tree TokenKind)) := by
  intro ts rest e h
  obtain ⟨rfl, -⟩ := expect_eq_failed (map_eq_failed h) nofun
  exact .of_start [.ident] (by decide) (fun _ => trivial) fun _ _ => ⟨_, .name rfl⟩

theorem viable_identifiers {rules : Rules} (he : rules.Extensible) :
    Viable rules (.separated .name) (identifiers : TokenParser TokenKind (Tree TokenKind)) :=
  fun h => viable_separatedBy he consumes_identifier reads_identifier viable_identifier
    (map_eq_failed h)

variable {g : Grammar TokenKind} (hg : g.IsViable)

include hg

/-! ## Types and parameters -/

theorem viable_type : Viable g.rules .type g.type := by
  intro ts rest e h
  unfold Grammar.type at h
  cases hl : g.rules.typeLevel with
  | operand =>
    rw [hl] at h
    exact (hg.viable _ h).map (fun _ => trivial) id fun _ h => ⟨_, .operandType hl h⟩
  | implication =>
    rw [hl] at h
    exact (hg.viable _ h).map (fun _ => trivial) id fun _ h => ⟨_, .implicationType hl h⟩

/-- No type begins where a type is left out. -/
theorem typeOmitted_eq_false {ts rest : List TokenKind} {t : Tree TokenKind}
    (h : Reading g.rules .type ts t rest) : typeOmitted.contains (kindAt ts 0) = false := by
  refine Bool.eq_false_iff.2 fun ho => ?_
  have hnon := h.nonStarters_of_operand hg.extensible trivial
  rcases eq_or_isKw_of_typeOmitted ho with hk | hk <;> (rw [hk] at hnon; exact absurd hnon (by decide))

theorem viable_typing : Viable g.rules .typing g.typing := by
  intro ts rest e h
  rcases bind_eq_failed h with h₁ | ⟨colon, mid, hcolon, h₁⟩
  · exact absurd h₁ eat_ne_failed
  cases colon with
  | none =>
    obtain ⟨rfl, hne⟩ := (eat_eq_none (by decide)).1 hcolon
    have hresumes : ∀ ts', Category.Resumes g.rules .typing mid ts' := fun _ hk => absurd hk hne
    rcases bind_eq_failed h₁ with h₂ | ⟨mark, mid', hmark, h₂⟩
    · exact absurd h₂ eat_ne_failed
    cases mark with
    | none =>
      obtain ⟨rfl, -⟩ := (eat_eq_none (by decide)).1 hmark
      obtain rfl := fail_eq_failed h₂
      exact .of_start [.colon, .intNumber] (by decide) hresumes fun _ h =>
        ⟨_, typing_number hg.extensible h⟩
    | some m =>
      obtain ⟨rfl, hm⟩ := eat_eq_some.1 hmark
      exact (viable_type hg (map_eq_failed h₂)).behind (fun _ => hresumes _) id fun _ h =>
        ⟨_, .bareConstraint hm h⟩
  | some c =>
    obtain ⟨rfl, hc⟩ := eat_eq_some.1 hcolon
    have hresumes : ∀ ts', Category.Resumes g.rules .typing (c :: mid) (c :: ts') := fun _ _ => hc
    rcases bind_eq_failed h₁ with h₂ | ⟨type, mid', htype, h₂⟩
    · rcases bind_eq_failed h₂ with h₃ | ⟨k, mid', hk, h₃⟩
      · cases h₃
      obtain ⟨rfl, rfl⟩ := peek_eq_done.1 hk
      split at h₃
      · exact absurd h₃ pure_ne_failed
      · exact (viable_type hg (map_eq_failed h₃)).behind hresumes id fun hafter h =>
          ⟨_, .plainType hc (typeOmitted_eq_false hg h) h (hafter.kind_ne (by decide))⟩
    rcases bind_eq_failed h₂ with h₃ | ⟨mark, mid'', hmark, h₃⟩
    · exact absurd h₃ eat_ne_failed
    cases mark with
    | none => exact absurd h₃ pure_ne_failed
    | some m =>
      obtain ⟨rfl, hm⟩ := eat_eq_some.1 hmark
      obtain ⟨w, hw, hcomplete⟩ := viable_type hg (map_eq_failed h₃)
      refine ⟨w, hw, fun after hafter => ?_⟩
      obtain ⟨mid', p, hmid, hpattern, -⟩ := hcomplete after hafter
      obtain ⟨rfl, hrest, -⟩ | ⟨t, rfl, ho, ht⟩ := plainType?_cases hg.reads htype
      · subst hrest
        exact ⟨_, _, (hmid.cons m).cons c, .colonConstraint hc hm hpattern, hresumes _⟩
      · obtain ⟨ts', hts, htype'⟩ :=
          (ht.continues hg.extensible id).again (.of_token hm _ mid' (by decide))
        exact ⟨_, _, (hts.trans (hmid.cons m)).cons c,
          .constrainedType hc (typeOmitted_eq_false hg htype') htype' hm hpattern,
            hresumes _⟩

theorem viable_parameter : Viable g.rules .parameter g.parameter := by
  intro ts rest e h
  have he := hg.extensible
  rcases bind_eq_failed h with h₁ | ⟨names, mid, hnames, h₁⟩
  · obtain ⟨hne, h₂⟩ := unlessNext_eq_failed h₁
    refine (viable_identifiers he h₂).extend [.colon, .intNumber] (by decide)
      (fun _ hk => absurd hk hne) (fun _ => ⟨trivial, show TokenKind.colon ≠ .comma by decide⟩)
      fun hafter _ hpart => ⟨_, _, .refl _ _, .namedParameter ?_ hpart
        (typing_number he hafter) (.noInitial (hafter.kind_ne (by decide)))⟩
    rw [hpart.kindAt_of_names]
    decide
  have hn : names = none ∧ mid = ts ∧ kindAt ts 0 = .colon ∨ ∃ ns, names = some (.joined ns) ∧
      kindAt ts 0 ≠ .colon ∧ Reading g.rules (.separated .name) ts ns mid := by
    cases names with
    | none =>
      obtain ⟨rfl, hk⟩ := unlessNext_eq_none.1 hnames
      exact .inl ⟨rfl, rfl, hk⟩
    | some t =>
      obtain ⟨hk, hns⟩ := unlessNext_eq_some.1 hnames
      obtain ⟨ns, rfl, hns⟩ := reading_of_identifiers hns
      exact .inr ⟨ns, rfl, hk, hns⟩
  -- Typing behind the names makes a parameter, with an initial value or without.
  have hwhole : ∀ {mid' type mid'' value after},
      (kindAt mid 0 = .colon → kindAt mid' 0 = .colon) →
      Reading g.rules .typing mid' type mid'' → Reading g.rules .initial mid'' value after →
      ∃ ts' v, SameFront ts mid ts' mid' ∧ Reading g.rules .parameter ts' v after ∧
        (kindAt ts 0 = .colon → kindAt ts' 0 = .colon) := by
    intro mid' type mid'' value after hk htype hvalue
    obtain ⟨rfl, rfl, hcolon⟩ | ⟨ns, rfl, hcolon, hns⟩ := hn
    · exact ⟨_, _, .refl _ _, .unnamedParameter (hk hcolon) htype hvalue, hk⟩
    · have hcomma : kindAt mid' 0 ≠ .comma := by
        rcases htype.kindAt_of_typing with hk | hk <;> (rw [hk]; decide)
      obtain ⟨ts', hts, hns'⟩ := (hns.continues he id).again ⟨trivial, fun _ => hcomma⟩
      exact ⟨ts', _, hts, .namedParameter (hns.kindAt_of_front hts rfl ▸ hcolon) hns' htype hvalue,
        fun h => absurd h hcolon⟩
  rcases bind_eq_failed h₁ with h₂ | ⟨type, mid', htype, h₂⟩
  · obtain ⟨w, hw, hcomplete⟩ := viable_typing hg h₂
    refine ⟨w, hw, fun after hafter => ?_⟩
    obtain ⟨mid', type, hmid, htype, hk⟩ := hcomplete after hafter
    obtain ⟨ts', v, hts, hread, hresumes⟩ :=
      hwhole hk htype (.noInitial (hafter.kind_ne (by decide)))
    exact ⟨ts', v, hts.trans hmid, hread, hresumes⟩
  rcases bind_eq_failed h₂ with h₃ | ⟨_, _, -, h₃⟩
  · obtain ⟨s, mid'', rfl, hs, h₄⟩ := behind_eq_failed h₃
    have ht := reads_typing hg.reads htype
    obtain ⟨w, hw, hcomplete⟩ := hg.viable _ h₄
    refine ⟨w, hw, fun after hafter => ?_⟩
    obtain ⟨us, value, hus, hvalue, -⟩ := hcomplete after hafter
    obtain ⟨mid', hmid, htype'⟩ :=
      (ht.continues he id).again ⟨.of_token hs _ us (by decide), fun _ => hs⟩
    have hk := ht.kindAt_of_front hmid rfl
    obtain ⟨ts', v, hts, hread, hresumes⟩ :=
      hwhole (fun hcolon => hk.trans hcolon) htype' (.initial hs hvalue)
    exact ⟨ts', v, hts.trans (hmid.trans (hus.cons s)), hread, hresumes⟩
  · exact absurd h₃ pure_ne_failed

/-! ## Groups and blocks -/

theorem viable_item : Viable g.rules (.element .item) g.item := by
  intro ts rest e h
  rcases bind_eq_failed h with h₁ | ⟨us, mid, hus, h₁⟩
  · cases h₁
  obtain ⟨rfl, rfl⟩ := ahead_eq_done.1 hus
  split at h₁
  · rename_i ho
    obtain ⟨w, hw, hcomplete⟩ := viable_parameter hg h₁
    refine ⟨w, hw, fun after hafter => ?_⟩
    obtain ⟨ts', v, hts, hread, hcolon⟩ := hcomplete after hafter
    exact ⟨ts', v, hts, .parameterItem hread.opensParameter_of_parameter hread,
      opensDefinition_of_opensParameter ho hcolon⟩
  · obtain ⟨w, hw, hcomplete⟩ := hg.viable _ h₁
    refine ⟨w, hw, fun after hafter => ?_⟩
    obtain ⟨ts', v, hts, hread, -⟩ := hcomplete after hafter
    have hopens : opensParameter ts' = false :=
      hread.opensParameter_of_expression hg.extensible (Concludes.marksNames_eq hafter)
    refine ⟨ts', v, hts, .expressionItem hopens hread, fun hd => ?_⟩
    rw [(Bool.or_eq_false_iff.1 hopens).2] at hd
    contradiction

theorem viable_items : Viable g.rules (.element .items) g.items := by
  intro ts rest e h
  have hitems := viable_separatedBy hg.extensible (consumes_item hg.consumes)
    (reads_item hg.reads) (viable_item hg) (map_eq_failed h)
  exact hitems.map (fun _ => trivial)
    (fun hafter => ⟨hafter, Concludes.kind_ne hafter (by decide)⟩) fun _ h => ⟨_, .items h⟩

theorem viable_group : Viable g.rules (.separated .items) g.group := fun h =>
  viable_separatedBy hg.extensible (consumes_items hg.consumes)
    (reads_items hg.consumes hg.reads) (viable_items hg) (map_eq_failed h)

theorem viable_enclosed {opening closing : TokenKind} (hdel : IsGroupDelimiters opening closing) :
    Viable g.rules (.enclosed opening closing) (g.enclosed opening closing) := by
  intro ts rest e h
  have hopening : opening ≠ .eof := by rcases hdel with ⟨rfl, -⟩ | ⟨rfl, -⟩ <;> decide
  have hclosing : closing ≠ .eof := by rcases hdel with ⟨-, rfl⟩ | ⟨-, rfl⟩ <;> decide
  have hsemicolon : closing ≠ .semicolon := by rcases hdel with ⟨-, rfl⟩ | ⟨-, rfl⟩ <;> decide
  have hwritable : Writable [closing] := by rcases hdel with ⟨-, rfl⟩ | ⟨-, rfl⟩ <;> decide
  have hconcludes : ∀ after, Concludes g.rules (closing :: after) := fun after =>
    .of_token rfl after hdel.isDelimiters.stopper
  have hfirst : ∀ {us us' : List TokenKind} {vs : List (Tree TokenKind)},
      Reading g.rules (.separated .items) us vs us' → kindAt us 0 ≠ closing := fun h =>
    h.ne_closing_of_group hg.extensible hdel.isDelimiters.2.1
  rcases bind_eq_failed h with h₁ | ⟨a, mid, ha, h₁⟩
  · obtain ⟨rfl, -⟩ := expect_eq_failed h₁ hopening
    exact completable_enclosed hdel _
  obtain ⟨rfl, ha'⟩ := expect_eq_done.1 ha
  rcases bind_eq_failed h₁ with h₂ | ⟨term, mid', hterm, h₂⟩
  · exact (viable_group hg (unlessNext_eq_failed h₂).2).extend [closing] hwritable
      (fun _ => trivial) (fun _ => ⟨hconcludes _, hsemicolon⟩)
      fun _ _ hpart => ⟨_, _, .token a _ _, .enclosure ha' (hfirst hpart) hpart rfl⟩
  obtain ⟨rfl, hne⟩ := expect_eq_failed (map_eq_failed h₂) hclosing
  cases term with
  | none => exact absurd (unlessNext_eq_none.1 hterm).2 ((unlessNext_eq_none.1 hterm).1 ▸ hne)
  | some t =>
    obtain ⟨-, ht⟩ := unlessNext_eq_some.1 hterm
    obtain ⟨vs, rfl, hvs⟩ := reading_of_group hg.consumes hg.reads ht
    refine .of_rest [closing] hwritable (fun _ => trivial) fun after _ => ?_
    obtain ⟨ts', hts, hread⟩ := (hvs.continues hg.extensible id).again
      ⟨.inl (hconcludes after), fun _ => hsemicolon⟩
    exact ⟨_, _, hts.cons a, .enclosure ha' (hfirst hread) hread rfl⟩

theorem viable_paren : Viable g.rules (.enclosed .leftParen .rightParen) g.paren :=
  viable_enclosed hg isGroupDelimiters_paren

theorem viable_bracket : Viable g.rules (.enclosed .leftBracket .rightBracket) g.bracket :=
  viable_enclosed hg isGroupDelimiters_bracket

omit hg in
/-- Where the parser of the statements of a block fails, the parser of a statement does. -/
theorem statement?_eq_failed {ts rest : List TokenKind} {e : Failure TokenKind}
    (h : g.statement? ts = .failed e rest) : g.phrase .statement ts = .failed e rest := by
  rcases bind_eq_failed h with h₁ | ⟨k, mid, hk, h₁⟩
  · cases h₁
  obtain ⟨rfl, rfl⟩ := peek_eq_done.1 hk
  cases hk : kindAt mid 0
  case rightBrace => rw [hk] at h₁; exact absurd h₁ pure_ne_failed
  case eof => rw [hk] at h₁; exact absurd h₁ pure_ne_failed
  all_goals
    rw [hk] at h₁
    exact map_eq_failed h₁

/-- What the parser of the statements of a block yields has a reading. -/
theorem reading_of_statement? {ts rest : List TokenKind} {s : Tree TokenKind}
    (h : g.statement? ts = .done (some s) rest) :
    kindAt ts 0 ≠ .rightBrace ∧ kindAt ts 0 ≠ .eof ∧
      Reading g.rules (.phrase .statement) ts s rest := by
  obtain ⟨k, mid, hk, h₁⟩ := bind_eq_done.1 h
  obtain ⟨rfl, rfl⟩ := peek_eq_done.1 hk
  cases hk : kindAt mid 0
  case rightBrace => rw [hk] at h₁; cases (pure_eq_done.1 h₁).1
  case eof => rw [hk] at h₁; cases (pure_eq_done.1 h₁).1
  all_goals
    rw [hk] at h₁
    obtain ⟨t, mid', ht, h₂⟩ := bind_eq_done.1 h₁
    obtain ⟨hts, rfl⟩ := pure_eq_done.1 h₂
    cases hts
    exact ⟨by decide, by decide, hg.reads _ ht⟩

/-- The statements of a block are viable. The induction is on the number of tokens. -/
theorem viable_statements : Viable g.rules .statements (many g.statement?) := by
  intro ts rest e h
  have he := hg.extensible
  induction hn : ts.length using Nat.strongRecOn generalizing ts with
  | ind n ih =>
    rcases (repeats_statement? hg.consumes).many_eq_failed h with h₁ | ⟨s, mid, hs, h₁⟩
    · by_cases hrest : ts = rest
      · subst hrest
        refine ⟨[], by decide, fun after hafter => ?_⟩
        have hnone : Reading g.rules .statements after [] after := .noStatements (.inl hafter)
        exact ⟨after, [], .refl _ _, hnone, hnone.mayFollow_of_statements he hafter (.inl rfl)⟩
      · obtain ⟨w, hw, hcomplete⟩ := hg.viable _ (statement?_eq_failed h₁)
        refine ⟨w, hw, fun after hafter => ?_⟩
        obtain ⟨ts', s, hts, hread, -⟩ := hcomplete after hafter
        have hk := hts.kindAt_of_ne hrest
        have hstatements := hread.statements_singleton he hafter
        exact ⟨ts', [s], hts, hstatements,
          hstatements.mayFollow_of_statements he hafter (.inr hk)⟩
    · have hshort : mid.length < n := by
        have := (repeats_statement? hg.consumes).advances.shorter hs
        omega
      obtain ⟨hb, heof, hstatement⟩ := reading_of_statement? hg hs
      obtain ⟨w, hw, hcomplete⟩ := ih mid.length hshort h₁ rfl
      refine ⟨w, hw, fun after hafter => ?_⟩
      obtain ⟨mid', ss, hmid, hothers, hresume⟩ := hcomplete after hafter
      obtain ⟨ts', hts, hread⟩ := (hstatement.continues he id).again hresume
      have hk := hstatement.kindAt_of_front hts rfl
      have hstatements : Reading g.rules .statements ts' (s :: ss) after :=
        .statements (hk ▸ hb) (hk ▸ heof) hread hothers
      exact ⟨ts', s :: ss, hts.trans hmid, hstatements,
        hstatements.mayFollow_of_statements he hafter (.inr hk)⟩

theorem viable_block : Viable g.rules .block g.block := by
  intro ts rest e h
  rcases bind_eq_failed h with h₁ | ⟨a, mid, ha, h₁⟩
  · obtain ⟨rfl, -⟩ := expect_eq_failed h₁ nofun
    exact completable_block _
  obtain ⟨rfl, ha'⟩ := expect_eq_done.1 ha
  rcases bind_eq_failed h₁ with h₂ | ⟨ss, mid', hss, h₂⟩
  · exact (viable_statements hg h₂).extend [.rightBrace] (by decide) (fun _ => trivial)
      (fun _ => rfl) fun _ _ hpart => ⟨_, _, .token a _ _, .block ha' hpart rfl⟩
  obtain ⟨rfl, -⟩ := expect_eq_failed (map_eq_failed h₂) nofun
  refine .of_rest [.rightBrace] (by decide) (fun _ => trivial) fun after _ => ?_
  have hend : Category.MayEnd g.rules .statements rest (.rightBrace :: after) := rfl
  obtain ⟨ts', hts, hread⟩ :=
    ((reads_statements hg.consumes hg.reads hss).continues hg.extensible id).again hend
  exact ⟨_, _, hts.cons a, .block ha' hread rfl⟩

end Grammar

end ConcreteSyntax
