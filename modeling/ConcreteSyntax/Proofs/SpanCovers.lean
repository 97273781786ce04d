import ConcreteSyntax.Proofs.NodesInOrder
import ConcreteSyntax.Proofs.TokenPlaces
import Mathlib.Order.Bounds.Basic
import Mathlib.Order.MinMax

/-!
# What spans cover

Positions are ordered by reading. The cover of spans begins at the least of their starts and ends at
the greatest of their ends, where spans without a place do not count. This is what folding `cover`
computes, in whatever order and grouping, and so the span of a tree is the cover of the spans of all
its tokens, whatever tokens these are and wherever they stand in the tree.
-/

namespace ConcreteSyntax

/-! ## The order of positions -/

namespace Position

instance : LinearOrder Position where
  le_refl p := .inr ⟨rfl, Nat.le_refl _⟩
  le_trans p q r hpq hqr := by
    rw [le_def] at *
    omega
  le_antisymm p q hpq hqp := by
    rw [le_def] at hpq hqp
    obtain ⟨line, column⟩ := p
    obtain ⟨line', column'⟩ := q
    simp only [mk.injEq]
    simp only at hpq hqp
    omega
  le_total p q := by
    rw [le_def, le_def]
    omega
  toDecidableLE := inferInstance
  min_def _ _ := rfl
  max_def _ _ := rfl

/-- The later of two places is on the same line or below. -/
theorem line_mono {p q : Position} (h : p ≤ q) : p.line ≤ q.line := by
  rw [le_def] at h
  omega

/-- Going to the right is going forward. -/
theorem le_advance (p : Position) (columns : Nat) : p ≤ p.advance columns :=
  .inr ⟨rfl, Nat.le_add_right _ _⟩

/-- Reading a character is going forward. -/
theorem le_after (p : Position) (c : Char) : p ≤ p.after c := by
  rw [after]
  split
  · exact .inl (Nat.lt_succ_self _)
  · exact .inr ⟨rfl, Nat.le_succ _⟩

/-- Reading characters is going forward. -/
theorem le_foldl_after (p : Position) (cs : List Char) : p ≤ cs.foldl after p := by
  induction cs generalizing p with
  | nil => exact le_refl p
  | cons c cs ih => exact (p.le_after c).trans (ih _)

end Position

/-! ## Covers -/

namespace Span

/-- The positions on one side of those spans that have a place. -/
def sides (side : Span → Position) (spans : List Span) : Set Position :=
  {p | ∃ s ∈ spans, s.IsValid ∧ side s = p}

/-- That a span covers spans and no more: it has a place when one of them has, it begins where the
first of them begins, and it ends where the last of them ends. -/
structure IsCover (spans : List Span) (s : Span) : Prop where
  /-- The cover has a place exactly when one of the spans has. -/
  isValid_iff : s.IsValid ↔ ∃ a ∈ spans, a.IsValid
  /-- The cover begins at the least start. -/
  isLeast : s.IsValid → IsLeast (sides start spans) s.start
  /-- The cover ends at the greatest end. -/
  isGreatest : s.IsValid → IsGreatest (sides stop spans) s.stop

variable {side : Span → Position} {spans spans' : List Span} {s t : Span}

/-- From a span without a place, covering gives the other one. -/
theorem cover_of_not_isValid_left (hs : ¬ s.IsValid) : s.cover t = t := by
  rw [cover, if_neg hs]

/-- The cover of spans with a place begins with the first start and ends with the last end. -/
theorem cover_of_isValid (hs : s.IsValid) (ht : t.IsValid) :
    s.cover t = ⟨min s.start t.start, max s.stop t.stop⟩ := by
  rw [cover, if_pos hs, if_pos ht]

/-- The positions on one side of spans in two parts. -/
theorem sides_append : sides side (spans ++ spans') = sides side spans ∪ sides side spans' := by
  ext p
  simp only [sides, List.mem_append, Set.mem_ofPred_eq, Set.mem_union, or_and_right, exists_or]

/-- Spans without a place have no sides. -/
theorem sides_eq_empty (h : ∀ a ∈ spans, ¬ a.IsValid) : sides side spans = ∅ :=
  Set.eq_empty_iff_forall_notMem.2 fun _ ⟨a, ha, hvalid, _⟩ => h a ha hvalid

namespace IsCover

/-- Nothing is covered by no place. -/
theorem nowhere : IsCover [] nowhere where
  isValid_iff := by
    refine iff_of_false ?_ (by simp)
    decide
  isLeast h := absurd h (by decide)
  isGreatest h := absurd h (by decide)

/-- A span covers itself. -/
theorem singleton (s : Span) : IsCover [s] s where
  isValid_iff := by simp
  isLeast h := ⟨⟨s, by simp, h, rfl⟩, by
    rintro p ⟨a, ha, -, rfl⟩
    rw [List.mem_singleton.1 ha]⟩
  isGreatest h := ⟨⟨s, by simp, h, rfl⟩, by
    rintro p ⟨a, ha, -, rfl⟩
    rw [List.mem_singleton.1 ha]⟩

/-- What a span without a place covers has no place. -/
theorem sides_eq_empty (h : IsCover spans s) (hs : ¬ s.IsValid) (side : Span → Position) :
    sides side spans = ∅ :=
  Span.sides_eq_empty fun a ha hvalid => hs (h.isValid_iff.2 ⟨a, ha, hvalid⟩)

/-- The cover of two covers covers what both of them cover. -/
theorem cover (h : IsCover spans s) (h' : IsCover spans' t) :
    IsCover (spans ++ spans') (s.cover t) := by
  have hany : (∃ a ∈ spans ++ spans', a.IsValid) ↔ s.IsValid ∨ t.IsValid := by
    simp only [List.mem_append, or_and_right, exists_or, h.isValid_iff, h'.isValid_iff]
  by_cases hs : s.IsValid
  · by_cases ht : t.IsValid
    · have hcover := cover_of_isValid hs ht
      have hvalid : (s.cover t).IsValid := by
        rw [hcover]
        rcases min_choice s.start t.start with hmin | hmin
        · rwa [IsValid, hmin]
        · rwa [IsValid, hmin]
      refine ⟨iff_of_true hvalid (hany.2 (.inl hs)), fun _ => ?_, fun _ => ?_⟩
      · rw [hcover, sides_append]
        exact (h.isLeast hs).union (h'.isLeast ht)
      · rw [hcover, sides_append]
        exact (h.isGreatest hs).union (h'.isGreatest ht)
    · have hcover : s.cover t = s := cover_of_not_isValid hs ht
      rw [hcover]
      refine ⟨iff_of_true hs (hany.2 (.inl hs)), fun _ => ?_, fun _ => ?_⟩
      · rw [sides_append, h'.sides_eq_empty ht, Set.union_empty]
        exact h.isLeast hs
      · rw [sides_append, h'.sides_eq_empty ht, Set.union_empty]
        exact h.isGreatest hs
  · have hcover : s.cover t = t := cover_of_not_isValid_left hs
    rw [hcover]
    refine ⟨hany.trans (or_iff_right hs) |>.symm, fun ht => ?_, fun ht => ?_⟩
    · rw [sides_append, h.sides_eq_empty hs, Set.empty_union]
      exact h'.isLeast ht
    · rw [sides_append, h.sides_eq_empty hs, Set.empty_union]
      exact h'.isGreatest ht

/-- Folding over covers covers what all of them cover. -/
theorem foldl {α : Type} {xs : List α} {f : α → Span} {covered : α → List Span}
    (h : IsCover spans s) (hx : ∀ x ∈ xs, IsCover (covered x) (f x)) :
    IsCover (spans ++ xs.flatMap covered) ((xs.map f).foldl Span.cover s) := by
  induction xs generalizing spans s with
  | nil => simpa using h
  | cons x xs ih =>
    obtain ⟨hfirst, hothers⟩ := List.forall_mem_cons.1 hx
    rw [List.flatMap_cons, ← List.append_assoc]
    exact ih (h.cover hfirst) hothers

/-- Only the spans that are covered count, in no order. -/
theorem congr (h : IsCover spans s) (hmem : ∀ a, a ∈ spans ↔ a ∈ spans') : IsCover spans' s := by
  have hsides : ∀ side, sides side spans = sides side spans' := by
    intro side
    simp only [sides, hmem]
  refine ⟨h.isValid_iff.trans (by simp only [hmem]), fun hs => ?_, fun hs => ?_⟩
  · exact hsides start ▸ h.isLeast hs
  · exact hsides stop ▸ h.isGreatest hs

/-- A cover with a place begins no later than what it covers. -/
theorem start_le (h : IsCover spans s) {a : Span} (ha : a ∈ spans) (hvalid : a.IsValid) :
    s.start ≤ a.start :=
  (h.isLeast (h.isValid_iff.2 ⟨a, ha, hvalid⟩)).2 ⟨a, ha, hvalid, rfl⟩

/-- A cover with a place ends no earlier than what it covers. -/
theorem le_stop (h : IsCover spans s) {a : Span} (ha : a ∈ spans) (hvalid : a.IsValid) :
    a.stop ≤ s.stop :=
  (h.isGreatest (h.isValid_iff.2 ⟨a, ha, hvalid⟩)).2 ⟨a, ha, hvalid, rfl⟩

end IsCover

end Span

/-! ## Spans of trees -/

namespace Tree

/-- The tokens of operand places are those of the present children. -/
theorem flatMap_tokens_present {τ : Type} [HasKind τ] (t : Tree τ) :
    t.present.flatMap tokens = t.children.flatMap slotTokens := t.flatMap_present tokens

/-- The span of a node covers its own tokens and the spans of its children. -/
theorem span_eq (t : Tree Token) :
    t.span = (t.present.map span).foldl Span.cover
      ((t.ownTokens.map Token.span).foldl Span.cover Span.nowhere) := by
  rw [span, fold_eq, List.foldl_append, present, List.reduceOption_map]

/-- The span of a tree is the cover of its tokens. -/
theorem isCover_span (t : Tree Token) : Span.IsCover (t.tokens.map Token.span) t.span := by
  induction t using children_induction with
  | step t ih =>
    have hsingle : ∀ b ∈ t.ownTokens, Span.IsCover [b.span] b.span :=
      fun b _ => Span.IsCover.singleton b.span
    have hown := Span.IsCover.nowhere.foldl hsingle
    have hchildren : ∀ child ∈ t.present, Span.IsCover (child.tokens.map Token.span) child.span :=
      fun child hchild => ih child (List.reduceOption_mem_iff.1 hchild)
    have hspans : t.ownTokens.flatMap (fun b => [b.span]) ++
        t.present.flatMap (fun child => child.tokens.map Token.span) =
          (t.ownTokens ++ t.children.flatMap slotTokens).map Token.span := by
      rw [← flatMap_tokens_present, List.map_append, List.map_flatMap, List.map_eq_flatMap]
    rw [span_eq]
    refine (hown.foldl hchildren).congr fun a => ?_
    rw [List.nil_append, hspans]
    exact (t.tokens_perm.map Token.span).mem_iff.symm

/-- That a token stands at some node of a tree and has a place in the text. -/
def HasPlaced (t : Tree Token) (b : Token) : Prop :=
  b.start.line ≠ 0 ∧ ∃ path node, t.descend path = some node ∧ b ∈ node.ownTokens

/-- The positions on one side of the tokens of a tree are those of its tokens with a place. -/
theorem sides_map_tokens (t : Tree Token) (side : Span → Position) :
    Span.sides side (t.tokens.map Token.span) = {p | ∃ b, t.HasPlaced b ∧ side b.span = p} := by
  ext p
  constructor
  · rintro ⟨s, hs, hvalid, hp⟩
    obtain ⟨b, hb, rfl⟩ := List.mem_map.1 hs
    exact ⟨b, ⟨hvalid, mem_tokens_iff_descend.1 hb⟩, hp⟩
  · rintro ⟨b, ⟨hvalid, hb⟩, hp⟩
    exact ⟨b.span, List.mem_map_of_mem (mem_tokens_iff_descend.2 hb), hvalid, hp⟩

/-- The span of a tree has a place exactly when one of its tokens has. -/
theorem isValid_span_iff (t : Tree Token) : t.span.IsValid ↔ ∃ b, t.HasPlaced b := by
  rw [t.isCover_span.isValid_iff]
  constructor
  · rintro ⟨s, hs, hvalid⟩
    obtain ⟨b, hb, rfl⟩ := List.mem_map.1 hs
    exact ⟨b, hvalid, mem_tokens_iff_descend.1 hb⟩
  · rintro ⟨b, hvalid, hb⟩
    exact ⟨b.span, List.mem_map_of_mem (mem_tokens_iff_descend.2 hb), hvalid⟩

/-- A span with a place runs from the least start to the greatest end of the tokens with a place. -/
theorem ends_span {t : Tree Token} (h : t.span.IsValid) :
    IsLeast {p | ∃ b, t.HasPlaced b ∧ b.start = p} t.span.start ∧
      IsGreatest {p | ∃ b, t.HasPlaced b ∧ b.stop = p} t.span.stop := by
  have hleast := t.isCover_span.isLeast h
  have hgreatest := t.isCover_span.isGreatest h
  rw [sides_map_tokens] at hleast hgreatest
  exact ⟨hleast, hgreatest⟩

end Tree

/-- The span of a tree, of whatever shape and from whatever tokens, has a place exactly when one of
the tokens in the tree has one. Then it starts at the least start and ends at the greatest end of
these tokens; so trees with the same such tokens have the same span, however the tokens and the
operands are arranged. -/
theorem span_of_placed_tokens (t : Tree Token) :
    (t.span.IsValid ↔ ∃ b, t.HasPlaced b) ∧
      (t.span.IsValid →
        IsLeast {p | ∃ b, t.HasPlaced b ∧ b.start = p} t.span.start ∧
          IsGreatest {p | ∃ b, t.HasPlaced b ∧ b.stop = p} t.span.stop) ∧
      ∀ u : Tree Token, (∀ b, u.HasPlaced b ↔ t.HasPlaced b) → t.span.IsValid →
        u.span = t.span := by
  refine ⟨t.isValid_span_iff, Tree.ends_span, fun u hsame hvalid => ?_⟩
  have hvalid' : u.span.IsValid := by
    rw [Tree.isValid_span_iff] at hvalid ⊢
    simpa only [hsame] using hvalid
  obtain ⟨hleast, hgreatest⟩ := Tree.ends_span hvalid
  obtain ⟨hleast', hgreatest'⟩ := Tree.ends_span hvalid'
  simp only [hsame] at hleast' hgreatest'
  calc u.span = ⟨u.span.start, u.span.stop⟩ := rfl
    _ = ⟨t.span.start, t.span.stop⟩ := by
      rw [hleast'.unique hleast, hgreatest'.unique hgreatest]
    _ = t.span := rfl

/-- An operator on no line, between operands of which the first one stands below the second one. -/
example : (Tree.infixOp (.literal ⟨.intNumber, ⟨0, 0, "42"⟩, ⟨3, 1⟩, 7⟩)
    ⟨.plus, ⟨0, 1, "+"⟩, ⟨0, 9⟩, 0⟩ (.identifier ⟨.ident, ⟨0, 2, "x"⟩, ⟨2, 5⟩, 4⟩)).span =
      ⟨⟨2, 5⟩, ⟨3, 3⟩⟩ := by decide

end ConcreteSyntax
