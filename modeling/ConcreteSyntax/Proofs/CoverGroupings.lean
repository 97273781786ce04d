import ConcreteSyntax.Proofs.SpanCovers

/-!
# Covers in any order and grouping

Covering is associative on all spans, those without a place included. It does not commute on
the latter, of which there are many. But as soon as one of the spans has a place, their cover
depends neither on the order of the spans nor on how the covers are grouped: it is the least
span around all of them that have a place.
-/

namespace ConcreteSyntax

namespace Span

variable {s t : Span} {spans spans' : List Span}

/-! ## Associativity -/

/-- A cover has a place exactly when one of its parts has. -/
theorem isValid_cover : (s.cover t).IsValid ↔ s.IsValid ∨ t.IsValid := by
  have hiff := ((IsCover.singleton s).cover (IsCover.singleton t)).isValid_iff
  simpa using hiff

/-- Covering is associative, whether the spans have places or not. -/
theorem cover_assoc (s t u : Span) : (s.cover t).cover u = s.cover (t.cover u) := by
  by_cases hs : s.IsValid
  · by_cases ht : t.IsValid
    · have hst : (s.cover t).IsValid := isValid_cover.2 (.inl hs)
      by_cases hu : u.IsValid
      · have htu : (t.cover u).IsValid := isValid_cover.2 (.inl ht)
        rw [cover_of_isValid hst hu, cover_of_isValid hs htu, cover_of_isValid hs ht,
          cover_of_isValid ht hu, min_assoc, max_assoc]
      · rw [cover_of_not_isValid hst hu, cover_of_not_isValid ht hu]
    · rw [cover_of_not_isValid hs ht, cover_of_not_isValid_left ht]
  · rw [cover_of_not_isValid_left hs, cover_of_not_isValid_left hs]

/-! ## Least spans around others -/

/-- That a span lies within another one. -/
def Within (s t : Span) : Prop := t.start ≤ s.start ∧ s.stop ≤ t.stop

/-- That a span is the least one around those spans of a list that have a place. -/
structure IsLeastAround (spans : List Span) (s : Span) : Prop where
  /-- The span has a place. -/
  isValid : s.IsValid
  /-- The spans with a place lie within it. -/
  within : ∀ a ∈ spans, a.IsValid → a.Within s
  /-- It lies within every span within which they lie. -/
  least : ∀ t, (∀ a ∈ spans, a.IsValid → a.Within t) → s.Within t

namespace IsCover

/-- A cover with a place is the least span around what it covers. -/
theorem isLeastAround (h : IsCover spans s) (hs : s.IsValid) : IsLeastAround spans s where
  isValid := hs
  within _ ha hvalid := ⟨h.start_le ha hvalid, h.le_stop ha hvalid⟩
  least t ht := by
    obtain ⟨a, ha, hvalid, hstart⟩ := (h.isLeast hs).1
    obtain ⟨b, hb, hvalid', hstop⟩ := (h.isGreatest hs).1
    exact ⟨hstart ▸ (ht a ha hvalid).1, hstop ▸ (ht b hb hvalid').2⟩

/-- Covers with a place are equal when they cover the same spans with a place. -/
theorem eq_of_mem_iff (h : IsCover spans s) (h' : IsCover spans' t)
    (hmem : ∀ a : Span, a.IsValid → (a ∈ spans ↔ a ∈ spans')) (hs : s.IsValid) : s = t := by
  have ht : t.IsValid := by
    obtain ⟨a, ha, hvalid⟩ := h.isValid_iff.1 hs
    exact h'.isValid_iff.2 ⟨a, (hmem a hvalid).1 ha, hvalid⟩
  have hsides : ∀ side, sides side spans = sides side spans' := by
    intro side
    ext p
    exact exists_congr fun a => ⟨fun ⟨ha, hvalid, hp⟩ => ⟨(hmem a hvalid).1 ha, hvalid, hp⟩,
      fun ⟨ha, hvalid, hp⟩ => ⟨(hmem a hvalid).2 ha, hvalid, hp⟩⟩
  have hleast := h.isLeast hs
  have hgreatest := h.isGreatest hs
  rw [hsides] at hleast hgreatest
  calc s = ⟨s.start, s.stop⟩ := rfl
    _ = ⟨t.start, t.stop⟩ := by
      rw [hleast.unique (h'.isLeast ht), hgreatest.unique (h'.isGreatest ht)]
    _ = t := rfl

end IsCover

/-! ## Groupings -/

/-- The cover of a list, begun with no place and taken from left to right. -/
def coverAll (spans : List Span) : Span := spans.foldl cover nowhere

/-- The cover of a list covers its spans. -/
theorem isCover_coverAll (spans : List Span) : IsCover spans (coverAll spans) := by
  have hall : ∀ s ∈ spans, IsCover [s] s := fun s _ => IsCover.singleton s
  simpa [coverAll] using IsCover.nowhere.foldl hall

/-- A way in which the covers of some spans are grouped. -/
inductive Grouping where
  /-- A span alone. -/
  | single (s : Span)
  /-- The cover of two groups. -/
  | pair (first second : Grouping)
  deriving Repr

namespace Grouping

/-- The spans of a grouping from left to right. -/
def parts : Grouping → List Span
  | single s => [s]
  | pair first second => first.parts ++ second.parts

/-- The span that the covers of a grouping give. -/
def cover : Grouping → Span
  | single s => s
  | pair first second => first.cover.cover second.cover

/-- What a grouping gives covers its spans. -/
theorem isCover (g : Grouping) : IsCover g.parts g.cover := by
  induction g with
  | single s => exact IsCover.singleton s
  | pair first second ihFirst ihSecond => exact ihFirst.cover ihSecond

end Grouping

end Span

/-- When one of the spans of a list has a place, their cover has one too. It is the least span
around all of them that have a place: it starts at the least start and ends at the greatest end.
Every order of the spans and every grouping of the covers gives the same span, with no place in
front or without it. Covering is associative on all spans. -/
theorem coverAll_independent {spans : List Span} (h : ∃ a ∈ spans, a.IsValid) :
    Span.IsLeastAround spans (Span.coverAll spans) ∧
      IsLeast {p | ∃ a ∈ spans, a.IsValid ∧ a.start = p} (Span.coverAll spans).start ∧
      IsGreatest {p | ∃ a ∈ spans, a.IsValid ∧ a.stop = p} (Span.coverAll spans).stop ∧
      (∀ spans', spans'.Perm spans → Span.coverAll spans' = Span.coverAll spans ∧
        ∀ g : Span.Grouping, g.parts = spans' ∨ g.parts = Span.nowhere :: spans' →
          g.cover = Span.coverAll spans) ∧
      ∀ s t u : Span, (s.cover t).cover u = s.cover (t.cover u) := by
  have hcover := Span.isCover_coverAll spans
  have hvalid : (Span.coverAll spans).IsValid := hcover.isValid_iff.2 h
  refine ⟨hcover.isLeastAround hvalid, hcover.isLeast hvalid, hcover.isGreatest hvalid, ?_,
    Span.cover_assoc⟩
  intro spans' hperm
  have hmem : ∀ a, a ∈ spans ↔ a ∈ spans' := fun a => hperm.mem_iff.symm
  refine ⟨?_, fun g hg => ?_⟩
  · exact (hcover.eq_of_mem_iff (Span.isCover_coverAll spans') (fun a _ => hmem a) hvalid).symm
  · refine (hcover.eq_of_mem_iff g.isCover (fun a ha => ?_) hvalid).symm
    rw [hmem a]
    rcases hg with hg | hg
    · rw [hg]
    · have hne : a ≠ Span.nowhere := by
        rintro rfl
        exact absurd ha (by decide)
      rw [hg, List.mem_cons, or_iff_right hne]

/-- Two spans on different lines and one with columns but without a line, in another order and
grouped from the right. -/
theorem coverAll_independent_lines :
    (∃ a ∈ [⟨⟨0, 7⟩, ⟨9, 9⟩⟩, ⟨⟨2, 1⟩, ⟨2, 3⟩⟩, (⟨⟨1, 5⟩, ⟨1, 8⟩⟩ : Span)], a.IsValid) ∧
      (Span.Grouping.pair (.single ⟨⟨1, 5⟩, ⟨1, 8⟩⟩)
        (.pair (.single ⟨⟨0, 7⟩, ⟨9, 9⟩⟩) (.single ⟨⟨2, 1⟩, ⟨2, 3⟩⟩))).cover =
          Span.coverAll [⟨⟨0, 7⟩, ⟨9, 9⟩⟩, ⟨⟨2, 1⟩, ⟨2, 3⟩⟩, ⟨⟨1, 5⟩, ⟨1, 8⟩⟩] := by
  have hplaced : ∃ a ∈ [⟨⟨0, 7⟩, ⟨9, 9⟩⟩, ⟨⟨2, 1⟩, ⟨2, 3⟩⟩, (⟨⟨1, 5⟩, ⟨1, 8⟩⟩ : Span)],
      a.IsValid := by decide
  obtain ⟨-, -, -, hperm, -⟩ := coverAll_independent hplaced
  obtain ⟨-, hgroupings⟩ := hperm
    [⟨⟨1, 5⟩, ⟨1, 8⟩⟩, ⟨⟨0, 7⟩, ⟨9, 9⟩⟩, ⟨⟨2, 1⟩, ⟨2, 3⟩⟩] (by decide)
  exact ⟨hplaced, hgroupings _ (.inl rfl)⟩

end ConcreteSyntax
