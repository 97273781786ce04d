import ConcreteSyntax.SourcePositions
import Mathlib.Data.List.TakeWhile

/-!
# Spans told by how they are written

Numbers are written in decimal digits, and between two numbers of a span stands a mark that is no
digit. The mark also tells which of the three forms of a span is written: within a line, as a point
or with a dash, or over lines with two dots. So a span that has a place is told by its written form,
also where a column is left out.
-/

namespace ConcreteSyntax

/-- Characters that pass a test are told from a text behind them that does not begin with such a
character. -/
theorem append_inj_of_head {p : Char → Bool} {front front' behind behind' : List Char}
    (hfront : ∀ c ∈ front, p c = true) (hfront' : ∀ c ∈ front', p c = true)
    (hbehind : ∀ c ∈ behind.head?, p c = false) (hbehind' : ∀ c ∈ behind'.head?, p c = false)
    (h : front ++ behind = front' ++ behind') : front = front' ∧ behind = behind' := by
  have htake : ∀ {front behind : List Char}, (∀ c ∈ front, p c = true) →
      (∀ c ∈ behind.head?, p c = false) → (front ++ behind).takeWhile p = front := by
    intro front behind hfront hbehind
    rw [List.takeWhile_append_of_pos hfront]
    cases behind with
    | nil => exact List.append_nil front
    | cons c behind => rw [List.takeWhile_cons, hbehind c rfl]; exact List.append_nil front
  have hsame : front = front' := by
    rw [← htake hfront hbehind, h, htake hfront' hbehind']
  subst hsame
  exact ⟨rfl, List.append_cancel_left h⟩

/-- A text without a mark is told from what follows it, if that begins with the mark. -/
theorem append_inj_of_mark {mark : Char} {front front' behind behind' : List Char}
    (hfront : mark ∉ front) (hfront' : mark ∉ front') (hbehind : ∀ c ∈ behind.head?, c = mark)
    (hbehind' : ∀ c ∈ behind'.head?, c = mark) (h : front ++ behind = front' ++ behind') :
    front = front' ∧ behind = behind' := by
  have hplain : ∀ {front : List Char}, mark ∉ front → ∀ c ∈ front, (c != mark) = true :=
    fun hmark c hc => bne_iff_ne.2 fun heq => hmark (heq ▸ hc)
  have hmarked : ∀ {behind : List Char}, (∀ c ∈ behind.head?, c = mark) →
      ∀ c ∈ behind.head?, (c != mark) = false :=
    fun hbehind c hc => bne_eq_false_iff_eq.2 (hbehind c hc)
  exact append_inj_of_head (hplain hfront) (hplain hfront') (hmarked hbehind) (hmarked hbehind') h

/-! ## Numbers -/

/-- The decimal digits of a number. -/
def decimal (n : Nat) : List Char := (toString n).toList

/-- The digits of a number, to the base ten. -/
theorem decimal_eq (n : Nat) : decimal n = Nat.toDigits 10 n := by
  rw [decimal, Nat.toString_eq_repr, Nat.toList_repr]

/-- A number is written in digits. -/
theorem isDigit_of_mem_decimal {n : Nat} {c : Char} (h : c ∈ decimal n) : c.isDigit = true := by
  rw [decimal_eq] at h
  exact Nat.isDigit_of_mem_toDigits (by decide) (by decide) h

/-- A number is told by its digits. -/
theorem decimal_inj {m n : Nat} (h : decimal m = decimal n) : m = n := by
  have hread : ∀ n, Nat.ofDigitChars 10 (decimal n) 0 = n := fun n => by
    rw [decimal_eq, Nat.ofDigitChars_toDigits (by decide) (by decide)]
  rw [← hread m, h, hread n]

/-- A number is told from a text behind it that does not begin with a digit. -/
theorem decimal_append_inj {m n : Nat} {behind behind' : List Char}
    (hbehind : ∀ c ∈ behind.head?, c.isDigit = false)
    (hbehind' : ∀ c ∈ behind'.head?, c.isDigit = false)
    (h : decimal m ++ behind = decimal n ++ behind') : m = n ∧ behind = behind' := by
  obtain ⟨hdigits, hrest⟩ := append_inj_of_head (fun _ => isDigit_of_mem_decimal)
    (fun _ => isDigit_of_mem_decimal) hbehind hbehind' h
  exact ⟨decimal_inj hdigits, hrest⟩

/-! ## Positions -/

namespace Position

/-- Positions in the same line and column are the same. -/
theorem eq_of_line_of_column {p q : Position} (hline : p.line = q.line)
    (hcolumn : p.column = q.column) : p = q := by
  cases p
  cases q
  exact (mk.injEq ..).mpr ⟨hline, hcolumn⟩

/-- The characters of a written position. -/
theorem toList_toText (p : Position) :
    p.toText.toList = decimal p.line ++ if p.column = 0 then [] else ':' :: decimal p.column := by
  rw [toText]
  split
  · rw [List.append_nil, decimal]
  · simp only [String.toList_append, List.append_assoc, decimal]
    rfl

/-- A position is written in digits and a colon. -/
theorem mem_toText {p : Position} {c : Char} (h : c ∈ p.toText.toList) :
    c.isDigit = true ∨ c = ':' := by
  rw [toList_toText, List.mem_append] at h
  rcases h with h | h
  · exact .inl (isDigit_of_mem_decimal h)
  · split at h
    · contradiction
    · exact (List.mem_cons.1 h).symm.imp isDigit_of_mem_decimal id

/-- A position is told by how it is written. -/
theorem toText_inj {p q : Position} (h : p.toText = q.toText) : p = q := by
  have hchars := congrArg String.toList h
  rw [toList_toText, toList_toText] at hchars
  have hmark : ∀ column : Nat, ∀ c ∈ (if column = 0 then [] else ':' :: decimal column).head?,
      c.isDigit = false := by
    intro column c hc
    split at hc
    · contradiction
    · rw [← Option.some.inj hc]
      decide
  obtain ⟨hline, hcolumn⟩ := decimal_append_inj (hmark p.column) (hmark q.column) hchars
  refine eq_of_line_of_column hline ?_
  split at hcolumn
  · next hzero =>
    split at hcolumn
    · next hzero' => rw [hzero, hzero']
    · contradiction
  · split at hcolumn
    · contradiction
    · exact decimal_inj (List.cons.inj hcolumn).2

end Position

/-! ## Spans -/

namespace Span

variable {s t : Span}

/-- How a point is written. -/
theorem toList_toText_of_isPoint (h : s.IsPoint) :
    s.toText.toList = decimal s.start.line ++ ':' :: decimal s.start.column := by
  rw [toText, if_neg (not_not.2 h.1), if_pos h]
  simp only [String.toList_append, List.append_assoc, decimal]
  rfl

/-- How a piece of one line is written. -/
theorem toList_toText_of_isSingleLine (h : s.IsSingleLine) (hp : ¬ s.IsPoint) :
    s.toText.toList =
      decimal s.start.line ++ ':' :: (decimal s.start.column ++ '-' :: decimal s.stop.column) := by
  rw [toText, if_neg (not_not.2 h.1), if_neg hp, if_pos h]
  simp only [String.toList_append, List.append_assoc, decimal]
  rfl

/-- How a piece of several lines is written. -/
theorem toList_toText_of_not_isSingleLine (hv : s.IsValid) (h : ¬ s.IsSingleLine) :
    s.toText.toList = s.start.toText.toList ++ '.' :: '.' :: s.stop.toText.toList := by
  have hp : ¬ s.IsPoint := fun hp => h ⟨hv, congrArg Position.line hp.2⟩
  have hdots : "..".toList = ['.', '.'] := rfl
  rw [toText, if_neg (not_not.2 hv), if_neg hp, if_neg h, String.toList_append,
    String.toList_append, hdots, List.append_assoc]
  rfl

/-- The three forms in which a span that has a place is written. -/
theorem forms (s : Span) : s.IsPoint ∨ (s.IsSingleLine ∧ ¬ s.IsPoint) ∨ ¬ s.IsSingleLine := by
  by_cases hline : s.IsSingleLine
  · exact (Classical.em s.IsPoint).imp_right fun hp => .inl ⟨hline, hp⟩
  · exact .inr (.inr hline)

/-- A span that has a place is written in digits, colons, dashes and dots. -/
theorem mem_toText (h : s.IsValid) {c : Char} (hc : c ∈ s.toText.toList) :
    c.isDigit = true ∨ c ∈ [':', '-', '.'] := by
  rcases s.forms with hform | ⟨hform, hp⟩ | hform
  · rw [toList_toText_of_isPoint hform] at hc
    grind [isDigit_of_mem_decimal]
  · rw [toList_toText_of_isSingleLine hform hp] at hc
    grind [isDigit_of_mem_decimal]
  · rw [toList_toText_of_not_isSingleLine h hform] at hc
    grind [Position.mem_toText]

/-- Two dots show that a span is written over several lines. -/
theorem dot_mem_toText (h : s.IsValid) : '.' ∈ s.toText.toList ↔ ¬ s.IsSingleLine := by
  have hdot : ∀ {n}, '.' ∉ decimal n := fun hmem => by
    have hdigit := isDigit_of_mem_decimal hmem
    contradiction
  rcases s.forms with hform | ⟨hform, hp⟩ | hform
  · have hline : s.IsSingleLine := ⟨h, congrArg Position.line hform.2⟩
    simp [toList_toText_of_isPoint hform, hdot, hline]
  · simp [toList_toText_of_isSingleLine hform hp, hdot, hform]
  · simp [toList_toText_of_not_isSingleLine h hform, hform]

/-- A dash shows that a span is written within a line and is no point. -/
theorem dash_mem_toText (h : s.IsValid) :
    '-' ∈ s.toText.toList ↔ s.IsSingleLine ∧ ¬ s.IsPoint := by
  have hdash : ∀ {n}, '-' ∉ decimal n := fun hmem => by
    have hdigit := isDigit_of_mem_decimal hmem
    contradiction
  have hdash' : ∀ {p : Position}, '-' ∉ p.toText.toList := fun hmem => by
    have hchar := Position.mem_toText hmem
    contradiction
  rcases s.forms with hform | ⟨hform, hp⟩ | hform
  · simp [toList_toText_of_isPoint hform, hdash, hform]
  · simp [toList_toText_of_isSingleLine hform hp, hform, hp]
  · simp [toList_toText_of_not_isSingleLine h hform, hdash', hform]

/-- Spans with the same ends are the same. -/
theorem eq_of_start_of_stop (hstart : s.start = t.start) (hstop : s.stop = t.stop) : s = t := by
  cases s
  cases t
  exact (mk.injEq ..).mpr ⟨hstart, hstop⟩

/-- A mark that is no digit stands in front of a text. -/
theorem isDigit_of_mem_head? {mark : Char} {behind : List Char} (h : mark.isDigit = false) :
    ∀ c ∈ (mark :: behind).head?, c.isDigit = false := by
  rintro _ ⟨⟩
  exact h

/-- A point is told by its line and its column. -/
theorem eq_of_isPoint (hs : s.IsPoint) (ht : t.IsPoint) (h : s.toText = t.toText) : s = t := by
  have hchars := congrArg String.toList h
  rw [toList_toText_of_isPoint hs, toList_toText_of_isPoint ht] at hchars
  obtain ⟨hline, hrest⟩ :=
    decimal_append_inj (isDigit_of_mem_head? rfl) (isDigit_of_mem_head? rfl) hchars
  have hcolumn := decimal_inj (List.cons.inj hrest).2
  have hstart := Position.eq_of_line_of_column hline hcolumn
  exact eq_of_start_of_stop hstart (hs.2.symm.trans (hstart.trans ht.2))

/-- A piece of a line is told by its line and its two columns. -/
theorem eq_of_isSingleLine (hs : s.IsSingleLine) (hps : ¬ s.IsPoint) (ht : t.IsSingleLine)
    (hpt : ¬ t.IsPoint) (h : s.toText = t.toText) : s = t := by
  have hchars := congrArg String.toList h
  rw [toList_toText_of_isSingleLine hs hps, toList_toText_of_isSingleLine ht hpt] at hchars
  obtain ⟨hline, hrest⟩ :=
    decimal_append_inj (isDigit_of_mem_head? rfl) (isDigit_of_mem_head? rfl) hchars
  obtain ⟨hcolumn, hrest⟩ := decimal_append_inj (isDigit_of_mem_head? rfl)
    (isDigit_of_mem_head? rfl) (List.cons.inj hrest).2
  have hcolumn' := decimal_inj (List.cons.inj hrest).2
  have hline' : s.stop.line = t.stop.line := by rw [← hs.2, hline, ht.2]
  exact eq_of_start_of_stop (Position.eq_of_line_of_column hline hcolumn)
    (Position.eq_of_line_of_column hline' hcolumn')

/-- A piece of several lines is told by its two ends, which have no dots of their own. -/
theorem eq_of_not_isSingleLine (hs : s.IsValid) (hls : ¬ s.IsSingleLine) (ht : t.IsValid)
    (hlt : ¬ t.IsSingleLine) (h : s.toText = t.toText) : s = t := by
  have hchars := congrArg String.toList h
  rw [toList_toText_of_not_isSingleLine hs hls, toList_toText_of_not_isSingleLine ht hlt] at hchars
  have hplain : ∀ {p : Position}, '.' ∉ p.toText.toList := fun hmem =>
    absurd (Position.mem_toText hmem) (by decide)
  obtain ⟨hstart, hrest⟩ := append_inj_of_mark hplain hplain (by simp) (by simp) hchars
  have hstop := (List.cons.inj (List.cons.inj hrest).2).2
  exact eq_of_start_of_stop (Position.toText_inj (String.toList_inj.1 hstart))
    (Position.toText_inj (String.toList_inj.1 hstop))

/-- A span that has a place is told by how it is written: the marks tell the form. -/
theorem toText_inj (hs : s.IsValid) (ht : t.IsValid) (h : s.toText = t.toText) : s = t := by
  have hsingle : s.IsSingleLine ↔ t.IsSingleLine := by
    rw [← not_iff_not, ← dot_mem_toText hs, ← dot_mem_toText ht, h]
  have hdash : s.IsSingleLine ∧ ¬ s.IsPoint ↔ t.IsSingleLine ∧ ¬ t.IsPoint := by
    rw [← dash_mem_toText hs, ← dash_mem_toText ht, h]
  rcases s.forms with hform | ⟨hform, hp⟩ | hform
  -- neither dots nor a dash are written of a point, so the other span is a point too
  · have hline : s.IsSingleLine := ⟨hs, congrArg Position.line hform.2⟩
    have hform' : t.IsPoint := by
      by_contra hp
      exact (hdash.2 ⟨hsingle.1 hline, hp⟩).2 hform
    exact eq_of_isPoint hform hform' h
  · obtain ⟨hform', hp'⟩ := hdash.1 ⟨hform, hp⟩
    exact eq_of_isSingleLine hform hp hform' hp' h
  · exact eq_of_not_isSingleLine hs hform ht (mt hsingle.2 hform) h

end Span

end ConcreteSyntax
