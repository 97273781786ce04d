import ConcreteSyntax.Proofs.LexemePlaces

/-!
# Texts joined by a line feed

A line feed ends every lexeme and every comment, so scanning carries nothing over it. The
lexemes of two texts with a line feed between them are those of the first text, without its
end, and those of the second one, moved down by the lines and on by the bytes of the first.
-/

namespace ConcreteSyntax

/-! ## Places further down -/

/-- The position a number of lines further down, in the same column. -/
def Position.down (p : Position) (lines : Nat) : Position := ⟨p.line + lines, p.column⟩

/-- Reading a character commutes with moving down. -/
theorem Position.after_down (p : Position) (lines : Nat) (c : Char) :
    (p.down lines).after c = (p.after c).down lines := by
  unfold after down
  split
  · rw [Nat.add_right_comm]
  · rfl

/-- Reading characters commutes with moving down. -/
theorem Position.foldl_after_down (cs : List Char) (p : Position) (lines : Nat) :
    cs.foldl after (p.down lines) = (cs.foldl after p).down lines := by
  induction cs generalizing p with
  | nil => rfl
  | cons c cs ih => rw [List.foldl_cons, List.foldl_cons, after_down, ih]

/-- Reading characters goes down a line for each line feed. -/
theorem Position.line_foldl_after (cs : List Char) (p : Position) :
    (cs.foldl after p).line = p.line + cs.count '\n' := by
  induction cs generalizing p with
  | nil => rfl
  | cons c cs ih =>
    rw [List.foldl_cons, ih]
    unfold after
    by_cases hc : c = '\n'
    · rw [if_pos hc, hc, List.count_cons_self, Nat.add_right_comm]
      rfl
    · rw [if_neg hc, List.count_cons_of_ne hc]

/-- The lexeme a number of lines further down and a number of bytes further on. -/
def Lexeme.down (l : Lexeme) (lines bytes : Nat) : Lexeme :=
  { l with start := l.start.down lines, offset := l.offset + bytes }

namespace TextCursor

/-- The cursor a number of lines further down and a number of bytes further on. -/
def down (c : TextCursor) (lines bytes : Nat) : TextCursor :=
  { c with position := c.position.down lines, offset := c.offset + bytes }

variable (c : TextCursor) (lines bytes : Nat)

/-- Reading commutes with moving down. -/
theorem move_down (n : Nat) : (c.down lines bytes).move n = (c.move n).down lines bytes := by
  simp only [move, down, Position.foldl_after_down, Nat.add_right_comm]

/-- Scanning a lexeme commutes with moving down. -/
theorem next_down : (c.down lines bytes).next =
    (c.next.1.down lines bytes, c.next.2.down lines bytes) := by
  have hgap : (c.down lines bytes).skipGap = c.skipGap.down lines bytes := c.move_down _ _ _
  unfold next
  rw [hgap]
  simp only [move_down]
  rfl

/-- Scanning lexemes commutes with moving down. -/
theorem lexemesWithin_down (bound : Nat) : lexemesWithin bound (c.down lines bytes) =
    (lexemesWithin bound c).map fun l => l.down lines bytes := by
  induction bound generalizing c with
  | zero =>
    simp only [lexemesWithin, next_down]
    rfl
  | succ bound ih =>
    have hkind : (c.next.1.down lines bytes).kind = c.next.1.kind := rfl
    simp only [lexemesWithin, next_down, hkind, ih]
    split <;> rfl

/-- Scanning all lexemes commutes with moving down. -/
theorem lexemes_down : (c.down lines bytes).lexemes =
    c.lexemes.map fun l => l.down lines bytes :=
  c.lexemesWithin_down lines bytes _

end TextCursor

/-! ## Scanning lexeme by lexeme -/

namespace TextCursor

variable {c : TextCursor}

/-- A lexeme takes characters from a text that has any. -/
theorem length_next_lt (h : c.skipGap.rest ≠ []) : c.next.2.rest.length < c.rest.length := by
  obtain ⟨-, -, hrest, hne⟩ := next_of_skipGap_ne_nil h
  have hgap : c.skipGap.rest.length ≤ c.rest.length := by simp [skipGap, move]
  have hpos := List.length_pos_iff.2 hne
  rw [hrest, List.length_append] at hgap
  omega

/-- Every bound that is no less than the number of characters gives the same lexemes. -/
theorem lexemesWithin_eq {bound bound' : Nat} (h : c.rest.length ≤ bound)
    (h' : c.rest.length ≤ bound') : lexemesWithin bound c = lexemesWithin bound' c := by
  have hend : ∀ {c : TextCursor} (bound : Nat), c.skipGap.rest = [] →
      lexemesWithin bound c = [c.next.1] := by
    intro c bound hnil
    have hkind : c.next.1.kind = .eof := congrArg Word.kind (next_of_skipGap_eq_nil hnil).1
    cases bound with
    | zero => rfl
    | succ bound => simp [lexemesWithin, hkind]
  induction bound generalizing c bound' with
  | zero =>
    have hrest : c.rest = [] := List.length_eq_zero_iff.1 (Nat.le_zero.1 h)
    have hnil : c.skipGap.rest = [] := by simp [skipGap, move, hrest]
    rw [hend 0 hnil, hend bound' hnil]
  | succ bound ih =>
    by_cases hnil : c.skipGap.rest = []
    · rw [hend _ hnil, hend _ hnil]
    · have hshort := length_next_lt hnil
      obtain ⟨bound', rfl⟩ : ∃ b, bound' = b + 1 := ⟨bound' - 1, by omega⟩
      have hothers : lexemesWithin bound c.next.2 = lexemesWithin bound' c.next.2 :=
        ih (by omega) (by omega)
      simp only [lexemesWithin, hothers]

/-- Where only a gap is left, the end of the text is the only lexeme. -/
theorem lexemes_of_eq_nil (h : c.skipGap.rest = []) : c.lexemes = [c.next.1] := by
  have hkind : c.next.1.kind = .eof := congrArg Word.kind (next_of_skipGap_eq_nil h).1
  unfold lexemes
  rw [lexemesWithin_eq (Nat.le_refl _) (Nat.le_succ _)]
  simp [lexemesWithin, hkind]

/-- Where more than a gap is left, there is a lexeme and then those behind it. -/
theorem lexemes_of_ne_nil (h : c.skipGap.rest ≠ []) :
    c.lexemes = c.next.1 :: c.next.2.lexemes := by
  obtain ⟨hlex, -⟩ := next_of_skipGap_ne_nil h
  have hkind : c.next.1.kind ≠ .eof := (Word.isLexeme_iff.1 hlex).1
  have hshort := length_next_lt h
  unfold lexemes
  rw [lexemesWithin_eq (Nat.le_refl _) (Nat.le_succ _)]
  simp only [lexemesWithin, if_neg hkind]
  rw [lexemesWithin_eq (Nat.le_of_lt hshort) (Nat.le_refl _)]

/-- There is always a lexeme. -/
theorem lexemes_ne_nil (c : TextCursor) : c.lexemes ≠ [] := by
  by_cases h : c.skipGap.rest = []
  · rw [lexemes_of_eq_nil h]
    exact List.cons_ne_nil _ _
  · rw [lexemes_of_ne_nil h]
    exact List.cons_ne_nil _ _

/-- What is scanned depends on what is behind the gap only. -/
theorem lexemes_congr {c' : TextCursor} (h : c.skipGap = c'.skipGap) :
    c.lexemes = c'.lexemes := by
  have hnext : c.next = c'.next := by
    unfold next
    rw [h]
  by_cases hnil : c.skipGap.rest = []
  · have hnil' : c'.skipGap.rest = [] := h ▸ hnil
    rw [lexemes_of_eq_nil hnil, lexemes_of_eq_nil hnil', hnext]
  · have hnil' : c'.skipGap.rest ≠ [] := h ▸ hnil
    rw [lexemes_of_ne_nil hnil, lexemes_of_ne_nil hnil', hnext]

end TextCursor

/-! ## A line feed inside a text -/

/-- A gap is no longer than the text. -/
theorem gapLength_le (inside : Bool) (cs : List Char) : gapLength inside cs ≤ cs.length := by
  induction cs generalizing inside with
  | nil => cases inside <;> exact Nat.le_refl 0
  | cons c cs ih =>
    have hcomment := ih true
    have hblank := ih false
    cases inside with
    | true =>
      have hrest := ih (c != '\n')
      simp only [gapLength, List.length_cons]
      omega
    | false =>
      simp only [gapLength, List.length_cons]
      split
      · omega
      · split <;> omega

/-- A gap ends before a line feed, or it goes on behind it, outside of a comment. -/
theorem gapLength_line (inside : Bool) (xs ys : List Char) :
    gapLength inside (xs ++ '\n' :: ys) =
      if gapLength inside xs = xs.length then xs.length + 1 + gapLength false ys
      else gapLength inside xs := by
  induction xs generalizing inside with
  | nil =>
    have hsign : ('\n' == '#') = false := by decide
    have hblank : isBlank '\n' = true := by decide
    have hline : ('\n' != '\n') = false := by decide
    cases inside with
    | true => simp [gapLength, Nat.add_comm]
    | false => simp [gapLength, hblank, Nat.add_comm]
  | cons c xs ih =>
    have hstep : ∀ flag, gapLength flag (xs ++ '\n' :: ys) + 1 =
        if gapLength flag xs + 1 = xs.length + 1 then xs.length + 1 + 1 + gapLength false ys
        else gapLength flag xs + 1 := by
      intro flag
      rw [ih flag]
      split
      · next heq =>
        rw [if_pos (congrArg (· + 1) heq)]
        omega
      · next hne => rw [if_neg fun h => hne (Nat.succ.inj h)]
    cases inside with
    | true =>
      simp only [List.cons_append, gapLength, List.length_cons]
      exact hstep (c != '\n')
    | false =>
      by_cases hsign : c = '#'
      · simp only [List.cons_append, gapLength, hsign, BEq.rfl, if_true, List.length_cons]
        exact hstep true
      · by_cases hblank : isBlank c = true
        · simp only [List.cons_append, gapLength, beq_eq_false_iff_ne.2 hsign, hblank, if_true,
            List.length_cons, Bool.false_eq_true, if_false]
          exact hstep false
        · simp [gapLength, hsign, hblank]

namespace TextCursor

/-- The cursor with another text ahead. -/
def withRest (c : TextCursor) (rest : List Char) : TextCursor := { c with rest }

/-- Reading within the front of a text does not depend on what follows. -/
theorem move_withRest {c : TextCursor} {xs ys : List Char} (hc : c.rest = xs ++ ys) {n : Nat}
    (hn : n ≤ xs.length) : (c.withRest xs).move n = (c.move n).withRest (xs.drop n) := by
  simp only [move, withRest, hc, List.take_append_of_le_length hn]

/-- A lexeme in front of a line feed is scanned as if the text ended there. -/
theorem next_withRest {c : TextCursor} {xs ys : List Char} (hc : c.rest = xs ++ '\n' :: ys)
    (hgap : gapLength false xs < xs.length) :
    ∃ n, n ≤ xs.length ∧ gapLength false xs < n ∧ (c.withRest xs).next.1 = c.next.1 ∧
      c.next.2 = c.move n ∧ (c.withRest xs).next.2 = c.next.2.withRest (xs.drop n) := by
  obtain ⟨d, ds, hds⟩ : ∃ d ds, xs.drop (gapLength false xs) = d :: ds :=
    List.exists_cons_of_ne_nil (mt List.drop_eq_nil_iff.1 (by omega))
  have hlength : (xs.drop (gapLength false xs)).length = xs.length - gapLength false xs :=
    List.length_drop
  have hskip : c.skipGap = c.move (gapLength false xs) := by
    rw [skipGap, hc, gapLength_line, if_neg (Nat.ne_of_lt hgap)]
  have hrest : c.skipGap.rest = d :: ds ++ '\n' :: ys := by
    rw [hskip, move, hc, List.drop_append_of_le_length (Nat.le_of_lt hgap), hds]
  have hskip' : (c.withRest xs).skipGap = c.skipGap.withRest (d :: ds) := by
    rw [hskip, ← hds]
    exact move_withRest hc (Nat.le_of_lt hgap)
  have hsep : Separated ('\n' :: ys) := by
    rintro _ ⟨⟩
    decide
  obtain ⟨k, n, hfront, -, hle, -⟩ := frontLexeme_take d ds
  have hfront' : frontLexeme (d :: ds ++ '\n' :: ys) = (k, n + 1) := by
    rw [hsep.frontLexeme_append, hfront]
  have hnext : c.next = (⟨k, String.ofList ((d :: ds).take (n + 1)), c.skipGap.position,
      c.skipGap.offset⟩, c.skipGap.move (n + 1)) := by
    unfold next
    simp only [hrest, hfront', List.take_append_of_le_length hle]
  have hnext' : (c.withRest xs).next = (⟨k, String.ofList ((d :: ds).take (n + 1)),
      c.skipGap.position, c.skipGap.offset⟩, (c.skipGap.withRest (d :: ds)).move (n + 1)) := by
    unfold next
    rw [hskip']
    simp only [withRest, hfront]
  refine ⟨gapLength false xs + (n + 1), ?_, by omega, ?_, ?_, ?_⟩
  · rw [← hds, hlength] at hle
    omega
  · rw [hnext, hnext']
  · rw [hnext, hskip, move_move]
  · rw [hnext, hnext', move_withRest hrest hle, ← hds, List.drop_drop]

/-- Scanning carries nothing over a line feed: the lexemes are those in front of it, as if the
text ended there, and those behind it. The recursion runs over the text in front. -/
theorem lexemes_line {c : TextCursor} {xs ys : List Char} (hc : c.rest = xs ++ '\n' :: ys) :
    c.lexemes = (c.withRest xs).lexemes.dropLast ++ (c.move (xs.length + 1)).lexemes := by
  induction hlength : xs.length using Nat.strong_induction_on generalizing c xs with
  | _ length ih =>
    subst hlength
    by_cases hgap : gapLength false xs = xs.length
    · have hfront : (c.withRest xs).skipGap.rest = [] := by
        rw [skipGap, move]
        exact List.drop_eq_nil_of_le (Nat.le_of_eq hgap.symm)
      have hbehind : (c.move (xs.length + 1)).rest = ys := by
        simp [move, hc]
      have hskip : c.skipGap = (c.move (xs.length + 1)).skipGap := by
        rw [skipGap, skipGap, hbehind, hc, gapLength_line, if_pos hgap, move_move]
      rw [lexemes_of_eq_nil hfront, lexemes_congr hskip]
      rfl
    · have hless : gapLength false xs < xs.length :=
        Nat.lt_of_le_of_ne (gapLength_le false xs) hgap
      obtain ⟨n, hn, hpos, hfirst, hmove, hfront⟩ := next_withRest hc hless
      have hrest : c.next.2.rest = xs.drop n ++ '\n' :: ys := by
        rw [hmove, move, hc, List.drop_append_of_le_length hn]
      have hlength : (xs.drop n).length = xs.length - n := List.length_drop
      have hothers := ih (xs.drop n).length (by omega) hrest rfl
      have hbehind : c.next.2.move ((xs.drop n).length + 1) = c.move (xs.length + 1) := by
        rw [hmove, move_move, hlength]
        congr 1
        omega
      have hne : c.skipGap.rest ≠ [] := by
        rw [skipGap, move, hc, gapLength_line, if_neg hgap,
          List.drop_append_of_le_length (gapLength_le false xs)]
        simp
      have hne' : (c.withRest xs).skipGap.rest ≠ [] := by
        rw [skipGap, move]
        exact mt List.drop_eq_nil_iff.1 (by exact Nat.not_le.2 hless)
      rw [lexemes_of_ne_nil hne, lexemes_of_ne_nil hne', hothers, hbehind, hfirst, hfront,
        List.dropLast_cons_of_ne_nil (lexemes_ne_nil _), List.cons_append]

end TextCursor

/-- The lexemes of two texts with a line feed between them are those of the first text without
its end, and those of the second one further down. -/
theorem scan_line (a b : String) : scan (a ++ "\n" ++ b) = (scan a).dropLast ++
    (scan b).map fun l => l.down (a.toList.count '\n' + 1) (a.utf8ByteSize + 1) := by
  have hrest : (TextCursor.ofText (a ++ "\n" ++ b)).rest = a.toList ++ '\n' :: b.toList := by
    have hline : "\n".toList = ['\n'] := rfl
    simp [TextCursor.ofText, hline]
  have hfront : (TextCursor.ofText (a ++ "\n" ++ b)).withRest a.toList = .ofText a := rfl
  have htake : (a.toList ++ '\n' :: b.toList).take (a.toList.length + 1) = a.toList ++ ['\n'] := by
    rw [List.take_append, Nat.add_sub_cancel_left, List.take_of_length_le (Nat.le_succ _)]
    rfl
  have hdrop : (a.toList ++ '\n' :: b.toList).drop (a.toList.length + 1) = b.toList := by
    rw [List.drop_append, Nat.add_sub_cancel_left, List.drop_of_length_le (Nat.le_succ _)]
    rfl
  have hposition : (a.toList ++ ['\n']).foldl Position.after .first =
      Position.first.down (a.toList.count '\n' + 1) := by
    have hline := Position.line_foldl_after a.toList .first
    rw [List.foldl_append, List.foldl_cons, List.foldl_nil, Position.after, if_pos rfl, hline]
    rfl
  have hbytes : byteCount (a.toList ++ ['\n']) = a.utf8ByteSize + 1 := by
    rw [TextCursor.byteCount_append, byteCount_toList]
    rfl
  have hbehind : (TextCursor.ofText (a ++ "\n" ++ b)).move (a.toList.length + 1) =
      (TextCursor.ofText b).down (a.toList.count '\n' + 1) (a.utf8ByteSize + 1) := by
    rw [TextCursor.move, hrest, htake, hdrop, hbytes]
    have hfirst : (TextCursor.ofText (a ++ "\n" ++ b)).position = .first := rfl
    rw [hfirst, hposition]
    rfl
  unfold scan
  rw [TextCursor.lexemes_line hrest, hfront, hbehind, TextCursor.lexemes_down]

end ConcreteSyntax
