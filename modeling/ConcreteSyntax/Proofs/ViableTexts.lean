import ConcreteSyntax.Proofs.LongestLexemes
import ConcreteSyntax.Proofs.SameKinds
import ConcreteSyntax.Proofs.LexemeReadings
import ConcreteSyntax.Proofs.ViableFiles

/-!
# Completing the text before an error

A text that is cut in front of a lexeme has the lexemes before it. Nothing in front of the cut
is scanned differently, since each of those lexemes ends before it. Kinds of tokens that can be
written are written as words of these kinds. Behind a line feed such words complete the text in
front of the token at which a file fails, so an error is not met later than at the first token
with which no file goes on.
-/

namespace ConcreteSyntax

open TokenParser

/-! ## Texts that are cut in front of a lexeme -/

/-- In a front of a text the gap is the one of the text, as far as the front goes. -/
theorem gapLength_front (inside : Bool) (xs ys : List Char) :
    gapLength inside xs = min (gapLength inside (xs ++ ys)) xs.length := by
  induction xs generalizing inside with
  | nil => cases inside <;> simp [gapLength]
  | cons c xs ih =>
    have hcomment := ih true
    have hblank := ih false
    cases inside with
    | true =>
      have hrest := ih (c != '\n')
      simp only [List.cons_append, gapLength, List.length_cons]
      omega
    | false =>
      simp only [List.cons_append, gapLength, List.length_cons]
      split
      · omega
      · split <;> omega

namespace TextCursor

variable {c : TextCursor} {xs ys : List Char}

/-- The next lexeme ends inside the text. -/
theorem length_next_le (hne : c.skipGap.rest ≠ []) :
    gapLength false c.rest + (frontLexeme c.skipGap.rest).2 ≤ c.rest.length ∧
      0 < (frontLexeme c.skipGap.rest).2 := by
  have hskip : c.skipGap.rest.length = c.rest.length - gapLength false c.rest := List.length_drop
  have hgap := gapLength_le false c.rest
  obtain ⟨d, ds, hds⟩ := List.exists_cons_of_ne_nil hne
  obtain ⟨k, n, hfront, -, hle, -⟩ := frontLexeme_take d ds
  rw [hds] at hskip ⊢
  rw [hfront]
  exact ⟨by omega, Nat.succ_pos n⟩

/-- A lexeme that ends inside the front is the next one of the front. -/
theorem next_front (hc : c.rest = xs ++ ys) (hne : c.skipGap.rest ≠ [])
    (hle : gapLength false c.rest + (frontLexeme c.skipGap.rest).2 ≤ xs.length) :
    ∃ us, c.next.2.rest = us ++ ys ∧ (c.withRest xs).skipGap.rest ≠ [] ∧
      (c.withRest xs).next = (c.next.1, c.next.2.withRest us) := by
  obtain ⟨-, hpos⟩ := length_next_le hne
  generalize hg : gapLength false c.rest = g at hle
  have hskip : c.skipGap = c.move g := by rw [skipGap, hg]
  have hgap : gapLength false xs = g := by
    rw [gapLength_front false xs ys, ← hc, hg]
    omega
  have hlength : (xs.drop g).length = xs.length - g := List.length_drop
  have hrest : c.skipGap.rest = xs.drop g ++ ys := by
    rw [hskip, move, hc, List.drop_append_of_le_length (by omega)]
  have hskip' : (c.withRest xs).skipGap = c.skipGap.withRest (xs.drop g) := by
    rw [skipGap, withRest, hgap, hskip]
    exact move_withRest hc (by omega)
  have hnil : xs.drop g ≠ [] := List.length_pos_iff.1 (by omega)
  have hfront : frontLexeme (xs.drop g) = frontLexeme c.skipGap.rest := by
    rw [hrest] at hle ⊢
    exact (frontLexeme_of_append hnil (by omega)).symm
  generalize hm : (frontLexeme c.skipGap.rest).2 = m at hle
  have htake : (xs.drop g).take m = c.skipGap.rest.take m := by
    rw [hrest, List.take_append_of_le_length (by omega)]
  have hnext : c.next = (⟨(frontLexeme c.skipGap.rest).1, String.ofList (c.skipGap.rest.take m),
      c.skipGap.position, c.skipGap.offset⟩, c.skipGap.move m) := by
    rw [← hm]
    rfl
  have hnext' : (c.withRest xs).next = (⟨(frontLexeme (xs.drop g)).1,
      String.ofList ((xs.drop g).take (frontLexeme (xs.drop g)).2), c.skipGap.position,
      c.skipGap.offset⟩, (c.skipGap.withRest (xs.drop g)).move (frontLexeme (xs.drop g)).2) := by
    rw [next, hskip']
    rfl
  refine ⟨(xs.drop g).drop m, ?_, hskip' ▸ hnil, ?_⟩
  · rw [hnext, move, hrest, List.drop_append_of_le_length (by omega)]
  · rw [hnext', hfront, hm, htake, hnext, move_withRest hrest (by omega)]

/-- The lexemes in front of a cut are those of the text in front of it. The induction is on
their number. -/
theorem lexemes_front {i : Nat} (hc : c.rest = xs ++ ys) (hi : i < c.lexemes.length)
    (h : (c.afterLexemes i).skipGap.rest = ys) :
    (c.withRest xs).lexemes.dropLast = c.lexemes.take i := by
  induction i generalizing c xs with
  | zero =>
    have hgap : gapLength false xs = xs.length := by
      have hlength : c.rest.length - gapLength false c.rest = ys.length := by
        rw [← h]
        exact List.length_drop.symm
      have hle := gapLength_le false c.rest
      have hwhole : c.rest.length = xs.length + ys.length := by rw [hc, List.length_append]
      rw [gapLength_front false xs ys, ← hc]
      omega
    have hnil : (c.withRest xs).skipGap.rest = [] := by
      rw [skipGap, move]
      exact List.drop_eq_nil_of_le (Nat.le_of_eq hgap.symm)
    rw [lexemes_of_eq_nil hnil]
    rfl
  | succ i ih =>
    have hne : c.skipGap.rest ≠ [] := by
      intro hnil
      rw [lexemes_of_eq_nil hnil] at hi
      simp at hi
    rw [lexemes_of_ne_nil hne] at hi ⊢
    have hle : gapLength false c.rest + (frontLexeme c.skipGap.rest).2 ≤ xs.length := by
      obtain ⟨n, hn⟩ := c.next.2.exists_afterLexemes_eq_move i
      have hlength := congrArg List.length h
      rw [afterLexemes, hn, skipGap, next_snd, move_move, move_move, move,
        List.length_drop] at hlength
      have hbound := (length_next_le hne).1
      have hwhole : c.rest.length = xs.length + ys.length := by rw [hc, List.length_append]
      omega
    obtain ⟨us, hrest, hne', hnext⟩ := next_front hc hne hle
    have hothers := ih hrest (Nat.lt_of_succ_lt_succ hi) h
    rw [lexemes_of_ne_nil hne', hnext, List.dropLast_cons_of_ne_nil (lexemes_ne_nil _), hothers,
      List.take_succ_cons]

end TextCursor

/-- A text that is cut in front of a lexeme has the lexemes before it. -/
theorem exists_front_of_scan {text : String} {i : Nat} {l : Lexeme}
    (h : (scan text)[i]? = some l) : ∃ before after : String, text = before ++ after ∧
      before.utf8ByteSize = l.offset ∧ (scan before).dropLast = (scan text).take i := by
  obtain ⟨hnext, -⟩ := TextCursor.getElem?_lexemes h
  obtain ⟨front, hfront⟩ := (TextCursor.standsBehind_ofText text).afterLexemes i
  have hskip := hfront.next.1
  generalize front ++ _ = used at hskip
  have htext : (TextCursor.ofText text).withRest used = .ofText (String.ofList used) := by
    simp only [TextCursor.ofText, TextCursor.withRest, String.toList_ofList]
  let after := ((TextCursor.ofText text).afterLexemes i).skipGap.rest
  refine ⟨String.ofList used, String.ofList after, ?_, ?_, ?_⟩
  · rw [← String.ofList_append, ← hskip.text_eq, String.ofList_toList]
  · rw [hnext, ← byteCount_toList, String.toList_ofList, ← hskip.offset_eq]
    rfl
  · have hi := (List.getElem?_eq_some_iff.1 h).1
    have hlexemes := TextCursor.lexemes_front hskip.text_eq hi rfl
    rw [htext] at hlexemes
    exact hlexemes

/-! ## Words of a kind -/

/-- A word of a kind: its spelling, or a name or a number. -/
def TokenKind.sample (k : TokenKind) : Word :=
  ⟨k, k.spelling?.getD (if k = .ident then "x" else "0")⟩

/-- A kind that can be written has a word that is a lexeme. -/
theorem TokenKind.isLexeme_sample (k : TokenKind) :
    k ≠ .eof ∧ k ≠ .invalid → k.sample.isLexeme = true :=
  TokenKind.forall_of_all (p := fun k => k ≠ .eof ∧ k ≠ .invalid → k.sample.isLexeme = true)
    (by decide +kernel) k

/-- Kinds that can be written are those of the lexemes of a text, up to its end. -/
theorem Writable.map_kind_scan {w : List TokenKind} (hw : Writable w) :
    (scan (Word.join (w.map TokenKind.sample))).dropLast.map Lexeme.kind = w := by
  have hlex : ∀ v ∈ w.map TokenKind.sample, v.isLexeme = true :=
    List.forall_mem_map.2 fun k hk => k.isLexeme_sample (hw k hk)
  have hscan := congrArg (List.map Word.kind) (congrArg List.dropLast (scan_join hlex))
  rw [List.dropLast_concat, ← List.map_dropLast, List.map_map, List.map_map] at hscan
  exact hscan.trans (List.map_id w)

/-! ## Completed texts -/

/-- A text is accepted if the kinds of its lexemes before the end are those of a file. -/
theorem isOk_parseText_of_kinds {dialect : Dialect} {text : String} {t : Tree TokenKind}
    {rest : List TokenKind}
    (h : parseTokens dialect ((scan text).dropLast.map Lexeme.kind) = .done t rest)
    (symbols : SymbolTable) : (parseText symbols dialect text).1.isOk = true := by
  have hkind : ∀ l : Lexeme, kind (Lexeme.kind l) = kind l := fun _ => rfl
  rw [parseTokens_map hkind] at h
  rw [isOk_parseText, readLexemes]
  cases hp : parseTokens dialect (scan text).dropLast with
  | done t rest => rfl
  | failed e rest =>
    rw [hp] at h
    contradiction

/-- The kinds of the lexemes of two texts with a line feed between them are those of both. -/
theorem map_kind_scan_line (a b : String) :
    (scan (a ++ "\n" ++ b)).dropLast.map Lexeme.kind =
      (scan a).dropLast.map Lexeme.kind ++ (scan b).dropLast.map Lexeme.kind := by
  have hne : (scan b).map (fun l => l.down (a.toList.count '\n' + 1) (a.utf8ByteSize + 1)) ≠ [] :=
    mt List.map_eq_nil_iff.1 (TextCursor.lexemes_ne_nil _)
  rw [scan_line, List.dropLast_append_of_ne_nil hne, List.map_append, ← List.map_dropLast,
    List.map_map]
  rfl

/-- Where a file fails, the text in front of the token that was found can be completed: with some
text behind it and a line feed between them it is accepted, whatever table holds its
spellings. -/
theorem exists_completion_of_error {symbols : SymbolTable} {dialect : Dialect} {text : String}
    {e : SyntaxError} (h : (parseText symbols dialect text).1 = .error e) :
    ∃ before after w : String, text = before ++ after ∧
      before.utf8ByteSize = e.found.offset ∧
      ∀ symbols', (parseText symbols' dialect (before ++ "\n" ++ w)).1.isOk = true := by
  obtain ⟨used, rest, finish, failure, hbuffer, hp, -, hhead⟩ := exists_failed_of_parseText h
  have hkind : ∀ t : Token, kind (kind t) = kind t := fun _ => rfl
  have hkinds := parseTokens_map hkind dialect (used ++ rest)
  rw [hp] at hkinds
  obtain ⟨front, w, t, hfront, hw, hdone⟩ := exists_done_of_parseTokens hkinds
  obtain rfl : used.map kind = front := by
    rw [List.map_append] at hfront
    exact List.append_cancel_right hfront
  have hfound : (tokenize symbols text).1[used.length]? = some e.found := by
    rw [hbuffer, List.append_assoc, List.getElem?_append_right (Nat.le_refl _), Nat.sub_self, hhead]
    cases rest <;> rfl
  obtain ⟨before, after, htext, hsize, hlexemes⟩ := exists_front_of_scan (getElem?_scan hfound)
  have hbefore : (scan before).dropLast.map Lexeme.kind = used.map kind := by
    rw [hlexemes, ← map_lexeme_tokenize symbols text, hbuffer, List.append_assoc, ← List.map_take,
      List.take_left, List.map_map]
    rfl
  have hcompleted : parseTokens dialect ((scan (before ++ "\n" ++
      Word.join (w.map TokenKind.sample))).dropLast.map Lexeme.kind) = .done t [] := by
    rw [map_kind_scan_line, hbefore, hw.map_kind_scan, hdone]
  exact ⟨before, after, _, htext, hsize, isOk_parseText_of_kinds hcompleted⟩

/-- A file that fails inside a bracket can be completed, whatever the bracket turns out to be. -/
theorem exists_completion_of_error_bracket : ∃ e,
    (parseText (.empty 0) .standard "f: int = [x: int -> y;").1 = .error e ∧
    ∃ before after w : String, "f: int = [x: int -> y;" = before ++ after ∧
      before.utf8ByteSize = e.found.offset ∧
      ∀ symbols', (parseText symbols' .standard (before ++ "\n" ++ w)).1.isOk = true := by
  obtain ⟨e, he⟩ := exists_error_of_isOk (.empty 0) .standard "f: int = [x: int -> y;"
    (by decide +kernel)
  exact ⟨e, he, exists_completion_of_error he⟩

end ConcreteSyntax
