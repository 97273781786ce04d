import ConcreteSyntax.Proofs.FileReadings

/-!
# Where a reader stands

A reader of a text stands at an index of the buffer of all tokens of the text. The last
token of the buffer, and no other one, marks the end of the text; the reader never passes
it. Reading moves a reader forward or not at all. After a success it stands at the end, and
after a failure at the token that was found. Looking ahead from an index is reading the buffer
at a place that does not pass the last index.
-/

namespace ConcreteSyntax

open TokenParser Grammar

/-- The last token of a text, and no other one, marks the end. -/
theorem tokenize_eq_append (symbols : SymbolTable) (text : String) :
    ∃ ts finish, (tokenize symbols text).1 = ts ++ [finish] ∧ finish.kind = .eof ∧
      ∀ t ∈ ts, t.kind ≠ .eof := by
  obtain ⟨ts, finish, hbuffer, hfinish, hlex, -⟩ := tokenize_spec symbols text
  refine ⟨ts, finish, hbuffer, hfinish, fun t ht => ?_⟩
  exact (Word.isLexeme_iff.1 (hlex t ht)).1

namespace FileReader

/-- That a reader stands at an index of a buffer of tokens. -/
structure StandsAt (r : FileReader) (buffer : List Token) (n : Nat) : Prop where
  /-- The tokens of the reader are those of the buffer. -/
  tokens_eq : r.tokens = buffer
  /-- The next token is the one at the index. -/
  index_eq : r.index = n
  /-- The index belongs to the buffer. -/
  bound : n < buffer.length

/-- Going on changes neither the buffer nor its end. -/
theorem finish_advance (r : FileReader) (count : Nat) : (r.advance count).finish = r.finish := rfl

/-- Behind some of the tokens ahead, the others are ahead. -/
theorem ahead_advance (r : FileReader) (count : Nat) :
    (r.advance count).ahead = r.ahead.drop count := by
  rw [ahead, ahead, List.drop_drop]
  rfl

/-- A reader goes on to where certain tokens are left. -/
theorem ahead_advance_of_suffix {r : FileReader} {rest : List Token} (h : rest <:+ r.ahead) :
    (r.advance (r.ahead.length - rest.length)).ahead = rest := by
  rw [ahead_advance, ← List.suffix_iff_eq_drop.1 h]

namespace StandsAt

variable {r : FileReader} {buffer : List Token} {n : Nat}

/-- The tokens ahead are the buffer from the index on, without its last token. -/
theorem ahead_eq (h : r.StandsAt buffer n) : r.ahead = buffer.dropLast.drop n := by
  rw [ahead, h.tokens_eq, h.index_eq]

/-- The token that marks the end is the last one of the buffer. -/
theorem getLast?_eq (h : r.StandsAt buffer n) : buffer.getLast? = some r.finish := by
  have hne : buffer ≠ [] := List.ne_nil_of_length_pos (Nat.zero_lt_of_lt h.bound)
  rw [finish, h.tokens_eq, List.getLastD_eq_getLast?, List.getLast?_eq_some_getLast hne]
  rfl

/-- From the index on the buffer has the tokens ahead and the end. -/
theorem remaining (h : r.StandsAt buffer n) : buffer.drop n = r.ahead ++ [r.finish] := by
  obtain ⟨ts, hts⟩ := List.getLast?_eq_some_iff.1 h.getLast?_eq
  have hbound := h.bound
  rw [h.ahead_eq, hts, List.dropLast_concat, List.drop_append_of_le_length]
  rw [hts, List.length_append, List.length_singleton] at hbound
  exact Nat.le_of_lt_succ hbound

/-- The tokens before and after the index are all tokens. -/
theorem length_eq (h : r.StandsAt buffer n) : n + r.ahead.length + 1 = buffer.length := by
  have hlength := congrArg List.length h.remaining
  have hbound := h.bound
  rw [List.length_drop, List.length_append, List.length_singleton] at hlength
  omega

/-- Nothing is ahead exactly at the last index. -/
theorem ahead_eq_nil_iff (h : r.StandsAt buffer n) : r.ahead = [] ↔ n + 1 = buffer.length := by
  have hlength := h.length_eq
  rw [← List.length_eq_zero_iff]
  omega

/-- The token at the index is the first one ahead, or the end. -/
theorem getElem?_eq (h : r.StandsAt buffer n) : buffer[n]? = some (r.ahead.headD r.finish) := by
  have hfirst : (buffer.drop n)[0]? = some (r.ahead.headD r.finish) := by
    rw [h.remaining]
    cases r.ahead <;> rfl
  rwa [List.getElem?_drop, Nat.add_zero] at hfirst

/-- A token that is looked at stands in the buffer, at a place that does not pass the last
index. -/
theorem getElem?_min (h : r.StandsAt buffer n) (hfinish : r.finish.kind = .eof) (k : Nat) :
    ∃ t, buffer[min (n + k) (buffer.length - 1)]? = some t ∧ t.kind = kindAt r.ahead k := by
  have hlength := h.length_eq
  by_cases hk : k < r.ahead.length
  · have hmin : min (n + k) (buffer.length - 1) = n + k := by omega
    refine ⟨r.ahead[k], ?_, ?_⟩
    · rw [hmin, ← List.getElem?_drop, h.remaining, List.getElem?_append_left hk,
        List.getElem?_eq_getElem hk]
    · rw [kindAt, List.getElem?_eq_getElem hk]
      rfl
  · have hmin : min (n + k) (buffer.length - 1) = n + r.ahead.length := by omega
    refine ⟨r.finish, ?_, ?_⟩
    · rw [hmin, ← List.getElem?_drop, h.remaining, List.getElem?_append_right (Nat.le_refl _),
        Nat.sub_self]
      rfl
    · rw [kindAt, List.getElem?_eq_none (by omega), hfinish]
      rfl

/-- A reader that goes on among the tokens ahead stands at a later index. -/
theorem advance (h : r.StandsAt buffer n) {count : Nat} (hcount : count ≤ r.ahead.length) :
    (r.advance count).StandsAt buffer (n + count) := by
  have hlength := h.length_eq
  refine ⟨h.tokens_eq, ?_, by omega⟩
  rw [← h.index_eq]
  rfl

end StandsAt

/-- A reader stands at the beginning of the buffer of its text. -/
theorem ofText_standsAt (symbols : SymbolTable) (dialect : Dialect) (text : String) :
    (ofText symbols dialect text).1.StandsAt (tokenize symbols text).1 0 := by
  obtain ⟨ts, finish, hbuffer, -⟩ := tokenize_eq_append symbols text
  refine ⟨rfl, rfl, ?_⟩
  rw [hbuffer, List.length_append, List.length_singleton]
  omega

/-- Reading moves the reader by the tokens that were read. -/
theorem read_snd (r : FileReader) :
    r.read.2 = r.advance (r.ahead.length - (parseTokens r.dialect r.ahead).rest.length) := by
  unfold read
  cases parseTokens r.dialect r.ahead <;> rfl

/-- The tokens that a reading leaves are the end of those that were ahead. -/
theorem suffix_rest (r : FileReader) : (parseTokens r.dialect r.ahead).rest <:+ r.ahead :=
  trims_file r.dialect.rules r.ahead

/-- Behind a reading those tokens are ahead that it has left. -/
theorem ahead_read (r : FileReader) : r.read.2.ahead = (parseTokens r.dialect r.ahead).rest := by
  rw [read_snd, ahead_advance_of_suffix r.suffix_rest]

/-- Reading leaves the end of the tokens ahead. -/
theorem read_ahead_suffix (r : FileReader) : r.read.2.ahead <:+ r.ahead := by
  rw [ahead_read]
  exact r.suffix_rest

/-- Reading moves a reader forward or not at all. -/
theorem StandsAt.read {r : FileReader} {buffer : List Token} {n : Nat} (h : r.StandsAt buffer n) :
    ∃ m, n ≤ m ∧ r.read.2.StandsAt buffer m := by
  rw [read_snd]
  exact ⟨_, Nat.le_add_right _ _, h.advance (Nat.sub_le _ _)⟩

/-- A reader of a text that stands at an index of the text's buffer, with the dialect that it had
at the beginning. -/
structure Follows (r first : FileReader) (buffer : List Token) : Prop where
  /-- The text stays. -/
  text_eq : r.text = first.text
  /-- The dialect stays. -/
  dialect_eq : r.dialect = first.dialect
  /-- The reader stands at an index of the buffer. -/
  standsAt : ∃ n, r.StandsAt buffer n

/-- Reading once keeps the text, the dialect and the buffer. -/
theorem Follows.read {r first : FileReader} {buffer : List Token} (h : r.Follows first buffer) :
    r.read.2.Follows first buffer := by
  obtain ⟨n, hn⟩ := h.standsAt
  obtain ⟨m, -, hm⟩ := hn.read
  rw [read_snd] at hm ⊢
  exact ⟨h.text_eq, h.dialect_eq, m, hm⟩

/-- Reading any number of times keeps the text, the dialect and the buffer. -/
theorem Follows.readTimes {r first : FileReader} {buffer : List Token}
    (h : r.Follows first buffer) (count : Nat) : (r.readTimes count).2.Follows first buffer := by
  induction count generalizing r with
  | zero => exact h
  | succ count ih => exact ih h.read

/-- After any number of readings a reader of a text follows its beginning. -/
theorem follows_ofText (symbols : SymbolTable) (dialect : Dialect) (text : String)
    (count : Nat) :
    ((ofText symbols dialect text).1.readTimes count).2.Follows (ofText symbols dialect text).1
      (tokenize symbols text).1 :=
  Follows.readTimes ⟨rfl, rfl, 0, ofText_standsAt symbols dialect text⟩ count

/-- A reader that has read successfully has nothing ahead. -/
theorem read_ok_ahead {r : FileReader} (hts : ∀ t ∈ r.ahead, t.kind ≠ .eof) {t : Tree Token}
    (h : r.read.1 = .ok t) : r.read.2.ahead = [] := by
  rw [ahead_read]
  cases hp : parseTokens r.dialect r.ahead with
  | failed e rest =>
    simp [read, hp] at h
  | done tree rest =>
    obtain ⟨ds, -, hr⟩ := reading_of_parseTokens hp
    exact hr.eq_nil_of_declarations hts

/-- The token of an error is the one at which the reader is left: the first one ahead, or the
end. -/
theorem read_error_found {r : FileReader} {e : SyntaxError} (h : r.read.1 = .error e) :
    e.found = r.read.2.ahead.headD r.finish := by
  rw [ahead_read]
  unfold read at h
  cases hp : parseTokens r.dialect r.ahead with
  | done t rest => simp [hp] at h
  | failed failure rest =>
    rw [hp] at h
    obtain rfl := Except.error.inj h
    obtain ⟨-, -, hfound⟩ := exists_append_of_parseTokens hp
    show failure.found.getD r.finish = rest.headD r.finish
    rw [hfound, List.headD_eq_head?_getD]

/-- The token of an error stands in the buffer at the index at which the reader is left. -/
theorem StandsAt.getElem?_of_read {r : FileReader} {buffer : List Token} {n : Nat}
    (h : r.StandsAt buffer n) {e : SyntaxError} (he : r.read.1 = .error e) :
    buffer[r.read.2.index]? = some e.found := by
  obtain ⟨m, -, hm⟩ := h.read
  rw [hm.index_eq, hm.getElem?_eq, read_error_found he, read_snd, finish_advance]

end FileReader

end ConcreteSyntax
