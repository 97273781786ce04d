import ConcreteSyntax.Proofs.ErrorPlaces

/-!
# Tokens in results

Whatever a reading of a text gives, its tokens are tokens of the text. A tree keeps the tokens of
its text in order and drops separators only; an error has the token that was found.
-/

namespace ConcreteSyntax

open TokenParser Grammar

namespace Keeps

variable {τ : Type} {droppable : τ → Prop} {t : τ} {kept kept' used : List τ}

/-- Only dropped tokens stand in front of the first one that is kept. -/
theorem exists_of_cons (h : Keeps droppable (t :: kept) used) :
    ∃ skipped rest, used = skipped ++ t :: rest ∧ (∀ u ∈ skipped, droppable u) ∧
      Keeps droppable kept rest := by
  generalize hall : t :: kept = all at h
  induction h with
  | nil => contradiction
  | @keep u kept used h _ =>
    obtain ⟨rfl, rfl⟩ := List.cons_eq_cons.1 hall
    exact ⟨[], used, rfl, by simp, h⟩
  | @drop u _ _ hu _ ih =>
    obtain ⟨skipped, rest, rfl, hskipped, hrest⟩ := ih hall
    exact ⟨u :: skipped, rest, rfl, List.forall_mem_cons.2 ⟨hu, hskipped⟩, hrest⟩

/-- Tokens in front may all be dropped. -/
theorem drop_append (h : Keeps droppable kept used) {skipped : List τ}
    (hs : ∀ u ∈ skipped, droppable u) : Keeps droppable kept (skipped ++ used) := by
  induction skipped with
  | nil => exact h
  | cons u skipped ih =>
    obtain ⟨hu, hs⟩ := List.forall_mem_cons.1 hs
    exact .drop hu (ih hs)

/-- What is kept in two parts is kept of two parts. -/
theorem exists_of_append (h : Keeps droppable (kept ++ kept') used) :
    ∃ front rest, used = front ++ rest ∧ Keeps droppable kept front ∧
      Keeps droppable kept' rest := by
  induction kept generalizing used with
  | nil => exact ⟨[], used, rfl, .nil, h⟩
  | cons t kept ih =>
    obtain ⟨skipped, rest, rfl, hskipped, hrest⟩ := h.exists_of_cons
    obtain ⟨front, rest, rfl, hfront, hrest⟩ := ih hrest
    exact ⟨skipped ++ t :: front, rest, by simp, (hfront.keep t).drop_append hskipped, hrest⟩

/-- A first token that may not be dropped is the first one that is kept. -/
theorem head?_eq (h : Keeps droppable kept (t :: used)) (ht : ¬ droppable t) :
    kept.head? = some t := by
  cases h with
  | keep => rfl
  | drop hdropped => exact absurd hdropped ht

/-- A last token that may not be dropped is the last one that is kept. -/
theorem getLast?_eq (h : Keeps droppable kept (used ++ [t])) (ht : ¬ droppable t) :
    kept.getLast? = some t := by
  induction used generalizing kept with
  | nil =>
    cases h with
    | keep _ h =>
      cases h
      rfl
    | drop hdropped => exact absurd hdropped ht
  | cons u used ih =>
    cases h with
    | keep _ h =>
      rw [List.getLast?_cons, ih h]
      rfl
    | drop _ h => exact ih h

end Keeps

/-- The first token that is taken is the first one that is kept, if it is no separator. -/
theorem KeepsTo.exists_first {τ : Type} [HasKind τ] {ts kept rest : List τ}
    (h : KeepsTo ts kept rest) (hlt : rest.length < ts.length)
    (hk : droppedKinds.contains (kindAt ts 0) = false) :
    ∃ first others, ts = first :: others ∧ kept.head? = some first := by
  obtain ⟨used, rfl, hkeeps⟩ := h
  cases used with
  | nil => exact absurd hlt (Nat.lt_irrefl _)
  | cons first used =>
    have hfirst : droppedKinds.contains (kind first) = false := hk
    exact ⟨first, used ++ rest, rfl, hkeeps.head?_eq (Bool.eq_false_iff.1 hfirst)⟩

variable {symbols : SymbolTable} {dialect : Dialect} {text : String}

/-- The tree of a text keeps the tokens of the text before the end, without separators. -/
theorem keeps_of_parseText {t : Tree Token} (h : (parseText symbols dialect text).1 = .ok t) :
    Keeps (fun b => droppedKinds.contains (kind b) = true) t.tokens
      (tokenize symbols text).1.dropLast := by
  obtain ⟨ds, rfl, hr⟩ := exists_reading_of_parseText h
  obtain ⟨used, hused, hkeeps⟩ : KeepsTo _ (ds.flatMap Tree.tokens) [] := hr.ordered
  rw [List.append_nil] at hused
  rw [hused, Tree.tokens_file, Tree.slotTokens_sequence?]
  exact hkeeps

/-- The tokens of the tree of a text are tokens of the text. -/
theorem mem_tokenize_of_mem_tokens {t : Tree Token}
    (h : (parseText symbols dialect text).1 = .ok t) {b : Token} (hb : b ∈ t.tokens) :
    b ∈ (tokenize symbols text).1 :=
  List.dropLast_subset _ ((keeps_of_parseText h).sublist.mem hb)

/-- The tokens of a tree that a reader gives are tokens that the reader had ahead. -/
theorem FileReader.mem_ahead_of_mem_tokens {r : FileReader} {t : Tree Token}
    (h : r.read.1 = .ok t) {b : Token} (hb : b ∈ t.tokens) : b ∈ r.ahead := by
  cases hp : parseTokens r.dialect r.ahead with
  | failed e rest => simp [read, hp] at h
  | done tree rest =>
    obtain ⟨ds, rfl, hr⟩ := reading_of_parseTokens hp
    obtain ⟨used, hused, hkeeps⟩ : KeepsTo _ (ds.flatMap Tree.tokens) rest := hr.ordered
    simp only [read, hp, Except.ok.injEq] at h
    rw [← h, Tree.tokens_file, Tree.slotTokens_sequence?] at hb
    rw [hused]
    exact List.mem_append_left rest (hkeeps.sublist.mem hb)

/-- The tokens of the trees that a reader of a text gives, in however many readings, are tokens of
the text. -/
theorem FileReader.StandsAt.mem_of_mem_readTimes {r : FileReader} {buffer : List Token} {n : Nat}
    (hr : r.StandsAt buffer n) {count : Nat} {t : Tree Token}
    (h : .ok t ∈ (r.readTimes count).1) {b : Token} (hb : b ∈ t.tokens) : b ∈ buffer := by
  induction count generalizing r n with
  | zero => contradiction
  | succ count ih =>
    rw [readTimes_succ] at h
    rcases List.mem_cons.1 h with hfirst | hlater
    · have hahead := mem_ahead_of_mem_tokens hfirst.symm hb
      rw [hr.ahead_eq] at hahead
      exact List.dropLast_subset _ (List.drop_subset _ _ hahead)
    · obtain ⟨m, -, hm⟩ := hr.read
      exact ih hm hlater

/-- The tokens of the tree of a text have increasing offsets. -/
theorem pairwise_offset_tokens {t : Tree Token}
    (h : (parseText symbols dialect text).1 = .ok t) :
    t.tokens.Pairwise fun a b => a.offset < b.offset := by
  obtain ⟨ts, finish, hbuffer, -, -, hpair⟩ := tokenize_spec symbols text
  have hkeeps := keeps_of_parseText h
  rw [hbuffer, List.dropLast_concat] at hkeeps
  exact hpair.sublist (hkeeps.sublist.trans (List.sublist_append_left ts [finish]))

/-- The token that was found where a text is refused is a token of the text. -/
theorem found_mem_tokenize {e : SyntaxError} (h : (parseText symbols dialect text).1 = .error e) :
    e.found ∈ (tokenize symbols text).1 := by
  have hread : (FileReader.ofText symbols dialect text).1.read.1 = .error e := h
  exact List.mem_of_getElem?
    ((FileReader.ofText_standsAt symbols dialect text).getElem?_of_read hread)

end ConcreteSyntax
