import ConcreteSyntax.Proofs.LookaheadLoops
import Mathlib.Order.Bounds.Basic

/-!
# Where brackets even out

The closer of an opener is found by a loop with a counter. What it finds can be said without
the loop: it is the first place at which the tokens from the opener on have as many closers
as openers. The loop keeps the counter at the number of openers in excess, and there is an
excess at every place that it has passed. So it stops where the excess is used up for the
first time, or at the end of the text when it never is.
-/

namespace ConcreteSyntax

open TokenParser

/-! ## Kinds in a stretch of places -/

/-- The kinds at the places from one on, up to another that is left out. -/
def kindsBetween (kinds : Nat → TokenKind) (start stop : Nat) : List TokenKind :=
  (List.range' start (stop - start)).map kinds

variable {kinds : Nat → TokenKind} {n place depth close : Nat}

/-- One more place adds its kind at the end. -/
theorem kindsBetween_succ (h : n ≤ place) :
    kindsBetween kinds n (place + 1) = kindsBetween kinds n place ++ [kinds place] := by
  have hcount : place + 1 - n = place - n + 1 := by omega
  have hlast : n + (place - n) = place := by omega
  rw [kindsBetween, hcount, List.range'_1_concat, List.map_append, hlast, kindsBetween,
    List.map_singleton]

/-- A kind in a stretch is the kind at one of its places. -/
theorem mem_kindsBetween {k : TokenKind} {stop : Nat} :
    k ∈ kindsBetween kinds n stop ↔ ∃ i, n ≤ i ∧ i < stop ∧ kinds i = k := by
  simp only [kindsBetween, List.mem_map, List.mem_range'_1]
  constructor
  · rintro ⟨i, hi, rfl⟩
    exact ⟨i, hi.1, by omega, rfl⟩
  · rintro ⟨i, hle, hlt, rfl⟩
    exact ⟨i, ⟨hle, by omega⟩, rfl⟩

/-- How many places of a stretch have a kind that belongs to a set. -/
def countBetween (kinds : Nat → TokenKind) (set : KindSet) (start stop : Nat) : Nat :=
  (kindsBetween kinds start stop).countP set.contains

/-- There is nothing in a stretch without places. -/
theorem countBetween_self (set : KindSet) : countBetween kinds set n n = 0 := by
  rw [countBetween, kindsBetween, Nat.sub_self]
  rfl

/-- One more place counts when its kind belongs to the set. -/
theorem countBetween_succ (set : KindSet) (h : n ≤ place) :
    countBetween kinds set n (place + 1) =
      countBetween kinds set n place + if set.contains (kinds place) then 1 else 0 := by
  rw [countBetween, kindsBetween_succ h, List.countP_append, List.countP_singleton, countBetween]

/-- No kind opens and closes a bracket. -/
theorem closers_eq_false_of_openers {k : TokenKind} (h : openers.contains k = true) :
    closers.contains k = false :=
  TokenKind.forall_of_all
    (p := fun k => openers.contains k = true → closers.contains k = false) (by decide) k h

/-- The end of the text opens no bracket. -/
theorem ne_eof_of_openers {k : TokenKind} (h : openers.contains k = true) : k ≠ .eof := by
  rintro rfl
  exact absurd h (by decide)

/-- That the tokens from one place to another, both included, have as many closers as
openers, of whatever types, and the end of the text is not among them. -/
structure EvensOut (kinds : Nat → TokenKind) (start stop : Nat) : Prop where
  /-- The stretch has a first place. -/
  le : start ≤ stop
  /-- The text does not end in it. -/
  eof_notMem : TokenKind.eof ∉ kindsBetween kinds start (stop + 1)
  /-- Closers and openers are equal in number. -/
  count_eq :
    countBetween kinds closers start (stop + 1) = countBetween kinds openers start (stop + 1)

/-! ## The counter of the search -/

/-- What a search that began at an opener knows at a later place: the counter is the number
of openers in excess, the text has not ended, and at no place before have closers made up for
the openers. -/
structure Excess (kinds : Nat → TokenKind) (start depth place : Nat) : Prop where
  /-- The opener has been passed. -/
  lt : start < place
  /-- The text has not ended. -/
  eof_notMem : TokenKind.eof ∉ kindsBetween kinds start place
  /-- The counter is the excess. -/
  depth_add :
    depth + countBetween kinds closers start place = countBetween kinds openers start place
  /-- There was an excess at every place. -/
  closers_lt : ∀ stop, start < stop → stop ≤ place →
    countBetween kinds closers start stop < countBetween kinds openers start stop

namespace Excess

/-- The counter of a search that goes on is not zero. -/
theorem depth_pos (h : Excess kinds n depth place) : 0 < depth := by
  have hlt := h.closers_lt place h.lt (Nat.le_refl place)
  have hadd := h.depth_add
  omega

/-- Brackets have not evened out at a place that was passed. -/
theorem not_evensOut (h : Excess kinds n depth place) (hclose : close < place) :
    ¬ EvensOut kinds n close := by
  intro heven
  have hle := heven.le
  have hlt := h.closers_lt (close + 1) (by omega) (by omega)
  have hcount := heven.count_eq
  omega

/-- The text has not ended behind a place that is not its end. -/
theorem eof_notMem_succ (h : Excess kinds n depth place) (hne : kinds place ≠ .eof) :
    TokenKind.eof ∉ kindsBetween kinds n (place + 1) := by
  rw [kindsBetween_succ (Nat.le_of_lt h.lt), List.mem_append, List.mem_singleton]
  rintro (hmem | heof)
  · exact h.eof_notMem hmem
  · exact hne heof.symm

/-- A search goes on with the excess behind the next token while there is any. -/
theorem next (h : Excess kinds n depth place) (hne : kinds place ≠ .eof) {depth' : Nat}
    (hadd : depth' + countBetween kinds closers n (place + 1) =
      countBetween kinds openers n (place + 1))
    (hpos : 0 < depth') : Excess kinds n depth' (place + 1) := by
  have hlt := h.lt
  refine ⟨by omega, h.eof_notMem_succ hne, hadd, fun stop hstop hle => ?_⟩
  by_cases hlast : stop = place + 1
  · subst hlast
    omega
  · exact h.closers_lt stop hstop (by omega)

/-- Behind the opener at which a search begins the excess is one. -/
theorem first (h : openers.contains (kinds n) = true) : Excess kinds n 1 (n + 1) := by
  have hopeners : countBetween kinds openers n (n + 1) = 1 := by
    rw [countBetween_succ _ (Nat.le_refl n), countBetween_self, if_pos h]
  have hclosers : countBetween kinds closers n (n + 1) = 0 := by
    rw [countBetween_succ _ (Nat.le_refl n), countBetween_self, closers_eq_false_of_openers h,
      if_neg Bool.false_ne_true]
  refine ⟨Nat.lt_succ_self n, ?_, by omega, fun stop hstop hle => ?_⟩
  · rw [mem_kindsBetween]
    rintro ⟨i, hle, hlt, heof⟩
    obtain rfl : i = n := by omega
    exact ne_eof_of_openers h heof
  · obtain rfl : stop = n + 1 := by omega
    omega

end Excess

/-! ## What the search finds -/

/-- What the result of a search means: a place that is found is the first one at which
brackets even out, there is none when nothing is found, and the counter never falls below
zero. -/
def CloserSearch.Meets (kinds : Nat → TokenKind) (start : Nat) : CloserSearch → Prop
  | found close => IsLeast {stop | EvensOut kinds start stop} close
  | missing => ∀ stop, ¬ EvensOut kinds start stop
  | underflow => False

/-- What a turn of a search means: the excess is kept where the search goes on, and the result
is right where it is over. -/
def Turn.Meets (kinds : Nat → TokenKind) (start : Nat) : Turn (Nat × Nat) CloserSearch → Prop
  | again state => Excess kinds start state.1 state.2
  | ends result => result.Meets kinds start

namespace Excess

/-- Where the text ends, brackets have not evened out and never will. -/
theorem not_evensOut_of_eof (h : Excess kinds n depth place) (heof : kinds place = .eof)
    (stop : Nat) : ¬ EvensOut kinds n stop := by
  intro heven
  by_cases hstop : stop < place
  · exact h.not_evensOut hstop heven
  · have hlt := h.lt
    exact heven.eof_notMem (mem_kindsBetween.2 ⟨place, by omega, by omega, heof⟩)

/-- A closer that uses the excess up is the first place at which brackets even out. -/
theorem isLeast_of_closer (h : Excess kinds n 1 place) (hne : kinds place ≠ .eof)
    (ho : openers.contains (kinds place) = false) (hc : closers.contains (kinds place) = true) :
    IsLeast {stop | EvensOut kinds n stop} place := by
  have hle := Nat.le_of_lt h.lt
  have hadd := h.depth_add
  constructor
  · refine ⟨hle, h.eof_notMem_succ hne, ?_⟩
    rw [countBetween_succ _ hle, countBetween_succ _ hle, hc, ho, if_pos rfl,
      if_neg Bool.false_ne_true]
    omega
  · intro stop heven
    exact Nat.le_of_not_lt fun hlt => h.not_evensOut hlt heven

/-- One turn of a search keeps the excess, or it is the last one and its result is right. -/
theorem meets_closerTurn (h : Excess kinds n depth place) :
    (closerTurn kinds (depth, place)).Meets kinds n := by
  have hle := Nat.le_of_lt h.lt
  have hadd := h.depth_add
  have hpos := h.depth_pos
  have hopeners : countBetween kinds openers n (place + 1) = _ := countBetween_succ _ hle
  have hclosers : countBetween kinds closers n (place + 1) = _ := countBetween_succ _ hle
  by_cases heof : kinds place = .eof
  · simp only [closerTurn, heof, if_true]
    exact h.not_evensOut_of_eof heof
  · cases ho : openers.contains (kinds place) with
    | true =>
      rw [ho, if_pos rfl] at hopeners
      rw [closers_eq_false_of_openers ho, if_neg Bool.false_ne_true] at hclosers
      simp only [closerTurn, heof, ho, if_false, if_true]
      exact h.next heof (by omega) (by omega)
    | false =>
      rw [ho, if_neg Bool.false_ne_true] at hopeners
      cases hc : closers.contains (kinds place) with
      | false =>
        rw [hc, if_neg Bool.false_ne_true] at hclosers
        simp only [closerTurn, heof, ho, hc, if_false, Bool.false_eq_true]
        exact h.next heof (by omega) hpos
      | true =>
        rw [hc, if_pos rfl] at hclosers
        -- the counter is one when this closer uses up the excess
        obtain _ | _ | depth := depth
        · exact absurd hpos (Nat.lt_irrefl 0)
        · simp only [closerTurn, heof, ho, hc, if_false, if_true, Bool.false_eq_true]
          exact h.isLeast_of_closer heof ho hc
        · simp only [closerTurn, heof, ho, hc, if_false, if_true, Bool.false_eq_true]
          exact h.next heof (by omega) (by omega)

/-- A search that is over has the right result. -/
theorem meets {turns : Nat} {state : Nat × Nat} {result : CloserSearch}
    (hends : EndsWithin (closerTurn kinds) turns state result)
    (h : Excess kinds n state.1 state.2) : result.Meets kinds n := by
  induction hends with
  | ends hturn =>
    have hresult := h.meets_closerTurn
    rwa [hturn] at hresult
  | again hturn _ ih =>
    have hnext := h.meets_closerTurn
    rw [hturn] at hnext
    exact ih hnext

end Excess

/-- A search that begins at an opener and is over has the right result. -/
theorem EndsWithin.meets {turns : Nat} {result : CloserSearch}
    (hends : EndsWithin (closerTurn kinds) turns (0, n) result)
    (h : openers.contains (kinds n) = true) : result.Meets kinds n := by
  have hne : kinds n ≠ .eof := ne_eof_of_openers h
  have hturn : closerTurn kinds (0, n) = .again (1, n + 1) := by
    simp only [closerTurn, hne, h, if_false, if_true]
  cases hends with
  | ends hover => exact absurd (hturn.symm.trans hover) (by simp)
  | again hagain hrest =>
    obtain rfl := Turn.again.inj (hturn.symm.trans hagain)
    exact Excess.meets hrest (Excess.first h)

/-! ## Buffers -/

variable {τ : Type} [HasKind τ]

/-- The kind that is seen some places ahead of an index of a buffer. From the last index on
it is that of the last token. -/
def kindAhead (buffer : List τ) (index ahead : Nat) : TokenKind :=
  buffer[min (index + ahead) (buffer.length - 1)]?.elim .eof kind

/-- In a buffer whose last token marks the end, the kinds ahead are those of the tokens that
are left. -/
theorem kindAhead_concat {ts : List τ} {finish : τ} (hfinish : kind finish = .eof)
    (index : Nat) : kindAhead (ts ++ [finish]) index = kindAt (ts.drop index) := by
  funext ahead
  rw [kindAhead, List.length_append, List.length_singleton, Nat.add_sub_cancel, kindAt,
    List.getElem?_drop]
  by_cases hin : index + ahead < ts.length
  · rw [Nat.min_eq_left (Nat.le_of_lt hin), List.getElem?_append_left hin]
  · have hout : ts.length ≤ index + ahead := Nat.le_of_not_lt hin
    rw [Nat.min_eq_right hout, List.getElem?_concat_length, List.getElem?_eq_none hout]
    exact hfinish

/-- The search of the parser for the closer of an opener, in a buffer in which the last token
alone marks the end and from any index. The loop over the places ahead is over by the end of the
buffer, with the result of the search and without an underflow. The search finds a place exactly
when that is the first one at which the tokens from the opener on have as many closers as openers,
and it finds nothing exactly when there is no such place. -/
theorem closerAhead_isLeast {ts : List τ} {finish : τ} (hfinish : kind finish = .eof)
    (hts : ∀ t ∈ ts, kind t ≠ .eof) (index n : Nat)
    (hn : openers.contains (kindAhead (ts ++ [finish]) index n) = true) :
    (∀ turns, ¬ EndsWithin (closerTurn (kindAhead (ts ++ [finish]) index)) turns (0, n)
        .underflow) ∧
      ∃ h : openers.contains (kindAt (ts.drop index) n) = true,
        EndsWithin (closerTurn (kindAhead (ts ++ [finish]) index))
          ((ts.drop index).length - n + 1) (0, n) (.ofOption (findCloser (ts.drop index) n h)) ∧
        (∀ close, findCloser (ts.drop index) n h = some close ↔
          IsLeast {stop | EvensOut (kindAhead (ts ++ [finish]) index) n stop} close) ∧
        (findCloser (ts.drop index) n h = none ↔
          ¬ ∃ stop, EvensOut (kindAhead (ts ++ [finish]) index) n stop) := by
  have hleft : ∀ t ∈ ts.drop index, kind t ≠ .eof := fun t ht => hts t (List.mem_of_mem_drop ht)
  rw [kindAhead_concat hfinish] at hn ⊢
  have hends := endsWithin_findCloser hleft hn
  have hmeets := hends.meets hn
  refine ⟨fun turns hunder => hunder.meets hn, hn, hends, ?_⟩
  cases hclose : findCloser (ts.drop index) n hn with
  | none =>
    rw [hclose] at hmeets
    have hnone : ∀ stop, ¬ EvensOut (kindAt (ts.drop index)) n stop := hmeets
    refine ⟨fun close => ?_, iff_of_true rfl fun ⟨stop, heven⟩ => hnone stop heven⟩
    exact iff_of_false (by simp) fun hleast => hnone close hleast.1
  | some found =>
    rw [hclose] at hmeets
    have hleast : IsLeast {stop | EvensOut (kindAt (ts.drop index)) n stop} found := hmeets
    refine ⟨fun close => ?_, iff_of_false (by simp) fun hnone => hnone ⟨found, hleast.1⟩⟩
    rw [Option.some.injEq]
    exact ⟨fun heq => heq ▸ hleast, fun hclose => hleast.unique hclose⟩

/-- Brackets of different types even out, here two openers and two closers from the second
place behind the name on. -/
theorem closerAhead_isLeast_mixed :
    openers.contains (kindAhead ([.ident, .leftParen, .leftBracket, .leftBrace, .rightParen,
      .rightBracket, .rightBrace, .ident] ++ [TokenKind.eof]) 1 1) = true ∧
    IsLeast {stop | EvensOut (kindAhead ([.ident, .leftParen, .leftBracket, .leftBrace,
      .rightParen, .rightBracket, .rightBrace, .ident] ++ [TokenKind.eof]) 1) 1 stop} 4 := by
  have hopener : openers.contains (kindAhead ([.ident, .leftParen, .leftBracket, .leftBrace,
      .rightParen, .rightBracket, .rightBrace, .ident] ++ [TokenKind.eof]) 1 1) = true := by decide
  obtain ⟨-, h, -, hsome, -⟩ := closerAhead_isLeast (by rfl) (by decide) 1 1 hopener
  refine ⟨hopener, (hsome 4).1 ?_⟩
  rw [findCloser_eq_scan]
  decide

end ConcreteSyntax
