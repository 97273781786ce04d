import ConcreteSyntax.TokenKinds

/-!
# Sets of token kinds

A set of kinds is one machine word: the bit at the place of a kind tells whether
the kind belongs to the set. The grammar keeps its operator tables in this form.
-/

namespace ConcreteSyntax

/-- A set of token kinds, packed into a word. -/
structure KindSet where
  /-- The word; only the bits at the places of kinds are used. -/
  word : BitVec 64
  deriving DecidableEq, Repr, Inhabited

namespace KindSet

/-- The word in which exactly the bit of one kind is set. -/
def bit (k : TokenKind) : BitVec 64 := 1#64 <<< k.index

/-- The set without members. -/
def empty : KindSet := ⟨0#64⟩

/-- The set of the listed kinds; repetitions do not matter. -/
def ofList (kinds : List TokenKind) : KindSet :=
  ⟨kinds.foldl (fun word k => word ||| bit k) 0#64⟩

/-- The kinds that belong to one of two sets. -/
def union (s t : KindSet) : KindSet := ⟨s.word ||| t.word⟩

/-- The kinds of the first set that do not belong to the second. -/
def difference (s t : KindSet) : KindSet := ⟨s.word &&& ~~~ t.word⟩

/-- Whether a kind belongs to a set. -/
def contains (s : KindSet) (k : TokenKind) : Bool := s.word &&& bit k != 0#64

/-- The number of members, counted as the set bits of the word. -/
def size (s : KindSet) : Nat := ((List.range 64).filter fun i => s.word.getLsbD i).length

/-- Whether a set has no members. -/
def isEmpty (s : KindSet) : Bool := s.word == 0#64

/-- The members in the fixed order of the kinds. -/
def members (s : KindSet) : List TokenKind := TokenKind.all.filter s.contains

/-- The bit of a kind is set exactly at the place of the kind. -/
theorem getLsbD_bit (k : TokenKind) (i : Nat) :
    (bit k).getLsbD i = decide (i = k.index) := by
  have hk : k.index < 64 := Nat.lt_trans k.index_lt (by decide)
  rw [show bit k = BitVec.twoPow 64 k.index from rfl, BitVec.getLsbD_twoPow]
  by_cases hi : i = k.index
  · subst hi; simp [hk]
  · have hi' : ¬ k.index = i := fun e => hi e.symm
    simp [hi, hi']

/-- Membership reads the bit at the place of the kind. -/
theorem contains_eq_getLsbD (s : KindSet) (k : TokenKind) :
    s.contains k = s.word.getLsbD k.index := by
  have hk : k.index < 64 := Nat.lt_trans k.index_lt (by decide)
  cases hb : s.word.getLsbD k.index with
  | true =>
    have hne : s.word &&& bit k ≠ 0#64 := by
      intro h0
      have hget := congrArg (fun w => w.getLsbD k.index) h0
      simp [getLsbD_bit, hb] at hget
    simpa [contains] using hne
  | false =>
    have he : s.word &&& bit k = 0#64 := by
      apply BitVec.eq_of_getLsbD_eq
      intro i hi
      rw [BitVec.getLsbD_and, getLsbD_bit, BitVec.getLsbD_zero]
      by_cases hik : i = k.index
      · subst hik; simp [hb]
      · simp [hik]
    simp [contains, he]

/-- A kind belongs to a union exactly when it belongs to one of the sets. -/
theorem contains_union (s t : KindSet) (k : TokenKind) :
    (s.union t).contains k = (s.contains k || t.contains k) := by
  simp only [contains_eq_getLsbD, union, BitVec.getLsbD_or]

/-- A kind belongs to a difference exactly when it belongs to the first set only. -/
theorem contains_difference (s t : KindSet) (k : TokenKind) :
    (s.difference t).contains k = (s.contains k && !t.contains k) := by
  have hk : k.index < 64 := Nat.lt_trans k.index_lt (by decide)
  simp only [contains_eq_getLsbD, difference, BitVec.getLsbD_and, BitVec.getLsbD_not, hk,
    decide_true, Bool.true_and]

/-- Nothing belongs to the empty set. -/
theorem contains_empty (k : TokenKind) : empty.contains k = false := by
  simp only [contains_eq_getLsbD, empty, BitVec.getLsbD_zero]

/-- Exactly the listed kinds belong to the set of a list. -/
theorem contains_ofList (kinds : List TokenKind) (k : TokenKind) :
    (ofList kinds).contains k = kinds.contains k := by
  have key : ∀ (kinds : List TokenKind) (word : BitVec 64),
      (kinds.foldl (fun word k => word ||| bit k) word).getLsbD k.index =
        (word.getLsbD k.index || kinds.contains k) := by
    intro kinds
    induction kinds with
    | nil => intro word; simp
    | cons j kinds ih =>
      intro word
      rw [List.foldl_cons, ih, BitVec.getLsbD_or, getLsbD_bit, List.contains_cons]
      have hjk : decide (k.index = j.index) = (k == j) := by
        by_cases h : k = j
        · subst h; simp
        · have hi : k.index ≠ j.index := fun e => h (TokenKind.index_inj e)
          simp [h, hi]
      rw [hjk, Bool.or_assoc]
  rw [contains_eq_getLsbD, ofList, key, BitVec.getLsbD_zero, Bool.false_or]

end KindSet

end ConcreteSyntax
