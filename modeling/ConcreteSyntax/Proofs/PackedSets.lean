import ConcreteSyntax.Dialects
import Mathlib.Data.Finset.Card
import Mathlib.Data.Finset.SDiff

/-!
# Packed sets and finite sets

A packed set stands for a finite set of kinds when its word has the bits of exactly these
kinds. A word has more bits than there are kinds, and taking a set away complements all of
them; still no operation sets a spare bit. Hence whatever is composed from lists by joining
and taking away stands for the finite set that is composed in the same way: membership, size
and emptiness are read off the word, and words are equal exactly when the sets are.
-/

namespace ConcreteSyntax

namespace TokenKind

/-- No kind is listed twice. -/
theorem nodup_all : all.Nodup := by
  have hindices : (all.map index).Nodup := by
    rw [all_map_index]
    exact List.nodup_range
  exact hindices.of_map index

end TokenKind

namespace KindSet

/-! ## What a word stands for -/

/-- That every bit of a word that is set is the bit of a kind. -/
def NoSpareBits (word : BitVec 64) : Prop :=
  ∀ i, word.getLsbD i = true → ∃ k : TokenKind, k.index = i

/-- That a packed set stands for a finite set of kinds. -/
structure Represents (s : KindSet) (kinds : Finset TokenKind) : Prop where
  /-- Membership is that of the finite set. -/
  contains_iff : ∀ k, s.contains k = true ↔ k ∈ kinds
  /-- Bits that belong to no kind are not set. -/
  noSpareBits : NoSpareBits s.word

/-- The word of one kind has no spare bits. -/
theorem noSpareBits_bit (k : TokenKind) : NoSpareBits (bit k) := by
  intro i hi
  rw [getLsbD_bit] at hi
  exact ⟨k, (of_decide_eq_true hi).symm⟩

/-- Joining words gives no spare bits. -/
theorem NoSpareBits.or {v w : BitVec 64} (hv : NoSpareBits v) (hw : NoSpareBits w) :
    NoSpareBits (v ||| w) := by
  intro i hi
  rw [BitVec.getLsbD_or, Bool.or_eq_true] at hi
  exact hi.elim (hv i) (hw i)

/-- Adding the bits of kinds one after the other gives no spare bits. -/
theorem NoSpareBits.foldl {word : BitVec 64} (hword : NoSpareBits word) (kinds : List TokenKind) :
    NoSpareBits (kinds.foldl (fun word k => word ||| bit k) word) := by
  induction kinds generalizing word with
  | nil => exact hword
  | cons k kinds ih => exact ih (hword.or (noSpareBits_bit k))

namespace Represents

variable {s t : KindSet} {kinds kinds' : Finset TokenKind}

/-- The word without bits stands for the set without elements. -/
theorem empty : Represents .empty ∅ where
  contains_iff k := by simp [contains_empty]
  noSpareBits i hi := by simp [KindSet.empty] at hi

/-- The word of a list stands for the set of what is listed. -/
theorem ofList (kinds : List TokenKind) : Represents (.ofList kinds) kinds.toFinset where
  contains_iff k := by simp [contains_ofList]
  noSpareBits := by
    have hzero : NoSpareBits 0#64 := empty.noSpareBits
    exact hzero.foldl kinds

/-- Joining words joins the sets. -/
theorem union (hs : s.Represents kinds) (ht : t.Represents kinds') :
    (s.union t).Represents (kinds ∪ kinds') where
  contains_iff k := by
    rw [contains_union, Bool.or_eq_true, hs.contains_iff, ht.contains_iff, Finset.mem_union]
  noSpareBits := hs.noSpareBits.or ht.noSpareBits

/-- Taking a word away takes the set away. The complement of the second word has all the spare
bits, but the first word has none of them. -/
theorem difference (hs : s.Represents kinds) (ht : t.Represents kinds') :
    (s.difference t).Represents (kinds \ kinds') where
  contains_iff k := by
    rw [contains_difference, Bool.and_eq_true, Bool.not_eq_true', ← Bool.not_eq_true,
      hs.contains_iff, ht.contains_iff, Finset.mem_sdiff]
  noSpareBits i hi := by
    rw [KindSet.difference, BitVec.getLsbD_and, Bool.and_eq_true] at hi
    exact hs.noSpareBits i hi.1

/-! ## What can be read off a word -/

/-- The members in the fixed order are the elements. -/
theorem toFinset_members (h : s.Represents kinds) : s.members.toFinset = kinds := by
  ext k
  rw [List.mem_toFinset, members, List.mem_filter, h.contains_iff]
  exact and_iff_right k.mem_all

/-- The bits that are set are as many as the members, for each is the bit of one kind. -/
theorem size_eq_length_members (h : s.Represents kinds) : s.size = s.members.length := by
  have hsplit : List.range 64 = List.range 53 ++ List.range' 53 11 := by decide
  have hspare : (List.range' 53 11).filter (fun i => s.word.getLsbD i) = [] := by
    rw [List.filter_eq_nil_iff]
    intro i hi hbit
    obtain ⟨k, rfl⟩ := h.noSpareBits i hbit
    have hlow : 53 ≤ k.index := (List.mem_range'_1.1 hi).1
    exact absurd k.index_lt (Nat.not_lt.2 hlow)
  have hread : (fun i => s.word.getLsbD i) ∘ TokenKind.index = s.contains := by
    funext k
    exact (s.contains_eq_getLsbD k).symm
  calc s.size = ((List.range 53).filter fun i => s.word.getLsbD i).length := by
        rw [size, hsplit, List.filter_append, hspare, List.append_nil]
    _ = s.members.length := by
        rw [← TokenKind.all_map_index, List.filter_map, hread, List.length_map, members]

/-- The number of bits that are set is the number of elements. -/
theorem size_eq (h : s.Represents kinds) : s.size = kinds.card := by
  have hnodup : s.members.Nodup := TokenKind.nodup_all.filter _
  rw [h.size_eq_length_members, ← List.toFinset_card_of_nodup hnodup, h.toFinset_members]

/-- A bit of a word is set in every word that stands for the same set. -/
theorem getLsbD_of_getLsbD (hs : s.Represents kinds) (ht : t.Represents kinds) {i : Nat}
    (hi : s.word.getLsbD i = true) : t.word.getLsbD i = true := by
  obtain ⟨k, rfl⟩ := hs.noSpareBits i hi
  rw [← contains_eq_getLsbD] at hi ⊢
  exact (ht.contains_iff k).2 ((hs.contains_iff k).1 hi)

/-- Words are equal exactly when the finite sets are. -/
theorem eq_iff (hs : s.Represents kinds) (ht : t.Represents kinds') : s = t ↔ kinds = kinds' := by
  constructor
  · rintro rfl
    rw [← hs.toFinset_members, ht.toFinset_members]
  · rintro rfl
    have hword : s.word = t.word := BitVec.eq_of_getLsbD_eq fun i _ =>
      Bool.eq_iff_iff.2 ⟨hs.getLsbD_of_getLsbD ht, ht.getLsbD_of_getLsbD hs⟩
    calc s = ⟨s.word⟩ := rfl
      _ = ⟨t.word⟩ := by rw [hword]
      _ = t := rfl

/-- A word is zero exactly when the finite set has no elements. -/
theorem isEmpty_iff (h : s.Represents kinds) : s.isEmpty = true ↔ kinds = ∅ := by
  rw [← h.eq_iff empty, isEmpty, beq_iff_eq]
  constructor
  · intro hword
    calc s = ⟨s.word⟩ := rfl
      _ = KindSet.empty := by rw [hword, KindSet.empty]
  · rintro rfl
    rfl

end Represents

end KindSet

/-! ## Compositions -/

/-- How a set of kinds is composed, from nothing and from lists. -/
inductive SetComposition where
  /-- The set without members. -/
  | empty
  /-- The set of the listed kinds. -/
  | ofList (kinds : List TokenKind)
  /-- Two sets joined. -/
  | union (first second : SetComposition)
  /-- A set with another one taken away. -/
  | difference (first second : SetComposition)
  deriving Repr

namespace SetComposition

/-- The packed set that is composed. -/
def packed : SetComposition → KindSet
  | empty => .empty
  | ofList kinds => .ofList kinds
  | union first second => first.packed.union second.packed
  | difference first second => first.packed.difference second.packed

/-- The finite set that is composed. -/
def elements : SetComposition → Finset TokenKind
  | empty => ∅
  | ofList kinds => kinds.toFinset
  | union first second => first.elements ∪ second.elements
  | difference first second => first.elements \ second.elements

/-- The packed set of a composition stands for its finite set. -/
theorem represents (c : SetComposition) : c.packed.Represents c.elements := by
  induction c with
  | empty => exact .empty
  | ofList kinds => exact .ofList kinds
  | union first second ihFirst ihSecond => exact ihFirst.union ihSecond
  | difference first second ihFirst ihSecond => exact ihFirst.difference ihSecond

end SetComposition

/-- The packed set of every composition has the members of the finite set, as many of them, and
none exactly when there are none. Only bits of kinds are set in it. Two packed sets are equal
exactly when they have the same members. -/
theorem packed_agrees_with_elements (c : SetComposition) :
    (∀ k, c.packed.contains k = true ↔ k ∈ c.elements) ∧
      c.packed.size = c.elements.card ∧
      (c.packed.isEmpty = true ↔ ∀ k, k ∉ c.elements) ∧
      (∀ i, c.packed.word.getLsbD i = true → ∃ k : TokenKind, k.index = i) ∧
      ∀ c' : SetComposition,
        c.packed = c'.packed ↔ ∀ k, k ∈ c.elements ↔ k ∈ c'.elements := by
  have h := c.represents
  refine ⟨h.contains_iff, h.size_eq, ?_, h.noSpareBits, fun c' => ?_⟩
  · rw [h.isEmpty_iff, Finset.eq_empty_iff_forall_notMem]
  · rw [h.eq_iff c'.represents, Finset.ext_iff]

/-! ## The tables of the dialects -/

/-- That a packed set is composed. -/
def KindSet.IsComposed (s : KindSet) : Prop := ∃ c : SetComposition, c.packed = s

namespace KindSet.IsComposed

variable {s t : KindSet}

/-- The set of a list is composed. -/
theorem ofList (kinds : List TokenKind) : (KindSet.ofList kinds).IsComposed :=
  ⟨.ofList kinds, rfl⟩

/-- Joining composed sets is composing. -/
theorem union (hs : s.IsComposed) (ht : t.IsComposed) : (s.union t).IsComposed := by
  obtain ⟨first, rfl⟩ := hs
  obtain ⟨second, rfl⟩ := ht
  exact ⟨.union first second, rfl⟩

/-- Taking a composed set away is composing. -/
theorem difference (hs : s.IsComposed) (ht : t.IsComposed) : (s.difference t).IsComposed := by
  obtain ⟨first, rfl⟩ := hs
  obtain ⟨second, rfl⟩ := ht
  exact ⟨.difference first second, rfl⟩

/-- What begins a constructor's result is composed when literals and prefix operators are. -/
theorem resultStart (hs : s.IsComposed) (ht : t.IsComposed) :
    (Rules.resultStart s t).IsComposed :=
  ((ofList _).union hs).union (ht.difference (ofList _))

end KindSet.IsComposed

/-- The tables of every dialect are composed, so they stand for finite sets of kinds. -/
theorem Dialect.isComposed_rules (d : Dialect) :
    d.rules.prefixOperators.IsComposed ∧ d.rules.implicationOperators.IsComposed ∧
      d.rules.literals.IsComposed ∧ d.rules.operandStart.IsComposed := by
  have hprefixes : Rules.commonPrefixes.IsComposed := .ofList _
  have hliterals : Rules.commonLiterals.IsComposed := .ofList _
  have hpointers : Rules.pointerPrefixes.IsComposed := .ofList _
  have haddresses : Rules.pointerLiterals.IsComposed := hliterals.union (.ofList _)
  cases d with
  | standard | keyword | parameter =>
    exact ⟨hprefixes, .ofList _, hliterals, hliterals.resultStart hprefixes⟩
  | arrow => exact ⟨hprefixes, ⟨.empty, rfl⟩, hliterals, hliterals.resultStart hprefixes⟩
  | pointer => exact ⟨hpointers, .ofList _, haddresses, haddresses.resultStart hpointers⟩

end ConcreteSyntax
