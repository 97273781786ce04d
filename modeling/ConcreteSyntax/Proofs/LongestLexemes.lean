import ConcreteSyntax.Proofs.LexemeSequences

/-!
# Lexemes are longest matches

The lexical grammar recognises words, numbers and the spellings of punctuators. A lexeme is the
longest piece that is recognised at its place, and a single character of the invalid kind where
nothing is recognised. Its kind is settled by its characters: reserved words and punctuators are
told apart by their spellings, and all other words are identifiers.
-/

namespace ConcreteSyntax

/-! ## What the lexical grammar recognises -/

/-- Characters that make a word: a letter or an underscore, and then letters, underscores and
digits. -/
def IsWord : List Char → Prop
  | [] => False
  | c :: cs => isWordStart c = true ∧ ∀ d ∈ cs, isWordPart d = true

/-- Characters that make a number: one or more digits. -/
def IsNumber (cs : List Char) : Prop := cs ≠ [] ∧ ∀ c ∈ cs, isDigit c = true

/-- Characters that are the spelling of a punctuator. -/
def IsPunctuation (cs : List Char) : Prop :=
  ∃ k ∈ TokenKind.punctuators, k.spelling? = some (String.ofList cs)

/-- Characters that make a valid lexeme. -/
def IsRecognised (cs : List Char) : Prop := IsWord cs ∨ IsNumber cs ∨ IsPunctuation cs

/-- That a word is the longest match in front of a text. -/
structure Word.IsLongestIn (w : Word) (text : List Char) : Prop where
  /-- The characters stand in front. -/
  characters : w.text.toList <+: text
  /-- Where a piece in front is recognised, the word is the longest such piece. -/
  longest : ∀ cs, cs <+: text → IsRecognised cs →
    IsRecognised w.text.toList ∧ cs <+: w.text.toList
  /-- Where no piece in front is recognised, a single character is invalid. -/
  invalid : (∀ cs, cs <+: text → ¬ IsRecognised cs) →
    w.kind = .invalid ∧ w.text.toList.length = 1

/-- That the kind of a word is the one of its characters. -/
structure Word.IsClassified (w : Word) : Prop where
  /-- A reserved word has the kind that is reserved for it. -/
  reserved : IsWord w.text.toList → ∀ k, (w.text, k) ∈ TokenKind.reservedWords → w.kind = k
  /-- A word that is not reserved is an identifier. -/
  ident : IsWord w.text.toList → (∀ k, (w.text, k) ∉ TokenKind.reservedWords) → w.kind = .ident
  /-- A number is an integer. -/
  number : IsNumber w.text.toList → w.kind = .intNumber
  /-- The kind of a punctuator is the only one with its spelling. -/
  punctuator : IsPunctuation w.text.toList → ∀ k, k.spelling? = some w.text ↔ k = w.kind
  /-- A kind that has a spelling has that of the word. -/
  spelling : ∀ s ∈ w.kind.spelling?, s = w.text

/-! ## Spellings tell kinds apart -/

/-- Kinds with the same spelling are the same. -/
theorem TokenKind.eq_of_spelling? {j k : TokenKind} {s : String} (hj : j.spelling? = some s)
    (hk : k.spelling? = some s) : j = k := by
  have hall : ∀ j ∈ all, ∀ k ∈ all, j.spelling?.isSome = true → j.spelling? = k.spelling? →
      j = k := by decide +kernel
  exact hall j j.mem_all k k.mem_all (by rw [hj]; rfl) (hj.trans hk.symm)

/-- The reserved words are the spellings of the kinds that stand for reserved words. -/
theorem TokenKind.mem_reservedWords_iff {text : String} {k : TokenKind} :
    (text, k) ∈ reservedWords ↔ k.isKeyword = true ∧ k.spelling? = some text := by
  constructor
  · have hall : ∀ word ∈ reservedWords,
        word.2.isKeyword = true ∧ word.2.spelling? = some word.1 := by decide
    exact hall (text, k)
  · have hall : ∀ k ∈ all, k.isKeyword = true →
        k.spelling?.all (fun s => decide ((s, k) ∈ reservedWords)) = true := by decide +kernel
    rintro ⟨hk, hs⟩
    have hlisted := hall k k.mem_all hk
    rw [hs] at hlisted
    exact of_decide_eq_true hlisted

/-- The kind of a word has no other spelling. -/
theorem TokenKind.spelling?_ofWord (text : String) : ∀ s ∈ (ofWord text).spelling?, s = text := by
  intro s hs
  by_cases h : ∃ k, (text, k) ∈ reservedWords
  · obtain ⟨k, hk⟩ := h
    rw [ofWord_of_mem hk, (mem_reservedWords_iff.1 hk).2] at hs
    exact (Option.some.inj hs).symm
  · rw [ofWord_of_notMem fun k hk => h ⟨k, hk⟩] at hs
    contradiction

/-! ## The classes of characters -/

/-- A digit starts no word. -/
theorem isWordStart_of_isDigit {c : Char} (h : isDigit c = true) : isWordStart c = false := by
  simp only [isDigit, Bool.and_eq_true, decide_eq_true_eq, Char.le_def, UInt32.le_iff_toNat_le,
    isWordStart, Bool.or_eq_false_iff, Bool.and_eq_false_iff, decide_eq_false_iff_not,
    beq_eq_false_iff_ne] at h ⊢
  have h0 : '0'.val.toNat = 48 := rfl
  have h9 : '9'.val.toNat = 57 := rfl
  have hA : 'A'.val.toNat = 65 := rfl
  have ha : 'a'.val.toNat = 97 := rfl
  refine ⟨⟨.inl (by omega), .inl (by omega)⟩, ?_⟩
  rintro rfl
  exact absurd h (by decide)

/-- The spelling of a punctuator begins with a character that is in no word and in no number. -/
theorem IsPunctuation.exists_cons {cs : List Char} (h : IsPunctuation cs) :
    ∃ d ds, cs = d :: ds ∧ isWordStart d = false ∧ isDigit d = false := by
  have hall : ∀ k ∈ TokenKind.punctuators, k.spelling?.all (fun s =>
      s.toList.head?.any fun d => !isWordStart d && !isDigit d) = true := by decide +kernel
  obtain ⟨k, hk, hs⟩ := h
  have hhead := hall k hk
  rw [hs] at hhead
  simp only [Option.all_some, String.toList_ofList] at hhead
  cases cs with
  | nil => simp at hhead
  | cons d ds => exact ⟨d, ds, rfl, by simpa using hhead⟩

/-- No word is a number. -/
theorem IsWord.not_isNumber {cs : List Char} (h : IsWord cs) : ¬ IsNumber cs := by
  intro hnumber
  cases cs with
  | nil => exact h
  | cons c cs =>
    have hno := isWordStart_of_isDigit (hnumber.2 c List.mem_cons_self)
    exact absurd (h.1.symm.trans hno) (by decide)

/-- No word is the spelling of a punctuator. -/
theorem IsWord.not_isPunctuation {cs : List Char} (h : IsWord cs) : ¬ IsPunctuation cs := by
  intro hpunctuation
  obtain ⟨d, ds, rfl, hd, -⟩ := hpunctuation.exists_cons
  exact absurd (h.1.symm.trans hd) (by decide)

/-- No number is the spelling of a punctuator. -/
theorem IsNumber.not_isPunctuation {cs : List Char} (h : IsNumber cs) : ¬ IsPunctuation cs := by
  intro hpunctuation
  obtain ⟨d, ds, rfl, -, hd⟩ := hpunctuation.exists_cons
  exact absurd ((h.2 d List.mem_cons_self).symm.trans hd) (by decide)

/-- What a recognised piece is, by its first character: a word, a number or a punctuator. -/
theorem IsRecognised.cases_head {c : Char} {cs : List Char} (h : IsRecognised (c :: cs)) :
    (isWordStart c = true → IsWord (c :: cs)) ∧
      (isWordStart c = false → isDigit c = true → IsNumber (c :: cs)) ∧
      (isWordStart c = false → isDigit c = false → IsPunctuation (c :: cs)) := by
  rcases h with hword | hnumber | hpunctuation
  · have hc := hword.1
    simp [hword, hc]
  · have hd : isDigit c = true := hnumber.2 c List.mem_cons_self
    have hc := isWordStart_of_isDigit hd
    simp [hnumber, hd, hc]
  · obtain ⟨d, ds, hcons, hc, hd⟩ := hpunctuation.exists_cons
    obtain ⟨rfl, rfl⟩ := List.cons.inj hcons
    simp [hpunctuation, hc, hd]

/-- Nothing recognised is empty. -/
theorem IsRecognised.ne_nil {cs : List Char} (h : IsRecognised cs) : cs ≠ [] := by
  rintro rfl
  rcases h with hword | hnumber | hpunctuation
  · exact hword
  · exact hnumber.1 rfl
  · obtain ⟨d, ds, hcons, -⟩ := hpunctuation.exists_cons
    contradiction

/-! ## The lexeme in front -/

/-- A prefix of characters of a class is a prefix of the run of this class. -/
theorem prefix_takeWhile {p : Char → Bool} {xs ys : List Char} (h : xs <+: ys)
    (hp : ∀ x ∈ xs, p x = true) : xs <+: ys.takeWhile p := by
  obtain ⟨zs, rfl⟩ := h
  rw [List.takeWhile_append_of_pos hp]
  exact ⟨_, rfl⟩

/-- The spelling of a punctuator is scanned as this punctuator. -/
theorem punctuator_of_spelling {k : TokenKind} {ds : List Char} (hk : k ∈ TokenKind.punctuators)
    (hs : k.spelling? = some (String.ofList ds)) :
    ∃ d, ds = [d] ∧ punctuator d endChar = (k, 1) ∨
      ∃ e, ds = [d, e] ∧ punctuator d e = (k, 2) := by
  have hall : ∀ k ∈ TokenKind.punctuators, k.spelling?.all (fun s =>
      s.toList.head?.any fun d => decide (s.toList = [d] ∧ punctuator d endChar = (k, 1)) ||
        s.toList.tail.head?.any fun e =>
          decide (s.toList = [d, e] ∧ punctuator d e = (k, 2))) = true := by decide +kernel
  have hspelled := hall k hk
  rw [hs] at hspelled
  simp only [Option.all_some, String.toList_ofList, Option.any_eq_true, Bool.or_eq_true,
    decide_eq_true_eq] at hspelled
  obtain ⟨d, -, hone | ⟨e, -, htwo⟩⟩ := hspelled
  · exact ⟨d, .inl hone⟩
  · exact ⟨d, .inr ⟨e, htwo⟩⟩

/-- Where a punctuator stands in front, a punctuator is scanned, and none that is shorter. -/
theorem length_le_of_isPunctuation {c : Char} {cs ds : List Char} (hds : ds <+: c :: cs)
    (h : IsPunctuation ds) : ds.length ≤ (punctuator c (cs.headD endChar)).2 ∧
      punctuator c (cs.headD endChar) ≠ (.invalid, 1) := by
  obtain ⟨k, hk, hs⟩ := h
  have hvalid : k ≠ .invalid := by
    rintro rfl
    exact absurd hk (by decide)
  obtain ⟨d, ⟨rfl, hone⟩ | ⟨e, rfl, htwo⟩⟩ := punctuator_of_spelling hk hs
  · obtain ⟨rfl, -⟩ := List.cons_prefix_cons.1 hds
    refine ⟨?_, fun hinvalid => ?_⟩
    · rw [List.length_singleton]
      rcases punctuator_length d (cs.headD endChar) with h | ⟨h, -⟩ <;> omega
    · have hend := punctuator_endChar (congrArg Prod.snd hinvalid)
      rw [hone, hinvalid] at hend
      exact hvalid (congrArg Prod.fst hend)
  · obtain ⟨rfl, behind, rfl⟩ := List.cons_prefix_cons.1 hds
    have hscanned : punctuator d (([e] ++ behind).headD endChar) = (k, 2) := htwo
    rw [hscanned]
    exact ⟨Nat.le_refl 2, fun hinvalid => hvalid (congrArg Prod.fst hinvalid)⟩

/-- The characters that are scanned as a punctuator stand in front. -/
theorem take_punctuator (c : Char) (cs : List Char) :
    [c, cs.headD endChar].take (punctuator c (cs.headD endChar)).2 <+: c :: cs ∧
      ([c, cs.headD endChar].take (punctuator c (cs.headD endChar)).2).length =
        (punctuator c (cs.headD endChar)).2 := by
  rcases punctuator_length c (cs.headD endChar) with hone | ⟨htwo, hsecond⟩
  · rw [hone]
    exact ⟨⟨cs, rfl⟩, rfl⟩
  · cases cs with
    | nil => exact absurd hsecond (by decide)
    | cons e es =>
      rw [htwo]
      exact ⟨⟨es, rfl⟩, rfl⟩

/-- The word in front of a text: the lexeme there with its place forgotten. -/
def frontWord (text : List Char) : Word :=
  ⟨(frontLexeme text).1, String.ofList (text.take (frontLexeme text).2)⟩

/-- The word of a lexeme whose characters are known. -/
theorem frontWord_eq {text word : List Char} {k : TokenKind}
    (h : frontLexeme text = (k, word.length)) (hword : word <+: text) :
    frontWord text = ⟨k, String.ofList word⟩ := by
  rw [frontWord, h, ← List.prefix_iff_eq_take.1 hword]

/-- A recognised piece in front of a text that has every other such piece as a part of its own
is the longest match. -/
theorem Word.isLongestIn_of_isRecognised {k : TokenKind} {word text : List Char}
    (hr : IsRecognised word) (hpre : word <+: text)
    (hlongest : ∀ cs, cs <+: text → IsRecognised cs → cs <+: word) :
    (⟨k, String.ofList word⟩ : Word).IsLongestIn text := by
  refine ⟨?_, fun cs hcs h => ?_, fun h => absurd hr (h word hpre)⟩
  · rw [String.toList_ofList]
    exact hpre
  · rw [String.toList_ofList]
    exact ⟨hr, hlongest cs hcs h⟩

section Classes

variable {text : String}

/-- A word is classified by the reserved words. -/
theorem IsWord.isClassified (h : IsWord text.toList) :
    (⟨.ofWord text, text⟩ : Word).IsClassified where
  reserved _ _ hk := TokenKind.ofWord_of_mem hk
  ident _ hk := TokenKind.ofWord_of_notMem hk
  number hno := absurd hno h.not_isNumber
  punctuator hno := absurd hno h.not_isPunctuation
  spelling := TokenKind.spelling?_ofWord _

/-- A number is classified as an integer. -/
theorem IsNumber.isClassified (h : IsNumber text.toList) :
    (⟨.intNumber, text⟩ : Word).IsClassified where
  reserved hno := absurd h (IsWord.not_isNumber hno)
  ident hno := absurd h (IsWord.not_isNumber hno)
  number _ := rfl
  punctuator hno := absurd hno h.not_isPunctuation
  spelling _ hs := by contradiction

/-- The spelling of a punctuator is classified as this punctuator. -/
theorem IsPunctuation.isClassified {k : TokenKind} (h : IsPunctuation text.toList)
    (hs : k.spelling? = some text) : (⟨k, text⟩ : Word).IsClassified where
  reserved hno := absurd h (IsWord.not_isPunctuation hno)
  ident hno := absurd h (IsWord.not_isPunctuation hno)
  number hno := absurd h (IsNumber.not_isPunctuation hno)
  punctuator _ _ := ⟨fun hj => TokenKind.eq_of_spelling? hj hs, fun hj => hj ▸ hs⟩
  spelling _ ht := (Option.some.inj (hs.symm.trans ht)).symm

/-- What is not recognised is classified as invalid. -/
theorem Word.isClassified_invalid (h : ¬ IsRecognised text.toList) :
    (⟨.invalid, text⟩ : Word).IsClassified where
  reserved hno := absurd (.inl hno) h
  ident hno := absurd (.inl hno) h
  number hno := absurd (.inr (.inl hno)) h
  punctuator hno := absurd (.inr (.inr hno)) h
  spelling _ hs := by contradiction

end Classes

section Front

variable {c : Char} {cs : List Char}

/-- A letter begins a word. -/
theorem frontWord_of_isWordStart (hc : isWordStart c = true) :
    (frontWord (c :: cs)).IsLongestIn (c :: cs) ∧ (frontWord (c :: cs)).IsClassified := by
  have hpre : c :: cs.takeWhile isWordPart <+: c :: cs :=
    List.cons_prefix_cons.2 ⟨rfl, List.takeWhile_prefix _⟩
  have hword : IsWord (c :: cs.takeWhile isWordPart) :=
    ⟨hc, fun d hd => List.mem_takeWhile_imp hd⟩
  have hfront : frontLexeme (c :: cs) = (.ofWord (String.ofList (c :: cs.takeWhile isWordPart)),
      (c :: cs.takeWhile isWordPart).length) := by
    simp only [frontLexeme, if_pos hc]
  rw [frontWord_eq hfront hpre]
  refine ⟨Word.isLongestIn_of_isRecognised (.inl hword) hpre fun ds hds hr => ?_,
    IsWord.isClassified (String.toList_ofList ▸ hword)⟩
  obtain ⟨d, ds, rfl⟩ := List.exists_cons_of_ne_nil hr.ne_nil
  obtain ⟨rfl, htail⟩ := List.cons_prefix_cons.1 hds
  exact List.cons_prefix_cons.2 ⟨rfl, prefix_takeWhile htail (hr.cases_head.1 hc).2⟩

/-- A digit begins a number. -/
theorem frontWord_of_isDigit (hc : isWordStart c = false) (hd : isDigit c = true) :
    (frontWord (c :: cs)).IsLongestIn (c :: cs) ∧ (frontWord (c :: cs)).IsClassified := by
  have hpre : c :: cs.takeWhile isDigit <+: c :: cs :=
    List.cons_prefix_cons.2 ⟨rfl, List.takeWhile_prefix _⟩
  have hnumber : IsNumber (c :: cs.takeWhile isDigit) :=
    ⟨List.cons_ne_nil _ _, List.forall_mem_cons.2 ⟨hd, fun d hd => List.mem_takeWhile_imp hd⟩⟩
  have hfront : frontLexeme (c :: cs) = (.intNumber, (c :: cs.takeWhile isDigit).length) := by
    simp only [frontLexeme, hc, hd, Bool.false_eq_true, if_true, if_false]
  rw [frontWord_eq hfront hpre]
  refine ⟨Word.isLongestIn_of_isRecognised (.inr (.inl hnumber)) hpre fun ds hds hr => ?_,
    IsNumber.isClassified (String.toList_ofList ▸ hnumber)⟩
  obtain ⟨d, ds, rfl⟩ := List.exists_cons_of_ne_nil hr.ne_nil
  obtain ⟨rfl, htail⟩ := List.cons_prefix_cons.1 hds
  have hdigits := (List.forall_mem_cons.1 (hr.cases_head.2.1 hc hd).2).2
  exact List.cons_prefix_cons.2 ⟨rfl, prefix_takeWhile htail hdigits⟩

/-- Any other character begins a punctuator, or it is invalid. -/
theorem frontWord_of_isDigit_eq_false (hc : isWordStart c = false) (hd : isDigit c = false) :
    (frontWord (c :: cs)).IsLongestIn (c :: cs) ∧ (frontWord (c :: cs)).IsClassified := by
  have hpunctuation : ∀ ds, ds <+: c :: cs → IsRecognised ds → IsPunctuation ds := by
    intro ds hds hr
    obtain ⟨d, ds, rfl⟩ := List.exists_cons_of_ne_nil hr.ne_nil
    obtain ⟨rfl, -⟩ := List.cons_prefix_cons.1 hds
    exact hr.cases_head.2.2 hc hd
  have hfront : frontLexeme (c :: cs) = punctuator c (cs.headD endChar) := by
    simp only [frontLexeme, hc, hd, Bool.false_eq_true, if_false]
  obtain ⟨hpre, hlength⟩ := take_punctuator c cs
  rcases punctuator_spelled c (cs.headD endChar) with hinvalid | ⟨hlisted, hs⟩
  · have hnone : ∀ ds, ds <+: c :: cs → ¬ IsRecognised ds := fun ds hds hr =>
      (length_le_of_isPunctuation hds (hpunctuation ds hds hr)).2 hinvalid
    have hfirst : [c] <+: c :: cs := ⟨cs, rfl⟩
    rw [frontWord_eq (hfront.trans hinvalid) hfirst]
    refine ⟨⟨?_, fun ds hds hr => absurd hr (hnone ds hds), fun _ => ⟨rfl, ?_⟩⟩,
      Word.isClassified_invalid ?_⟩ <;> rw [String.toList_ofList]
    · exact hfirst
    · rfl
    · exact hnone _ hfirst
  · have hself : IsPunctuation ([c, cs.headD endChar].take (punctuator c (cs.headD endChar)).2) :=
      ⟨_, hlisted, hs⟩
    rw [frontWord_eq (hfront.trans (Prod.ext rfl hlength.symm)) hpre]
    refine ⟨Word.isLongestIn_of_isRecognised (.inr (.inr hself)) hpre fun ds hds hr => ?_,
      IsPunctuation.isClassified (by rwa [String.toList_ofList]) hs⟩
    refine List.prefix_of_prefix_length_le hds hpre ?_
    rw [hlength]
    exact (length_le_of_isPunctuation hds (hpunctuation ds hds hr)).1

end Front

/-- The lexeme in front of a text is the longest match there, and its kind is the one of its
characters. The cases are those of the first character. -/
theorem frontWord_spec {text : List Char} (h : text ≠ []) :
    (frontWord text).IsLongestIn text ∧ (frontWord text).IsClassified := by
  obtain ⟨c, cs, rfl⟩ := List.exists_cons_of_ne_nil h
  cases hc : isWordStart c with
  | true => exact frontWord_of_isWordStart hc
  | false =>
    cases hd : isDigit c with
    | true => exact frontWord_of_isDigit hc hd
    | false => exact frontWord_of_isDigit_eq_false hc hd

/-! ## Texts that end behind a lexeme -/

/-- A longest match stays one in a text that ends behind it, so both texts have equally long
matches. -/
theorem Word.IsLongestIn.length_eq {v w : Word} {xs ys : List Char} (hv : v.IsLongestIn xs)
    (hw : w.IsLongestIn (xs ++ ys)) (hx : w.text.toList <+: xs) :
    v.text.toList.length = w.text.toList.length := by
  by_cases h : ∃ cs, cs <+: xs ∧ IsRecognised cs
  · obtain ⟨cs, hcs, hr⟩ := h
    obtain ⟨hwr, -⟩ := hw.longest cs (hcs.trans ⟨ys, rfl⟩) hr
    obtain ⟨hvr, hwv⟩ := hv.longest _ hx hwr
    obtain ⟨-, hvw⟩ := hw.longest _ (hv.characters.trans ⟨ys, rfl⟩) hvr
    exact Nat.le_antisymm hvw.length_le hwv.length_le
  · have hxs : ∀ cs, cs <+: xs → ¬ IsRecognised cs := fun cs hcs hr => h ⟨cs, hcs, hr⟩
    have hall : ∀ cs, cs <+: xs ++ ys → ¬ IsRecognised cs := fun cs hcs hr =>
      hxs _ hx (hw.longest cs hcs hr).1
    rw [(hv.invalid hxs).2, (hw.invalid hall).2]

/-- The lexeme in front is the same in a text that ends behind it. -/
theorem frontLexeme_of_append {xs ys : List Char} (hne : xs ≠ [])
    (h : (frontLexeme (xs ++ ys)).2 ≤ xs.length) : frontLexeme (xs ++ ys) = frontLexeme xs := by
  obtain ⟨c, cs, rfl⟩ := List.exists_cons_of_ne_nil hne
  obtain ⟨k, n, hfront, -, hn, hself⟩ := frontLexeme_take c (cs ++ ys)
  obtain ⟨k', n', hfront', -, hn', hself'⟩ := frontLexeme_take c cs
  rw [List.cons_append] at h ⊢
  rw [hfront] at h ⊢
  rw [hfront']
  have htake : (c :: (cs ++ ys)).take (n + 1) = (c :: cs).take (n + 1) := by
    rw [← List.cons_append, List.take_append_of_le_length h]
  have hlength : n' + 1 = n + 1 := by
    have hwhole := (frontWord_spec (List.cons_ne_nil c (cs ++ ys))).1
    have hpart := (frontWord_spec (List.cons_ne_nil c cs)).1
    have hpre : (frontWord (c :: (cs ++ ys))).text.toList <+: c :: cs := by
      rw [frontWord, hfront, String.toList_ofList, htake]
      exact List.take_prefix _ _
    have heq := hpart.length_eq hwhole hpre
    rwa [frontWord, frontWord, hfront, hfront', String.toList_ofList, String.toList_ofList,
      List.length_take_of_le hn, List.length_take_of_le hn'] at heq
  rw [← hself, ← hself', htake, hlength]

/-! ## The tokens of a text -/

/-- Every token of a text but its end is the longest match at its place, and its kind is the one
of its characters. The kinds of words are those of the reserved words, which are the spellings of
the kinds that stand for reserved words. -/
theorem tokenize_longest :
    (∀ word k, (word, k) ∈ TokenKind.reservedWords ↔
      k.isKeyword = true ∧ k.spelling? = some word) ∧
    ∀ {symbols : SymbolTable} {text : String} {t : Token},
      t ∈ (tokenize symbols text).1 → t.kind ≠ .eof →
        ∃ before rest : String, text = before ++ rest ∧ t.offset = before.utf8ByteSize ∧
          t.word.IsLongestIn rest.toList ∧ t.word.IsClassified := by
  refine ⟨fun _ _ => TokenKind.mem_reservedWords_iff, fun {symbols text t} h hkind => ?_⟩
  obtain ⟨i, hi⟩ := List.getElem?_of_mem h
  obtain ⟨hnext, -⟩ := TextCursor.getElem?_lexemes (getElem?_scan hi)
  obtain ⟨front, hfront⟩ := (TextCursor.standsBehind_ofText text).afterLexemes i
  have hskip := hfront.move (gapLength false ((TextCursor.ofText text).afterLexemes i).rest)
  set c := (TextCursor.ofText text).afterLexemes i
  have hword : t.word = frontWord c.skipGap.rest := congrArg Lexeme.word hnext
  have hoffset : t.offset = c.skipGap.offset := congrArg Lexeme.offset hnext
  have hne : c.skipGap.rest ≠ [] := fun hnil => by
    have hend := (TextCursor.next_of_skipGap_eq_nil hnil).1
    rw [← hnext] at hend
    exact hkind (congrArg Word.kind hend)
  refine ⟨String.ofList (front ++ c.rest.take (gapLength false c.rest)),
    String.ofList c.skipGap.rest, ?_, ?_, ?_, ?_⟩
  · rw [← String.ofList_append]
    exact (String.ofList_toList (s := text)).symm.trans (congrArg String.ofList hskip.text_eq)
  · rw [← byteCount_toList, String.toList_ofList, hoffset]
    exact hskip.offset_eq
  · rw [String.toList_ofList, hword]
    exact (frontWord_spec hne).1
  · rw [hword]
    exact (frontWord_spec hne).2

/-- A word that goes on behind a reserved word is the longest match, and an identifier. -/
theorem tokenize_longest_letter :
    ∃ t ∈ (tokenize (.empty 0) "!letter=>x").1, t.kind = .ident ∧
      ∃ before rest : String, "!letter=>x" = before ++ rest ∧ t.offset = before.utf8ByteSize ∧
        t.word.IsLongestIn rest.toList ∧ t.word.IsClassified := by
  have hany : (tokenize (.empty 0) "!letter=>x").1.any (·.kind == .ident) = true := by
    decide +kernel
  obtain ⟨t, ht, hident⟩ := List.any_eq_true.1 hany
  have hkind : t.kind = .ident := by simpa using hident
  exact ⟨t, ht, hkind, tokenize_longest.2 ht (by rw [hkind]; decide)⟩

end ConcreteSyntax
