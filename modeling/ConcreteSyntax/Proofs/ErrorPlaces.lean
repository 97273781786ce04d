import ConcreteSyntax.Proofs.LexemePlaces
import ConcreteSyntax.Proofs.ReaderCursors

/-!
# Where errors are and how reading goes on

A reading that fails leaves the reader at the token that did not fit. The error has the
position of this token, and its diagnostic marks the characters of the token in the text.
From there the next reading goes on as if the tokens before had never been. A reading that
leads nowhere is repeated by all later ones; since every other reading takes a token, a
reader comes to rest after as many readings as there are tokens.
-/

namespace ConcreteSyntax

open TokenParser Grammar

namespace FileReader

variable {r : FileReader}

/-! ## One reading -/

/-- A reader of a text begins at the tokens of the text. -/
theorem ofText_fst (symbols : SymbolTable) (dialect : Dialect) (text : String) :
    (ofText symbols dialect text).1 = ofTokens text dialect (tokenize symbols text).1 := rfl

/-- Readers that have the same ahead, with the same end, read the same, and move by the same
number of tokens. -/
theorem read_congr {r' : FileReader} (hdialect : r.dialect = r'.dialect)
    (hahead : r.ahead = r'.ahead) (hfinish : r.finish = r'.finish) :
    r.read.1 = r'.read.1 ∧ r.read.2.index + r'.index = r'.read.2.index + r.index := by
  constructor
  · unfold read
    rw [hdialect, hahead, hfinish]
    cases parseTokens r'.dialect r'.ahead <;> rfl
  · rw [read_snd, read_snd, hdialect, hahead]
    show r.index + _ + r'.index = r'.index + _ + r.index
    omega

/-- A reader that stands at an index of a buffer reads what a first reading of the buffer from
there on gives, and moves as far. -/
theorem StandsAt.read_eq {buffer : List Token} {n : Nat} (h : r.StandsAt buffer n) :
    r.read.1 = (ofTokens r.text r.dialect (buffer.drop n)).read.1 ∧
      r.read.2.index = n + (ofTokens r.text r.dialect (buffer.drop n)).read.2.index := by
  have hdialect : r.dialect = (ofTokens r.text r.dialect (buffer.drop n)).dialect := rfl
  have hahead : r.ahead = (ofTokens r.text r.dialect (buffer.drop n)).ahead := by
    rw [h.remaining]
    show r.ahead = (r.ahead ++ [r.finish]).dropLast.drop 0
    rw [List.dropLast_concat, List.drop_zero]
  have hfinish : r.finish = (ofTokens r.text r.dialect (buffer.drop n)).finish := by
    rw [h.remaining]
    show r.finish = (r.ahead ++ [r.finish]).getLastD default
    rw [List.getLastD_concat]
  obtain ⟨hresult, hindex⟩ := read_congr hdialect hahead hfinish
  rw [h.index_eq, show (ofTokens r.text r.dialect (buffer.drop n)).index = 0 from rfl] at hindex
  exact ⟨hresult, by omega⟩

/-- Where nothing is ahead, a file without declarations is read, and nothing else happens. -/
theorem read_of_ahead_eq_nil (h : r.ahead = []) : r.read = (.ok (.file none), r) := by
  have hp : parseTokens r.dialect r.ahead = .done (.file none) [] := by
    rw [h]
    rfl
  unfold read
  rw [hp, h]
  rfl

/-- A reading that moves the reader takes a token. -/
theorem length_ahead_lt_of_ne (h : r.read.2 ≠ r) : r.read.2.ahead.length < r.ahead.length := by
  have hsuffix := r.read_ahead_suffix
  refine lt_of_le_of_ne hsuffix.length_le fun hlength => h ?_
  rw [ahead_read] at hlength
  rw [read_snd, hlength, Nat.sub_self]
  rfl

/-! ## Many readings -/

/-- The first of several readings, and the others from where it leads. -/
theorem readTimes_succ (r : FileReader) (count : Nat) :
    r.readTimes (count + 1) =
      (r.read.1 :: (r.read.2.readTimes count).1, (r.read.2.readTimes count).2) := rfl

/-- Readings may be done in two portions. -/
theorem readTimes_add_snd (r : FileReader) (m n : Nat) :
    (r.readTimes (m + n)).2 = ((r.readTimes m).2.readTimes n).2 := by
  induction m generalizing r with
  | zero => rw [Nat.zero_add]; rfl
  | succ m ih =>
    rw [Nat.succ_add, readTimes_succ, readTimes_succ]
    exact ih r.read.2

/-- Each result of several readings is that of one reading after those before it. -/
theorem getElem?_readTimes (r : FileReader) {count i : Nat} (hi : i < count) :
    (r.readTimes count).1[i]? = some (r.readTimes i).2.read.1 := by
  induction count generalizing r i with
  | zero => exact absurd hi (Nat.not_lt_zero _)
  | succ count ih =>
    rw [readTimes_succ]
    cases i with
    | zero => rfl
    | succ i =>
      rw [List.getElem?_cons_succ, ih r.read.2 (Nat.lt_of_succ_lt_succ hi), readTimes_succ]

/-- A reading that leads nowhere is repeated by all later ones. -/
theorem readTimes_of_read_eq (h : r.read.2 = r) (count : Nat) :
    r.readTimes count = (List.replicate count r.read.1, r) := by
  induction count with
  | zero => rfl
  | succ count ih => rw [readTimes_succ, h, ih, List.replicate_succ]

/-- After as many readings as there are tokens ahead, reading leads nowhere. The induction
runs over the number of readings: each of them leads nowhere or takes a token. -/
theorem read_readTimes_snd {count : Nat} (h : r.ahead.length ≤ count) :
    (r.readTimes count).2.read.2 = (r.readTimes count).2 := by
  induction count generalizing r with
  | zero =>
    have hnil : r.ahead = [] := List.length_eq_zero_iff.1 (Nat.le_zero.1 h)
    exact congrArg Prod.snd (read_of_ahead_eq_nil hnil)
  | succ count ih =>
    by_cases hstay : r.read.2 = r
    · rw [readTimes_of_read_eq hstay]
      exact hstay
    · have hless := length_ahead_lt_of_ne hstay
      rw [readTimes_succ]
      exact ih (by omega)

/-- From as many readings as there are tokens ahead on, all readings have the same result. -/
theorem read_readTimes_fst {count : Nat} (h : r.ahead.length ≤ count) :
    (r.readTimes count).2.read.1 = (r.readTimes r.ahead.length).2.read.1 := by
  obtain ⟨k, rfl⟩ : ∃ k, count = r.ahead.length + k := ⟨count - r.ahead.length, by omega⟩
  have hrest := read_readTimes_snd (Nat.le_refl r.ahead.length)
  rw [readTimes_add_snd, readTimes_of_read_eq hrest]

end FileReader

/-! ## Errors in a text -/

/-- That an error is anchored in a text with a buffer of tokens, with a reader left at it: the
reader stands at the only index of the token that was found, and the error has the position of
this token, which is reached by reading what is before the token. The diagnostic marks the
characters of the token. -/
def SyntaxError.IsAnchored (e : SyntaxError) (text : String) (buffer : List Token)
    (r : FileReader) : Prop :=
  (r.StandsAt buffer r.index ∧ ∀ i, buffer[i]? = some e.found ↔ i = r.index) ∧
  e.position = e.found.start ∧
  ∃ before after : String, text = before ++ e.found.spelling ++ after ∧
    e.position = before.toList.foldl Position.after .first ∧
    e.diagnostic.start = before.utf8ByteSize ∧
    e.diagnostic.stop = (before ++ e.found.spelling).utf8ByteSize

/-- A token stands at one index of a text's buffer only. -/
theorem tokenize_getElem?_unique {symbols : SymbolTable} {text : String} {i j : Nat} {t : Token}
    (hi : (tokenize symbols text).1[i]? = some t) (hj : (tokenize symbols text).1[j]? = some t) :
    i = j := by
  obtain ⟨ts, finish, hbuffer, -, -, hpair⟩ := tokenize_spec symbols text
  rw [← hbuffer] at hpair
  obtain ⟨hi', hit⟩ := List.getElem?_eq_some_iff.1 hi
  obtain ⟨hj', hjt⟩ := List.getElem?_eq_some_iff.1 hj
  have hless := List.pairwise_iff_getElem.1 hpair
  rcases Nat.lt_trichotomy i j with hlt | heq | hgt
  · have hoffset := hless i j hi' hj' hlt
    rw [hit, hjt] at hoffset
    omega
  · exact heq
  · have hoffset := hless j i hj' hi' hgt
    rw [hit, hjt] at hoffset
    omega

/-- An error of a reader of a text is anchored. -/
theorem isAnchored_of_read {symbols : SymbolTable} {text : String} {r : FileReader} {n : Nat}
    (h : r.StandsAt (tokenize symbols text).1 n) {e : SyntaxError} (he : r.read.1 = .error e) :
    e.IsAnchored text (tokenize symbols text).1 r.read.2 := by
  obtain ⟨m, -, hm⟩ := h.read
  have hfound := h.getElem?_of_read he
  obtain ⟨before, after, htext, hstart, hoffset⟩ :=
    standsIn_of_mem_tokenize (List.mem_of_getElem? hfound)
  refine ⟨⟨hm.index_eq ▸ hm, fun i => ⟨fun hi => tokenize_getElem?_unique hi hfound, ?_⟩⟩, rfl,
    before, after, htext, hstart, hoffset, ?_⟩
  · rintro rfl
    exact hfound
  · have hstop : e.diagnostic.stop = e.found.offset + e.found.spelling.utf8ByteSize := rfl
    have hbefore : e.found.offset = before.utf8ByteSize := hoffset
    rw [hstop, hbefore, String.utf8ByteSize_append]

/-- Errors are anchored, and reading goes on where they are. After any number of readings of
a text, a reading that fails leaves the reader at the token that was found; the next reading
has the result of a first reading of the tokens from there on, and moves as far; behind a success
there is a file without declarations; a failure that leads nowhere is repeated; and from as many
readings as there are tokens on all results are the same. -/
theorem readings_anchored (symbols : SymbolTable) (dialect : Dialect) (text : String)
    (count : Nat) :
    let first := (FileReader.ofText symbols dialect text).1
    let buffer := (tokenize symbols text).1
    let r := (first.readTimes count).2
    (∀ e, r.read.1 = .error e → e.IsAnchored text buffer r.read.2) ∧
    first = FileReader.ofTokens text dialect buffer ∧
    (r.read.1 = (FileReader.ofTokens text dialect (buffer.drop r.index)).read.1 ∧
      r.read.2.index =
        r.index + (FileReader.ofTokens text dialect (buffer.drop r.index)).read.2.index) ∧
    (∀ t, r.read.1 = .ok t → r.read.2.read = (.ok (.file none), r.read.2)) ∧
    (∀ e, r.read.1 = .error e → r.read.2 = r →
      ∀ later, r.readTimes later = (List.replicate later (.error e), r)) ∧
    (∀ i j, buffer.dropLast.length ≤ i → i < count → buffer.dropLast.length ≤ j → j < count →
      (first.readTimes count).1[i]? = (first.readTimes count).1[j]?) := by
  intro first buffer r
  have hfollows := FileReader.follows_ofText symbols dialect text count
  obtain ⟨n, hn⟩ := hfollows.standsAt
  refine ⟨fun e he => isAnchored_of_read hn he, FileReader.ofText_fst _ _ _, ?_, ?_, ?_, ?_⟩
  · have htext : r.text = text := hfollows.text_eq
    have hdialect : r.dialect = dialect := hfollows.dialect_eq
    have heq := hn.read_eq
    rw [htext, hdialect] at heq
    rw [hn.index_eq]
    exact heq
  · intro t ht
    refine FileReader.read_of_ahead_eq_nil (FileReader.read_ok_ahead ?_ ht)
    intro u hu
    rw [hn.ahead_eq] at hu
    exact kind_ne_eof_of_mem_tokenize u (List.mem_of_mem_drop hu)
  · intro e he hstay later
    rw [FileReader.readTimes_of_read_eq hstay, he]
  · intro i j hi hic hj hjc
    have hrest : ∀ k, buffer.dropLast.length ≤ k → (first.readTimes k).2.read.1 =
        (first.readTimes first.ahead.length).2.read.1 :=
      fun k hk => FileReader.read_readTimes_fst hk
    rw [first.getElem?_readTimes hic, first.getElem?_readTimes hjc, hrest i hi, hrest j hj]

/-- An error behind a value, and readings that go on with the declaration there. -/
theorem readings_anchored_resumed :
    let text := "f: int = 1 g: int;"
    let first := (FileReader.ofText (.empty 0) .keyword text).1
    ∃ e t, first.read.1 = .error e ∧
      e.IsAnchored text (tokenize (.empty 0) text).1 first.read.2 ∧ first.read.2.index = 5 ∧
      first.read.2.read.1 = .ok t ∧ first.read.2.read.2.read.1 = .ok (.file none) := by
  intro text first
  have herror : first.read.1.isOk = false := by decide +kernel
  have htree : first.read.2.read.1.isOk = true := by decide +kernel
  have hindex : first.read.2.index = 5 := by decide +kernel
  have hanchored : ∀ e, first.read.1 = .error e →
      e.IsAnchored text (tokenize (.empty 0) text).1 first.read.2 :=
    (readings_anchored (.empty 0) .keyword text 0).1
  have hbehind : ∀ t, first.read.2.read.1 = .ok t → first.read.2.read.2.read =
      (.ok (.file none), first.read.2.read.2) :=
    (readings_anchored (.empty 0) .keyword text 1).2.2.2.1
  clear_value first
  cases he : first.read.1 with
  | ok t => rw [he] at herror; contradiction
  | error e =>
    cases ht : first.read.2.read.1 with
    | error e => rw [ht] at htree; contradiction
    | ok t => exact ⟨e, t, rfl, hanchored e he, hindex, rfl, congrArg Prod.fst (hbehind t ht)⟩

end ConcreteSyntax
