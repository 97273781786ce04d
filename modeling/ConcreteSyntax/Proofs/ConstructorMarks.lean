import ConcreteSyntax.Proofs.FormedTrees

/-!
# Closers and the marks of constructors

The decision for a constructor counts brackets up to a closer and looks at the token
behind it. The parser of an enclosure knows nothing of this count, yet it stops exactly
behind the same closer. So the token that is taken as the mark of a constructor is the
one that was seen: the arrow of that sort of constructor. The trees of accepted texts
show it, for the marks in them are arrows of the right sort.
-/

namespace ConcreteSyntax

open TokenParser Grammar

variable {τ : Type} [HasKind τ] {rules : Rules}

/-! ## The closers of enclosures -/

/-- A closer that counting finds stands among the tokens. -/
theorem closerFrom_lt {depth place close : Nat} {ts : List τ}
    (h : closerFrom depth place ts = some close) : close < place + ts.length := by
  fun_induction closerFrom depth place ts with
  | case1 => contradiction
  | case2 _ _ _ _ _ ih | case4 _ _ _ _ _ _ ih | case5 _ _ _ _ _ _ ih =>
    have hclose := ih h
    rw [List.length_cons]
    omega
  | case3 =>
    cases h
    rw [List.length_cons]
    omega

/-- The closer of the opener at the front stands among the tokens. -/
theorem matchingCloser_lt {ts : List τ} {close : Nat} (h : matchingCloser ts = some close) :
    close < ts.length := by
  cases ts with
  | nil => contradiction
  | cons t ts =>
    rw [matchingCloser] at h
    split at h
    · have hclose := closerFrom_lt h
      rw [List.length_cons]
      omega
    · contradiction

/-- Whether a parser has succeeded. -/
def Outcome.isDone {α : Type} : Outcome τ α → Bool
  | .done _ _ => true
  | .failed _ _ => false

omit [HasKind τ] in
/-- A parser that has succeeded has a value and leaves tokens. -/
theorem Outcome.exists_of_isDone {α : Type} {o : Outcome τ α} (h : o.isDone = true) :
    ∃ v rest, o = .done v rest := by
  cases o with
  | done v rest => exact ⟨v, rest, rfl⟩
  | failed => contradiction

/-- That a parser, where it succeeds, stops behind the closer that counting finds. -/
def StopsAtCloser (p : TokenParser τ (Tree τ)) : Prop :=
  ∀ (ts rest : List τ) (t : Tree τ), p ts = .done t rest →
    ∃ (h : openers.contains (kindAt ts 0) = true) (close : Nat),
      findCloser ts 0 h = some close ∧ close < ts.length ∧ rest = ts.drop (close + 1)

/-- The parser of an enclosure stops behind the closer that counting finds. -/
theorem stopsAtCloser_enclosed (hp : rules.Proper) {opening closing : TokenKind}
    (hdel : IsDelimiters opening closing) :
    StopsAtCloser ((ofRules rules : Grammar τ).enclosed opening closing) := by
  intro ts rest t h
  have hread : Reading rules (.enclosed opening closing) ts t rest :=
    reads_enclosed (g := ofRules rules) (consumes_ofRules rules) (reads_ofRules hp) _ _ h
  obtain ⟨close, hclose, hrest, -⟩ := hread.matchingCloser_eq hp hdel
  obtain ⟨hopen, hfind⟩ := exists_findCloser hclose
  exact ⟨hopen, close, hfind, matchingCloser_lt hclose, hrest.symm⟩

/-- The parser of a specifier stops behind the closer that counting finds. -/
theorem stopsAtCloser_specifier (hp : rules.Proper) (sort : ConstructorSort) :
    StopsAtCloser ((ofRules rules : Grammar τ).specifier sort) := by
  have henclosed := stopsAtCloser_enclosed (τ := τ) hp sort.isDelimiters
  cases sort <;> exact henclosed

/-! ## The token behind the closer -/

/-- That a token of a kind stands behind the closer of the opener at the front, with
certain tokens after it. -/
def FollowsCloser (k : TokenKind) (ts : List τ) (m : τ) (rest : List τ) : Prop :=
  ∃ (h : openers.contains (kindAt ts 0) = true) (close : Nat), findCloser ts 0 h = some close ∧
    ts[close + 1]? = some m ∧ kind m = k ∧ rest = ts.drop (close + 2)

/-- A kind that is seen behind the closer is the kind of the next token where the parser
of an enclosure stops. -/
theorem StopsAtCloser.followsCloser {p : TokenParser τ (Tree τ)} (hstop : StopsAtCloser p)
    {ts mid : List τ} {t : Tree τ} (h : p ts = .done t mid) {close : Nat}
    {hopen : openers.contains (kindAt ts 0) = true} (hclose : findCloser ts 0 hopen = some close)
    {k : TokenKind}
    (hk : kindAt ts (close + 1) = k) (hne : k ≠ .eof) :
    ∃ m rest, FollowsCloser k ts m rest ∧ mid = m :: rest := by
  obtain ⟨hopen', close', hclose', -, rfl⟩ := hstop _ _ _ h
  obtain rfl : close' = close := Option.some.inj (hclose'.symm.trans hclose)
  cases hm : ts[close' + 1]? with
  | none =>
    rw [kindAt, hm] at hk
    exact absurd hk.symm hne
  | some m =>
    rw [kindAt, hm] at hk
    refine ⟨m, ts.drop (close' + 2), ⟨hopen, close', hclose, hm, hk, rfl⟩, ?_⟩
    obtain ⟨hlt, hget⟩ := List.getElem?_eq_some_iff.1 hm
    rw [List.drop_eq_getElem_cons hlt, hget]

/-- A constructor whose mark is announced has its arrow behind the closer. -/
theorem exists_arrow_of_constructorAhead? {ts : List τ} {form : ConstructorForm}
    (h : constructorAhead? rules ts = some form) (hm : form.marked = true) :
    ∃ (h : openers.contains (kindAt ts 0) = true) (close : Nat),
      findCloser ts 0 h = some close ∧ kindAt ts (close + 1) = form.sort.arrow := by
  unfold constructorAhead? at h
  split at h
  · next hfirst =>
    refine ⟨opens_of_eq hfirst, ?_⟩
    grind [ConstructorSort.arrow]
  · contradiction

/-- The mark that is taken behind a specifier is the token that announced it. -/
theorem mark?_followsCloser (hp : rules.Proper) {ts mid : List τ} {form : ConstructorForm}
    {s : Tree τ} (h : constructorAhead? rules ts = some form) (hm : form.marked = true)
    (hs : (ofRules rules).specifier form.sort ts = .done s mid) :
    ∃ m rest, FollowsCloser form.sort.arrow ts m rest ∧
      mark? form.marked mid = .done (some m) rest := by
  obtain ⟨hopen, close, hclose, hk⟩ := exists_arrow_of_constructorAhead? h hm
  have harrow : form.sort.arrow ≠ .eof := by cases form.sort <;> decide
  obtain ⟨m, rest, hfollows, rfl⟩ :=
    (stopsAtCloser_specifier hp form.sort).followsCloser hs hclose hk harrow
  exact ⟨m, rest, hfollows, by rw [hm]; rfl⟩

/-- An arrow that is seen behind a parenthesis is there when it is expected. -/
theorem expect_followsCloser (hp : rules.Proper) {ts mid : List τ} {s : Tree τ}
    {hopen : openers.contains (kindAt ts 0) = true}
    (h : closerFollowedBy .thinArrow ts 0 hopen = true)
    (hs : (ofRules rules).paren ts = .done s mid) :
    ∃ m rest, FollowsCloser .thinArrow ts m rest ∧ expect .thinArrow mid = .done m rest := by
  rw [closerFollowedBy] at h
  cases hclose : findCloser ts 0 hopen with
  | none => rw [hclose] at h; contradiction
  | some close =>
    have hk : kindAt ts (close + 1) = .thinArrow := by simpa [hclose] using h
    have hstop := stopsAtCloser_specifier (τ := τ) hp .function
    obtain ⟨m, rest, hfollows, rfl⟩ := hstop.followsCloser hs hclose hk (by decide)
    have hkind : kind m = .thinArrow := by
      obtain ⟨-, -, -, -, hkind, -⟩ := hfollows
      exact hkind
    exact ⟨m, rest, hfollows, by simp [expect, hkind]⟩

/-! ## Marks in trees -/

/-- Whether the mark of a constructor, if it has one, is the arrow of its sort. An array
has no mark. -/
def Tree.isArrowMarked : Tree τ → Bool
  | .array mark _ _ => mark.isNone
  | .function mark _ _ => mark.all fun m => HasKind.kind m == .thinArrow
  | .template mark _ _ => mark.all fun m => HasKind.kind m == .fatArrow
  | _ => true

/-- The constructors of the standard dialect have arrows as marks. -/
theorem Reading.isArrowMarked {ts rest : List τ} {t : Tree τ}
    (h : Reading Dialect.standard.rules .constructor ts t rest) : t.isArrowMarked = true := by
  cases h with
  | wordConstructor hc => contradiction
  | @unmarkedConstructor sort => cases sort <;> rfl
  | @markedConstructor sort _ _ _ _ _ _ ho hm =>
    cases sort with
    | array =>
      have hahead : constructorAhead? Dialect.standard.rules ts = some ⟨.array, true⟩ := ho
      unfold constructorAhead? at hahead
      grind
    | function => simpa [ConstructorSort.build, Tree.isArrowMarked, ConstructorSort.arrow] using hm
    | template => simpa [ConstructorSort.build, Tree.isArrowMarked, ConstructorSort.arrow] using hm

/-- The constructors in the tree of a text that the standard dialect accepts have arrows
as marks. -/
theorem everywhere_isArrowMarked {symbols : SymbolTable} {text : String} {t : Tree Token}
    (h : (parseText symbols .standard text).1 = .ok t) :
    t.Everywhere fun node => node.isArrowMarked = true := by
  obtain ⟨ds, rfl, hr⟩ := exists_reading_of_parseText h
  have hother : ∀ t : Tree Token, t.isConstructor = false →
      t.isFormed Dialect.standard.rules = true → t.isArrowMarked = true := by
    intro t ht _
    cases t <;> first | rfl | contradiction
  have hds : ∀ d ∈ ds, d.Everywhere fun node => node.isArrowMarked = true :=
    hr.everywhere (fun h => h.isArrowMarked) hother
  have hbody := Tree.everywhere_sequence? (fun _ _ => rfl) hds
  exact Tree.everywhere_of_children rfl (by simpa [Tree.children] using hbody)

/-- Looking past a closer and reading up to it agree. An enclosure ends behind the closer
that counting finds; the token that is taken as a mark is the arrow that the decision saw
behind this closer; the arrow that is expected behind parameters is there; and the marks in
the trees of the standard dialect are arrows. -/
theorem closers_agree (dialect : Dialect) :
    (StopsAtCloser (ofRules dialect.rules : Grammar τ).paren ∧
      StopsAtCloser (ofRules dialect.rules : Grammar τ).bracket) ∧
    (∀ (ts mid : List τ) (form : ConstructorForm) (s : Tree τ),
      constructorAhead? dialect.rules ts = some form → form.marked = true →
      (ofRules dialect.rules).specifier form.sort ts = .done s mid →
      ∃ m rest, FollowsCloser form.sort.arrow ts m rest ∧
        mark? form.marked mid = .done (some m) rest) ∧
    (∀ (ts mid : List τ) (s : Tree τ) (h : openers.contains (kindAt ts 0) = true),
      closerFollowedBy .thinArrow ts 0 h = true → (ofRules dialect.rules).paren ts = .done s mid →
      ∃ m rest, FollowsCloser .thinArrow ts m rest ∧ expect .thinArrow mid = .done m rest) ∧
    (∀ (symbols : SymbolTable) (text : String) (t : Tree Token),
      (parseText symbols .standard text).1 = .ok t →
      t.Everywhere fun node => node.isArrowMarked = true) := by
  have hp := dialect.proper_rules
  refine ⟨⟨?_, ?_⟩, ?_, ?_, ?_⟩
  · exact stopsAtCloser_specifier hp .function
  · exact stopsAtCloser_specifier hp .array
  · intro ts mid form s h hm hs
    exact mark?_followsCloser hp h hm hs
  · intro ts mid s hopen h hs
    exact expect_followsCloser hp h hs
  · intro symbols text t h
    exact everywhere_isArrowMarked h

/-- The arrow behind the parameters of a function is seen, and it is the mark that is
taken. -/
theorem closers_agree_function :
    let ts := (tokenize (.empty 0) "(x: [2] int) -> bool;").1.dropLast
    ∃ s mid m rest, (ofRules Dialect.standard.rules).specifier .function ts = .done s mid ∧
      FollowsCloser .thinArrow ts m rest ∧ mark? true mid = .done (some m) rest := by
  intro ts
  have hahead : constructorAhead? Dialect.standard.rules ts = some ⟨.function, true⟩ := by
    decide +kernel
  have hdone : ((ofRules Dialect.standard.rules).specifier .function ts).isDone = true := by
    decide +kernel
  clear_value ts
  obtain ⟨s, mid, hs⟩ := Outcome.exists_of_isDone hdone
  obtain ⟨-, hmark, -⟩ := closers_agree (τ := Token) .standard
  obtain ⟨m, rest, hfollows, hm⟩ := hmark ts mid ⟨.function, true⟩ s hahead rfl hs
  exact ⟨s, mid, m, rest, hs, hfollows, hm⟩

end ConcreteSyntax
