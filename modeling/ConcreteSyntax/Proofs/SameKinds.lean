import ConcreteSyntax.Proofs.FileReadings

/-!
# Texts with tokens of the same kinds

A buffer of tokens can be read by its kinds alone: every token is replaced by its place, which
has a kind. What is read of the places tells what is read of every buffer with these kinds, so
two such buffers give trees of one shape, or they fail in the same way at the same place.
-/

namespace ConcreteSyntax

open TokenParser

/-! ## Replacing tokens twice -/

namespace Tree

variable {τ σ ρ : Type} (f : τ → σ) (g : σ → ρ)

mutual

/-- Replacing tokens twice is replacing them once by both replacements. -/
theorem map_map : ∀ t : Tree τ, (t.map f).map g = t.map (g ∘ f)
  | literal _ => rfl
  | identifier _ => rfl
  | prefixOp _ operand => congrArg (prefixOp _) (map_map operand)
  | postfixOp operand _ => congrArg (postfixOp · _) (map_map operand)
  | enclosure _ term _ => congrArg (enclosure _ · _) (mapSlot_mapSlot term)
  | file declarations => congrArg file (mapSlot_mapSlot declarations)
  | infixOp left _ right => congrArg₂ (infixOp · _ ·) (map_map left) (map_map right)
  | array mark specifier result => by
    simp only [Tree.map, map_map specifier, map_map result, Option.map_map]
  | function mark specifier result => by
    simp only [Tree.map, map_map specifier, map_map result, Option.map_map]
  | template mark specifier result => by
    simp only [Tree.map, map_map specifier, map_map result, Option.map_map]
  | call applicant arguments => congrArg₂ call (map_map applicant) (map_map arguments)
  | index applicant arguments => congrArg₂ index (map_map applicant) (map_map arguments)
  | control _ head body => congrArg₂ (control _) (mapSlot_mapSlot head) (mapSlot_mapSlot body)
  | constraint _ type pattern => congrArg₂ (constraint _) (mapSlot_mapSlot type) (map_map pattern)
  | capture captures parameters => congrArg₂ capture (map_map captures) (map_map parameters)
  | declaration introducer declarator type initializer terminator => by
    simp only [Tree.map, mapSlot_mapSlot declarator, mapSlot_mapSlot type,
      mapSlot_mapSlot initializer, Option.map_map]
  | list terms => congrArg list (mapTerms_mapTerms terms)
  | sequence terms => congrArg sequence (mapTerms_mapTerms terms)

/-- The same of an operand that may be absent. -/
theorem mapSlot_mapSlot : ∀ slot : Option (Tree τ),
    mapSlot g (mapSlot f slot) = mapSlot (g ∘ f) slot
  | none => rfl
  | some t => congrArg some (map_map t)

/-- The same of terms. -/
theorem mapTerms_mapTerms : ∀ ts : List (Tree τ),
    mapTerms g (mapTerms f ts) = mapTerms (g ∘ f) ts
  | [] => rfl
  | t :: ts => congrArg₂ List.cons (map_map t) (mapTerms_mapTerms ts)

end

end Tree

/-! ## Places in a buffer -/

/-- A place in a buffer of which only the kinds are known. -/
structure Place (ks : List TokenKind) where
  /-- The number of kinds before the place. -/
  index : Nat
  /-- The place is inside the buffer. -/
  index_lt : index < ks.length

namespace Place

variable {ks : List TokenKind}

instance : HasKind (Place ks) := ⟨fun p => ks.get ⟨p.index, p.index_lt⟩⟩

/-- The places of a buffer from left to right. -/
def all (ks : List TokenKind) : List (Place ks) :=
  (List.finRange ks.length).map fun i => ⟨i.val, i.isLt⟩

variable {τ : Type} [HasKind τ] {ts : List τ}

/-- The token at a place of a buffer with the given kinds. -/
def token (h : ts.map kind = ks) (p : Place ks) : τ :=
  ts.get ⟨p.index, Nat.lt_of_lt_of_eq p.index_lt (h ▸ List.length_map _)⟩

variable (h : ts.map kind = ks)

/-- The token at a place is of the kind of the place. -/
theorem kind_token (p : Place ks) : kind (p.token h) = kind p := by
  subst h
  show _ = (ts.map kind).get _
  simp [token]

/-- The token at a place is found by its index. -/
theorem getElem?_token (p : Place ks) : ts[p.index]? = some (p.token h) :=
  List.getElem?_eq_getElem _

/-- The tokens at all places are the buffer. -/
theorem map_token_all : (all ks).map (token h) = ts := by
  subst h
  refine List.ext_getElem? fun i => ?_
  by_cases hi : i < ts.length
  · simp [all, token, hi]
  · simp [all, hi]

/-- Reading a buffer is reading the places of its kinds. -/
theorem parseTokens_eq (dialect : Dialect) :
    parseTokens dialect ts =
      (parseTokens dialect (all ks)).map (token h) (Tree.map (token h)) := by
  rw [← parseTokens_map (kind_token h), map_token_all]

end Place

/-! ## Results along two buffers -/

/-- That two results differ in the tokens only, which stand at the same places of two buffers:
they are trees of one shape, or errors with the same expectation. -/
inductive AgreeAlong (ts us : List Token) :
    Except SyntaxError (Tree Token) → Except SyntaxError (Tree Token) → Prop
  | trees {t u : Tree Token} (shape : Tree Nat) : t.map some = shape.map (ts[·]?) →
      u.map some = shape.map (us[·]?) → AgreeAlong ts us (.ok t) (.ok u)
  | errors {e e' : SyntaxError} (index : Nat) : e.expected = e'.expected →
      ts[index]? = some e.found → us[index]? = some e'.found →
      AgreeAlong ts us (.error e) (.error e')

section Buffers

variable {ks : List TokenKind} {ts : List Token} (h : ts.map kind = ks) (finish : Token)

/-- The token at a place is found in the whole buffer. -/
theorem Place.getElem?_concat (p : Place ks) : (ts ++ [finish])[p.index]? = some (p.token h) := by
  have hlt : p.index < ts.length := by
    have hlength : ts.length = ks.length := by rw [← h, List.length_map]
    exact hlength ▸ p.index_lt
  rw [List.getElem?_append_left hlt, p.getElem?_token h]

/-- A tree that was read of places has the tokens at these places. -/
theorem Place.map_some_map (tree : Tree (Place ks)) :
    (tree.map (Place.token h)).map some =
      (tree.map Place.index).map ((ts ++ [finish])[·]?) := by
  rw [Tree.map_map, Tree.map_map]
  congr 1
  funext p
  exact (p.getElem?_concat h finish).symm

/-- The index in the whole buffer of what a failure has found. -/
theorem Place.getElem?_getD (found : Option (Place ks)) :
    (ts ++ [finish])[(found.map Place.index).getD ks.length]? =
      some ((found.map (Place.token h)).getD finish) := by
  cases found with
  | none =>
    subst h
    simp
  | some p => exact p.getElem?_concat h finish

end Buffers

/-- Two texts whose tokens have the same kinds, one by one, give trees of one shape with the
tokens of either text at the same places, or they are refused with the same expectation, at
tokens with the same place. -/
theorem parseText_agree {symbols symbols' : SymbolTable} {text text' : String}
    (h : (tokenize symbols text).1.map Token.kind = (tokenize symbols' text').1.map Token.kind)
    (dialect : Dialect) :
    AgreeAlong (tokenize symbols text).1 (tokenize symbols' text').1
      (parseText symbols dialect text).1 (parseText symbols' dialect text').1 := by
  obtain ⟨ts, finish, hbuffer, -⟩ := tokenize_spec symbols text
  obtain ⟨us, finish', hbuffer', -⟩ := tokenize_spec symbols' text'
  have hkinds : us.map kind = ts.map kind := by
    rw [hbuffer, hbuffer', List.map_append, List.map_append] at h
    exact (List.append_inj_left' h rfl).symm
  simp only [parseText_fst, hbuffer, hbuffer', List.dropLast_concat, List.getLastD_concat,
    Place.parseTokens_eq (rfl : ts.map kind = ts.map kind), Place.parseTokens_eq hkinds]
  cases parseTokens dialect (Place.all (ts.map kind)) with
  | done tree rest =>
    exact .trees (tree.map Place.index) (Place.map_some_map rfl finish tree)
      (Place.map_some_map hkinds finish' tree)
  | failed e rest =>
    exact .errors _ rfl (Place.getElem?_getD rfl finish e.found)
      (Place.getElem?_getD hkinds finish' e.found)

/-- Other names, numbers, gaps and comments change neither the shape of a tree nor the place of
an error. -/
theorem parseText_agree_names :
    AgreeAlong (tokenize (.empty 0) "x: [2] int = y;").1
      (tokenize (.empty 1) "# c\nlong : [ 10 ]int=z ;").1
      (parseText (.empty 0) .standard "x: [2] int = y;").1
      (parseText (.empty 1) .standard "# c\nlong : [ 10 ]int=z ;").1 :=
  parseText_agree (by decide +kernel) .standard

end ConcreteSyntax
