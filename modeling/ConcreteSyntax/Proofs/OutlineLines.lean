import ConcreteSyntax.Proofs.KeptTokens
import ConcreteSyntax.Proofs.LaidOutTexts
import ConcreteSyntax.Proofs.NodesInOrder
import ConcreteSyntax.Proofs.TokenPlaces
import ConcreteSyntax.Proofs.WrittenSpans
import ConcreteSyntax.TreeSpans

/-!
# Trees told by their outlines

An outline has a line for every node, in the order of a walk. When no spelling has a line feed, the
line feeds tell the lines, the spaces in front of a line tell the depth of its node, the first word
tells the kind, and the word behind it, if it begins with an at sign, tells the span. The depths
then tell the nesting. What cannot be told is which operand places are empty: these have no line.
-/

namespace ConcreteSyntax

/-! ## Lines -/

/-- Lines without line feeds are told from the text in which each of them is ended by one. -/
theorem eq_of_join_lines {lines lines' : List String} (h : ∀ l ∈ lines, '\n' ∉ l.toList)
    (h' : ∀ l ∈ lines', '\n' ∉ l.toList)
    (hjoin : String.join (lines.map (· ++ "\n")) = String.join (lines'.map (· ++ "\n"))) :
    lines = lines' := by
  have hnonempty : ∀ (l : String) (ls : List String),
      String.join ((l :: ls).map (· ++ "\n")) ≠ "" := by
    intro l ls hempty
    simpa using congrArg String.toList hempty
  induction lines generalizing lines' with
  | nil =>
    cases lines' with
    | nil => rfl
    | cons l' ls' => exact absurd hjoin.symm (hnonempty l' ls')
  | cons l ls ih =>
    cases lines' with
    | nil => exact absurd hjoin (hnonempty l ls)
    | cons l' ls' =>
      obtain ⟨hl, hls⟩ := List.forall_mem_cons.1 h
      obtain ⟨hl', hls'⟩ := List.forall_mem_cons.1 h'
      have hchars := congrArg String.toList hjoin
      simp only [List.map_cons, String.join_cons, String.toList_append, List.append_assoc] at hchars
      obtain ⟨hfirst, hothers⟩ := append_inj_of_mark hl hl' (by simp) (by simp) hchars
      have hrest := String.toList_inj.1 (List.append_cancel_left hothers)
      rw [String.toList_inj.1 hfirst, ih hls hls' hrest]

namespace NodeKind

/-- The name of a kind is one word. -/
theorem space_notMem_name (k : NodeKind) : ' ' ∉ k.name.toList := by
  have hall : ∀ k ∈ all, ' ' ∉ k.name.toList := by decide
  exact hall k (mem_all k)

/-- The name of a kind has no line feed. -/
theorem lineFeed_notMem_name (k : NodeKind) : '\n' ∉ k.name.toList := by
  have hall : ∀ k ∈ all, '\n' ∉ k.name.toList := by decide
  exact hall k (mem_all k)

/-- The name of a kind is not empty. -/
theorem name_ne_empty (k : NodeKind) : k.name.toList ≠ [] := by
  have hall : ∀ k ∈ all, k.name.toList ≠ [] := by decide
  exact hall k (mem_all k)

/-- Kinds are told by their names. -/
theorem name_inj {k l : NodeKind} (h : k.name = l.name) : k = l := by
  have hall : ∀ k ∈ all, ∀ l ∈ all, k.name = l.name → k = l := by decide
  exact hall k (mem_all k) l (mem_all l) h

end NodeKind

namespace Tree

variable {t u : Tree Token}

/-- That no token of a tree has a line feed in its spelling. -/
def IsOneLined (t : Tree Token) : Prop := ∀ b ∈ t.tokens, '\n' ∉ b.spelling.toList

/-- The span of a node, if it has a place. -/
def placed? (t : Tree Token) : Option Span := if t.span.IsValid then some t.span else none

/-- A span that is given has a place. -/
theorem isValid_of_placed? {s : Span} (h : t.placed? = some s) : s.IsValid := by
  rw [placed?, Option.ite_none_right_eq_some] at h
  obtain ⟨hvalid, heq⟩ := h
  exact Option.some.inj heq ▸ hvalid

/-! ## What stands in a line -/

/-- The word of a line that shows the span. -/
def placeNote (t : Tree Token) : List Char :=
  t.placed?.elim [] fun s => ' ' :: '@' :: s.toText.toList

/-- The characters of a line are those of its three parts. -/
theorem toList_summary (t : Tree Token) :
    t.summary.toList = t.kind.name.toList ++ (t.placeNote ++ t.tokenNote.toList) := by
  have hplace : (if t.span.IsValid then " @" ++ t.span.toText else "").toList = t.placeNote := by
    rw [placeNote, placed?]
    split
    · rw [String.toList_append]
      rfl
    · rfl
  rw [summary, String.toList_append, String.toList_append, hplace, List.append_assoc]

/-- The labels that stand in front of tokens. -/
def tokenLabels : List String := "kind" :: NodeKind.all.filterMap tokenLabel?

/-- A label is a word that does not begin with an at sign. -/
theorem exists_of_mem_tokenLabels {label : String} (h : label ∈ tokenLabels) :
    '\n' ∉ label.toList ∧ ∃ c note, label.toList = c :: note ∧ c ≠ '@' := by
  have hall : ∀ label ∈ tokenLabels, '\n' ∉ label.toList ∧ label.toList.head?.any (· != '@') := by
    decide
  obtain ⟨hline, hhead⟩ := hall label h
  cases hchars : label.toList with
  | nil => rw [hchars] at hhead; contradiction
  | cons c note =>
    rw [hchars] at hhead
    exact ⟨hchars ▸ hline, c, note, rfl, bne_iff_ne.1 hhead⟩

/-- What a line shows of the tokens is nothing or a label with spellings of the node. -/
theorem tokenNote_cases (t : Tree Token) :
    t.tokenNote = "" ∨ ∃ label ∈ tokenLabels, ∃ shown ⊆ t.ownTokens, t.tokenNote.toList =
      ' ' :: (label.toList ++ '=' :: '\'' :: (shown.flatMap (·.spelling.toList) ++ ['\''])) := by
  have hboth : (t.tokenText ++ t.trailingText).toList =
      t.ownTokens.flatMap (·.spelling.toList) := by
    rw [tokenText, trailingText, ownTokens]
    cases t.token? <;> cases t.trailingToken? <;> simp
  rw [tokenNote]
  split
  · refine .inr ⟨"kind", List.mem_cons_self, t.ownTokens, List.Subset.refl _, ?_⟩
    rw [← hboth]
    simp
  · split
    · next label token hlabel htoken =>
      refine .inr ⟨label, ?_, [token], ?_, by simp⟩
      · exact List.mem_cons_of_mem _ (List.mem_filterMap.2 ⟨t.kind, t.kind.mem_all, hlabel⟩)
      · simp [ownTokens, htoken]
    · exact .inl rfl

/-- A line has no line feed when the tokens of its node have none. -/
theorem lineFeed_notMem_summary (h : ∀ b ∈ t.ownTokens, '\n' ∉ b.spelling.toList) :
    '\n' ∉ t.summary.toList := by
  have hplace : '\n' ∉ t.placeNote := by
    rw [placeNote]
    cases hspan : t.placed? with
    | none => exact List.not_mem_nil
    | some s =>
      have hchar : '\n' ∉ s.toText.toList := fun hmem =>
        absurd (Span.mem_toText (isValid_of_placed? hspan) hmem) (by decide)
      simpa using hchar
  have hnote : '\n' ∉ t.tokenNote.toList := by
    rcases t.tokenNote_cases with hempty | ⟨label, hlabel, shown, hshown, hnote⟩
    · simp [hempty]
    · have hspellings : '\n' ∉ shown.flatMap (·.spelling.toList) := fun hmem => by
        obtain ⟨b, hb, hline⟩ := List.mem_flatMap.1 hmem
        exact h b (hshown hb) hline
      have hline := (exists_of_mem_tokenLabels hlabel).1
      rw [hnote]
      simp [hline, hspellings]
  rw [toList_summary]
  simp [t.kind.lineFeed_notMem_name, hplace, hnote]

/-! ## What a line tells -/

/-- A line goes on with a space behind a word in it. -/
theorem eq_space_of_mem_head? (t : Tree Token) :
    (∀ c ∈ t.tokenNote.toList.head?, c = ' ') ∧
      ∀ c ∈ (t.placeNote ++ t.tokenNote.toList).head?, c = ' ' := by
  have hnote : ∀ c ∈ t.tokenNote.toList.head?, c = ' ' := by
    rcases t.tokenNote_cases with hempty | ⟨label, -, shown, -, hnote⟩
    · simp [hempty]
    · simp [hnote]
  refine ⟨hnote, ?_⟩
  rw [placeNote]
  cases t.placed? with
  | none => exact hnote
  | some s =>
    rintro _ ⟨⟩
    rfl

/-- What a line shows of the tokens is not taken for a span. -/
theorem tokenNote_ne (t : Tree Token) (behind : List Char) :
    t.tokenNote.toList ≠ ' ' :: '@' :: behind := by
  rcases t.tokenNote_cases with hempty | ⟨label, hlabel, shown, -, hnote⟩
  · simp [hempty]
  · obtain ⟨-, c, note, hlabel, hc⟩ := exists_of_mem_tokenLabels hlabel
    rw [hnote, hlabel]
    simp [hc]

/-- The words behind the name of a kind tell the span. -/
theorem placed?_eq (h : t.placeNote ++ t.tokenNote.toList = u.placeNote ++ u.tokenNote.toList) :
    t.placed? = u.placed? := by
  rw [placeNote, placeNote] at h
  cases ht : t.placed? with
  | none =>
    cases hu : u.placed? with
    | none => rfl
    | some s =>
      -- the word behind the name would show a token and begin with an at sign
      rw [ht, hu] at h
      exact absurd h (t.tokenNote_ne _)
  | some s =>
    cases hu : u.placed? with
    | none =>
      rw [ht, hu] at h
      exact absurd h.symm (u.tokenNote_ne _)
    | some s' =>
      rw [ht, hu] at h
      have hword : ∀ {t : Tree Token} {s : Span}, t.placed? = some s → ' ' ∉ s.toText.toList :=
        fun hs hmem => absurd (Span.mem_toText (isValid_of_placed? hs) hmem) (by decide)
      obtain ⟨htext, -⟩ := append_inj_of_mark (hword ht) (hword hu) t.eq_space_of_mem_head?.1
        u.eq_space_of_mem_head?.1 (List.cons.inj (List.cons.inj h).2).2
      have hspan := Span.toText_inj (isValid_of_placed? ht) (isValid_of_placed? hu)
        (String.toList_inj.1 htext)
      exact congrArg some hspan

/-- A line tells the kind and the span of its node. -/
theorem summary_inj (h : t.summary = u.summary) : t.kind = u.kind ∧ t.placed? = u.placed? := by
  have hchars := congrArg String.toList h
  rw [toList_summary, toList_summary] at hchars
  obtain ⟨hkind, hnotes⟩ := append_inj_of_mark t.kind.space_notMem_name u.kind.space_notMem_name
    t.eq_space_of_mem_head?.2 u.eq_space_of_mem_head?.2 hchars
  exact ⟨NodeKind.name_inj (String.toList_inj.1 hkind), placed?_eq hnotes⟩

/-! ## Lines of nodes -/

/-- The line of a node at a depth. -/
def line (depth : Nat) (t : Tree Token) : String :=
  String.ofList (List.replicate (2 * depth) ' ') ++ t.summary

/-- Behind its indentation a line begins with the name of a kind, which is no space. -/
theorem head?_summary (t : Tree Token) : ∀ c ∈ t.summary.toList.head?, (c == ' ') = false := by
  intro c hc
  rw [toList_summary, List.head?_append_of_ne_nil _ t.kind.name_ne_empty] at hc
  refine beq_eq_false_iff_ne.2 ?_
  rintro rfl
  exact t.kind.space_notMem_name (List.mem_of_mem_head? hc)

/-- The characters of a line with its indentation. -/
theorem toList_line (depth : Nat) (t : Tree Token) :
    (t.line depth).toList = List.replicate (2 * depth) ' ' ++ t.summary.toList := by
  rw [line, String.toList_append, String.toList_ofList]

/-- The indentation consists of spaces. -/
theorem isSpace_of_mem_replicate {n : Nat} : ∀ c ∈ List.replicate n ' ', (c == ' ') = true :=
  fun _ hc => beq_iff_eq.2 (List.eq_of_mem_replicate hc)

/-- A line tells the depth, the kind and the span of its node. -/
theorem line_inj {depth depth' : Nat} (h : t.line depth = u.line depth') :
    depth = depth' ∧ t.kind = u.kind ∧ t.placed? = u.placed? := by
  have hchars := congrArg String.toList h
  rw [toList_line, toList_line] at hchars
  obtain ⟨hspaces, hsummary⟩ := append_inj_of_head isSpace_of_mem_replicate
    isSpace_of_mem_replicate t.head?_summary u.head?_summary hchars
  have hlength := congrArg List.length hspaces
  rw [List.length_replicate, List.length_replicate] at hlength
  exact ⟨Nat.eq_of_mul_eq_mul_left Nat.two_pos hlength,
    summary_inj (String.toList_inj.1 hsummary)⟩

/-- The spaces in front of a line are two for each level of depth. -/
theorem takeWhile_line (depth : Nat) (t : Tree Token) :
    (t.line depth).toList.takeWhile (· == ' ') = List.replicate (2 * depth) ' ' := by
  rw [toList_line, List.takeWhile_append_of_pos isSpace_of_mem_replicate]
  cases hchars : t.summary.toList with
  | nil => exact List.append_nil _
  | cons c chars =>
    have hc := t.head?_summary c (by rw [hchars]; rfl)
    rw [List.takeWhile_cons, hc]
    exact List.append_nil _

/-- Behind its indentation a line has the name of the kind, as a word. -/
theorem exists_line_eq (depth : Nat) (t : Tree Token) :
    ∃ rest, t.line depth = String.ofList (List.replicate (2 * depth) ' ') ++ t.kind.name ++ rest ∧
      ∀ c ∈ rest.toList.head?, c = ' ' := by
  refine ⟨String.ofList (t.placeNote ++ t.tokenNote.toList), ?_, ?_⟩
  · rw [← String.toList_inj, toList_line, toList_summary]
    simp only [String.toList_append, String.toList_ofList, List.append_assoc]
  · rw [String.toList_ofList]
    exact t.eq_space_of_mem_head?.2

/-- An outline has a line for every node in the order of a walk. -/
theorem outlineLines_eq (t : Tree Token) (depth : Nat) :
    t.outlineLines depth = (t.profile id depth).map fun entry => entry.2.line entry.1 := by
  induction t using children_induction generalizing depth with
  | step t ih =>
    have hchildren : ∀ child ∈ t.present, child.outlineLines (depth + 1) =
        (child.profile id (depth + 1)).map fun entry => entry.2.line entry.1 :=
      fun child hchild => ih child (List.reduceOption_mem_iff.1 hchild) (depth + 1)
    rw [outlineLines, fold_eq, profile_eq, List.map_cons, List.map_flatMap, List.reduceOption_map,
      List.map_map, ← List.flatMap_def]
    exact congrArg (t.line depth :: ·) (List.flatMap_congr hchildren)

/-- The nodes of a tree without line feeds have lines without line feeds. -/
theorem IsOneLined.lineFeed_notMem_line (h : t.IsOneLined) :
    ∀ line ∈ t.nodes.map fun met => met.2.line met.1.length, '\n' ∉ line.toList := by
  intro line hline
  obtain ⟨⟨path, node⟩, hmet, rfl⟩ := List.mem_map.1 hline
  have hdescend := mem_nodes.1 hmet
  have hown : ∀ b ∈ node.ownTokens, '\n' ∉ b.spelling.toList :=
    fun b hb => h b (mem_tokens_iff_descend.2 ⟨path, node, hdescend, hb⟩)
  have hspaces : '\n' ∉ List.replicate (2 * path.length) ' ' :=
    fun hmem => absurd (List.eq_of_mem_replicate hmem) (by decide)
  rw [toList_line, List.mem_append]
  exact not_or.2 ⟨hspaces, lineFeed_notMem_summary hown⟩

/-- An outline is the lines of the nodes, each ended by a line feed. -/
theorem outline_eq (t : Tree Token) :
    t.outline =
      String.join ((t.nodes.map fun met => met.2.line met.1.length).map (· ++ "\n")) := by
  rw [outline, outlineLines_eq, profile]
  simp only [List.map_map, Function.comp_def, Nat.zero_add, id]

/-- Trees with one outline have the same depths, kinds and spans in the order of a walk. -/
theorem profile_eq_of_outline_eq (ht : t.IsOneLined) (hu : u.IsOneLined)
    (h : t.outline = u.outline) :
    t.profile (fun node => (node.kind, node.placed?)) 0 =
      u.profile (fun node => (node.kind, node.placed?)) 0 := by
  rw [outline_eq, outline_eq] at h
  have hlines := eq_of_join_lines ht.lineFeed_notMem_line hu.lineFeed_notMem_line h
  rw [← List.forall₂_eq_eq_eq, List.forall₂_map_left_iff, List.forall₂_map_right_iff] at hlines
  rw [profile, profile, ← List.forall₂_eq_eq_eq, List.forall₂_map_left_iff,
    List.forall₂_map_right_iff]
  refine hlines.imp fun met met' hline => ?_
  obtain ⟨hdepth, hkind, hspan⟩ := line_inj hline
  rw [hdepth, hkind, hspan]

end Tree

/-- The trees that a reader of a text gives have no line feed in a spelling. -/
theorem isOneLined_of_mem_readTimes {symbols : SymbolTable} {dialect : Dialect} {text : String}
    {count : Nat} {t : Tree Token}
    (h : .ok t ∈ ((FileReader.ofText symbols dialect text).1.readTimes count).1) :
    t.IsOneLined := by
  intro b hb hline
  have hmem := (FileReader.ofText_standsAt symbols dialect text).mem_of_mem_readTimes h hb
  exact absurd (startsGap_of_mem_tokenize hmem _ hline) (by decide)

/-- The trees that are read from texts have no line feed in a spelling. The outline of a tree of
which this holds, read or not, has one line for each present node, in the order of a walk, which is
that of the paths. A line is indented by two spaces for each level of depth, and its first word is
the name of the kind. Two such trees with one outline have the same depths, kinds and spans in the
order of a walk, and so the same kinds and spans in the same nesting. -/
theorem outline_faithful :
    (∀ (symbols : SymbolTable) (dialect : Dialect) (text : String) (count : Nat) (t : Tree Token),
      .ok t ∈ ((FileReader.ofText symbols dialect text).1.readTimes count).1 → t.IsOneLined) ∧
    (∀ t : Tree Token, t.IsOneLined →
      (∀ path node, (path, node) ∈ t.nodes ↔ t.descend path = some node) ∧
      t.nodes.Pairwise (fun a b => a.1 < b.1) ∧
      ∃ lines : List String, t.outline = String.join (lines.map (· ++ "\n")) ∧
        (∀ line ∈ lines, '\n' ∉ line.toList) ∧
        List.Forall₂ (fun met line =>
          line.toList.takeWhile (· == ' ') = List.replicate (2 * met.1.length) ' ' ∧
          ∃ rest, line =
            String.ofList (List.replicate (2 * met.1.length) ' ') ++ met.2.kind.name ++ rest ∧
              ∀ c ∈ rest.toList.head?, c = ' ') t.nodes lines) ∧
    ∀ t u : Tree Token, t.IsOneLined → u.IsOneLined → t.outline = u.outline →
      t.nodes.map (fun met => (met.1.length, met.2.kind, met.2.placed?)) =
        u.nodes.map (fun met => (met.1.length, met.2.kind, met.2.placed?)) ∧
      Tree.Alike (fun node => (node.kind, node.placed?)) t u := by
  refine ⟨fun _ _ _ _ _ => isOneLined_of_mem_readTimes, fun t ht => ?_, fun t u ht hu h => ?_⟩
  · refine ⟨fun _ _ => Tree.mem_nodes, t.pairwise_walk _, _, t.outline_eq,
      ht.lineFeed_notMem_line, ?_⟩
    rw [List.forall₂_map_right_iff, List.forall₂_same]
    exact fun met _ => ⟨met.2.takeWhile_line met.1.length, met.2.exists_line_eq met.1.length⟩
  · have hprofile := Tree.profile_eq_of_outline_eq ht hu h
    refine ⟨?_, Tree.alike_of_profile_eq hprofile⟩
    simpa only [Tree.profile, Nat.zero_add] using hprofile

/-- A part that stands at either place of a control construct: two trees with one outline, which
have the same kinds and spans. -/
theorem outline_faithful_control :
    let keyword : Token := ⟨.doKw, ⟨0, 8, "do"⟩, ⟨1, 1⟩, 0⟩
    let part := Tree.identifier (⟨.ident, ⟨0, 28, "x"⟩, ⟨1, 4⟩, 3⟩ : Token)
    let t := Tree.control keyword (some part) none
    let u := Tree.control keyword none (some part)
    t.IsOneLined ∧ u.IsOneLined ∧ t.outline = u.outline ∧
      t.nodes.map (fun met => (met.1.length, met.2.kind, met.2.placed?)) =
        u.nodes.map (fun met => (met.1.length, met.2.kind, met.2.placed?)) ∧
      Tree.Alike (fun node => (node.kind, node.placed?)) t u := by
  intro keyword part t u
  have ht : t.IsOneLined := by unfold Tree.IsOneLined; decide
  have hu : u.IsOneLined := by unfold Tree.IsOneLined; decide
  have hsame : t.outline = u.outline := rfl
  exact ⟨ht, hu, hsame, outline_faithful.2.2 t u ht hu hsame⟩

/-- An outline does not tell which operand place is empty. -/
example (keyword : Token) (part : Tree Token) :
    (Tree.control keyword (some part) none).outline =
      (Tree.control keyword none (some part)).outline := rfl

end ConcreteSyntax
