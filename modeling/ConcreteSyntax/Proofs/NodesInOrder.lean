import ConcreteSyntax.SyntaxTrees
import Mathlib.Data.List.ReduceOption

/-!
# Nodes in the order of a walk

A walk from the root of a tree meets a node before what stands inside of its operands, and it takes
the operands in their order. Paths tell the nodes apart, so the walk is told by its paths: each of
them leads to the node that is met there, and the lexicographic order of paths, in which a path
comes before every path that goes on from it, is the order of the walk. A walk may stop at some of
the nodes; then it meets the nodes that stand inside of no node at which it stops.
-/

namespace ConcreteSyntax

namespace Tree

variable {τ β : Type} {stops : Tree τ → Bool} {t child node : Tree τ}

/-! ## Walks -/

/-- What is met inside of the operand in a place: its place comes in front of the paths. -/
def metAt (slot : Option (List (List Nat × Tree τ)) × Nat) : List (List Nat × Tree τ) :=
  (slot.1.getD []).map fun met => (slot.2 :: met.1, met.2)

/-- The nodes that a walk meets, each with the path that leads to it, when it does not go inside of
the nodes at which it stops. -/
def walk (stops : Tree τ → Bool) : Tree τ → List (List Nat × Tree τ) :=
  fold fun t inner => ([], t) :: if stops t then [] else inner.zipIdx.flatMap metAt

/-- All nodes of a tree in the order of a walk, each with the path that leads to it. -/
def nodes (t : Tree τ) : List (List Nat × Tree τ) := t.walk fun _ => false

/-- A walk meets the root and then, unless it stops there, what it meets inside of the operands. -/
theorem walk_eq (stops : Tree τ → Bool) (t : Tree τ) :
    t.walk stops = ([], t) :: if stops t then []
      else (t.children.map (Option.map (walk stops))).zipIdx.flatMap metAt :=
  fold_eq _ t

/-! ## What is met -/

/-- That a node stands above the one that a path leads to. -/
def IsAbove (t : Tree τ) (path : List Nat) (ancestor : Tree τ) : Prop :=
  ∃ front, front <+: path ∧ front ≠ path ∧ t.descend front = some ancestor

/-- Nothing stands above the root. -/
theorem not_isAbove_nil {ancestor : Tree τ} : ¬ t.IsAbove [] ancestor := by
  rintro ⟨front, hfront, hne, -⟩
  exact hne (List.prefix_nil.1 hfront)

/-- Above a node inside of an operand stand the root and what stands above it in the operand. -/
theorem isAbove_cons {place : Nat} {path : List Nat} {ancestor : Tree τ}
    (h : t.operand? place = some child) :
    t.IsAbove (place :: path) ancestor ↔ ancestor = t ∨ child.IsAbove path ancestor := by
  constructor
  · rintro ⟨front, hfront, hne, hdescend⟩
    rcases List.prefix_cons_iff.1 hfront with rfl | ⟨further, rfl, hfurther⟩
    · exact .inl (Option.some.inj hdescend).symm
    · rw [descend, h, Option.bind_some] at hdescend
      exact .inr ⟨further, hfurther, fun heq => hne (congrArg _ heq), hdescend⟩
  · rintro (rfl | ⟨front, hfront, hne, hdescend⟩)
    · exact ⟨[], List.nil_prefix, (List.cons_ne_nil _ _).symm, rfl⟩
    · refine ⟨place :: front, List.cons_prefix_cons.2 ⟨rfl, hfront⟩, ?_, ?_⟩
      · exact fun heq => hne (List.cons.inj heq).2
      · rw [descend, h, Option.bind_some, hdescend]

/-- Inside of operands a walk meets what it meets in the operand to which the path goes. -/
theorem mem_metAt {place : Nat} {path : List Nat} :
    (place :: path, node) ∈ (t.children.map (Option.map (walk stops))).zipIdx.flatMap metAt ↔
      ∃ child, t.operand? place = some child ∧ (path, node) ∈ child.walk stops := by
  simp only [List.mem_flatMap, metAt, List.mem_map, Prod.mk.injEq, List.cons.injEq]
  constructor
  · rintro ⟨⟨slot, place⟩, hslot, ⟨path, node⟩, hmet, ⟨rfl, rfl⟩, rfl⟩
    rw [List.mem_zipIdx_iff_getElem?, List.getElem?_map, Option.map_eq_some_iff] at hslot
    obtain ⟨operand, hplace, rfl⟩ := hslot
    cases operand with
    | none => contradiction
    | some child => exact ⟨child, by simp [operand?, hplace], hmet⟩
  · rintro ⟨child, hchild, hmet⟩
    rw [operand?, Option.join_eq_some_iff] at hchild
    refine ⟨(some (child.walk stops), place), ?_, (path, node), hmet, ⟨rfl, rfl⟩, rfl⟩
    rw [List.mem_zipIdx_iff_getElem?, List.getElem?_map, hchild]
    rfl

/-- A walk meets the nodes that stand inside of no node at which it stops. The induction is on the
path, which goes through the operands in turn. -/
theorem mem_walk {path : List Nat} :
    (path, node) ∈ t.walk stops ↔
      t.descend path = some node ∧
        ∀ ancestor, t.IsAbove path ancestor → stops ancestor = false := by
  induction path generalizing t with
  | nil =>
    have hroot : ([], node) ∈ t.walk stops ↔ t = node := by
      rw [walk_eq, List.mem_cons]
      constructor
      · rintro (heq | hmem)
        · exact (Prod.mk.inj heq).2.symm
        · split at hmem
          · contradiction
          · simp [metAt] at hmem
      · rintro rfl
        exact .inl rfl
    rw [hroot, descend, Option.some.injEq]
    exact ⟨fun h => ⟨h, fun _ habove => absurd habove not_isAbove_nil⟩, And.left⟩
  | cons place path ih =>
    have hinner : (place :: path, node) ∈ t.walk stops ↔
        stops t = false ∧ (place :: path, node) ∈
          (t.children.map (Option.map (walk stops))).zipIdx.flatMap metAt := by
      rw [walk_eq, List.mem_cons]
      cases stops t <;> simp
    rw [hinner, mem_metAt, descend, Option.bind_eq_some_iff]
    constructor
    · rintro ⟨hroot, child, hchild, hmet⟩
      obtain ⟨hdescend, habove⟩ := ih.1 hmet
      refine ⟨⟨child, hchild, hdescend⟩, fun ancestor h => ?_⟩
      rcases (isAbove_cons hchild).1 h with rfl | h
      · exact hroot
      · exact habove ancestor h
    · rintro ⟨⟨child, hchild, hdescend⟩, habove⟩
      refine ⟨habove t ((isAbove_cons hchild).2 (.inl rfl)), child, hchild, ih.2 ⟨hdescend, ?_⟩⟩
      exact fun ancestor h => habove ancestor ((isAbove_cons hchild).2 (.inr h))

/-- All nodes of a tree are those to which a path leads. -/
theorem mem_nodes {path : List Nat} : (path, node) ∈ t.nodes ↔ t.descend path = some node := by
  rw [nodes, mem_walk]
  exact and_iff_left fun _ _ => rfl

/-! ## The order of a walk -/

/-- A walk meets nodes in the lexicographic order of their paths. -/
theorem pairwise_walk (stops : Tree τ → Bool) (t : Tree τ) :
    (t.walk stops).Pairwise fun a b => a.1 < b.1 := by
  induction t using children_induction with
  | step t ih =>
    rw [walk_eq]
    refine List.pairwise_cons.2 ⟨fun met hmet => ?_, ?_⟩
    · split at hmet
      · contradiction
      · obtain ⟨slot, -, hmet⟩ := List.mem_flatMap.1 hmet
        obtain ⟨below, -, rfl⟩ := List.mem_map.1 hmet
        exact List.nil_lt_cons _ _
    · split
      · exact .nil
      · refine List.pairwise_flatMap.2 ⟨fun slot hslot => ?_, ?_⟩
        · rw [List.mem_zipIdx_iff_getElem?, List.getElem?_map, Option.map_eq_some_iff] at hslot
          obtain ⟨operand, hplace, hmet⟩ := hslot
          rw [metAt, ← hmet]
          cases operand with
          | none => exact .nil
          | some child =>
            have hchild := ih child (List.mem_of_getElem? hplace)
            exact hchild.map _ fun _ _ hlt => List.cons_lt_cons_iff.2 (.inr ⟨rfl, hlt⟩)
        -- paths into different operands differ in their first place already
        · have hplaces : (t.children.map (Option.map (walk stops))).zipIdx.Pairwise
              fun slot slot' => slot.2 < slot'.2 := by
            rw [← List.pairwise_map (f := Prod.snd), List.zipIdx_map_snd]
            exact List.pairwise_lt_range' 1
          refine hplaces.imp fun hlt met hmet met' hmet' => ?_
          obtain ⟨below, -, rfl⟩ := List.mem_map.1 hmet
          obtain ⟨below', -, rfl⟩ := List.mem_map.1 hmet'
          exact List.cons_lt_cons_iff.2 (.inl hlt)

/-! ## Reading off a walk -/

/-- What is read off present children is read off the operand places, of which an empty one has
nothing. -/
theorem flatMap_present (t : Tree τ) (f : Tree τ → List β) :
    t.present.flatMap f = t.children.flatMap fun slot => slot.elim [] f := by
  rw [present]
  induction t.children with
  | nil => rfl
  | cons slot slots ih =>
    cases slot with
    | none => rw [List.reduceOption_cons_of_none, ih]; rfl
    | some child => rw [List.reduceOption_cons_of_some, List.flatMap_cons, ih]; rfl

/-- What is read off a walk without regard to the places of operands is read off the root and then,
unless the walk stops there, off the walks through the present children. -/
theorem flatMap_walk (t : Tree τ) {f g : List Nat × Tree τ → List β}
    (h : ∀ place path node, f (place :: path, node) = g (path, node)) :
    (t.walk stops).flatMap f = f ([], t) ++
      if stops t then [] else t.present.flatMap fun child => (child.walk stops).flatMap g := by
  have hslot : ∀ slot : Option (Tree τ) × Nat,
      (metAt (slot.1.map (walk stops), slot.2)).flatMap f =
        slot.1.elim [] fun child => (child.walk stops).flatMap g := by
    rintro ⟨_ | child, place⟩
    · rfl
    · rw [metAt, List.flatMap_map]
      exact congrArg (child.walk stops).flatMap (funext fun met => h place met.1 met.2)
  rw [walk_eq, List.flatMap_cons]
  split
  · rfl
  · rw [flatMap_present, List.flatMap_assoc, List.zipIdx_map, List.flatMap_map]
    conv => rhs; rw [← List.zipIdx_map_fst 0 t.children, List.flatMap_map]
    exact congrArg (List.append _) (congrArg t.children.zipIdx.flatMap (funext hslot))

/-- What is read off all nodes, one thing for each of them, without regard to the places of operands
is read off the root and then off the nodes of the present children. -/
theorem map_nodes (t : Tree τ) {f g : List Nat × Tree τ → β}
    (h : ∀ place path node, f (place :: path, node) = g (path, node)) :
    t.nodes.map f = f ([], t) :: t.present.flatMap fun child => child.nodes.map g := by
  have hsingle : ∀ place path node, [f (place :: path, node)] = [g (path, node)] :=
    fun place path node => congrArg (fun b => [b]) (h place path node)
  simp only [List.map_eq_flatMap, nodes]
  rw [t.flatMap_walk (g := fun met => [g met]) hsingle]
  rfl

/-! ## Depths -/

/-- The depths of the nodes in the order of a walk, counted on from that of the root, each with what
the node is labelled with. -/
def profile (label : Tree τ → β) (depth : Nat) (t : Tree τ) : List (Nat × β) :=
  t.nodes.map fun met => (depth + met.1.length, label met.2)

/-- That trees have the same labels in the same nesting of present nodes. -/
inductive Alike (label : Tree τ → β) : Tree τ → Tree τ → Prop
  | node {t u : Tree τ} : label t = label u → List.Forall₂ (Alike label) t.present u.present →
      Alike label t u

variable {label : Tree τ → β} {depth : Nat} {rest rest' : List (Nat × β)}

/-- The profile of a tree has the root and then the profiles of the present children, which are one
level deeper. -/
theorem profile_eq (label : Tree τ → β) (depth : Nat) (t : Tree τ) :
    t.profile label depth =
      (depth, label t) :: t.present.flatMap (profile label (depth + 1)) := by
  have hdeeper : ∀ (place : Nat) (path : List Nat) (node : Tree τ),
      (depth + (place :: path).length, label node) = (depth + 1 + path.length, label node) := by
    intro place path node
    rw [List.length_cons, Nat.add_comm path.length, Nat.add_assoc]
  rw [profile, t.map_nodes (g := fun met => (depth + 1 + met.1.length, label met.2)) hdeeper]
  rfl

/-- Profiles of one depth begin at this depth. -/
theorem head?_flatMap_profile (hrest : ∀ entry ∈ rest.head?, entry.1 ≤ depth) (ts : List (Tree τ)) :
    ∀ entry ∈ (ts.flatMap (profile label depth) ++ rest).head?, entry.1 ≤ depth := by
  cases ts with
  | nil => exact hrest
  | cons t ts =>
    rw [List.flatMap_cons, profile_eq]
    rintro _ ⟨⟩
    exact Nat.le_refl depth

/-- What is not deeper than a level does not begin with the profile of a tree below that level. -/
theorem ne_of_deeper (hrest : ∀ entry ∈ rest.head?, entry.1 ≤ depth) {u : Tree τ}
    {us : List (Tree τ)} : rest ≠ (u :: us).flatMap (profile label (depth + 1)) ++ rest' := by
  rintro rfl
  rw [List.flatMap_cons, profile_eq] at hrest
  exact absurd (hrest (depth + 1, label u) rfl) (Nat.not_succ_le_self depth)

/-- Trees in a row are told by their profiles, if each of them is, together with what comes behind
them on a level further up. The induction is on the trees of the one row. -/
theorem forall₂_alike {ts us : List (Tree τ)}
    (told : ∀ t ∈ ts, ∀ {u rest rest'}, (∀ entry ∈ rest.head?, entry.1 ≤ depth + 1) →
      (∀ entry ∈ rest'.head?, entry.1 ≤ depth + 1) →
      t.profile label (depth + 1) ++ rest = u.profile label (depth + 1) ++ rest' →
      Alike label t u ∧ rest = rest')
    (hrest : ∀ entry ∈ rest.head?, entry.1 ≤ depth)
    (hrest' : ∀ entry ∈ rest'.head?, entry.1 ≤ depth)
    (h : ts.flatMap (profile label (depth + 1)) ++ rest =
      us.flatMap (profile label (depth + 1)) ++ rest') :
    List.Forall₂ (Alike label) ts us ∧ rest = rest' := by
  induction ts generalizing us with
  | nil =>
    cases us with
    | nil => exact ⟨.nil, h⟩
    | cons u us => exact absurd h (ne_of_deeper hrest)
  | cons t ts ih =>
    cases us with
    | nil => exact absurd h.symm (ne_of_deeper hrest')
    | cons u us =>
      rw [List.flatMap_cons, List.flatMap_cons, List.append_assoc, List.append_assoc] at h
      have hlater : ∀ {rest : List (Nat × β)}, (∀ entry ∈ rest.head?, entry.1 ≤ depth) →
          ∀ entry ∈ rest.head?, entry.1 ≤ depth + 1 :=
        fun hrest entry hentry => Nat.le_succ_of_le (hrest entry hentry)
      -- the trees behind the first one begin on the same level, so nothing deeper stands there
      obtain ⟨hfirst, hothers⟩ := told t List.mem_cons_self
        (head?_flatMap_profile (hlater hrest) ts) (head?_flatMap_profile (hlater hrest') us) h
      obtain ⟨halike, hsame⟩ := ih (fun t ht => told t (List.mem_cons_of_mem _ ht)) hothers
      exact ⟨.cons hfirst halike, hsame⟩

/-- A tree is told, in labels and nesting, by its profile in front of what is not deeper. -/
theorem alike_of_append_eq {t u : Tree τ} (hrest : ∀ entry ∈ rest.head?, entry.1 ≤ depth)
    (hrest' : ∀ entry ∈ rest'.head?, entry.1 ≤ depth)
    (h : t.profile label depth ++ rest = u.profile label depth ++ rest') :
    Alike label t u ∧ rest = rest' := by
  induction t using children_induction generalizing depth u rest rest' with
  | step t ih =>
    rw [profile_eq, profile_eq, List.cons_append, List.cons_append] at h
    obtain ⟨hroot, hinner⟩ := List.cons.inj h
    obtain ⟨hpresent, hsame⟩ := forall₂_alike
      (fun child hchild => ih child (List.reduceOption_mem_iff.1 hchild)) hrest hrest' hinner
    exact ⟨.node (Prod.mk.inj hroot).2 hpresent, hsame⟩

/-- Trees with the same profile have the same labels in the same nesting. -/
theorem alike_of_profile_eq {t u : Tree τ} (h : t.profile label depth = u.profile label depth) :
    Alike label t u := by
  have hfront : t.profile label depth ++ [] = u.profile label depth ++ [] := by rw [h]
  exact (alike_of_append_eq (by simp) (by simp) hfront).1

end Tree

end ConcreteSyntax
