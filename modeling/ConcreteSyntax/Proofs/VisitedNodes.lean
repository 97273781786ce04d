import ConcreteSyntax.Proofs.NodesInOrder
import ConcreteSyntax.TreeVisitors
import Mathlib.Data.Finset.Basic

/-!
# What visitors report

A visitor that overrides some of its methods to report what it is called on reports a node at its
kind method and at the shape method that this one forwards to. An overridden method may also stop at
the node. Then what stands inside of the node is not visited, and a kind method that stops does not
forward. The main statement says exactly what is reported, for every choice of methods: the visitor
meets the nodes above which it does not stop, in the order of a walk and each once.

The statement names the methods by the kind and the shape of the node. That the visit comes to these
methods is a fact about three tables: the dispatch by kind, the forwarding of the kind methods, and
the shapes of the kinds.
-/

namespace ConcreteSyntax

/-! ## The methods for a node -/

/-- The method that is named for a shape. -/
def ShapeMethod.named : Shape → ShapeMethod
  | .atom => visitAtom
  | .unary => visitUnary
  | .binary => visitBinary
  | .ternary => visitTernary
  | .multiary => visitMultiary

/-- Each shape has exactly one method. -/
theorem ShapeMethod.shape_eq_iff {m : ShapeMethod} {s : Shape} : m.shape = s ↔ m = named s := by
  cases m <;> cases s <;> decide

/-- Each kind has exactly one method, and a visit calls it. -/
theorem KindMethod.kind_eq_iff {m : KindMethod} {k : NodeKind} : m.kind = k ↔ m = dispatch k := by
  refine ⟨?_, fun h => h ▸ kind_dispatch k⟩
  rintro rfl
  cases m <;> rfl

/-- The method that a visit calls forwards to the method of the shape. -/
theorem KindMethod.forward_dispatch (k : NodeKind) : (dispatch k).forward = .named k.shape := by
  rw [← ShapeMethod.shape_eq_iff, shape_forward, kind_dispatch]

/-- An atom has no operands, so the method for atoms leaves nothing out. -/
theorem Tree.children_eq_nil_of_atom {τ : Type} {t : Tree τ} (h : t.shape = .atom) :
    t.children = [] := by
  cases t with
  | literal | identifier => rfl
  | _ => simp [Tree.shape, Tree.kind, NodeKind.shape] at h

/-- A method of a visitor. -/
inductive Method where
  /-- The method for the nodes of a kind. -/
  | ofKind (m : KindMethod)
  /-- The method for the nodes of a shape. -/
  | ofShape (m : ShapeMethod)
  deriving DecidableEq, Repr

namespace Visitor

variable {τ ε : Type} (event : Method → Tree τ → ε) (overridden halting : Finset Method)

/-- The body of a method of a reporting visitor, if it is overridden: it reports the node, and then
it stops or does what the method does by default. -/
def report? (m : Method) : Option (Tree τ → List ε → List ε) :=
  if m ∈ overridden then some (if m ∈ halting then stopping (event m) else reporting (event m))
  else none

/-- The visitor that overrides some methods to report the nodes, and stops at some of these. -/
def reporter : Visitor τ ε where
  atKind m := report? event overridden halting (.ofKind m)
  atShape m := report? event overridden halting (.ofShape m)

/-- What a call of a method reports of a node. -/
def logged (m : Method) (t : Tree τ) : List ε := if m ∈ overridden then [event m t] else []

/-- What is reported of a node: first at its kind, and then, unless the kind stops, at its shape. -/
def reports (t : Tree τ) : List ε :=
  logged event overridden (.ofKind (.dispatch t.kind)) t ++
    if .ofKind (.dispatch t.kind) ∈ halting then []
    else logged event overridden (.ofShape (.named t.shape)) t

/-- Whether a visitor stops at a node, at the method of its kind or of its shape. -/
def haltsAt (t : Tree τ) : Bool :=
  decide (.ofKind (.dispatch t.kind) ∈ halting ∨ .ofShape (.named t.shape) ∈ halting)

variable {event overridden halting}

/-- The method of the node's shape reports the node and then, unless it stops, gives the events of
the walk. The walk over an atom has none, which is why the method for atoms need not make it. -/
theorem callShape_reporter (h : halting ⊆ overridden) {t : Tree τ} {walked : List ε}
    (hatom : t.shape = .atom → walked = []) :
    (reporter event overridden halting).callShape (.named t.shape) t walked =
      logged event overridden (.ofShape (.named t.shape)) t ++
        if .ofShape (.named t.shape) ∈ halting then [] else walked := by
  have hdefault : (ShapeMethod.named t.shape).unlessOverridden walked = walked := by
    cases hs : t.shape with
    | atom => exact (hatom hs).symm
    | _ => rfl
  simp only [callShape, reporter, report?, logged, hdefault]
  by_cases htaken : .ofShape (.named t.shape) ∈ overridden
  · by_cases hhalts : .ofShape (.named t.shape) ∈ halting <;>
      simp [htaken, hhalts, stopping, reporting]
  · have hpasses : .ofShape (.named t.shape) ∉ halting := fun hmem => htaken (h hmem)
    simp [htaken, hpasses]

/-- The method of the node's kind reports the node and then, unless it stops, what the method of the
node's shape gives. -/
theorem callKind_reporter (h : halting ⊆ overridden) {t : Tree τ} {walked : List ε}
    (hatom : t.shape = .atom → walked = []) :
    (reporter event overridden halting).callKind (.dispatch t.kind) t walked =
      reports event overridden halting t ++ if haltsAt halting t then [] else walked := by
  have hforward : (KindMethod.dispatch t.kind).forward = .named t.shape :=
    KindMethod.forward_dispatch t.kind
  rw [callKind, hforward, callShape_reporter h hatom]
  simp only [reporter, report?, reports, haltsAt, logged]
  by_cases htaken : .ofKind (.dispatch t.kind) ∈ overridden
  · by_cases hhalts : .ofKind (.dispatch t.kind) ∈ halting <;>
      simp [htaken, hhalts, stopping, reporting]
  · have hpasses : .ofKind (.dispatch t.kind) ∉ halting := fun hmem => htaken (h hmem)
    simp [htaken, hpasses]

/-- A reporting visitor reports the nodes that a walk meets which stops where the visitor stops. -/
theorem visit_eq_flatMap_walk (h : halting ⊆ overridden) (t : Tree τ) :
    (reporter event overridden halting).visit t =
      (t.walk (haltsAt halting)).flatMap fun met => reports event overridden halting met.2 := by
  induction t using Tree.children_induction with
  | step t ih =>
    have hchildren : ∀ child ∈ t.present, (reporter event overridden halting).visit child =
        (child.walk (haltsAt halting)).flatMap fun met => reports event overridden halting met.2 :=
      fun child hchild => ih child (List.reduceOption_mem_iff.1 hchild)
    have hwalked : ((t.children.map
        (Option.map (reporter event overridden halting).visit)).reduceOption).flatten =
          t.present.flatMap fun child => (child.walk (haltsAt halting)).flatMap fun met =>
            reports event overridden halting met.2 := by
      rw [List.reduceOption_map, ← List.flatMap_def]
      exact List.flatMap_congr hchildren
    have hatom : t.shape = .atom → (t.present.flatMap fun child =>
        (child.walk (haltsAt halting)).flatMap fun met =>
          reports event overridden halting met.2) = [] := by
      intro hshape
      rw [Tree.present, Tree.children_eq_nil_of_atom hshape]
      rfl
    rw [visit_eq, hwalked, callKind_reporter h hatom,
      t.flatMap_walk (g := fun met => reports event overridden halting met.2) fun _ _ _ => rfl]

end Visitor

/-- A visitor overrides some of its methods. Each of them reports the node and then stops, or does
what it does by default: a kind method calls the method of the shape, a shape method walks over the
children, and the one for atoms does nothing. Then a visit reports exactly the nodes that have no
node above them at which the visitor stops, in the order of their paths and each once: at the method
of the kind, if that is overridden, and then, unless this method stops, at the method of the shape,
if that is overridden. The visitor stops at a node when the method of its kind or of its shape
stops. -/
theorem visit_reporter {τ ε : Type} (event : Method → Tree τ → ε)
    (overridden halting : Finset Method) (h : halting ⊆ overridden) (t : Tree τ) :
    ∃ (ofKind : NodeKind → KindMethod) (ofShape : Shape → ShapeMethod),
      (∀ m k, m.kind = k ↔ m = ofKind k) ∧ (∀ m s, m.shape = s ↔ m = ofShape s) ∧
      ∃ met : List (List Nat × Tree τ),
        (∀ path node, (path, node) ∈ met ↔ t.descend path = some node ∧
          ∀ ancestor, t.IsAbove path ancestor →
            ¬ (.ofKind (ofKind ancestor.kind) ∈ halting ∨
              .ofShape (ofShape ancestor.shape) ∈ halting)) ∧
        met.Pairwise (fun a b => a.1 < b.1) ∧
        (Visitor.reporter event overridden halting).visit t = met.flatMap fun m =>
          (if .ofKind (ofKind m.2.kind) ∈ overridden
            then [event (.ofKind (ofKind m.2.kind)) m.2] else []) ++
          if .ofKind (ofKind m.2.kind) ∈ halting then []
          else if .ofShape (ofShape m.2.shape) ∈ overridden
            then [event (.ofShape (ofShape m.2.shape)) m.2] else [] := by
  refine ⟨.dispatch, .named, fun _ _ => KindMethod.kind_eq_iff, fun _ _ => ShapeMethod.shape_eq_iff,
    t.walk (Visitor.haltsAt halting), fun path node => ?_, t.pairwise_walk _,
    Visitor.visit_eq_flatMap_walk h t⟩
  rw [Tree.mem_walk]
  refine and_congr_right fun _ => forall₂_congr fun ancestor _ => ?_
  rw [Visitor.haltsAt, decide_eq_false_iff_not]

/-- In a call, names are reported at their kind and at the shape of atoms, the parentheses at the
shape that they share with operators, where the visit stops, and the call itself not at all. The
number in the parentheses is not met. -/
theorem visit_reporter_call :
    let overridden : Finset Method :=
      {.ofKind .visitIdentifier, .ofShape .visitAtom, .ofShape .visitUnary}
    let t : Tree Nat := .call (.identifier 0) (.enclosure 1 (some (.literal 2)) 3)
    {.ofShape .visitUnary} ⊆ overridden ∧ ∃ met : List (List Nat × Tree Nat),
      ([1], .enclosure 1 (some (.literal 2)) 3) ∈ met ∧ ([1, 0], .literal 2) ∉ met ∧
      met.Pairwise (fun a b => a.1 < b.1) ∧
      (Visitor.reporter (fun m node => (m, node.token?)) overridden {.ofShape .visitUnary}).visit t =
        [(.ofKind .visitIdentifier, some 0), (.ofShape .visitAtom, some 0),
          (.ofShape .visitUnary, some 1)] := by
  refine ⟨by decide, ?_⟩
  obtain ⟨ofKind, ofShape, -, hshape, met, hmet, hpair, -⟩ :=
    visit_reporter (fun m node => (m, node.token?))
      {.ofKind .visitIdentifier, .ofShape .visitAtom, .ofShape .visitUnary}
      {.ofShape .visitUnary} (by decide)
      (.call (.identifier 0) (.enclosure 1 (some (.literal 2)) 3))
  have hcall : .visitBinary = ofShape .binary := (hshape _ _).1 rfl
  have hparens : .visitUnary = ofShape .unary := (hshape _ _).1 rfl
  refine ⟨met, (hmet _ _).2 ⟨rfl, fun ancestor habove => ?_⟩, fun hmem => ?_, hpair, by decide⟩
  · rcases (Tree.isAbove_cons rfl).1 habove with rfl | habove
    · simp [Tree.shape, Tree.kind, NodeKind.shape, ← hcall]
    · exact absurd habove Tree.not_isAbove_nil
  · have hpasses := (hmet _ _).1 hmem
    exact hpasses.2 (.enclosure 1 (some (.literal 2)) 3) ⟨[1], by simp, by simp, rfl⟩
      (.inr (by simp [Tree.shape, Tree.kind, NodeKind.shape, ← hparens]))

end ConcreteSyntax
