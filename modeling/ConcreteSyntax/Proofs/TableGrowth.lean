import ConcreteSyntax.SymbolTables
import Mathlib.Data.List.Basic

/-!
# How symbol tables grow

Interning adds texts behind the texts of a table and never moves or removes one. So a table that
has grown out of another one gives the same symbols for the texts of that one, and its texts are
those of that one and those that were interned since.
-/

namespace ConcreteSyntax

namespace SymbolTable

/-! ## Symbols of a table -/

section

variable {t : SymbolTable} {text : String} {s : Symbol}

/-- The symbol of a text has the number of the table, the place of the text in the table, and
the text. -/
theorem get?_eq_some_iff :
    t.get? text = some s ↔ t.texts[s.index]? = some text ∧ s.table = t.number ∧ s.text = text := by
  have hplace : ∀ index, t.texts.idxOf? text = some index ↔ t.texts[index]? = some text := by
    intro index
    rw [List.idxOf?_eq_some_iff, List.getElem?_eq_some_iff]
    refine ⟨fun ⟨hlt, htext, _⟩ => ⟨hlt, htext⟩, fun ⟨hlt, htext⟩ => ⟨hlt, htext, ?_⟩⟩
    intro j hj hother
    have hsame : j = index := (List.getElem_inj t.distinct).1 (hother.trans htext.symm)
    exact absurd hsame (Nat.ne_of_lt hj)
  rw [get?, Option.map_eq_some_iff]
  constructor
  · rintro ⟨index, hindex, rfl⟩
    exact ⟨(hplace index).1 hindex, rfl, rfl⟩
  · rintro ⟨hindex, hnumber, htext⟩
    refine ⟨s.index, (hplace s.index).2 hindex, ?_⟩
    rw [← hnumber, ← htext]

/-- A table has symbols for the texts that are interned in it, and for no others. -/
theorem isSome_get? : (t.get? text).isSome = true ↔ text ∈ t.texts := by
  rw [get?, Option.isSome_map]
  exact List.isSome_idxOf?

/-- Symbols of one table are the same exactly when their texts are equal. -/
theorem text_inj_of_get? {text' : String} {s' : Symbol} (h : t.get? text = some s)
    (h' : t.get? text' = some s') : s.index = s'.index ↔ text = text' := by
  obtain ⟨hplace, -, -⟩ := get?_eq_some_iff.1 h
  obtain ⟨hplace', -, -⟩ := get?_eq_some_iff.1 h'
  constructor
  · intro hindex
    rw [hindex, hplace'] at hplace
    exact (Option.some.inj hplace).symm
  · rintro rfl
    have hsymbol : s = s' := Option.some.inj (h.symm.trans h')
    rw [hsymbol]

end

/-! ## Interning -/

section

variable (t : SymbolTable) (text : String)

/-- An interned text keeps its characters. -/
theorem text_intern : (t.intern text).1.text = text := by
  unfold intern get?
  cases t.texts.idxOf? text <;> rfl

/-- Interning a text adds it unless it is there already. -/
theorem intern_snd : (t.intern text).2 = t.insert text := by
  cases hget : t.get? text with
  | some s =>
    have hmem : text ∈ t.texts := isSome_get?.1 (Option.isSome_of_mem hget)
    rw [intern, hget, insert, dif_pos hmem]
  | none => rw [intern, hget]

/-- Interning a text that has a symbol gives this symbol and changes nothing. -/
theorem intern_of_get? {t : SymbolTable} {text : String} {s : Symbol} (h : t.get? text = some s) :
    t.intern text = (s, t) := by
  rw [intern, h]

/-- The texts of a table after interning one more. -/
theorem mem_texts_intern {t : SymbolTable} {text other : String} :
    other ∈ (t.intern text).2.texts ↔ other ∈ t.texts ∨ other = text := by
  rw [intern_snd, insert]
  split
  · next hmem =>
    constructor
    · exact .inl
    · rintro (h | rfl)
      · exact h
      · exact hmem
  · simp

/-- An interned text has the symbol that interning gave. -/
theorem get?_intern : (t.intern text).2.get? text = some (t.intern text).1 := by
  cases hget : t.get? text with
  | some s => rw [intern_of_get? hget, hget]
  | none =>
    have hmem : text ∉ t.texts := by
      rw [← isSome_get?, hget]
      exact Bool.false_ne_true
    have hintern : t.intern text = (⟨t.number, t.size, text⟩, t.insert text) := by
      rw [intern, hget]
    have htexts : (t.insert text).texts = t.texts ++ [text] := by rw [insert, dif_neg hmem]
    have hnumber : (t.insert text).number = t.number := by rw [insert, dif_neg hmem]
    rw [hintern, get?_eq_some_iff, htexts, hnumber]
    exact ⟨List.getElem?_concat_length, rfl, rfl⟩

end

/-! ## Grown tables -/

/-- That a table has grown out of another one: it is the same table, and the texts of the other
one are in front of its own. -/
structure GrowsTo (t u : SymbolTable) : Prop where
  /-- The number stays. -/
  number_eq : u.number = t.number
  /-- The texts stay in place. -/
  front : t.texts <+: u.texts

namespace GrowsTo

variable {t u v : SymbolTable}

/-- A table grows to itself. -/
theorem refl (t : SymbolTable) : t.GrowsTo t := ⟨rfl, List.prefix_rfl⟩

/-- Growth in two steps. -/
theorem trans (h : t.GrowsTo u) (h' : u.GrowsTo v) : t.GrowsTo v :=
  ⟨h'.number_eq.trans h.number_eq, h.front.trans h'.front⟩

/-- A text keeps its symbol. -/
theorem get? (h : t.GrowsTo u) {text : String} {s : Symbol} (hs : t.get? text = some s) :
    u.get? text = some s := by
  obtain ⟨hplace, hnumber, htext⟩ := get?_eq_some_iff.1 hs
  obtain ⟨more, hmore⟩ := h.front
  obtain ⟨hlt, -⟩ := List.getElem?_eq_some_iff.1 hplace
  refine get?_eq_some_iff.2 ⟨?_, hnumber.trans h.number_eq.symm, htext⟩
  rw [← hmore, List.getElem?_append_left hlt, hplace]

end GrowsTo

/-- Interning a text lets the table grow. -/
theorem growsTo_intern (t : SymbolTable) (text : String) : t.GrowsTo (t.intern text).2 := by
  rw [intern_snd, insert]
  split
  · exact .refl t
  · exact ⟨rfl, List.prefix_append _ _⟩

/-- Interning texts lets the table grow. -/
theorem growsTo_internAll (t : SymbolTable) (texts : List String) :
    t.GrowsTo (t.internAll texts) := by
  induction texts generalizing t with
  | nil => exact .refl t
  | cons text texts ih => exact (t.growsTo_intern text).trans (ih _)

/-- The texts of a table after interning more. -/
theorem mem_texts_internAll {t : SymbolTable} {texts : List String} {text : String} :
    text ∈ (t.internAll texts).texts ↔ text ∈ t.texts ∨ text ∈ texts := by
  induction texts generalizing t with
  | nil => simp [internAll]
  | cons first texts ih =>
    have hstep : t.internAll (first :: texts) = (t.intern first).2.internAll texts := rfl
    rw [hstep, ih, mem_texts_intern, List.mem_cons, or_assoc]

/-- Interning the texts of two lists is interning those of both. -/
theorem internAll_append (t : SymbolTable) (texts texts' : List String) :
    t.internAll (texts ++ texts') = (t.internAll texts).internAll texts' :=
  List.foldl_append

/-- Interning texts that are there already changes nothing. -/
theorem internAll_of_subset {t : SymbolTable} {texts : List String} (h : texts ⊆ t.texts) :
    t.internAll texts = t := by
  induction texts with
  | nil => rfl
  | cons text texts ih =>
    obtain ⟨hmem, hall⟩ := List.cons_subset.1 h
    obtain ⟨s, hs⟩ := Option.isSome_iff_exists.1 (isSome_get?.2 hmem)
    have hstep : t.internAll (text :: texts) = (t.intern text).2.internAll texts := rfl
    rw [hstep, intern_of_get? hs, ih hall]

end SymbolTable

end ConcreteSyntax
