import ConcreteSyntax.Proofs.KeptTokens
import ConcreteSyntax.Proofs.TableGrowth
import ConcreteSyntax.Sessions
import Mathlib.Data.Finset.Card

/-!
# Ledgers of symbols

A ledger accompanies a session and writes down a receipt for every symbol that the session hands
out: the table and the text that it was asked for. Each operation keeps the ledger sound: every
table is what interning the texts of all operations so far makes of an empty one, and every
receipt still has the symbol of its text in its table. So symbols are the same exactly when they
were asked for from the same table by the same text, whatever was done in between.
-/

namespace ConcreteSyntax

/-- A symbol with the table and the text that it was asked for. -/
structure Receipt where
  /-- The number of the table. -/
  table : Nat
  /-- The text: an interned text, or the characters of a lexeme. -/
  text : String
  /-- The symbol that was handed out. -/
  symbol : Symbol

/-- What is done in a session. -/
inductive Operation where
  /-- A request is answered. -/
  | ask (request : Request)
  /-- The symbol of an earlier receipt is copied. -/
  | clone (place : Nat)

namespace Request

/-- The texts that a request interns in a table. -/
def textsInto (number : Nat) : Request → List String
  | intern table text => if table = number then [text] else []
  | lex table text | parse table _ text => if table = number then lexedTexts text else []
  | _ => []

/-- The tables that a request makes when there are `count` of them. -/
def newTables (count : Nat) : Request → List SymbolTable
  | newTable => [SymbolTable.empty count]
  | _ => []

end Request

/-- The texts that an operation interns in a table. -/
def Operation.textsInto (number : Nat) : Operation → List String
  | ask request => request.textsInto number
  | clone _ => []

/-- The texts that operations intern in a table, in order. -/
def Operation.interned (number : Nat) (operations : List Operation) : List String :=
  operations.flatMap (textsInto number)

/-- The receipts for the tokens of a text that is lexed with a table. -/
def SymbolTable.tokenReceipts (table : SymbolTable) (number : Nat) (text : String) :
    List Receipt :=
  List.zipWith (fun lexeme token => ⟨number, lexeme.text, token.symbol⟩) (scan text)
    (tokenize table text).1

namespace Session

/-- The receipts for the symbols that a request obtains. -/
def receipts (s : Session) : Request → List Receipt
  | .intern number text =>
    s.tables[number]?.toList.map fun table => ⟨number, text, (table.intern text).1⟩
  | .get number text =>
    (s.tables[number]?.bind fun table => table.get? text).toList.map fun symbol =>
      ⟨number, text, symbol⟩
  | .lex number text | .parse number _ text =>
    s.tables[number]?.toList.flatMap fun table => table.tokenReceipts number text
  | _ => []

/-- The symbols in what a session keeps: those obtained and those in its trees. -/
def keptSymbols (s : Session) : List Symbol :=
  s.symbols ++ s.trees.flatMap fun tree => tree.tokens.map Token.symbol

/-- That every table has its place as its number. -/
def Numbered (s : Session) : Prop :=
  ∀ (n : Nat) (table : SymbolTable), s.tables[n]? = some table → table.number = n

end Session

/-- The symbols in the error of an answer. -/
def Answer.errorSymbols : Answer → List Symbol
  | rejected e _ => [e.found.symbol]
  | _ => []

/-- A session with its answers so far and the receipts for all symbols handed out so far. -/
structure Ledger where
  /-- The session. -/
  session : Session
  /-- The answers in order. -/
  answers : List Answer
  /-- The receipts in order. -/
  receipts : List Receipt

namespace Ledger

/-- The ledger of a new session. -/
def initial : Ledger := ⟨.initial, [], []⟩

/-- The ledger after an operation, unless this names a table, a symbol or a tree that does not
exist. -/
def perform? (l : Ledger) : Operation → Option Ledger
  | .ask request => do
    let (answer, session) ← l.session.answer? request
    return ⟨session, l.answers ++ [answer], l.receipts ++ l.session.receipts request⟩
  | .clone place => do
    let receipt ← l.receipts[place]?
    return { l with
      session := (l.session.obtain receipt.symbol).2, receipts := l.receipts ++ [receipt] }

/-- The ledger after operations, one after the other. -/
def run? (l : Ledger) (operations : List Operation) : Option Ledger :=
  operations.foldlM perform? l

/-- All symbols that have been handed out: those obtained, those in trees and those in errors. -/
def handedOut (l : Ledger) : List Symbol :=
  l.session.keptSymbols ++ l.answers.flatMap Answer.errorSymbols

/-- That an operation names only tables, symbols and trees that exist. -/
def Allows (l : Ledger) : Operation → Prop
  | .ask (.intern table _) | .ask (.get table _) | .ask (.size table) | .ask (.lex table _)
  | .ask (.parse table _ _) => table < l.session.tables.length
  | .ask (.compare first second) =>
    first < l.session.symbols.length ∧ second < l.session.symbols.length
  | .ask (.compareTrees first second) =>
    first < l.session.trees.length ∧ second < l.session.trees.length
  | .ask .newTable | .ask .distinct | .ask .quote => True
  | .clone place => place < l.receipts.length

end Ledger

/-! ## What a request does -/

/-- The receipts for the tokens of a text have the characters of the tokens. -/
theorem SymbolTable.tokenReceipts_eq (table : SymbolTable) (number : Nat) (text : String) :
    table.tokenReceipts number text =
      (tokenize table text).1.map fun t => ⟨number, t.spelling, t.symbol⟩ := by
  rw [tokenReceipts, ← map_lexeme_tokenize table text, List.zipWith_map_left, List.zipWith_self]
  rfl

namespace Session

variable {s s' : Session} {request : Request} {answer : Answer}

/-- Putting a table in which texts were interned in its place is interning these texts in the
table of that number. -/
theorem set_eq_mapIdx {tables : List SymbolTable} {number : Nat} {table : SymbolTable}
    (h : tables[number]? = some table) (texts : List String) :
    tables.set number (table.internAll texts) =
      tables.mapIdx fun n t => t.internAll (if number = n then texts else []) := by
  obtain ⟨hlt, htable⟩ := List.getElem?_eq_some_iff.1 h
  refine List.ext_getElem? fun n => ?_
  rw [List.getElem?_set, List.getElem?_mapIdx]
  by_cases hn : number = n
  · subst hn
    simp [hlt, htable]
  · have hnone : ∀ t : SymbolTable, t.internAll [] = t := fun _ => rfl
    simp [hn, hnone]

/-- Where nothing is interned the tables stay. -/
theorem mapIdx_internAll_nil (tables : List SymbolTable) :
    tables = tables.mapIdx fun _ t => t.internAll [] := by
  refine List.ext_getElem? fun n => ?_
  rw [List.getElem?_mapIdx]
  cases tables[n]? <;> rfl

/-- Obtaining the symbols of tokens adds them to those of the session. -/
theorem obtainAll_snd (s : Session) (tokens : List Token) :
    (s.obtainAll tokens).2 = { s with symbols := s.symbols ++ tokens.map Token.symbol } := by
  induction tokens generalizing s with
  | nil => simp [obtainAll]
  | cons token tokens ih =>
    have hstep : (s.obtainAll (token :: tokens)).2 =
        ((s.obtain token.symbol).2.obtainAll tokens).2 := rfl
    rw [hstep, ih]
    simp [obtain]

/-- A text that is lexed or read gives a receipt for every token. -/
theorem mem_receipts_of_lex {number : Nat} {table : SymbolTable} {text : String}
    (h : s.tables[number]? = some table) {t : Token} (ht : t ∈ (tokenize table text).1) :
    ⟨number, t.spelling, t.symbol⟩ ∈ s.receipts (.lex number text) := by
  simp only [receipts, h, Option.toList_some, List.flatMap_singleton,
    SymbolTable.tokenReceipts_eq]
  exact List.mem_map_of_mem ht

/-- What answering a request does to a session. -/
structure Effect (s : Session) (request : Request) (answer : Answer) (s' : Session) : Prop where
  /-- Texts are interned in tables that exist only. -/
  textsInto_eq_nil : ∀ n, s.tables.length ≤ n → request.textsInto n = []
  /-- The texts of the request are interned, and its new tables are added. -/
  tables_eq : s'.tables = (s.tables.mapIdx fun n table => table.internAll (request.textsInto n)) ++
    request.newTables s.tables.length
  /-- Symbols that are kept have been kept before or have a receipt. -/
  symbols_eq : ∃ more, s'.symbols = s.symbols ++ more ∧
    ∀ symbol ∈ more, ∃ r ∈ s.receipts request, r.symbol = symbol
  /-- Trees that are kept have been kept before or were read by the request. -/
  trees_eq : s'.trees = s.trees ∨ ∃ number table dialect text tree,
    request = .parse number dialect text ∧ s.tables[number]? = some table ∧
      (parseText table dialect text).1 = .ok tree ∧ s'.trees = s.trees ++ [tree]
  /-- Errors are those of a text that the request reads. -/
  error_eq : answer.errorSymbols = [] ∨ ∃ number table dialect text e,
    request = .parse number dialect text ∧ s.tables[number]? = some table ∧
      (parseText table dialect text).1 = .error e ∧ answer.errorSymbols = [e.found.symbol]

/-- A request that interns nothing and reads nothing only obtains symbols. -/
theorem Effect.of_obtained (htexts : ∀ n, request.textsInto n = [])
    (hnew : request.newTables s.tables.length = []) (herror : answer.errorSymbols = [])
    {more : List Symbol} (hmore : ∀ symbol ∈ more, ∃ r ∈ s.receipts request, r.symbol = symbol) :
    s.Effect request answer { s with symbols := s.symbols ++ more } where
  textsInto_eq_nil n _ := htexts n
  tables_eq := by simp only [htexts, hnew, List.append_nil, ← mapIdx_internAll_nil]
  symbols_eq := ⟨more, rfl, hmore⟩
  trees_eq := .inl rfl
  error_eq := .inl herror

/-- A request may leave a session as it is. -/
theorem Effect.unchanged (htexts : ∀ n, request.textsInto n = [])
    (hnew : request.newTables s.tables.length = []) (herror : answer.errorSymbols = []) :
    s.Effect request answer s := by
  have hobtained := Effect.of_obtained (s := s) htexts hnew herror
    (List.forall_mem_nil fun symbol => ∃ r ∈ s.receipts request, r.symbol = symbol)
  rwa [List.append_nil] at hobtained

/-- A request that interns texts in one table leaves the other tables as they are. -/
theorem tables_of_withTable (request : Request) {number : Nat} {table grown : SymbolTable}
    {texts : List String} (hn : s.Numbered) (h : s.tables[number]? = some table)
    (htexts : ∀ n, request.textsInto n = if number = n then texts else [])
    (hnew : request.newTables s.tables.length = []) (hgrown : grown = table.internAll texts) :
    (∀ n, s.tables.length ≤ n → request.textsInto n = []) ∧
      (s.withTable grown).tables =
        (s.tables.mapIdx fun n table => table.internAll (request.textsInto n)) ++
          request.newTables s.tables.length := by
  obtain ⟨hlt, -⟩ := List.getElem?_eq_some_iff.1 h
  have hnumber : grown.number = number := by
    rw [hgrown, (table.growsTo_internAll texts).number_eq, hn number table h]
  constructor
  · intro n hle
    rw [htexts, if_neg (by omega)]
  · simp only [withTable, hnumber, htexts, hnew, List.append_nil]
    rw [hgrown, set_eq_mapIdx h]

/-- Lexing a text interns its texts and hands out the symbols of its tokens. -/
theorem effect_of_lex {number : Nat} {text : String} (hn : s.Numbered)
    (h : s.answer? (.lex number text) = some (answer, s')) :
    s.Effect (.lex number text) answer s' := by
  obtain ⟨table, htable, h⟩ := Option.bind_eq_some_iff.1 h
  obtain ⟨hnil, htables⟩ := tables_of_withTable (.lex number text) hn htable
    (fun _ => rfl) rfl (tokenize_snd table text)
  have hreceipts : ∀ symbol ∈ (tokenize table text).1.map Token.symbol,
      ∃ r ∈ s.receipts (.lex number text), r.symbol = symbol := by
    intro symbol hsymbol
    obtain ⟨t, ht, rfl⟩ := List.mem_map.1 hsymbol
    exact ⟨_, mem_receipts_of_lex htable ht, rfl⟩
  generalize tokenize table text = lexed at h htables hreceipts
  obtain ⟨rfl, rfl⟩ := Prod.mk.inj (Option.some.inj h)
  have hobtained := (s.withTable lexed.2).obtainAll_snd lexed.1
  rw [hobtained]
  exact ⟨hnil, htables, ⟨_, rfl, hreceipts⟩, .inl rfl, .inl rfl⟩

/-- Reading a text interns its texts and keeps its tree, or hands out the symbols of its error. -/
theorem effect_of_parse {number : Nat} {dialect : Dialect} {text : String} (hn : s.Numbered)
    (h : s.answer? (.parse number dialect text) = some (answer, s')) :
    s.Effect (.parse number dialect text) answer s' := by
  obtain ⟨table, htable, h⟩ := Option.bind_eq_some_iff.1 h
  have hgrown : (parseText table dialect text).2 = table.internAll (lexedTexts text) :=
    tokenize_snd table text
  obtain ⟨hnil, htables⟩ := tables_of_withTable (.parse number dialect text) hn htable
    (fun _ => rfl) rfl hgrown
  cases hresult : (parseText table dialect text).1 with
  | ok tree =>
    simp only [hresult] at h
    obtain ⟨rfl, rfl⟩ := Prod.mk.inj (Option.some.inj h)
    exact ⟨hnil, htables, ⟨[], by simp [withTable]⟩,
      .inr ⟨number, table, dialect, text, tree, rfl, htable, hresult, rfl⟩, .inl rfl⟩
  | error e =>
    simp only [hresult] at h
    obtain ⟨rfl, rfl⟩ := Prod.mk.inj (Option.some.inj h)
    exact ⟨hnil, htables, ⟨[], by simp [withTable]⟩, .inl rfl,
      .inr ⟨number, table, dialect, text, e, rfl, htable, hresult, rfl⟩⟩

/-- Answering a request has the effect of the request. -/
theorem effect_of_answer? (hn : s.Numbered) (h : s.answer? request = some (answer, s')) :
    s.Effect request answer s' := by
  cases request with
  | newTable =>
    obtain ⟨rfl, rfl⟩ := Prod.mk.inj (Option.some.inj h)
    have hstay := mapIdx_internAll_nil s.tables
    refine ⟨fun _ _ => rfl, ?_, ⟨[], by simp⟩, .inl rfl, .inl rfl⟩
    exact congrArg (· ++ [SymbolTable.empty s.tables.length]) hstay
  | intern number text =>
    obtain ⟨table, htable, h⟩ := Option.bind_eq_some_iff.1 h
    obtain ⟨rfl, rfl⟩ := Prod.mk.inj (Option.some.inj h)
    obtain ⟨hnil, htables⟩ := tables_of_withTable (.intern number text) hn htable
      (fun _ => rfl) rfl (rfl : (table.intern text).2 = table.internAll [text])
    refine ⟨hnil, htables, ⟨[(table.intern text).1], rfl, ?_⟩, .inl rfl, .inl rfl⟩
    simp [receipts, htable]
  | get number text =>
    obtain ⟨table, htable, h⟩ := Option.bind_eq_some_iff.1 h
    cases hget : table.get? text with
    | none =>
      simp only [hget] at h
      obtain ⟨rfl, rfl⟩ := Prod.mk.inj (Option.some.inj h)
      exact .unchanged (fun _ => rfl) rfl rfl
    | some symbol =>
      simp only [hget] at h
      obtain ⟨rfl, rfl⟩ := Prod.mk.inj (Option.some.inj h)
      exact .of_obtained (fun _ => rfl) rfl rfl (by simp [receipts, htable, hget])
  | size number =>
    obtain ⟨table, htable, h⟩ := Option.bind_eq_some_iff.1 h
    obtain ⟨rfl, rfl⟩ := Prod.mk.inj (Option.some.inj h)
    exact .unchanged (fun _ => rfl) rfl rfl
  | compare first second =>
    obtain ⟨a, ha, h⟩ := Option.bind_eq_some_iff.1 h
    obtain ⟨b, hb, h⟩ := Option.bind_eq_some_iff.1 h
    obtain ⟨rfl, rfl⟩ := Prod.mk.inj (Option.some.inj h)
    exact .unchanged (fun _ => rfl) rfl rfl
  | distinct =>
    obtain ⟨rfl, rfl⟩ := Prod.mk.inj (Option.some.inj h)
    exact .unchanged (fun _ => rfl) rfl rfl
  | quote =>
    obtain ⟨rfl, rfl⟩ := Prod.mk.inj (Option.some.inj h)
    exact .unchanged (fun _ => rfl) rfl rfl
  | lex number text => exact effect_of_lex hn h
  | parse number dialect text => exact effect_of_parse hn h
  | compareTrees first second =>
    obtain ⟨a, ha, h⟩ := Option.bind_eq_some_iff.1 h
    obtain ⟨b, hb, h⟩ := Option.bind_eq_some_iff.1 h
    obtain ⟨rfl, rfl⟩ := Prod.mk.inj (Option.some.inj h)
    exact .unchanged (fun _ => rfl) rfl rfl

/-- A table of a session has the texts of a request after the request is answered. -/
theorem Effect.getElem?_tables (h : s.Effect request answer s') {n : Nat} {table : SymbolTable}
    (htable : s.tables[n]? = some table) :
    s'.tables[n]? = some (table.internAll (request.textsInto n)) := by
  obtain ⟨hlt, -⟩ := List.getElem?_eq_some_iff.1 htable
  have hlength : n <
      (s.tables.mapIdx fun n table => table.internAll (request.textsInto n)).length := by
    rw [List.length_mapIdx]
    exact hlt
  rw [h.tables_eq, List.getElem?_append_left hlength, List.getElem?_mapIdx, htable]
  rfl

/-- A table of a session has been there before, or it is new and empty. -/
theorem Effect.table_cases (h : s.Effect request answer s') {n : Nat} {table : SymbolTable}
    (htable : s'.tables[n]? = some table) :
    (∃ before, s.tables[n]? = some before ∧
      table = before.internAll (request.textsInto n)) ∨
      n = s.tables.length ∧ request.textsInto n = [] ∧ table = SymbolTable.empty n := by
  cases hbefore : s.tables[n]? with
  | some before =>
    rw [h.getElem?_tables hbefore] at htable
    exact .inl ⟨before, rfl, (Option.some.inj htable).symm⟩
  | none =>
    have hle : s.tables.length ≤ n := List.getElem?_eq_none_iff.1 hbefore
    have hlength : (s.tables.mapIdx fun n table =>
        table.internAll (request.textsInto n)).length ≤ n := by
      rw [List.length_mapIdx]
      exact hle
    rw [h.tables_eq, List.getElem?_append_right hlength, List.length_mapIdx] at htable
    cases request with
    | newTable =>
      obtain ⟨hlt, hempty⟩ := List.getElem?_eq_some_iff.1 htable
      have hone : n - s.tables.length < 1 := hlt
      obtain rfl : n = s.tables.length := by omega
      refine .inr ⟨rfl, rfl, ?_⟩
      rw [← hempty]
      simp [Request.newTables]
    | _ => simp [Request.newTables] at htable

/-- The receipts of a request have the symbols of their texts after it is answered. -/
theorem Effect.get?_of_mem_receipts (h : s.Effect request answer s') {r : Receipt}
    (hr : r ∈ s.receipts request) :
    ∃ table, s'.tables[r.table]? = some table ∧ table.get? r.text = some r.symbol := by
  have htokens : ∀ number text, request.textsInto number = lexedTexts text →
      r ∈ s.tables[number]?.toList.flatMap (fun table => table.tokenReceipts number text) →
      ∃ table, s'.tables[r.table]? = some table ∧ table.get? r.text = some r.symbol := by
    intro number text htexts hr
    obtain ⟨table, htable, hr⟩ := List.mem_flatMap.1 hr
    rw [SymbolTable.tokenReceipts_eq] at hr
    obtain ⟨t, ht, rfl⟩ := List.mem_map.1 hr
    refine ⟨_, h.getElem?_tables (Option.mem_toList.1 htable), ?_⟩
    rw [htexts, ← tokenize_snd]
    exact get?_of_mem_tokenize t ht
  cases request with
  | intern number text =>
    obtain ⟨table, htable, rfl⟩ := List.mem_map.1 hr
    refine ⟨_, h.getElem?_tables (Option.mem_toList.1 htable), ?_⟩
    rw [show (Request.intern number text).textsInto number = [text] from if_pos rfl]
    exact table.get?_intern text
  | get number text =>
    obtain ⟨symbol, hsymbol, rfl⟩ := List.mem_map.1 hr
    obtain ⟨table, htable, hget⟩ := Option.bind_eq_some_iff.1 (Option.mem_toList.1 hsymbol)
    exact ⟨_, h.getElem?_tables htable, hget⟩
  | lex number text => exact htokens number text (if_pos rfl) hr
  | parse number dialect text => exact htokens number text (if_pos rfl) hr
  | _ => simp [receipts] at hr

/-- The symbols of the trees and errors of a request have receipts. -/
theorem exists_receipt_of_parse {number : Nat} {table : SymbolTable} {dialect : Dialect}
    {text : String} (h : s.tables[number]? = some table) {t : Token}
    (ht : t ∈ (tokenize table text).1) :
    ∃ r ∈ s.receipts (.parse number dialect text), r.symbol = t.symbol :=
  ⟨_, mem_receipts_of_lex h ht, rfl⟩

/-- The symbols that a session keeps after a request, and those of its error, have been kept
before or have a receipt. -/
theorem Effect.handedOut (h : s.Effect request answer s') :
    ∀ symbol ∈ s'.keptSymbols ++ answer.errorSymbols,
      symbol ∈ s.keptSymbols ∨ ∃ r ∈ s.receipts request, r.symbol = symbol := by
  intro symbol hsymbol
  rw [keptSymbols, List.mem_append, List.mem_append] at hsymbol
  rcases hsymbol with (hsymbol | hsymbol) | hsymbol
  · obtain ⟨more, hmore, hreceipts⟩ := h.symbols_eq
    rw [hmore, List.mem_append] at hsymbol
    rcases hsymbol with hsymbol | hsymbol
    · exact .inl (List.mem_append_left _ hsymbol)
    · exact .inr (hreceipts symbol hsymbol)
  · rcases h.trees_eq with htrees | ⟨number, table, dialect, text, tree, rfl, htable, hread, htrees⟩
    · rw [htrees] at hsymbol
      exact .inl (List.mem_append_right _ hsymbol)
    · rw [htrees, List.flatMap_append, List.mem_append] at hsymbol
      rcases hsymbol with hsymbol | hsymbol
      · exact .inl (List.mem_append_right _ hsymbol)
      · rw [List.flatMap_singleton] at hsymbol
        obtain ⟨t, ht, rfl⟩ := List.mem_map.1 hsymbol
        exact .inr (exists_receipt_of_parse htable (mem_tokenize_of_mem_tokens hread ht))
  · rcases h.error_eq with herror | ⟨number, table, dialect, text, e, rfl, htable, hread, herror⟩
    · simp [herror] at hsymbol
    · rw [herror, List.mem_singleton] at hsymbol
      exact .inr (hsymbol ▸ exists_receipt_of_parse htable (found_mem_tokenize hread))

end Session

/-! ## Sound ledgers -/

namespace Ledger

/-- That a ledger agrees with its session after operations. -/
structure Sound (operations : List Operation) (l : Ledger) : Prop where
  /-- Every table is made of the texts that the operations intern in it. -/
  table_eq : ∀ n table, l.session.tables[n]? = some table →
    table = (SymbolTable.empty n).internAll (Operation.interned n operations)
  /-- Nothing is interned in a table before it is made. -/
  interned_eq_nil : ∀ n, l.session.tables.length ≤ n → Operation.interned n operations = []
  /-- Every receipt has the symbol of its text in its table. -/
  live : ∀ r ∈ l.receipts, ∃ table, l.session.tables[r.table]? = some table ∧
    table.get? r.text = some r.symbol
  /-- Every symbol that was handed out has a receipt. -/
  complete : ∀ symbol ∈ l.handedOut, ∃ r ∈ l.receipts, r.symbol = symbol

variable {l l' : Ledger} {operations : List Operation} {operation : Operation}

/-- Tables have their places as numbers. -/
theorem Sound.numbered (h : l.Sound operations) : l.session.Numbered := by
  intro n table htable
  rw [h.table_eq n table htable]
  exact (SymbolTable.growsTo_internAll _ _).number_eq

/-- The ledger of a new session is sound. -/
theorem sound_initial : initial.Sound [] := by
  refine ⟨fun n table htable => ?_, fun _ _ => rfl, ?_, ?_⟩
  · obtain ⟨hlt, rfl⟩ := List.getElem?_eq_some_iff.1 htable
    have hone : n < 1 := hlt
    obtain rfl : n = 0 := by omega
    rfl
  · simp [initial]
  · simp [initial, handedOut, Session.keptSymbols, Session.initial]

/-- Asking adds the receipts and the answer. -/
theorem perform?_ask {request : Request} (h : l.perform? (.ask request) = some l') :
    ∃ answer session, l.session.answer? request = some (answer, session) ∧
      l' = ⟨session, l.answers ++ [answer], l.receipts ++ l.session.receipts request⟩ := by
  obtain ⟨⟨answer, session⟩, hanswer, h⟩ := Option.bind_eq_some_iff.1 h
  exact ⟨answer, session, hanswer, (Option.some.inj h).symm⟩

/-- Copying a symbol adds the receipt once more. -/
theorem perform?_clone {place : Nat} (h : l.perform? (.clone place) = some l') :
    ∃ receipt, l.receipts[place]? = some receipt ∧
      l' = { l with
        session := (l.session.obtain receipt.symbol).2, receipts := l.receipts ++ [receipt] } := by
  obtain ⟨receipt, hreceipt, h⟩ := Option.bind_eq_some_iff.1 h
  exact ⟨receipt, hreceipt, (Option.some.inj h).symm⟩

/-- A request keeps a ledger sound. -/
theorem Sound.ask {request : Request} (h : l.Sound operations)
    (hp : l.perform? (.ask request) = some l') : l'.Sound (operations ++ [.ask request]) := by
  obtain ⟨answer, session, hanswer, rfl⟩ := perform?_ask hp
  have heffect := Session.effect_of_answer? h.numbered hanswer
  have htexts : ∀ n, Operation.interned n (operations ++ [.ask request]) =
      Operation.interned n operations ++ request.textsInto n := by
    intro n
    simp [Operation.interned, Operation.textsInto]
  refine ⟨fun n table htable => ?_, fun n hn => ?_, fun r hr => ?_, fun symbol hsymbol => ?_⟩
  · rcases heffect.table_cases htable with ⟨before, hbefore, rfl⟩ | ⟨rfl, hnil, rfl⟩
    · rw [htexts, SymbolTable.internAll_append, ← h.table_eq n before hbefore]
    · rw [htexts, h.interned_eq_nil _ (Nat.le_refl _), hnil]
      rfl
  · have hlength : l.session.tables.length ≤ session.tables.length := by
      rw [heffect.tables_eq, List.length_append, List.length_mapIdx]
      exact Nat.le_add_right _ _
    have hle : l.session.tables.length ≤ n := hlength.trans hn
    rw [htexts, h.interned_eq_nil n hle, heffect.textsInto_eq_nil n hle, List.append_nil]
  · rcases List.mem_append.1 hr with hr | hr
    · obtain ⟨table, htable, hget⟩ := h.live r hr
      have hgrows := table.growsTo_internAll (request.textsInto r.table)
      exact ⟨_, heffect.getElem?_tables htable, hgrows.get? hget⟩
    · exact heffect.get?_of_mem_receipts hr
  · have hcases : symbol ∈ l.handedOut ∨ symbol ∈ session.keptSymbols ++ answer.errorSymbols := by
      simp only [handedOut, List.flatMap_append, List.flatMap_singleton, List.mem_append]
        at hsymbol ⊢
      tauto
    have hknown : symbol ∈ l.handedOut ∨ ∃ r ∈ l.session.receipts request, r.symbol = symbol := by
      rcases hcases with hbefore | hnow
      · exact .inl hbefore
      · exact (heffect.handedOut symbol hnow).imp_left (List.mem_append_left _)
    rcases hknown with hbefore | ⟨r, hr, hsame⟩
    · obtain ⟨r, hr, hsame⟩ := h.complete symbol hbefore
      exact ⟨r, List.mem_append_left _ hr, hsame⟩
    · exact ⟨r, List.mem_append_right _ hr, hsame⟩

/-- Copying a symbol keeps a ledger sound. -/
theorem Sound.clone {place : Nat} (h : l.Sound operations)
    (hp : l.perform? (.clone place) = some l') : l'.Sound (operations ++ [.clone place]) := by
  obtain ⟨receipt, hreceipt, rfl⟩ := perform?_clone hp
  have hmem : receipt ∈ l.receipts := List.mem_of_getElem? hreceipt
  have htexts : ∀ n, Operation.interned n (operations ++ [.clone place]) =
      Operation.interned n operations := by
    intro n
    simp [Operation.interned, Operation.textsInto]
  refine ⟨fun n table htable => ?_, fun n hn => ?_, fun r hr => ?_, fun symbol hsymbol => ?_⟩
  · rw [htexts]
    exact h.table_eq n table htable
  · rw [htexts]
    exact h.interned_eq_nil n hn
  · rcases List.mem_append.1 hr with hr | hr
    · exact h.live r hr
    · exact h.live r (List.mem_singleton.1 hr ▸ hmem)
  · have hcases : symbol ∈ l.handedOut ∨ symbol = receipt.symbol := by
      simp only [handedOut, Session.keptSymbols, Session.obtain, List.mem_append,
        List.mem_singleton] at hsymbol ⊢
      tauto
    rcases hcases with hbefore | rfl
    · obtain ⟨r, hr, hsame⟩ := h.complete symbol hbefore
      exact ⟨r, List.mem_append_left _ hr, hsame⟩
    · exact ⟨receipt, List.mem_append_left _ hmem, rfl⟩

/-- Every operation keeps a ledger sound. -/
theorem Sound.perform? (h : l.Sound operations) (hp : l.perform? operation = some l') :
    l'.Sound (operations ++ [operation]) := by
  cases operation with
  | ask request => exact h.ask hp
  | clone place => exact h.clone hp

/-- Running operations after others keeps a ledger sound. -/
theorem Sound.run? {more : List Operation} (h : l.Sound operations) (hr : l.run? more = some l') :
    l'.Sound (operations ++ more) := by
  induction more generalizing l operations with
  | nil =>
    rw [List.append_nil]
    exact Option.some.inj hr ▸ h
  | cons operation more ih =>
    obtain ⟨mid, hmid, hrest⟩ := Option.bind_eq_some_iff.1 hr
    rw [List.append_cons]
    exact ih (h.perform? hmid) hrest

/-- The ledger after operations of a new session is sound. -/
theorem sound_of_run? (h : initial.run? operations = some l) : l.Sound operations :=
  sound_initial.run? h

/-- Receipts that were written stay. -/
theorem receipts_of_run? {more : List Operation} (h : l.run? more = some l') :
    l.receipts <+: l'.receipts := by
  induction more generalizing l with
  | nil => exact Option.some.inj h ▸ List.prefix_rfl
  | cons operation more ih =>
    obtain ⟨mid, hmid, hrest⟩ := Option.bind_eq_some_iff.1 h
    have hstep : l.receipts <+: mid.receipts := by
      cases operation with
      | ask request =>
        obtain ⟨_, _, -, rfl⟩ := perform?_ask hmid
        exact List.prefix_append _ _
      | clone place =>
        obtain ⟨_, -, rfl⟩ := perform?_clone hmid
        exact List.prefix_append _ _
    exact hstep.trans (ih hrest)

/-- What always goes on succeeds where it begins. -/
theorem isSome_bind_iff {α β : Type} {o : Option α} {f : α → Option β}
    (hf : ∀ a, (f a).isSome = true) : (o.bind f).isSome = true ↔ o.isSome = true := by
  cases o with
  | none => rfl
  | some a => exact iff_of_true (hf a) rfl

/-- There is something at a place exactly when the list is longer. -/
theorem isSome_place_iff {α : Type} {xs : List α} {n : Nat} :
    xs[n]?.isSome = true ↔ n < xs.length := by
  rw [Option.isSome_iff_exists]
  exact ⟨fun ⟨_, h⟩ => (List.getElem?_eq_some_iff.1 h).1,
    fun h => ⟨_, List.getElem?_eq_getElem h⟩⟩

/-- A request is answered exactly when all that it names exists. -/
theorem isSome_answer? (l : Ledger) (request : Request) :
    (l.session.answer? request).isSome = true ↔ l.Allows (.ask request) := by
  have htwo : ∀ {α β : Type} {xs : List α} {first second : Nat} {f : α → α → Option β},
      (∀ a b, (f a b).isSome = true) →
      ((xs[first]?.bind fun a => xs[second]?.bind (f a)).isSome = true ↔
        first < xs.length ∧ second < xs.length) := by
    intro α β xs first second f hf
    rw [← isSome_place_iff, ← isSome_place_iff]
    cases xs[first]? with
    | none => simp
    | some a => exact (isSome_bind_iff (hf a)).trans (by simp)
  cases request with
  | newTable | distinct | quote => exact iff_of_true rfl trivial
  | intern number text | size number | lex number text =>
    exact (isSome_bind_iff fun _ => rfl).trans isSome_place_iff
  | get number text =>
    refine (isSome_bind_iff fun table => ?_).trans isSome_place_iff
    cases table.get? text <;> rfl
  | parse number dialect text =>
    refine (isSome_bind_iff fun table => ?_).trans isSome_place_iff
    cases hresult : (parseText table dialect text).1 <;> simp [hresult]
  | compare first second => exact htwo fun _ _ => rfl
  | compareTrees first second => exact htwo fun _ _ => rfl

/-- An operation succeeds exactly when all that it names exists. -/
theorem isSome_perform? (l : Ledger) (operation : Operation) :
    (l.perform? operation).isSome = true ↔ l.Allows operation := by
  cases operation with
  | ask request => exact (isSome_bind_iff fun _ => rfl).trans (l.isSome_answer? request)
  | clone place => exact (isSome_bind_iff fun _ => rfl).trans isSome_place_iff

/-- Symbols of receipts are the same exactly when they were asked for from the same table by the
same text. -/
theorem Sound.symbol_beq_iff (h : l.Sound operations) {r r' : Receipt} (hr : r ∈ l.receipts)
    (hr' : r' ∈ l.receipts) :
    (r.symbol == r'.symbol) = true ↔ r.table = r'.table ∧ r.text = r'.text := by
  obtain ⟨table, htable, hget⟩ := h.live r hr
  obtain ⟨table', htable', hget'⟩ := h.live r' hr'
  have hnumber : r.symbol.table = r.table :=
    (SymbolTable.get?_eq_some_iff.1 hget).2.1.trans (h.numbered _ _ htable)
  have hnumber' : r'.symbol.table = r'.table :=
    (SymbolTable.get?_eq_some_iff.1 hget').2.1.trans (h.numbered _ _ htable')
  have hbeq : (r.symbol == r'.symbol) = true ↔
      r.table = r'.table ∧ r.symbol.index = r'.symbol.index := by
    rw [← hnumber, ← hnumber', ← beq_iff_eq (a := r.symbol.table),
      ← beq_iff_eq (a := r.symbol.index), ← Bool.and_eq_true]
    rfl
  rw [hbeq]
  refine and_congr_right fun hsame => ?_
  rw [hsame, htable', Option.some.injEq] at htable
  subst htable
  exact SymbolTable.text_inj_of_get? hget hget'

/-- A table has as many texts as different ones were interned in it, and symbols for those. -/
theorem Sound.size_eq (h : l.Sound operations) {n : Nat} {table : SymbolTable}
    (htable : l.session.tables[n]? = some table) :
    table.size = (Operation.interned n operations).toFinset.card ∧
      ∀ text, (table.get? text).isSome = true ↔ text ∈ Operation.interned n operations := by
  have hmem : ∀ text, text ∈ table.texts ↔ text ∈ Operation.interned n operations := by
    intro text
    rw [h.table_eq n table htable, SymbolTable.mem_texts_internAll]
    simp [SymbolTable.empty]
  refine ⟨?_, fun text => by rw [SymbolTable.isSome_get?, hmem]⟩
  have hset : table.texts.toFinset = (Operation.interned n operations).toFinset := by
    ext text
    rw [List.mem_toFinset, List.mem_toFinset, hmem]
  rw [← hset, List.toFinset_card_of_nodup table.distinct]
  rfl

end Ledger

/-- What lexing a text interns: the reserved words, the spellings of the tokens, and the empty
text. -/
theorem mem_lexedTexts (symbols : SymbolTable) (text spelling : String) :
    spelling ∈ lexedTexts text ↔ spelling ∈ TokenKind.keywordSpellings ∨
      (∃ t ∈ (tokenize symbols text).1, t.kind ≠ .eof ∧ t.spelling = spelling) ∨
      spelling = "" := by
  obtain ⟨ls, finish, hls, hfinish, hlex, -⟩ :=
    TextCursor.lexemesWithin_spec _ (TextCursor.ofText text) (Nat.le_refl _)
  have hscan : scan text = ls ++ [finish] := hls
  have hend : finish.kind = .eof := congrArg Word.kind hfinish
  have hempty : finish.text = "" := congrArg Word.text hfinish
  have htokens : ∀ l ∈ scan text, ∃ t ∈ (tokenize symbols text).1, t.lexeme = l := by
    intro l hl
    rw [← map_lexeme_tokenize symbols text] at hl
    exact List.mem_map.1 hl
  rw [lexedTexts, List.mem_append, List.mem_map]
  refine or_congr_right ⟨?_, ?_⟩
  · rintro ⟨l, hl, rfl⟩
    obtain ⟨t, ht, rfl⟩ := htokens l hl
    rw [hscan, List.mem_append, List.mem_singleton] at hl
    rcases hl with hl | hl
    · exact .inl ⟨t, ht, (Word.isLexeme_iff.1 (hlex _ hl)).1, rfl⟩
    · exact .inr (hl ▸ hempty)
  · rintro (⟨t, ht, -, rfl⟩ | rfl)
    · refine ⟨t.lexeme, ?_, rfl⟩
      rw [← map_lexeme_tokenize symbols text]
      exact List.mem_map_of_mem ht
    · exact ⟨finish, by simp [hscan], hempty⟩

/-- There are twenty-three reserved words. -/
theorem card_keywordSpellings : TokenKind.keywordSpellings.toFinset.card = 23 := by
  decide +kernel

/-- What a session hands out, after any operations on any number of tables. Symbols are the same
exactly when they were asked for from the same table by the same text, and every symbol keeps its
text. A table has as many texts as different ones were interned in it; lexing or reading a text
interns the reserved words, the spellings of the tokens and the empty text. Looking a text up
finds a symbol exactly when the text was interned, and changes neither tables nor trees.
Operations succeed whenever what they name exists. -/
theorem symbols_of_run (operations : List Operation) (l : Ledger)
    (h : Ledger.initial.run? operations = some l) :
    (∀ r ∈ l.receipts, ∀ r' ∈ l.receipts,
      (r.symbol == r'.symbol) = true ↔ r.table = r'.table ∧ r.text = r'.text) ∧
    (∀ symbol ∈ l.handedOut, ∃ r ∈ l.receipts, r.symbol = symbol) ∧
    (∀ r ∈ l.receipts, r.symbol.text = r.text) ∧
    (∀ more l', l.run? more = some l' → l.receipts <+: l'.receipts) ∧
    (∀ n table, l.session.tables[n]? = some table →
      table.size = (Operation.interned n operations).toFinset.card) ∧
    (TokenKind.keywordSpellings.toFinset.card = 23 ∧ ∀ symbols text spelling,
      spelling ∈ lexedTexts text ↔ spelling ∈ TokenKind.keywordSpellings ∨
        (∃ t ∈ (tokenize symbols text).1, t.kind ≠ .eof ∧ t.spelling = spelling) ∨
        spelling = "") ∧
    (∀ n text, n < l.session.tables.length → ∃ handle size session,
      l.session.answer? (.get n text) = some (.looked handle size, session) ∧
        (handle.isSome = true ↔ text ∈ Operation.interned n operations) ∧
        session.tables = l.session.tables ∧ session.trees = l.session.trees) ∧
    ∀ o, (l.perform? o).isSome = true ↔ l.Allows o := by
  have hsound := Ledger.sound_of_run? h
  refine ⟨fun r hr r' hr' => hsound.symbol_beq_iff hr hr', hsound.complete, fun r hr => ?_,
    fun more l' hmore => Ledger.receipts_of_run? hmore,
    fun n table htable => (hsound.size_eq htable).1,
    ⟨card_keywordSpellings, mem_lexedTexts⟩, fun n text hn => ?_, l.isSome_perform?⟩
  · obtain ⟨table, -, hget⟩ := hsound.live r hr
    exact (SymbolTable.get?_eq_some_iff.1 hget).2.2
  · have htable := List.getElem?_eq_getElem hn
    obtain ⟨-, hfound⟩ := hsound.size_eq htable
    cases hget : l.session.tables[n].get? text with
    | none =>
      refine ⟨none, l.session.tables[n].size, l.session, ?_, ?_, rfl, rfl⟩
      · simp [Session.answer?, htable, hget]
      · rw [← hfound, hget]
        rfl
    | some symbol =>
      refine ⟨some (l.session.obtain symbol).1, l.session.tables[n].size,
        (l.session.obtain symbol).2, ?_, ?_, rfl, rfl⟩
      · simp [Session.answer?, htable, hget]
      · rw [← hfound, hget]
        rfl

/-- Two tables, one of which has lexed a text: the table has the reserved words, the empty text and
two names, and a copied symbol is the same as the symbol of its text in its table. -/
theorem symbols_of_run_two_tables :
    ∃ l, Ledger.initial.run? [.ask .newTable, .ask (.intern 0 "x"), .ask (.lex 1 "x y"),
        .clone 1] = some l ∧
      (∀ r ∈ l.receipts, ∀ r' ∈ l.receipts,
        (r.symbol == r'.symbol) = true ↔ r.table = r'.table ∧ r.text = r'.text) ∧
      ∀ table, l.session.tables[1]? = some table → table.size = 26 := by
  have hrun : (Ledger.initial.run? [.ask .newTable, .ask (.intern 0 "x"), .ask (.lex 1 "x y"),
    .clone 1]).isSome = true := by decide +kernel
  obtain ⟨l, hl⟩ := Option.isSome_iff_exists.1 hrun
  obtain ⟨hsame, -, -, -, hsize, -⟩ := symbols_of_run _ l hl
  refine ⟨l, hl, hsame, fun table htable => ?_⟩
  rw [hsize 1 table htable]
  decide +kernel

end ConcreteSyntax
