import Calculator.History.Basic
import Calculator.Proofs.Json.Quoting

/-!
# Histories that were stored

A history is read back from the text that it is stored as (`ofJson_json`), whatever characters its
entries hold.  The text is a list of tokens, the tokens are one JSON value, and the value is an
array of entries; each of these steps is taken for one entry first, and then for the entries behind
it by induction.
-/

set_option autoImplicit false

namespace Calculator

open Json

/-! ## Entries -/

namespace Entry

/-- The tokens that an entry is written with. -/
def tokens (e : Entry) : List Json.Token :=
  [.openBrace, .string (some "expression"), .colon, .string (some e.expression),
    .comma, .string (some "result"), .colon, .string (some e.result),
    .comma, .string (some "timestamp"), .colon, .string (some e.timestamp), .closeBrace]

/-- The JSON value that an entry is written as. -/
def toJson (e : Entry) : Json :=
  .object [(some "expression", .string (some e.expression)),
    (some "result", .string (some e.result)), (some "timestamp", .string (some e.timestamp))]

theorem lexes_json (e : Entry) : Lexes e.json e.tokens := by
  have hmark : ∀ {c : Char} {t : Json.Token} (s : String), Json.Token.ofChar? c = some t →
      Lexes (c :: quote s) [t, .string (some s)] :=
    fun s h ↦ (lexes_ofChar h).append (lexes_quote s)
  have hfield : ∀ {c : Char} {t : Json.Token} (name s : String), Json.Token.ofChar? c = some t →
      Lexes (c :: quote name ++ ':' :: quote s)
        [t, .string (some name), .colon, .string (some s)] :=
    fun name s h ↦ (hmark name h).append (hmark s rfl)
  have hexpression := hfield "expression" e.expression (c := '\x7b') rfl
  have hresult := hfield "result" e.result (c := ',') rfl
  have htimestamp := hfield "timestamp" e.timestamp (c := ',') rfl
  have hall := ((hexpression.append hresult).append htimestamp).append
    (lexes_ofChar (c := '\x7d') rfl)
  rw [json]
  simpa [tokens] using hall

theorem run_tokens (e : Entry) (stack : List Frame) :
    run (.value stack) e.tokens = some (.done stack e.toJson) := rfl

/-- An entry is read back from the value that it is written as. -/
theorem ofJson?_toJson (e : Entry) : ofJson? e.toJson = some e := by
  simp [toJson, ofJson?, field?, uniqueMember?, text?]

end Entry

/-! ## Lists of entries -/

namespace History

/-- The tokens of entries, up to the bracket that closes their array. -/
def itemTokens : List Entry → List Json.Token
  | [] => [.closeBracket]
  | [e] => e.tokens ++ [.closeBracket]
  | e :: f :: es => e.tokens ++ .comma :: itemTokens (f :: es)

theorem lexes_commaSeparated (es : List Entry) :
    Lexes (commaSeparated (es.map Entry.json) ++ [']']) (itemTokens es) := by
  induction es with
  | nil => exact lexes_ofChar rfl
  | cons e es ih =>
    cases es with
    | nil => exact e.lexes_json.append (lexes_ofChar rfl)
    | cons f es =>
      have hcomma := (lexes_ofChar (c := ',') rfl).append ih
      have hall := e.lexes_json.append hcomma
      simpa [commaSeparated, itemTokens] using hall

/-- Entries behind others are added to the array. -/
theorem run_itemTokens (e : Entry) (es : List Entry) (items : List Json) :
    run (.value [.array items]) (itemTokens (e :: es))
      = some (.done [] (.array (items.reverse ++ (e :: es).map Entry.toJson))) := by
  induction es generalizing e items with
  | nil =>
    rw [itemTokens, run_append, e.run_tokens]
    simp [run_cons, run_nil, step]
  | cons f es ih =>
    rw [itemTokens, run_append, e.run_tokens]
    show run (.value [.array (e.toJson :: items)]) (itemTokens (f :: es)) = _
    rw [ih]
    simp

/-- The array of some entries. -/
theorem run_openBracket (es : List Entry) :
    run (.value []) (.openBracket :: itemTokens es)
      = some (.done [] (.array (es.map Entry.toJson))) := by
  cases es with
  | nil => rfl
  | cons e es =>
    have hfirst : run (.firstItem []) (itemTokens (e :: es))
        = run (.value [.array []]) (itemTokens (e :: es)) := by
      cases es <;> rfl
    show run (.firstItem []) (itemTokens (e :: es)) = _
    rw [hfirst, run_itemTokens]
    rfl

theorem mapM_ofJson?_toJson (es : List Entry) :
    (es.map Entry.toJson).mapM Entry.ofJson? = some es := by
  induction es with
  | nil => rfl
  | cons e es ih =>
    rw [List.map_cons, List.mapM_cons, e.ofJson?_toJson, ih]
    rfl

/-- The JSON array of some entries, in this order. -/
def entriesJson (es : List Entry) : String :=
  String.ofList ('[' :: commaSeparated (es.map Entry.json) ++ [']'])

theorem json_eq (h : History) : h.json = entriesJson h.entries.reverse := rfl

theorem parse_entriesJson (es : List Entry) :
    Json.parse (entriesJson es) = some (.array (es.map Entry.toJson)) := by
  have hlex := ((lexes_ofChar (c := '[') rfl).append (lexes_commaSeparated es)).lex_eq
  have hjson : (entriesJson es).toList
      = ['['] ++ (commaSeparated (es.map Entry.json) ++ [']']) := by
    simp [entriesJson]
  rw [Json.parse, hjson, hlex]
  show (run (.value []) (.openBracket :: itemTokens es)).bind finish = _
  rw [run_openBracket]
  rfl

/-- Entries are read back from their array, oldest first, as far as they fit. -/
theorem ofJson_entriesJson (es : List Entry) : ofJson (entriesJson es) = ofNewest es.reverse := by
  have hentries : entriesOfJson? (entriesJson es) = some es := by
    rw [entriesOfJson?, parse_entriesJson]
    exact mapM_ofJson?_toJson es
  rw [ofJson, hentries]

/-- **A history is read back** from the text that it is stored as. -/
theorem ofJson_json (h : History) : ofJson h.json = h := by
  rw [json_eq, ofJson_entriesJson, List.reverse_reverse, h.ofNewest_entries]

end History

end Calculator
