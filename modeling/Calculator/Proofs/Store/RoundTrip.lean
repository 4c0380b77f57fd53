import Calculator.Proofs.Json.Quoting
import Calculator.Store.Values

/-!
# Maps that were stored

A map is read back from its written form (`ofJson?_json`), whatever characters its keys and values
hold.  Reading puts the members into an empty map one after the other.  They were written in the
order of their keys, so each of them goes to the end (`insertEntry_of_forall_lt`), and what is read
is the map that was written.
-/

set_option autoImplicit false

namespace Calculator

namespace Values

open Json

/-! ## Tokens -/

/-- The tokens of members, up to the brace that closes their object. -/
def memberTokens : List (String × String) → List Json.Token
  | [] => [.closeBrace]
  | [e] => [.string (some e.1), .colon, .string (some e.2), .closeBrace]
  | e :: f :: es =>
    .string (some e.1) :: .colon :: .string (some e.2) :: .comma :: memberTokens (f :: es)

theorem lexes_member (e : String × String) :
    Lexes ('\n' :: member e) [.string (some e.1), .colon, .string (some e.2)] := by
  have hindent := (lexes_space (c := ' ') rfl).append
    ((lexes_space (c := ' ') rfl).append (lexes_quote e.1))
  have hvalue := (lexes_ofChar (c := ':') rfl).append
    ((lexes_space (c := ' ') rfl).append (lexes_quote e.2))
  exact (lexes_space (c := '\n') rfl).append (hindent.append hvalue)

theorem lexes_members (es : List (String × String)) :
    Lexes (members es ++ ['\n', '\x7d']) (memberTokens es) := by
  have hend : Lexes ['\n', '\x7d'] [.closeBrace] :=
    (lexes_space (c := '\n') rfl).append (lexes_ofChar (c := '\x7d') rfl)
  induction es with
  | nil => exact hend
  | cons e es ih =>
    cases es with
    | nil => exact (lexes_member e).append hend
    | cons f es =>
      have hcomma := (lexes_ofChar (c := ',') rfl).append ih
      have hall := (lexes_member e).append hcomma
      simpa [members, memberTokens] using hall

/-! ## Members -/

/-- A member as it is read. -/
def asMember (e : String × String) : Option String × Json := (some e.1, .string (some e.2))

/-- Members behind others are added to the object. -/
theorem run_memberTokens (e : String × String) (es : List (String × String))
    (ms : List (Option String × Json)) :
    run (.name [] ms) (memberTokens (e :: es))
      = some (.done [] (.object (ms.reverse ++ (e :: es).map asMember))) := by
  induction es generalizing e ms with
  | nil => simp [memberTokens, run_cons, run_nil, step, beginValue, asMember]
  | cons f es ih =>
    show run (.name [] (asMember e :: ms)) (memberTokens (f :: es)) = _
    rw [ih]
    simp

/-- The object of some members. -/
theorem run_openBrace (es : List (String × String)) :
    run (.value []) (.openBrace :: memberTokens es)
      = some (.done [] (.object (es.map asMember))) := by
  cases es with
  | nil => rfl
  | cons e es =>
    have hfirst : run (.firstName []) (memberTokens (e :: es))
        = run (.name [] []) (memberTokens (e :: es)) := by
      cases es <;> rfl
    show run (.firstName []) (memberTokens (e :: es)) = _
    rw [hfirst, run_memberTokens]
    rfl

theorem parse_json (v : Values) : Json.parse v.json = some (.object (v.entries.map asMember)) := by
  have hbrace : Lexes ['\x7b'] [.openBrace] := lexes_ofChar rfl
  have hlexes : Lexes v.json.toList (.openBrace :: memberTokens v.entries) := by
    rw [json, String.toList_ofList]
    split
    · rename_i hnil
      rw [hnil]
      exact hbrace.append (lexes_ofChar (c := '\x7d') rfl)
    · exact hbrace.append (lexes_members v.entries)
  rw [Json.parse, hlexes.lex_eq]
  show (run (.value []) (.openBrace :: memberTokens v.entries)).bind finish = _
  rw [run_openBrace]
  rfl

/-! ## The map -/

/-- A key that is greater than all others goes to the end. -/
theorem insertEntry_of_forall_lt {key value : String} {es : List (String × String)}
    (h : ∀ e ∈ es, e.1 < key) : insertEntry key value es = es ++ [(key, value)] := by
  induction es with
  | nil => rfl
  | cons e es ih =>
    obtain ⟨he, hes⟩ := List.forall_mem_cons.mp h
    have hne : key ≠ e.1 := by
      rintro rfl
      exact String.lt_irrefl e.1 he
    rw [insertEntry, if_neg (String.lt_asymm he), if_neg hne, ih hes]
    rfl

/-- Members in the order of their keys are put behind what is there. -/
theorem insertMembers_asMember {v w : Values} {es : List (String × String)}
    (h : w.entries = v.entries ++ es) : insertMembers v (es.map asMember) = some w := by
  induction es generalizing v with
  | nil =>
    rw [List.append_nil] at h
    exact congrArg some (ext h.symm)
  | cons e es ih =>
    have hlast : ∀ f ∈ v.entries, f.1 < e.1 := by
      have hascend := w.ascend
      rw [h] at hascend
      exact fun f hf ↦ (List.pairwise_append.mp hascend).2.2 f hf e List.mem_cons_self
    refine ih (v := v.insert e.1 e.2) ?_
    show w.entries = insertEntry e.1 e.2 v.entries ++ es
    rw [insertEntry_of_forall_lt hlast, h, List.append_assoc]
    rfl

/-- **A map is read back** from its written form. -/
theorem ofJson?_json (v : Values) : ofJson? v.json = some v := by
  rw [ofJson?, v.parse_json]
  exact insertMembers_asMember (v := empty) rfl

end Values

end Calculator
