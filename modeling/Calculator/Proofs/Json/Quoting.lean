import Calculator.Json.Value

/-!
# Reading what was quoted

Writing a string escapes some of its characters, and each of them is read back as one piece that
spells it (`exists_piece`): an escape of four digits only names characters below the space, so that
no half of a surrogate pair can arise.  Hence a quoted string is one token, which holds the string.

`Lexes` puts texts of tokens together.  It asks for the tokens of a text in front of any other, and
so it only holds of texts whose last token cannot go on; the ones that are written here end in a
quotation mark or in punctuation.
-/

set_option autoImplicit false

namespace Calculator.Json

/-! ## Characters -/

/-- The piece stands for the character, whatever follows it. -/
def Piece.Spells (p : Piece) (c : Char) : Prop :=
  ∀ ps, decodePieces (p :: ps) = (decodePieces ps).map (c :: ·)

theorem Piece.spells_char (c : Char) : (char c).Spells c := fun _ ↦ by rw [decodePieces]

/-- A code unit below the surrogates is a character of its own. -/
theorem Piece.spells_unit {c : Char} (h : c.toNat < 0xD800) : (unit c.toNat).Spells c := by
  have hhigh : isHighSurrogate c.toNat = false := by
    rw [isHighSurrogate, decide_eq_false (Nat.not_le_of_lt h), Bool.false_and]
  have hlow : isLowSurrogate c.toNat = false := by
    rw [isLowSurrogate, decide_eq_false (Nat.not_le_of_lt (Nat.lt_trans h (by decide))),
      Bool.false_and]
  intro ps
  cases ps with
  | nil => simp [decodePieces, hhigh, hlow, Char.ofNat_toNat]
  | cons p ps => cases p <;> simp [decodePieces, hhigh, hlow, Char.ofNat_toNat]

/-! ## Escapes -/

theorem scanString_short {e c : Char} (h : shortEscape? e = some c) (rest : List Char) :
    scanString ('\\' :: e :: rest) = (scanString rest).map (Piece.char c).cons := by
  have hu : e ≠ 'u' := by
    rintro rfl
    cases h
  rw [scanString]
  · rw [h]
    cases scanString rest <;> rfl
  · rintro a b c d tail rfl
    exact absurd rfl hu

theorem hexValue?_hexDigit {n : Nat} (h : n < 16) : hexValue? (hexDigit n) = some n := by
  have hall : ∀ n < 16, hexValue? (hexDigit n) = some n := by decide
  exact hall n h

theorem scanString_unit {n : Nat} (h : n < 256) (rest : List Char) :
    scanString ('\\' :: 'u' :: '0' :: '0' :: hexDigit (n / 16) :: hexDigit (n % 16) :: rest)
      = (scanString rest).map (Piece.unit n).cons := by
  have hunit : hexUnit? '0' '0' (hexDigit (n / 16)) (hexDigit (n % 16)) = some n := by
    have hzero : hexValue? '0' = some 0 := by decide
    rw [hexUnit?, hzero, hexValue?_hexDigit (by omega), hexValue?_hexDigit (by omega)]
    refine congrArg some ?_
    omega
  rw [scanString, hunit]
  cases scanString rest <;> rfl

theorem scanString_plain {c : Char} (hquote : c ≠ '"') (hslash : c ≠ '\\')
    (hcontrol : ¬ c.toNat < 0x20) (rest : List Char) :
    scanString (c :: rest) = (scanString rest).map (Piece.char c).cons := by
  rw [scanString]
  · rw [if_neg (not_or.mpr ⟨hslash, hcontrol⟩)]
  · exact hquote
  · rintro a b d e tail rfl
    exact absurd rfl hslash
  · rintro e tail rfl
    exact absurd rfl hslash

/-- A character that is written is read back as one piece. -/
theorem exists_piece (c : Char) :
    ∃ p : Piece, p.Spells c ∧
      ∀ rest, scanString (escape c ++ rest) = (scanString rest).map p.cons := by
  have hshort : ∀ e d : Char, shortEscape? e = some d →
      ∃ p : Piece, p.Spells d ∧
        ∀ rest, scanString (['\\', e] ++ rest) = (scanString rest).map p.cons :=
    fun e d h ↦ ⟨.char d, Piece.spells_char d, scanString_short h⟩
  have hcode : ∀ d : Char, c.toNat = d.toNat → c = d := by
    intro d h
    rw [← Char.ofNat_toNat c, h, Char.ofNat_toNat]
  rw [escape]
  split
  · rename_i h
    exact h ▸ hshort '"' '"' rfl
  split
  · rename_i h
    exact h ▸ hshort '\\' '\\' rfl
  split
  · rename_i h
    exact h ▸ hshort 'n' '\n' rfl
  split
  · rename_i h
    exact h ▸ hshort 'r' '\r' rfl
  split
  · rename_i h
    exact h ▸ hshort 't' '\t' rfl
  split
  · rename_i h
    exact hcode '\x08' h ▸ hshort 'b' '\x08' rfl
  split
  · rename_i h
    exact hcode '\x0c' h ▸ hshort 'f' '\x0c' rfl
  split
  · rename_i h
    exact ⟨.unit c.toNat, Piece.spells_unit (by omega), scanString_unit (by omega)⟩
  · rename_i hquote hslash _ _ _ _ _ hcontrol
    exact ⟨.char c, Piece.spells_char c, scanString_plain hquote hslash hcontrol⟩

/-! ## Strings -/

/-- The characters that are written are those that are read. -/
theorem scanString_flatMap_escape (cs rest : List Char) :
    ∃ ps : List Piece, decodePieces ps = some cs ∧
      scanString (cs.flatMap escape ++ '"' :: rest) = some (ps, rest) := by
  induction cs with
  | nil => exact ⟨[], by rw [decodePieces], by rw [List.flatMap_nil, List.nil_append, scanString]⟩
  | cons c cs ih =>
    obtain ⟨ps, hdecode, hscan⟩ := ih
    obtain ⟨p, hspells, hpiece⟩ := exists_piece c
    refine ⟨p :: ps, ?_, ?_⟩
    · rw [hspells, hdecode]
      rfl
    · rw [List.flatMap_cons, List.append_assoc, hpiece, hscan]
      rfl

/-! ## Texts of tokens -/

/-- The text consists of these tokens, whatever follows it. -/
def Lexes (s : List Char) (ts : List Token) : Prop :=
  ∀ rest, lex (s ++ rest) = (lex rest).map (ts ++ ·)

theorem Lexes.append {a b : List Char} {ts us : List Token} (ha : Lexes a ts) (hb : Lexes b us) :
    Lexes (a ++ b) (ts ++ us) := by
  intro rest
  rw [List.append_assoc, ha, hb]
  cases lex rest with
  | none => rfl
  | some vs => exact congrArg some (List.append_assoc ts us vs).symm

/-- The tokens of a text that nothing follows. -/
theorem Lexes.lex_eq {s : List Char} {ts : List Token} (h : Lexes s ts) : lex s = some ts := by
  have hnil := h []
  rw [List.append_nil, lex] at hnil
  rw [hnil]
  exact congrArg some (List.append_nil ts)

theorem lex_of_scanToken {c : Char} {cs rest : List Char} {t : Token} (hspace : isSpace c = false)
    (h : scanToken c cs = some (t, rest)) : lex (c :: cs) = (lex rest).map ([t] ++ ·) := by
  rw [lex, hspace]
  simp only [Bool.false_eq_true, if_false]
  split
  · rename_i hnone
    rw [h] at hnone
    cases hnone
  · rename_i hsome
    rw [h] at hsome
    cases hsome
    rfl

theorem lexes_ofChar {c : Char} {t : Token} (h : Token.ofChar? c = some t) : Lexes [c] [t] := by
  intro rest
  have hspace : isSpace c = false := by
    unfold Token.ofChar? at h
    split at h <;> first | decide | cases h
  refine lex_of_scanToken hspace ?_
  rw [scanToken, h]
  rfl

theorem lexes_space {c : Char} (h : isSpace c = true) : Lexes [c] [] := by
  intro rest
  show lex (c :: rest) = _
  rw [lex, if_pos h]
  exact Option.map_id'.symm

/-- **A quoted string** is one token, which holds the string. -/
theorem lexes_quote (s : String) : Lexes (quote s) [.string (some s)] := by
  intro rest
  obtain ⟨ps, hdecode, hscan⟩ := scanString_flatMap_escape s.toList rest
  have hquote : quote s ++ rest = '"' :: (s.toList.flatMap escape ++ '"' :: rest) := by
    simp [quote]
  rw [hquote]
  refine lex_of_scanToken (by decide) ?_
  rw [scanToken, (by decide : Token.ofChar? '"' = none)]
  simp only [if_true, hscan, Option.map_some, hdecode, String.ofList_toList]

end Calculator.Json
