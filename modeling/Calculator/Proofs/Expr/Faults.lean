import Calculator.Proofs.Expr.Lexemes

/-!
# The leftmost fault

A text that has no tokens has a fault (`Fault`): a character with which nothing begins, or something
of the shape of a numeral that lacks digits.  There can be several faults, and a fault need not
matter: a text that is cut differently may never come to it.  What the lexer reports is the leftmost
one that can be reached by cutting the text into longest lexemes, and nothing else is reported
(`tokenize_exact`).
-/

set_option autoImplicit false

namespace Calculator

namespace Token

/-! ## Faults -/

/-- No token can be read at the start of the text, because of its first character or because digits
are missing; `offset` is the number of bytes in front of the text. -/
inductive Fault (offset : Nat) : List Char → ArithmeticError → Prop where
  | char {c : Char} {after : List Char} (hblank : Text.isBlank c = false)
      (hstart : ∀ l t, IsLexeme l t → c ∉ l.head?) :
      Fault offset (c :: after) (.unexpectedChar c offset)
  | number {n : Numeral} {after : List Char} (hn : n.WellFormed)
      (hstart : ∃ c ∈ n.text.head?, Numeral.starts c = true)
      (hlong : ∀ n' : Numeral, n'.WellFormed → n'.text <+: n.text ++ after →
        n'.text.length ≤ n.text.length)
      (hc : n.isComplete = false) :
      Fault offset (n.text ++ after) (.malformedNumber (String.ofList n.text))

section

variable {offset : Nat} {s l rest : List Char} {us : List Token} {cause : ArithmeticError}
  {c : Char}

/-- With a digit or a point some numeral begins. -/
theorem exists_lexeme_of_starts (h : Numeral.starts c = true) :
    ∃ l t, IsLexeme l t ∧ c ∈ l.head? := by
  rw [Numeral.starts, Bool.or_eq_true, beq_iff_eq] at h
  rcases h with hdigit | rfl
  · have hn : (⟨[c], none, none⟩ : Numeral).WellFormed :=
      ⟨List.forall_mem_singleton.mpr hdigit, by simp, by simp⟩
    exact ⟨_, _, .numeral hn rfl, rfl⟩
  · have hn : (⟨[], some ['0'], none⟩ : Numeral).WellFormed := by
      refine ⟨by simp, ?_, by simp⟩
      rintro _ ⟨rfl⟩
      exact List.forall_mem_singleton.mpr (by decide)
    exact ⟨_, _, .numeral hn rfl, rfl⟩

/-- A text has at most one fault at its start. -/
theorem Fault.cause_eq {cause' : ArithmeticError} (h : Fault offset s cause)
    (h' : Fault offset s cause') : cause = cause' := by
  have hchar : ∀ {d : Char} {n : Numeral}, (∀ l t, IsLexeme l t → d ∉ l.head?) →
      (∃ e ∈ n.text.head?, Numeral.starts e = true) → d ∉ n.text.head? := by
    rintro d n hstart ⟨e, he, hstarts⟩ hd
    obtain rfl := Option.some.inj (hd.symm.trans he)
    obtain ⟨l, t, hl, hmem⟩ := exists_lexeme_of_starts hstarts
    exact hstart l t hl hmem
  cases h with
  | @char d after _ hstart =>
    generalize hs : d :: after = u at h'
    cases h' with
    | char => cases hs; rfl
    | @number n after' _ hstarts =>
      obtain ⟨e, he, -⟩ := id hstarts
      obtain ⟨es, htext⟩ := List.head?_eq_some_iff.mp he
      rw [htext] at hs
      obtain ⟨rfl, -⟩ := List.cons.inj hs
      exact absurd he (hchar hstart hstarts)
  | @number n after hn hstarts hlong _ =>
    generalize hs : n.text ++ after = u at h' hlong
    cases h' with
    | @char d after' _ hstart =>
      obtain ⟨e, he, -⟩ := id hstarts
      obtain ⟨es, htext⟩ := List.head?_eq_some_iff.mp he
      rw [htext] at hs
      obtain ⟨rfl, -⟩ := List.cons.inj hs
      exact absurd he (hchar hstart hstarts)
    | @number m after' hm _ hlong' _ =>
      have hle := hlong m hm (List.prefix_append _ _)
      have hge := hlong' n hn ⟨after, hs⟩
      rw [(List.append_inj hs (Nat.le_antisymm hge hle)).1]

/-- Where something is taken there is no fault. -/
theorem Takes.not_fault (h : Takes rest l us) :
    ¬ Fault offset (l ++ rest) cause := by
  intro hfault
  obtain ⟨d, ds, hd⟩ := List.exists_cons_of_ne_nil h.ne_nil
  generalize hs : l ++ rest = s at hfault
  cases hfault with
  | char hblank hstart =>
    rcases h.blank_or_longest with ⟨c, rfl, hc, -⟩ | ⟨t, -, hl, -⟩
    · cases hs
      rw [hblank] at hc
      cases hc
    · rw [hd] at hs hl
      cases hs
      exact hstart _ t hl rfl
  | @number n after hn hstart hlong hincomplete =>
    obtain ⟨c, hhead, hstarts⟩ := hstart
    have hc : c ∈ l.head? := by
      obtain ⟨cs, hcs⟩ := List.head?_eq_some_iff.mp hhead
      rw [hd, hcs] at hs
      obtain ⟨rfl, -⟩ := List.cons.inj hs
      rw [hd]
      rfl
    obtain ⟨m, rfl, hm, hcomplete, hrest⟩ := h.numeral_of_starts hc hstarts
    have hle := Numeral.length_text_le_scan hn after
    rw [← hs, Numeral.scan_text_append hm hrest] at hle
    obtain ⟨htext, -⟩ := List.append_inj hs (Nat.le_antisymm (hlong m hm ⟨rest, hs⟩) hle)
    rw [Numeral.eq_of_text_eq hn hm htext.symm, hcomplete] at hincomplete
    cases hincomplete

theorem not_fault_nil : ¬ Fault offset [] cause := by
  intro hfault
  generalize hs : ([] : List Char) = u at hfault
  cases hfault with
  | char => cases hs
  | number _ hstart =>
    obtain ⟨c, hc, -⟩ := hstart
    rw [(List.append_eq_nil_iff.mp hs.symm).1] at hc
    cases hc

/-- A text of tokens has no fault where it can be cut. -/
theorem Spells.not_fault {ts : List Token} (h : Spells s ts) :
    ∀ before rest ts', s = before ++ rest → Cuts rest before ts' → ¬ Fault offset rest cause := by
  refine h.induction_takes (p := fun s _ ↦ ∀ before rest ts', s = before ++ rest →
    Cuts rest before ts' → ¬ Fault offset rest cause) ?_ ?_
  · intro before rest ts' heq _
    rw [(List.append_eq_nil_iff.mp heq.symm).2]
    exact not_fault_nil
  · intro l tail us ts htakes ih before rest ts' heq hcut
    by_cases hne : before = []
    · rw [hne, List.nil_append] at heq
      exact heq ▸ htakes.not_fault
    · obtain ⟨before', ts'', rfl, hrest, hcut'⟩ := htakes.cuts_tail hcut heq hne
      exact ih _ _ _ hrest hcut'

/-! ## What is reported -/

/-- Of the places that can be reached by cutting the text, the leftmost one with a fault. -/
def FirstFault (offset : Nat) (s : List Char) (cause : ArithmeticError) : Prop :=
  ∃ before rest ts, s = before ++ rest ∧ Cuts rest before ts ∧
    Fault (offset + byteLength before) rest cause ∧
    ∀ before' rest' ts' offset' cause', s = before' ++ rest' → Cuts rest' before' ts' →
      Fault offset' rest' cause' → before.length ≤ before'.length

theorem Fault.first (h : Fault offset s cause) : FirstFault offset s cause :=
  ⟨[], s, [], rfl, .nil, h, fun _ _ _ _ _ _ _ _ ↦ Nat.zero_le _⟩

/-- A fault behind what is taken. -/
theorem FirstFault.behind (h : Takes rest l us)
    (hfirst : FirstFault (offset + byteLength l) rest cause) :
    FirstFault offset (l ++ rest) cause := by
  obtain ⟨before, after, ts, rfl, hcut, hfault, hleft⟩ := hfirst
  refine ⟨l ++ before, after, us ++ ts, (List.append_assoc _ _ _).symm, h.cuts hcut, ?_, ?_⟩
  · rwa [byteLength_append, ← Nat.add_assoc]
  · intro before' rest' ts' offset' cause' heq hcut' hfault'
    by_cases hne : before' = []
    · rw [hne, List.nil_append] at heq
      rw [← heq] at hfault'
      exact absurd hfault' h.not_fault
    · obtain ⟨before'', ts'', rfl, hrest, hcut''⟩ := h.cuts_tail hcut' heq hne
      have hle := hleft before'' rest' ts'' offset' cause' hrest hcut'' hfault'
      rw [List.length_append, List.length_append]
      exact Nat.add_le_add_left hle _

theorem map_cons_eq_error {x : Except ArithmeticError (List Token)} {t : Token}
    (h : x.map (t :: ·) = .error cause) : x = .error cause := by
  cases x with
  | error e => exact congrArg Except.error (Except.error.inj h)
  | ok us => cases h

/-- **What the lexer reports** is the leftmost fault, by induction along the lexer. -/
theorem firstFault_of_lex (h : lex offset s = .error cause) : FirstFault offset s cause := by
  fun_induction lex offset s with
  | case1 => cases h
  | case2 offset c cs hblank ih => exact .behind (.blank hblank) (ih h)
  | case3 offset c cs hblank hstarts scanned hc =>
    rename_i ih
    have hscan : Numeral.scan (c :: cs) = scanned := rfl
    clear_value scanned
    obtain ⟨n, rest⟩ := scanned
    obtain ⟨heq, hn, hrest⟩ := Numeral.scan_eq_iff.mp hscan
    rw [heq]
    exact .behind (.numeral hn hc hrest) (ih (map_cons_eq_error h))
  | case4 offset c cs hblank hstarts scanned hc =>
    have hscan : Numeral.scan (c :: cs) = scanned := rfl
    have hlt : scanned.2.length < (c :: cs).length := Numeral.length_scan_lt hstarts
    clear_value scanned
    obtain ⟨n, rest⟩ := scanned
    obtain ⟨heq, hn, hrest⟩ := Numeral.scan_eq_iff.mp hscan
    rw [heq] at hlt ⊢
    cases h
    refine (Fault.number hn ?_ (fun n' hn' hbegins ↦ ?_) (Bool.eq_false_iff.mpr hc)).first
    · rcases htext : n.text with _ | ⟨d, ds⟩
      · rw [htext] at hlt
        exact absurd hlt (Nat.lt_irrefl _)
      · rw [htext] at heq
        obtain ⟨rfl, -⟩ := List.cons.inj heq
        exact ⟨c, rfl, hstarts⟩
    · obtain ⟨after, happend⟩ := hbegins
      have hle := Numeral.length_text_le_scan hn' after
      rwa [happend, Numeral.scan_text_append hn hrest] at hle
  | case5 offset rest _ _ ih => exact .behind .power (ih (map_cons_eq_error h))
  | case6 offset rest hstar _ _ ih =>
    refine .behind (l := ['*']) (.times fun hhead ↦ ?_) (ih (map_cons_eq_error h))
    obtain ⟨ds, rfl⟩ := List.head?_eq_some_iff.mp hhead
    exact hstar ds rfl
  | case7 offset c cs _ _ _ t ht ih =>
    have hfirst := ih (map_cons_eq_error h)
    rw [← utf8Size_of_ofChar ht] at hfirst
    exact .behind (l := [c]) (.ofChar ht) hfirst
  | case8 offset c cs hblank hstarts hstar ht =>
    cases h
    refine (Fault.char (Bool.eq_false_iff.mpr hblank) fun l t hl hc ↦ ?_).first
    rcases hl.head c hc with hstart | hstart | hstart
    · exact hstarts hstart
    · exact hstar hstart
    · rw [ht] at hstart
      cases hstart

end

theorem byteLength_eq (cs : List Char) : byteLength cs = (String.ofList cs).utf8ByteSize := by
  induction cs with
  | nil => rfl
  | cons c cs ih => rw [byteLength, ih]; simp [String.ofList_cons]

end Token

/-- **The lexer is exact.**  A text has the tokens into which it can be cut, each lexeme as long as
it can be.  Any other text has a fault, and what is reported is the leftmost one that can be reached
by cutting, with the character and the number of bytes in front of it or with the text that lacks
digits.  The text in front of the fault has tokens. -/
theorem tokenize_exact (s : List Char) :
    (∀ ts, tokenize s = .ok ts ↔ Token.Cuts [] s ts) ∧
      ∀ cause, tokenize s = .error cause ↔ ∃ before rest ts, s = before ++ rest ∧
        Token.Cuts rest before ts ∧ tokenize before = .ok ts ∧
        Token.Fault (String.ofList before).utf8ByteSize rest cause ∧
        ∀ before' rest' ts' offset' cause', s = before' ++ rest' →
          Token.Cuts rest' before' ts' → Token.Fault offset' rest' cause' →
          before.length ≤ before'.length := by
  have htokens : ∀ {s ts}, tokenize s = .ok ts ↔ Token.Cuts [] s ts :=
    Token.lex_eq_ok_iff.trans Token.cuts_iff_spells.symm
  refine ⟨fun _ ↦ htokens, fun cause ↦ ⟨fun h ↦ ?_, ?_⟩⟩
  · obtain ⟨before, rest, ts, hs, hcut, hfault, hleft⟩ := Token.firstFault_of_lex h
    rw [Nat.zero_add, Token.byteLength_eq] at hfault
    exact ⟨before, rest, ts, hs, hcut, htokens.mpr hcut.alone, hfault, hleft⟩
  · rintro ⟨before, rest, ts, hs, hcut, -, hfault, hleft⟩
    rcases htokenize : tokenize s with cause' | us
    · obtain ⟨before', rest', ts', hs', hcut', hfault', hleft'⟩ :=
        Token.firstFault_of_lex htokenize
      have hle := hleft _ _ _ _ _ hs' hcut' hfault'
      have hge := hleft' _ _ _ _ _ hs hcut hfault
      obtain ⟨rfl, rfl⟩ := List.append_inj (hs.symm.trans hs') (Nat.le_antisymm hle hge)
      rw [Nat.zero_add, Token.byteLength_eq] at hfault'
      rw [hfault'.cause_eq hfault]
    · exact absurd hfault ((Token.lex_eq_ok_iff.mp htokenize).not_fault _ _ _ hs hcut)

/-- The exponent belongs to the numeral, the second mark begins nothing, and the no-break space in
front of both takes two bytes. -/
theorem tokenize_exact_second_mark :
    let s := ['\u00a0', '1', 'e', '5', 'e', '5']
    tokenize s = .error (.unexpectedChar 'e' 5) ∧ ∃ before rest ts, s = before ++ rest ∧
      Token.Cuts rest before ts ∧ tokenize before = .ok ts ∧
      Token.Fault (String.ofList before).utf8ByteSize rest (.unexpectedChar 'e' 5) ∧
      ∀ before' rest' ts' offset' cause', s = before' ++ rest' →
        Token.Cuts rest' before' ts' → Token.Fault offset' rest' cause' →
        before.length ≤ before'.length := by
  intro s
  have h : tokenize s = .error (.unexpectedChar 'e' 5) := by decide +kernel
  exact ⟨h, ((tokenize_exact s).2 _).mp h⟩

end Calculator
