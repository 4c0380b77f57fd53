import Calculator.Proofs.Dialog.Independence
import Calculator.Proofs.Session.InStep
import Calculator.Proofs.Store.Refinement

/-!
# Dialogs and single runs

Expressions can be entered one after the other in a dialog, or each in a run of the program of its
own.  For the file in which the state is kept it makes no difference (`dialog_file_eq`), although
the one reads the file once and then goes by what it remembers, and the others read it again every
time.

What is remembered is what would be read: the session of the dialog is in step with its store, and
the store with its file.  So the next run starts with the history and the theme that the dialog has
got, and differs from it only in the line, the result and the visibility of the history, none of
which is saved.  A line that fails writes nothing in either case.

The lines are expressions as they are typed (`IsExpressionLine`): without blanks around them, since
those are trimmed in a dialog and recorded by a run, and without line feeds, which would end them.
-/

set_option autoImplicit false

namespace Calculator

/-! ## Lines of expressions -/

/-- A line that asks for nothing but an evaluation of itself. -/
structure IsExpressionLine (line : String) : Prop where
  trimmed : Text.trim line.toList = line.toList
  ne_empty : line ≠ ""
  noLineFeed : '\n' ∉ line.toList
  noCommand : line.toList.head? ≠ some ':'

instance (line : String) : Decidable (IsExpressionLine line) :=
  decidable_of_iff (Text.trim line.toList = line.toList ∧ line ≠ "" ∧ '\n' ∉ line.toList ∧
      line.toList.head? ≠ some ':')
    ⟨fun ⟨trimmed, ne_empty, noLineFeed, noCommand⟩ ↦
      ⟨trimmed, ne_empty, noLineFeed, noCommand⟩,
    fun h ↦ ⟨h.trimmed, h.ne_empty, h.noLineFeed, h.noCommand⟩⟩

namespace IsExpressionLine

variable {line : String} (h : IsExpressionLine line)

include h

theorem toList_ne_nil : line.toList ≠ [] :=
  fun hnil ↦ h.ne_empty (String.toList_eq_nil_iff.mp hnil)

theorem ofLine_eq : Request.ofLine line = .evaluate line := by
  rw [Request.ofLine, h.trimmed]
  split
  · rename_i hnil
    exact absurd hnil h.toList_ne_nil
  · rename_i hcons
    exact absurd (congrArg List.head? hcons) h.noCommand
  · rw [String.ofList_toList]

theorem allBlank_eq : Text.allBlank line.toList = false := by
  rw [← Bool.not_eq_true, ← Text.trim_eq_nil_iff, h.trimmed]
  exact h.toList_ne_nil

end IsExpressionLine

/-! ## Lines as bytes -/

/-- The bytes of lines, each ended by a line feed. -/
def typed (lines : List String) : List UInt8 := lines.flatMap fun line ↦ bytes line ++ [0x0A]

theorem lineFeed_ne_ofNat {n : Nat} (h : n % 256 ≠ 10) : (0x0A : UInt8) ≠ UInt8.ofNat n := by
  intro he
  exact h (UInt8.toNat_ofNat'.symm.trans (congrArg UInt8.toNat he).symm)

/-- Only the code of a line feed holds its byte: longer codes are made of bytes from 128 on. -/
theorem lineFeed_notMem_utf8EncodeChar {c : Char} (h : c ≠ '\n') :
    0x0A ∉ String.utf8EncodeChar c := by
  have hvalue : c.val.toNat ≠ 10 := fun hv ↦ h (Char.ext (UInt32.toNat_inj.mp hv))
  simp only [String.utf8EncodeChar]
  split
  · simp only [List.mem_singleton]
    exact lineFeed_ne_ofNat (by omega)
  · split
    · simp only [List.mem_cons, List.not_mem_nil, or_false, not_or]
      exact ⟨lineFeed_ne_ofNat (by omega), lineFeed_ne_ofNat (by omega)⟩
    · split
      · simp only [List.mem_cons, List.not_mem_nil, or_false, not_or]
        exact ⟨lineFeed_ne_ofNat (by omega), lineFeed_ne_ofNat (by omega),
          lineFeed_ne_ofNat (by omega)⟩
      · simp only [List.mem_cons, List.not_mem_nil, or_false, not_or]
        exact ⟨lineFeed_ne_ofNat (by omega), lineFeed_ne_ofNat (by omega),
          lineFeed_ne_ofNat (by omega), lineFeed_ne_ofNat (by omega)⟩

theorem lineFeed_notMem_bytes {line : String} (h : '\n' ∉ line.toList) : 0x0A ∉ bytes line := by
  rw [bytes_eq, List.mem_flatMap]
  rintro ⟨c, hc, hmem⟩
  exact lineFeed_notMem_utf8EncodeChar (fun he ↦ h (he ▸ hc)) hmem

theorem decodeText_bytes (s : String) : decodeText (bytes s) = some s := by
  have hbytes : (⟨(bytes s).toArray⟩ : ByteArray) = s.toByteArray := by
    rw [bytes, String.toUTF8_eq_toByteArray, Array.toArray_toList]
  rw [decodeText, hbytes, String.fromUTF8?, dif_pos s.isValidUTF8]
  rfl

/-- The lines that are typed arrive as texts. -/
theorem decodeText_splitLines_typed {lines : List String}
    (h : ∀ line ∈ lines, '\n' ∉ line.toList) :
    (splitLines (typed lines)).map decodeText = lines.map some := by
  have htyped : typed lines = (lines.map bytes).flatMap (· ++ [0x0A]) := by
    rw [typed, List.flatMap_map]
  rw [htyped, splitLines_flatMap, List.map_map]
  · exact List.map_congr_left fun line _ ↦ decodeText_bytes line
  · intro bs hbs
    obtain ⟨line, hline, rfl⟩ := List.mem_map.mp hbs
    exact lineFeed_notMem_bytes (h line hline)

/-- What is done to enter expressions, each at its moment. -/
def entering (runs : List (Moment × String)) : List Action :=
  runs.flatMap fun r ↦ [.setInput r.2, .calculate r.1]

namespace Session

/-! ## Expressions in a dialog -/

section

variable {σ : Type} [StateStore σ] {s : Session σ} {runs : List (Moment × String)}

theorem hear_expression {line : String} (h : IsExpressionLine line) (color : Bool) (now : Moment) :
    s.hear color ⟨some line, now⟩
      = .next (printed (s.respondToExpression color now line).1)
          ((s.setInput line).calculate now).2 := by
  rw [hear, Option.map_some, h.ofLine_eq]
  rfl

/-- In a dialog over lines of expressions these are entered, and nothing else happens. -/
theorem converse_expressions (h : ∀ r ∈ runs, IsExpressionLine r.2) (color : Bool) :
    (s.converse color (runs.map fun r ↦ ⟨some r.2, r.1⟩)).session
        = s.performAll (entering runs) ∧
      (s.converse color (runs.map fun r ↦ ⟨some r.2, r.1⟩)).complete = true := by
  induction runs generalizing s with
  | nil => exact ⟨rfl, rfl⟩
  | cons r runs ih =>
    obtain ⟨hline, hlines⟩ := List.forall_mem_cons.mp h
    rw [List.map_cons, converse, hear_expression hline]
    exact ih hlines

/-- What is entered in a dialog does not depend on when its lines arrive. -/
theorem converse_typed (h : s.config.Timeless) (hlines : ∀ r ∈ runs, IsExpressionLine r.2)
    {heard : List Arrival}
    (hheard : heard.map Arrival.text?
      = (splitLines (typed (runs.map Prod.snd))).map decodeText) (color : Bool) :
    (s.converse color heard).session = s.performAll (entering runs) ∧
      (s.converse color heard).complete = true := by
  have hfeeds : ∀ line ∈ runs.map Prod.snd, '\n' ∉ line.toList := by
    intro line hline
    obtain ⟨r, hr, rfl⟩ := List.mem_map.mp hline
    exact (hlines r hr).noLineFeed
  have htexts : heard.map Arrival.text?
      = (runs.map fun r ↦ (⟨some r.2, r.1⟩ : Arrival)).map Arrival.text? := by
    rw [hheard, decodeText_splitLines_typed hfeeds]
    simp only [List.map_map, Function.comp_def]
  rw [converse_timeless h color htexts]
  exact s.converse_expressions hlines color

/-! ## Single runs -/

/-- What is entered is saved in the same way by sessions that have the same store, configuration
and history. -/
theorem store_enter_congr {t : Session σ} (hstore : s.store = t.store)
    (hconfig : s.config = t.config) (hhistory : s.history = t.history) (line : String)
    (now : Moment) :
    ((s.setInput line).calculate now).2.store = ((t.setInput line).calculate now).2.store := by
  have hmarker : (s.setInput line).config = (t.setInput line).config := hconfig
  have hinput : (s.setInput line).input = (t.setInput line).input := rfl
  rw [calculate, calculate, hmarker, hinput]
  split
  · exact hstore
  · simp only [record, saveHistory, setInput, hstore, hconfig, hhistory]
  · exact hstore

/-- A session that is in step with its store saves what a new one on that store would save. -/
theorem InStep.store_serve (h : s.InStep) {line : String} (hline : IsExpressionLine line)
    (color : Bool) (now : Moment) (input : List Arrival) :
    ((start s.store s.config).serve color now line input).2.store
      = ((s.setInput line).calculate now).2.store := by
  rw [serve, hline.allBlank_eq, if_neg Bool.false_ne_true]
  exact store_enter_congr (s := start s.store s.config) (t := s) rfl rfl h.history line now

end

/-- The store after single runs, each of them in a session of its own on what the file then
holds. -/
def serveEach (config : Config) (color : Bool) (store : FileStore)
    (runs : List (Moment × String)) : FileStore :=
  runs.foldl (fun store r ↦ ((start store.reopen config).serve color r.1 r.2 []).2.store) store

/-- As long as the file can be written, single runs leave the store of a session in which all of
their lines are entered. -/
theorem serveEach_eq {s : Session FileStore} {runs : List (Moment × String)} (h : s.InStep)
    (hsynced : s.store.Synced) (hlines : ∀ r ∈ runs, IsExpressionLine r.2)
    (haccepted : s.store.AllAccepted (s.performAll (entering runs)).store) (color : Bool) :
    serveEach s.config color s.store runs = (s.performAll (entering runs)).store := by
  induction runs generalizing s with
  | nil => rfl
  | cons r runs ih =>
    obtain ⟨hline, hlines⟩ := List.forall_mem_cons.mp hlines
    let next := ((s.setInput r.2).calculate r.1).2
    have hused : s.store.UsedSince next.store :=
      usedSince_performAll (.refl hsynced) (entering [r])
    have hle : next.store.disk.attempts ≤ (next.performAll (entering runs)).store.disk.attempts :=
      attempts_le_performAll next (entering runs)
    have hnext : next.InStep := h.performAll (entering [r])
    have hrest : next.store.AllAccepted (next.performAll (entering runs)).store := by
      intro n hn hlt
      rw [hused.accepts]
      exact haccepted n (Nat.le_trans hused.attempts_le hn) hlt
    have hconfig : next.config = s.config := config_calculate _ _
    show serveEach s.config color
      ((start s.store.reopen s.config).serve color r.1 r.2 []).2.store runs = _
    rw [FileStore.reopen_eq_self hsynced, h.store_serve hline, ← hconfig]
    exact ih hnext (hused.synced fun n hn hlt ↦ haccepted n hn (Nat.lt_of_lt_of_le hlt hle)) hlines
      hrest

/-- **A dialog and single runs leave the same file**, and write it as often.  The lines of the
dialog arrive as bytes, and at other moments than those of the runs.  Whatever is in the file at
first, all attempts to write it have to succeed. -/
theorem dialog_file_eq (config : Config) (htimeless : config.Timeless) (path : String)
    (disk : Disk) (color : Bool) (runs : List (Moment × String))
    (hlines : ∀ r ∈ runs, IsExpressionLine r.2) (heard : List Arrival)
    (hheard : heard.map Arrival.text?
      = (splitLines (typed (runs.map Prod.snd))).map decodeText) :
    let store := FileStore.openAt path disk
    let dialog := (start store config).converse color heard
    (∀ n, disk.attempts ≤ n → n < dialog.session.store.disk.attempts → disk.accepts n = true) →
      dialog.complete = true ∧
        (serveEach config color store runs).disk = dialog.session.store.disk := by
  intro store dialog haccepted
  have hopen : (start store config).InStep := inStep_start store config
  obtain ⟨hsession, hcomplete⟩ :=
    converse_typed (s := start store config) htimeless hlines hheard color
  rw [show dialog.session = _ from hsession] at haccepted ⊢
  have hstores := serveEach_eq hopen (FileStore.synced_openAt path disk) hlines haccepted color
  exact ⟨hcomplete, congrArg FileStore.disk hstores⟩

/-- A file with a history that cannot be read and a key that nobody knows, a success, a failure and
another success. -/
theorem dialog_file_eq_corrupt :
    let config : Config := { Config.default with timestampLayout := "100%%" }
    let store := FileStore.openAt "state.json"
      (.reliable (.text "\x7b\"calculator_history\":\"?\",\"other\":\"1\"\x7d"))
    let runs : List (Moment × String) := [(⟨2026, 1, 2, 3, 4, 5, 0, 0⟩, "1+1"),
      (⟨2026, 1, 2, 3, 4, 6, 0, 0⟩, "1/0"), (⟨2026, 1, 2, 3, 4, 7, 0, 0⟩, "2 × π")]
    let dialog := (start store config).converse false
      (arrivals ⟨2026, 1, 2, 4, 0, 0, 0, 0⟩ (typed ["1+1", "1/0", "2 × π"]))
    dialog.session.history.size = 2 ∧
      StateStore.load dialog.session.store "other" = some "1" ∧ dialog.complete = true ∧
      (serveEach config false store runs).disk = dialog.session.store.disk := by
  intro config store runs dialog
  have hlayout : layoutItems? "100%%" = some ("100%".toList.map LayoutItem.literal) := by decide
  have hsame := dialog_file_eq config (Config.timeless_of_literals hlayout) "state.json"
    (.reliable (.text "\x7b\"calculator_history\":\"?\",\"other\":\"1\"\x7d")) false runs
    (by decide) (arrivals ⟨2026, 1, 2, 4, 0, 0, 0, 0⟩ (typed ["1+1", "1/0", "2 × π"]))
    List.map_map fun _ _ _ ↦ rfl
  exact ⟨by decide +kernel, by decide +kernel, hsame⟩

end Session

end Calculator
