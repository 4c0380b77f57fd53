import Calculator.Proofs.History.RoundTrip
import Mathlib.Data.List.Forall2

/-!
# Which texts are histories

A stored history is read with more tolerance than it is written.  `Entry.RepresentedBy` says which
JSON values stand for an entry, without saying how they are read: an object with each field exactly
once, in any order and among others, or an array of the three texts.  A text is a list of entries if
it is a JSON array of such values (`IsArrayOf`), and reading decides just that
(`entriesOfJson?_eq_some_iff`).

Of a list of entries that is too long the newest ones are kept, and these stand at the end.  So what
is decoded is what is left when all entries are recorded one after the other (`foldl_push`), or the
end of the list (`ofJson_keeps_newest`).
-/

set_option autoImplicit false

namespace Calculator

/-! ## Values that stand for an entry -/

/-- There is one member with this name, and it is a text. -/
def HasField (name text : String) (members : List (Option String × Json)) : Prop :=
  ∃ before after, members = before ++ (some name, .string (some text)) :: after ∧
    ∀ m ∈ before ++ after, m.1 ≠ some name

namespace Entry

variable {e : Entry}

/-- The JSON value stands for the entry. -/
inductive RepresentedBy (e : Entry) : Json → Prop where
  | object {members : List (Option String × Json)} (names : ∀ m ∈ members, m.1 ≠ none)
      (expression : HasField "expression" e.expression members)
      (result : HasField "result" e.result members)
      (timestamp : HasField "timestamp" e.timestamp members) : RepresentedBy e (.object members)
  | array : RepresentedBy e (.array [.string (some e.expression), .string (some e.result),
      .string (some e.timestamp)])

theorem text?_eq_some_iff {v : Json} {text : String} :
    v.text? = some text ↔ v = .string (some text) := by
  cases v <;> simp [Json.text?]

theorem field?_eq_some_iff {name text : String} {members : List (Option String × Json)} :
    field? name members = some text ↔ HasField name text members := by
  rw [field?, Option.bind_eq_some_iff]
  constructor
  · rintro ⟨v, hv, htext⟩
    obtain rfl := text?_eq_some_iff.mp htext
    rw [Json.uniqueMember?] at hv
    split at hv
    · rename_i m hfilter
      obtain ⟨before, after, rfl, hbefore, hm, hafter⟩ := List.filter_eq_cons_iff.mp hfilter
      have hname : m = (some name, .string (some text)) :=
        Prod.ext (by simpa using hm) (by simpa using hv)
      rw [List.filter_eq_nil_iff] at hafter
      refine ⟨before, after, by rw [hname], List.forall_mem_append.mpr ⟨?_, ?_⟩⟩
      · exact fun m hm ↦ by simpa using hbefore m hm
      · exact fun m hm ↦ by simpa using hafter m hm
    · cases hv
  · rintro ⟨before, after, rfl, hother⟩
    obtain ⟨hbefore, hafter⟩ := List.forall_mem_append.mp hother
    refine ⟨_, ?_, text?_eq_some_iff.mpr rfl⟩
    have hfilter : (before ++ (some name, .string (some text)) :: after).filter
        (fun m ↦ m.1 == some name) = [(some name, .string (some text))] := by
      refine List.filter_eq_cons_iff.mpr ⟨before, after, rfl, ?_, by simp, ?_⟩
      · exact fun m hm ↦ by simpa using hbefore m hm
      · exact List.filter_eq_nil_iff.mpr fun m hm ↦ by simpa using hafter m hm
    rw [Json.uniqueMember?, hfilter]

/-- **An entry is read** from the values that stand for it. -/
theorem ofJson?_eq_some_iff {v : Json} : ofJson? v = some e ↔ e.RepresentedBy v := by
  constructor
  · intro h
    unfold ofJson? at h
    split at h
    · rename_i members
      split at h
      · rename_i hnames
        simp only [Option.bind_eq_bind, Option.bind_eq_some_iff, Option.pure_def,
          Option.some.injEq, field?_eq_some_iff] at h
        obtain ⟨expression, hexpression, result, hresult, timestamp, htimestamp, rfl⟩ := h
        refine .object (fun m hm ↦ ?_) hexpression hresult htimestamp
        exact Option.isSome_iff_ne_none.mp (List.all_eq_true.mp hnames m hm)
      · cases h
    · cases h
      exact .array
    · cases h
  · rintro (⟨hnames, hexpression, hresult, htimestamp⟩ | _)
    · rename_i members
      have hall : (members.all fun m ↦ m.1.isSome) = true :=
        List.all_eq_true.mpr fun m hm ↦ Option.isSome_iff_ne_none.mpr (hnames m hm)
      rw [← field?_eq_some_iff] at hexpression hresult htimestamp
      rw [ofJson?, if_pos hall, hexpression, hresult, htimestamp]
      rfl
    · rfl

end Entry

namespace History

/-- The text is a JSON array of these entries. -/
def IsArrayOf (s : String) (es : List Entry) : Prop :=
  ∃ items, Json.parse s = some (.array items) ∧ List.Forall₂ Entry.RepresentedBy es items

theorem mapM_ofJson?_eq_some_iff {items : List Json} {es : List Entry} :
    items.mapM Entry.ofJson? = some es ↔ List.Forall₂ Entry.RepresentedBy es items := by
  induction items generalizing es with
  | nil => simp [eq_comm]
  | cons v items ih =>
    simp only [List.mapM_cons, Option.bind_eq_bind, Option.bind_eq_some_iff, Option.pure_def,
      Option.some.injEq, ih, Entry.ofJson?_eq_some_iff, List.forall₂_cons_right_iff]
    constructor
    · rintro ⟨e, he, es, hes, rfl⟩
      exact ⟨e, es, he, hes, rfl⟩
    · rintro ⟨e, es, he, hes, rfl⟩
      exact ⟨e, he, es, hes, rfl⟩

/-- **Entries are read** from the arrays of them. -/
theorem entriesOfJson?_eq_some_iff {s : String} {es : List Entry} :
    entriesOfJson? s = some es ↔ IsArrayOf s es := by
  rw [entriesOfJson?]
  split
  · rename_i items hparse
    rw [mapM_ofJson?_eq_some_iff]
    constructor
    · exact fun h ↦ ⟨items, hparse, h⟩
    · rintro ⟨_, hitems, h⟩
      obtain rfl := Json.array.inj (Option.some.inj (hparse.symm.trans hitems))
      exact h
  · rename_i hother
    constructor
    · intro h
      cases h
    · rintro ⟨items, hitems, -⟩
      exact absurd hitems (hother items)

/-! ## What is kept -/

/-- Recording entries one after the other leaves the newest of them. -/
theorem foldl_push (es newer : List Entry) :
    es.foldl push (ofNewest newer) = ofNewest (es.reverse ++ newer) := by
  induction es generalizing newer with
  | nil => rfl
  | cons e es ih => rw [List.foldl_cons, push_ofNewest, ih]; simp

/-- The newest entries stand at the end. -/
theorem reverse_entries_ofNewest (es : List Entry) :
    (ofNewest es.reverse).entries.reverse = es.drop (es.length - limit) := by
  simp [ofNewest, List.take_reverse]

/-- **Decoding keeps the newest entries.**  From their array, entries of any number are read as the
history of the newest of them, which is also what recording them one by one leaves; from what it is
stored as a history is read as it was; from any other array of entries the newest of them are read;
and all other texts are read as the empty history. -/
theorem ofJson_keeps_newest :
    (∀ es : List Entry,
      (ofJson (entriesJson es)).entries.reverse = es.drop (es.length - limit) ∧
      (ofJson (entriesJson es)).size = min es.length limit ∧
      ofJson (entriesJson es) = es.foldl push empty) ∧
    (∀ h : History, ofJson h.json = h) ∧
    (∀ (s : String) (es : List Entry), IsArrayOf s es →
      (ofJson s).entries.reverse = es.drop (es.length - limit)) ∧
    ∀ s : String, (∀ es, ¬ IsArrayOf s es) → ofJson s = empty := by
  refine ⟨fun es ↦ ⟨?_, ?_, ?_⟩, ofJson_json, fun s es h ↦ ?_, fun s h ↦ ?_⟩
  · rw [ofJson_entriesJson, reverse_entries_ofNewest]
  · rw [ofJson_entriesJson, size, ofNewest, List.length_take, List.length_reverse, Nat.min_comm]
  · have hall := foldl_push es []
    rw [List.append_nil] at hall
    exact (ofJson_entriesJson es).trans hall.symm
  · rw [ofJson, entriesOfJson?_eq_some_iff.mpr h]
    exact reverse_entries_ofNewest es
  · rw [ofJson, Option.eq_none_iff_forall_ne_some.mpr fun es hes ↦
      h es (entriesOfJson?_eq_some_iff.mp hes)]

/-- An array with a value of each form, which holds more than is needed, and an object. -/
theorem ofJson_keeps_newest_of_any_form :
    let array := "[\x7b\"timestamp\":\"t\",\"result\":\"2\",\"note\":[0],\"expression\":\"1+1\"\x7d,"
      ++ " [\"\\u0036*7\",\"42\",\"t\"]]"
    let object := "\x7b\"expression\":\"1\"\x7d"
    IsArrayOf array [⟨"1+1", "2", "t"⟩, ⟨"6*7", "42", "t"⟩] ∧
      (ofJson array).entries.reverse = [⟨"1+1", "2", "t"⟩, ⟨"6*7", "42", "t"⟩] ∧
      (∀ es, ¬ IsArrayOf object es) ∧ ofJson object = empty := by
  intro array object
  have harray : IsArrayOf array [⟨"1+1", "2", "t"⟩, ⟨"6*7", "42", "t"⟩] :=
    entriesOfJson?_eq_some_iff.mp (by decide +kernel)
  have hobject : entriesOfJson? object = none := by decide +kernel
  have hnone : ∀ es, ¬ IsArrayOf object es := fun es h ↦ by
    rw [← entriesOfJson?_eq_some_iff, hobject] at h
    cases h
  exact ⟨harray, ofJson_keeps_newest.2.2.1 _ _ harray, hnone, ofJson_keeps_newest.2.2.2 _ hnone⟩

end History

end Calculator
