import Calculator.Json.Value

/-!
# Stored values

What is stored is a finite map from keys to texts.  The keys are kept in order, so that equal maps
are equal and a map has one written form: a JSON object with one member a line, indented by two
spaces.

A text stands for a map if it is a JSON object whose names and values are all texts.  A name that is
repeated has its last value.
-/

set_option autoImplicit false

namespace Calculator

/-- Every key is less than the ones behind it. -/
def KeysAscend (entries : List (String × String)) : Prop :=
  entries.Pairwise fun a b ↦ a.1 < b.1

/-- A finite map from keys to texts. -/
structure Values where
  entries : List (String × String)
  ascend : KeysAscend entries

namespace Values

theorem ext {v w : Values} (h : v.entries = w.entries) : v = w := by
  cases v
  cases w
  cases h
  rfl

instance : DecidableEq Values := fun v w ↦
  if h : v.entries = w.entries then isTrue (ext h)
  else isFalse fun he ↦ h (congrArg entries he)

/-- The map without keys. -/
def empty : Values := ⟨[], List.Pairwise.nil⟩

/-- The value of a key. -/
def get? (v : Values) (key : String) : Option String := v.entries.lookup key

/-! ## Insertion -/

/-- Put an entry in its place. -/
def insertEntry (key value : String) : List (String × String) → List (String × String)
  | [] => [(key, value)]
  | e :: es =>
    if key < e.1 then (key, value) :: e :: es
    else if key = e.1 then (key, value) :: es
    else e :: insertEntry key value es

theorem mem_insertEntry {key value : String} {es : List (String × String)} {e : String × String}
    (h : e ∈ insertEntry key value es) : e = (key, value) ∨ e ∈ es := by
  induction es with
  | nil => simpa [insertEntry] using h
  | cons f es ih =>
    simp only [insertEntry] at h
    split at h
    · simpa using h
    · split at h
      · rcases List.mem_cons.mp h with h | h
        · exact Or.inl h
        · exact Or.inr (List.mem_cons_of_mem _ h)
      · rcases List.mem_cons.mp h with h | h
        · exact Or.inr (h ▸ List.mem_cons_self)
        · exact (ih h).imp id (List.mem_cons_of_mem _)

theorem keysAscend_insertEntry {es : List (String × String)} (key value : String)
    (h : KeysAscend es) : KeysAscend (insertEntry key value es) := by
  unfold KeysAscend at h ⊢
  induction es with
  | nil => exact List.pairwise_singleton _ _
  | cons e es ih =>
    rw [List.pairwise_cons] at h
    simp only [insertEntry]
    split
    · rename_i hlt
      refine List.pairwise_cons.mpr ⟨fun f hf ↦ ?_, List.pairwise_cons.mpr h⟩
      rcases List.mem_cons.mp hf with rfl | hf
      · exact hlt
      · exact String.lt_trans hlt (h.1 f hf)
    · split
      · rename_i heq
        exact List.pairwise_cons.mpr ⟨fun f hf ↦ heq ▸ h.1 f hf, h.2⟩
      · rename_i hnlt hne
        refine List.pairwise_cons.mpr ⟨fun f hf ↦ ?_, ih h.2⟩
        rcases mem_insertEntry hf with rfl | hf
        · rcases String.le_total key e.1 with hle | hle
          · exact absurd (String.le_antisymm hle (String.not_lt.mp hnlt)) hne
          · rw [← String.not_le]
            exact fun hle' ↦ hne (String.le_antisymm hle' hle)
        · exact h.1 f hf

/-- Give a key a value. -/
def insert (v : Values) (key value : String) : Values :=
  ⟨insertEntry key value v.entries, keysAscend_insertEntry key value v.ascend⟩

theorem lookup_cons_eq_ite (key value other : String) (es : List (String × String)) :
    ((key, value) :: es).lookup other = if other = key then some value else es.lookup other := by
  rw [List.lookup_cons]
  by_cases h : other = key
  · simp [h]
  · simp [h, beq_eq_false_iff_ne.mpr h]

theorem lookup_insertEntry (key value other : String) (es : List (String × String)) :
    (insertEntry key value es).lookup other
      = if other = key then some value else es.lookup other := by
  induction es with
  | nil => rw [insertEntry, lookup_cons_eq_ite]
  | cons e es ih =>
    obtain ⟨k, x⟩ := e
    simp only [insertEntry]
    split
    · rw [lookup_cons_eq_ite]
    · split
      · rename_i heq
        subst heq
        rw [lookup_cons_eq_ite, lookup_cons_eq_ite]
        split <;> rfl
      · rename_i hne
        rw [lookup_cons_eq_ite, lookup_cons_eq_ite, ih]
        by_cases h : other = key
        · subst h
          rw [if_neg hne, if_pos rfl, if_pos rfl]
        · rw [if_neg h, if_neg h]

/-- The last value given to a key is its value, and no other key is touched. -/
theorem get?_insert (v : Values) (key value other : String) :
    (v.insert key value).get? other = if other = key then some value else v.get? other :=
  lookup_insertEntry key value other v.entries

/-! ## Removal -/

/-- Take a key's value away. -/
def erase (v : Values) (key : String) : Values :=
  ⟨v.entries.filter fun e ↦ e.1 != key, v.ascend.sublist List.filter_sublist⟩

theorem lookup_filter_ne (key other : String) (es : List (String × String)) :
    (es.filter fun e ↦ e.1 != key).lookup other
      = if other = key then none else es.lookup other := by
  induction es with
  | nil => simp
  | cons e es ih =>
    obtain ⟨k, x⟩ := e
    rw [lookup_cons_eq_ite]
    by_cases hk : k = key
    · subst hk
      rw [List.filter_cons_of_neg (by simp), ih]
      split <;> rfl
    · rw [List.filter_cons_of_pos (by simpa using hk), lookup_cons_eq_ite, ih]
      by_cases h : other = key
      · subst h
        rw [if_neg (Ne.symm hk), if_pos rfl, if_pos rfl]
      · rw [if_neg h, if_neg h]

theorem get?_erase (v : Values) (key other : String) :
    (v.erase key).get? other = if other = key then none else v.get? other :=
  lookup_filter_ne key other v.entries

/-- A key that has no value is not missed. -/
theorem erase_eq_self {v : Values} {key : String} (h : v.get? key = none) : v.erase key = v := by
  apply ext
  simp only [erase]
  rw [List.filter_eq_self]
  intro e he
  rw [bne_iff_ne]
  intro hk
  simp only [get?] at h
  rw [List.lookup_eq_none_iff] at h
  simpa [hk] using h e he

/-! ## JSON -/

/-- One member of the written form. -/
def member (e : String × String) : List Char :=
  ' ' :: ' ' :: Json.quote e.1 ++ ':' :: ' ' :: Json.quote e.2

/-- Members, each on a line of its own. -/
def members : List (String × String) → List Char
  | [] => []
  | [e] => '\n' :: member e
  | e :: f :: es => '\n' :: member e ++ ',' :: members (f :: es)

/-- The written form of a map. -/
def json (v : Values) : String :=
  String.ofList (match v.entries with
    | [] => ['\x7b', '\x7d']
    | es => '\x7b' :: members es ++ ['\n', '\x7d'])

/-- Give each of the members its value, one after the other. -/
def insertMembers : Values → List (Option String × Json) → Option Values
  | v, [] => some v
  | v, (some key, .string (some value)) :: ms => insertMembers (v.insert key value) ms
  | _, _ => none

/-- The map that a text stands for. -/
def ofJson? (s : String) : Option Values :=
  match Json.parse s with
  | some (.object ms) => insertMembers empty ms
  | _ => none

end Values

end Calculator
