import Calculator.Store.Values

/-!
# The order of keys

The keys of a map are kept in the order of their characters.  In a file they are bytes, and there
they stand in the order of their bytes as well (`Values.bytes_pairwise`): the code of a character in
UTF-8 begins with the more significant digits of the character, and a longer code begins with a
greater byte.  So the first bytes in which two texts differ decide as the characters do that they
belong to (`utf8EncodeChar_append_lt`).
-/

set_option autoImplicit false

namespace Calculator

/-- The bytes of a text in UTF-8. -/
def bytes (s : String) : List UInt8 := s.toUTF8.data.toList

theorem bytes_eq (s : String) : bytes s = s.toList.flatMap String.utf8EncodeChar := by
  have hs : s.toByteArray = s.toList.utf8Encode := by
    rw [← String.toByteArray_ofList, String.ofList_toList]
  rw [bytes, String.toUTF8_eq_toByteArray, hs, List.utf8Encode]
  simp

/-! ## Codes of characters -/

/-- Bytes are compared, and if they are equal what follows. -/
theorem cons_byte_lt {m n : Nat} {x y : List UInt8}
    (h : m % 256 < n % 256 ∨ m % 256 = n % 256 ∧ x < y) :
    UInt8.ofNat m :: x < UInt8.ofNat n :: y := by
  rw [List.cons_lt_cons_iff, UInt8.lt_iff_toNat_lt, ← UInt8.toNat_inj, UInt8.toNat_ofNat',
    UInt8.toNat_ofNat']
  exact h

/-- Two leading parts are compared, and if they are equal the last six bits. -/
theorem div_lt_or_mod_lt {v w : Nat} (h : v < w) :
    v / 64 < w / 64 ∨ v / 64 = w / 64 ∧ v % 64 < w % 64 := by omega

theorem val_lt (c : Char) : c.val.toNat < 1114112 := by
  rcases c.valid with h | h
  · omega
  · exact h.2

/-- **The code of a lesser character** is less, whatever follows. -/
theorem utf8EncodeChar_append_lt {c d : Char} (h : c < d) (x y : List UInt8) :
    String.utf8EncodeChar c ++ x < String.utf8EncodeChar d ++ y := by
  have hlt : c.val.toNat < d.val.toNat := h
  have hd := val_lt d
  simp only [String.utf8EncodeChar]
  generalize c.val.toNat = v at hlt
  generalize d.val.toNat = w at hlt hd
  have hlast := div_lt_or_mod_lt hlt
  -- the first byte tells how long a code is; codes of one length differ in one of their digits
  split
  · split
    · exact cons_byte_lt (by omega)
    · split
      · exact cons_byte_lt (by omega)
      · split <;> exact cons_byte_lt (by omega)
  · rw [if_neg (by omega : ¬ w ≤ 127)]
    split
    · split
      · rcases hlast with h1 | ⟨h1, h0⟩
        · exact cons_byte_lt (by omega)
        · exact cons_byte_lt (.inr ⟨by omega, cons_byte_lt (by omega)⟩)
      · split <;> exact cons_byte_lt (by omega)
    · rw [if_neg (by omega : ¬ w ≤ 2047)]
      split
      · split
        · rcases hlast with h1 | ⟨h1, h0⟩
          · rcases div_lt_or_mod_lt h1 with h2 | ⟨h2, h1⟩
            · exact cons_byte_lt (by omega)
            · exact cons_byte_lt (.inr ⟨by omega, cons_byte_lt (by omega)⟩)
          · exact cons_byte_lt (.inr ⟨by omega, cons_byte_lt (.inr ⟨by omega,
              cons_byte_lt (by omega)⟩)⟩)
        · exact cons_byte_lt (by omega)
      · rw [if_neg (by omega : ¬ w ≤ 65535)]
        rcases hlast with h1 | ⟨h1, h0⟩
        · rcases div_lt_or_mod_lt h1 with h2 | ⟨h2, h1⟩
          · rcases div_lt_or_mod_lt h2 with h3 | ⟨h3, h2⟩
            · exact cons_byte_lt (by omega)
            · exact cons_byte_lt (.inr ⟨by omega, cons_byte_lt (by omega)⟩)
          · exact cons_byte_lt (.inr ⟨by omega, cons_byte_lt (.inr ⟨by omega,
              cons_byte_lt (by omega)⟩)⟩)
        · exact cons_byte_lt (.inr ⟨by omega, cons_byte_lt (.inr ⟨by omega,
            cons_byte_lt (.inr ⟨by omega, cons_byte_lt (by omega)⟩)⟩)⟩)

/-! ## Texts -/

theorem flatMap_utf8EncodeChar_lt {cs ds : List Char} (h : cs < ds) :
    cs.flatMap String.utf8EncodeChar < ds.flatMap String.utf8EncodeChar := by
  induction h with
  | @nil d ds =>
    rw [List.flatMap_cons]
    obtain ⟨b, bs, hb⟩ := List.exists_cons_of_ne_nil (String.utf8EncodeChar_ne_nil (c := d))
    rw [hb]
    exact List.nil_lt_cons _ _
  | @rel c cs d ds hlt =>
    rw [List.flatMap_cons, List.flatMap_cons]
    exact utf8EncodeChar_append_lt hlt _ _
  | @cons c cs ds _ ih =>
    rw [List.flatMap_cons, List.flatMap_cons]
    exact List.append_left_lt ih

/-- Lesser texts have lesser bytes. -/
theorem bytes_lt {s t : String} (h : s < t) : bytes s < bytes t := by
  rw [bytes_eq, bytes_eq]
  exact flatMap_utf8EncodeChar_lt (h : s.toList < t.toList)

/-- **The keys of a map** are in the order of their bytes. -/
theorem Values.bytes_pairwise (v : Values) :
    v.entries.Pairwise fun a b ↦ bytes a.1 < bytes b.1 :=
  v.ascend.imp bytes_lt

end Calculator
