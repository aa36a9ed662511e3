import Mathlib.Data.String.Basic

/-! The order of texts is that of their bytes in UTF-8. A larger character has a larger code, and
neither code begins the other. -/

namespace Helmholtz

/-- The bytes of a text in UTF-8. -/
def utf8 (s : String) : List UInt8 := s.toUTF8.data.toList

theorem utf8_eq (s : String) : utf8 s = s.toList.flatMap String.utf8EncodeChar := by
  unfold utf8
  conv_lhs => rw [← String.ofList_toList (s := s)]
  rw [String.toUTF8_eq_toByteArray]
  exact List.toList_data_toByteArray

section Codes
variable {a b : ℕ} {xs ys : List UInt8}

theorem ofNat_cons_lt (ha : a < b) (hb : b < 256) :
    UInt8.ofNat a :: xs < UInt8.ofNat b :: ys := by
  have hlt : UInt8.ofNat a < UInt8.ofNat b := by
    rw [UInt8.lt_iff_toNat_lt, UInt8.toNat_ofNat_of_lt' (ha.trans hb), UInt8.toNat_ofNat_of_lt' hb]
    exact ha
  exact List.cons_lt_cons_iff.mpr (.inl hlt)

/-- What follows is compared if the bytes are the same. -/
theorem ofNat_cons_lt_of_le (hle : a ≤ b) (hb : b < 256) (h : a = b → xs < ys) :
    UInt8.ofNat a :: xs < UInt8.ofNat b :: ys := by
  rcases hle.lt_or_eq with hlt | heq
  · exact ofNat_cons_lt hlt hb
  · rw [heq]
    exact List.cons_lt_cons_self.mpr (h heq)

theorem utf8EncodeChar_append_lt {c d : Char} (h : c < d) (xs ys : List UInt8) :
    String.utf8EncodeChar c ++ xs < String.utf8EncodeChar d ++ ys := by
  have hlt : c.val.toNat < d.val.toNat := h
  have hd : d.val.toNat < 0x110000 := by
    have hvalid := d.valid
    unfold UInt32.isValidChar Nat.isValidChar at hvalid
    omega
  unfold String.utf8EncodeChar
  dsimp only
  split_ifs
  all_goals simp only [List.cons_append, List.nil_append]
  -- The first byte decides between codes of different lengths.
  all_goals try exact ofNat_cons_lt (by omega) (by omega)
  · refine ofNat_cons_lt_of_le (by omega) (by omega) fun h₁ => ?_
    exact ofNat_cons_lt (by omega) (by omega)
  · refine ofNat_cons_lt_of_le (by omega) (by omega) fun h₁ => ?_
    refine ofNat_cons_lt_of_le (by omega) (by omega) fun h₂ => ?_
    exact ofNat_cons_lt (by omega) (by omega)
  · refine ofNat_cons_lt_of_le (by omega) (by omega) fun h₁ => ?_
    refine ofNat_cons_lt_of_le (by omega) (by omega) fun h₂ => ?_
    refine ofNat_cons_lt_of_le (by omega) (by omega) fun h₃ => ?_
    exact ofNat_cons_lt (by omega) (by omega)

end Codes

theorem nil_lt_utf8EncodeChar_append (c : Char) (ys : List UInt8) :
    [] < String.utf8EncodeChar c ++ ys := by
  have hpos : 0 < (String.utf8EncodeChar c).length := by
    rw [String.length_utf8EncodeChar]
    exact c.utf8Size_pos
  obtain ⟨b, bs, hb⟩ := List.exists_cons_of_length_pos hpos
  rw [hb]
  exact List.nil_lt_cons b (bs ++ ys)

theorem flatMap_utf8EncodeChar_lt {cs ds : List Char} (h : cs < ds) :
    cs.flatMap String.utf8EncodeChar < ds.flatMap String.utf8EncodeChar := by
  induction h with
  | nil => exact nil_lt_utf8EncodeChar_append _ _
  | rel h => exact utf8EncodeChar_append_lt h _ _
  | cons h ih => exact List.append_left_lt ih

theorem utf8_lt_utf8_iff {s t : String} : utf8 s < utf8 t ↔ s < t := by
  have hmono : ∀ {s t : String}, s < t → utf8 s < utf8 t := by
    intro s t h
    rw [utf8_eq, utf8_eq]
    exact flatMap_utf8EncodeChar_lt h
  constructor
  · intro h
    rcases lt_trichotomy s t with hlt | rfl | hgt
    · exact hlt
    · exact absurd h (List.lt_irrefl _)
    · exact absurd h (List.lt_asymm (hmono hgt))
  · exact hmono

end Helmholtz
