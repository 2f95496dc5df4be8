import Mathlib.Data.Nat.Notation

/-!
The UTF-8 encoding of a list of characters. ASCII characters are one byte with
their own code, and no byte of another character is below 128.
-/
namespace Bookstore.Utf8

def utf8 (text : List Char) : List UInt8 := text.flatMap String.utf8EncodeChar

theorem utf8_nil : utf8 [] = [] := rfl

theorem utf8_cons (c : Char) (text : List Char) :
    utf8 (c :: text) = String.utf8EncodeChar c ++ utf8 text := List.flatMap_cons

theorem utf8_append (text more : List Char) : utf8 (text ++ more) = utf8 text ++ utf8 more :=
  List.flatMap_append

theorem utf8_intercalate (sep : List Char) (texts : List (List Char)) :
    utf8 (List.intercalate sep texts) = List.intercalate (utf8 sep) (texts.map utf8) := by
  induction texts with
  | nil => rfl
  | cons text texts ih =>
    cases texts with
    | nil => rw [List.intercalate_singleton, List.map_singleton, List.intercalate_singleton]
    | cons next texts =>
      rw [List.map_cons] at ih
      rw [List.intercalate_cons_cons, utf8_append, utf8_append, ih, List.map_cons, List.map_cons,
        List.intercalate_cons_cons]

/-- The bytes of a string. -/
theorem toUTF8_eq (s : String) : s.toUTF8.data.toList = utf8 s.toList := by
  have hencode : s.toUTF8 = (utf8 s.toList).toByteArray := by
    have hlist := @String.toByteArray_ofList s.toList
    rw [String.ofList_toList] at hlist
    exact hlist
  rw [hencode, List.toList_data_toByteArray]

theorem encode_of_le {c : Char} (hc : c.toNat ≤ 127) :
    String.utf8EncodeChar c = [UInt8.ofNat c.toNat] := by
  unfold String.utf8EncodeChar
  exact if_pos hc

theorem toNat_ofNat_of_le {c : Char} (hc : c.toNat ≤ 127) :
    (UInt8.ofNat c.toNat).toNat = c.toNat := by
  rw [UInt8.toNat_ofNat', Nat.mod_eq_of_lt (by omega)]

/-- The bytes of a character beyond ASCII. -/
theorem encode_high {c : Char} (hc : 127 < c.toNat) {b : UInt8}
    (hb : b ∈ String.utf8EncodeChar c) : 128 ≤ b.toNat := by
  have hbyte (n : ℕ) (hlow : 128 ≤ n) (hhigh : n < 256) : 128 ≤ (UInt8.ofNat n).toNat := by
    rw [UInt8.toNat_ofNat', Nat.mod_eq_of_lt hhigh]
    exact hlow
  have hnot : ¬ c.val.toNat ≤ 127 := Nat.not_le.mpr hc
  simp only [String.utf8EncodeChar, hnot, if_false] at hb
  split at hb
  · simp only [List.mem_cons, List.not_mem_nil, or_false] at hb
    obtain rfl | rfl := hb <;> exact hbyte _ (by omega) (by omega)
  split at hb
  · simp only [List.mem_cons, List.not_mem_nil, or_false] at hb
    obtain rfl | rfl | rfl := hb <;> exact hbyte _ (by omega) (by omega)
  · simp only [List.mem_cons, List.not_mem_nil, or_false] at hb
    obtain rfl | rfl | rfl | rfl := hb <;> exact hbyte _ (by omega) (by omega)

/-- An ASCII byte comes from the character with its code. -/
theorem mem_of_mem_utf8 {text : List Char} {b : UInt8} (hb : b ∈ utf8 text)
    (hlow : b.toNat ≤ 127) : ∃ c ∈ text, c.toNat = b.toNat := by
  obtain ⟨c, hc, hmem⟩ := List.mem_flatMap.mp hb
  by_cases hle : c.toNat ≤ 127
  · rw [encode_of_le hle, List.mem_singleton] at hmem
    exact ⟨c, hc, by rw [hmem, toNat_ofNat_of_le hle]⟩
  · have hhigh := encode_high (Nat.lt_of_not_le hle) hmem
    omega

theorem mem_utf8_of_mem {text : List Char} {c : Char} (hc : c ∈ text) (hle : c.toNat ≤ 127) :
    UInt8.ofNat c.toNat ∈ utf8 text :=
  List.mem_flatMap.mpr ⟨c, hc, by rw [encode_of_le hle]; exact List.mem_singleton.mpr rfl⟩

end Bookstore.Utf8
