import Mathlib.Algebra.Group.Nat.Defs
import Mathlib.Data.Int.Notation
import Mathlib.Data.Nat.Notation

/-!
Numbers in decimal, as the bytes of their text.
-/
namespace Bookstore.Decimals

/-- The byte of a digit. -/
def digit (d : ℕ) : UInt8 := UInt8.ofNat (48 + d)

/-- The text of a natural number. -/
def decimal (n : ℕ) : List UInt8 := (Nat.toDigits 10 n).map fun c => UInt8.ofNat c.toNat

/-- The text of an integer. -/
def signed (z : ℤ) : List UInt8 := if z < 0 then 45 :: decimal z.natAbs else decimal z.natAbs

theorem toNat_digit {d : ℕ} (hd : d < 10) : (digit d).toNat = 48 + d := by
  rw [digit, UInt8.toNat_ofNat', Nat.mod_eq_of_lt (by omega)]

theorem digit_of_digitChar {d : ℕ} (hd : d < 10) : UInt8.ofNat d.digitChar.toNat = digit d := by
  rw [Nat.toNat_digitChar_of_lt_ten hd, digit]

/-- Digit by digit, from the last one. -/
theorem toDigits_induction {P : ℕ → List Char → Prop} (hone : ∀ n < 10, P n [n.digitChar])
    (hmore : ∀ n d digits, 0 < n → d < 10 → P n digits →
      P (10 * n + d) (digits ++ [d.digitChar])) (n : ℕ) : P n (Nat.toDigits 10 n) := by
  induction n using Nat.strongRecOn with
  | _ n ih =>
    by_cases hn : n < 10
    · rw [Nat.toDigits_of_lt_base hn]
      exact hone n hn
    · have hle : 10 ≤ n := Nat.le_of_not_lt hn
      have hsplit : n = 10 * (n / 10) + n % 10 := (Nat.div_add_mod n 10).symm
      have hprev := hmore (n / 10) (n % 10) _ (by omega) (Nat.mod_lt n (by decide))
        (ih (n / 10) (by omega))
      rw [← hsplit] at hprev
      rw [Nat.toDigits_of_base_le (by decide) hle]
      exact hprev

theorem decimal_induction {P : ℕ → List UInt8 → Prop} (hone : ∀ n < 10, P n [digit n])
    (hmore : ∀ n d bytes, 0 < n → d < 10 → P n bytes → P (10 * n + d) (bytes ++ [digit d]))
    (n : ℕ) : P n (decimal n) := by
  refine @toDigits_induction
    (fun n digits => P n (digits.map fun c => UInt8.ofNat c.toNat)) ?_ ?_ n
  · intro d hd
    rw [List.map_singleton, digit_of_digitChar hd]
    exact hone d hd
  · intro m d digits hm hd ih
    rw [List.map_append, List.map_singleton, digit_of_digitChar hd]
    exact hmore m d _ hm hd ih

theorem decimal_ne_nil (n : ℕ) : decimal n ≠ [] := by
  refine @decimal_induction (fun _ bytes => bytes ≠ []) ?_ ?_ n
  · intro d _
    exact List.cons_ne_nil _ _
  · intro m d bytes _ _ _
    exact List.append_ne_nil_of_right_ne_nil _ (List.cons_ne_nil _ _)

theorem mem_decimal {n : ℕ} {b : UInt8} (h : b ∈ decimal n) : 48 ≤ b.toNat ∧ b.toNat ≤ 57 := by
  refine @decimal_induction (fun _ bytes => ∀ b ∈ bytes, 48 ≤ b.toNat ∧ b.toNat ≤ 57) ?_ ?_ n b h
  · intro d hd b hb
    rw [List.mem_singleton.mp hb, toNat_digit hd]
    omega
  · intro m d bytes _ hd ih b hb
    rcases List.mem_append.mp hb with hb | hb
    · exact ih b hb
    · rw [List.mem_singleton.mp hb, toNat_digit hd]
      omega

theorem length_decimal_le {n k : ℕ} (hk : 0 < k) (hn : n < 10 ^ k) : (decimal n).length ≤ k := by
  refine @decimal_induction (fun n bytes => ∀ k, 0 < k → n < 10 ^ k → bytes.length ≤ k) ?_ ?_ n k
    hk hn
  · intro d _ k hk _
    rw [List.length_singleton]
    omega
  · intro m d bytes hm hd ih k hk hlt
    obtain ⟨j, rfl⟩ : ∃ j, k = j + 1 := ⟨k - 1, by omega⟩
    rw [Nat.pow_succ] at hlt
    have hj : 0 < j := by
      refine Nat.pos_of_ne_zero fun hzero => ?_
      rw [hzero, Nat.pow_zero] at hlt
      omega
    have hprev := ih j hj (by omega)
    rw [List.length_append, List.length_singleton]
    omega

/-- The digits of a number give it back. -/
theorem value_decimal (n : ℕ) :
    (decimal n).foldl (fun v b => 10 * v + (b.toNat - 48)) 0 = n := by
  refine @decimal_induction
    (fun n bytes => bytes.foldl (fun v b => 10 * v + (b.toNat - 48)) 0 = n) ?_ ?_ n
  · intro d hd
    rw [List.foldl_cons, List.foldl_nil, toNat_digit hd]
    omega
  · intro m d bytes _ hd ih
    rw [List.foldl_append, ih, List.foldl_cons, List.foldl_nil, toNat_digit hd]
    omega

/-! ## Texts -/

theorem utf8EncodeChar_of_isDigit {c : Char} (hc : c.isDigit = true) :
    String.utf8EncodeChar c = [UInt8.ofNat c.toNat] := by
  have hle : c.toNat ≤ 127 := by
    have hdigit : c.toNat ≤ 57 := (Char.isDigit_iff_toNat.mp hc).2
    omega
  unfold String.utf8EncodeChar
  exact if_pos hle

theorem toUTF8_toString (n : ℕ) : (toString n).toUTF8.data.toList = decimal n := by
  have hutf : (toString n).toUTF8 = (Nat.toDigits 10 n).utf8Encode := String.toByteArray_ofList
  have hdigits : ∀ c ∈ Nat.toDigits 10 n, c.isDigit = true := fun c hc =>
    Nat.isDigit_of_mem_toDigits (by decide) (by decide) hc
  rw [hutf, List.utf8Encode, List.toList_data_toByteArray, decimal]
  generalize Nat.toDigits 10 n = chars at hdigits
  induction chars with
  | nil => rfl
  | cons c chars ih =>
    rw [List.flatMap_cons, utf8EncodeChar_of_isDigit (hdigits c List.mem_cons_self),
      ih fun d hd => hdigits d (List.mem_cons_of_mem _ hd)]
    rfl

theorem toUTF8_toString_int (z : ℤ) : (toString z).toUTF8.data.toList = signed z := by
  cases z with
  | ofNat n =>
    have hnonneg : ¬ Int.ofNat n < 0 := Int.not_lt.mpr (Int.natCast_nonneg n)
    rw [signed, if_neg hnonneg]
    exact toUTF8_toString n
  | negSucc n =>
    rw [signed, if_pos (Int.negSucc_lt_zero n)]
    show ("-" ++ toString (n + 1)).toUTF8.data.toList = 45 :: decimal (n + 1)
    have happend : ("-" ++ toString (n + 1)).toUTF8 = "-".toUTF8 ++ (toString (n + 1)).toUTF8 :=
      String.toByteArray_append
    rw [happend, ByteArray.data_append, Array.toList_append, toUTF8_toString]
    rfl

end Bookstore.Decimals
