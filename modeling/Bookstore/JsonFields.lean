import Bookstore.Decimals
import Bookstore.MachineInt
import Bookstore.RequestParser
import Bookstore.TextSearch

/-!
The field readers of `json.h` on flat objects as the client prints them. The
readers search for the quoted key, then for the next colon, and do not tell a
key from a value that spells it.
-/
namespace Bookstore.JsonFields

open HttpTypes RequestParser TextSearch Decimals

/-! ## The readers -/

def quoted (text : Bytes) : Bytes := 34 :: (text ++ [34])

/-- The loop of `json_string_value`, from behind the opening quote. -/
def readString : Bytes → Option Bytes
  | [] => none
  | [b] => if b = 34 then some [] else none
  | b :: c :: rest =>
    if b = 92 then (readString rest).map (c :: ·)
    else if b = 34 then some []
    else (readString (c :: rest)).map (b :: ·)

/-- The end of `json_int_value_from`, from behind the colon. -/
def readInt (text : Bytes) : Option Int32 :=
  let text := text.dropWhile isSpace
  let negative := text.head? == some 45
  let digits := (if negative then text.tail else text).takeWhile isDigit
  if digits = [] then none
  else
    let value := digits.foldl (fun value c => value * 10 + Int32.ofNat (c.toNat - 48)) 0
    some (if negative then -value else value)

/-- `json_string_value` from the key on. -/
def stringBehind (keyPos : Bytes) : Option Bytes := do
  let colon ← find [58] keyPos
  let start ← find [34] colon.tail
  readString start.tail

/-- `json_int_value_from` from the key on. -/
def intBehind (keyPos : Bytes) : Option Int32 := do
  let colon ← find [58] keyPos
  readInt colon.tail

def jsonStringValue (body key : Bytes) : Option Bytes := (find (quoted key) body).bind stringBehind

def jsonIntValueFrom (body key : Bytes) (searchFrom : ℕ) : Option Int32 :=
  (find (quoted key) (body.drop searchFrom)).bind intBehind

def jsonIntValue (body key : Bytes) : Option Int32 := jsonIntValueFrom body key 0

/-! ## Flat objects -/

inductive Value
  | int (n : ℤ)
  | string (text : Bytes)
deriving DecidableEq

/-- Integers below `2^31` in absolute value, and texts without an escape. -/
def Value.Fits : Value → Prop
  | .int n => -2147483648 < n ∧ n < 2147483648
  | .string text => ∀ b ∈ text, 32 ≤ b ∧ b ≠ 34 ∧ b ≠ 92

/-- Keys are free of quotes and backslashes. -/
structure Member where
  key : Bytes
  value : Value
  plain : ∀ b ∈ key, b ≠ 34 ∧ b ≠ 92
  fits : value.Fits

structure FlatObject where
  members : List Member
  distinct : (members.map Member.key).Nodup

/-- The value under a key. -/
def FlatObject.stored (o : FlatObject) (k : Bytes) : Option Value :=
  (o.members.find? (·.key = k)).map Member.value

def stringOf : Option Value → Option Bytes
  | some (.string text) => some text
  | _ => none

def intOf : Option Value → Option ℤ
  | some (.int n) => some n
  | _ => none

/-! ## Their text -/

def hexDigit (n : UInt8) : UInt8 := if n < 10 then 48 + n else 87 + n

/-- How `JSON.stringify` writes a byte of a text. -/
def escapeByte (b : UInt8) : Bytes :=
  if b = 34 then [92, 34]
  else if b = 92 then [92, 92]
  else if b = 8 then [92, 98]
  else if b = 9 then [92, 116]
  else if b = 10 then [92, 110]
  else if b = 12 then [92, 102]
  else if b = 13 then [92, 114]
  else if b < 32 then [92, 117, 48, 48, hexDigit (b / 16), hexDigit (b % 16)]
  else [b]

def escape (text : Bytes) : Bytes := text.flatMap escapeByte

def Value.text : Value → Bytes
  | .int n => signed n
  | .string text => quoted (escape text)

def Member.text (m : Member) : Bytes := quoted (escape m.key) ++ 58 :: m.value.text

def FlatObject.text (o : FlatObject) : Bytes :=
  123 :: (List.intercalate [44] (o.members.map Member.text) ++ [125])

/-- Both readers return what is stored under the key. -/
def Agrees (o : FlatObject) (k : Bytes) : Prop :=
  jsonStringValue o.text k = stringOf (o.stored k) ∧
    (jsonIntValue o.text k).map Int32.toInt = intOf (o.stored k)

/-! ## Reading a text -/

theorem readString_quote (rest : Bytes) : readString (34 :: rest) = some [] := by
  cases rest <;> rfl

theorem readString_pair (c : UInt8) (rest : Bytes) :
    readString (92 :: c :: rest) = (readString rest).map (c :: ·) := rfl

theorem readString_cons {b : UInt8} (hquote : b ≠ 34) (hslash : b ≠ 92) (rest : Bytes) :
    readString (b :: rest) = (readString rest).map (b :: ·) := by
  cases rest with
  | nil =>
    show (if b = 34 then some [] else none) = none
    rw [if_neg hquote]
  | cons c rest => rw [readString, if_neg hslash, if_neg hquote]

theorem readString_plain {text : Bytes} (htext : ∀ b ∈ text, b ≠ 34 ∧ b ≠ 92) (rest : Bytes) :
    readString (text ++ 34 :: rest) = some text := by
  induction text with
  | nil => exact readString_quote rest
  | cons b text ih =>
    obtain ⟨hquote, hslash⟩ := htext b List.mem_cons_self
    rw [List.cons_append, readString_cons hquote hslash,
      ih fun c hc => htext c (List.mem_cons_of_mem _ hc), Option.map_some]

theorem readString_unclosed {text : Bytes} (hquote : 34 ∉ text) : readString text = none := by
  fun_induction readString text with
  | case1 => rfl
  | case2 => exact absurd List.mem_cons_self hquote
  | case3 => rfl
  | case4 c rest ih =>
    have hrest : 34 ∉ rest := fun h => hquote (List.mem_cons_of_mem _ (List.mem_cons_of_mem _ h))
    rw [ih hrest, Option.map_none]
  | case5 => exact absurd List.mem_cons_self hquote
  | case6 b c rest _ _ ih =>
    rw [ih fun h => hquote (List.mem_cons_of_mem _ h), Option.map_none]

/-! ## Escapes -/

theorem hexDigit_plain (n : Fin 16) : hexDigit (UInt8.ofNat n) ∉ [34, 58, 92] := by
  revert n
  decide

theorem hexDigit_of_lt {n : UInt8} (hn : n.toNat < 16) :
    hexDigit n ≠ 34 ∧ hexDigit n ≠ 58 ∧ hexDigit n ≠ 92 := by
  have h := hexDigit_plain ⟨n.toNat, hn⟩
  rw [UInt8.ofNat_toNat] at h
  simpa only [List.mem_cons, List.not_mem_nil, or_false, not_or] using h

/-- A byte stands for itself, behind a backslash, or as a code of four digits. -/
theorem escapeByte_cases (b : UInt8) :
    escapeByte b = [b] ∧ b ≠ 34 ∧ b ≠ 92 ∨
      (∃ c, escapeByte b = [92, c] ∧ b ≠ 58 ∧ c ≠ 58 ∧ (c = 34 → b = 34)) ∨
      ∃ c d, escapeByte b = [92, 117, 48, 48, c, d] ∧ b ≠ 58 ∧
        (c ≠ 34 ∧ c ≠ 58 ∧ c ≠ 92) ∧ d ≠ 34 ∧ d ≠ 58 ∧ d ≠ 92 := by
  unfold escapeByte
  by_cases hquote : b = 34
  · subst hquote
    exact .inr (.inl ⟨34, rfl, by decide, by decide, fun _ => rfl⟩)
  by_cases hslash : b = 92
  · subst hslash
    exact .inr (.inl ⟨92, rfl, by decide, by decide, by decide⟩)
  rw [if_neg hquote, if_neg hslash]
  split
  · next h => exact .inr (.inl ⟨98, rfl, by rw [h]; decide, by decide, fun hc => absurd hc (by decide)⟩)
  split
  · next h => exact .inr (.inl ⟨116, rfl, by rw [h]; decide, by decide, fun hc => absurd hc (by decide)⟩)
  split
  · next h => exact .inr (.inl ⟨110, rfl, by rw [h]; decide, by decide, fun hc => absurd hc (by decide)⟩)
  split
  · next h => exact .inr (.inl ⟨102, rfl, by rw [h]; decide, by decide, fun hc => absurd hc (by decide)⟩)
  split
  · next h => exact .inr (.inl ⟨114, rfl, by rw [h]; decide, by decide, fun hc => absurd hc (by decide)⟩)
  split
  · next hlow =>
    have hne : b ≠ 58 := by
      intro h
      rw [h] at hlow
      exact absurd hlow (by decide)
    refine .inr (.inr ⟨_, _, rfl, hne, hexDigit_of_lt ?_, hexDigit_of_lt ?_⟩)
    · have hb := UInt8.lt_iff_toNat_lt.mp hlow
      rw [UInt8.toNat_div]
      exact Nat.div_lt_of_lt_mul (Nat.lt_trans hb (by decide))
    · rw [UInt8.toNat_mod]
      exact Nat.mod_lt _ (by decide)
  · exact .inl ⟨rfl, hquote, hslash⟩

theorem colon_mem_escape {text : Bytes} : 58 ∈ escape text ↔ 58 ∈ text := by
  have hbyte : ∀ b : UInt8, 58 ∈ escapeByte b ↔ 58 = b := by
    intro b
    obtain ⟨heq, _⟩ | ⟨c, heq, hb, hc, _⟩ | ⟨c, d, heq, hb, hc, hd⟩ := escapeByte_cases b
    · rw [heq, List.mem_singleton]
    · rw [heq]
      simp [hb.symm, hc.symm]
    · rw [heq]
      simp [hb.symm, hc.2.1.symm, hd.2.1.symm]
  unfold escape
  simp only [List.mem_flatMap, hbyte, exists_eq_right']

theorem quote_notMem_escape {text : Bytes} (hquote : 34 ∉ text) : 34 ∉ escape text := by
  intro h
  obtain ⟨b, hb, hmem⟩ := List.mem_flatMap.mp h
  refine hquote ?_
  obtain ⟨heq, hne, _⟩ | ⟨c, heq, _, _, hc⟩ | ⟨c, d, heq, _, hc, hd⟩ := escapeByte_cases b
  · rw [heq, List.mem_singleton] at hmem
    exact absurd hmem.symm hne
  · have hc' : c = 34 := by simpa [heq, eq_comm] using hmem
    rwa [← hc hc']
  · simp [heq, hc.1.symm, hd.1.symm] at hmem

theorem escape_plain {text : Bytes} (htext : ∀ b ∈ text, 32 ≤ b ∧ b ≠ 34 ∧ b ≠ 92) :
    escape text = text := by
  induction text with
  | nil => rfl
  | cons b text ih =>
    obtain ⟨hlow, hquote, hslash⟩ := htext b List.mem_cons_self
    have hbyte : escapeByte b = [b] := by
      have hne : ∀ c < 32, b ≠ c := fun c hc h => by
        rw [h] at hlow
        exact absurd hc (UInt8.not_lt.mpr hlow)
      unfold escapeByte
      rw [if_neg hquote, if_neg hslash, if_neg (hne 8 (by decide)), if_neg (hne 9 (by decide)),
        if_neg (hne 10 (by decide)), if_neg (hne 12 (by decide)), if_neg (hne 13 (by decide)),
        if_neg (UInt8.not_lt.mpr hlow)]
    have hrest : escape text = text := ih fun c hc => htext c (List.mem_cons_of_mem _ hc)
    rw [escape, List.flatMap_cons, hbyte, List.singleton_append]
    exact congrArg (b :: ·) hrest

theorem readString_escape (text rest : Bytes) :
    ∃ value, readString (escape text ++ 34 :: rest) = some value := by
  induction text with
  | nil => exact ⟨[], readString_quote rest⟩
  | cons b text ih =>
    obtain ⟨value, hvalue⟩ := ih
    rw [escape, List.flatMap_cons, List.append_assoc]
    change readString (text.flatMap escapeByte ++ 34 :: rest) = some value at hvalue
    obtain ⟨heq, hquote, hslash⟩ | ⟨c, heq, _⟩ | ⟨c, d, heq, _, hc, hd⟩ := escapeByte_cases b
    · rw [heq, List.singleton_append, readString_cons hquote hslash, hvalue]
      exact ⟨_, rfl⟩
    · rw [heq]
      simp only [List.cons_append, List.nil_append, readString_pair, hvalue]
      exact ⟨_, rfl⟩
    · rw [heq]
      simp only [List.cons_append, List.nil_append, readString_pair]
      rw [readString_cons (by decide) (by decide), readString_cons (by decide) (by decide),
        readString_cons hc.1 hc.2.2, readString_cons hd.1 hd.2.2, hvalue]
      exact ⟨_, rfl⟩

/-! ## Reading a number -/

/-- The sign in front of the digits is taken off. -/
def unsignedText (text : Bytes) : Bytes := if text.head? == some 45 then text.tail else text

def digitsOf (text : Bytes) : Bytes := (unsignedText (text.dropWhile isSpace)).takeWhile isDigit

/-- `value` behind the loop. -/
def intOfDigits (digits : Bytes) : Int32 :=
  digits.foldl (fun value c => value * 10 + Int32.ofNat (c.toNat - 48)) 0

theorem readInt_eq (text : Bytes) : readInt text =
    if digitsOf text = [] then none
    else some (if (text.dropWhile isSpace).head? == some 45 then -intOfDigits (digitsOf text)
      else intOfDigits (digitsOf text)) := rfl

/-- The number that digits denote. -/
def numeral (digits : Bytes) : ℕ := digits.foldl (fun v b => 10 * v + (b.toNat - 48)) 0

/-- The loop keeps the number modulo `2^32`. -/
theorem intOfDigits_eq (digits : Bytes) : intOfDigits digits = Int32.ofNat (numeral digits) := by
  have hfold : ∀ (digits : Bytes) (a : ℕ),
      digits.foldl (fun value c => value * 10 + Int32.ofNat (c.toNat - 48)) (Int32.ofNat a) =
        Int32.ofNat (digits.foldl (fun v b => 10 * v + (b.toNat - 48)) a) := by
    intro digits
    induction digits with
    | nil => exact fun a => rfl
    | cons c digits ih =>
      intro a
      have hstep : Int32.ofNat a * 10 + Int32.ofNat (c.toNat - 48) =
          Int32.ofNat (10 * a + (c.toNat - 48)) := by
        rw [Int32.ofNat_add, Nat.mul_comm 10 a, Int32.ofNat_mul]
        rfl
      rw [List.foldl_cons, hstep, ih, List.foldl_cons]
  exact hfold digits 0

theorem intOfDigits_decimal (n : ℕ) : intOfDigits (decimal n) = Int32.ofNat n := by
  rw [intOfDigits_eq, numeral, value_decimal]

theorem isDigit_of_mem_decimal {n : ℕ} {b : UInt8} (h : b ∈ decimal n) : isDigit b = true := by
  obtain ⟨hlow, hhigh⟩ := mem_decimal h
  unfold isDigit
  rw [Bool.and_eq_true, decide_eq_true_eq, decide_eq_true_eq, UInt8.le_iff_toNat_le,
    UInt8.le_iff_toNat_le]
  exact ⟨hlow, hhigh⟩

theorem isSpace_digit {b : UInt8} (h : isDigit b = true) : isSpace b = false := by
  unfold isDigit at h
  rw [Bool.and_eq_true, decide_eq_true_eq, decide_eq_true_eq] at h
  have hne : b ≠ 32 := fun hb => absurd (hb ▸ h.1) (by decide)
  have hlow := UInt8.le_iff_toNat_le.mp h.1
  have hhigh : ¬ b ≤ 13 := by
    rw [UInt8.le_iff_toNat_le]
    exact Nat.not_le.mpr (Nat.lt_of_lt_of_le (by decide) hlow)
  rw [isSpace, beq_false_of_ne hne, Bool.false_or, decide_eq_false hhigh, Bool.and_false]

theorem takeWhile_decimal (n : ℕ) {rest : Bytes} (hrest : ∀ b ∈ rest.head?, isDigit b = false) :
    (decimal n ++ rest).takeWhile isDigit = decimal n := by
  rw [List.takeWhile_append_of_pos fun b hb => isDigit_of_mem_decimal hb]
  cases rest with
  | nil => exact List.append_nil _
  | cons b rest =>
    rw [List.takeWhile_cons_of_neg (by rw [hrest b rfl]; decide), List.append_nil]

/-- A printed number is read back, whatever follows its last digit. -/
theorem readInt_signed {z : ℤ} (hz : (Value.int z).Fits) {rest : Bytes}
    (hrest : ∀ b ∈ rest.head?, isDigit b = false) :
    (readInt (signed z ++ rest)).map Int32.toInt = some z := by
  obtain ⟨hlow, hhigh⟩ := hz
  have habs : (Int32.ofNat z.natAbs).toInt = z.natAbs := Int32.toInt_ofNat_of_lt (by omega)
  unfold signed
  by_cases hneg : z < 0
  · have hdigits : digitsOf (45 :: decimal z.natAbs ++ rest) = decimal z.natAbs :=
      takeWhile_decimal z.natAbs hrest
    have hminus : ((45 :: decimal z.natAbs ++ rest).dropWhile isSpace).head? == some 45 := rfl
    rw [if_pos hneg, readInt_eq, hdigits, if_neg (decimal_ne_nil _), if_pos hminus,
      intOfDigits_decimal, Option.map_some, Int32.toInt_neg, habs,
      Int.bmod_eq_of_le (by omega) (by omega)]
    exact congrArg some (by omega)
  · obtain ⟨d, digits, hd⟩ := List.exists_cons_of_ne_nil (decimal_ne_nil z.natAbs)
    have hdigit : isDigit d = true := isDigit_of_mem_decimal (hd ▸ List.mem_cons_self)
    have hspace : isSpace d = false := isSpace_digit hdigit
    have hstart : (decimal z.natAbs ++ rest).dropWhile isSpace = decimal z.natAbs ++ rest := by
      rw [hd, List.cons_append, List.dropWhile_cons_of_neg (by rw [hspace]; decide)]
    have hplus : ¬ ((decimal z.natAbs ++ rest).head? == some 45) := by
      intro h
      rw [hd, List.cons_append, List.head?_cons, beq_iff_eq, Option.some_inj] at h
      rw [h] at hdigit
      cases hdigit
    have hdigits : digitsOf (decimal z.natAbs ++ rest) = decimal z.natAbs := by
      rw [digitsOf, hstart, unsignedText, if_neg hplus, takeWhile_decimal _ hrest]
    rw [if_neg hneg, readInt_eq, hdigits, if_neg (decimal_ne_nil _), hstart, if_neg hplus,
      intOfDigits_decimal, Option.map_some, habs]
    exact congrArg some (by omega)

theorem readInt_quote (rest : Bytes) : readInt (34 :: rest) = none := rfl

theorem takeWhile_append_quote (text rest : Bytes) :
    (text ++ 34 :: rest).takeWhile isDigit = text.takeWhile isDigit := by
  rw [List.takeWhile_append]
  split
  · next h =>
    rw [List.takeWhile_cons_of_neg (by decide), List.append_nil]
    exact (List.IsPrefix.eq_of_length (List.takeWhile_prefix _) h).symm
  · rfl

/-- A quote ends a number. -/
theorem readInt_append_quote (text rest : Bytes) :
    readInt (text ++ 34 :: rest) = readInt text := by
  by_cases hblank : text.dropWhile isSpace = []
  · have hdrop : (text ++ 34 :: rest).dropWhile isSpace = 34 :: rest := by
      rw [List.dropWhile_append, hblank]
      rfl
    have hnone : digitsOf text = [] := by
      rw [digitsOf, hblank]
      rfl
    have hnone' : digitsOf (text ++ 34 :: rest) = [] := by
      rw [digitsOf, hdrop]
      rfl
    rw [readInt_eq, readInt_eq, if_pos hnone, if_pos hnone']
  · have hdrop : (text ++ 34 :: rest).dropWhile isSpace = text.dropWhile isSpace ++ 34 :: rest := by
      rw [List.dropWhile_append, if_neg]
      rwa [List.isEmpty_iff]
    obtain ⟨b, start, hstart⟩ := List.exists_cons_of_ne_nil hblank
    have hhead : ((text ++ 34 :: rest).dropWhile isSpace).head? =
        (text.dropWhile isSpace).head? := by
      rw [hdrop, hstart]
      rfl
    have hdigits : digitsOf (text ++ 34 :: rest) = digitsOf text := by
      unfold digitsOf unsignedText
      rw [hhead, hdrop, hstart]
      split
      · exact takeWhile_append_quote start rest
      · exact takeWhile_append_quote (b :: start) rest
    rw [readInt_eq, readInt_eq, hdigits, hhead]

end Bookstore.JsonFields
