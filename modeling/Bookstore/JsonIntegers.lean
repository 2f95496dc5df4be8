import Bookstore.FieldAgreement
import Mathlib.Data.List.TakeWhile

/-!
The integers that stand in a text, and `json_int_value_from` on them. The loop
multiplies and adds without a bound, so that a number outside the range of `int`
comes back as its remainder modulo `2^32`.
-/
namespace Bookstore.JsonIntegers

open HttpTypes RequestParser TextSearch Decimals JsonFields FieldAgreement

/-! ## Integers in a text -/

/-- The text begins with an integer: blanks, a minus sign or none, and digits up to a
byte that is none. -/
inductive Begins : Bytes → ℤ → Prop
  | natural {blanks digits after : Bytes} (hblanks : ∀ b ∈ blanks, isSpace b = true)
      (hne : digits ≠ []) (hdigits : ∀ b ∈ digits, isDigit b = true)
      (hafter : ∀ b ∈ after.head?, isDigit b = false) :
      Begins (blanks ++ (digits ++ after)) (numeral digits)
  | negative {blanks digits after : Bytes} (hblanks : ∀ b ∈ blanks, isSpace b = true)
      (hne : digits ≠ []) (hdigits : ∀ b ∈ digits, isDigit b = true)
      (hafter : ∀ b ∈ after.head?, isDigit b = false) :
      Begins (blanks ++ 45 :: (digits ++ after)) (-(numeral digits : ℤ))

/-- The integer that a text begins with. -/
def written (text : Bytes) : Option ℤ :=
  if digitsOf text = [] then none
  else some (if (text.dropWhile isSpace).head? == some 45 then -(numeral (digitsOf text) : ℤ)
    else numeral (digitsOf text))

theorem head_dropWhile_blanks {blanks rest : Bytes} (hblanks : ∀ b ∈ blanks, isSpace b = true)
    (hrest : ∀ b ∈ rest.head?, isSpace b = false) : (blanks ++ rest).dropWhile isSpace = rest := by
  rw [List.dropWhile_append_of_pos hblanks]
  cases rest with
  | nil => rfl
  | cons b rest =>
    have hspace : isSpace b = false := hrest b rfl
    exact List.dropWhile_cons_of_neg (by simp [hspace])

theorem takeWhile_digits {digits after : Bytes} (hdigits : ∀ b ∈ digits, isDigit b = true)
    (hafter : ∀ b ∈ after.head?, isDigit b = false) :
    (digits ++ after).takeWhile isDigit = digits := by
  rw [List.takeWhile_append_of_pos hdigits]
  cases after with
  | nil => exact List.append_nil _
  | cons b after =>
    have hother : isDigit b = false := hafter b rfl
    rw [List.takeWhile_cons_of_neg (by simp [hother]), List.append_nil]

theorem written_of_begins {text : Bytes} {n : ℤ} (h : Begins text n) : written text = some n := by
  cases h with
  | @natural blanks digits after hblanks hne hdigits hafter =>
    obtain ⟨d, more, rfl⟩ := List.exists_cons_of_ne_nil hne
    have hdigit : isDigit d = true := hdigits d List.mem_cons_self
    have htext : (blanks ++ (d :: more ++ after)).dropWhile isSpace = d :: more ++ after := by
      refine head_dropWhile_blanks hblanks ?_
      intro b hb
      obtain rfl := Option.some.inj hb
      exact isSpace_digit hdigit
    have hminus : d ≠ 45 := by
      rintro rfl
      cases hdigit
    have hsame : digitsOf (blanks ++ (d :: more ++ after)) = d :: more := by
      rw [digitsOf, htext, unsignedText, List.cons_append, List.head?_cons,
        if_neg (by simpa using hminus), ← List.cons_append, takeWhile_digits hdigits hafter]
    rw [written, hsame, htext, if_neg hne, List.cons_append, List.head?_cons,
      if_neg (by simpa using hminus)]
  | @negative blanks digits after hblanks hne hdigits hafter =>
    have htext : (blanks ++ 45 :: (digits ++ after)).dropWhile isSpace = 45 :: (digits ++ after) := by
      refine head_dropWhile_blanks hblanks ?_
      intro b hb
      obtain rfl := Option.some.inj hb
      rfl
    have hsame : digitsOf (blanks ++ 45 :: (digits ++ after)) = digits := by
      rw [digitsOf, htext]
      exact takeWhile_digits hdigits hafter
    rw [written, hsame, htext, if_neg hne]
    rfl

theorem begins_of_written {text : Bytes} {n : ℤ} (h : written text = some n) : Begins text n := by
  rw [written] at h
  split at h
  · cases h
  next hne =>
  have hblanks : ∀ b ∈ text.takeWhile isSpace, isSpace b = true :=
    fun b hb => List.mem_takeWhile_imp hb
  have hdigits : ∀ b ∈ digitsOf text, isDigit b = true := fun b hb => List.mem_takeWhile_imp hb
  have hsplit := List.takeWhile_append_dropWhile (p := isSpace) (l := text)
  have hafter (rest : Bytes) : ∀ b ∈ (rest.dropWhile isDigit).head?, isDigit b = false := by
    intro b hb
    cases hrest : rest.dropWhile isDigit with
    | nil => simp [hrest] at hb
    | cons c more =>
      have hhead := List.head?_dropWhile_not isDigit rest
      rw [hrest] at hb hhead
      obtain rfl := Option.some.inj hb
      simpa using hhead
  have hend := List.takeWhile_append_dropWhile (p := isDigit)
    (l := unsignedText (text.dropWhile isSpace))
  rw [← digitsOf] at hend
  split at h
  · next hminus =>
    obtain rfl := Option.some.inj h
    have hhead : text.dropWhile isSpace = 45 :: unsignedText (text.dropWhile isSpace) := by
      rw [unsignedText, if_pos hminus]
      cases htext : text.dropWhile isSpace with
      | nil => rw [htext] at hminus; cases hminus
      | cons b rest =>
        rw [htext] at hminus
        rw [show b = 45 by simpa using hminus]
        rfl
    have hbegins := Begins.negative hblanks hne hdigits
      (hafter (unsignedText (text.dropWhile isSpace)))
    rwa [hend, ← hhead, hsplit] at hbegins
  · next hminus =>
    obtain rfl := Option.some.inj h
    have hsame : unsignedText (text.dropWhile isSpace) = text.dropWhile isSpace := if_neg hminus
    have hbegins := Begins.natural hblanks hne hdigits
      (hafter (unsignedText (text.dropWhile isSpace)))
    rwa [hend, hsame, hsplit] at hbegins

theorem begins_iff (text : Bytes) (n : ℤ) : Begins text n ↔ written text = some n :=
  ⟨written_of_begins, begins_of_written⟩

/-- A printed integer is the one its text begins with. -/
theorem begins_signed (z : ℤ) {rest : Bytes} (hrest : ∀ b ∈ rest.head?, isDigit b = false) :
    Begins (signed z ++ rest) z := by
  have hdigits : ∀ b ∈ decimal z.natAbs, isDigit b = true := fun b hb => isDigit_of_mem_decimal hb
  have hnumeral : numeral (decimal z.natAbs) = z.natAbs := value_decimal z.natAbs
  unfold signed
  split
  · have hbegins := @Begins.negative [] _ _ (by simp) (decimal_ne_nil z.natAbs) hdigits hrest
    rwa [hnumeral, show -(z.natAbs : ℤ) = z by omega] at hbegins
  · have hbegins := @Begins.natural [] _ _ (by simp) (decimal_ne_nil z.natAbs) hdigits hrest
    rwa [hnumeral, show (z.natAbs : ℤ) = z by omega] at hbegins

/-- The reader takes the integer that the text begins with, modulo `2^32`. -/
theorem readInt_eq_written (text : Bytes) : readInt text = (written text).map Int32.ofInt := by
  rw [readInt_eq, written]
  split
  · rfl
  · rw [intOfDigits_eq]
    split
    · rw [Option.map_some, Int32.ofInt_neg]
      rfl
    · rfl

/-- The number reader takes the integer behind the next colon. -/
theorem intBehind_eq_written (text : Bytes) :
    intBehind text = (written (afterColon text)).map Int32.ofInt := by
  rw [← readInt_eq_written]
  by_cases hcolon : 58 ∈ text
  · obtain ⟨before, after, rfl, hbefore⟩ := List.eq_append_cons_of_mem hcolon
    rw [intBehind_colon hbefore, afterColon_append hbefore]
  · have hnone : afterColon text = [] := by
      have hall : text.dropWhile (· ≠ 58) = [] := by
        rw [List.dropWhile_eq_nil_iff]
        intro b hb
        refine decide_eq_true fun h => hcolon ?_
        rwa [← h]
      rw [afterColon, hall]
      rfl
    have hfind : find [58] text = none := by
      have h := find_none hcolon []
      exact h
    rw [hnone, intBehind, hfind]
    rfl

/-! ## A key in front of an integer -/

/-- A search that finds the quoted key in front of a colon and a run of digits. -/
structure IntField where
  body : Bytes
  key : Bytes
  searchFrom : ℕ
  blanks : Bytes
  negative : Bool
  digits : Bytes
  after : Bytes
  found : find (quoted key) (body.drop searchFrom) =
    some (quoted key ++ 58 :: (blanks ++ ((if negative then [45] else []) ++ (digits ++ after))))
  blanks_space : ∀ b ∈ blanks, isSpace b = true
  digits_nonempty : digits ≠ []
  digits_digit : ∀ b ∈ digits, isDigit b = true
  after_other : ∀ b ∈ after.head?, isDigit b = false

namespace IntField

/-- The integer that the sign and the digits denote. -/
def denoted (f : IntField) : ℤ := if f.negative then -(numeral f.digits) else numeral f.digits

def InRange (f : IntField) : Prop := -2147483648 ≤ f.denoted ∧ f.denoted < 2147483648

instance (f : IntField) : Decidable f.InRange := by
  unfold InRange
  infer_instance

/-- The integer if an `int` can hold it. -/
def claimed (f : IntField) : Option Int32 :=
  if f.InRange then some (Int32.ofInt f.denoted) else none

variable (f : IntField)

/-- The digits are read modulo `2^32`, with the sign in front of them. -/
theorem readInt_eq_ofInt : readInt (f.blanks ++ ((if f.negative then [45] else []) ++
    (f.digits ++ f.after))) = some (Int32.ofInt f.denoted) := by
  have hbegins : Begins (f.blanks ++ ((if f.negative then [45] else []) ++
      (f.digits ++ f.after))) f.denoted := by
    rw [denoted]
    cases f.negative with
    | true => exact .negative f.blanks_space f.digits_nonempty f.digits_digit f.after_other
    | false => exact .natural f.blanks_space f.digits_nonempty f.digits_digit f.after_other
  rw [readInt_eq_written, written_of_begins hbegins]
  rfl

/-- With a colon in the key, what is read stands behind that colon. -/
theorem jsonIntValueFrom_eq : jsonIntValueFrom f.body f.key f.searchFrom =
    if 58 ∈ f.key then (written (afterColon f.key)).map Int32.ofInt
    else some (Int32.ofInt f.denoted) := by
  rw [jsonIntValueFrom, f.found, Option.bind_some]
  by_cases hcolon : 58 ∈ f.key
  · obtain ⟨head, tail, hkey, hhead⟩ := List.eq_append_cons_of_mem hcolon
    have hfirst : 58 ∉ 34 :: head := List.not_mem_cons_of_ne_of_not_mem (by decide) hhead
    have hsplit (rest : Bytes) : quoted f.key ++ rest =
        (34 :: head) ++ 58 :: (tail ++ 34 :: rest) := by
      simp only [hkey, quoted, List.append_assoc, List.cons_append, List.nil_append]
    rw [if_pos hcolon, hsplit, intBehind_colon hfirst, readInt_append_quote, hkey,
      afterColon_append hhead, readInt_eq_written]
  · rw [if_neg hcolon, intBehind_colon (colon_notMem_quoted hcolon), f.readInt_eq_ofInt]

/-- The claimed value is read exactly when an `int` can hold the number. -/
theorem read_iff : jsonIntValueFrom f.body f.key f.searchFrom = f.claimed ↔
    if 58 ∈ f.key then (written (afterColon f.key)).map Int32.ofInt = f.claimed
    else f.InRange := by
  rw [f.jsonIntValueFrom_eq]
  split
  · rfl
  · rw [claimed]
    constructor
    · intro h
      by_contra hrange
      rw [if_neg hrange] at h
      cases h
    · intro hrange
      rw [if_pos hrange]

end IntField

/-- `2^32 + 3` copies are asked for. -/
def hugeQuantity : IntField where
  body := ascii "\x7b\"quantity\":4294967299\x7d"
  key := ascii "quantity"
  searchFrom := 0
  blanks := []
  negative := false
  digits := ascii "4294967299"
  after := ascii "\x7d"
  found := by decide
  blanks_space := fun b hb => absurd hb List.not_mem_nil
  digits_nonempty := by decide
  digits_digit := List.all_eq_true.mp (by decide)
  after_other := by decide +kernel

/-- Three copies are taken. -/
theorem huge_quantity_taken : ¬ ∀ f : IntField,
    jsonIntValueFrom f.body f.key f.searchFrom = f.claimed := by
  intro h
  have hread : jsonIntValueFrom hugeQuantity.body hugeQuantity.key hugeQuantity.searchFrom =
      some 3 := by decide
  have hclaimed : hugeQuantity.claimed = none := by decide
  have hboth := h hugeQuantity
  rw [hread, hclaimed] at hboth
  cases hboth

end Bookstore.JsonIntegers
