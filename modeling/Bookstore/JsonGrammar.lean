import Bookstore.Decimals
import Bookstore.Utf8
import Mathlib.Algebra.Order.Field.Rat
import Mathlib.Data.List.Forall2
import Mathlib.Tactic.NormNum

/-!
JSON texts: the grammar of RFC 8259 as derivations, each with the value that it
denotes. A text is exchanged in UTF-8. A string denotes characters; one with a
surrogate alone denotes nothing.
-/
namespace Bookstore.JsonGrammar

open Utf8

inductive Json
  | null
  | bool (b : Bool)
  | number (q : ℚ)
  | string (text : List Char)
  | array (values : List Json)
  | object (members : List (List Char × Json))

/-! ## White space -/

def Blank (c : Char) : Prop := c = ' ' ∨ c = '\t' ∨ c = '\n' ∨ c = '\r'

def Blanks (text : List Char) : Prop := ∀ c ∈ text, Blank c

theorem blanks_nil : Blanks [] := fun _ hc => absurd hc List.not_mem_nil

/-! ## Numbers -/

def numeral (digits : List Char) : ℕ := digits.foldl (fun v c => 10 * v + (c.toNat - 48)) 0

structure Digits (text : List Char) : Prop where
  nonempty : text ≠ []
  digits : ∀ c ∈ text, c.isDigit = true

/-- `int`: no zero stands in front of other digits. -/
structure IntDigits (text : List Char) : Prop extends Digits text where
  leading : text.head? = some '0' → text = ['0']

inductive Fraction : List Char → ℚ → Prop
  | none : Fraction [] 0
  | some {digits : List Char} : Digits digits →
      Fraction ('.' :: digits) (numeral digits / 10 ^ digits.length)

def ExponentMark (c : Char) : Prop := c = 'e' ∨ c = 'E'

inductive Exponent : List Char → ℤ → Prop
  | none : Exponent [] 0
  | unsigned {e : Char} {digits : List Char} : ExponentMark e → Digits digits →
      Exponent (e :: digits) (numeral digits)
  | plus {e : Char} {digits : List Char} : ExponentMark e → Digits digits →
      Exponent (e :: '+' :: digits) (numeral digits)
  | minus {e : Char} {digits : List Char} : ExponentMark e → Digits digits →
      Exponent (e :: '-' :: digits) (-numeral digits)

inductive Number : List Char → ℚ → Prop
  | unsigned {int frac exp : List Char} {f : ℚ} {e : ℤ} :
      IntDigits int → Fraction frac f → Exponent exp e →
      Number (int ++ (frac ++ exp)) ((numeral int + f) * 10 ^ e)
  | minus {int frac exp : List Char} {f : ℚ} {e : ℤ} :
      IntDigits int → Fraction frac f → Exponent exp e →
      Number ('-' :: (int ++ (frac ++ exp))) (-((numeral int + f) * 10 ^ e))

/-! ## Strings -/

/-- The letter behind a backslash, and its character. -/
inductive Escape : Char → Char → Prop
  | quote : Escape '"' '"'
  | backslash : Escape '\\' '\\'
  | slash : Escape '/' '/'
  | backspace : Escape 'b' '\x08'
  | formFeed : Escape 'f' '\x0c'
  | lineFeed : Escape 'n' '\n'
  | carriageReturn : Escape 'r' '\r'
  | tab : Escape 't' '\t'

def hexValue (c : Char) : Option ℕ :=
  if c.isDigit then some (c.toNat - 48)
  else if 'a' ≤ c ∧ c ≤ 'f' then some (c.toNat - 87)
  else if 'A' ≤ c ∧ c ≤ 'F' then some (c.toNat - 55)
  else none

/-- The four digits behind `\u`. -/
inductive CodeUnit : List Char → ℕ → Prop
  | mk {a b c d : Char} {x y z w : ℕ} : hexValue a = some x → hexValue b = some y →
      hexValue c = some z → hexValue d = some w →
      CodeUnit [a, b, c, d] (x * 4096 + y * 256 + z * 16 + w)

def HighSurrogate (n : ℕ) : Prop := 0xD800 ≤ n ∧ n < 0xDC00

def LowSurrogate (n : ℕ) : Prop := 0xDC00 ≤ n ∧ n < 0xE000

/-- What stands between the quotes of a string. -/
inductive Chars : List Char → List Char → Prop
  | nil : Chars [] []
  | unescaped {c : Char} {text value : List Char} : 0x20 ≤ c.toNat → c ≠ '"' → c ≠ '\\' →
      Chars text value → Chars (c :: text) (c :: value)
  | escaped {e c : Char} {text value : List Char} : Escape e c → Chars text value →
      Chars ('\\' :: e :: text) (c :: value)
  | unicode {unit text value : List Char} {n : ℕ} : CodeUnit unit n → ¬ HighSurrogate n →
      ¬ LowSurrogate n → Chars text value →
      Chars ('\\' :: 'u' :: (unit ++ text)) (Char.ofNat n :: value)
  | pair {high low text value : List Char} {m n : ℕ} : CodeUnit high m → HighSurrogate m →
      CodeUnit low n → LowSurrogate n → Chars text value →
      Chars ('\\' :: 'u' :: (high ++ '\\' :: 'u' :: (low ++ text)))
        (Char.ofNat (0x10000 + (m - 0xD800) * 0x400 + (n - 0xDC00)) :: value)

/-! ## Values -/

/-- What a derivation is of. -/
inductive Part
  | value (v : Json)
  | elements (values : List Json)
  | member (name : List Char) (v : Json)
  | members (members : List (List Char × Json))

inductive Derives : List Char → Part → Prop
  | null : Derives ['n', 'u', 'l', 'l'] (.value .null)
  | true : Derives ['t', 'r', 'u', 'e'] (.value (.bool true))
  | false : Derives ['f', 'a', 'l', 's', 'e'] (.value (.bool false))
  | number {text : List Char} {q : ℚ} : Number text q → Derives text (.value (.number q))
  | string {text value : List Char} : Chars text value →
      Derives ('"' :: (text ++ ['"'])) (.value (.string value))
  | array {text : List Char} {values : List Json} : Derives text (.elements values) →
      Derives ('[' :: (text ++ [']'])) (.value (.array values))
  | object {text : List Char} {members : List (List Char × Json)} :
      Derives text (.members members) →
      Derives ('\x7b' :: (text ++ ['\x7d'])) (.value (.object members))
  | noElement {blanks : List Char} : Blanks blanks → Derives blanks (.elements [])
  | lastElement {before text after : List Char} {v : Json} : Blanks before →
      Derives text (.value v) → Blanks after →
      Derives (before ++ (text ++ after)) (.elements [v])
  | element {before text after more : List Char} {v w : Json} {values : List Json} :
      Blanks before → Derives text (.value v) → Blanks after →
      Derives more (.elements (w :: values)) →
      Derives (before ++ (text ++ (after ++ ',' :: more))) (.elements (v :: w :: values))
  | member {name value before after text : List Char} {v : Json} : Chars name value →
      Blanks before → Blanks after → Derives text (.value v) →
      Derives ('"' :: (name ++ '"' :: (before ++ ':' :: (after ++ text)))) (.member value v)
  | noMember {blanks : List Char} : Blanks blanks → Derives blanks (.members [])
  | lastMember {before text after name : List Char} {v : Json} : Blanks before →
      Derives text (.member name v) → Blanks after →
      Derives (before ++ (text ++ after)) (.members [(name, v)])
  | moreMembers {before text after more name : List Char} {v : Json}
      {m : List Char × Json} {members : List (List Char × Json)} :
      Blanks before → Derives text (.member name v) → Blanks after →
      Derives more (.members (m :: members)) →
      Derives (before ++ (text ++ (after ++ ',' :: more))) (.members ((name, v) :: m :: members))

/-- The bytes are a JSON text of this value. -/
def Decodes (bytes : List UInt8) (v : Json) : Prop :=
  ∃ before text after, Blanks before ∧ Derives text (.value v) ∧ Blanks after ∧
    bytes = utf8 (before ++ (text ++ after))

/-! ## What a text is made of -/

/-- Not a control character, or white space. -/
def Printed (c : Char) : Prop := 0x20 ≤ c.toNat ∨ Blank c

theorem printed_of_isDigit {c : Char} (hc : c.isDigit = true) : Printed c := by
  have hlow : 48 ≤ c.toNat := (Char.isDigit_iff_toNat.mp hc).1
  exact .inl (by omega)

theorem Blanks.printed {text : List Char} (h : Blanks text) : ∀ c ∈ text, Printed c :=
  fun c hc => .inr (h c hc)

theorem Digits.printed {text : List Char} (h : Digits text) : ∀ c ∈ text, Printed c :=
  fun c hc => printed_of_isDigit (h.digits c hc)

theorem forall_printed_append {text more : List Char} (h : ∀ c ∈ text, Printed c)
    (hmore : ∀ c ∈ more, Printed c) : ∀ c ∈ text ++ more, Printed c :=
  fun c hc => (List.mem_append.mp hc).elim (h c) (hmore c)

theorem forall_printed_cons {c : Char} {text : List Char} (hc : 0x20 ≤ c.toNat)
    (h : ∀ d ∈ text, Printed d) : ∀ d ∈ c :: text, Printed d :=
  List.forall_mem_cons.mpr ⟨.inl hc, h⟩

theorem forall_printed_word {text : List Char} (h : text.all (fun c => 0x20 ≤ c.toNat) = true) :
    ∀ c ∈ text, Printed c :=
  fun c hc => .inl (of_decide_eq_true (List.all_eq_true.mp h c hc))

theorem Fraction.printed {text : List Char} {f : ℚ} (h : Fraction text f) :
    ∀ c ∈ text, Printed c := by
  cases h with
  | none => exact blanks_nil.printed
  | some hdigits => exact forall_printed_cons (by decide) hdigits.printed

theorem ExponentMark.printed {e : Char} (h : ExponentMark e) : 0x20 ≤ e.toNat := by
  obtain rfl | rfl := h <;> decide

theorem Exponent.printed {text : List Char} {e : ℤ} (h : Exponent text e) :
    ∀ c ∈ text, Printed c := by
  cases h with
  | none => exact blanks_nil.printed
  | unsigned hmark hdigits => exact forall_printed_cons hmark.printed hdigits.printed
  | plus hmark hdigits | minus hmark hdigits =>
    exact forall_printed_cons hmark.printed (forall_printed_cons (by decide) hdigits.printed)

theorem Number.printed {text : List Char} {q : ℚ} (h : Number text q) :
    ∀ c ∈ text, Printed c := by
  cases h with
  | unsigned hint hfrac hexp =>
    exact forall_printed_append hint.printed (forall_printed_append hfrac.printed hexp.printed)
  | minus hint hfrac hexp =>
    exact forall_printed_cons (by decide)
      (forall_printed_append hint.printed (forall_printed_append hfrac.printed hexp.printed))

theorem Escape.printed {e c : Char} (h : Escape e c) : 0x20 ≤ e.toNat := by
  cases h <;> decide

theorem printed_of_hexValue {c : Char} {n : ℕ} (h : hexValue c = some n) : 0x20 ≤ c.toNat := by
  unfold hexValue at h
  split at h
  · next hdigit =>
    have hlow : 48 ≤ c.toNat := (Char.isDigit_iff_toNat.mp hdigit).1
    omega
  split at h
  · next hlower => exact Nat.le_trans (by decide) (UInt32.le_iff_toNat_le.mp hlower.1)
  split at h
  · next hupper => exact Nat.le_trans (by decide) (UInt32.le_iff_toNat_le.mp hupper.1)
  · cases h

theorem CodeUnit.printed {text : List Char} {n : ℕ} (h : CodeUnit text n) :
    ∀ c ∈ text, Printed c := by
  obtain ⟨ha, hb, hc, hd⟩ := h
  exact forall_printed_cons (printed_of_hexValue ha) (forall_printed_cons (printed_of_hexValue hb)
    (forall_printed_cons (printed_of_hexValue hc)
      (forall_printed_cons (printed_of_hexValue hd) blanks_nil.printed)))

theorem Chars.printed {text value : List Char} (h : Chars text value) :
    ∀ c ∈ text, Printed c := by
  induction h with
  | nil => exact blanks_nil.printed
  | unescaped hlow _ _ _ ih => exact forall_printed_cons hlow ih
  | escaped hescape _ ih =>
    exact forall_printed_cons (by decide) (forall_printed_cons hescape.printed ih)
  | unicode hunit _ _ _ ih =>
    exact forall_printed_cons (by decide) (forall_printed_cons (by decide)
      (forall_printed_append hunit.printed ih))
  | pair hhigh _ hlow _ _ ih =>
    exact forall_printed_cons (by decide) (forall_printed_cons (by decide)
      (forall_printed_append hhigh.printed (forall_printed_cons (by decide)
        (forall_printed_cons (by decide) (forall_printed_append hlow.printed ih)))))

/-- A JSON text has no control characters but white space. -/
theorem Derives.printed {text : List Char} {part : Part} (h : Derives text part) :
    ∀ c ∈ text, Printed c := by
  have hclose (last : Char) (hlast : 0x20 ≤ last.toNat) : ∀ c ∈ [last], Printed c :=
    forall_printed_cons hlast blanks_nil.printed
  induction h with
  | null | true | false => exact forall_printed_word rfl
  | number hnumber => exact hnumber.printed
  | string hchars =>
    exact forall_printed_cons (by decide)
      (forall_printed_append hchars.printed (hclose '"' (by decide)))
  | array _ ih =>
    exact forall_printed_cons (by decide) (forall_printed_append ih (hclose ']' (by decide)))
  | object _ ih =>
    exact forall_printed_cons (by decide) (forall_printed_append ih (hclose '\x7d' (by decide)))
  | noElement hblanks | noMember hblanks => exact hblanks.printed
  | lastElement hbefore _ hafter ih | lastMember hbefore _ hafter ih =>
    exact forall_printed_append hbefore.printed (forall_printed_append ih hafter.printed)
  | element hbefore _ hafter _ ih hmore | moreMembers hbefore _ hafter _ ih hmore =>
    exact forall_printed_append hbefore.printed (forall_printed_append ih
      (forall_printed_append hafter.printed (forall_printed_cons (by decide) hmore)))
  | member hname hbefore hafter _ ih =>
    exact forall_printed_cons (by decide) (forall_printed_append hname.printed
      (forall_printed_cons (by decide) (forall_printed_append hbefore.printed
        (forall_printed_cons (by decide) (forall_printed_append hafter.printed ih)))))

/-- The same of its bytes. -/
theorem Decodes.printed {bytes : List UInt8} {v : Json} (h : Decodes bytes v) :
    ∀ b ∈ bytes, 32 ≤ b.toNat ∨ b = 9 ∨ b = 10 ∨ b = 13 := by
  obtain ⟨before, text, after, hbefore, htext, hafter, rfl⟩ := h
  intro b hb
  by_cases hlow : b.toNat ≤ 127
  · obtain ⟨c, hc, hsame⟩ := mem_of_mem_utf8 hb hlow
    rcases forall_printed_append hbefore.printed
      (forall_printed_append htext.printed hafter.printed) c hc with hprinted | hblank
    · exact .inl (by omega)
    · obtain rfl | rfl | rfl | rfl := hblank
      · exact .inl (Nat.le_of_eq hsame)
      · exact .inr (.inl (UInt8.toNat_inj.mp hsame.symm))
      · exact .inr (.inr (.inl (UInt8.toNat_inj.mp hsame.symm)))
      · exact .inr (.inr (.inr (UInt8.toNat_inj.mp hsame.symm)))
  · exact .inl (by omega)

/-! ## Compact texts -/

theorem derives_elements {texts : List (List Char)} {values : List Json}
    (h : List.Forall₂ (fun text v => Derives text (.value v)) texts values) :
    Derives (List.intercalate [','] texts) (.elements values) := by
  induction h with
  | nil => exact .noElement blanks_nil
  | @cons text v texts values hfirst hrest ih =>
    cases hrest with
    | nil =>
      have hone := Derives.lastElement blanks_nil hfirst blanks_nil
      rw [List.nil_append, List.append_nil] at hone
      rw [List.intercalate_singleton]
      exact hone
    | cons hsecond hrest =>
      rw [List.intercalate_cons_cons, List.append_assoc]
      exact Derives.element blanks_nil hfirst blanks_nil ih

/-- A member without white space. -/
def memberText (name text : List Char) : List Char := '"' :: (name ++ '"' :: ':' :: text)

theorem derives_members {texts : List (List Char)} {members : List (List Char × Json)}
    (h : List.Forall₂ (fun text m => Derives text (.member m.1 m.2)) texts members) :
    Derives (List.intercalate [','] texts) (.members members) := by
  induction h with
  | nil => exact .noMember blanks_nil
  | @cons text m texts members hfirst hrest ih =>
    cases hrest with
    | nil =>
      have hone := Derives.lastMember blanks_nil hfirst blanks_nil
      rw [List.nil_append, List.append_nil] at hone
      rw [List.intercalate_singleton]
      exact hone
    | cons hsecond hrest =>
      rw [List.intercalate_cons_cons, List.append_assoc]
      exact Derives.moreMembers blanks_nil hfirst blanks_nil ih

theorem derives_member {name value text : List Char} {v : Json} (hname : Chars name value)
    (htext : Derives text (.value v)) : Derives (memberText name text) (.member value v) :=
  Derives.member hname blanks_nil blanks_nil htext

def arrayText (texts : List (List Char)) : List Char :=
  '[' :: (List.intercalate [','] texts ++ [']'])

theorem derives_arrayText {texts : List (List Char)} {values : List Json}
    (h : List.Forall₂ (fun text v => Derives text (.value v)) texts values) :
    Derives (arrayText texts) (.value (.array values)) := .array (derives_elements h)

/-- An object without white space, from the texts of its names and values. -/
def objectText (members : List (List Char × List Char)) : List Char :=
  '\x7b' :: (List.intercalate [','] (members.map fun m => memberText m.1 m.2) ++ ['\x7d'])

theorem derives_objectText {texts : List (List Char × List Char)}
    {members : List (List Char × Json)}
    (h : List.Forall₂ (fun t m => Chars t.1 m.1 ∧ Derives t.2 (.value m.2)) texts members) :
    Derives (objectText texts) (.value (.object members)) := by
  refine .object (derives_members ?_)
  rw [List.forall₂_map_left_iff]
  exact h.imp fun t m ht => derives_member ht.1 ht.2

theorem decodes_of_derives {text : List Char} {v : Json} (h : Derives text (.value v)) :
    Decodes (utf8 text) v :=
  ⟨[], text, [], blanks_nil, h, blanks_nil, by rw [List.nil_append, List.append_nil]⟩

/-! ## Integers -/

theorem numeral_toDigits (n : ℕ) : numeral (Nat.toDigits 10 n) = n := by
  refine @Decimals.toDigits_induction (fun n digits => numeral digits = n) ?_ ?_ n
  · intro d hd
    rw [numeral, List.foldl_cons, List.foldl_nil, Nat.toNat_digitChar_of_lt_ten hd]
    omega
  · intro m d digits _ hd ih
    rw [numeral] at ih ⊢
    rw [List.foldl_append, ih, List.foldl_cons, List.foldl_nil, Nat.toNat_digitChar_of_lt_ten hd]
    omega

theorem intDigits_toDigits (n : ℕ) : IntDigits (Nat.toDigits 10 n) := by
  have hfacts : Nat.toDigits 10 n ≠ [] ∧
      ((Nat.toDigits 10 n).head? = some '0' → Nat.toDigits 10 n = ['0']) ∧
      (0 < n → (Nat.toDigits 10 n).head? ≠ some '0') := by
    refine @Decimals.toDigits_induction (fun n digits => digits ≠ [] ∧
      (digits.head? = some '0' → digits = ['0']) ∧ (0 < n → digits.head? ≠ some '0')) ?_ ?_ n
    · intro d hd
      refine ⟨List.cons_ne_nil _ _, fun h => congrArg (· :: []) (Option.some.inj h), ?_⟩
      intro hpos h
      have hzero := congrArg Char.toNat (Option.some.inj h)
      rw [Nat.toNat_digitChar_of_lt_ten hd] at hzero
      have hcode : '0'.toNat = 48 := rfl
      omega
    · intro m d digits hm _ ih
      obtain ⟨hne, -, hhead⟩ := ih
      have hsame : (digits ++ [d.digitChar]).head? = digits.head? := by
        obtain ⟨c, rest, rfl⟩ := List.exists_cons_of_ne_nil hne
        rfl
      rw [hsame]
      exact ⟨List.append_ne_nil_of_left_ne_nil hne _, fun h => absurd h (hhead hm),
        fun _ => hhead hm⟩
  exact ⟨⟨hfacts.1, fun c hc => Nat.isDigit_of_mem_toDigits (by decide) (by decide) hc⟩,
    hfacts.2.1⟩

/-- A printed integer. -/
theorem number_toString (z : ℤ) : Number (toString z).toList z := by
  have hdigits (n : ℕ) : Number (Nat.toDigits 10 n) n := by
    have h := Number.unsigned (intDigits_toDigits n) .none .none
    rw [List.append_nil, List.append_nil, numeral_toDigits, add_zero, zpow_zero, mul_one] at h
    exact h
  cases z with
  | ofNat n =>
    have htext : (toString (Int.ofNat n)).toList = Nat.toDigits 10 n := String.toList_ofList
    rw [htext, Int.ofNat_eq_natCast, Int.cast_natCast]
    exact hdigits n
  | negSucc n =>
    have htext : (toString (Int.negSucc n)).toList = '-' :: Nat.toDigits 10 (n + 1) := by
      show ("-" ++ toString (n + 1)).toList = '-' :: Nat.toDigits 10 (n + 1)
      rw [String.toList_append]
      exact congrArg ('-' :: ·) String.toList_ofList
    have h := Number.minus (intDigits_toDigits (n + 1)) .none .none
    rw [List.append_nil, List.append_nil, numeral_toDigits, add_zero, zpow_zero, mul_one] at h
    rw [htext, Int.cast_negSucc]
    exact h

end Bookstore.JsonGrammar
