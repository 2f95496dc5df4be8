import Bookstore.JsonFields

/-!
When the field readers agree with JSON. What they return is decided by the first
quote at which the quoted key stands: at the key itself, at a value that spells
it, or at the punctuation between two texts.
-/
namespace Bookstore.FieldAgreement

open HttpTypes RequestParser TextSearch Decimals JsonFields

/-! ## The quotes of a text -/

/-- A quote, and the members behind it: at the start or the end of a key, at the
start or the end of a string. -/
inductive Spot
  | key (m : Member) (rest : List Member)
  | colon (m : Member) (rest : List Member)
  | value (text : Bytes) (fits : (Value.string text).Fits) (rest : List Member)
  | comma (rest : List Member)

/-- The text behind a member. -/
def restText : List Member → Bytes
  | [] => [125]
  | m :: rest => 44 :: (m.text ++ restText rest)

/-- The text from the quote on. -/
def Spot.text : Spot → Bytes
  | .key m rest => m.text ++ restText rest
  | .colon m rest => 34 :: 58 :: (m.value.text ++ restText rest)
  | .value text _ rest => quoted text ++ restText rest
  | .comma rest => 34 :: restText rest

def spots : List Member → List Spot
  | [] => []
  | m :: rest =>
    .key m rest :: .colon m rest ::
      match m.value, m.fits with
      | .int _, _ => spots rest
      | .string text, fits => .value text fits rest :: .comma rest :: spots rest

/-- The quoted key stands there. -/
def Spot.spells (k : Bytes) (spot : Spot) : Bool := (quoted k).isPrefixOf spot.text

/-- Where the quoted key first stands. -/
def firstSpot (k : Bytes) (members : List Member) : Option Spot :=
  (spots members).find? (Spot.spells k)

/-! ## What is read there -/

/-- The value behind a colon. The string reader passes a number and takes the next
key, if there is one. -/
def ShowsValue (stored : Option Value) (v : Value) (rest : List Member) : Prop :=
  match v with
  | .string _ => stored = some v
  | .int _ => stored = some v ∧ rest = []

def afterColon (text : Bytes) : Bytes := (text.dropWhile (· ≠ 58)).tail

/-- The first colon stands inside a text. The string reader takes what lies between
this text and the next one, the number reader what follows the colon. -/
def ShowsGap (stored : Option Value) (text : Bytes) (gap : Option Bytes) : Prop :=
  stringOf stored = gap ∧ intOf stored = (readInt (afterColon text)).map Int32.toInt

/-- What lies between a key and the next text. -/
def gapBehindKey : Value → List Member → Option Bytes
  | .string _, _ => some [58]
  | .int _, [] => none
  | .int n, _ :: _ => some (58 :: (signed n ++ [44]))

def gapBehindString : List Member → Option Bytes
  | [] => none
  | _ :: _ => some [44]

def ShowsMember (stored : Option Value) (m : Member) (rest : List Member) : Prop :=
  if 58 ∈ m.key then ShowsGap stored (escape m.key) (gapBehindKey m.value rest)
  else ShowsValue stored m.value rest

def ShowsNext (stored : Option Value) : List Member → Prop
  | [] => stored = none
  | m :: rest => ShowsMember stored m rest

def Spot.Shows (stored : Option Value) : Spot → Prop
  | .key m rest => ShowsMember stored m rest
  | .colon m rest => ShowsValue stored m.value rest
  | .value text _ rest =>
    if 58 ∈ text then ShowsGap stored text (gapBehindString rest) else ShowsNext stored rest
  | .comma rest => ShowsNext stored rest

/-- The key is spelled nowhere and absent, or its value is what is shown where it is
first spelled. -/
def Holds (o : FlatObject) (k : Bytes) : Prop :=
  match firstSpot k o.members with
  | none => o.stored k = none
  | some spot => spot.Shows (o.stored k)

/-! ## Searching the text -/

theorem members_text (m : Member) (rest : List Member) :
    List.intercalate [44] ((m :: rest).map Member.text) ++ [125] = m.text ++ restText rest := by
  induction rest generalizing m with
  | nil =>
    rw [List.map_singleton, List.intercalate_singleton]
    rfl
  | cons m' rest ih =>
    have hsplit : List.intercalate [44] ((m :: m' :: rest).map Member.text) =
        m.text ++ 44 :: List.intercalate [44] ((m' :: rest).map Member.text) := by
      rw [List.map_cons, List.map_cons, List.intercalate_cons_cons, List.append_assoc]
      rfl
    rw [hsplit, List.append_assoc, List.cons_append, ih]
    rfl

theorem notMem_signed (z : ℤ) {b : UInt8} (hdigit : isDigit b = false) (hminus : b ≠ 45) :
    b ∉ signed z := by
  have hdecimal : b ∉ decimal z.natAbs := by
    intro h
    rw [isDigit_of_mem_decimal h] at hdigit
    cases hdigit
  unfold signed
  split
  · exact List.not_mem_cons_of_ne_of_not_mem hminus hdecimal
  · exact hdecimal

theorem quote_notMem_key (m : Member) : 34 ∉ escape m.key :=
  quote_notMem_escape fun h => (m.plain 34 h).1 rfl

theorem quote_notMem_string {text : Bytes} (fits : (Value.string text).Fits) : 34 ∉ text :=
  fun h => (fits 34 h).2.1 rfl

/-- The search tries a quote, then goes on behind it. -/
theorem find_spot (k : Bytes) (spot : Spot) (others : List Spot) {behind : Bytes}
    (htext : spot.text = 34 :: behind)
    (hbehind : find (quoted k) behind = (others.find? (Spot.spells k)).map Spot.text) :
    find (quoted k) spot.text = ((spot :: others).find? (Spot.spells k)).map Spot.text := by
  have hstep : find (quoted k) spot.text =
      if spot.spells k = true then some spot.text else find (quoted k) behind := by
    unfold Spot.spells
    rw [htext]
    rfl
  by_cases hhere : spot.spells k = true
  · rw [List.find?_cons_of_pos hhere, hstep, if_pos hhere, Option.map_some]
  · rw [List.find?_cons_of_neg hhere, hstep, if_neg hhere, hbehind]

theorem key_text (m : Member) (rest : List Member) :
    (Spot.key m rest).text = 34 :: (escape m.key ++ (Spot.colon m rest).text) := by
  simp only [Spot.text, Member.text, quoted, List.cons_append, List.append_assoc,
    List.nil_append]

theorem value_text {text : Bytes} (fits : (Value.string text).Fits) (rest : List Member) :
    (Spot.value text fits rest).text = 34 :: (text ++ (Spot.comma rest).text) := by
  simp only [Spot.text, quoted, List.cons_append, List.append_assoc, List.nil_append]

theorem string_text {text : Bytes} (fits : (Value.string text).Fits) (rest : List Member) :
    (Value.string text).text ++ restText rest = (Spot.value text fits rest).text := by
  rw [Value.text, escape_plain fits, Spot.text]

theorem find_restText (k : Bytes) (members : List Member) :
    find (quoted k) (restText members) = (firstSpot k members).map Spot.text := by
  induction members with
  | nil => exact find_none (by decide) _
  | cons m rest ih =>
    have hcomma : find (quoted k) (restText (m :: rest)) = find (quoted k) (Spot.key m rest).text :=
      @find_skip _ _ 34 [44] (by decide) _ _
    rw [hcomma]
    refine find_spot k (.key m rest) _ (key_text m rest) ?_
    rw [quoted, find_skip (quote_notMem_key m), ← quoted]
    refine find_spot k (.colon m rest) _ rfl ?_
    obtain ⟨key, value, plain, fits⟩ := m
    cases value with
    | int n =>
      have hskip : (34 : UInt8) ∉ 58 :: signed n :=
        List.not_mem_cons_of_ne_of_not_mem (by decide) (notMem_signed n rfl (by decide))
      exact (find_skip hskip _ _).trans ih
    | string text =>
      have hspot : find (quoted k) (58 :: ((Value.string text).text ++ restText rest)) =
          find (quoted k) (Spot.value text fits rest).text := by
        rw [string_text fits]
        exact @find_skip _ _ 34 [58] (by decide) _ _
      refine hspot.trans (find_spot k (.value text fits rest) _ (value_text fits rest) ?_)
      rw [quoted, find_skip (quote_notMem_string fits), ← quoted]
      exact find_spot k (.comma rest) _ rfl ih

/-- The search in the text of an object. -/
theorem find_text (o : FlatObject) (k : Bytes) :
    find (quoted k) o.text = (firstSpot k o.members).map Spot.text := by
  obtain ⟨members, distinct⟩ := o
  unfold FlatObject.text
  cases members with
  | nil => exact @find_none _ _ 34 [123, 125] (by decide) _
  | cons m rest =>
    rw [members_text, ← find_restText]
    have hbrace : find (quoted k) (123 :: (m.text ++ restText rest)) =
        find (quoted k) (m.text ++ restText rest) := @find_skip _ _ 34 [123] (by decide) _ _
    have hcomma : find (quoted k) (restText (m :: rest)) =
        find (quoted k) (m.text ++ restText rest) := @find_skip _ _ 34 [44] (by decide) _ _
    exact hbrace.trans hcomma.symm

/-! ## What is stored and what is read -/

/-- The readers return what is stored when they start at this place. -/
def ReadsAs (stored : Option Value) (found : Option Bytes) : Prop :=
  found.bind stringBehind = stringOf stored ∧
    (found.bind intBehind).map Int32.toInt = intOf stored

theorem stored_string {stored : Option Value} {text : Bytes} :
    some text = stringOf stored ∧ none = intOf stored ↔ stored = some (.string text) := by
  match stored with
  | none => simp [stringOf]
  | some (.int n) => simp [stringOf]
  | some (.string text') => simp [stringOf, intOf, eq_comm]

theorem stored_int {stored : Option Value} {n : ℤ} :
    none = stringOf stored ∧ some n = intOf stored ↔ stored = some (.int n) := by
  match stored with
  | none => simp [intOf]
  | some (.int n') => simp [stringOf, intOf, eq_comm]
  | some (.string text) => simp [intOf]

theorem stored_none {stored : Option Value} :
    none = stringOf stored ∧ none = intOf stored ↔ stored = none := by
  match stored with
  | none => simp [stringOf, intOf]
  | some (.int n) => simp [intOf]
  | some (.string text) => simp [stringOf]

theorem not_stored_both {stored : Option Value} {text : Bytes} {n : ℤ}
    (htext : some text = stringOf stored) (hn : some n = intOf stored) : False := by
  match stored with
  | none => cases hn
  | some (.int n) => cases htext
  | some (.string text) => cases hn

theorem readsAs_none {stored : Option Value} : ReadsAs stored none ↔ stored = none := stored_none

/-! ## The first colon -/

theorem stringBehind_colon {before : Bytes} (hbefore : 58 ∉ before) (after : Bytes) :
    stringBehind (before ++ 58 :: after) =
      (find [34] after).bind fun start => readString start.tail := by
  unfold stringBehind
  rw [find_letter hbefore]
  rfl

theorem intBehind_colon {before : Bytes} (hbefore : 58 ∉ before) (after : Bytes) :
    intBehind (before ++ 58 :: after) = readInt after := by
  unfold intBehind
  rw [find_letter hbefore]
  rfl

theorem afterColon_append {before : Bytes} (hbefore : 58 ∉ before) (after : Bytes) :
    afterColon (before ++ 58 :: after) = after := by
  have hother : ∀ b ∈ before, decide (b ≠ 58) = true := by
    intro b hb
    refine decide_eq_true fun h => hbefore ?_
    rwa [← h]
  rw [afterColon, List.dropWhile_append_of_pos hother]
  rfl

/-- The colon inside a text. -/
theorem readsAs_gap {stored : Option Value} {before text : Bytes} (hbefore : 58 ∉ before)
    (hcolon : 58 ∈ text) (hquote : 34 ∉ text) (behind : Bytes) :
    ReadsAs stored (some (before ++ (text ++ 34 :: behind))) ↔
      ShowsGap stored text (readString behind) := by
  obtain ⟨head, tail, rfl, hhead⟩ := List.eq_append_cons_of_mem hcolon
  have hquote' : 34 ∉ tail := fun h =>
    hquote (List.mem_append_right _ (List.mem_cons_of_mem _ h))
  have hsplit : before ++ ((head ++ 58 :: tail) ++ 34 :: behind) =
      (before ++ head) ++ 58 :: (tail ++ 34 :: behind) := by
    simp only [List.append_assoc, List.cons_append]
  have hfirst : 58 ∉ before ++ head := by
    rw [List.mem_append, not_or]
    exact ⟨hbefore, hhead⟩
  unfold ReadsAs ShowsGap
  rw [hsplit, Option.bind_some, Option.bind_some, stringBehind_colon hfirst,
    intBehind_colon hfirst, find_letter hquote', Option.bind_some, List.tail_cons,
    readInt_append_quote, afterColon_append hhead]
  exact and_congr eq_comm eq_comm

/-! ## Behind a colon -/

theorem restText_head (rest : List Member) : ∀ b ∈ (restText rest).head?, isDigit b = false := by
  intro b hb
  cases rest <;> · cases hb; rfl

/-- Behind a number, the string reader takes the next key. -/
theorem find_quote_restText (z : ℤ) (m : Member) (rest : List Member) :
    ∃ text, ((find [34] (signed z ++ restText (m :: rest))).bind fun start =>
      readString start.tail) = some text := by
  obtain ⟨text, htext⟩ := readString_escape m.key (58 :: (m.value.text ++ restText rest))
  refine ⟨text, ?_⟩
  have hsplit : signed z ++ restText (m :: rest) =
      (signed z ++ [44]) ++ 34 :: (escape m.key ++ (Spot.colon m rest).text) := by
    rw [← key_text, restText, List.append_assoc]
    rfl
  have hquote : 34 ∉ signed z ++ [44] := by
    rw [List.mem_append, not_or]
    exact ⟨notMem_signed z rfl (by decide), by decide⟩
  rw [hsplit, find_letter hquote, Option.bind_some, List.tail_cons]
  exact htext

theorem reads_value {stored : Option Value} {v : Value} (fits : v.Fits) (rest : List Member) :
    ((find [34] (v.text ++ restText rest)).bind fun start => readString start.tail) =
          stringOf stored ∧
        (readInt (v.text ++ restText rest)).map Int32.toInt = intOf stored ↔
      ShowsValue stored v rest := by
  cases v with
  | string text =>
    have hplain : ∀ b ∈ text, b ≠ 34 ∧ b ≠ 92 := fun b hb => (fits b hb).2
    have hfind := @find_letter _ _ 34 [] List.not_mem_nil (text ++ (Spot.comma rest).text)
    rw [List.nil_append] at hfind
    rw [string_text fits, value_text fits, hfind, Option.bind_some, List.tail_cons,
      readInt_quote, Option.map_none, Spot.text, readString_plain hplain]
    exact stored_string
  | int n =>
    have hint : (readInt ((Value.int n).text ++ restText rest)).map Int32.toInt = some n :=
      readInt_signed fits (restText_head rest)
    rw [hint]
    cases rest with
    | nil =>
      have hquote : 34 ∉ signed n ++ [125] := by
        rw [List.mem_append, not_or]
        exact ⟨notMem_signed n rfl (by decide), by decide⟩
      rw [Value.text, restText, find_none hquote, Option.bind_none, stored_int]
      exact (and_iff_left rfl).symm
    | cons m rest =>
      obtain ⟨text, htext⟩ := find_quote_restText n m rest
      rw [Value.text, htext]
      refine iff_of_false (fun h => not_stored_both h.1 h.2) ?_
      exact fun h => absurd h.2 (List.cons_ne_nil m rest)

/-! ## At a spot -/

theorem readString_restText (rest : List Member) :
    readString (restText rest) = gapBehindString rest := by
  cases rest with
  | nil => rfl
  | cons m rest =>
    have hplain : ∀ b ∈ ([44] : Bytes), b ≠ 34 ∧ b ≠ 92 :=
      List.forall_mem_singleton.mpr (by decide)
    have h := readString_plain hplain (escape m.key ++ (Spot.colon m rest).text)
    rw [restText, ← Spot.text, key_text]
    exact h

theorem readString_behindKey {v : Value} (fits : v.Fits) (rest : List Member) :
    readString (58 :: (v.text ++ restText rest)) = gapBehindKey v rest := by
  cases v with
  | string text =>
    have hplain : ∀ b ∈ ([58] : Bytes), b ≠ 34 ∧ b ≠ 92 :=
      List.forall_mem_singleton.mpr (by decide)
    rw [string_text fits, value_text fits]
    exact readString_plain hplain _
  | int n =>
    cases rest with
    | nil =>
      have hquote : (34 : UInt8) ∉ (58 :: signed n) ++ [125] := by
        rw [List.mem_append, not_or]
        exact ⟨List.not_mem_cons_of_ne_of_not_mem (by decide) (notMem_signed n rfl (by decide)),
          by decide⟩
      exact readString_unclosed hquote
    | cons m rest =>
      have hplain : ∀ b ∈ (58 :: (signed n ++ [44]) : Bytes), b ≠ 34 ∧ b ≠ 92 := by
        intro b hb
        have hother : ∀ c : UInt8, isDigit c = false → c ∉ [58, 45, 44] →
            c ∉ 58 :: (signed n ++ [44]) := by
          intro c hdigit hc
          simp only [List.mem_cons, List.not_mem_nil, or_false, not_or] at hc
          rw [List.mem_cons, List.mem_append, List.mem_singleton, not_or, not_or]
          exact ⟨hc.1, notMem_signed n hdigit hc.2.1, hc.2.2⟩
        exact ⟨fun h => hother 34 rfl (by decide) (h ▸ hb),
          fun h => hother 92 rfl (by decide) (h ▸ hb)⟩
      have h := readString_plain hplain (escape m.key ++ (Spot.colon m rest).text)
      have hsplit : 58 :: ((Value.int n).text ++ restText (m :: rest)) =
          58 :: (signed n ++ [44]) ++ 34 :: (escape m.key ++ (Spot.colon m rest).text) := by
        rw [← key_text, List.cons_append, List.append_assoc]
        rfl
      rw [hsplit]
      exact h

theorem colon_notMem_quoted {text : Bytes} (hcolon : 58 ∉ text) : 58 ∉ quoted text := by
  refine List.not_mem_cons_of_ne_of_not_mem (by decide) ?_
  rw [List.mem_append, not_or]
  exact ⟨hcolon, by decide⟩

/-- The next thing is a member. -/
theorem readsAs_member {stored : Option Value} {before : Bytes} (hbefore : 58 ∉ before)
    (m : Member) (rest : List Member) :
    ReadsAs stored (some (before ++ (m.text ++ restText rest))) ↔ ShowsMember stored m rest := by
  unfold ShowsMember
  split
  · next hcolon =>
    have hsplit : before ++ (m.text ++ restText rest) =
        (before ++ [34]) ++ (escape m.key ++ 34 :: 58 :: (m.value.text ++ restText rest)) := by
      rw [List.append_assoc]
      exact congrArg (before ++ ·) (key_text m rest)
    have hfirst : 58 ∉ before ++ [34] := by
      rw [List.mem_append, not_or]
      exact ⟨hbefore, by decide⟩
    rw [hsplit, readsAs_gap hfirst (colon_mem_escape.mpr hcolon) (quote_notMem_key m),
      readString_behindKey m.fits]
  · next hcolon =>
    have hsplit : before ++ (m.text ++ restText rest) =
        (before ++ quoted (escape m.key)) ++ 58 :: (m.value.text ++ restText rest) := by
      rw [Member.text, List.append_assoc, List.append_assoc]
      rfl
    have hfirst : 58 ∉ before ++ quoted (escape m.key) := by
      rw [List.mem_append, not_or]
      exact ⟨hbefore, colon_notMem_quoted fun h => hcolon (colon_mem_escape.mp h)⟩
    rw [hsplit, ReadsAs, Option.bind_some, Option.bind_some, stringBehind_colon hfirst,
      intBehind_colon hfirst]
    exact reads_value m.fits rest

theorem readsAs_next {stored : Option Value} {before : Bytes} (hbefore : 58 ∉ before)
    (rest : List Member) :
    ReadsAs stored (some (before ++ restText rest)) ↔ ShowsNext stored rest := by
  cases rest with
  | nil =>
    have hnone : find [58] (before ++ [125]) = none := by
      refine find_none ?_ _
      rw [List.mem_append, not_or]
      exact ⟨hbefore, by decide⟩
    have hstring : stringBehind (before ++ [125]) = none := by
      rw [stringBehind, hnone]
      rfl
    have hint : intBehind (before ++ [125]) = none := by
      rw [intBehind, hnone]
      rfl
    rw [ReadsAs, Option.bind_some, Option.bind_some, restText, hstring, hint]
    exact stored_none
  | cons m rest =>
    have hsplit : before ++ restText (m :: rest) =
        (before ++ [44]) ++ (m.text ++ restText rest) := by
      rw [restText, List.append_assoc]
      rfl
    have hfirst : 58 ∉ before ++ [44] := by
      rw [List.mem_append, not_or]
      exact ⟨hbefore, by decide⟩
    rw [hsplit]
    exact readsAs_member hfirst m rest

/-- What the readers return at a quote. -/
theorem readsAs_spot (stored : Option Value) (spot : Spot) :
    ReadsAs stored (some spot.text) ↔ spot.Shows stored := by
  cases spot with
  | key m rest => exact readsAs_member List.not_mem_nil m rest
  | colon m rest =>
    have hfirst : (58 : UInt8) ∉ [34] := by decide
    have hstring := stringBehind_colon hfirst (m.value.text ++ restText rest)
    have hint := intBehind_colon hfirst (m.value.text ++ restText rest)
    rw [List.singleton_append] at hstring hint
    rw [ReadsAs, Option.bind_some, Option.bind_some, Spot.text, hstring, hint]
    exact reads_value m.fits rest
  | value text fits rest =>
    have hquote := quote_notMem_string fits
    by_cases hcolon : 58 ∈ text
    · have h := @readsAs_gap stored [34] _ (by decide) hcolon hquote (restText rest)
      rw [readString_restText] at h
      rw [value_text, Spot.Shows, if_pos hcolon]
      exact h
    · rw [Spot.Shows, if_neg hcolon]
      exact readsAs_next (colon_notMem_quoted hcolon) rest
  | comma rest => exact @readsAs_next stored [34] (by decide) rest

/-- Field extraction agrees with the object exactly when what stands where the key is
first spelled is what the key stores. -/
theorem fields_agree_iff (o : FlatObject) (k : Bytes) : Agrees o k ↔ Holds o k := by
  have hagrees : Agrees o k ↔
      ReadsAs (o.stored k) ((firstSpot k o.members).map Spot.text) := by
    rw [← find_text]
    rfl
  rw [hagrees, Holds]
  cases firstSpot k o.members with
  | none => exact readsAs_none
  | some spot => exact readsAs_spot (o.stored k) spot

/-! ## A title that spells a key -/

theorem plain_of_all {text : Bytes} (h : text.all (fun b => b != 34 && b != 92) = true) :
    ∀ b ∈ text, b ≠ 34 ∧ b ≠ 92 := by
  intro b hb
  have hbyte := List.all_eq_true.mp h b hb
  rwa [Bool.and_eq_true, bne_iff_ne, bne_iff_ne] at hbyte

theorem fits_of_all {text : Bytes}
    (h : text.all (fun b => decide (32 ≤ b) && (b != 34 && b != 92)) = true) :
    (Value.string text).Fits := by
  intro b hb
  have hbyte := List.all_eq_true.mp h b hb
  rwa [Bool.and_eq_true, decide_eq_true_eq, Bool.and_eq_true, bne_iff_ne, bne_iff_ne] at hbyte

/-- A request for a book whose title is the name of a field. -/
def createBody : FlatObject where
  members := [
    ⟨ascii "title", .string (ascii "price_cents"), plain_of_all (by decide +kernel),
      fits_of_all (by decide +kernel)⟩,
    ⟨ascii "author", .string (ascii "Bloch"), plain_of_all (by decide +kernel),
      fits_of_all (by decide +kernel)⟩,
    ⟨ascii "price_cents", .int 100, plain_of_all (by decide +kernel), ⟨by decide, by decide⟩⟩]
  distinct := by decide +kernel

/-- The price is not found. -/
theorem price_hidden : ¬ Agrees createBody (ascii "price_cents") := by
  intro h
  have hfound : (jsonIntValue createBody.text (ascii "price_cents")).map Int32.toInt = none := by
    decide +kernel
  have hstored : intOf (createBody.stored (ascii "price_cents")) = some 100 := by decide +kernel
  have hsame := h.2
  rw [hfound, hstored] at hsame
  cases hsame

end Bookstore.FieldAgreement
