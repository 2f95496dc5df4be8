import Bookstore.JsonEscapes
import Bookstore.JsonGrammar
import Bookstore.Records

/-!
The texts of books and orders in responses, and the JSON values they stand for.
`escape_json_string` leaves control characters as they are, but for line breaks and
tabs, so that a text with another one is no JSON text.
-/
namespace Bookstore.JsonResponses

open HttpTypes Records Utf8 JsonGrammar JsonEscapes

/-! ## The writers -/

/-- `out << n` -/
def intText (n : Int32) : Bytes := ascii (toString n.toInt)

def stringText (s : String) : Bytes := escapeJsonString (ascii s)

def bookToJson (book : Book) : Bytes :=
  ascii "\x7b\"id\":" ++ intText book.id ++ ascii ",\"title\":\"" ++ stringText book.title ++
    ascii "\",\"author\":\"" ++ stringText book.author ++ ascii "\",\"price_cents\":" ++
    intText book.priceCents ++ ascii ",\"stock\":" ++ intText book.stock ++
    ascii ",\"status\":\"" ++ stringText book.status ++ ascii "\"\x7d"

def booksToJsonArray (books : List Book) : Bytes :=
  ascii "[" ++ List.intercalate (ascii ",") (books.map bookToJson) ++ ascii "]"

def itemToJson (item : OrderItem) : Bytes :=
  ascii "\x7b\"book_id\":" ++ intText item.bookId ++ ascii ",\"quantity\":" ++
    intText item.quantity ++ ascii ",\"unit_price_cents\":" ++ intText item.unitPriceCents ++
    ascii "\x7d"

def orderToJson (order : Order) : Bytes :=
  ascii "\x7b\"id\":" ++ intText order.id ++ ascii ",\"user_id\":" ++ intText order.userId ++
    ascii ",\"status\":\"" ++ stringText order.status ++ ascii "\",\"total_cents\":" ++
    intText order.totalCents ++ ascii ",\"items\":[" ++
    List.intercalate (ascii ",") (order.items.map itemToJson) ++ ascii "]\x7d"

/-! ## The values -/

def intValue (n : Int32) : Json := .number n.toInt

def stringValue (s : String) : Json := .string s.toList

def bookValue (book : Book) : Json :=
  .object [("id".toList, intValue book.id), ("title".toList, stringValue book.title),
    ("author".toList, stringValue book.author), ("price_cents".toList, intValue book.priceCents),
    ("stock".toList, intValue book.stock), ("status".toList, stringValue book.status)]

def itemValue (item : OrderItem) : Json :=
  .object [("book_id".toList, intValue item.bookId), ("quantity".toList, intValue item.quantity),
    ("unit_price_cents".toList, intValue item.unitPriceCents)]

def orderValue (order : Order) : Json :=
  .object [("id".toList, intValue order.id), ("user_id".toList, intValue order.userId),
    ("status".toList, stringValue order.status), ("total_cents".toList, intValue order.totalCents),
    ("items".toList, .array (order.items.map itemValue))]

/-- No control character but line breaks and tabs. -/
def Clean (s : String) : Prop := ∀ c ∈ s.toList, Printed c

structure CleanBook (book : Book) : Prop where
  title : Clean book.title
  author : Clean book.author
  status : Clean book.status

/-! ## Characters -/

def escapeChar (c : Char) : List Char :=
  if c = '\\' then ['\\', '\\']
  else if c = '"' then ['\\', '"']
  else if c = '\n' then ['\\', 'n']
  else if c = '\r' then ['\\', 'r']
  else if c = '\t' then ['\\', 't']
  else [c]

def escapeChars (text : List Char) : List Char := text.flatMap escapeChar

def escaped : List Char := ['\\', '"', '\n', '\r', '\t']

theorem escapeChar_self {c : Char} (h : c ∉ escaped) : escapeChar c = [c] := by
  simp only [escaped, List.mem_cons, List.not_mem_nil, or_false, not_or] at h
  obtain ⟨hslash, hquote, hfeed, hreturn, htab⟩ := h
  rw [escapeChar, if_neg hslash, if_neg hquote, if_neg hfeed, if_neg hreturn, if_neg htab]

theorem escaped_facts {c : Char} (h : c ∈ escaped) : c.toNat ≤ 127 ∧ Printed c := by
  simp only [escaped, List.mem_cons, List.not_mem_nil, or_false] at h
  obtain rfl | rfl | rfl | rfl | rfl := h
  · exact ⟨by decide, .inl (by decide)⟩
  · exact ⟨by decide, .inl (by decide)⟩
  · exact ⟨by decide, .inr (.inr (.inr (.inl rfl)))⟩
  · exact ⟨by decide, .inr (.inr (.inr (.inr rfl)))⟩
  · exact ⟨by decide, .inr (.inr (.inl rfl))⟩

theorem escapeJsonString_append (s t : Bytes) :
    escapeJsonString (s ++ t) = escapeJsonString s ++ escapeJsonString t := List.flatMap_append

theorem escapeJsonByte_high {b : UInt8} (hb : 128 ≤ b.toNat) : escapeJsonByte b = [b] := by
  have hne (c : UInt8) (hc : c.toNat < 128) : b ≠ c := by
    intro h
    rw [h] at hb
    omega
  rw [escapeJsonByte, if_neg (hne 92 (by decide)), if_neg (hne 34 (by decide)),
    if_neg (hne 10 (by decide)), if_neg (hne 13 (by decide)), if_neg (hne 9 (by decide))]

theorem escapeJsonString_high {s : Bytes} (hs : ∀ b ∈ s, 128 ≤ b.toNat) :
    escapeJsonString s = s := by
  induction s with
  | nil => rfl
  | cons b s ih =>
    obtain ⟨hb, hrest⟩ := List.forall_mem_cons.mp hs
    have htail : s.flatMap escapeJsonByte = s := ih hrest
    rw [escapeJsonString, List.flatMap_cons, escapeJsonByte_high hb, htail]
    rfl

/-- The switch looks at the same five characters, as bytes. -/
theorem escapeJsonByte_char {c : Char} (hc : c.toNat ≤ 127) :
    escapeJsonByte (UInt8.ofNat c.toNat) = utf8 (escapeChar c) := by
  have hne (b : UInt8) {d : Char} (hd : b.toNat = d.toNat) (h : c ≠ d) :
      UInt8.ofNat c.toNat ≠ b := by
    intro heq
    have hnat := congrArg UInt8.toNat heq
    rw [toNat_ofNat_of_le hc, hd] at hnat
    exact h (Char.toNat_inj.mp hnat)
  by_cases hslash : c = '\\'
  · subst hslash
    rfl
  by_cases hquote : c = '"'
  · subst hquote
    rfl
  by_cases hfeed : c = '\n'
  · subst hfeed
    rfl
  by_cases hreturn : c = '\r'
  · subst hreturn
    rfl
  by_cases htab : c = '\t'
  · subst htab
    rfl
  have hbyte : escapeJsonByte (UInt8.ofNat c.toNat) = [UInt8.ofNat c.toNat] := by
    rw [escapeJsonByte, if_neg (hne 92 rfl hslash), if_neg (hne 34 rfl hquote),
      if_neg (hne 10 rfl hfeed), if_neg (hne 13 rfl hreturn), if_neg (hne 9 rfl htab)]
  have hself : escapeChar c = [c] := escapeChar_self (by
    simp only [escaped, List.mem_cons, List.not_mem_nil, or_false, not_or]
    exact ⟨hslash, hquote, hfeed, hreturn, htab⟩)
  rw [hbyte, hself, utf8_cons, encode_of_le hc, utf8_nil, List.append_nil]

theorem escapeJsonString_utf8 (text : List Char) :
    escapeJsonString (utf8 text) = utf8 (escapeChars text) := by
  induction text with
  | nil => rfl
  | cons c text ih =>
    have hchar : escapeJsonString (String.utf8EncodeChar c) = utf8 (escapeChar c) := by
      by_cases hc : c.toNat ≤ 127
      · rw [encode_of_le hc, ← escapeJsonByte_char hc]
        exact List.append_nil _
      · have hself := escapeChar_self fun hmem => hc (escaped_facts hmem).1
        rw [escapeJsonString_high fun b hb => encode_high (Nat.lt_of_not_le hc) hb, hself,
          utf8_cons, utf8_nil, List.append_nil]
    rw [utf8_cons, escapeJsonString_append, hchar, ih, ← utf8_append]
    rfl

/-- An escaped text denotes the text. -/
theorem chars_escapeChars {text : List Char} (h : ∀ c ∈ text, Printed c) :
    Chars (escapeChars text) text := by
  induction text with
  | nil => exact .nil
  | cons c text ih =>
    obtain ⟨hc, hrest⟩ := List.forall_mem_cons.mp h
    have hih := ih hrest
    rw [escapeChars, List.flatMap_cons]
    change Chars (escapeChar c ++ escapeChars text) (c :: text)
    unfold escapeChar
    split
    · next hslash =>
      subst hslash
      exact .escaped .backslash hih
    split
    · next hquote =>
      subst hquote
      exact .escaped .quote hih
    split
    · next hfeed =>
      subst hfeed
      exact .escaped .lineFeed hih
    split
    · next hreturn =>
      subst hreturn
      exact .escaped .carriageReturn hih
    split
    · next htab =>
      subst htab
      exact .escaped .tab hih
    · next hslash hquote hfeed hreturn htab =>
      have hlow : 0x20 ≤ c.toNat := by
        rcases hc with hlow | rfl | htab' | hfeed' | hreturn'
        · exact hlow
        · decide
        · exact absurd htab' htab
        · exact absurd hfeed' hfeed
        · exact absurd hreturn' hreturn
      exact .unescaped hlow hquote hslash hih

/-! ## Texts -/

def intChars (n : Int32) : List Char := (toString n.toInt).toList

def stringChars (s : String) : List Char := '"' :: (escapeChars s.toList ++ ['"'])

def bookChars (book : Book) : List Char :=
  objectText [("id".toList, intChars book.id), ("title".toList, stringChars book.title),
    ("author".toList, stringChars book.author), ("price_cents".toList, intChars book.priceCents),
    ("stock".toList, intChars book.stock), ("status".toList, stringChars book.status)]

def itemChars (item : OrderItem) : List Char :=
  objectText [("book_id".toList, intChars item.bookId), ("quantity".toList, intChars item.quantity),
    ("unit_price_cents".toList, intChars item.unitPriceCents)]

def orderChars (order : Order) : List Char :=
  objectText [("id".toList, intChars order.id), ("user_id".toList, intChars order.userId),
    ("status".toList, stringChars order.status), ("total_cents".toList, intChars order.totalCents),
    ("items".toList, arrayText (order.items.map itemChars))]

theorem intText_eq (n : Int32) : intText n = utf8 (intChars n) := toUTF8_eq _

theorem stringText_eq (s : String) : stringText s = utf8 (escapeChars s.toList) := by
  rw [stringText, ascii, toUTF8_eq, escapeJsonString_utf8]

theorem bookToJson_eq (book : Book) : bookToJson book = utf8 (bookChars book) := by
  simp only [bookToJson, ascii, toUTF8_eq, intText_eq, stringText_eq, ← utf8_append]
  refine congrArg utf8 ?_
  simp only [bookChars, objectText, memberText, stringChars, List.map_cons, List.map_nil,
    List.intercalate_cons_cons, List.intercalate_singleton, List.append_assoc, List.cons_append,
    List.nil_append]
  rfl

theorem itemToJson_eq (item : OrderItem) : itemToJson item = utf8 (itemChars item) := by
  simp only [itemToJson, ascii, toUTF8_eq, intText_eq, ← utf8_append]
  refine congrArg utf8 ?_
  simp only [itemChars, objectText, memberText, List.map_cons, List.map_nil,
    List.intercalate_cons_cons, List.intercalate_singleton, List.append_assoc, List.cons_append,
    List.nil_append]
  rfl

/-- The loop over the elements of an array. -/
theorem intercalate_eq {α : Type} {toJson : α → Bytes} {chars : α → List Char}
    (h : ∀ a, toJson a = utf8 (chars a)) (l : List α) :
    List.intercalate (ascii ",") (l.map toJson) = utf8 (List.intercalate [','] (l.map chars)) := by
  rw [utf8_intercalate, List.map_map, funext h]
  rfl

theorem booksToJsonArray_eq (books : List Book) :
    booksToJsonArray books = utf8 (arrayText (books.map bookChars)) := by
  rw [booksToJsonArray, intercalate_eq bookToJson_eq]
  simp only [ascii, toUTF8_eq, ← utf8_append]
  exact congrArg utf8 (List.append_assoc _ _ _)

theorem orderToJson_eq (order : Order) : orderToJson order = utf8 (orderChars order) := by
  rw [orderToJson, intercalate_eq itemToJson_eq]
  simp only [ascii, toUTF8_eq, intText_eq, stringText_eq, ← utf8_append]
  refine congrArg utf8 ?_
  simp only [orderChars, arrayText, objectText, memberText, stringChars, List.map_cons,
    List.map_nil, List.intercalate_cons_cons, List.intercalate_singleton, List.append_assoc,
    List.cons_append, List.nil_append]
  rfl

/-! ## Derivations -/

/-- A name in a text of the program. -/
theorem chars_plain {name : List Char}
    (h : name.all (fun c => decide (0x20 ≤ c.toNat) && c != '"' && c != '\\') = true) :
    Chars name name := by
  induction name with
  | nil => exact .nil
  | cons c name ih =>
    obtain ⟨hc, hrest⟩ := Bool.and_eq_true_iff.mp h
    simp only [Bool.and_eq_true, decide_eq_true_eq, bne_iff_ne] at hc
    exact .unescaped hc.1.1 hc.1.2 hc.2 (ih hrest)

theorem derives_intChars (n : Int32) : Derives (intChars n) (.value (intValue n)) :=
  .number (number_toString n.toInt)

theorem derives_stringChars {s : String} (h : Clean s) :
    Derives (stringChars s) (.value (stringValue s)) := .string (chars_escapeChars h)

theorem derives_bookChars {book : Book} (h : CleanBook book) :
    Derives (bookChars book) (.value (bookValue book)) :=
  derives_objectText (.cons ⟨chars_plain rfl, derives_intChars _⟩
    (.cons ⟨chars_plain rfl, derives_stringChars h.title⟩
    (.cons ⟨chars_plain rfl, derives_stringChars h.author⟩
    (.cons ⟨chars_plain rfl, derives_intChars _⟩ (.cons ⟨chars_plain rfl, derives_intChars _⟩
    (.cons ⟨chars_plain rfl, derives_stringChars h.status⟩ .nil))))))

theorem derives_itemChars (item : OrderItem) :
    Derives (itemChars item) (.value (itemValue item)) :=
  derives_objectText (.cons ⟨chars_plain rfl, derives_intChars _⟩
    (.cons ⟨chars_plain rfl, derives_intChars _⟩
    (.cons ⟨chars_plain rfl, derives_intChars _⟩ .nil)))

/-- The texts of the elements, one by one. -/
theorem derives_each {α : Type} {chars : α → List Char} {value : α → Json} {l : List α}
    (h : ∀ a ∈ l, Derives (chars a) (.value (value a))) :
    List.Forall₂ (fun text v => Derives text (.value v)) (l.map chars) (l.map value) := by
  rw [List.forall₂_map_left_iff, List.forall₂_map_right_iff, List.forall₂_same]
  exact h

theorem derives_orderChars {order : Order} (h : Clean order.status) :
    Derives (orderChars order) (.value (orderValue order)) :=
  derives_objectText (.cons ⟨chars_plain rfl, derives_intChars _⟩
    (.cons ⟨chars_plain rfl, derives_intChars _⟩
    (.cons ⟨chars_plain rfl, derives_stringChars h⟩ (.cons ⟨chars_plain rfl, derives_intChars _⟩
    (.cons ⟨chars_plain rfl, derives_arrayText (derives_each fun item _ =>
      derives_itemChars item)⟩ .nil)))))

/-! ## Control characters -/

/-- Any other control character is written as it is. -/
theorem clean_of_stringText {s : String}
    (h : ∀ b ∈ stringText s, 32 ≤ b.toNat ∨ b = 9 ∨ b = 10 ∨ b = 13) : Clean s := by
  intro c hc
  by_contra hcontrol
  have hlow : c.toNat < 32 := by
    by_contra hnot
    exact hcontrol (.inl (Nat.le_of_not_lt hnot))
  have hle : c.toNat ≤ 127 := by omega
  have hself := escapeChar_self fun hmem => hcontrol (escaped_facts hmem).2
  have hmem : c ∈ escapeChars s.toList :=
    List.mem_flatMap.mpr ⟨c, hc, by rw [hself]; exact List.mem_singleton.mpr rfl⟩
  have hbyte := mem_utf8_of_mem hmem hle
  rw [← stringText_eq] at hbyte
  have hnat := toNat_ofNat_of_le hle
  have hchar (d : Char) (hd : Printed d) (hcode : c.toNat = d.toNat) : False :=
    hcontrol (Char.toNat_inj.mp hcode ▸ hd)
  rcases h _ hbyte with hhigh | htab | hfeed | hreturn
  · omega
  · rw [htab] at hnat
    exact hchar '\t' (.inr (.inr (.inl rfl))) hnat.symm
  · rw [hfeed] at hnat
    exact hchar '\n' (.inr (.inr (.inr (.inl rfl)))) hnat.symm
  · rw [hreturn] at hnat
    exact hchar '\r' (.inr (.inr (.inr (.inr rfl)))) hnat.symm

theorem cleanBook_of_decodes {book : Book} {v : Json} (h : Decodes (bookToJson book) v) :
    CleanBook book := by
  have hpart (s : String) (hs : ∀ b ∈ stringText s, b ∈ bookToJson book) : Clean s :=
    clean_of_stringText fun b hb => h.printed b (hs b hb)
  constructor
  all_goals
    refine hpart _ fun b hb => ?_
    simp only [bookToJson, List.mem_append]
    tauto

theorem clean_of_decodes {order : Order} {v : Json} (h : Decodes (orderToJson order) v) :
    Clean order.status := by
  refine clean_of_stringText fun b hb => h.printed b ?_
  simp only [orderToJson, List.mem_append]
  tauto

/-- Every response decodes exactly when no string has a control character but line
breaks and tabs. -/
theorem responses_decode_iff (books : List Book) (orders : List Order) :
    ((∀ book ∈ books, Decodes (bookToJson book) (bookValue book)) ∧
      Decodes (booksToJsonArray books) (.array (books.map bookValue)) ∧
      ∀ order ∈ orders, Decodes (orderToJson order) (orderValue order)) ↔
    (∀ book ∈ books, CleanBook book) ∧ ∀ order ∈ orders, Clean order.status := by
  constructor
  · rintro ⟨hbooks, -, horders⟩
    exact ⟨fun book hbook => cleanBook_of_decodes (hbooks book hbook),
      fun order horder => clean_of_decodes (horders order horder)⟩
  · rintro ⟨hbooks, horders⟩
    refine ⟨fun book hbook => ?_, ?_, fun order horder => ?_⟩
    · rw [bookToJson_eq]
      exact decodes_of_derives (derives_bookChars (hbooks book hbook))
    · rw [booksToJsonArray_eq]
      exact decodes_of_derives (derives_arrayText (derives_each fun book hbook =>
        derives_bookChars (hbooks book hbook)))
    · rw [orderToJson_eq]
      exact decodes_of_derives (derives_orderChars (horders order horder))

/-- A form feed in a title. -/
def formFeedBook : Book where
  id := 1
  title := "Dune\x0c"
  author := "Herbert"
  priceCents := 900
  stock := 3
  status := "active"

/-- One title makes the listing unreadable. -/
theorem form_feed_breaks : ¬ ∀ (books : List Book) (orders : List Order),
    (∀ book ∈ books, Decodes (bookToJson book) (bookValue book)) ∧
      Decodes (booksToJsonArray books) (.array (books.map bookValue)) ∧
      ∀ order ∈ orders, Decodes (orderToJson order) (orderValue order) := by
  intro h
  have hdecodes := (h [formFeedBook] []).1 formFeedBook (List.mem_singleton.mpr rfl)
  have hclean := (cleanBook_of_decodes hdecodes).title '\x0c' (by decide)
  rcases hclean with hlow | hblank | hblank | hblank | hblank
  · exact absurd hlow (by decide)
  all_goals exact absurd hblank (by decide)

end Bookstore.JsonResponses
