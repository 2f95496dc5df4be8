import Bookstore.JsonIntegers
import Bookstore.Records

/-!
The loop of `json_order_items`. All it sees of a body are the quoted words
`book_id` and `quantity`, wherever they stand, each with the integer that is written
behind the next colon: it cuts this sequence into pieces and takes a pair from each.
-/
namespace Bookstore.OrderMarks

open HttpTypes Records TextSearch JsonFields FieldAgreement JsonIntegers

/-! ## The loop -/

theorem tail_shorter {k q pos bookKey quantityKey : Bytes}
    (hbook : find (quoted k) pos = some bookKey)
    (hquantity : find (quoted q) bookKey = some quantityKey) :
    quantityKey.tail.length < pos.length := by
  obtain ⟨before, rfl⟩ := exists_append_of_find hbook
  obtain ⟨between, rfl⟩ := exists_append_of_find hquantity
  have hself := find_self hquantity
  cases quantityKey with
  | nil => cases hself
  | cons b rest =>
    simp only [List.length_append, List.length_cons, List.tail_cons]
    omega

/-- `json_order_items` from a position on. -/
def jsonOrderItemsFrom (pos : Bytes) : List OrderItemRequest :=
  match _ : find (quoted (ascii "book_id")) pos with
  | none => []
  | some bookKey =>
    match _ : find (quoted (ascii "quantity")) bookKey with
    | none => []
    | some quantityKey =>
      match jsonIntValueFrom bookKey (ascii "book_id") 0,
        jsonIntValueFrom quantityKey (ascii "quantity") 0 with
      | some bookId, some quantity => ⟨bookId, quantity⟩ :: jsonOrderItemsFrom quantityKey.tail
      | _, _ => []
termination_by pos.length
decreasing_by exact tail_shorter ‹_› ‹_›

def jsonOrderItems (body : Bytes) : List OrderItemRequest := jsonOrderItemsFrom body

/-! ## Marks -/

inductive Word
  | book
  | quantity
deriving DecidableEq

def Word.text : Word → Bytes
  | .book => ascii "book_id"
  | .quantity => ascii "quantity"

/-- A quoted word, and the integer that is written behind the next colon. -/
structure Mark where
  word : Word
  value : Option ℤ
deriving DecidableEq

/-- The integer behind the next colon. -/
def writtenBehind (text : Bytes) : Option ℤ := written (afterColon text)

def markAt (text : Bytes) : Option Mark :=
  if (quoted Word.book.text).isPrefixOf text then some ⟨.book, writtenBehind text⟩
  else if (quoted Word.quantity.text).isPrefixOf text then some ⟨.quantity, writtenBehind text⟩
  else none

/-- The quoted words of a text, in order. -/
def marks : Bytes → List Mark
  | [] => []
  | b :: rest => (markAt (b :: rest)).toList ++ marks rest

/-- What the loop takes one pair from: up to the first `book_id` and from there up to the
first `quantity`, with two integers behind them. -/
def Piece (bookId quantity : ℤ) (piece : List Mark) : Prop :=
  ∃ before between, (∀ m ∈ before, m.word ≠ .book) ∧ (∀ m ∈ between, m.word ≠ .quantity) ∧
    piece = before ++ ⟨.book, some bookId⟩ :: (between ++ [⟨.quantity, some quantity⟩])

/-- No pair comes next: a word is missing, or no integer stands behind it. -/
def Stuck (rest : List Mark) : Prop :=
  ∀ bookId quantity piece more, Piece bookId quantity piece → rest ≠ piece ++ more

/-- The pair that is taken from a piece. -/
def TakenOff (item : OrderItemRequest) (piece : List Mark) : Prop :=
  ∃ bookId quantity, Piece bookId quantity piece ∧
    item = ⟨Int32.ofInt bookId, Int32.ofInt quantity⟩

theorem markAt_word (w : Word) {text : Bytes} (h : (quoted w.text).isPrefixOf text = true) :
    markAt text = some ⟨w, writtenBehind text⟩ := by
  cases w with
  | book => rw [markAt, if_pos h]
  | quantity =>
    have hother : (quoted Word.book.text).isPrefixOf text = false := by
      obtain ⟨rest, rfl⟩ := List.isPrefixOf_iff_prefix.mp h
      rfl
    rw [markAt, if_neg (by rw [hother]; exact Bool.false_ne_true), if_pos h]

theorem markAt_other (w : Word) {text : Bytes} (h : ¬ (quoted w.text).isPrefixOf text = true) :
    ∀ m ∈ (markAt text).toList, m.word ≠ w := by
  intro m hm heq
  rw [Option.mem_toList] at hm
  unfold markAt at hm
  split at hm
  · next hbook =>
    cases hm
    exact h (heq ▸ hbook)
  split at hm
  · next hquantity =>
    cases hm
    exact h (heq ▸ hquantity)
  · cases hm

/-- A search that fails sees no mark of the word. -/
theorem marks_of_find_none (w : Word) {text : Bytes} (h : find (quoted w.text) text = none) :
    ∀ m ∈ marks text, m.word ≠ w := by
  induction text with
  | nil => exact fun m hm => absurd hm List.not_mem_nil
  | cons b rest ih =>
    rw [find_cons] at h
    split at h
    · cases h
    · next hmiss =>
      rw [marks, List.forall_mem_append]
      exact ⟨markAt_other w hmiss, ih h⟩

/-- A search that succeeds ends at the first mark of the word. -/
theorem marks_of_find_some (w : Word) {text found : Bytes}
    (h : find (quoted w.text) text = some found) :
    ∃ before, (∀ m ∈ before, m.word ≠ w) ∧ marks text = before ++ marks found ∧
      marks found = ⟨w, writtenBehind found⟩ :: marks found.tail := by
  induction text with
  | nil => cases h
  | cons b rest ih =>
    rw [find_cons] at h
    split at h
    · next hhere =>
      obtain rfl := Option.some.inj h
      refine ⟨[], fun m hm => absurd hm List.not_mem_nil, rfl, ?_⟩
      rw [marks, markAt_word w hhere]
      rfl
    · next hmiss =>
      obtain ⟨before, hbefore, hmarks, hfound⟩ := ih h
      refine ⟨(markAt (b :: rest)).toList ++ before, ?_, ?_, hfound⟩
      · rw [List.forall_mem_append]
        exact ⟨markAt_other w hmiss, hbefore⟩
      · rw [marks, hmarks, List.append_assoc]

/-! ## Cutting a list -/

/-- A list is cut in one way in front of the first element of a kind. -/
theorem split_unique {α : Type} {p : α → Prop} {before before' rest rest' : List α} {a a' : α}
    (hbefore : ∀ b ∈ before, ¬ p b) (hbefore' : ∀ b ∈ before', ¬ p b) (ha : p a) (ha' : p a')
    (h : before ++ a :: rest = before' ++ a' :: rest') :
    before = before' ∧ a = a' ∧ rest = rest' := by
  induction before generalizing before' with
  | nil =>
    cases before' with
    | nil =>
      obtain ⟨hhead, htail⟩ := List.cons.inj h
      exact ⟨rfl, hhead, htail⟩
    | cons b more =>
      obtain ⟨hhead, -⟩ := List.cons.inj h
      exact absurd ha (hhead ▸ hbefore' b List.mem_cons_self)
  | cons b before ih =>
    cases before' with
    | nil =>
      obtain ⟨hhead, -⟩ := List.cons.inj h
      exact absurd ha' (hhead ▸ hbefore b List.mem_cons_self)
    | cons b' before' =>
      obtain ⟨rfl, htail⟩ := List.cons.inj h
      obtain ⟨rfl, hrest⟩ := ih (fun c hc => hbefore c (List.mem_cons_of_mem _ hc))
        (fun c hc => hbefore' c (List.mem_cons_of_mem _ hc)) htail
      exact ⟨rfl, hrest⟩

theorem Piece.unique {bookId quantity bookId' quantity' : ℤ} {piece piece' rest rest' : List Mark}
    (h : Piece bookId quantity piece) (h' : Piece bookId' quantity' piece')
    (heq : piece ++ rest = piece' ++ rest') :
    bookId = bookId' ∧ quantity = quantity' ∧ piece = piece' ∧ rest = rest' := by
  obtain ⟨before, between, hbefore, hbetween, rfl⟩ := h
  obtain ⟨before', between', hbefore', hbetween', rfl⟩ := h'
  simp only [List.append_assoc, List.cons_append, List.nil_append] at heq
  obtain ⟨rfl, hbook, hrest⟩ := split_unique (p := (·.word = .book)) hbefore hbefore' rfl rfl heq
  obtain ⟨rfl, hquantity, rfl⟩ :=
    split_unique (p := (·.word = .quantity)) hbetween hbetween' rfl rfl hrest
  cases hbook
  cases hquantity
  exact ⟨rfl, rfl, rfl, rfl⟩

theorem TakenOff.unique {item item' : OrderItemRequest} {piece piece' rest rest' : List Mark}
    (h : TakenOff item piece) (h' : TakenOff item' piece') (heq : piece ++ rest = piece' ++ rest') :
    item = item' ∧ rest = rest' := by
  obtain ⟨bookId, quantity, hpiece, rfl⟩ := h
  obtain ⟨bookId', quantity', hpiece', rfl⟩ := h'
  obtain ⟨rfl, rfl, -, hrest⟩ := hpiece.unique hpiece' heq
  exact ⟨rfl, hrest⟩

theorem Piece.two_le {bookId quantity : ℤ} {piece : List Mark} (h : Piece bookId quantity piece) :
    2 ≤ piece.length := by
  obtain ⟨before, between, -, -, rfl⟩ := h
  simp only [List.length_append, List.length_cons]
  omega

/-- The shortest piece is the two marks alone. -/
theorem Piece.eq_of_length {bookId quantity : ℤ} {piece : List Mark}
    (h : Piece bookId quantity piece) (hlength : piece.length ≤ 2) :
    piece = [⟨.book, some bookId⟩, ⟨.quantity, some quantity⟩] := by
  obtain ⟨before, between, -, -, rfl⟩ := h
  simp only [List.length_append, List.length_cons, List.length_nil] at hlength
  obtain rfl : before = [] := List.eq_nil_of_length_eq_zero (by omega)
  obtain rfl : between = [] := List.eq_nil_of_length_eq_zero (by omega)
  rfl

theorem stuck_nil : Stuck [] := by
  intro bookId quantity piece more hpiece h
  have hpos := hpiece.two_le
  have hlength := congrArg List.length h
  simp only [List.length_append, List.length_nil] at hlength
  omega

/-- Without a first pair there is no `book_id`, or no integer or no `quantity` behind it. -/
theorem stuck_of_no_book {rest : List Mark} (h : ∀ m ∈ rest, m.word ≠ .book) : Stuck rest := by
  rintro bookId quantity piece more ⟨before, between, -, -, rfl⟩ rfl
  exact h ⟨.book, some bookId⟩ (by simp) rfl

theorem stuck_of_no_quantity {before rest : List Mark} {value : Option ℤ}
    (hbefore : ∀ m ∈ before, m.word ≠ .book) (h : ∀ m ∈ rest, m.word ≠ .quantity) :
    Stuck (before ++ ⟨.book, value⟩ :: rest) := by
  rintro bookId quantity piece more ⟨before', between, hbefore', -, rfl⟩ heq
  simp only [List.append_assoc, List.cons_append, List.nil_append] at heq
  obtain ⟨-, -, rfl⟩ := split_unique (p := (·.word = .book)) hbefore hbefore' rfl rfl heq
  exact h ⟨.quantity, some quantity⟩ (by simp) rfl

theorem stuck_of_value {before between rest : List Mark} {bookId quantity : Option ℤ}
    (hbefore : ∀ m ∈ before, m.word ≠ .book) (hbetween : ∀ m ∈ between, m.word ≠ .quantity)
    (h : bookId = none ∨ quantity = none) :
    Stuck (before ++ ⟨.book, bookId⟩ :: (between ++ ⟨.quantity, quantity⟩ :: rest)) := by
  rintro bookId' quantity' piece more ⟨before', between', hbefore', hbetween', rfl⟩ heq
  simp only [List.append_assoc, List.cons_append, List.nil_append] at heq
  obtain ⟨-, hbook, hrest⟩ := split_unique (p := (·.word = .book)) hbefore hbefore' rfl rfl heq
  obtain ⟨-, hquantity, -⟩ :=
    split_unique (p := (·.word = .quantity)) hbetween hbetween' rfl rfl hrest
  cases hbook
  cases hquantity
  rcases h with h | h <;> cases h

/-! ## What the loop reads -/

theorem jsonIntValueFrom_found {k text found : Bytes} (h : find (quoted k) text = some found) :
    jsonIntValueFrom found k 0 = (writtenBehind found).map Int32.ofInt := by
  rw [jsonIntValueFrom, List.drop_zero, find_self h, Option.bind_some, intBehind_eq_written]
  rfl

/-- One turn: a piece of the marks is taken off, or the loop ends with none to take. -/
theorem jsonOrderItemsFrom_cases (pos : Bytes) :
    (Stuck (marks pos) ∧ jsonOrderItemsFrom pos = []) ∨
      ∃ item piece next, TakenOff item piece ∧ marks pos = piece ++ marks next ∧
        next.length < pos.length ∧ jsonOrderItemsFrom pos = item :: jsonOrderItemsFrom next := by
  rw [jsonOrderItemsFrom]
  split
  · next hbook => exact .inl ⟨stuck_of_no_book (marks_of_find_none .book hbook), rfl⟩
  next bookKey hbook =>
  obtain ⟨before, hbefore, hpos, hkey⟩ := marks_of_find_some .book hbook
  split
  · next hquantity =>
    have hnone := marks_of_find_none .quantity hquantity
    rw [hpos, hkey]
    rw [hkey] at hnone
    exact .inl ⟨stuck_of_no_quantity hbefore (List.forall_mem_cons.mp hnone).2, rfl⟩
  next quantityKey hquantity =>
  obtain ⟨between, hbetween, hmiddle, hend⟩ := marks_of_find_some .quantity hquantity
  -- the mark of the book is the first of those up to the quantity
  obtain ⟨first, hfirst⟩ : ∃ more, between = ⟨.book, writtenBehind bookKey⟩ :: more := by
    rw [hkey, hend] at hmiddle
    cases between with
    | nil => cases (List.cons.inj hmiddle).1
    | cons m more => exact ⟨more, by rw [(List.cons.inj hmiddle).1]⟩
  have hbetween' : ∀ m ∈ first, m.word ≠ .quantity := by
    rw [hfirst] at hbetween
    exact (List.forall_mem_cons.mp hbetween).2
  have hmarks : marks pos = before ++ ⟨.book, writtenBehind bookKey⟩ ::
      (first ++ ⟨.quantity, writtenBehind quantityKey⟩ :: marks quantityKey.tail) := by
    rw [hpos, hmiddle, hend, hfirst]
    rfl
  rw [jsonIntValueFrom_found hbook, jsonIntValueFrom_found hquantity, hmarks]
  cases hbookId : writtenBehind bookKey with
  | none => exact .inl ⟨stuck_of_value hbefore hbetween' (.inl rfl), rfl⟩
  | some bookId =>
    cases hvalue : writtenBehind quantityKey with
    | none => exact .inl ⟨stuck_of_value hbefore hbetween' (.inr rfl), rfl⟩
    | some quantity =>
      refine .inr ⟨⟨Int32.ofInt bookId, Int32.ofInt quantity⟩, _, quantityKey.tail,
        ⟨bookId, quantity, ⟨before, first, hbefore, hbetween', rfl⟩, rfl⟩, ?_,
        tail_shorter hbook hquantity, rfl⟩
      simp only [List.append_assoc, List.cons_append, List.nil_append]

/-- The pairs are taken from pieces that stand one behind the other from the start on,
up to where no further one stands. -/
theorem jsonOrderItems_iff (body : Bytes) (items : List OrderItemRequest) :
    jsonOrderItems body = items ↔
      ∃ pieces rest, List.Forall₂ TakenOff items pieces ∧ marks body = pieces.flatten ++ rest ∧
        Stuck rest := by
  unfold jsonOrderItems
  induction hn : body.length using Nat.strongRecOn generalizing body items with
  | _ n ih =>
    rcases jsonOrderItemsFrom_cases body with ⟨hstuck, hitems⟩ |
      ⟨item, piece, next, hpiece, hmarks, hshorter, hitems⟩
    · rw [hitems]
      constructor
      · rintro rfl
        exact ⟨[], marks body, .nil, rfl, hstuck⟩
      · rintro ⟨pieces, rest, hpieces, heq, -⟩
        cases hpieces with
        | nil => rfl
        | cons hfirst _ =>
          rw [List.flatten_cons, List.append_assoc] at heq
          obtain ⟨_, _, hpiece, -⟩ := hfirst
          exact absurd heq (hstuck _ _ _ _ hpiece)
    · rw [hitems]
      constructor
      · rintro rfl
        obtain ⟨pieces, rest, hpieces, heq, hstuck⟩ :=
          (ih next.length (hn ▸ hshorter) next _ rfl).mp rfl
        refine ⟨piece :: pieces, rest, .cons hpiece hpieces, ?_, hstuck⟩
        rw [hmarks, heq, List.flatten_cons, List.append_assoc]
      · rintro ⟨pieces, rest, hpieces, heq, hstuck⟩
        rw [hmarks] at heq
        cases hpieces with
        | nil =>
          obtain ⟨_, _, hpair, -⟩ := hpiece
          exact absurd heq.symm (hstuck _ _ _ _ hpair)
        | @cons item' piece' items pieces hfirst hothers =>
          rw [List.flatten_cons, List.append_assoc] at heq
          obtain ⟨rfl, hnext⟩ := hpiece.unique hfirst heq
          rw [(ih next.length (hn ▸ hshorter) next items rfl).mpr
            ⟨pieces, rest, hothers, hnext, hstuck⟩]

end Bookstore.OrderMarks
