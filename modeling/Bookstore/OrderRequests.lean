import Bookstore.JsonResponses
import Bookstore.OrderMarks
import Mathlib.Algebra.Order.Group.Unbundled.Int

/-!
`handle_create_order` on the texts that the client sends. Every item shows its two
words in order, so that the pieces that the loop takes are the items.
-/
namespace Bookstore.OrderRequests

open HttpTypes RequestParser Records TextSearch Decimals JsonFields FieldAgreement JsonIntegers
open JsonResponses OrderMarks

/-! ## The handler -/

def invalidOrder : HttpResponse :=
  .json 400 (ascii "\x7b\"code\":400,\"message\":\"invalid order request\",\"data\":null\x7d")

/-- The answer to what `create_order` returns. -/
def orderReply : Option Order → HttpResponse
  | none => .json 409
      (ascii "\x7b\"code\":409,\"message\":\"insufficient stock or invalid order\",\"data\":null\x7d")
  | some order => .json 201 (ascii "\x7b\"code\":0,\"message\":\"ok\",\"data\":\x7b\"order\":" ++
      orderToJson order ++ ascii "\x7d\x7d")

def handleCreateOrder {m : Type → Type} [Monad m] (request : HttpRequest)
    (createOrder : Int32 → List OrderItemRequest → m (Option Order)) : m HttpResponse :=
  match jsonIntValue request.body (ascii "user_id"), jsonOrderItems request.body with
  | none, _ | _, [] => return invalidOrder
  | some userId, item :: items => do
    let order ← createOrder userId (item :: items)
    return orderReply order

/-- A client that notes what it is called with. -/
def noting (answer : Option Order) (userId : Int32) (items : List OrderItemRequest) :
    StateM (List (Int32 × List OrderItemRequest)) (Option Order) := do
  modify (· ++ [(userId, items)])
  return answer

/-- The calls of `create_order`, in order. -/
def calls (answer : Option Order) (request : HttpRequest) :
    List (Int32 × List OrderItemRequest) :=
  ((handleCreateOrder request (noting answer)).run []).2

/-- There is one call, with what the two readers return, or none. -/
theorem calls_eq (answer : Option Order) (request : HttpRequest) : calls answer request =
    if jsonOrderItems request.body = [] then []
    else ((jsonIntValue request.body (ascii "user_id")).map
      fun userId => (userId, jsonOrderItems request.body)).toList := by
  unfold calls handleCreateOrder
  cases jsonIntValue request.body (ascii "user_id") with
  | none => cases jsonOrderItems request.body <;> rfl
  | some userId => cases jsonOrderItems request.body <;> rfl

/-! ## Texts of the client -/

/-- `{book_id, quantity}` as `JSON.stringify` prints it. -/
def itemText (item : ℤ × ℤ) : Bytes :=
  ascii "\x7b\"book_id\":" ++ signed item.1 ++ ascii ",\"quantity\":" ++ signed item.2 ++
    ascii "\x7d"

/-- `{user_id, items}`. -/
def checkoutText (userId : ℤ) (items : List (ℤ × ℤ)) : Bytes :=
  ascii "\x7b\"user_id\":" ++ signed userId ++ ascii ",\"items\":[" ++
    List.intercalate (ascii ",") (items.map itemText) ++ ascii "]\x7d"

def InRange (z : ℤ) : Prop := |z| < 2 ^ 31

theorem InRange.toInt_ofInt {z : ℤ} (h : InRange z) : (Int32.ofInt z).toInt = z := by
  have hbounds := abs_lt.mp h
  exact Int32.toInt_ofInt_of_le (by omega) (by omega)

/-! ## Their marks -/

theorem marks_skip {stretch : Bytes} (h : 34 ∉ stretch) (text : Bytes) :
    marks (stretch ++ text) = marks text := by
  induction stretch with
  | nil => rfl
  | cons b stretch ih =>
    have hb : (34 == b) = false := beq_false_of_ne (List.ne_of_not_mem_cons h)
    have hmiss (w : Word) : ¬ (quoted w.text).isPrefixOf (b :: (stretch ++ text)) = true := by
      rw [quoted, List.isPrefixOf, hb, Bool.false_and]
      exact Bool.false_ne_true
    rw [List.cons_append, marks, markAt, if_neg (hmiss .book), if_neg (hmiss .quantity),
      Option.toList_none, List.nil_append]
    exact ih (List.not_mem_of_not_mem_cons h)

/-- A quote in front of another letter starts no word. -/
theorem marks_quote {c : UInt8} (hb : c ≠ 98) (hq : c ≠ 113) (text : Bytes) :
    marks (34 :: c :: text) = marks (c :: text) := by
  have hbook : (quoted Word.book.text).isPrefixOf (34 :: c :: text) = false := by
    show ((34 : UInt8) == 34 && ((98 == c) && _)) = false
    rw [beq_false_of_ne hb.symm, Bool.false_and, Bool.and_false]
  have hquantity : (quoted Word.quantity.text).isPrefixOf (34 :: c :: text) = false := by
    show ((34 : UInt8) == 34 && ((113 == c) && _)) = false
    rw [beq_false_of_ne hq.symm, Bool.false_and, Bool.and_false]
  rw [marks, markAt, hbook, hquantity, if_neg Bool.false_ne_true, if_neg Bool.false_ne_true]
  rfl

/-- A quoted key and the colon. -/
theorem marks_key {c : UInt8} {k : Bytes} (hb : c ≠ 98) (hq : c ≠ 113) (hk : 34 ∉ c :: k)
    (text : Bytes) : marks (quoted (c :: k) ++ 58 :: text) = marks text := by
  have hsplit : quoted (c :: k) ++ 58 :: text = 34 :: c :: (k ++ 34 :: 58 :: text) := by
    simp only [quoted, List.cons_append, List.append_assoc, List.nil_append]
  rw [hsplit, marks_quote hb hq, ← List.cons_append, marks_skip hk,
    marks_quote (by decide) (by decide)]
  exact marks_skip (List.not_mem_cons_of_ne_of_not_mem (by decide) List.not_mem_nil) text

theorem marks_word (w : Word) (text : Bytes) :
    marks (quoted w.text ++ 58 :: text) = ⟨w, written text⟩ :: marks text := by
  have hprefix : (quoted w.text).isPrefixOf (quoted w.text ++ 58 :: text) = true :=
    List.isPrefixOf_iff_prefix.mpr (List.prefix_append _ _)
  have hcolon : 58 ∉ quoted w.text := by cases w <;> decide
  have hquote : 34 ∉ w.text := by cases w <;> decide
  have htail : marks (w.text ++ [34] ++ 58 :: text) = marks text := by
    rw [List.append_assoc, marks_skip hquote, List.singleton_append,
      marks_quote (by decide) (by decide)]
    exact marks_skip (List.not_mem_cons_of_ne_of_not_mem (by decide) List.not_mem_nil) text
  have hmark := markAt_word w hprefix
  rw [writtenBehind, afterColon_append hcolon] at hmark
  rw [quoted, List.cons_append] at hmark ⊢
  rw [marks, hmark, htail]
  rfl

def itemMarks (item : ℤ × ℤ) : List Mark :=
  [⟨.book, some item.1⟩, ⟨.quantity, some item.2⟩]

theorem quote_notMem_signed (z : ℤ) : 34 ∉ signed z := notMem_signed z rfl (by decide)

theorem marks_itemText (item : ℤ × ℤ) (rest : Bytes) :
    marks (itemText item ++ rest) = itemMarks item ++ marks rest := by
  have hsplit : itemText item ++ rest = [123] ++ (quoted Word.book.text ++
      58 :: (signed item.1 ++ ([44] ++ (quoted Word.quantity.text ++
        58 :: (signed item.2 ++ ([125] ++ rest)))))) := by
    have hopen : ascii "\x7b\"book_id\":" = [123] ++ (quoted Word.book.text ++ [58]) := by decide
    have hmiddle : ascii ",\"quantity\":" = [44] ++ (quoted Word.quantity.text ++ [58]) := by
      decide
    have hclose : ascii "\x7d" = [125] := by decide
    simp only [itemText, hopen, hmiddle, hclose, List.append_assoc, List.cons_append,
      List.nil_append]
  rw [hsplit, marks_skip (by decide), marks_word, marks_skip (quote_notMem_signed _),
    marks_skip (by decide), marks_word, marks_skip (quote_notMem_signed _),
    marks_skip (by decide),
    written_of_begins (begins_signed item.1 fun b hb => by cases hb; rfl),
    written_of_begins (begins_signed item.2 fun b hb => by cases hb; rfl)]
  rfl

/-- The items one behind the other. -/
theorem marks_items (items : List (ℤ × ℤ)) (rest : Bytes) :
    marks (List.intercalate (ascii ",") (items.map itemText) ++ rest) =
      (items.map itemMarks).flatten ++ marks rest := by
  induction items with
  | nil => rfl
  | cons item items ih =>
    cases items with
    | nil =>
      rw [List.map_singleton, List.intercalate_singleton, marks_itemText,
        List.map_singleton, List.flatten_singleton]
    | cons next items =>
      have hcomma : 34 ∉ ascii "," := by decide
      rw [List.map_cons, List.map_cons, List.intercalate_cons_cons, List.append_assoc,
        List.append_assoc, marks_itemText, marks_skip hcomma, ← List.map_cons, ih,
        ← List.append_assoc]
      rfl

section Checkout

variable {userId : ℤ} {items : List (ℤ × ℤ)}

theorem checkoutText_split (userId : ℤ) (items : List (ℤ × ℤ)) :
    checkoutText userId items = [123] ++ (quoted (ascii "user_id") ++ 58 :: (signed userId ++
      ([44] ++ (quoted (ascii "items") ++ 58 :: ([91] ++
        (List.intercalate (ascii ",") (items.map itemText) ++ [93, 125])))))) := by
  have hopen : ascii "\x7b\"user_id\":" = [123] ++ (quoted (ascii "user_id") ++ [58]) := by decide
  have hmiddle : ascii ",\"items\":[" = [44] ++ (quoted (ascii "items") ++ 58 :: [91]) := by decide
  have hclose : ascii "]\x7d" = [93, 125] := by decide
  simp only [checkoutText, hopen, hmiddle, hclose, List.append_assoc, List.cons_append,
    List.nil_append]

theorem marks_checkoutText (userId : ℤ) (items : List (ℤ × ℤ)) :
    marks (checkoutText userId items) = (items.map itemMarks).flatten := by
  have huser : ascii "user_id" = 117 :: ascii "ser_id" := by decide
  have hkey : ascii "items" = 105 :: ascii "tems" := by decide
  rw [checkoutText_split, marks_skip (by decide), huser,
    marks_key (by decide) (by decide) (by decide), marks_skip (quote_notMem_signed _),
    marks_skip (by decide), hkey, marks_key (by decide) (by decide) (by decide),
    marks_skip (by decide), marks_items]
  exact List.append_nil _

theorem jsonIntValue_checkoutText (userId : ℤ) (items : List (ℤ × ℤ)) :
    jsonIntValue (checkoutText userId items) (ascii "user_id") = some (Int32.ofInt userId) := by
  have hcolon : 58 ∉ quoted (ascii "user_id") := by decide
  rw [checkoutText_split, jsonIntValue, jsonIntValueFrom, List.drop_zero]
  have hfind := find_append (quoted (ascii "user_id")) (58 :: (signed userId ++ ([44] ++
    (quoted (ascii "items") ++ 58 :: ([91] ++
      (List.intercalate (ascii ",") (items.map itemText) ++ [93, 125]))))))
  rw [quoted] at hfind ⊢
  rw [find_skip (by decide), hfind, Option.bind_some, ← quoted, intBehind_colon hcolon,
    readInt_eq_written, written_of_begins (begins_signed userId fun b hb => by cases hb; rfl)]
  rfl

/-- The order that the client sends is the order that is placed. -/
theorem checkout_decoded (huser : InRange userId)
    (hitems : ∀ item ∈ items, InRange item.1 ∧ InRange item.2) (hnonempty : items ≠ [])
    {request : HttpRequest} (hbody : request.body = checkoutText userId items)
    (answer : Option Order) :
    (calls answer request).map (fun call => (call.1.toInt,
      call.2.map fun item => (item.bookId.toInt, item.quantity.toInt))) = [(userId, items)] := by
  have hread : jsonOrderItems request.body =
      items.map fun item => ⟨Int32.ofInt item.1, Int32.ofInt item.2⟩ := by
    rw [jsonOrderItems_iff]
    refine ⟨items.map itemMarks, [], ?_, ?_, stuck_nil⟩
    · rw [List.forall₂_map_left_iff, List.forall₂_map_right_iff, List.forall₂_same]
      exact fun item _ => ⟨item.1, item.2, ⟨[], [], by simp, by simp, rfl⟩, rfl⟩
    · rw [hbody, marks_checkoutText, List.append_nil]
  have hsome : jsonOrderItems request.body ≠ [] := by
    rw [hread]
    exact mt List.map_eq_nil_iff.mp hnonempty
  rw [calls_eq, if_neg hsome, hread, hbody, jsonIntValue_checkoutText]
  simp only [Option.map_some, Option.toList_some, List.map_cons, List.map_nil, List.map_map,
    huser.toInt_ofInt, List.cons.injEq, and_true, Prod.mk.injEq, true_and]
  refine (List.map_congr_left fun item hitem => ?_).trans (List.map_id items)
  exact Prod.ext (hitems item hitem).1.toInt_ofInt (hitems item hitem).2.toInt_ofInt

end Checkout

theorem two_books_decoded : (calls none ⟨.post, ascii "/api/orders",
    checkoutText 7 [(3, 2), (5, -1)], [], []⟩).map (fun call => (call.1.toInt,
      call.2.map fun item => (item.bookId.toInt, item.quantity.toInt))) =
    [(7, [(3, 2), (5, -1)])] := by
  refine checkout_decoded (by norm_num [InRange]) ?_ (List.cons_ne_nil _ _) rfl none
  intro item hitem
  simp only [List.mem_cons, List.not_mem_nil, or_false] at hitem
  obtain rfl | rfl := hitem <;> norm_num [InRange]

end Bookstore.OrderRequests
