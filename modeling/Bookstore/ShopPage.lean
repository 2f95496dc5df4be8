import Bookstore.KeyedLists
import Bookstore.LocalCheckouts
import Bookstore.OrderController

/-!
The page of the shop: its bag, the catalogue it shows, and the orders that are on their
way. Clicks and answers come in any order. A bag is an object whose keys are book ids,
so that a loop over it goes through them in order.
-/
namespace Bookstore.ShopPage

open KeyedLists Interleaving HttpTypes Records ApiRoutes OrderController OrderRpc OrderRequests
open Routing

/-! ## The page -/

/-- What the bag says of a book. -/
structure CartItem where
  title : String
  priceCents : ℤ
  quantity : ℤ
deriving DecidableEq

abbrev Cart := Keyed CartItem

/-- A book as the server has sent it. -/
structure Card where
  id : ℕ
  title : String
  priceCents : ℤ
  stock : ℤ
  status : String

structure User where
  userId : ℤ
  username : String

/-- An order that has been sent: `user_id` and `items`. -/
structure Sent where
  userId : ℤ
  items : List (ℕ × ℤ)

/-- The state of the page, with `saved` for the bag in `localStorage`, the button, and the
orders that have no answer yet. -/
structure Page where
  user : Option User
  books : List Card
  cart : Cart
  saved : Cart
  checkoutDisabled : Bool
  pending : List Sent

namespace Page

def cartCount (p : Page) : ℤ := (p.cart.entries.map fun e => e.2.quantity).sum

def cartTotalCents (p : Page) : ℤ :=
  (p.cart.entries.map fun e => e.2.priceCents * e.2.quantity).sum

def findBook (p : Page) (id : ℕ) : Option Card := p.books.find? fun book => book.id = id

/-- `updateUserUI`, and the end of `renderCart`. -/
def refresh (p : Page) : Page :=
  { p with checkoutDisabled := p.user.isNone || p.cartCount == 0 }

/-- `saveCart` and `renderCart` after a change of the bag. -/
def withCart (p : Page) (cart : Cart) : Page := { p with cart := cart, saved := cart }.refresh

def maxStock (p : Page) (bookId : ℕ) (item : CartItem) : ℤ :=
  match p.findBook bookId with
  | some book => book.stock
  | none => item.quantity

def changeQty (p : Page) (bookId : ℕ) (delta : ℤ) : Page :=
  match p.cart.find bookId with
  | none => p
  | some item =>
    let next := item.quantity + delta
    if next ≤ 0 then p.withCart (p.cart.erase bookId)
    else if next ≤ p.maxStock bookId item then
      p.withCart (p.cart.put bookId { item with quantity := next })
    else p

def addToCart (p : Page) (book : Card) : Page :=
  if book.status ≠ "active" then p
  else
    match p.cart.find book.id with
    | some existing =>
      if existing.quantity ≥ book.stock then p
      else p.withCart (p.cart.put book.id { existing with quantity := existing.quantity + 1 })
    | none => p.withCart (p.cart.put book.id ⟨book.title, book.priceCents, 1⟩)

/-- The loop of `handleCheckout` over the bag. -/
def items (p : Page) : List (ℕ × ℤ) := p.cart.entries.map fun e => (e.1, e.2.quantity)

def handleCheckout (p : Page) : Page :=
  match p.user with
  | none => p
  | some user =>
    if p.items = [] then p
    else { p with
      checkoutDisabled := true
      pending := p.pending ++ [⟨user.userId, p.items⟩] }

/-- The answer to an order: the page is told that it is created, or it is not. -/
def answered (p : Page) (i : ℕ) (created : Bool) : Page :=
  let p := { p with pending := p.pending.eraseIdx i, checkoutDisabled := false }
  if created then p.withCart .empty else p

/-- `init`, with what is in the storage. -/
def load (user : Option User) (saved : Cart) : Page :=
  { user := user
    books := []
    cart := saved
    saved := saved
    checkoutDisabled := false
    pending := [] : Page }.refresh

end Page

/-- What happens to the page. A card has a button when it was shown with some stock. -/
inductive Event
  | add (book : Card)
  | click (bookId : ℕ) (delta : ℤ)
  | checkout
  | answered (i : ℕ) (created : Bool)
  | loggedIn (user : User)
  | loggedOut
  | fetched (books : List Card)
  | reloaded

namespace Event

/-- The buttons that are there: of a card, of an entry of the bag, and the one that sends
the order. -/
def Offered (p : Page) : Event → Prop
  | .add book => ¬ (book.stock ≤ 0 ∨ book.status ≠ "active")
  | .click bookId delta => (p.cart.find bookId).isSome ∧ (delta = 1 ∨ delta = -1)
  | .checkout => p.checkoutDisabled = false
  | .answered i _ => i < p.pending.length
  | _ => True

def apply (p : Page) : Event → Page
  | .add book => p.addToCart book
  | .click bookId delta => p.changeQty bookId delta
  | .checkout => p.handleCheckout
  | .answered i created => p.answered i created
  | .loggedIn user => { p with user := some user }.refresh
  | .loggedOut => { p with user := none }.refresh
  | .fetched books => { p with books := books }
  | .reloaded => .load p.user p.saved

end Event

/-- What happens one after the other, each as `P` allows. -/
inductive Runs (P : Page → Event → Prop) : Page → List Event → Page → Prop
  | nil (p : Page) : Runs P p [] p
  | cons {p q : Page} {e : Event} {events : List Event} (hoffered : e.Offered p) (hP : P p e)
      (h : Runs P (e.apply p) events q) : Runs P p (e :: events) q

theorem Runs.invariant {P : Page → Event → Prop} {I : Page → Prop}
    (hstep : ∀ p e, I p → e.Offered p → P p e → I (e.apply p)) {p q : Page} {events : List Event}
    (h : Runs P p events q) (hp : I p) : I q := by
  induction h with
  | nil => exact hp
  | cons hoffered hP _ ih => exact ih (hstep _ _ hp hoffered hP)

/-! ## Orders that can be placed -/

section Placing

/-- Numbers of a book that fit `int`. -/
structure Card.Fits (card : Card) : Prop where
  positive : 0 < card.id
  id : card.id < 2 ^ 31
  stock : card.stock < 2 ^ 31

def Event.Fits : Event → Prop
  | .add book => book.Fits
  | .fetched books => ∀ book ∈ books, book.Fits
  | .loggedIn user => InRange user.userId
  | _ => True

/-- Positive numbers that fit `int`. -/
structure ItemFits (item : ℕ × ℤ) : Prop where
  positive : 0 < item.1
  id : item.1 < 2 ^ 31
  some : 0 < item.2
  quantity : item.2 < 2 ^ 31

/-- An order of different books, some of each. -/
structure Sent.Placeable (s : Sent) : Prop where
  user : InRange s.userId
  nonempty : s.items ≠ []
  distinct : s.items.Pairwise fun a b => a.1 < b.1
  items : ∀ item ∈ s.items, ItemFits item

def CartFits (cart : Cart) : Prop :=
  ∀ id item, cart.find id = some item → ItemFits (id, item.quantity)

/-- The bag is also in the storage, and every order on its way can be placed. -/
structure Page.Sound (p : Page) : Prop where
  cart : CartFits p.cart
  saved : p.saved = p.cart
  books : ∀ book ∈ p.books, book.Fits
  user : ∀ user, p.user = some user → InRange user.userId
  pending : ∀ s ∈ p.pending, s.Placeable

variable {p : Page}

theorem cartFits_put {cart : Cart} (h : CartFits cart) {id : ℕ} {item : CartItem}
    (hitem : ItemFits (id, item.quantity)) : CartFits (cart.put id item) := by
  intro other found hfound
  rw [Keyed.find_put] at hfound
  split at hfound
  · rename_i hsame
    rw [hsame, ← Option.some.inj hfound]
    exact hitem
  · exact h other found hfound

theorem cartFits_erase {cart : Cart} (h : CartFits cart) (id : ℕ) : CartFits (cart.erase id) := by
  intro other found hfound
  rw [Keyed.find_erase] at hfound
  split at hfound
  · cases hfound
  · exact h other found hfound

theorem Page.Sound.withCart (h : p.Sound) {cart : Cart} (hcart : CartFits cart) :
    (p.withCart cart).Sound :=
  ⟨hcart, rfl, h.books, h.user, h.pending⟩

theorem Page.Sound.maxStock_lt (h : p.Sound) {bookId : ℕ} {item : CartItem}
    (hfind : p.cart.find bookId = some item) : p.maxStock bookId item < 2 ^ 31 := by
  unfold Page.maxStock
  cases hbook : p.findBook bookId with
  | none => exact (h.cart bookId item hfind).quantity
  | some book => exact (h.books book (List.mem_of_find?_eq_some hbook)).stock

theorem Page.Sound.changeQty (h : p.Sound) (bookId : ℕ) (delta : ℤ) :
    (p.changeQty bookId delta).Sound := by
  unfold Page.changeQty
  cases hfind : p.cart.find bookId with
  | none => exact h
  | some item =>
    have hitem := h.cart bookId item hfind
    have hmax := h.maxStock_lt hfind
    dsimp only
    split
    · exact h.withCart (cartFits_erase h.cart bookId)
    · rename_i hpos
      split
      · rename_i hle
        exact h.withCart (cartFits_put h.cart
          ⟨hitem.positive, hitem.id, Int.not_le.mp hpos, Int.lt_of_le_of_lt hle hmax⟩)
      · exact h

theorem Page.Sound.addToCart (h : p.Sound) {book : Card} (hbook : book.Fits) :
    (p.addToCart book).Sound := by
  unfold Page.addToCart
  split
  · exact h
  · cases hfind : p.cart.find book.id with
    | none =>
      exact h.withCart (cartFits_put h.cart ⟨hbook.positive, hbook.id, Int.one_pos, by norm_num⟩)
    | some existing =>
      have hitem := h.cart book.id existing hfind
      have hsome : 0 < existing.quantity := hitem.some
      have hstock := hbook.stock
      dsimp only
      split
      · exact h
      · refine h.withCart (cartFits_put h.cart ⟨hitem.positive, hitem.id, ?_, ?_⟩)
        · show 0 < existing.quantity + 1
          omega
        · show existing.quantity + 1 < 2 ^ 31
          omega

theorem placeable_items (h : p.Sound) {user : User} (huser : p.user = some user)
    (hitems : p.items ≠ []) : (Sent.mk user.userId p.items).Placeable := by
  refine ⟨h.user user huser, hitems, ?_, fun item hitem => ?_⟩
  · exact List.pairwise_map.mpr p.cart.sorted
  · obtain ⟨⟨id, entry⟩, hentry, rfl⟩ := List.mem_map.mp hitem
    exact h.cart id entry (Keyed.mem_entries_iff.mp hentry)

theorem Page.Sound.handleCheckout (h : p.Sound) : p.handleCheckout.Sound := by
  unfold Page.handleCheckout
  cases huser : p.user with
  | none => exact h
  | some user =>
    dsimp only
    split
    · exact h
    · rename_i hitems
      have husers := h.user
      rw [huser] at husers
      refine ⟨h.cart, h.saved, h.books, husers, fun s hs => ?_⟩
      rcases List.mem_append.mp hs with hold | hnew
      · exact h.pending s hold
      · rw [List.mem_singleton.mp hnew]
        exact placeable_items h huser hitems

theorem Page.Sound.answered (h : p.Sound) (i : ℕ) (created : Bool) :
    (p.answered i created).Sound := by
  have hpending : ∀ s ∈ p.pending.eraseIdx i, s.Placeable :=
    fun s hs => h.pending s (List.mem_of_mem_eraseIdx hs)
  cases created with
  | false => exact ⟨h.cart, h.saved, h.books, h.user, hpending⟩
  | true =>
    refine ⟨fun id item hfind => ?_, rfl, h.books, h.user, hpending⟩
    cases hfind

/-- Whatever happens to the page. -/
theorem Page.Sound.apply {e : Event} (h : p.Sound) (hfits : e.Fits) :
    (e.apply p).Sound := by
  cases e with
  | add book => exact h.addToCart hfits
  | click bookId delta => exact h.changeQty bookId delta
  | checkout => exact h.handleCheckout
  | answered i created => exact h.answered i created
  | loggedIn user =>
    refine ⟨h.cart, h.saved, h.books, fun other hother => ?_, h.pending⟩
    rw [← Option.some.inj hother]
    exact hfits
  | loggedOut => exact ⟨h.cart, h.saved, h.books, nofun, h.pending⟩
  | fetched books => exact ⟨h.cart, h.saved, hfits, h.user, h.pending⟩
  | reloaded =>
    have hcart : CartFits p.saved := by
      rw [h.saved]
      exact h.cart
    exact ⟨hcart, rfl, nofun, h.user, nofun⟩

theorem sound_load {user : Option User} {saved : Cart}
    (huser : ∀ u, user = some u → InRange u.userId) (hsaved : CartFits saved) :
    (Page.load user saved).Sound :=
  ⟨hsaved, rfl, nofun, huser, nofun⟩

end Placing

/-- The call that an order asks for. -/
def Sent.action (s : Sent) : OrderAction :=
  .place s.userId (s.items.map fun item => ((item.1 : ℤ), item.2))

theorem Sent.Placeable.fits {s : Sent} (h : s.Placeable) : s.action.Fits := by
  refine ⟨h.user, fun item hitem => ?_, mt List.map_eq_nil_iff.mp h.nonempty⟩
  obtain ⟨entry, hentry, rfl⟩ := List.mem_map.mp hitem
  have hfits := h.items entry hentry
  have hid := hfits.id
  have hsome := hfits.some
  have hquantity := hfits.quantity
  exact ⟨abs_lt.mpr ⟨by omega, by omega⟩, abs_lt.mpr ⟨by omega, by omega⟩⟩

/-- Clicks on the buttons of the bag, of any of its entries. -/
def clicks (p : Page) (cs : List (ℕ × ℤ)) : Page :=
  cs.foldl (fun p c => p.changeQty c.1 c.2) p

section Clicks

variable {p : Page} {id : ℕ} {item : CartItem}

theorem changeQty_books (p : Page) (bookId : ℕ) (delta : ℤ) :
    (p.changeQty bookId delta).books = p.books := by
  unfold Page.changeQty
  cases p.cart.find bookId with
  | none => rfl
  | some item =>
    dsimp only
    split
    · rfl
    · split <;> rfl

theorem changeQty_other (p : Page) {bookId : ℕ} (h : id ≠ bookId) (delta : ℤ) :
    (p.changeQty bookId delta).cart.find id = p.cart.find id := by
  unfold Page.changeQty
  cases p.cart.find bookId with
  | none => rfl
  | some item =>
    dsimp only
    split
    · exact Keyed.find_erase_other p.cart h
    · split
      · exact Keyed.find_put_other p.cart h _
      · rfl

/-- With fewer copies in stock than would be left, neither button does anything. -/
theorem changeQty_stuck {book : Card} (hfind : p.cart.find id = some item)
    (hbook : p.findBook id = some book) (hfew : max book.stock 0 + 1 < item.quantity) {delta : ℤ}
    (hdelta : delta = 1 ∨ delta = -1) : p.changeQty id delta = p := by
  have hmax : p.maxStock id item = book.stock := by
    unfold Page.maxStock
    rw [hbook]
  unfold Page.changeQty
  rw [hfind]
  dsimp only
  rw [hmax, if_neg (by omega), if_neg (by omega)]

theorem clicks_stuck {book : Card} (hfind : p.cart.find id = some item)
    (hbook : p.findBook id = some book) (hfew : max book.stock 0 + 1 < item.quantity)
    {cs : List (ℕ × ℤ)} (hcs : ∀ c ∈ cs, c.2 = 1 ∨ c.2 = -1) :
    (clicks p cs).cart.find id = some item := by
  induction cs generalizing p with
  | nil => exact hfind
  | cons c cs ih =>
    obtain ⟨hfirst, hrest⟩ := List.forall_mem_cons.mp hcs
    by_cases hc : c.1 = id
    · have hsame : p.changeQty c.1 c.2 = p := by
        rw [hc]
        exact changeQty_stuck hfind hbook hfew hfirst
      rw [clicks, List.foldl_cons, hsame]
      exact ih hfind hbook hrest
    · refine ih ((changeQty_other p (Ne.symm hc) c.2).trans hfind) ?_ hrest
      rw [Page.findBook, changeQty_books]
      exact hbook

/-- One piece less. -/
theorem changeQty_minus (hfind : p.cart.find id = some item)
    (hstock : ∀ book, p.findBook id = some book → item.quantity ≤ max book.stock 0 + 1) :
    (p.changeQty id (-1)).cart.find id =
      if item.quantity ≤ 1 then none else some { item with quantity := item.quantity - 1 } := by
  have hle : item.quantity + -1 ≤ 0 ∨ item.quantity + -1 ≤ p.maxStock id item := by
    unfold Page.maxStock
    cases hbook : p.findBook id with
    | none => exact .inr (by simp)
    | some book =>
      have hbound := hstock book hbook
      simp only
      omega
  unfold Page.changeQty
  rw [hfind]
  dsimp only
  by_cases hlast : item.quantity ≤ 1
  · rw [if_pos (by omega), if_pos hlast]
    exact Keyed.find_erase_self p.cart id
  · rw [if_neg (by omega), if_pos (by omega), if_neg hlast]
    exact Keyed.find_put_self p.cart id _

theorem clicks_remove (n : ℕ) (hfind : p.cart.find id = some item) (hn : item.quantity ≤ n + 1)
    (hstock : ∀ book, p.findBook id = some book → item.quantity ≤ max book.stock 0 + 1) :
    ∃ m, (clicks p (List.replicate m (id, -1))).cart.find id = none := by
  have hminus := changeQty_minus hfind hstock
  induction n generalizing p item with
  | zero =>
    rw [if_pos (by omega)] at hminus
    exact ⟨1, hminus⟩
  | succ n ih =>
    by_cases hlast : item.quantity ≤ 1
    · rw [if_pos hlast] at hminus
      exact ⟨1, hminus⟩
    · rw [if_neg hlast] at hminus
      have hless : ∀ book, (p.changeQty id (-1)).findBook id = some book →
          item.quantity - 1 ≤ max book.stock 0 + 1 := by
        intro book hbook
        rw [Page.findBook, changeQty_books] at hbook
        have hbound := hstock book hbook
        omega
      obtain ⟨m, hm⟩ := ih hminus (by simp only; omega) hless (changeQty_minus hminus hless)
      exact ⟨m + 1, hm⟩

/-- A book can be taken out of the bag by its buttons just when the catalogue has no fewer
copies than all but one of those in the bag, or does not list it. -/
theorem removable_iff (hfind : p.cart.find id = some item) :
    (∃ cs : List (ℕ × ℤ), (∀ c ∈ cs, c.2 = 1 ∨ c.2 = -1) ∧ (clicks p cs).cart.find id = none) ↔
      ∀ book, p.findBook id = some book → item.quantity ≤ max book.stock 0 + 1 := by
  constructor
  · rintro ⟨cs, hcs, hnone⟩ book hbook
    by_contra hfew
    rw [clicks_stuck hfind hbook (by omega) hcs] at hnone
    cases hnone
  · intro hstock
    obtain ⟨m, hm⟩ := clicks_remove item.quantity.toNat hfind (by omega) hstock
    refine ⟨_, fun c hc => .inr ?_, hm⟩
    rw [List.eq_of_mem_replicate hc]

end Clicks

/-! ## Pieces -/

/-- The copies of a book in the bag. -/
def Page.pieces (p : Page) (id : ℕ) : ℤ := ((p.cart.find id).map CartItem.quantity).getD 0

/-- The copies of a book in an order. -/
def Sent.pieces (s : Sent) (id : ℕ) : ℤ :=
  ((s.items.filter fun item => item.1 = id).map Prod.snd).sum

/-- What the buttons have put into the bag, less what they have taken out. -/
def chosen : Page → List Event → ℕ → ℤ
  | _, [], _ => 0
  | p, e :: events, id =>
    (match e with
    | .add _ | .click _ _ => (e.apply p).pieces id - p.pieces id
    | _ => 0) + chosen (e.apply p) events id

/-- The orders that the page is told have been created. -/
def created : Page → List Event → List Sent
  | _, [] => []
  | p, e :: events =>
    (match e with
    | .answered i true => (p.pending[i]?).toList
    | _ => []) ++ created (e.apply p) events

/-- While an order is on its way, its answer comes or the catalogue. -/
def Quiet (p : Page) : Event → Prop
  | .checkout | .answered _ _ | .fetched _ => True
  | _ => p.pending = []

/-- An order on its way is what is in the bag, and the button is off. -/
def OneWay (p : Page) : Prop :=
  p.pending = [] ∨ p.checkoutDisabled = true ∧ ∃ userId, p.pending = [⟨userId, p.items⟩]

theorem pieces_items (p : Page) (userId : ℤ) (id : ℕ) :
    (Sent.mk userId p.items).pieces id = p.pieces id := by
  have hsum := p.cart.sum_filter_key CartItem.quantity id
  rw [Page.pieces, ← hsum, Sent.pieces, Page.items, List.filter_map, List.map_map]
  rfl

theorem pending_addToCart (p : Page) (book : Card) : (p.addToCart book).pending = p.pending := by
  unfold Page.addToCart
  split
  · rfl
  · cases p.cart.find book.id with
    | none => rfl
    | some existing =>
      dsimp only
      split <;> rfl

theorem pending_changeQty (p : Page) (bookId : ℕ) (delta : ℤ) :
    (p.changeQty bookId delta).pending = p.pending := by
  unfold Page.changeQty
  cases p.cart.find bookId with
  | none => rfl
  | some item =>
    dsimp only
    split
    · rfl
    · split <;> rfl

theorem oneWay_apply {p : Page} {e : Event} (h : OneWay p) (hoffered : e.Offered p)
    (hquiet : Quiet p e) : OneWay (e.apply p) := by
  cases e with
  | add book => exact .inl ((pending_addToCart p book).trans hquiet)
  | click bookId delta => exact .inl ((pending_changeQty p bookId delta).trans hquiet)
  | checkout =>
    rcases h with hnone | ⟨hdisabled, -⟩
    · show OneWay p.handleCheckout
      unfold Page.handleCheckout
      cases huser : p.user with
      | none => exact .inl hnone
      | some user =>
        dsimp only
        split
        · exact .inl hnone
        · exact .inr ⟨rfl, user.userId, by rw [hnone]; rfl⟩
    · have henabled : p.checkoutDisabled = false := hoffered
      rw [hdisabled] at henabled
      cases henabled
  | answered i created =>
    left
    have hlt : i < p.pending.length := hoffered
    have hrest : p.pending.eraseIdx i = [] := by
      rcases h with hnone | ⟨-, userId, hone⟩
      · rw [hnone] at hlt
        cases hlt
      · rw [hone] at hlt ⊢
        obtain rfl : i = 0 := by simpa using hlt
        rfl
    cases created with
    | false => exact hrest
    | true => exact hrest
  | loggedIn user => exact .inl hquiet
  | loggedOut => exact .inl hquiet
  | fetched books => exact h
  | reloaded => exact .inl rfl

theorem saved_apply {p : Page} (h : p.saved = p.cart) (e : Event) :
    (e.apply p).saved = (e.apply p).cart := by
  cases e with
  | add book =>
    show (p.addToCart book).saved = (p.addToCart book).cart
    unfold Page.addToCart
    split
    · exact h
    · cases p.cart.find book.id with
      | none => rfl
      | some existing =>
        dsimp only
        split
        · exact h
        · rfl
  | click bookId delta =>
    show (p.changeQty bookId delta).saved = (p.changeQty bookId delta).cart
    unfold Page.changeQty
    cases p.cart.find bookId with
    | none => exact h
    | some item =>
      dsimp only
      split
      · rfl
      · split
        · rfl
        · exact h
  | checkout =>
    show p.handleCheckout.saved = p.handleCheckout.cart
    unfold Page.handleCheckout
    cases p.user with
    | none => exact h
    | some user =>
      dsimp only
      split <;> exact h
  | answered i created =>
    cases created with
    | false => exact h
    | true => rfl
  | loggedIn user => exact h
  | loggedOut => exact h
  | fetched books => exact h
  | reloaded => rfl

theorem pieces_checkout (p : Page) (id : ℕ) : p.handleCheckout.pieces id = p.pieces id := by
  unfold Page.handleCheckout
  cases p.user with
  | none => rfl
  | some user =>
    dsimp only
    split <;> rfl

/-- The order that the page is told of takes along what is in the bag. -/
theorem pieces_answered {p : Page} (h : OneWay p) {i : ℕ} (hi : i < p.pending.length) (id : ℕ) :
    ((p.pending[i]?).toList.map fun s => s.pieces id).sum = p.pieces id := by
  rcases h with hnone | ⟨-, userId, hone⟩
  · rw [hnone] at hi
    cases hi
  · rw [hone] at hi ⊢
    obtain rfl : i = 0 := by simpa using hi
    rw [← pieces_items p userId id]
    exact List.sum_singleton

/-- Every piece that was put into the bag is still there or in one order that the page was
told was created. -/
theorem pieces_once_from {p q : Page} (hp : OneWay p) (hsaved : p.saved = p.cart)
    {events : List Event} (hrun : Runs Quiet p events q) (id : ℕ) :
    q.pieces id + ((created p events).map fun s => s.pieces id).sum =
      p.pieces id + chosen p events id := by
  induction hrun with
  | nil p => rfl
  | @cons p q e events hoffered hquiet hrest ih =>
    have hlater := ih (oneWay_apply hp hoffered hquiet) (saved_apply hsaved e)
    cases e with
    | add book =>
      simp only [created, chosen, List.nil_append]
      omega
    | click bookId delta =>
      simp only [created, chosen, List.nil_append]
      omega
    | checkout =>
      have hsame : (Event.checkout.apply p).pieces id = p.pieces id := pieces_checkout p id
      simp only [created, chosen, List.nil_append]
      omega
    | answered i done =>
      cases done with
      | false =>
        have hsame : ((Event.answered i false).apply p).pieces id = p.pieces id := rfl
        simp only [created, chosen, List.nil_append]
        omega
      | true =>
        have hempty : ((Event.answered i true).apply p).pieces id = 0 := rfl
        have hmoved := pieces_answered hp hoffered id
        simp only [created, chosen, List.map_append, List.sum_append]
        omega
    | loggedIn user =>
      have hsame : ((Event.loggedIn user).apply p).pieces id = p.pieces id := rfl
      simp only [created, chosen, List.nil_append]
      omega
    | loggedOut =>
      have hsame : (Event.loggedOut.apply p).pieces id = p.pieces id := rfl
      simp only [created, chosen, List.nil_append]
      omega
    | fetched books =>
      have hsame : ((Event.fetched books).apply p).pieces id = p.pieces id := rfl
      simp only [created, chosen, List.nil_append]
      omega
    | reloaded =>
      have hsame : (Event.reloaded.apply p).pieces id = p.pieces id := by
        show (Page.load p.user p.saved).pieces id = p.pieces id
        rw [hsaved]
        rfl
      simp only [created, chosen, List.nil_append]
      omega

/-- When nothing else happens while an order is on its way, from a page that has just been
loaded. An order whose answer is lost may be stored as well: the page keeps its bag then. -/
theorem pieces_once {user : Option User} {saved : Cart} {q : Page} {events : List Event}
    (hrun : Runs Quiet (Page.load user saved) events q) (id : ℕ) :
    q.pieces id + ((created (Page.load user saved) events).map fun s => s.pieces id).sum =
      (Page.load user saved).pieces id + chosen (Page.load user saved) events id :=
  pieces_once_from (.inl rfl) rfl hrun id

/-! ## A small shop -/

def primer : Card := ⟨1, "C++ Primer", 9800, 3, "active"⟩

def novel : Card := ⟨2, "Ulysses", 1100, 1, "active"⟩

def lippman : User := ⟨7, "lippman"⟩

/-- Three clicks on two cards. -/
def bought : Page :=
  (((Page.load (some lippman) .empty).addToCart primer).addToCart novel).addToCart primer

/-- Then the button that sends the order. -/
theorem bought_runs {P : Page → Event → Prop} {events : List Event} {q : Page}
    (hprimer : ∀ p, p.pending = [] → P p (.add primer))
    (hnovel : ∀ p, p.pending = [] → P p (.add novel)) (hcheckout : ∀ p, P p .checkout)
    (hrun : Runs P bought.handleCheckout events q) :
    Runs P (.load (some lippman) .empty)
      (.add primer :: .add novel :: .add primer :: .checkout :: events) q := by
  have hstock : ¬ (primer.stock ≤ 0 ∨ primer.status ≠ "active") := by decide
  have hlast : ¬ (novel.stock ≤ 0 ∨ novel.status ≠ "active") := by decide
  refine .cons hstock (hprimer _ rfl) (.cons hlast (hnovel _ rfl) ?_)
  exact .cons hstock (hprimer _ rfl) (.cons rfl (hcheckout _) hrun)

/-- Of three copies in the bag, one is left in stock. -/
def soldOut : Page := { Page.load (some lippman) (Keyed.empty.put 1 ⟨"C++ Primer", 9800, 3⟩) with
  books := [{ primer with stock := 1 }] }

theorem soldOut_stuck : ¬ ∃ cs : List (ℕ × ℤ),
    (∀ c ∈ cs, c.2 = 1 ∨ c.2 = -1) ∧ (clicks soldOut cs).cart.find 1 = none := by
  have hfind : soldOut.cart.find 1 = some ⟨"C++ Primer", 9800, 3⟩ := rfl
  rw [removable_iff hfind]
  intro h
  have hbound := h { primer with stock := 1 } rfl
  revert hbound
  decide

/-- The first order fails. One copy is taken out of the bag and the page loaded again before
the second one. -/
def patient : List Event :=
  [.add primer, .add novel, .add primer, .checkout, .answered 0 false, .click 1 (-1), .reloaded,
    .checkout, .answered 0 true]

def patientPage : Page := patient.foldl (fun p e => e.apply p) (.load (some lippman) .empty)

theorem patient_pieces : patientPage.pieces 1 +
    ((created (.load (some lippman) .empty) patient).map fun s => s.pieces 1).sum =
      (Page.load (some lippman) .empty).pieces 1 + chosen (.load (some lippman) .empty)
        patient 1 := by
  let failed : Page := (bought.handleCheckout).answered 0 false
  have hanswered : (Event.answered 0 false).Offered bought.handleCheckout := Nat.one_pos
  have hclick : (Event.click 1 (-1)).Offered failed := ⟨rfl, .inr rfl⟩
  have hcheckout : Event.checkout.Offered
      (Page.load (some lippman) (failed.changeQty 1 (-1)).cart) := rfl
  have hcreated : (Event.answered 0 true).Offered
      (Page.load (some lippman) (failed.changeQty 1 (-1)).cart).handleCheckout := Nat.one_pos
  refine pieces_once (bought_runs (fun _ h => h) (fun _ h => h) (fun _ => trivial) ?_) 1
  refine .cons hanswered trivial (.cons hclick rfl (.cons trivial rfl ?_))
  exact .cons hcheckout trivial (.cons hcreated trivial (.nil _))

/-- With a click on a card in between, the button is on again, and a copy is ordered twice. -/
def impatient : List Event :=
  [.add primer, .checkout, .add primer, .checkout, .answered 0 true, .answered 0 true]

example : chosen (.load (some lippman) .empty) impatient 1 = 2 ∧
    ((created (.load (some lippman) .empty) impatient).map fun s => s.pieces 1).sum = 3 := by
  decide

end Bookstore.ShopPage
