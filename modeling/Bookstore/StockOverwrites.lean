import Bookstore.BookRpc
import Bookstore.MysqlBooks

/-!
A partial update through GrpcBookClient beside the stock operations of other
requests. The client reads the book with one RPC and sends the whole book back
with the next, so the stock it has read is written to the inventory.
-/
namespace Bookstore.StockOverwrites

open BookRpc Books Database Interleaving InventoryRpc MachineInt MysqlBooks Records
open Transactions
open MysqlInventory hiding repository

/-! ## The client and the others -/

/-- A server that handles each RPC as one step. -/
def atomicRpcs {σ : Type} (stub : BookStub σ) : BookStub σ where
  listBooks activeOnly := (stub.listBooks activeOnly).atomically
  getBook bookId := (stub.getBook bookId).atomically
  createBook message := (stub.createBook message).atomically
  updateBook request := (stub.updateBook request).atomically

def server : BookStub MySql := bookServer mysqlBookRepository

/-- The call of update_book, one step for each of its RPCs. -/
def patch (bookId : Int32) (update : BookUpdate) : Prog MySql (Option Book) :=
  (grpcBookClient (atomicRpcs server)).updateBook bookId update

/-- The operations on the inventory. -/
inductive StockOp
  | reserve (bookId quantity : Int32)
  | release (bookId quantity : Int32)
  | inbound (bookId quantity : Int32)
  | reserveBatch (reservation : String) (items : List InventoryMutation)
  | releaseBatch (reservation : String) (items : List InventoryMutation)

def perform (s : MySql) : StockOp → MySql
  | .reserve bookId quantity => ((reserveStock bookId quantity).run s).2
  | .release bookId quantity => ((releaseStock bookId quantity).run s).2
  | .inbound bookId quantity => ((addStock bookId quantity).run s).2
  | .reserveBatch reservation items => ((reserveBatch reservation items).run s).2
  | .releaseBatch reservation items => ((releaseBatch reservation items).run s).2

/-- Whose step comes next. -/
inductive Turn
  | client
  | stock (op : StockOp)

/-- A run of the client's program among operations of others. -/
def interleave {α : Type} : Prog MySql α → List Turn → MySql → Prog MySql α × MySql
  | p, [], s => (p, s)
  | p, .stock op :: rest, s => interleave p rest (perform s op)
  | .done a, .client :: rest, s => interleave (.done a) rest s
  | .act f next, .client :: rest, s => interleave (next (f s).1) rest (f s).2

/-- What the operations of others changed in the stock of a book, each when its
turn came. -/
def netEffect {α : Type} (book : ℤ) : Prog MySql α → List Turn → MySql → ℤ
  | _, [], _ => 0
  | p, .stock op :: rest, s =>
    ((perform s op).db.available book - s.db.available book) + netEffect book p rest (perform s op)
  | .done a, .client :: rest, s => netEffect book (.done a) rest s
  | .act f next, .client :: rest, s => netEffect book (next (f s).1) rest (f s).2

/-! ## When the stock read comes back -/

/-- The book as the first RPC brings it. -/
def readBook (db : Db) (bookId : Int32) : Option Book :=
  (joined db bookId.toInt).map fun row => bookFromProto (fillBook (bookFromRow bookId.toInt row))

/-- The book read in `s₁` is sent back in `s₂`: the merged book is accepted, it
changes the row of the book, both statements go through, and the inventory no
longer holds the stock that was read. -/
def Overwrites (bookId : Int32) (update : BookUpdate) (s₁ s₂ : MySql) : Prop :=
  0 < bookId.toInt ∧ s₁.faults s₁.clock = false ∧ ∃ book ∈ readBook s₁.db bookId,
    ¬ Refused (update.apply book) ∧
      Writes bookId (updateOf (fillBook (update.apply book))) s₂ ∧
      book.stock.toInt ≠ s₂.db.available bookId.toInt

/-- `P` holds where the client takes its next step. -/
def AtTurn (P : MySql → List Turn → Prop) : List Turn → MySql → Prop
  | [], _ => False
  | .stock op :: rest, s => AtTurn P rest (perform s op)
  | .client :: rest, s => P s rest

/-- The second RPC overwrites what the first one read. -/
def StaleWrite (bookId : Int32) (update : BookUpdate) : List Turn → MySql → Prop :=
  AtTurn fun s₁ rest =>
    AtTurn (fun s₂ _ => Overwrites bookId update s₁ s₂) rest
      ((server.getBook bookId.toInt64).run s₁).2

/-! ## The steps of the client -/

variable {α : Type}

/-- The stock of a book is what it was and what the others changed. -/
def Balanced (book : ℤ) (p : Prog MySql α) (turns : List Turn) (s : MySql) : Prop :=
  (interleave p turns s).2.db.available book = s.db.available book + netEffect book p turns s

theorem balanced_done (book : ℤ) (a : α) (turns : List Turn) (s : MySql) :
    Balanced book (.done a) turns s := by
  unfold Balanced
  induction turns generalizing s with
  | nil => simp [interleave, netEffect]
  | cons turn rest ih =>
    cases turn with
    | client => exact ih s
    | stock op =>
      rw [interleave, netEffect, ih (perform s op)]
      omega

/-- A program is balanced exactly when its first step and what follows are. -/
theorem balanced_act_iff {β : Type} (book : ℤ) {f : MySql → β × MySql} {next : β → Prog MySql α}
    {P : MySql → List Turn → Prop}
    (h : ∀ s rest, (interleave (next (f s).1) rest (f s).2).2.db.available book =
      s.db.available book + netEffect book (next (f s).1) rest (f s).2 ↔ ¬ P s rest)
    (turns : List Turn) (s : MySql) :
    Balanced book (.act f next) turns s ↔ ¬ AtTurn P turns s := by
  unfold Balanced
  induction turns generalizing s with
  | nil => simp [interleave, netEffect, AtTurn]
  | cons turn rest ih =>
    cases turn with
    | client => exact h s rest
    | stock op =>
      rw [interleave, netEffect, AtTurn, ← ih (perform s op)]
      omega

/-- The first RPC reads the book and leaves the tables alone. -/
theorem getBook_run (bookId : Int32) (s : MySql) :
    ((server.getBook bookId.toInt64).run s).2.db = s.db ∧
    bookOf ((server.getBook bookId.toInt64).run s).1 =
      if bookId ≤ 0 ∨ s.faults s.clock = true then none else readBook s.db bookId := by
  obtain ⟨c, hfind⟩ := run_findBook bookId s
  simp only [server, bookServer, getBook, toInt64_le_zero_iff, Int32.toInt32_toInt64]
  by_cases hid : bookId ≤ 0
  · simp only [hid, if_true, true_or, Prog.run_pure]
    exact ⟨trivial, rfl⟩
  · have hservice : (bookService mysqlBookRepository).findBook bookId =
        MysqlBooks.findBook bookId := rfl
    simp only [hid, if_false, false_or, Prog.run_bind, hservice, hfind, Prog.run_pure, true_and]
    cases hfault : s.faults s.clock with
    | true => rfl
    | false =>
      simp only [Bool.false_eq_true, if_false, readBook]
      cases joined s.db bookId.toInt with
      | none => rfl
      | some row => rfl

/-- The second RPC leaves the stock alone or writes the one of the merged book. -/
theorem updateBook_run {bookId : Int32} (hpos : 0 < bookId.toInt) (merged : Book) (s : MySql) :
    ((server.updateBook ⟨bookId.toInt64, fillBook merged⟩).run s).2.db.available bookId.toInt =
      if ¬ Refused merged ∧ Writes bookId (updateOf (fillBook merged)) s then merged.stock.toInt
      else s.db.available bookId.toInt := by
  have hsend : ((server.updateBook ⟨bookId.toInt64, fillBook merged⟩).run s).2 =
      ((sendBook server bookId merged).run s).2 := by
    simp only [sendBook, Prog.run_bind, Prog.run_pure]
  rw [hsend]
  by_cases hrefused : Refused merged
  · rw [server, run_sendBook_refused hrefused]
    simp only [hrefused, not_true, false_and, if_false]
  · have hnonneg : 0 ≤ merged.stock.toInt := by
      have hstock : ¬ merged.stock < 0 := fun h => hrefused (.inr (.inr (.inr h)))
      rw [Int32.lt_iff_toInt_lt, Int32.toInt_zero] at hstock
      omega
    rw [server, run_sendBook hpos hrefused]
    simp only [hrefused, not_false_eq_true, true_and]
    exact available_updateBook hpos rfl hnonneg s

/-- The second step of the client, with the book that the first one brought. -/
def sendBack (bookId : Int32) (update : BookUpdate) : Option Book → Prog MySql (Option Book)
  | none => .done none
  | some book =>
    .act (server.updateBook ⟨bookId.toInt64, fillBook (update.apply book)⟩).run
      fun response => .done (bookOf response)

theorem patch_eq (bookId : Int32) (update : BookUpdate) :
    patch bookId update = .act (server.getBook bookId.toInt64).run
      fun response => sendBack bookId update (bookOf response) := by
  change Prog.act (server.getBook bookId.toInt64).run _ = _
  congr 1

/-- A partial update without a stock sends back the stock that was read. -/
theorem balanced_sendBack {bookId : Int32} (hpos : 0 < bookId.toInt) {update : BookUpdate}
    (hstock : update.stock = none) (book : Book) (turns : List Turn) (s : MySql) :
    Balanced bookId.toInt (sendBack bookId update (some book)) turns s ↔
      ¬ AtTurn (fun s₂ _ => ¬ Refused (update.apply book) ∧
        Writes bookId (updateOf (fillBook (update.apply book))) s₂ ∧
        book.stock.toInt ≠ s₂.db.available bookId.toInt) turns s := by
  apply balanced_act_iff
  intro s rest
  have hmerged : (update.apply book).stock = book.stock := by
    rw [BookUpdate.apply, hstock]
    rfl
  have hdone := balanced_done bookId.toInt (bookOf ((server.updateBook
    ⟨bookId.toInt64, fillBook (update.apply book)⟩).run s).1) rest
    ((server.updateBook ⟨bookId.toInt64, fillBook (update.apply book)⟩).run s).2
  rw [Balanced, updateBook_run hpos, hmerged] at hdone
  rw [hdone]
  by_cases hwrites : ¬ Refused (update.apply book) ∧
      Writes bookId (updateOf (fillBook (update.apply book))) s
  · rw [if_pos hwrites]
    constructor
    · intro hsame hstale
      apply hstale.2.2
      omega
    · intro hfresh
      have hsame : book.stock.toInt = s.db.available bookId.toInt := by
        by_contra hne
        exact hfresh ⟨hwrites.1, hwrites.2, hne⟩
      rw [hsame]
  · rw [if_neg hwrites]
    exact ⟨fun _ hstale => hwrites ⟨hstale.1, hstale.2.1⟩, fun _ => rfl⟩

theorem AtTurn.imp {P Q : MySql → Prop} {turns : List Turn} {s : MySql}
    (h : AtTurn (fun s _ => P s) turns s) (hPQ : ∀ s, P s → Q s) :
    AtTurn (fun s _ => Q s) turns s := by
  induction turns generalizing s with
  | nil => exact h
  | cons turn rest ih =>
    cases turn with
    | client => exact hPQ s h
    | stock op => exact ih h

theorem atTurn_false (turns : List Turn) (s : MySql) : ¬ AtTurn (fun _ _ => False) turns s := by
  induction turns generalizing s with
  | nil => exact id
  | cons turn rest ih =>
    cases turn with
    | client => exact id
    | stock op => exact ih (perform s op)

/-- However a partial update without a stock is interleaved with operations on
the inventory, the stock of its book is what it was before them and what they
changed, exactly when the client does not write a stale stock back. -/
theorem patch_keeps_stock_iff (bookId : Int32) (update : BookUpdate) (hstock : update.stock = none)
    (turns : List Turn) (s : MySql) :
    (interleave (patch bookId update) turns s).2.db.available bookId.toInt =
      s.db.available bookId.toInt + netEffect bookId.toInt (patch bookId update) turns s ↔
    ¬ StaleWrite bookId update turns s := by
  rw [patch_eq]
  apply balanced_act_iff
  intro s rest
  obtain ⟨hdb, hread⟩ := getBook_run bookId s
  rw [hread]
  rw [← congrArg (fun db : Db => db.available bookId.toInt) hdb]
  by_cases hnone : bookId ≤ 0 ∨ s.faults s.clock = true
  · rw [if_pos hnone]
    refine iff_of_true (balanced_done _ _ _ _) ?_
    intro hstale
    apply atTurn_false rest _ (hstale.imp fun s₂ hoverwrites => ?_)
    rcases hnone with hid | hfault
    · rw [Int32.le_iff_toInt_le, Int32.toInt_zero] at hid
      have hpos := hoverwrites.1
      omega
    · rw [hoverwrites.2.1] at hfault
      cases hfault
  · rw [if_neg hnone]
    rw [not_or, Bool.not_eq_true] at hnone
    have hpos : 0 < bookId.toInt := toInt_pos_of_not_le hnone.1
    cases hbook : readBook s.db bookId with
    | none =>
      refine iff_of_true (balanced_done _ _ _ _) ?_
      intro hstale
      apply atTurn_false rest _ (hstale.imp fun s₂ hoverwrites => ?_)
      obtain ⟨_, _, book, hmem, _⟩ := hoverwrites
      rw [hbook] at hmem
      cases hmem
    | some book =>
      apply (balanced_sendBack hpos hstock book rest _).trans
      apply not_congr
      refine ⟨fun hstale => hstale.imp fun s₂ hwrites => ?_,
        fun hstale => hstale.imp fun s₂ hoverwrites => ?_⟩
      · exact ⟨hpos, hnone.2, book, hbook, hwrites⟩
      · obtain ⟨_, _, other, hmem, hwrites⟩ := hoverwrites
        rw [hbook] at hmem
        rw [Option.mem_some_iff.mp hmem]
        exact hwrites

/-! ## A reservation between the two RPCs -/

/-- One book with ten copies. -/
def tenCopies : MySql where
  db := {
    users := fun _ => false
    books := fun id => if id = 1 then some ⟨"Dune", "Frank Herbert", 4200, 10, "active"⟩ else none
    inventory := fun id => if id = 1 then some 10 else none
    reservations := fun _ => none
    reservationItems := []
    orders := []
    orderItems := [] }
  nextKey := fun _ => 2
  faults := fun _ => false
  clock := 0

def retitle : BookUpdate := ⟨some "Dune Messiah", none, none, none, none⟩

/-- Three copies are reserved before the book is read and one after it is sent. -/
theorem patch_keeps_stock_small :
    (interleave (patch 1 retitle) [.stock (.reserve 1 3), .client, .client, .stock (.reserve 1 1)]
      tenCopies).2.db.available 1 = 6 := by
  refine ((patch_keeps_stock_iff 1 retitle rfl
    [.stock (.reserve 1 3), .client, .client, .stock (.reserve 1 1)] tenCopies).mpr ?_).trans ?_
  · intro hstale
    have hoverwrites : Overwrites 1 retitle (perform tenCopies (.reserve 1 3))
      ((server.getBook 1).run (perform tenCopies (.reserve 1 3))).2 := hstale
    obtain ⟨_, _, book, hbook, _, _, hne⟩ := hoverwrites
    have hread : readBook (perform tenCopies (.reserve 1 3)).db 1 =
        some ⟨1, "Dune", "Frank Herbert", 4200, 7, "active"⟩ := by decide
    rw [hread] at hbook
    apply hne
    rw [← Option.mem_some_iff.mp hbook]
    decide
  · decide

/-- Three copies are reserved between the two RPCs, and come back with the
second one. -/
theorem patch_restores_stock :
    retitle.stock = none ∧
    (interleave (patch 1 retitle) [.client, .stock (.reserve 1 3), .client]
      tenCopies).2.db.available 1 = 10 ∧
    tenCopies.db.available 1 + netEffect 1 (patch 1 retitle)
      [.client, .stock (.reserve 1 3), .client] tenCopies = 7 := by
  decide

end Bookstore.StockOverwrites
