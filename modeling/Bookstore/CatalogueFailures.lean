import Bookstore.MysqlService
import Bookstore.PatchedBooks

/-!
create_book and update_book of MysqlBookRepository when one of their statements
fails. create_book writes both tables in a transaction, update_book writes them
one after the other, and both read the book back when the writes are durable.
-/
namespace Bookstore.CatalogueFailures

open Books Database Interleaving MysqlBooks PatchedBooks Records Transactions
open Transactions.Session
open MysqlInventory hiding repository

def Restored (before after : Db) : Prop :=
  after.books = before.books ∧ after.inventory = before.inventory

/-- When the call answers with no book, the two tables are as before it. The
statement at `point` of the call fails. -/
def Harmless (call : Prog MySql (Option Book)) (point : Option ℕ) (s : MySql) : Prop :=
  (call.run (s.failing point)).1 = none → Restored s.db (call.run (s.failing point)).2.db

/-- The id column of books is INT UNSIGNED, and its counter starts at one. -/
structure Keyed (s : MySql) : Prop where
  unsigned : ∀ key, (s.db.books key).isSome → IsUnsigned key
  counter : 0 < s.nextKey .books

/-! ## create_book -/

/-- The row that create_book inserts. -/
def newRow (book : Book) : BookRow :=
  ⟨book.title, book.author, book.priceCents.toInt, book.stock.toInt,
    if book.status = "" then "active" else book.status⟩

/-- The tables take both rows of the book. -/
def Insertable (book : Book) (s : MySql) : Prop :=
  (insertBook (newRow book) (s.nextKey .books)).result s.db = some () ∧
    (insertInventory (atoi (s.nextKey .books)).toInt book.stock.toInt).result
      ((insertBook (newRow book) (s.nextKey .books)).effect s.db) = some ()

def inserted (book : Book) (s : MySql) : Db :=
  (insertInventory (atoi (s.nextKey .books)).toInt book.stock.toInt).effect
    ((insertBook (newRow book) (s.nextKey .books)).effect s.db)

/-- The statements of create_book up to the end of its transaction. -/
def createSession (book : Book) : Sql (Option Int32) := do
  if ← startTransaction then
    match ← createRows book with
    | none => do
      rollback
      pure none
    | some bookId =>
      if ← commit then pure (some bookId)
      else do
        rollback
        pure none
  else pure none

theorem createBook_eq (book : Book) :
    MysqlBooks.createBook book = if Refused book then pure none
      else withConnection (createSession book) >>= fun created =>
        match created with
        | none => pure none
        | some bookId => findBook bookId := rfl

theorem createRows_eq (book : Book) :
    createRows book = insertKeyed .books (insertBook (newRow book)) >>= fun key =>
      match key with
      | none => pure none
      | some key =>
        query (insertInventory (atoi key).toInt book.stock.toInt) >>= fun stored =>
          match stored with
          | none => pure none
          | some () => pure (some (atoi key)) := rfl

/-- The INSERTs go through: both are logged. -/
theorem createRows_accepted {book : Book} {s : MySql} (hrows : Insertable book s)
    (hfirst : s.faults s.clock = false) (hsecond : s.faults (s.clock + 1) = false) :
    ∃ g t, exec (createRows book) (some id) s = ((some (atoi (s.nextKey .books)), some g), t) ∧
      t.db = s.db ∧ g s.db = inserted book s ∧ t.faults = s.faults ∧ t.clock = s.clock + 2 := by
  have hbook := insertKeyed_accepted .books (insertBook (newRow book)) id s hfirst hrows.1
  refine ⟨(insertInventory (atoi (s.nextKey .books)).toInt book.stock.toInt).effect ∘
      (insertBook (newRow book) (s.nextKey .books)).effect ∘ id,
    { s.tick.tick with nextKey := Function.update s.nextKey .books (s.nextKey .books + 1) },
    ?_, rfl, rfl, rfl, rfl⟩
  rw [createRows_eq, exec_bind, hbook]
  simp only [exec_bind]
  rw [query_accepted _ _ _ hsecond hrows.2]
  rfl

/-- The INSERTs do not go through: the tables are as before. -/
theorem createRows_refused {book : Book} {s : MySql}
    (h : ¬ (Insertable book s ∧ s.faults s.clock = false ∧ s.faults (s.clock + 1) = false)) :
    ∃ g t, exec (createRows book) (some id) s = ((none, some g), t) ∧ t.db = s.db := by
  rw [createRows_eq]
  by_cases hbook : s.faults s.clock = false ∧
      (insertBook (newRow book) (s.nextKey .books)).result s.db = some ()
  · obtain ⟨hfault, hresult⟩ := hbook
    rw [exec_bind, insertKeyed_accepted .books (insertBook (newRow book)) id s hfault hresult]
    simp only [exec_bind]
    rcases query_cases (insertInventory (atoi (s.nextKey .books)).toInt book.stock.toInt)
      ((insertBook (newRow book) (s.nextKey .books)).effect ∘ id) { s.tick with
        nextKey := Function.update s.nextKey .books (s.nextKey .books + 1) } with
      ⟨hnone, _⟩ | ⟨a, ha, hsome⟩
    · rw [hnone]
      exact ⟨_, _, rfl, rfl⟩
    · cases hlater : s.faults (s.clock + 1) with
      | true =>
        rw [query_faulty _ _ _ hlater]
        exact ⟨_, _, rfl, rfl⟩
      | false => exact absurd ⟨⟨hresult, ha⟩, hfault, hlater⟩ h
  · rw [exec_bind, insertKeyed_refused .books (insertBook (newRow book)) id s hbook]
    exact ⟨_, _, rfl, rfl⟩

/-- The first `n` statements go through. -/
def Runs (n : ℕ) (s : MySql) : Prop := ∀ k < n, s.faults (s.clock + k) = false

theorem createSession_accepted {book : Book} {s : MySql} (hrows : Insertable book s)
    (hruns : Runs 4 s) :
    ∃ t, exec (createSession book) none s = ((some (atoi (s.nextKey .books)), none), t) ∧
      t.db = inserted book s ∧ t.faults = s.faults ∧ t.clock = s.clock + 4 := by
  obtain ⟨g, t, hexec, hdb, hg, hfaults, hclock⟩ :=
    @createRows_accepted book s.tick hrows (hruns 1 (by omega)) (hruns 2 (by omega))
  have hcommit : t.faults t.clock = false := by
    rw [hfaults, hclock]
    exact hruns 3 (by omega)
  refine ⟨{ t.tick with db := g t.db }, ?_, ?_, hfaults, ?_⟩
  · rw [createSession, exec_bind, startTransaction_accepted _ _ (hruns 0 (by omega))]
    simp only [if_true, exec_bind]
    rw [hexec]
    simp only [exec_bind]
    rw [commit_accepted g t hcommit]
    rfl
  · show g t.db = _
    rw [hdb]
    exact hg
  · show t.clock + 1 = _
    rw [hclock]
    rfl

theorem createSession_refused {book : Book} {s : MySql} (h : ¬ (Insertable book s ∧ Runs 4 s)) :
    ∃ t, exec (createSession book) none s = ((none, none), t) ∧ t.db = s.db := by
  rw [createSession, exec_bind]
  cases hstart : s.faults s.clock with
  | true =>
    rw [startTransaction_faulty _ _ hstart]
    exact ⟨_, rfl, rfl⟩
  | false =>
    rw [startTransaction_accepted _ _ hstart]
    simp only [if_true, exec_bind]
    by_cases hrows : Insertable book s.tick ∧ s.tick.faults s.tick.clock = false ∧
        s.tick.faults (s.tick.clock + 1) = false
    · obtain ⟨hinsertable, hfirst, hsecond⟩ := hrows
      obtain ⟨g, t, hexec, hdb, _, hfaults, hclock⟩ :=
        createRows_accepted hinsertable hfirst hsecond
      rw [hexec]
      simp only [exec_bind]
      have hcommit : t.faults t.clock = true := by
        rw [← Bool.not_eq_false]
        intro hquiet
        rw [hfaults, hclock] at hquiet
        refine h ⟨hinsertable, fun k hk => ?_⟩
        match k, hk with
        | 0, _ => exact hstart
        | 1, _ => exact hfirst
        | 2, _ => exact hsecond
        | 3, _ => exact hquiet
      rw [commit_faulty g t hcommit]
      exact ⟨_, rfl, hdb⟩
    · obtain ⟨g, t, hexec, hdb⟩ := createRows_refused hrows
      rw [hexec]
      exact ⟨_, rfl, hdb⟩

/-- The key that the API can name is the key of the row. -/
theorem inserted_key {book : Book} {s : MySql} (hkeyed : Keyed s) (hrows : Insertable book s) :
    0 < (atoi (s.nextKey .books)).toInt ∧
      (atoi (s.nextKey .books)).toInt = s.nextKey .books ∧
      s.db.books (s.nextKey .books) = none := by
  obtain ⟨hbook, hstock⟩ := hrows
  have hcounter := hkeyed.counter
  simp only [insertBook] at hbook
  split at hbook
  · rename_i haccepted
    obtain ⟨_, _, _, _, _, hkey, hfree⟩ := haccepted
    simp only [insertInventory, insertBook] at hstock
    split at hstock
    · rename_i hrow
      have hsome := hrow.2.1
      have hnonneg : 0 ≤ (atoi (s.nextKey .books)).toInt := by
        by_cases hown : (atoi (s.nextKey .books)).toInt = s.nextKey .books
        · omega
        · rw [Function.update_of_ne hown] at hsome
          exact (hkeyed.unsigned _ hsome).1
      have hown := MysqlService.atoi_own hkey hnonneg
      exact ⟨by omega, hown, hfree⟩
    · cases hstock
  · cases hbook

theorem inserted_books {book : Book} {s : MySql} (hkeyed : Keyed s) (hrows : Insertable book s) :
    (inserted book s).books (atoi (s.nextKey .books)).toInt = some (newRow book) := by
  rw [(inserted_key hkeyed hrows).2.1]
  exact Function.update_self ..

theorem run_createBook {book : Book} (hvalid : ¬ Refused book) (s : MySql) :
    (MysqlBooks.createBook book).run s = match (exec (createSession book) none s).1.1 with
      | none => (none, (exec (createSession book) none s).2)
      | some bookId => (findBook bookId).run (exec (createSession book) none s).2 := by
  simp only [createBook_eq, hvalid, if_false, Prog.run_bind, run_withConnection]
  split
  · rfl
  · rfl

/-- A create_book whose transaction goes through: only the final read can fail. -/
theorem createBook_accepted {book : Book} (hvalid : ¬ Refused book) {s : MySql}
    (hkeyed : Keyed s) (hrows : Insertable book s) (hruns : Runs 4 s) :
    ∃ r t, (MysqlBooks.createBook book).run s = (r, t) ∧ t.db = inserted book s ∧
      (r = none ↔ s.faults (s.clock + 4) = true) := by
  obtain ⟨t, hexec, hdb, hfaults, hclock⟩ := createSession_accepted hrows hruns
  have hkey := inserted_key hkeyed hrows
  obtain ⟨c, hfind⟩ := run_findBook (atoi (s.nextKey .books)) t
  have hpos : ¬ atoi (s.nextKey .books) ≤ 0 := by
    rw [Int32.le_iff_toInt_le, Int32.toInt_zero]
    omega
  rw [run_createBook hvalid, hexec]
  refine ⟨_, _, hfind, hdb, ?_⟩
  rw [hdb, joined, inserted_books hkeyed hrows, hfaults, hclock]
  simp only [hpos, false_or, Option.map_some]
  split
  · rename_i hfault
    exact iff_of_true rfl hfault
  · rename_i hquiet
    exact iff_of_false (Option.some_ne_none _) hquiet

theorem createBook_refused {book : Book} {s : MySql}
    (h : Refused book ∨ ¬ (Insertable book s ∧ Runs 4 s)) :
    ((MysqlBooks.createBook book).run s).2.db = s.db := by
  by_cases hvalid : Refused book
  · rw [createBook_eq, if_pos hvalid]
    rfl
  · obtain ⟨t, hexec, hdb⟩ := createSession_refused (h.resolve_left hvalid)
    rw [run_createBook hvalid, hexec]
    exact hdb

/-- The statements before the only one that fails go through. -/
theorem runs_failing (s : MySql) {point : Option ℕ} {n : ℕ} (h : ∀ k < n, point ≠ some k) :
    Runs n (s.failing point) := by
  intro k hk
  refine (s.failing_faults point k).trans (decide_eq_false_iff_not.mpr (h k hk))

/-- A failed create_book changes nothing, unless only the final read fails. -/
theorem createBook_harmless_iff {s : MySql} (hkeyed : Keyed s) (book : Book)
    (point : Option ℕ) :
    Harmless (MysqlBooks.createBook book) point s ↔
      ¬ (point = some 4 ∧ ¬ Refused book ∧ Insertable book s) := by
  by_cases hall : ¬ Refused book ∧ Insertable book s ∧ Runs 4 (s.failing point)
  · obtain ⟨hvalid, hrows, hruns⟩ := hall
    obtain ⟨r, t, hrun, hdb, hnone⟩ :=
      @createBook_accepted book hvalid (s.failing point) ⟨hkeyed.1, hkeyed.2⟩ hrows hruns
    have hlast : r = none ↔ point = some 4 := by
      rw [hnone]
      exact (Bool.eq_iff_iff.mp (s.failing_faults point 4)).trans (decide_eq_true_iff)
    have hchanged : ¬ Restored s.db t.db := by
      intro hrestored
      have hrow := inserted_books (s := s) hkeyed hrows
      rw [(inserted_key hkeyed hrows).2.1] at hrow
      have hsame := congrFun hrestored.1 (s.nextKey .books)
      rw [hdb, (inserted_key hkeyed hrows).2.2] at hsame
      exact absurd (hrow.symm.trans hsame) (Option.some_ne_none _)
    rw [Harmless, hrun, hlast]
    exact ⟨fun h hbad => hchanged (h hbad.1), fun h hpoint => absurd ⟨hpoint, hvalid, hrows⟩ h⟩
  · refine iff_of_true (fun _ => ?_) fun h => ?_
    · have hdb := @createBook_refused book (s.failing point) (by tauto)
      rw [hdb]
      exact ⟨rfl, rfl⟩
    · refine hall ⟨h.2.1, h.2.2, runs_failing s fun k hk heq => ?_⟩
      rw [h.1, Option.some.injEq] at heq
      omega

/-! ## update_book -/

/-- The tables take the UPDATE, and it changes the row of the book. -/
def Changes (bookId : Int32) (update : BookUpdate) (s : MySql) : Prop :=
  ∃ row, s.db.books bookId.toInt = some row ∧ Fits update ∧ assign update row ≠ row

theorem updateRows_unchanged {bookId : Int32} {update : BookUpdate} {s : MySql}
    (h : ¬ (s.faults s.clock = false ∧ Changes bookId update s)) :
    exec (updateRows bookId update) none s = ((false, none), s.tick) := by
  cases hfault : s.faults s.clock with
  | true =>
    unfold updateRows
    rw [exec_bind, query_faulty _ _ _ hfault]
    rfl
  | false =>
    cases hrow : s.db.books bookId.toInt with
    | none =>
      have hresult : (setBook bookId.toInt update).result s.db = some 0 := by
        simp only [setBook, hrow]
      have heffect : (setBook bookId.toInt update).effect s.db = s.db := by
        simp only [setBook, hrow]
      unfold updateRows
      rw [exec_bind, query_accepted _ none s hfault hresult]
      simp only [record, heffect]
      rfl
    | some row =>
      by_cases hfits : Fits update
      · refine updateRows_same hrow hfits hfault ?_
        by_contra hchange
        exact h ⟨hfault, row, hrow, hfits, hchange⟩
      · have hresult : (setBook bookId.toInt update).result s.db = none := by
          simp only [setBook, hrow]
          exact if_pos hfits
        unfold updateRows
        rw [exec_bind, query_rejected _ none s hresult]
        rfl

/-- An update_book whose UPDATE goes through: the statement on the inventory can
fail, and the final read. -/
theorem updateBook_accepted {bookId : Int32} (hpos : 0 < bookId) {update : BookUpdate} {s : MySql}
    (hchanges : Changes bookId update s) (hfirst : s.faults s.clock = false) :
    ∃ r t, (MysqlBooks.updateBook bookId update).run s = (r, t) ∧ ¬ Restored s.db t.db ∧
      (r = none ↔ s.faults (s.clock + 1) = true ∨
        update.stock.isSome = true ∧ s.faults (s.clock + 2) = true) := by
  obtain ⟨row, hrow, hfits, hchange⟩ := hchanges
  have hfields : update ≠ noFields := by
    intro hnone
    rw [hnone] at hchange
    exact hchange rfl
  have hmoved {db : Db} (h : db.books bookId.toInt = some (assign update row)) :
      ¬ Restored s.db db := by
    intro hrestored
    rw [hrestored.1, hrow, Option.some.injEq] at h
    exact hchange h.symm
  rw [run_updateBook hpos hfields]
  by_cases hfails : StockFails update s
  · obtain ⟨t, hexec, hbooks⟩ := updateRows_half hrow hfits hfirst hfails hchange
    rw [hexec]
    exact ⟨none, t, rfl, hmoved hbooks, iff_of_true rfl (.inl hfails.2)⟩
  · obtain ⟨t, hexec, hdb, hfaults, hclock, _⟩ :=
      updateRows_changed hrow hfits hfirst hfails hchange
    have hbooks : t.db.books bookId.toInt = some (assign update row) := by
      rw [hdb]
      exact Function.update_self ..
    obtain ⟨c, hfind⟩ := run_findBook bookId t
    have hid : ¬ bookId ≤ 0 := Int32.not_le.mpr hpos
    rw [hexec]
    refine ⟨_, _, hfind, hmoved hbooks, ?_⟩
    have hnone : (if bookId ≤ 0 ∨ t.faults t.clock = true then none
        else (joined t.db bookId.toInt).map (bookFromRow bookId.toInt)) = none ↔
        t.faults t.clock = true := by
      simp only [hid, false_or, joined, hbooks, Option.map_some]
      split
      · rename_i hfault
        exact iff_of_true rfl hfault
      · rename_i hquiet
        exact iff_of_false (Option.some_ne_none _) hquiet
    rw [hnone, hfaults, hclock]
    rw [StockFails] at hfails
    cases hstock : update.stock with
    | none => simp only [Option.isSome_none, Bool.false_eq_true, if_false, false_and, or_false]
    | some stock =>
      rw [hstock, Option.isSome_some] at hfails
      simp only [true_and, Bool.not_eq_true] at hfails
      simp only [Option.isSome_some, if_true, true_and, hfails, Bool.false_eq_true, false_or]

theorem updateBook_unchanged {bookId : Int32} {update : BookUpdate} {s : MySql}
    (h : ¬ (0 < bookId ∧ Changes bookId update s ∧ s.faults s.clock = false)) :
    ((MysqlBooks.updateBook bookId update).run s).2.db = s.db := by
  by_cases hpos : 0 < bookId
  · by_cases hfields : update = noFields
    · obtain ⟨c, hfind⟩ := run_findBook bookId s
      rw [hfields, updateBook_noFields hpos, hfind]
    · rw [run_updateBook hpos hfields, updateRows_unchanged (by tauto)]
      rfl
  · rw [MysqlBooks.updateBook, if_pos (Int32.not_lt.mp hpos)]
    rfl

/-- A failed update_book changes nothing, unless it has changed the row of the
book and a later statement fails: the one on the inventory or the final read. -/
theorem updateBook_harmless_iff (s : MySql) (bookId : Int32) (update : BookUpdate)
    (point : Option ℕ) :
    Harmless (MysqlBooks.updateBook bookId update) point s ↔
      ¬ (0 < bookId ∧ Changes bookId update s ∧
        (point = some 1 ∨ point = some 2 ∧ update.stock.isSome = true)) := by
  have hfault (k : ℕ) : (s.failing point).faults (s.clock + k) = true ↔ point = some k := by
    rw [s.failing_faults, decide_eq_true_iff]
  by_cases hall : 0 < bookId ∧ Changes bookId update s ∧
      (s.failing point).faults s.clock = false
  · obtain ⟨hpos, hchanges, hfirst⟩ := hall
    obtain ⟨r, t, hrun, hmoved, hnone⟩ :=
      updateBook_accepted (s := s.failing point) hpos hchanges hfirst
    have hlast : r = none ↔ point = some 1 ∨ point = some 2 ∧ update.stock.isSome = true := by
      rw [hnone, ← hfault 1, ← hfault 2, and_comm (a := update.stock.isSome = true)]
      rfl
    rw [Harmless, hrun, hlast]
    exact ⟨fun h hbad => hmoved (h hbad.2.2), fun h hpoint => absurd ⟨hpos, hchanges, hpoint⟩ h⟩
  · refine iff_of_true (fun _ => ?_) fun h => hall ⟨h.1, h.2.1, ?_⟩
    · have hdb := updateBook_unchanged (s := s.failing point) hall
      rw [hdb]
      exact ⟨rfl, rfl⟩
    · rw [← Bool.not_eq_true]
      intro hzero
      have hpoint := (hfault 0).mp hzero
      rw [hpoint] at h
      simp at h

/-- Exactly when a catalogue write that answers with no book has left the two
tables alone, whichever of its statements has failed. -/
theorem catalogue_writes_harmless_iff {s : MySql} (hkeyed : Keyed s) (point : Option ℕ) :
    (∀ book, Harmless (MysqlBooks.createBook book) point s ↔
      ¬ (point = some 4 ∧ ¬ Refused book ∧ Insertable book s)) ∧
    ∀ bookId update, Harmless (MysqlBooks.updateBook bookId update) point s ↔
      ¬ (0 < bookId ∧ Changes bookId update s ∧
        (point = some 1 ∨ point = some 2 ∧ update.stock.isSome = true)) :=
  ⟨fun book => createBook_harmless_iff hkeyed book point,
    fun bookId update => updateBook_harmless_iff s bookId update point⟩

theorem keyed_soldCopies : Keyed soldCopies where
  unsigned key hkey := by
    simp only [soldCopies] at hkey
    split at hkey
    · rename_i hone
      rw [hone]
      decide
    · cases hkey
  counter := by decide

/-- A failing COMMIT is harmless, a failing final read is not. -/
theorem create_persuasion_harmless :
    Harmless (MysqlBooks.createBook ⟨0, "Persuasion", "Austen", 900, 4, ""⟩) (some 3) soldCopies ∧
    ¬ Harmless (MysqlBooks.createBook ⟨0, "Persuasion", "Austen", 900, 4, ""⟩) (some 4)
      soldCopies := by
  have hcommit := (catalogue_writes_harmless_iff keyed_soldCopies (some 3)).1
    ⟨0, "Persuasion", "Austen", 900, 4, ""⟩
  have hread := (catalogue_writes_harmless_iff keyed_soldCopies (some 4)).1
    ⟨0, "Persuasion", "Austen", 900, 4, ""⟩
  refine ⟨hcommit.mpr fun h => by simp at h, fun h => hread.mp h ⟨rfl, by decide, ?_⟩⟩
  exact ⟨by decide, by decide +kernel⟩

/-- The statement on the inventory fails after the UPDATE of the books: the
catalogue row says twelve, the inventory three, and the answer is none. -/
theorem restock_leaves_half :
    ¬ ∀ (s : MySql) (point : Option ℕ), Keyed s →
      (∀ book, Harmless (MysqlBooks.createBook book) point s) ∧
      ∀ bookId update, Harmless (MysqlBooks.updateBook bookId update) point s := by
  intro hall
  have hupdate := (hall soldCopies (some 1) keyed_soldCopies).2 1 (restock 12)
  have hrestored := hupdate (by decide)
  have hrow := congrFun hrestored.1 1
  exact absurd hrow (by decide)

end Bookstore.CatalogueFailures
