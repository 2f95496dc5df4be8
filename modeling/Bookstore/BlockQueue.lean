import Bookstore.Ring
import Bookstore.Runs
import Mathlib.Order.Basic

/-!
The queue of the asynchronous log, an array with two indices that start before
its first cell and wrap around. It refines a list of bounded length. Each call
is one step, since it runs under m_mutex.
-/
namespace Bookstore.BlockQueue

structure Queue (α : Type) where
  array : List α
  size : ℤ
  maxSize : ℤ
  front : ℤ
  back : ℤ
  closed : Bool
deriving DecidableEq

inductive Op (α : Type)
  | push (item : α)
  | pop
  | popTimeout
  | front
  | back
  | clear
  | close
  | full
  | empty
  | size
  | maxSize
deriving DecidableEq

/-- `taken none` is a false answer that leaves the argument as it is. -/
inductive Reply (α : Type)
  | done
  | answer (yes : Bool)
  | taken (item : Option α)
  | number (n : ℤ)
deriving DecidableEq

variable {α : Type}

namespace Queue

/-- A new queue, `fresh` in its cells; `none` for invalid_argument. -/
def create (maxSize : ℤ) (fresh : ℕ → α) : Option (Queue α) :=
  if maxSize ≤ 0 then none
  else some ⟨(List.range maxSize.toNat).map fresh, 0, maxSize, -1, -1, false⟩

variable (q : Queue α)

/-- `none` outside the array. -/
def read (i : ℤ) : Option α :=
  if 0 ≤ i then q.array[i.toNat]? else none

/-- `none` outside the array. -/
def write (i : ℤ) (item : α) : Option (List α) :=
  if 0 ≤ i ∧ i < q.array.length then some (q.array.set i.toNat item) else none

def takeFront : Option (Reply α × Queue α) :=
  let front := (q.front + 1).tmod q.maxSize
  (q.read front).map fun item =>
    (.taken (some item), { q with front := front, size := q.size - 1 })

def push (item : α) : Option (Reply α × Queue α) :=
  if q.maxSize ≤ q.size then some (.answer false, q)
  else
    let back := (q.back + 1).tmod q.maxSize
    (q.write back item).map fun array =>
      (.answer true, { q with array := array, back := back, size := q.size + 1 })

/-- What both waits look at. -/
def ready : Bool := 0 < q.size ∨ q.closed

/-- `none` also while the caller waits. -/
def pop : Option (Reply α × Queue α) :=
  if q.ready then
    if q.closed ∧ q.size ≤ 0 then some (.taken none, q) else q.takeFront
  else none

/-- A call whose wait ends with the condition met, or with the timeout. -/
def popTimeout : Option (Reply α × Queue α) :=
  if ¬ q.ready ∨ q.closed ∧ q.size ≤ 0 then some (.taken none, q) else q.takeFront

def peekFront : Option (Reply α) :=
  if q.size = 0 then some (.taken none)
  else (q.read ((q.front + 1).tmod q.maxSize)).map fun item => .taken (some item)

def peekBack : Option (Reply α) :=
  if q.size = 0 then some (.taken none)
  else (q.read q.back).map fun item => .taken (some item)

def perform : Op α → Option (Reply α × Queue α)
  | .push item => q.push item
  | .pop => q.pop
  | .popTimeout => q.popTimeout
  | .front => q.peekFront.map fun r => (r, q)
  | .back => q.peekBack.map fun r => (r, q)
  | .clear => some (.done, { q with size := 0, front := -1, back := -1 })
  | .close => some (.done, { q with closed := true })
  | .full => some (.answer (q.maxSize ≤ q.size), q)
  | .empty => some (.answer (q.size = 0), q)
  | .size => some (.number q.size, q)
  | .maxSize => some (.number q.maxSize, q)

end Queue

/-- The elements in the order in which they came. -/
structure Fifo (α : Type) (capacity : ℕ) where
  items : List α
  closed : Bool
  fits : items.length ≤ capacity

namespace Fifo

variable {capacity : ℕ} (f : Fifo α capacity)

def start : Fifo α capacity := ⟨[], false, Nat.zero_le _⟩

def rest : Fifo α capacity where
  items := f.items.tail
  closed := f.closed
  fits := by
    have hfits := f.fits
    rw [List.length_tail]
    omega

def push (item : α) (h : f.items.length < capacity) : Fifo α capacity where
  items := f.items ++ [item]
  closed := f.closed
  fits := by
    rw [List.length_append, List.length_singleton]
    omega

/-- `none` while the caller of pop waits. -/
def perform : Op α → Option (Reply α × Fifo α capacity)
  | .push item =>
    if h : f.items.length < capacity then some (.answer true, f.push item h)
    else some (.answer false, f)
  | .pop => if f.items = [] ∧ f.closed = false then none else some (.taken f.items.head?, f.rest)
  | .popTimeout => some (.taken f.items.head?, f.rest)
  | .front => some (.taken f.items.head?, f)
  | .back => some (.taken f.items.getLast?, f)
  | .clear => some (.done, ⟨[], f.closed, Nat.zero_le _⟩)
  | .close => some (.done, { f with closed := true })
  | .full => some (.answer (f.items.length = capacity), f)
  | .empty => some (.answer f.items.isEmpty, f)
  | .size => some (.number f.items.length, f)
  | .maxSize => some (.number capacity, f)

end Fifo

/-! ## The array and the list -/

/-- The elements stand after m_front and end at m_back. The two indices are
`start - 1` and `stop - 1`. -/
structure Stands {capacity : ℕ} (q : Queue α) (f : Fifo α capacity) (start stop : ℕ) :
    Prop where
  maxSize : q.maxSize = capacity
  cells : q.array.length = capacity
  size : q.size = f.items.length
  closed : q.closed = f.closed
  front : q.front + 1 = start
  back : q.back + 1 = stop
  items : Ring.Holds q.array start f.items
  meets : (start + f.items.length) % capacity = stop % capacity
  bound : stop ≤ capacity
  written : f.items ≠ [] → 0 < stop

def Represents {capacity : ℕ} (q : Queue α) (f : Fifo α capacity) : Prop :=
  ∃ start stop, Stands q f start stop

namespace Stands

variable {capacity : ℕ} {q : Queue α} {f : Fifo α capacity} {start stop : ℕ}

theorem read_front (h : Stands q f start stop) :
    q.read ((q.front + 1).tmod q.maxSize) = q.array[start % q.array.length]? := by
  rw [h.front, h.maxSize, h.cells, ← Int.ofNat_tmod, Queue.read,
    if_pos (Int.natCast_nonneg _), Int.toNat_natCast]

/-- Taking the first element moves m_front by one cell, around the end. -/
theorem takeFront {item : α} {later : List α} (h : Stands q f start stop)
    (hitems : f.items = item :: later) :
    Runs.Matches Represents q.takeFront (some (.taken (some item), f.rest)) := by
  have hholds := h.items
  have hmeets := h.meets
  have hsize := h.size
  rw [hitems] at hholds hmeets hsize
  rw [List.length_cons] at hmeets hsize
  have hread : q.read ((q.front + 1).tmod q.maxSize) = some item := by
    rw [h.read_front, hholds.head]
  simp only [Queue.takeFront, hread, Option.map_some]
  refine .some ⟨rfl, start % capacity + 1, stop, ?_⟩
  have hrest : f.rest.items = later := by
    show f.items.tail = later
    rw [hitems, List.tail_cons]
  constructor
  · exact h.maxSize
  · exact h.cells
  · show q.size - 1 = f.rest.items.length
    rw [hrest]
    omega
  · exact h.closed
  · show (q.front + 1).tmod q.maxSize + 1 = _
    rw [h.front, h.maxSize, ← Int.ofNat_tmod]
    rfl
  · exact h.back
  · rw [hrest]
    refine hholds.tail.restart ?_
    rw [h.cells, Nat.mod_add_mod]
  · rw [hrest, ← hmeets, Nat.add_assoc, Nat.mod_add_mod, Nat.add_comm 1]
  · exact h.bound
  · intro _
    exact h.written (by rw [hitems]; exact List.cons_ne_nil _ _)

theorem push (h : Stands q f start stop) (item : α) :
    Runs.Matches Represents (q.push item) (f.perform (.push item)) := by
  have hsize := h.size
  have hmax := h.maxSize
  by_cases hroom : f.items.length < capacity
  · have hcell : stop % capacity < capacity := Nat.mod_lt _ (by omega)
    have hback : (q.back + 1).tmod q.maxSize = (stop % capacity : ℕ) := by
      rw [h.back, h.maxSize, ← Int.ofNat_tmod]
    have hwrite : q.write (stop % capacity : ℕ) item =
        some (q.array.set (stop % capacity) item) := by
      rw [Queue.write, if_pos ⟨Int.natCast_nonneg _, by rw [h.cells]; omega⟩,
        Int.toNat_natCast]
    simp only [Queue.push, Fifo.perform, if_neg (show ¬ q.maxSize ≤ q.size by omega),
      dif_pos hroom, hback, hwrite, Option.map_some]
    refine .some ⟨rfl, start, stop % capacity + 1, ?_⟩
    constructor
    · exact h.maxSize
    · show (q.array.set _ item).length = capacity
      rw [List.length_set, h.cells]
    · show q.size + 1 = (f.items ++ [item]).length
      rw [List.length_append, List.length_singleton]
      omega
    · exact h.closed
    · exact h.front
    · rfl
    · show Ring.Holds (q.array.set (stop % capacity) item) start (f.items ++ [item])
      have hsnoc := h.items.snoc (x := item) (by rw [h.cells]; exact hroom)
      rw [h.cells, h.meets] at hsnoc
      exact hsnoc
    · show (start + (f.items ++ [item]).length) % capacity = _
      rw [List.length_append, List.length_singleton, ← Nat.add_assoc, Nat.add_mod, h.meets,
        ← Nat.add_mod, Nat.mod_add_mod]
    · omega
    · intro _
      exact Nat.succ_pos _
  · simp only [Queue.push, Fifo.perform, if_pos (show q.maxSize ≤ q.size by omega),
      dif_neg hroom]
    exact .some ⟨rfl, start, stop, h⟩

theorem empty_iff (h : Stands q f start stop) : q.size ≤ 0 ↔ f.items = [] := by
  have hsize := h.size
  rw [← List.length_eq_zero_iff]
  omega

theorem ready_iff (h : Stands q f start stop) :
    q.ready = true ↔ ¬ (f.items = [] ∧ f.closed = false) := by
  rw [Queue.ready, decide_eq_true_eq, ← not_le, h.empty_iff, h.closed, not_and_or,
    Bool.not_eq_false]

/-- The wait of pop is over and there is nothing to take. -/
theorem ended_iff (h : Stands q f start stop) :
    (q.closed = true ∧ q.size ≤ 0) ↔ f.items = [] ∧ f.closed = true := by
  rw [h.closed, h.empty_iff, and_comm]

theorem rest_of_empty (hitems : f.items = []) : f.rest = f := by
  obtain ⟨items, closed, fits⟩ := f
  cases hitems
  rfl

theorem pop (h : Stands q f start stop) :
    Runs.Matches Represents q.pop (f.perform .pop) := by
  simp only [Queue.pop, Fifo.perform, h.ready_iff, h.ended_iff]
  cases hitems : f.items with
  | nil =>
    cases hclosed : f.closed with
    | false =>
      simp only [and_self, not_true_eq_false, if_false, if_true]
      exact .none
    | true =>
      simp only [rest_of_empty hitems]
      exact .some ⟨rfl, start, stop, h⟩
  | cons item later =>
    simpa using h.takeFront hitems

theorem popTimeout (h : Stands q f start stop) :
    Runs.Matches Represents q.popTimeout (f.perform .popTimeout) := by
  simp only [Queue.popTimeout, Fifo.perform, h.ready_iff, h.ended_iff]
  cases hitems : f.items with
  | nil =>
    cases hclosed : f.closed with
    | false | true =>
      simp only [rest_of_empty hitems]
      exact .some ⟨rfl, start, stop, h⟩
  | cons item later =>
    simpa using h.takeFront hitems

theorem front_reply (h : Stands q f start stop) :
    q.peekFront = some (.taken f.items.head?) := by
  have hsize := h.size
  rw [Queue.peekFront, h.read_front]
  cases hitems : f.items with
  | nil =>
    rw [hitems, List.length_nil, Int.natCast_zero] at hsize
    rw [if_pos hsize, List.head?_nil]
  | cons item later =>
    have hholds := h.items
    rw [hitems] at hholds hsize
    rw [List.length_cons] at hsize
    rw [if_neg (by omega), hholds.head, Option.map_some, List.head?_cons]

theorem back_reply (h : Stands q f start stop) :
    q.peekBack = some (.taken f.items.getLast?) := by
  have hsize := h.size
  have hback := h.back
  have hbound := h.bound
  rw [Queue.peekBack]
  rcases List.eq_nil_or_concat f.items with hitems | ⟨before, item, hitems⟩
  · rw [hitems, List.length_nil, Int.natCast_zero] at hsize
    rw [hitems, if_pos hsize, List.getLast?_nil]
  · rw [List.concat_eq_append] at hitems
    have hholds := h.items
    have hmeets := h.meets
    have hstop := h.written (by rw [hitems]; exact List.concat_ne_nil _ _)
    rw [hitems] at hholds hmeets hsize ⊢
    rw [List.length_append, List.length_singleton] at hmeets hsize
    have hcell : (start + before.length) % q.array.length = stop - 1 := by
      have hmod : start + before.length ≡ stop - 1 [MOD capacity] := by
        refine Nat.ModEq.add_right_cancel' 1 ?_
        rw [Nat.sub_add_cancel hstop, Nat.add_assoc]
        exact hmeets
      rw [h.cells, hmod, Nat.mod_eq_of_lt (by omega)]
    have hindex : q.back = (stop - 1 : ℕ) := by omega
    rw [if_neg (by omega), List.getLast?_concat, hindex, Queue.read,
      if_pos (Int.natCast_nonneg _), Int.toNat_natCast, ← hcell, hholds.last, Option.map_some]

/-- One call on the array is the same call on the list. -/
theorem perform (h : Stands q f start stop) (op : Op α) :
    Runs.Matches Represents (q.perform op) (f.perform op) := by
  have hsize := h.size
  have hmax := h.maxSize
  cases op with
  | push item => exact h.push item
  | pop => exact h.pop
  | popTimeout => exact h.popTimeout
  | front =>
    rw [Queue.perform, h.front_reply]
    exact .some ⟨rfl, start, stop, h⟩
  | back =>
    rw [Queue.perform, h.back_reply]
    exact .some ⟨rfl, start, stop, h⟩
  | clear =>
    refine .some ⟨rfl, 0, 0, ?_⟩
    exact ⟨h.maxSize, h.cells, rfl, h.closed, rfl, rfl, Ring.holds_nil, rfl, Nat.zero_le _,
      fun hne => absurd rfl hne⟩
  | close =>
    refine .some ⟨rfl, start, stop, ?_⟩
    exact ⟨h.maxSize, h.cells, h.size, rfl, h.front, h.back, h.items, h.meets, h.bound, h.written⟩
  | full =>
    have hfits := f.fits
    refine .some ⟨congrArg Reply.answer ?_, start, stop, h⟩
    exact decide_eq_decide.mpr (by omega)
  | empty =>
    refine .some ⟨congrArg Reply.answer ?_, start, stop, h⟩
    have hempty : q.size = 0 ↔ f.items.isEmpty = true := by
      rw [List.isEmpty_iff, ← List.length_eq_zero_iff]
      omega
    rw [Bool.eq_iff_iff, decide_eq_true_eq]
    exact hempty
  | size => exact .some ⟨congrArg Reply.number hsize, start, stop, h⟩
  | maxSize => exact .some ⟨congrArg Reply.number hmax, start, stop, h⟩

end Stands

theorem represents_create {capacity : ℕ} {fresh : ℕ → α} {q : Queue α}
    (hcreate : Queue.create capacity fresh = some q) :
    Represents q (Fifo.start : Fifo α capacity) := by
  rw [Queue.create] at hcreate
  split at hcreate
  · cases hcreate
  · cases hcreate
    refine ⟨0, 0, ?_⟩
    exact ⟨rfl, by simp, rfl, rfl, rfl, rfl, Ring.holds_nil, rfl, Nat.zero_le _,
      fun hne => absurd rfl hne⟩

theorem replies_represent {capacity : ℕ} {fresh : ℕ → α} {q : Queue α}
    (hcreate : Queue.create capacity fresh = some q) (ops : List (Op α)) :
    Runs.Matches Represents (Runs.replies Queue.perform q ops)
      (Runs.replies Fifo.perform (Fifo.start : Fifo α capacity) ops) :=
  Runs.replies_refine (fun _ _ op h => h.elim fun _ h => h.elim fun _ h => h.perform op)
    (represents_create hcreate) ops

/-! ## Closing -/

theorem replies_pops {capacity : ℕ} {items : List α} (fits : items.length ≤ capacity) :
    (Runs.replies Fifo.perform (⟨items, true, fits⟩ : Fifo α capacity)
        (List.replicate (items.length + 1) .pop)).map Prod.fst =
      some (items.map (fun item => .taken (some item)) ++ [.taken none]) := by
  induction items with
  | nil => rfl
  | cons item later ih =>
    rw [List.length_cons, List.replicate_succ, Runs.replies]
    have hpop : (⟨item :: later, true, fits⟩ : Fifo α capacity).perform .pop =
        some (.taken (some item), ⟨later, true, Nat.le_of_succ_le fits⟩) := rfl
    rw [hpop, Option.bind_some, Option.map_map]
    have hrest := congrArg (Option.map (Reply.taken (some item) :: ·))
      (ih (Nat.le_of_succ_le fits))
    rw [Option.map_map] at hrest
    exact hrest

/-- The queue of the log answers every sequence of calls as the list of at most
`capacity` elements does. From any state, closing it and popping gives the
remaining elements in order and then a false answer. -/
theorem block_queue_refines_fifo (capacity : ℕ) (hcapacity : 1 ≤ capacity) (fresh : ℕ → α) :
    ∃ q, Queue.create capacity fresh = some q ∧
      (∀ ops, (Runs.replies Queue.perform q ops).map Prod.fst =
        (Runs.replies Fifo.perform (Fifo.start : Fifo α capacity) ops).map Prod.fst) ∧
      ∀ ops replies (f : Fifo α capacity),
        Runs.replies Fifo.perform Fifo.start ops = some (replies, f) →
        (Runs.replies Queue.perform q
            (ops ++ .close :: List.replicate (f.items.length + 1) .pop)).map Prod.fst =
          some (replies ++ .done :: f.items.map (fun item => .taken (some item)) ++
            [.taken none]) := by
  have hcreate : ∃ q, Queue.create (capacity : ℤ) fresh = some q :=
    ⟨_, if_neg (by omega)⟩
  obtain ⟨q, hq⟩ := hcreate
  have hsame := fun ops => (replies_represent hq ops).fst_eq
  refine ⟨q, hq, hsame, fun ops replies f hops => ?_⟩
  have hclose : f.perform .close = some (.done, ⟨f.items, true, f.fits⟩) := rfl
  obtain ⟨⟨later, g⟩, hpops, hlater⟩ := Option.map_eq_some_iff.mp (replies_pops f.fits)
  rw [hsame, Runs.replies_append, hops]
  simp only [Runs.replies, Option.bind_some, hclose, hpops, Option.map_some, List.append_assoc,
    List.cons_append, ← hlater]

/-- Two cells: a third element waits for a free one, then goes around the end. -/
theorem two_cells_wrap :
    ∃ q, Queue.create 2 (fun _ => 0) = some q ∧
      (Runs.replies Queue.perform q
          [.push 5, .push 6, .push 7, .pop, .push 7, .back, .pop, .pop, .popTimeout]).map Prod.fst =
        some [.answer true, .answer true, .answer false, .taken (some 5), .answer true,
          .taken (some 7), .taken (some 6), .taken (some 7), .taken none] := by
  obtain ⟨q, hq, hsame, _⟩ := block_queue_refines_fifo 2 (by omega) fun _ => 0
  exact ⟨q, hq, (hsame _).trans (by decide)⟩

end Bookstore.BlockQueue
