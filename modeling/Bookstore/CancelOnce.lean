import Bookstore.Protocols
import Bookstore.Records

/-!
What overlapping cancellations of one order may do, over any store of orders.
A request is armed from the moment it reads the order as not cancelled until
it has marked it; after that it gives the items back. As long as a second
request never arms while one is armed, what is given back stays within what
the order reserved.
-/
namespace Bookstore.CancelOnce

open Protocols Records

/-- How a store of orders is read. In a good store quantities are not negative. -/
structure OrderView (τ : Type) where
  find : τ → Int32 → Option Order
  good : τ → Prop
  nonneg : ∀ t o order, good t → find t o = some order →
    ∀ item ∈ order.items, 0 ≤ item.quantity.toInt

namespace OrderView

variable {τ : Type} (V : OrderView τ)

/-- How many copies of a book the order holds; none when there is no such order. -/
def reserved (t : τ) (o book : Int32) : ℤ :=
  match V.find t o with
  | none => 0
  | some order => quantityOf book order.items

def Cancelled (t : τ) (o : Int32) : Prop :=
  ∃ order, V.find t o = some order ∧ order.status = "cancelled"

def Open (t : τ) (o : Int32) : Prop :=
  ∃ order, V.find t o = some order ∧ order.status ≠ "cancelled"

theorem reserved_nonneg {t : τ} (h : V.good t) (o book : Int32) : 0 ≤ V.reserved t o book := by
  unfold reserved
  cases hfind : V.find t o with
  | none => exact le_refl 0
  | some order =>
    exact Tally.tally_nonneg _ _ _ _ fun item hitem => V.nonneg t o order h hfind item hitem

variable {V} in
theorem reserved_of_find {t : τ} {o : Int32} {order : Order} (h : V.find t o = some order)
    (book : Int32) : V.reserved t o book = quantityOf book order.items := by
  simp only [reserved, h]

theorem not_open_of_cancelled {t : τ} {o : Int32} (h : V.Cancelled t o) : ¬ V.Open t o := by
  rintro ⟨order, hfind, hstatus⟩
  obtain ⟨order', hfind', hstatus'⟩ := h
  rw [hfind] at hfind'
  cases hfind'
  exact hstatus hstatus'

/-- The order keeps its status, and loses none of its items. -/
structure Steady (o : Int32) (t t' : τ) : Prop where
  good : V.good t → V.good t'
  stays : (V.find t o).isSome → (V.find t' o).isSome
  cancelled : V.Cancelled t' o ↔ V.Cancelled t o
  grows : V.good t → ∀ book, V.reserved t o book ≤ V.reserved t' o book

/-- The order is cancelled afterwards, and loses none of its items. -/
structure Marks (o : Int32) (t t' : τ) : Prop where
  good : V.good t → V.good t'
  cancelled : V.Cancelled t' o
  grows : V.good t → ∀ book, V.reserved t o book ≤ V.reserved t' o book

/-- The items are part of what the order holds. -/
structure Owed (o : Int32) (items : List OrderItem) (t : τ) : Prop where
  nonneg : ∀ item ∈ items, 0 ≤ item.quantity.toInt
  covered : ∀ book, quantityOf book items ≤ V.reserved t o book

variable {V} in
/-- A step that leaves the order as it reads. -/
theorem Steady.of_find {o : Int32} {t t' : τ} (hgood : V.good t → V.good t')
    (hfind : V.find t' o = V.find t o) : V.Steady o t t' where
  good := hgood
  stays := by simp [hfind]
  cancelled := by simp only [Cancelled, hfind]
  grows := by simp [reserved, hfind]

theorem Steady.refl (o : Int32) (t : τ) : V.Steady o t t := .of_find id rfl

variable {V} in
/-- A step that stores the order for the first time. -/
theorem Steady.of_new {o : Int32} {t t' : τ} {order : Order} (hgood : V.good t → V.good t')
    (hnone : V.find t o = none) (hfind : V.find t' o = some order)
    (hstatus : order.status ≠ "cancelled") : V.Steady o t t' where
  good := hgood
  stays := by simp [hnone]
  cancelled := by simp [Cancelled, hnone, hfind, hstatus]
  grows := by
    intro h book
    have hnew := V.reserved_nonneg (hgood h) o book
    simpa only [reserved, hnone] using hnew

end OrderView

/-- Where a request stands with respect to one order. A bystander never marks
it, `rest` are the items still to be given back. -/
inductive Phase
  | bystander
  | fresh
  | armed
  | marked
  | giving (rest : List OrderItem)

/-- The moves on the store of orders. A fresh request looks in its first step,
and stays armed up to its step `window`. -/
inductive StoreMove {τ : Type} (V : OrderView τ) (window : ℕ) (o : Int32) :
    Phase → ℕ → τ → Phase → τ → Prop
  | pass {n t t'} (h : V.Steady o t t') : StoreMove V window o .bystander n t .bystander t'
  | leave {n t t'} (h : V.Steady o t t') : StoreMove V window o .fresh n t .bystander t'
  | look {t t'} (h : V.Steady o t t') (hopen : V.Open t o) (hn : 1 ≤ window) :
      StoreMove V window o .fresh 0 t .armed t'
  | hold {n t t'} (h : V.Steady o t t') (hn : n + 1 ≤ window) :
      StoreMove V window o .armed n t .armed t'
  | yields {n t t'} (h : V.Steady o t t') : StoreMove V window o .armed n t .bystander t'
  | mark {n t t'} (h : V.Marks o t t') : StoreMove V window o .armed n t .marked t'
  | markAndTake {n t t' items} (h : V.Marks o t t') (hitems : V.Owed o items t') :
      StoreMove V window o .armed n t (.giving items) t'
  | wait {n t t'} (h : V.Steady o t t') : StoreMove V window o .marked n t .marked t'
  | lose {n t t'} (h : V.Steady o t t') : StoreMove V window o .marked n t .bystander t'
  | take {n t t' items} (h : V.Steady o t t') (hitems : V.Owed o items t') :
      StoreMove V window o .marked n t (.giving items) t'

/-- The protocol of the store alone. -/
def storeProtocol {τ : Type} (V : OrderView τ) (window : ℕ) (o : Int32) : Protocol τ Phase where
  pre phase t := V.good t ∧ (phase = .armed → (V.find t o).isSome) ∧
    (phase = .marked → V.Cancelled t o)
  move := StoreMove V window o

section OneOrder

variable {τ σ : Type} (V : OrderView τ) (window : ℕ) (o : Int32) (orders : σ → τ)
  (released : σ → Int32 → ℤ)

/-- The moves on the whole state: one on the store that releases nothing, or
one that gives back the next item. -/
inductive Move : Phase → ℕ → σ → Phase → σ → Prop
  | store {phase n s phase' s'} (h : StoreMove V window o phase n (orders s) phase' (orders s'))
      (hreleased : ∀ book, released s' book = released s book) : Move phase n s phase' s'
  | give {n s s'} {item : OrderItem} {rest : List OrderItem} (h : orders s' = orders s)
      (hreleased : ∀ book, released s' book =
        released s book + if item.bookId = book then item.quantity.toInt else 0) :
      Move (.giving (item :: rest)) n s (.giving rest) s'

def protocol : Protocol σ Phase where
  pre phase s := V.good (orders s) ∧ (phase = .armed → (V.find (orders s) o).isSome) ∧
    (phase = .marked → V.Cancelled (orders s) o)
  move := Move V window o orders released

/-- What the request that has marked the order may have released so far. -/
def Holding (s : σ) : Phase → Prop
  | .bystander => ∀ book, released s book ≤ V.reserved (orders s) o book
  | .marked => ∀ book, released s book = 0
  | .giving rest => (∀ item ∈ rest, 0 ≤ item.quantity.toInt) ∧
      ∀ book, released s book + quantityOf book rest ≤ V.reserved (orders s) o book
  | _ => False

/-- Nothing has been released, and at most one request is armed. -/
structure Untouched (phases : ℕ → Phase) (s : σ) : Prop where
  released : ∀ book, released s book = 0
  quiet : ∀ i, phases i = .bystander ∨ phases i = .fresh ∨ phases i = .armed
  single : ∀ i j, phases i = .armed → phases j = .armed → i = j
  found : ∀ i, phases i = .armed → (V.find (orders s) o).isSome

/-- One request has marked the order; the others will not. -/
structure Touched (phases : ℕ → Phase) (s : σ) : Prop where
  cancelled : V.Cancelled (orders s) o
  holder : ∃ k, Holding V o orders released s (phases k) ∧
    ∀ i, i ≠ k → phases i = .bystander ∨ phases i = .fresh

structure AtMostOnce (phases : ℕ → Phase) (s : σ) : Prop where
  good : V.good (orders s)
  cases : Untouched V o orders released phases s ∨ Touched V o orders released phases s

variable {V window o orders released}

theorem Holding.mono {s s' : σ} {phase : Phase} (h : Holding V o orders released s phase)
    (hreleased : ∀ book, released s' book = released s book)
    (hgrows : ∀ book, V.reserved (orders s) o book ≤ V.reserved (orders s') o book) :
    Holding V o orders released s' phase := by
  cases phase with
  | bystander =>
    intro book
    rw [hreleased book]
    exact le_trans (h book) (hgrows book)
  | marked =>
    intro book
    rw [hreleased book]
    exact h book
  | giving rest =>
    refine ⟨h.1, ?_⟩
    intro book
    rw [hreleased book]
    exact le_trans (h.2 book) (hgrows book)
  | fresh => exact h
  | armed => exact h

/-- What a request in any phase may rely on. -/
theorem AtMostOnce.pre {phases : ℕ → Phase} {s : σ} (h : AtMostOnce V o orders released phases s)
    (i : ℕ) : (protocol V window o orders released).pre (phases i) s := by
  refine ⟨h.good, ?_, ?_⟩
  · intro harmed
    rcases h.cases with huntouched | htouched
    · exact huntouched.found i harmed
    · obtain ⟨order, hfind, _⟩ := htouched.cancelled
      simp [hfind]
  · intro hmarked
    rcases h.cases with huntouched | htouched
    · rcases huntouched.quiet i with hp | hp | hp <;> rw [hp] at hmarked <;> cases hmarked
    · exact htouched.cancelled

/-- A request takes a phase that has marked nothing. -/
theorem Untouched.update {phases : ℕ → Phase} {s s' : σ} {i : ℕ}
    (h : Untouched V o orders released phases s) {quiet : Phase}
    (hquiet : quiet = .bystander ∨ quiet = .fresh ∨ quiet = .armed)
    (hsingle : quiet = .armed → (V.find (orders s') o).isSome ∧ ∀ j, j ≠ i → phases j ≠ .armed)
    (hstays : (V.find (orders s) o).isSome → (V.find (orders s') o).isSome)
    (hreleased : ∀ book, released s' book = released s book) :
    Untouched V o orders released (Function.update phases i quiet) s' := by
  refine ⟨fun book => (hreleased book).trans (h.released book), ?_, ?_, ?_⟩
  · intro j
    by_cases hj : j = i
    · rw [hj, Function.update_self]
      exact hquiet
    · rw [Function.update_of_ne hj]
      exact h.quiet j
  · intro j j' hj hj'
    by_cases hji : j = i <;> by_cases hji' : j' = i
    · rw [hji, hji']
    · rw [hji, Function.update_self] at hj
      rw [Function.update_of_ne hji'] at hj'
      exact absurd hj' ((hsingle hj).2 j' hji')
    · rw [hji', Function.update_self] at hj'
      rw [Function.update_of_ne hji] at hj
      exact absurd hj ((hsingle hj').2 j hji)
    · rw [Function.update_of_ne hji] at hj
      rw [Function.update_of_ne hji'] at hj'
      exact h.single j j' hj hj'
  · intro j hj
    by_cases hji : j = i
    · rw [hji, Function.update_self] at hj
      exact (hsingle hj).1
    · rw [Function.update_of_ne hji] at hj
      exact hstays (h.found j hj)

/-- The request that moves has marked the order. -/
theorem Touched.of_mover {phases : ℕ → Phase} {s' : σ} {i : ℕ} {holder : Phase}
    (hcancelled : V.Cancelled (orders s') o) (hholding : Holding V o orders released s' holder)
    (hothers : ∀ j, j ≠ i → phases j = .bystander ∨ phases j = .fresh) :
    Touched V o orders released (Function.update phases i holder) s' := by
  refine ⟨hcancelled, i, by rwa [Function.update_self], ?_⟩
  intro j hj
  rw [Function.update_of_ne hj]
  exact hothers j hj

/-- Another request has marked it. -/
theorem Touched.of_other {phases : ℕ → Phase} {s' : σ} {i k : ℕ} (hne : k ≠ i)
    (hcancelled : V.Cancelled (orders s') o)
    (hholding : Holding V o orders released s' (phases k))
    (hothers : ∀ j, j ≠ k → phases j = .bystander ∨ phases j = .fresh) {quiet : Phase}
    (hquiet : quiet = .bystander ∨ quiet = .fresh) :
    Touched V o orders released (Function.update phases i quiet) s' := by
  refine ⟨hcancelled, k, by rwa [Function.update_of_ne hne], ?_⟩
  intro j hj
  by_cases hji : j = i
  · rw [hji, Function.update_self]
    exact hquiet
  · rw [Function.update_of_ne hji]
    exact hothers j hj

/-- While nothing has been released. -/
theorem Untouched.move {phases : ℕ → Phase} {s s' : σ} {i n : ℕ} {phase' : Phase}
    (h : Untouched V o orders released phases s) (hgood : V.good (orders s))
    (hmove : Move V window o orders released (phases i) n s phase' s')
    (halone : phases i = .fresh → phase' = .armed → ∀ j, j ≠ i → phases j ≠ .armed) :
    AtMostOnce V o orders released (Function.update phases i phase') s' := by
  have hothers : phases i = .armed → ∀ j, j ≠ i → phases j = .bystander ∨ phases j = .fresh := by
    intro harmed j hj
    rcases h.quiet j with hp | hp | hp
    · exact .inl hp
    · exact .inr hp
    · exact absurd (h.single j i hp harmed) hj
  have hquiet := h.quiet i
  generalize hphase : phases i = phase at hmove hquiet hothers halone
  cases hmove with
  | store hstore hreleased =>
    have hzero : ∀ book, released s' book = 0 := fun book =>
      (hreleased book).trans (h.released book)
    have hfound := h.found i
    have hkeep {quiet : Phase} := @Untouched.update _ _ V o orders released phases s s' i h quiet
    generalize ht : orders s = t at hstore hgood hkeep hfound
    generalize ht' : orders s' = t' at hstore hkeep
    cases hstore with
    | pass hsteady =>
      exact ⟨ht' ▸ hsteady.good hgood,
        .inl (hkeep (.inl rfl) (by simp) hsteady.stays hreleased)⟩
    | leave hsteady =>
      exact ⟨ht' ▸ hsteady.good hgood,
        .inl (hkeep (.inl rfl) (by simp) hsteady.stays hreleased)⟩
    | look hsteady hopen _ =>
      obtain ⟨order, hfind, _⟩ := hopen
      exact ⟨ht' ▸ hsteady.good hgood, .inl (hkeep (.inr (.inr rfl))
        (fun _ => ⟨hsteady.stays (by simp [hfind]), halone rfl rfl⟩) hsteady.stays hreleased)⟩
    | hold hsteady _ =>
      refine ⟨ht' ▸ hsteady.good hgood, .inl (hkeep (.inr (.inr rfl))
        (fun _ => ⟨hsteady.stays (hfound hphase), ?_⟩) hsteady.stays hreleased)⟩
      intro j hj harmed
      exact hj (h.single j i harmed hphase)
    | yields hsteady =>
      exact ⟨ht' ▸ hsteady.good hgood,
        .inl (hkeep (.inl rfl) (by simp) hsteady.stays hreleased)⟩
    | mark hmarks =>
      exact ⟨ht' ▸ hmarks.good hgood,
        .inr (.of_mover (ht' ▸ hmarks.cancelled) hzero (hothers rfl))⟩
    | markAndTake hmarks hitems =>
      refine ⟨ht' ▸ hmarks.good hgood, .inr (.of_mover (ht' ▸ hmarks.cancelled)
        ⟨hitems.nonneg, ?_⟩ (hothers rfl))⟩
      intro book
      rw [hzero book, Int.zero_add, ht']
      exact hitems.covered book
    | wait => rcases hquiet with hq | hq | hq <;> cases hq
    | lose => rcases hquiet with hq | hq | hq <;> cases hq
    | take => rcases hquiet with hq | hq | hq <;> cases hq
  | give => rcases hquiet with hq | hq | hq <;> cases hq

/-- The request that has marked the order moves on. -/
theorem Touched.move_holder {phases : ℕ → Phase} {s s' : σ} {i n : ℕ} {phase' : Phase}
    (h : Touched V o orders released phases s) (hgood : V.good (orders s))
    (hholding : Holding V o orders released s (phases i))
    (hothers : ∀ j, j ≠ i → phases j = .bystander ∨ phases j = .fresh)
    (hmove : Move V window o orders released (phases i) n s phase' s') :
    AtMostOnce V o orders released (Function.update phases i phase') s' := by
  generalize phases i = phase at hmove hholding
  cases hmove with
  | store hstore hreleased =>
    generalize ht : orders s = t at hstore hgood
    generalize ht' : orders s' = t' at hstore
    have hsteady : ∀ holder, V.Steady o t t' → Holding V o orders released s' holder →
        AtMostOnce V o orders released (Function.update phases i holder) s' := by
      intro holder hsame hnew
      exact ⟨ht' ▸ hsame.good hgood,
        .inr (.of_mover (ht' ▸ hsame.cancelled.mpr (ht ▸ h.cancelled)) hnew hothers)⟩
    have hgrows : V.Steady o t t' → ∀ book,
        V.reserved (orders s) o book ≤ V.reserved (orders s') o book := by
      intro hsame book
      rw [ht, ht']
      exact hsame.grows hgood book
    cases hstore with
    | pass hsame => exact hsteady _ hsame (hholding.mono hreleased (hgrows hsame))
    | leave => exact hholding.elim
    | look => exact hholding.elim
    | hold => exact hholding.elim
    | yields => exact hholding.elim
    | mark => exact hholding.elim
    | markAndTake => exact hholding.elim
    | wait hsame => exact hsteady _ hsame (hholding.mono hreleased (hgrows hsame))
    | lose hsame =>
      refine hsteady _ hsame ?_
      intro book
      rw [hreleased book, hholding book, ht']
      exact V.reserved_nonneg (hsame.good hgood) o book
    | take hsame hitems =>
      refine hsteady _ hsame ⟨hitems.nonneg, ?_⟩
      intro book
      rw [hreleased book, hholding book, ht', Int.zero_add]
      exact hitems.covered book
  | give horders hreleased =>
    obtain ⟨hnonneg, hcovered⟩ := hholding
    refine ⟨horders ▸ hgood, .inr (.of_mover (horders ▸ h.cancelled) ⟨?_, ?_⟩ hothers)⟩
    · intro item hitem
      exact hnonneg item (List.mem_cons_of_mem _ hitem)
    · intro book
      have hbook := hcovered book
      rw [quantityOf_cons] at hbook
      rw [hreleased book, horders]
      omega

/-- Another request moves: it finds the order cancelled. -/
theorem Touched.move_other {phases : ℕ → Phase} {s s' : σ} {i k n : ℕ} {phase' : Phase}
    (h : Touched V o orders released phases s) (hgood : V.good (orders s)) (hne : k ≠ i)
    (hholding : Holding V o orders released s (phases k))
    (hothers : ∀ j, j ≠ k → phases j = .bystander ∨ phases j = .fresh)
    (hmove : Move V window o orders released (phases i) n s phase' s') :
    AtMostOnce V o orders released (Function.update phases i phase') s' := by
  have hquiet := hothers i (Ne.symm hne)
  generalize phases i = phase at hmove hquiet
  cases hmove with
  | store hstore hreleased =>
    generalize ht : orders s = t at hstore hgood
    generalize ht' : orders s' = t' at hstore
    have hsteady : V.Steady o t t' →
        AtMostOnce V o orders released (Function.update phases i .bystander) s' := by
      intro hsame
      have hnew : Holding V o orders released s' (phases k) := by
        refine hholding.mono hreleased fun book => ?_
        rw [ht, ht']
        exact hsame.grows hgood book
      exact ⟨ht' ▸ hsame.good hgood, .inr (.of_other hne
        (ht' ▸ hsame.cancelled.mpr (ht ▸ h.cancelled)) hnew hothers (.inl rfl))⟩
    cases hstore with
    | pass hsame => exact hsteady hsame
    | leave hsame => exact hsteady hsame
    | look _ hopen _ => exact absurd hopen (V.not_open_of_cancelled (ht ▸ h.cancelled))
    | hold => rcases hquiet with hq | hq <;> cases hq
    | yields => rcases hquiet with hq | hq <;> cases hq
    | mark => rcases hquiet with hq | hq <;> cases hq
    | markAndTake => rcases hquiet with hq | hq <;> cases hq
    | wait => rcases hquiet with hq | hq <;> cases hq
    | lose => rcases hquiet with hq | hq <;> cases hq
    | take => rcases hquiet with hq | hq <;> cases hq
  | give => rcases hquiet with hq | hq <;> cases hq

/-- Once a request has marked the order. -/
theorem Touched.move {phases : ℕ → Phase} {s s' : σ} {i n : ℕ} {phase' : Phase}
    (h : Touched V o orders released phases s) (hgood : V.good (orders s))
    (hmove : Move V window o orders released (phases i) n s phase' s') :
    AtMostOnce V o orders released (Function.update phases i phase') s' := by
  obtain ⟨k, hholding, hothers⟩ := h.holder
  by_cases hi : k = i
  · subst hi
    exact h.move_holder hgood hholding hothers hmove
  · exact h.move_other hgood hi hholding hothers hmove

/-- One move of any request keeps the invariant, when no second request arms. -/
theorem AtMostOnce.move {phases : ℕ → Phase} {s s' : σ} {i n : ℕ} {phase' : Phase}
    (h : AtMostOnce V o orders released phases s)
    (hmove : Move V window o orders released (phases i) n s phase' s')
    (halone : phases i = .fresh → phase' = .armed → ∀ j, j ≠ i → phases j ≠ .armed) :
    AtMostOnce V o orders released (Function.update phases i phase') s' := by
  rcases h.cases with huntouched | htouched
  · exact huntouched.move h.good hmove halone
  · exact htouched.move h.good hmove

/-- A new request, a bystander of the order or fresh, takes the next free place. -/
theorem AtMostOnce.spawn {phases : ℕ → Phase} {s : σ} (h : AtMostOnce V o orders released phases s)
    {i : ℕ} (hfree : ∀ j, i ≤ j → phases j = .bystander) {phase : Phase}
    (hphase : phase = .bystander ∨ phase = .fresh) :
    AtMostOnce V o orders released (Function.update phases i phase) s := by
  refine ⟨h.good, ?_⟩
  rcases h.cases with huntouched | htouched
  · have hunarmed : phase ≠ .armed := by
      rintro rfl
      rcases hphase with hp | hp <;> cases hp
    exact .inl (huntouched.update (hphase.imp_right .inl) (fun harmed => absurd harmed hunarmed)
      id fun _ => rfl)
  · obtain ⟨k, hholding, hothers⟩ := htouched.holder
    by_cases hki : k = i
    · subst hki
      -- its phase is that of any free place, so that the next one may stand for it
      have hnext : phases (k + 1) = phases k := by
        rw [hfree (k + 1) (Nat.le_succ k), hfree k (Nat.le_refl k)]
      refine .inr (.of_other (Nat.succ_ne_self k) htouched.cancelled (hnext ▸ hholding) ?_ hphase)
      intro j _
      by_cases hjk : j = k
      · exact .inl (hjk ▸ hfree k (Nat.le_refl k))
      · exact hothers j hjk
    · exact .inr (.of_other hki htouched.cancelled hholding hothers hphase)

/-- What was released never exceeds what the order reserved. -/
theorem AtMostOnce.bound {phases : ℕ → Phase} {s : σ} (h : AtMostOnce V o orders released phases s)
    (book : Int32) : released s book ≤ V.reserved (orders s) o book := by
  have hnonneg := V.reserved_nonneg h.good o book
  rcases h.cases with huntouched | htouched
  · rw [huntouched.released book]
    exact hnonneg
  · obtain ⟨k, hholding, _⟩ := htouched.holder
    generalize phases k = phase at hholding
    cases phase with
    | bystander => exact hholding book
    | marked =>
      rw [hholding book]
      exact hnonneg
    | giving rest =>
      have hrest : 0 ≤ quantityOf book rest :=
        Tally.tally_nonneg _ _ _ _ fun item hitem => hholding.1 item hitem
      have hbook := hholding.2 book
      omega
    | fresh => exact hholding.elim
    | armed => exact hholding.elim

end OneOrder

end Bookstore.CancelOnce
