import Bookstore.GraphSearch
import Bookstore.MarkedSearch
import Mathlib.Logic.Function.Basic

/-!
`VisitedList` and `VisitedListPool`. A list marks what a search has met with the
number of the search, counted modulo 2^16, and is used again without being cleared.
It is cleared when the count comes to zero, which it does at once for a new list, so
that what the memory held is of no matter.
-/
namespace Bookstore.VisitedLists

open BeamSearch Hnsw Hnsw.HierarchicalNSW

structure VisitedList where
  curV : UInt16
  mass : List UInt16

namespace VisitedList

/-- `mass` is what the memory holds. -/
def new (mass : List UInt16) : VisitedList := ⟨-1, mass⟩

def reset (vl : VisitedList) : VisitedList :=
  let curV := vl.curV + 1
  if curV = 0 then ⟨curV + 1, vl.mass.map fun _ => 0⟩ else { vl with curV := curV }

def met (vl : VisitedList) (id : ℕ) : Bool := decide (vl.mass[id]? = some vl.curV)

def mark (vl : VisitedList) (id : ℕ) : VisitedList := { vl with mass := vl.mass.set id vl.curV }

/-- No mark is of a search to come. -/
structure Usable (numelements : ℕ) (vl : VisitedList) : Prop where
  size : vl.mass.length = numelements
  below : ∀ x ∈ vl.mass, x ≤ vl.curV

/-- The marks of the search that is going on are on `visited`. -/
structure Stands (numelements : ℕ) (vl : VisitedList) (visited : List ℕ) : Prop where
  usable : vl.Usable numelements
  met : ∀ id < numelements, vl.met id = true ↔ id ∈ visited

variable {numelements : ℕ} {vl : VisitedList}

theorem new_usable {mass : List UInt16} (h : mass.length = numelements) :
    (new mass).Usable numelements :=
  ⟨h, fun x _ => UInt16.le_iff_toNat_le.mpr (Nat.le_of_lt_succ x.toNat_lt)⟩

theorem reset_stands (h : vl.Usable numelements) : vl.reset.Stands numelements [] := by
  rw [reset]
  by_cases hwrap : vl.curV + 1 = 0
  · rw [if_pos hwrap, hwrap]
    refine ⟨⟨by rw [List.length_map, h.size], ?_⟩, fun id _ => ?_⟩
    · intro x hx
      obtain ⟨_, _, rfl⟩ := List.mem_map.mp hx
      exact UInt16.le_iff_toNat_le.mpr (Nat.zero_le _)
    · have hnot : ¬ (vl.mass.map fun _ => (0 : UInt16))[id]? = some (0 + 1) := by
        rw [List.getElem?_map]
        intro hget
        obtain ⟨_, _, hzero⟩ := Option.map_eq_some_iff.mp hget
        exact absurd hzero (by decide)
      simpa [met] using hnot
  · rw [if_neg hwrap]
    have hmax : vl.curV.toNat + 1 < 65536 := by
      by_contra hge
      have hlt := vl.curV.toNat_lt
      exact hwrap (UInt16.toNat_inj.mp (by rw [UInt16.toNat_add]; simp; omega))
    have hnext : (vl.curV + 1).toNat = vl.curV.toNat + 1 := by
      rw [UInt16.toNat_add]
      simp
      omega
    refine ⟨⟨h.size, fun x hx => ?_⟩, fun id _ => ?_⟩
    · have hle := UInt16.le_iff_toNat_le.mp (h.below x hx)
      exact UInt16.le_iff_toNat_le.mpr (by dsimp only; omega)
    · have hnot : ¬ vl.mass[id]? = some (vl.curV + 1) := by
        intro hget
        have hle := UInt16.le_iff_toNat_le.mp (h.below _ (List.mem_of_getElem? hget))
        omega
      simpa [met] using hnot

theorem mark_stands {visited : List ℕ} (h : vl.Stands numelements visited) (id : ℕ) :
    (vl.mark id).Stands numelements (id :: visited) := by
  refine ⟨⟨by rw [mark, List.length_set, h.usable.size], fun x hx => ?_⟩, fun other hother => ?_⟩
  · rcases List.mem_or_eq_of_mem_set hx with hold | rfl
    · exact h.usable.below x hold
    · exact UInt16.le_refl _
  · have hold := h.met other hother
    rw [met, decide_eq_true_eq] at hold ⊢
    rw [mark, List.mem_cons, ← hold, List.getElem?_set]
    have hsize := h.usable.size
    by_cases hsame : id = other
    · simp [hsame, hsize, hother]
    · simp [hsame, Ne.symm hsame]

end VisitedList

/-! ## Searches one after the other -/

section Searches

variable {V D : Type} [LinearOrder D] (fstdistfunc : V → V → D)

/-- A search of a layer for the links of a new element, or of the base layer. -/
inductive Request (V : Type)
  | searchBaseLayer (ep : ℕ) (data : V) (layer : ℕ)
  | searchBaseLayerST (ep : ℕ) (data : V) (ef : ℕ)

namespace Request

def layer : Request V → ℕ
  | searchBaseLayer _ _ layer => layer
  | searchBaseLayerST _ _ _ => 0

def ep : Request V → ℕ
  | searchBaseLayer ep _ _ => ep
  | searchBaseLayerST ep _ _ => ep

/-- A search with a set of its own. -/
def plain (h : HierarchicalNSW V) : Request V → Except Failure (List (D × ℕ))
  | searchBaseLayer ep data layer => h.searchBaseLayer fstdistfunc ep data layer
  | searchBaseLayerST ep data ef => h.searchBaseLayerST fstdistfunc ep data ef

def search (h : HierarchicalNSW V) : Request V → Search ℕ D Failure
  | searchBaseLayer _ data layer => h.baseLayer fstdistfunc data layer
  | searchBaseLayerST _ data ef => h.baseLayerST fstdistfunc data ef

/-- A search with the list that the pool hands out. -/
def onList (h : HierarchicalNSW V) (vl : VisitedList) (r : Request V) :
    Except Failure (List (D × ℕ) × VisitedList) :=
  (r.search fstdistfunc h).runOn ⟨VisitedList.met, VisitedList.mark⟩ (h.elements.length + 1)
    vl.reset r.ep

/-- What `addPoint` and `searchKnn` see to. -/
structure Allowed (h : HierarchicalNSW V) (r : Request V) : Prop where
  entry : h.HasLevel r.layer r.ep
  width : ∀ ep data ef, r = searchBaseLayerST ep data ef → 1 ≤ ef

end Request

/-- Searches one after the other, which all get the list that the last one gave back. -/
def searchAll (h : HierarchicalNSW V) (vl : VisitedList) :
    List (Request V) → Except Failure (List (List (D × ℕ)) × VisitedList)
  | [] => pure ([], vl)
  | r :: rest => do
    let s ← r.onList fstdistfunc h vl
    let t ← searchAll h s.2 rest
    pure (s.1 :: t.1, t.2)

variable {h : HierarchicalNSW V} {vl : VisitedList}

theorem onList_spec (hI : h.Intact) (hvl : vl.Usable h.maxElements) {r : Request V}
    (hr : r.Allowed h) :
    ∃ result vl', r.onList fstdistfunc h vl = .ok (result, vl') ∧
      r.plain fstdistfunc h = .ok result ∧ vl'.Usable h.maxElements := by
  have hseen : h.Seen (fun _ => True) r.layer r.ep := ⟨hr.entry, trivial⟩
  have hready : (r.search fstdistfunc h).Regular ∧
      (r.search fstdistfunc h).Closed (h.Seen (fun _ => True) r.layer) := by
    cases r with
    | searchBaseLayer ep data layer =>
      exact ⟨baseLayer_regular fstdistfunc hI data layer,
        baseLayer_closed fstdistfunc hI data fun _ _ _ => trivial⟩
    | searchBaseLayerST ep data ef =>
      exact ⟨baseLayerST_regular fstdistfunc h data (hr.width ep data ef rfl),
        baseLayerST_closed fstdistfunc hI data ef⟩
  obtain ⟨found, hrun, _⟩ := run_found hready.1 hready.2 (few_seen h (fun _ => True) r.layer)
    (Nat.lt_succ_self _) hseen
  have htracks : Marks.Tracks ⟨VisitedList.met, VisitedList.mark⟩
      (h.Seen (fun _ => True) r.layer) (VisitedList.Stands h.maxElements) := by
    refine ⟨fun _ _ id hmarks hid => hmarks.met id ?_,
      fun _ _ id hmarks _ => VisitedList.mark_stands hmarks id⟩
    exact hid.1.lt_length.trans_le hI.fits
  obtain ⟨vl', visited, hrunOn, hstands⟩ := runOn_agrees hready.1 hready.2 htracks
    (VisitedList.reset_stands hvl) hseen hrun
  refine ⟨found, vl', hrunOn, ?_, hstands.usable⟩
  cases r <;> exact hrun

/-- However often a list has been used, the searches find what they find with sets of
their own. -/
theorem searches_on_one_list (hI : h.Intact) {mass : List UInt16}
    (hmass : mass.length = h.maxElements) (requests : List (Request V))
    (hallowed : ∀ r ∈ requests, r.Allowed h) :
    ∃ results vl, searchAll fstdistfunc h (.new mass) requests = .ok (results, vl) ∧
      requests.mapM (fun r => r.plain fstdistfunc h) = .ok results := by
  have hstart := VisitedList.new_usable hmass
  generalize VisitedList.new mass = vl at hstart
  induction requests generalizing vl with
  | nil => exact ⟨[], vl, rfl, rfl⟩
  | cons r rest ih =>
    obtain ⟨hr, hrest⟩ := List.forall_mem_cons.mp hallowed
    obtain ⟨result, vl', hrun, hplain, husable⟩ := onList_spec fstdistfunc hI hstart hr
    obtain ⟨results, last, hruns, hplains⟩ := ih hrest vl' husable
    refine ⟨result :: results, last, ?_, ?_⟩
    · rw [searchAll, hrun, ok_bind, hruns, ok_bind]
      rfl
    · rw [List.mapM_cons, hplain, ok_bind, hplains, ok_bind]
      rfl

/-- The marks of two earlier searches are where the memory of the list was. -/
theorem threePoints_searched :
    ∃ h, (setEf 50 (create 3 16 200)).addPoints (fun x y : ℤ => (x - y) * (x - y)) threePoints =
        .ok h ∧
      ∃ results vl, searchAll (fun x y : ℤ => (x - y) * (x - y)) h (.new [0, 1, 65535])
          [.searchBaseLayerST 2 5 2, .searchBaseLayer 0 8 0] = .ok (results, vl) ∧
        ([.searchBaseLayerST 2 5 2, .searchBaseLayer 0 8 0].mapM fun r : Request ℤ =>
          r.plain (fun x y => (x - y) * (x - y)) h) = .ok results := by
  obtain ⟨h, hrun, hS, hmax, _, _, hlength, _⟩ := built_spec
    (fun x y : ℤ => (x - y) * (x - y)) (M := 16) (by decide) 200 50 threePoints
    (by decide) (le_refl 3)
  have hmass : [0, 1, 65535].length = h.maxElements := hmax.symm
  refine ⟨h, hrun, searches_on_one_list _ hS.intact hmass _ ?_⟩
  have hthree : h.elements.length = 3 := hlength
  refine List.forall_mem_cons.mpr ⟨⟨hS.intact.based 2 (by omega), ?_⟩,
    List.forall_mem_singleton.mpr ⟨hS.intact.based 0 (by omega), ?_⟩⟩
  · intro ep data ef hsame
    cases hsame
    decide
  · intro ep data ef hsame
    cases hsame

end Searches

/-! ## Searches at the same time -/

/-- What a thread has of the pool: a list is known by its address, and `visited` is what
the search has met so far. -/
inductive Searcher
  | idle
  | taken (vl : ℕ)
  | searching (vl : ℕ) (tag : UInt16) (visited : List ℕ)

def Searcher.list : Searcher → Option ℕ
  | idle => none
  | taken vl => some vl
  | searching vl _ _ => some vl

/-- `lists` are all the lists that were made, `free` the ones in the pool. -/
structure VisitedListPool where
  numelements : ℕ
  lists : List VisitedList
  free : List ℕ
  searchers : List Searcher

inductive Event
  /-- The part of `getFreeVisitedList` under the lock; `mass` is the memory for a new list. -/
  | get (mass : List UInt16)
  | reset
  | visit (id : ℕ)
  | release

namespace VisitedListPool

/-- The constructor, which pushes the lists to the front, and threads without a list. -/
def new (numelements threads : ℕ) (masses : List (List UInt16)) : VisitedListPool where
  numelements := numelements
  lists := masses.map VisitedList.new
  free := (List.range masses.length).reverse
  searchers := List.replicate threads .idle

def setSearcher (w : VisitedListPool) (i : ℕ) (searcher : Searcher) : VisitedListPool :=
  { w with searchers := w.searchers.set i searcher }

/-- A step of thread `i`; `none` where it has no such step. -/
def stepOf (w : VisitedListPool) (i : ℕ) : Searcher → Event → Option VisitedListPool
  | .idle, .get mass =>
    if mass.length = w.numelements then
      match w.free with
      | rez :: free => some ({ w with free := free }.setSearcher i (.taken rez))
      | [] =>
        some ({ w with lists := w.lists ++ [VisitedList.new mass] }.setSearcher i
          (.taken w.lists.length))
    else none
  | .taken a, .reset =>
    (w.lists[a]?).map fun vl =>
      { w with lists := w.lists.set a vl.reset }.setSearcher i (.searching a vl.reset.curV [])
  | .searching a tag visited, .visit id =>
    (w.lists[a]?).map fun vl =>
      { w with lists := w.lists.set a { vl with mass := vl.mass.set id tag } }.setSearcher i
        (.searching a tag (id :: visited))
  | .searching a _ _, .release => some ({ w with free := a :: w.free }.setSearcher i .idle)
  | _, _ => none

def step (w : VisitedListPool) (i : ℕ) (e : Event) : Option VisitedListPool :=
  (w.searchers[i]?).bind fun searcher => w.stepOf i searcher e

/-- The steps of the threads in the order in which they are taken. -/
def run (w : VisitedListPool) (events : List (ℕ × Event)) : Option VisitedListPool :=
  events.foldlM (fun w e => w.step e.1 e.2) w

/-- Each list is in the pool or with one thread, and its marks are of that thread's
search. -/
structure Shared (w : VisitedListPool) : Prop where
  usable : ∀ vl ∈ w.lists, vl.Usable w.numelements
  once : (w.free ++ w.searchers.filterMap Searcher.list).Perm (List.range w.lists.length)
  marks : ∀ a tag visited, .searching a tag visited ∈ w.searchers →
    ∃ vl, w.lists[a]? = some vl ∧ vl.curV = tag ∧ vl.Stands w.numelements visited

theorem new_shared {numelements : ℕ} {masses : List (List UInt16)}
    (h : ∀ mass ∈ masses, mass.length = numelements) (threads : ℕ) :
    (new numelements threads masses).Shared where
  usable vl hvl := by
    obtain ⟨mass, hmass, rfl⟩ := List.mem_map.mp hvl
    exact VisitedList.new_usable (h mass hmass)
  once := by
    have hidle : (List.replicate threads Searcher.idle).filterMap Searcher.list = [] :=
      List.filterMap_eq_nil_iff.mpr fun x hx => List.eq_of_mem_replicate hx ▸ rfl
    rw [new, hidle, List.append_nil, List.length_map]
    exact List.reverse_perm _
  marks _ _ _ hin := by cases List.eq_of_mem_replicate hin

variable {w w' : VisitedListPool} {i : ℕ}

/-- The other threads, before and after thread `i`. -/
theorem exists_others {searcher : Searcher} (h : w.searchers[i]? = some searcher) :
    ∃ before after, w.searchers = before ++ searcher :: after ∧
      ∀ next, (w.setSearcher i next).searchers = before ++ next :: after := by
  obtain ⟨hlt, rfl⟩ := List.getElem?_eq_some_iff.mp h
  refine ⟨w.searchers.take i, w.searchers.drop (i + 1), ?_, fun next => ?_⟩
  · rw [List.getElem_cons_drop, List.take_append_drop]
  · rw [setSearcher, List.set_eq_take_append_cons_drop, if_pos hlt]

section Steps

variable {before after : List Searcher} {a : ℕ}

/-- The list of a thread is with no other one. -/
theorem Shared.other_list (h : w.Shared) {searcher : Searcher}
    (hsplit : w.searchers = before ++ searcher :: after) (hlist : searcher.list = some a)
    {other : Searcher} (hother : other ∈ before ++ after) : other.list ≠ some a := by
  intro hsame
  have hnodup := (h.once.nodup_iff.mpr List.nodup_range).of_append_right
  rw [hsplit, List.filterMap_append, List.filterMap_cons, hlist] at hnodup
  have hnot := (List.nodup_middle.mp hnodup)
  rw [List.nodup_cons, ← List.filterMap_append] at hnot
  exact hnot.1 (List.mem_filterMap.mpr ⟨other, hother, hsame⟩)

theorem Shared.taken (h : w.Shared) (hsplit : w.searchers = before ++ .idle :: after)
    {rez : ℕ} {free : List ℕ} (hfree : w.free = rez :: free)
    (hsplit' : w'.searchers = before ++ .taken rez :: after) (hlists : w'.lists = w.lists)
    (hfree' : w'.free = free) (hnum : w'.numelements = w.numelements) : w'.Shared := by
  refine ⟨hlists ▸ hnum ▸ h.usable, ?_, fun b tag visited hin => ?_⟩
  · have honce := h.once
    rw [hsplit, hfree, List.filterMap_append, List.filterMap_cons] at honce
    rw [hlists, hfree', hsplit', List.filterMap_append, List.filterMap_cons]
    refine List.Perm.trans ?_ honce
    rw [← List.append_assoc, ← List.append_assoc]
    exact List.perm_middle
  · rw [hlists, hnum]
    refine h.marks b tag visited ?_
    rw [hsplit'] at hin
    rw [hsplit]
    simpa using hin

theorem Shared.made (h : w.Shared) (hsplit : w.searchers = before ++ .idle :: after)
    (hfree : w.free = []) {mass : List UInt16} (hmass : mass.length = w.numelements)
    (hsplit' : w'.searchers = before ++ .taken w.lists.length :: after)
    (hlists : w'.lists = w.lists ++ [VisitedList.new mass]) (hfree' : w'.free = w.free)
    (hnum : w'.numelements = w.numelements) : w'.Shared := by
  refine ⟨fun vl hvl => ?_, ?_, fun b tag visited hin => ?_⟩
  · rw [hlists, List.mem_append, List.mem_singleton] at hvl
    rcases hvl with hold | rfl
    · exact hnum ▸ h.usable vl hold
    · exact VisitedList.new_usable (hmass.trans hnum.symm)
  · have honce := h.once
    rw [hsplit, hfree, List.filterMap_append, List.filterMap_cons, List.nil_append] at honce
    rw [hlists, hfree', hfree, hsplit', List.filterMap_append, List.filterMap_cons,
      List.nil_append, List.length_append, List.length_singleton, List.range_succ]
    exact List.perm_middle.trans ((honce.cons _).trans (List.perm_append_singleton _ _).symm)
  · have hold : Searcher.searching b tag visited ∈ w.searchers := by
      rw [hsplit'] at hin
      rw [hsplit]
      simpa using hin
    obtain ⟨vl, hget, hmarks⟩ := h.marks b tag visited hold
    rw [hlists, hnum, List.getElem?_append_left (List.getElem?_eq_some_iff.mp hget).1]
    exact ⟨vl, hget, hmarks⟩

/-- A thread that writes to its own list leaves the marks of the others. -/
theorem Shared.written (h : w.Shared) {searcher searcher' : Searcher}
    (hsplit : w.searchers = before ++ searcher :: after) (hlist : searcher.list = some a)
    (hsplit' : w'.searchers = before ++ searcher' :: after) (hlist' : searcher'.list = some a)
    {vl : VisitedList} (hvl : vl.Usable w.numelements) (hlists : w'.lists = w.lists.set a vl)
    (hfree : w'.free = w.free) (hnum : w'.numelements = w.numelements)
    (hmarks : ∀ tag visited, searcher' = .searching a tag visited →
      vl.curV = tag ∧ vl.Stands w.numelements visited) : w'.Shared := by
  have hlength : w'.lists.length = w.lists.length := by rw [hlists, List.length_set]
  refine ⟨fun vl' hvl' => ?_, ?_, fun b tag visited hin => ?_⟩
  · rw [hnum]
    rw [hlists] at hvl'
    rcases List.mem_or_eq_of_mem_set hvl' with hold | rfl
    · exact h.usable vl' hold
    · exact hvl
  · have honce := h.once
    rw [hsplit, List.filterMap_append, List.filterMap_cons, hlist] at honce
    rw [hlength, hfree, hsplit', List.filterMap_append, List.filterMap_cons, hlist']
    exact honce
  · rw [hsplit', List.mem_append, List.mem_cons, or_left_comm, ← List.mem_append] at hin
    rw [hnum, hlists, List.getElem?_set]
    rcases hin with hself | hother
    · rw [← hself] at hlist' hmarks
      have hsame : b = a := Option.some.inj hlist'
      rw [hsame] at hmarks
      have hlt : a < w.lists.length := by
        have hin : a ∈ w.free ++ w.searchers.filterMap Searcher.list :=
          List.mem_append_right _ (List.mem_filterMap.mpr
            ⟨searcher, by rw [hsplit]; simp, hlist⟩)
        exact List.mem_range.mp (h.once.subset hin)
      rw [hsame, if_pos rfl, if_pos hlt]
      exact ⟨vl, rfl, hmarks tag visited rfl⟩
    · have hne : a ≠ b := by
        rintro rfl
        exact h.other_list hsplit hlist hother rfl
      rw [if_neg hne]
      refine h.marks b tag visited ?_
      rw [hsplit, List.mem_append, List.mem_cons, or_left_comm, ← List.mem_append]
      exact .inr hother

theorem Shared.released (h : w.Shared) {searcher : Searcher}
    (hsplit : w.searchers = before ++ searcher :: after) (hlist : searcher.list = some a)
    (hsplit' : w'.searchers = before ++ .idle :: after) (hlists : w'.lists = w.lists)
    (hfree : w'.free = a :: w.free) (hnum : w'.numelements = w.numelements) : w'.Shared := by
  refine ⟨hlists ▸ hnum ▸ h.usable, ?_, fun b tag visited hin => ?_⟩
  · have honce := h.once
    rw [hsplit, List.filterMap_append, List.filterMap_cons, hlist] at honce
    rw [hlists, hfree, hsplit', List.filterMap_append, List.filterMap_cons]
    refine List.Perm.trans ?_ honce
    rw [← List.append_assoc, ← List.append_assoc]
    exact List.perm_middle.symm
  · rw [hlists, hnum]
    refine h.marks b tag visited ?_
    rw [hsplit'] at hin
    rw [hsplit]
    have hor : Searcher.searching b tag visited ∈ before ∨
        Searcher.searching b tag visited ∈ after := by simpa using hin
    simpa using hor.imp id .inr

end Steps

theorem Shared.get_list (h : w.Shared) {searcher : Searcher} (hi : w.searchers[i]? = some searcher)
    {a : ℕ} (hlist : searcher.list = some a) : ∃ vl, w.lists[a]? = some vl := by
  have hin : a ∈ w.free ++ w.searchers.filterMap Searcher.list :=
    List.mem_append_right _ (List.mem_filterMap.mpr ⟨searcher, List.mem_of_getElem? hi, hlist⟩)
  exact ⟨_, List.getElem?_eq_getElem (List.mem_range.mp (h.once.subset hin))⟩

/-- The steps that a thread can take next. -/
def Fits (numelements : ℕ) : Searcher → Event → Prop
  | .idle, .get mass => mass.length = numelements
  | .taken _, .reset | .searching _ _ _, .visit _ | .searching _ _ _, .release => True
  | _, _ => False

theorem stepOf_shared (h : w.Shared) {searcher : Searcher}
    (hi : w.searchers[i]? = some searcher) {e : Event} (hfits : Fits w.numelements searcher e) :
    ∃ w', w.stepOf i searcher e = some w' ∧ w'.Shared ∧ w'.numelements = w.numelements := by
  obtain ⟨before, after, hsplit, hset⟩ := exists_others hi
  cases searcher with
  | idle =>
    cases e with
    | get mass =>
      have hmass : mass.length = w.numelements := hfits
      rw [stepOf, if_pos hmass]
      cases hfree : w.free with
      | nil =>
        refine ⟨_, rfl, ?_, rfl⟩
        exact h.made hsplit hfree hmass (hset _) rfl hfree.symm rfl
      | cons rez free =>
        refine ⟨_, rfl, ?_, rfl⟩
        exact h.taken hsplit hfree (hset _) rfl rfl rfl
    | reset => cases hfits
    | visit id => cases hfits
    | release => cases hfits
  | taken a =>
    cases e with
    | reset =>
      obtain ⟨vl, hvl⟩ := h.get_list hi rfl
      have hreset := VisitedList.reset_stands (h.usable vl (List.mem_of_getElem? hvl))
      rw [stepOf, hvl]
      refine ⟨_, rfl, ?_, rfl⟩
      refine h.written hsplit rfl (hset _) rfl hreset.usable rfl rfl rfl ?_
      intro tag visited hsame
      cases hsame
      exact ⟨rfl, hreset⟩
    | get mass => cases hfits
    | visit id => cases hfits
    | release => cases hfits
  | searching a tag visited =>
    cases e with
    | visit id =>
      obtain ⟨vl, hvl, htag, hstands⟩ := h.marks a tag visited (List.mem_of_getElem? hi)
      have hmarked := VisitedList.mark_stands hstands id
      subst htag
      rw [stepOf, hvl]
      refine ⟨_, rfl, ?_, rfl⟩
      refine h.written hsplit rfl (hset _) rfl hmarked.usable rfl rfl rfl ?_
      intro tag' visited' hsame
      cases hsame
      exact ⟨rfl, hmarked⟩
    | release =>
      refine ⟨_, rfl, ?_, rfl⟩
      exact h.released hsplit rfl (hset _) rfl rfl rfl
    | get mass => cases hfits
    | reset => cases hfits

theorem fits_of_stepOf {searcher : Searcher} {e : Event}
    (hstep : w.stepOf i searcher e = some w') : Fits w.numelements searcher e := by
  cases searcher <;> cases e <;> simp_all [stepOf, Fits]

theorem step_shared (h : w.Shared) {e : Event} (hstep : w.step i e = some w') :
    w'.Shared ∧ w'.numelements = w.numelements := by
  obtain ⟨searcher, hi, hstepOf⟩ := Option.bind_eq_some_iff.mp hstep
  obtain ⟨v, hv, hshared⟩ := stepOf_shared h hi (fits_of_stepOf hstepOf)
  rw [hstepOf] at hv
  rwa [Option.some.inj hv]

theorem run_shared (events : List (ℕ × Event)) (h : w.Shared) (hrun : w.run events = some w') :
    w'.Shared ∧ w'.numelements = w.numelements := by
  induction events generalizing w with
  | nil =>
    rw [← Option.some.inj hrun]
    exact ⟨h, rfl⟩
  | cons e events ih =>
    rw [run, List.foldlM_cons] at hrun
    obtain ⟨v, hv, hrest⟩ := Option.bind_eq_some_iff.mp hrun
    obtain ⟨hshared, hnum⟩ := step_shared h hv
    obtain ⟨hshared', hnum'⟩ := ih hshared hrest
    exact ⟨hshared', hnum'.trans hnum⟩

/-- In whatever order the threads take their steps, and whatever the memory held: no list
is lost or with two threads, no step that fits is refused, and a vertex has the mark of a
search exactly when that search has met it. -/
theorem marks_are_own {numelements : ℕ} (masses : List (List UInt16))
    (hmasses : ∀ mass ∈ masses, mass.length = numelements) (threads : ℕ)
    (events : List (ℕ × Event))
    (hrun : (new numelements threads masses).run events = some w) :
    (w.free ++ w.searchers.filterMap Searcher.list).Perm (List.range w.lists.length) ∧
      (∀ i searcher e, w.searchers[i]? = some searcher → Fits numelements searcher e →
        ∃ w', w.step i e = some w') ∧
      ∀ a tag visited, .searching a tag visited ∈ w.searchers →
        ∃ vl, w.lists[a]? = some vl ∧
          ∀ id < numelements, vl.mass[id]? = some tag ↔ id ∈ visited := by
  obtain ⟨hshared, hnum⟩ := run_shared events (new_shared hmasses threads) hrun
  have hnum' : w.numelements = numelements := hnum
  refine ⟨hshared.once, fun i searcher e hi hfits => ?_, fun a tag visited hin => ?_⟩
  · obtain ⟨w', hstep, _⟩ := stepOf_shared hshared hi (hnum'.symm ▸ hfits)
    exact ⟨w', by rw [step, hi, Option.bind_some, hstep]⟩
  · obtain ⟨vl, hvl, htag, hstands⟩ := hshared.marks a tag visited hin
    refine ⟨vl, hvl, fun id hid => ?_⟩
    have hmet := hstands.met id (hnum'.symm ▸ hid)
    rwa [VisitedList.met, decide_eq_true_eq, htag] at hmet

def twoSearchers : List (ℕ × Event) :=
  [(0, .get [0, 0]), (1, .get [3, 4]), (1, .reset), (0, .reset), (0, .visit 1), (1, .visit 0),
    (0, .release), (0, .get [0, 0])]

theorem twoSearchers_own : ∃ w, (new 2 2 [[5, 6]]).run twoSearchers = some w ∧
    (w.free ++ w.searchers.filterMap Searcher.list).Perm (List.range w.lists.length) ∧
    (∀ i searcher e, w.searchers[i]? = some searcher → Fits 2 searcher e →
      ∃ w', w.step i e = some w') ∧
    ∀ a tag visited, .searching a tag visited ∈ w.searchers →
      ∃ vl, w.lists[a]? = some vl ∧ ∀ id < 2, vl.mass[id]? = some tag ↔ id ∈ visited :=
  ⟨_, rfl, marks_are_own [[5, 6]] (by decide) 2 twoSearchers rfl⟩

end VisitedListPool

end Bookstore.VisitedLists
