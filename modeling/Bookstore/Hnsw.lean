import Bookstore.BeamSearch
import Mathlib.Data.Prod.Lex

/-!
`HierarchicalNSW`, as far as a new point is added and neighbours are searched for.
An element holds its label, its vector and one list of links for each of its
levels. What the C++ code would read outside of an element or of the index, and
what it throws, is an error here; so is a label that is there already, whose element
the C++ code updates in place.
-/
namespace Bookstore.Hnsw

open BeamSearch PriorityQueue

inductive Failure
  | outside
  | unfinished
  | updated
  | undrawn
  | thrown (what : String)
  deriving DecidableEq, Repr

structure Element (V : Type) where
  label : ℕ
  data : V
  links : List (List ℕ)

/-- `enterpoint_node_` and `maxlevel_`, which are both -1 while the index is empty. -/
structure Entry where
  node : ℕ
  level : ℕ

structure HierarchicalNSW (V : Type) where
  maxElements : ℕ
  M : ℕ
  efConstruction : ℕ
  ef : ℕ
  elements : List (Element V)
  entry : Option Entry

namespace HierarchicalNSW

variable {V D : Type}

/-- The constructor. -/
def create (maxElements M efConstruction : ℕ) : HierarchicalNSW V where
  maxElements := maxElements
  M := min M 10000
  efConstruction := max efConstruction (min M 10000)
  ef := 10
  elements := []
  entry := none

def setEf (ef : ℕ) (h : HierarchicalNSW V) : HierarchicalNSW V := { h with ef := ef }

/-- `maxM0_` on the base layer, `maxM_` above it. -/
def Mcurmax (h : HierarchicalNSW V) (level : ℕ) : ℕ := if level = 0 then h.M * 2 else h.M

def element (h : HierarchicalNSW V) (id : ℕ) : Except Failure (Element V) :=
  match h.elements[id]? with
  | none => throw .outside
  | some e => pure e

def getLinklist (h : HierarchicalNSW V) (level id : ℕ) : Except Failure (List ℕ) := do
  let e ← h.element id
  match e.links[level]? with
  | none => throw .outside
  | some links => pure links

def setLinklist (h : HierarchicalNSW V) (level id : ℕ) (links : List ℕ) : HierarchicalNSW V :=
  { h with elements := h.elements.modify id fun e => { e with links := e.links.set level links } }

variable [LinearOrder D] (fstdistfunc : V → V → D)

def distanceTo (h : HierarchicalNSW V) (data : V) (id : ℕ) : Except Failure D := do
  let e ← h.element id
  pure (fstdistfunc data e.data)

def distanceOf (h : HierarchicalNSW V) (id id' : ℕ) : Except Failure D := do
  let e ← h.element id
  h.distanceTo fstdistfunc e.data id'

/-! ## Searching -/

def popExtra (ef : ℕ) (q : List (D × ℕ)) : List (D × ℕ) :=
  if ef < q.length then pop Prod.fst q else q

/-- The search that looks for the links of a new element. -/
def baseLayer (h : HierarchicalNSW V) (data : V) (layer : ℕ) : Search ℕ D Failure where
  ef := h.efConstruction
  stops dist lowerBound size := decide (lowerBound < dist ∧ size = h.efConstruction)
  trim := popExtra h.efConstruction
  distance := h.distanceTo fstdistfunc data
  next := h.getLinklist layer
  unfinished := .unfinished

def searchBaseLayer (h : HierarchicalNSW V) (ep : ℕ) (data : V) (layer : ℕ) :
    Except Failure (List (D × ℕ)) :=
  (h.baseLayer fstdistfunc data layer).run (h.elements.length + 1) ep

/-- The `bare_bone_search`, which takes no account of the number of candidates. -/
def baseLayerST (h : HierarchicalNSW V) (data : V) (ef : ℕ) : Search ℕ D Failure where
  ef := ef
  stops dist lowerBound _ := decide (lowerBound < dist)
  trim := shrink Prod.fst ef
  distance := h.distanceTo fstdistfunc data
  next := h.getLinklist 0
  unfinished := .unfinished

def searchBaseLayerST (h : HierarchicalNSW V) (ep : ℕ) (data : V) (ef : ℕ) :
    Except Failure (List (D × ℕ)) :=
  (h.baseLayerST fstdistfunc data ef).run (h.elements.length + 1) ep

/-- The descent on one of the upper levels. -/
def upperLayer (h : HierarchicalNSW V) (data : V) (level : ℕ) : Search ℕ D Failure where
  ef := 1
  stops _ _ _ := false
  trim := id
  distance cand :=
    if h.maxElements < cand then throw (.thrown "cand error")
    else h.distanceTo fstdistfunc data cand
  next := h.getLinklist level
  unfinished := .unfinished

/-- The levels above `bottom`, from the topmost one down. -/
def descendLevels (h : HierarchicalNSW V) (data : V) (bottom : ℕ) :
    ℕ → D × ℕ → Except Failure (D × ℕ)
  | 0, c => pure c
  | n + 1, c => do
    let c ← (h.upperLayer fstdistfunc data (bottom + (n + 1))).descend (h.elements.length + 1) c
    descendLevels h data bottom n c

/-! ## Linking -/

/-- `queue_closest` compares the negated distances first, then the ids. -/
def closest (e : D × ℕ) : Dᵒᵈ ×ₗ ℕ := toLex (OrderDual.toDual e.1, e.2)

/-- Whether no neighbour in the list is nearer to the candidate than the query is. -/
def isGood (h : HierarchicalNSW V) (current : D × ℕ) : List (D × ℕ) → Except Failure Bool
  | [] => pure true
  | second :: rest => do
    let curdist ← h.distanceOf fstdistfunc second.2 current.2
    if curdist < current.1 then pure false else isGood h current rest

def returnList (h : HierarchicalNSW V) (M : ℕ) :
    List (D × ℕ) → List (D × ℕ) → Except Failure (List (D × ℕ))
  | [], kept => pure kept
  | current :: rest, kept =>
    if M ≤ kept.length then pure kept
    else do
      let good ← h.isGood fstdistfunc current kept
      returnList h M rest (if good = true then kept ++ [current] else kept)

def getNeighborsByHeuristic2 (h : HierarchicalNSW V) (topCandidates : List (D × ℕ)) (M : ℕ) :
    Except Failure (List (D × ℕ)) :=
  if topCandidates.length < M then pure topCandidates
  else do
    let queueClosest := ofList closest (drain Prod.fst topCandidates)
    let kept ← h.returnList fstdistfunc M (drain closest queueClosest) []
    pure (ofList Prod.fst kept)

/-- The link of a selected neighbour back to the new element. -/
def connectBack (level curC : ℕ) (h : HierarchicalNSW V) (neighbor : ℕ) :
    Except Failure (HierarchicalNSW V) := do
  let other ← h.getLinklist level neighbor
  if h.Mcurmax level < other.length then throw (.thrown "Bad value of sz_link_list_other")
  else if neighbor = curC then throw (.thrown "Trying to connect an element to itself")
  else if other.length < h.Mcurmax level then
    pure (h.setLinklist level neighbor (other ++ [curC]))
  else do
    let candidates ← (curC :: other).mapM fun id => do
      let dist ← h.distanceOf fstdistfunc id neighbor
      pure (dist, id)
    let kept ← h.getNeighborsByHeuristic2 fstdistfunc (ofList Prod.fst candidates)
      (h.Mcurmax level)
    pure (h.setLinklist level neighbor ((drain Prod.fst kept).map Prod.snd))

def checkLevel (level : ℕ) (h : HierarchicalNSW V) (id : ℕ) : Except Failure Unit := do
  let e ← h.element id
  if e.links.length ≤ level then
    throw (.thrown "Trying to make a link on a non-existent level")
  else pure ()

def mutuallyConnectNewElement (h : HierarchicalNSW V) (curC : ℕ)
    (topCandidates : List (D × ℕ)) (level : ℕ) : Except Failure (ℕ × HierarchicalNSW V) := do
  let kept ← h.getNeighborsByHeuristic2 fstdistfunc topCandidates h.M
  if h.M < kept.length then
    throw (.thrown "Should be not be more than M_ candidates returned by the heuristic")
  else
    let selectedNeighbors := (drain Prod.fst kept).map Prod.snd
    match selectedNeighbors.getLast? with
    | none => throw .outside
    | some nextClosestEntryPoint => do
      let llCur ← h.getLinklist level curC
      if llCur ≠ [] then
        throw (.thrown "The newly inserted element should have blank link list")
      else do
        let _ ← selectedNeighbors.mapM (h.checkLevel level)
        let h ← selectedNeighbors.foldlM (connectBack fstdistfunc level curC)
          (h.setLinklist level curC selectedNeighbors)
        pure (nextClosestEntryPoint, h)

/-! ## The operations -/

def connectLevel (data : V) (curC level : ℕ) (h : HierarchicalNSW V) (currObj : ℕ) :
    Except Failure (ℕ × HierarchicalNSW V) := do
  let topCandidates ← h.searchBaseLayer fstdistfunc currObj data level
  h.mutuallyConnectNewElement fstdistfunc curC topCandidates level

/-- The levels of a new element, from the topmost one down. -/
def connectLevels (data : V) (curC : ℕ) :
    ℕ → HierarchicalNSW V → ℕ → Except Failure (HierarchicalNSW V)
  | 0, h, currObj => do
    let r ← connectLevel fstdistfunc data curC 0 h currObj
    pure r.2
  | level + 1, h, currObj => do
    let r ← connectLevel fstdistfunc data curC (level + 1) h currObj
    connectLevels data curC level r.2 r.1

/-- The index with a new element that is not linked yet. -/
def grow (h : HierarchicalNSW V) (data : V) (label curlevel : ℕ) : HierarchicalNSW V :=
  { h with elements := h.elements ++ [⟨label, data, List.replicate (curlevel + 1) []⟩] }

/-- Where the first search for the links of a new element starts. -/
def startFor (h : HierarchicalNSW V) (data : V) (curlevel : ℕ) (entry : Entry) :
    Except Failure ℕ :=
  if curlevel < entry.level then do
    let curdist ← h.distanceTo fstdistfunc data entry.node
    let c ← h.descendLevels fstdistfunc data curlevel (entry.level - curlevel)
      (curdist, entry.node)
    pure c.2
  else pure entry.node

/-- `addPoint`, up to `updatePoint`; `curlevel` is the level that the generator draws. For
`M_` = 1 it draws none: `mult_` is infinite, and so is what is converted to an `int`. -/
def addPoint (h : HierarchicalNSW V) (data : V) (label curlevel : ℕ) :
    Except Failure (HierarchicalNSW V) :=
  if h.elements.any fun e => e.label = label then throw .updated
  else if h.maxElements ≤ h.elements.length then
    throw (.thrown "The number of elements exceeds the specified limit")
  else if h.M = 1 then throw .undrawn
  else
    let curC := h.elements.length
    let grown := h.grow data label curlevel
    match h.entry with
    | none => pure { grown with entry := some ⟨curC, curlevel⟩ }
    | some entry => do
      let currObj ← grown.startFor fstdistfunc data curlevel entry
      let connected ← connectLevels fstdistfunc data curC (min curlevel entry.level) grown currObj
      pure (if entry.level < curlevel then { connected with entry := some ⟨curC, curlevel⟩ }
        else connected)

/-- The result of `searchKnn` compares the distances first, then the labels. -/
def byLabel (e : D × ℕ) : D ×ₗ ℕ := toLex e

def searchKnn (h : HierarchicalNSW V) (data : V) (k : ℕ) : Except Failure (List (D × ℕ)) :=
  match h.entry with
  | none => pure []
  | some entry => do
    let curdist ← h.distanceTo fstdistfunc data entry.node
    let c ← h.descendLevels fstdistfunc data 0 entry.level (curdist, entry.node)
    let topCandidates ← h.searchBaseLayerST fstdistfunc c.2 data (max h.ef k)
    let results ← (drain Prod.fst (shrink Prod.fst k topCandidates)).mapM fun rez => do
      let e ← h.element rez.2
      pure (rez.1, e.label)
    pure (ofList byLabel results)

end HierarchicalNSW

end Bookstore.Hnsw
