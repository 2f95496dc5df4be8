import Bookstore.BinaryHeap
import Mathlib.Data.Int.Notation
import Mathlib.Logic.Function.Basic

/-!
sort_timer_lst: a binary heap of pointers to timers, ordered by their expire
fields as they are when they are compared. A timer is cancelled by a mark; its
node stays in the heap until it comes to the root or the heap is purged.
-/
namespace Bookstore.TimerList

open BinaryHeap

/-- A util_timer; its callback is cb_func, and `userData` is the descriptor whose
client_data it points to. -/
structure Timer where
  expire : ℤ
  userData : ℕ
  cancelled : Bool
deriving DecidableEq

/-- The heap and the memory of its nodes; a pointer is never used again for
another node. -/
structure SortTimerLst where
  nodes : ℕ → Option Timer
  nextNode : ℕ
  heap : List ℕ
  cancelledCount : ℤ

def SortTimerLst.empty : SortTimerLst := ⟨fun _ => none, 0, [], 0⟩

namespace SortTimerLst

def expireOf (t : SortTimerLst) (node : ℕ) : ℤ :=
  match t.nodes node with
  | some timer => timer.expire
  | none => 0

/-- cmp_expire. -/
def laterThan (t : SortTimerLst) (a b : ℕ) : Bool := decide (t.expireOf b < t.expireOf a)

def pushNode (t : SortTimerLst) (node : ℕ) : SortTimerLst :=
  { t with heap := push t.laterThan t.heap node }

def popNode (t : SortTimerLst) : SortTimerLst := { t with heap := pop t.laterThan t.heap }

def setNode (t : SortTimerLst) (node : ℕ) (timer : Timer) : SortTimerLst :=
  { t with nodes := Function.update t.nodes node (some timer) }

def deleteNode (t : SortTimerLst) (node : ℕ) : SortTimerLst :=
  { t with nodes := Function.update t.nodes node none }

/-- A new node in memory; it is not in the heap yet. -/
def newTimer (t : SortTimerLst) (timer : Timer) : SortTimerLst :=
  { t.setNode t.nextNode timer with nextNode := t.nextNode + 1 }

/-- The assignment `timer->expire = expire`. -/
def setExpire (t : SortTimerLst) (node : ℕ) (expire : ℤ) : SortTimerLst :=
  match t.nodes node with
  | some timer => t.setNode node { timer with expire := expire }
  | none => t

def addTimer (t : SortTimerLst) (node : ℕ) : SortTimerLst := t.pushNode node

def cancel (t : SortTimerLst) (node : ℕ) : SortTimerLst :=
  match t.nodes node with
  | some timer => { t.setNode node { timer with cancelled := true } with
      cancelledCount := t.cancelledCount + 1 }
  | none => { t with cancelledCount := t.cancelledCount + 1 }

def delTimer (t : SortTimerLst) (node : ℕ) : SortTimerLst := t.cancel node

/-- The loop of purge: every node is popped, a cancelled one is deleted, the
others are collected. -/
def purgeLoop : ℕ → SortTimerLst → List ℕ × SortTimerLst
  | 0, t => ([], t)
  | n + 1, t =>
    match t.heap with
    | [] => ([], t)
    | top :: _ =>
      if ((t.nodes top).map Timer.cancelled).getD true = true then
        purgeLoop n (t.popNode.deleteNode top)
      else (top :: (purgeLoop n t.popNode).1, (purgeLoop n t.popNode).2)

def purge (t : SortTimerLst) : SortTimerLst :=
  { (purgeLoop t.heap.length t).1.foldl pushNode (purgeLoop t.heap.length t).2 with
    cancelledCount := 0 }

def purgeThreshold : ℤ := 512

/-- What adjust_timer and tick do last. -/
def purgeIfMany (t : SortTimerLst) : SortTimerLst :=
  if purgeThreshold ≤ t.cancelledCount then t.purge else t

/-- The node is cancelled where it is, and a new one with its values is pushed. -/
def adjustTimer (t : SortTimerLst) (node : ℕ) : ℕ × SortTimerLst :=
  match t.nodes node with
  | none => (node, t)
  | some timer =>
    (t.nextNode,
      (((t.cancel node).newTimer { timer with cancelled := false }).pushNode t.nextNode).purgeIfMany)

/-- The loop of tick; the client_data given to the callbacks in their order. -/
def tickLoop (cur : ℤ) : ℕ → SortTimerLst → List ℕ × SortTimerLst
  | 0, t => ([], t)
  | n + 1, t =>
    match t.heap with
    | [] => ([], t)
    | top :: _ =>
      if cur < t.expireOf top then ([], t)
      else
        match t.nodes top with
        | none => ([], t)
        | some timer =>
          if timer.cancelled then
            tickLoop cur n
              { t.popNode.deleteNode top with cancelledCount := t.cancelledCount - 1 }
          else
            let rest := tickLoop cur n (t.popNode.deleteNode top)
            (timer.userData :: rest.1, rest.2)

def tick (cur : ℤ) (t : SortTimerLst) : List ℕ × SortTimerLst :=
  match t.heap with
  | [] => ([], t)
  | _ :: _ =>
    let fired := tickLoop cur t.heap.length t
    (fired.1, fired.2.purgeIfMany)

/-! ## The timers that can fire -/

/-- A node of the heap that is not cancelled. -/
def Live (t : SortTimerLst) (node : ℕ) (timer : Timer) : Prop :=
  node ∈ t.heap ∧ t.nodes node = some timer ∧ timer.cancelled = false

/-- Every pointer in the heap is in it once and points to a node. -/
structure Sound (t : SortTimerLst) : Prop where
  nodup : t.heap.Nodup
  allocated : ∀ node ∈ t.heap, ∃ timer, t.nodes node = some timer
  known : ∀ node timer, t.nodes node = some timer → node < t.nextNode

theorem sound_empty : Sound .empty where
  nodup := List.nodup_nil
  allocated node h := by cases h
  known node timer h := by cases h

theorem Live.unique {t : SortTimerLst} {node : ℕ} {a b : Timer} (h : t.Live node a)
    (h' : t.Live node b) : a = b :=
  Option.some.inj (h.2.1.symm.trans h'.2.1)

@[simp] theorem pushNode_nodes (t : SortTimerLst) (node : ℕ) :
    (t.pushNode node).nodes = t.nodes := rfl

@[simp] theorem pushNode_nextNode (t : SortTimerLst) (node : ℕ) :
    (t.pushNode node).nextNode = t.nextNode := rfl

theorem mem_pushNode (t : SortTimerLst) (node n : ℕ) :
    n ∈ (t.pushNode node).heap ↔ n = node ∨ n ∈ t.heap := by
  rw [← List.mem_cons]
  exact (push_perm t.heap node).mem_iff

/-- A new node in the heap. -/
def addNew (t : SortTimerLst) (timer : Timer) : SortTimerLst :=
  (t.newTimer timer).pushNode t.nextNode

theorem Sound.addNew {t : SortTimerLst} (h : t.Sound) (timer : Timer) :
    (t.addNew timer).Sound where
  nodup := by
    apply (push_perm t.heap t.nextNode).nodup_iff.mpr
    refine List.nodup_cons.mpr ⟨fun hmem => ?_, h.nodup⟩
    obtain ⟨old, hold⟩ := h.allocated _ hmem
    exact absurd (h.known _ _ hold) (Nat.lt_irrefl _)
  allocated node hmem := by
    rcases (mem_pushNode _ _ _).mp hmem with rfl | hold
    · exact ⟨timer, Function.update_self ..⟩
    · by_cases hnode : node = t.nextNode
      · rw [hnode]
        exact ⟨timer, Function.update_self ..⟩
      · obtain ⟨old, hsome⟩ := h.allocated node hold
        exact ⟨old, (Function.update_of_ne hnode ..).trans hsome⟩
  known node x hx := by
    change node < t.nextNode + 1
    by_cases hnode : node = t.nextNode
    · omega
    · have hlt := h.known node x ((Function.update_of_ne hnode ..).symm.trans hx)
      omega

theorem live_addNew {t : SortTimerLst} (h : t.Sound) {timer : Timer}
    (htimer : timer.cancelled = false) (node : ℕ) (x : Timer) :
    (t.addNew timer).Live node x ↔ (node = t.nextNode ∧ x = timer) ∨ t.Live node x := by
  by_cases hnode : node = t.nextNode
  · have hold : ¬ t.Live node x := by
      intro hlive
      have hlt := h.known _ _ hlive.2.1
      omega
    have hnodes : (t.addNew timer).nodes node = some timer := by
      rw [hnode]
      exact Function.update_self ..
    constructor
    · intro hlive
      exact .inl ⟨hnode, Option.some.inj (hlive.2.1.symm.trans hnodes)⟩
    · rintro (⟨_, rfl⟩ | hlive)
      · exact ⟨(mem_pushNode _ _ _).mpr (.inl hnode), hnodes, htimer⟩
      · exact absurd hlive hold
  · have hnodes : (t.addNew timer).nodes node = t.nodes node := Function.update_of_ne hnode ..
    have hmem : node ∈ (t.addNew timer).heap ↔ node ∈ t.heap :=
      (mem_pushNode _ _ _).trans (or_iff_right hnode)
    simp only [Live, hmem, hnodes, hnode, false_and, false_or]

/-- A node in memory is written to. -/
theorem Sound.setNode {t : SortTimerLst} (h : t.Sound) {node : ℕ} {old : Timer}
    (hold : t.nodes node = some old) (timer : Timer) : (t.setNode node timer).Sound where
  nodup := h.nodup
  allocated n hmem := by
    by_cases hn : n = node
    · rw [hn]
      exact ⟨timer, Function.update_self ..⟩
    · obtain ⟨x, hx⟩ := h.allocated n hmem
      exact ⟨x, (Function.update_of_ne hn ..).trans hx⟩
  known n x hx := by
    by_cases hn : n = node
    · rw [hn]
      exact h.known node old hold
    · exact h.known n x ((Function.update_of_ne hn ..).symm.trans hx)

theorem live_setNode {t : SortTimerLst} {node : ℕ} (timer : Timer) (n : ℕ) (x : Timer) :
    (t.setNode node timer).Live n x ↔
      if n = node then n ∈ t.heap ∧ x = timer ∧ timer.cancelled = false else t.Live n x := by
  by_cases hn : n = node
  · rw [if_pos hn, hn]
    have hnodes : (t.setNode node timer).nodes node = some timer := Function.update_self ..
    constructor
    · intro ⟨hmem, hx, hlive⟩
      rw [hnodes] at hx
      rw [← Option.some.inj hx] at hlive
      exact ⟨hmem, (Option.some.inj hx).symm, hlive⟩
    · intro ⟨hmem, hx, hlive⟩
      rw [hx]
      exact ⟨hmem, hnodes, hlive⟩
  · have hnodes : (t.setNode node timer).nodes n = t.nodes n := Function.update_of_ne hn ..
    rw [if_neg hn, Live, Live, hnodes]
    rfl

/-- The assignment to the expire of a live timer changes this timer only. -/
theorem live_setExpire {t : SortTimerLst} {node : ℕ} {timer : Timer} (h : t.Live node timer)
    (expire : ℤ) (n : ℕ) (x : Timer) :
    (t.setExpire node expire).Live n x ↔
      if n = node then x = { timer with expire := expire } else t.Live n x := by
  rw [setExpire, h.2.1]
  refine (live_setNode _ n x).trans ?_
  by_cases hn : n = node
  · rw [if_pos hn, if_pos hn, hn]
    exact ⟨fun hx => hx.2.1, fun hx => ⟨h.1, hx, h.2.2⟩⟩
  · rw [if_neg hn, if_neg hn]

theorem Sound.setExpire {t : SortTimerLst} (h : t.Sound) {node : ℕ} {timer : Timer}
    (hnode : t.nodes node = some timer) (expire : ℤ) : (t.setExpire node expire).Sound := by
  rw [SortTimerLst.setExpire, hnode]
  exact h.setNode hnode _

theorem Sound.cancel {t : SortTimerLst} (h : t.Sound) (node : ℕ) : (t.cancel node).Sound := by
  unfold SortTimerLst.cancel
  cases hnode : t.nodes node with
  | none => exact ⟨h.nodup, h.allocated, h.known⟩
  | some timer =>
    have hset := h.setNode hnode { timer with cancelled := true }
    exact ⟨hset.nodup, hset.allocated, hset.known⟩

/-- A cancelled timer is no longer live, the others stay as they are. -/
theorem live_cancel {t : SortTimerLst} (h : t.Sound) (node n : ℕ) (x : Timer) :
    (t.cancel node).Live n x ↔ n ≠ node ∧ t.Live n x := by
  unfold SortTimerLst.cancel
  cases hnode : t.nodes node with
  | none =>
    refine ⟨fun hlive => ⟨?_, hlive⟩, fun hlive => hlive.2⟩
    intro hn
    obtain ⟨y, hy⟩ := h.allocated n hlive.1
    rw [hn, hnode] at hy
    cases hy
  | some timer =>
    change (t.setNode node { timer with cancelled := true }).Live n x ↔ _
    refine (live_setNode { timer with cancelled := true } n x).trans ?_
    by_cases hn : n = node
    · simp [hn]
    · simp [hn]

/-! ## purge -/

theorem popNode_perm {t : SortTimerLst} {top : ℕ} {rest : List ℕ} (h : t.heap = top :: rest) :
    t.popNode.heap.Perm rest := by
  have hperm : t.popNode.heap.Perm t.heap.tail := pop_perm t.heap
  rwa [congrArg List.tail h] at hperm

theorem Sound.popNode {t : SortTimerLst} (h : t.Sound) : t.popNode.Sound := by
  have hperm : t.popNode.heap.Perm t.heap.tail := pop_perm t.heap
  refine ⟨?_, ?_, h.known⟩
  · rw [hperm.nodup_iff]
    exact h.nodup.tail
  · intro node hmem
    exact h.allocated node (List.mem_of_mem_tail (hperm.mem_iff.mp hmem))

/-- The popped node is no longer live, the others stay as they are. -/
theorem live_popNode {t : SortTimerLst} (h : t.Sound) {top : ℕ} {rest : List ℕ}
    (hheap : t.heap = top :: rest) (node : ℕ) (x : Timer) :
    t.popNode.Live node x ↔ node ≠ top ∧ t.Live node x := by
  have hnodup := h.nodup
  rw [hheap] at hnodup
  have hnot := (List.nodup_cons.mp hnodup).1
  have hmem : node ∈ t.popNode.heap ↔ node ≠ top ∧ node ∈ t.heap := by
    rw [(popNode_perm hheap).mem_iff, hheap, List.mem_cons]
    constructor
    · intro hrest
      refine ⟨fun heq => hnot (heq ▸ hrest), .inr hrest⟩
    · intro ⟨hne, hor⟩
      exact hor.resolve_left hne
  have hnodes : t.popNode.nodes = t.nodes := rfl
  rw [Live, Live, hmem, hnodes, and_assoc]

/-- A node outside the heap is deleted. -/
theorem Sound.deleteNode {t : SortTimerLst} (h : t.Sound) {node : ℕ} (hout : node ∉ t.heap) :
    (t.deleteNode node).Sound where
  nodup := h.nodup
  allocated n hmem := by
    obtain ⟨x, hx⟩ := h.allocated n hmem
    refine ⟨x, (Function.update_of_ne ?_ ..).trans hx⟩
    intro hn
    exact hout (hn ▸ hmem)
  known n x hx := by
    by_cases hn : n = node
    · have hnone : (t.deleteNode node).nodes node = none := Function.update_self ..
      rw [hn, hnone] at hx
      cases hx
    · exact h.known n x ((Function.update_of_ne hn ..).symm.trans hx)

theorem live_deleteNode {t : SortTimerLst} {node : ℕ} (hout : node ∉ t.heap) (n : ℕ) (x : Timer) :
    (t.deleteNode node).Live n x ↔ t.Live n x := by
  by_cases hn : n = node
  · subst hn
    exact ⟨fun hlive => absurd hlive.1 hout, fun hlive => absurd hlive.1 hout⟩
  · have hnodes : (t.deleteNode node).nodes n = t.nodes n := Function.update_of_ne hn ..
    rw [Live, Live, hnodes]
    rfl

/-- The top is popped and deleted. -/
theorem dropTop_spec {t : SortTimerLst} (h : t.Sound) {top : ℕ} {rest : List ℕ}
    (hheap : t.heap = top :: rest) :
    (t.popNode.deleteNode top).Sound ∧ ∀ node x,
      (t.popNode.deleteNode top).Live node x ↔ node ≠ top ∧ t.Live node x := by
  have hnodup := h.nodup
  rw [hheap] at hnodup
  have hout : top ∉ t.popNode.heap := by
    rw [(popNode_perm hheap).mem_iff]
    exact (List.nodup_cons.mp hnodup).1
  exact ⟨h.popNode.deleteNode hout,
    fun node x => (live_deleteNode hout node x).trans (live_popNode h hheap node x)⟩

theorem no_live {t : SortTimerLst} (hheap : t.heap = []) (node : ℕ) :
    node ∈ ([] : List ℕ) ↔ ∃ x, t.Live node x := by
  refine ⟨fun hmem => (List.not_mem_nil hmem).elim, ?_⟩
  rintro ⟨x, hmem, _⟩
  rwa [hheap] at hmem

/-- What the loop of purge collects and leaves. -/
structure Purged (t : SortTimerLst) (r : List ℕ × SortTimerLst) : Prop where
  nodup : r.1.Nodup
  live : ∀ node, node ∈ r.1 ↔ ∃ x, t.Live node x
  heap : r.2.heap = []
  nextNode : r.2.nextNode = t.nextNode
  kept : ∀ node x, t.nodes node = some x → (node ∈ t.heap → x.cancelled = false) →
    r.2.nodes node = some x
  old : ∀ node x, r.2.nodes node = some x → t.nodes node = some x

theorem purged_nil {t : SortTimerLst} (hheap : t.heap = []) : Purged t ([], t) where
  nodup := List.nodup_nil
  live := no_live hheap
  heap := hheap
  nextNode := rfl
  kept _ _ hx _ := hx
  old _ _ hx := hx

theorem purgeLoop_spec (n : ℕ) (t : SortTimerLst) (h : t.Sound) (hn : t.heap.length ≤ n) :
    Purged t (purgeLoop n t) := by
  induction n generalizing t with
  | zero => exact purged_nil (List.length_eq_zero_iff.mp (Nat.le_zero.mp hn))
  | succ n ih =>
    unfold purgeLoop
    cases hheap : t.heap with
    | nil => exact purged_nil hheap
    | cons top rest =>
      obtain ⟨timer, htimer⟩ := h.allocated top (by rw [hheap]; exact List.mem_cons_self)
      have hshort : t.popNode.heap.length ≤ n := by
        rw [(popNode_perm hheap).length_eq]
        rw [hheap, List.length_cons] at hn
        omega
      have htop : top ∈ t.heap := by
        rw [hheap]
        exact List.mem_cons_self
      have hsub : ∀ node, node ∈ t.popNode.heap → node ∈ t.heap := by
        intro node hmem
        rw [hheap]
        exact List.mem_cons_of_mem _ ((popNode_perm hheap).mem_iff.mp hmem)
      cases hcancelled : timer.cancelled with
      | true =>
        have hdelete : ((t.nodes top).map Timer.cancelled).getD true = true := by
          rw [htimer]
          exact hcancelled
        obtain ⟨hsound, hlive⟩ := dropTop_spec h hheap
        have hrest := ih (t.popNode.deleteNode top) hsound hshort
        dsimp only
        rw [if_pos hdelete]
        refine ⟨hrest.nodup, ?_, hrest.heap, hrest.nextNode, ?_, ?_⟩
        · intro node
          rw [hrest.live node]
          refine exists_congr fun x => (hlive node x).trans ?_
          refine and_iff_right_of_imp fun hx heq => ?_
          rw [heq] at hx
          have hfalse := hx.2.2
          rw [Option.some.inj (hx.2.1.symm.trans htimer), hcancelled] at hfalse
          cases hfalse
        · intro node x hx hkeep
          have hne : node ≠ top := by
            intro heq
            rw [heq] at hx hkeep
            rw [Option.some.inj (hx.symm.trans htimer), hcancelled] at hkeep
            exact absurd (hkeep htop) (by decide)
          exact hrest.kept node x ((Function.update_of_ne hne ..).trans hx)
            fun hmem => hkeep (hsub node hmem)
        · intro node x hx
          have hold := hrest.old node x hx
          by_cases heq : node = top
          · have hnone : (t.popNode.deleteNode top).nodes top = none := Function.update_self ..
            rw [heq, hnone] at hold
            cases hold
          · exact (Function.update_of_ne heq ..).symm.trans hold
      | false =>
        have hkeep : ¬ ((t.nodes top).map Timer.cancelled).getD true = true := by
          rw [htimer, Option.map_some, Option.getD_some, hcancelled]
          decide
        have hlive := live_popNode h hheap
        have hrest := ih t.popNode h.popNode hshort
        dsimp only
        rw [if_neg hkeep]
        refine ⟨?_, ?_, hrest.heap, hrest.nextNode, ?_, hrest.old⟩
        · refine List.nodup_cons.mpr ⟨fun hmem => ?_, hrest.nodup⟩
          obtain ⟨x, hx⟩ := (hrest.live top).mp hmem
          exact ((hlive top x).mp hx).1 rfl
        · intro node
          rw [List.mem_cons, hrest.live node]
          constructor
          · rintro (rfl | ⟨x, hx⟩)
            · exact ⟨timer, htop, htimer, hcancelled⟩
            · exact ⟨x, ((hlive node x).mp hx).2⟩
          · intro ⟨x, hx⟩
            by_cases heq : node = top
            · exact .inl heq
            · exact .inr ⟨x, (hlive node x).mpr ⟨heq, hx⟩⟩
        · intro node x hx hlives
          exact hrest.kept node x hx fun hmem => hlives (hsub node hmem)

theorem foldl_pushNode (l : List ℕ) (t : SortTimerLst) :
    (l.foldl pushNode t).nodes = t.nodes ∧ (l.foldl pushNode t).nextNode = t.nextNode ∧
      (l.foldl pushNode t).heap.Perm (l ++ t.heap) := by
  induction l generalizing t with
  | nil => exact ⟨rfl, rfl, .refl _⟩
  | cons node rest ih =>
    obtain ⟨hnodes, hnext, hheap⟩ := ih (t.pushNode node)
    refine ⟨hnodes, hnext, hheap.trans ?_⟩
    exact ((push_perm t.heap node).append_left rest).trans List.perm_middle

/-- A purge keeps the live timers. -/
theorem purge_spec {t : SortTimerLst} (h : t.Sound) :
    t.purge.Sound ∧ t.purge.nextNode = t.nextNode ∧
      ∀ node x, t.purge.Live node x ↔ t.Live node x := by
  have hpurged := purgeLoop_spec t.heap.length t h (Nat.le_refl _)
  obtain ⟨hnodes, hnext, hheap⟩ := foldl_pushNode (purgeLoop t.heap.length t).1
    (purgeLoop t.heap.length t).2
  rw [hpurged.heap, List.append_nil] at hheap
  have hkept : ∀ node x, t.Live node x → t.purge.nodes node = some x := by
    intro node x hlive
    exact (congrFun hnodes node).trans (hpurged.kept node x hlive.2.1 fun _ => hlive.2.2)
  have hold : ∀ node x, t.purge.nodes node = some x → t.nodes node = some x := by
    intro node x hx
    exact hpurged.old node x ((congrFun hnodes node).symm.trans hx)
  have hmem : ∀ node, node ∈ t.purge.heap ↔ ∃ x, t.Live node x :=
    fun node => hheap.mem_iff.trans (hpurged.live node)
  have hnextNode : t.purge.nextNode = t.nextNode := hnext.trans hpurged.nextNode
  refine ⟨⟨hheap.nodup_iff.mpr hpurged.nodup, ?_, ?_⟩, hnextNode, ?_⟩
  · intro node hnode
    obtain ⟨x, hx⟩ := (hmem node).mp hnode
    exact ⟨x, hkept node x hx⟩
  · intro node x hx
    rw [hnextNode]
    exact h.known node x (hold node x hx)
  · intro node x
    constructor
    · intro ⟨hnode, hx, hlive⟩
      obtain ⟨y, hy⟩ := (hmem node).mp hnode
      rwa [Option.some.inj ((hold node x hx).symm.trans hy.2.1)]
    · intro hlive
      exact ⟨(hmem node).mpr ⟨x, hlive⟩, hkept node x hlive, hlive.2.2⟩

theorem purgeIfMany_spec {t : SortTimerLst} (h : t.Sound) :
    t.purgeIfMany.Sound ∧ t.purgeIfMany.nextNode = t.nextNode ∧
      ∀ node x, t.purgeIfMany.Live node x ↔ t.Live node x := by
  unfold purgeIfMany
  split
  · exact purge_spec h
  · exact ⟨h, rfl, fun _ _ => .rfl⟩

/-- Adjusting a live timer puts a new one with its values into its place. -/
theorem adjustTimer_spec {t : SortTimerLst} (h : t.Sound) {node : ℕ} {timer : Timer}
    (hlive : t.Live node timer) :
    (t.adjustTimer node).1 = t.nextNode ∧ (t.adjustTimer node).2.Sound ∧
      ∀ n x, (t.adjustTimer node).2.Live n x ↔
        (n = t.nextNode ∧ x = timer) ∨ (n ≠ node ∧ t.Live n x) := by
  have htimer : { timer with cancelled := false } = timer := by
    obtain ⟨expire, userData, cancelled⟩ := timer
    exact congrArg _ hlive.2.2.symm
  have hnext : (t.cancel node).nextNode = t.nextNode := by
    rw [SortTimerLst.cancel, hlive.2.1]
    rfl
  have hadjust : t.adjustTimer node =
      (t.nextNode, ((t.cancel node).addNew timer).purgeIfMany) := by
    rw [adjustTimer, hlive.2.1]
    dsimp only
    rw [htimer, addNew, hnext]
  obtain ⟨hsound, _, hsame⟩ := purgeIfMany_spec ((h.cancel node).addNew timer)
  rw [hadjust]
  refine ⟨rfl, hsound, fun n x => (hsame n x).trans ?_⟩
  rw [live_addNew (h.cancel node) hlive.2.2, hnext, live_cancel h]

/-! ## tick -/

/-- What the loop of tick fires and leaves. -/
structure Fired (cur : ℤ) (t : SortTimerLst) (r : List ℕ × SortTimerLst) : Prop where
  sound : r.2.Sound
  fired : ∃ timers : List (ℕ × Timer), r.1 = timers.map (fun p => p.2.userData) ∧
    (timers.map Prod.fst).Nodup ∧ (∀ p ∈ timers, t.Live p.1 p.2 ∧ p.2.expire ≤ cur) ∧
    ∀ node x, r.2.Live node x ↔ t.Live node x ∧ node ∉ timers.map Prod.fst

theorem fired_nothing {t : SortTimerLst} (h : t.Sound) (cur : ℤ) : Fired cur t ([], t) where
  sound := h
  fired := ⟨[], rfl, List.nodup_nil, fun _ hp => (List.not_mem_nil hp).elim, by simp⟩

theorem tickLoop_spec (cur : ℤ) (n : ℕ) (t : SortTimerLst) (h : t.Sound) :
    Fired cur t (tickLoop cur n t) := by
  induction n generalizing t with
  | zero => exact fired_nothing h cur
  | succ n ih =>
    unfold tickLoop
    cases hheap : t.heap with
    | nil => exact fired_nothing h cur
    | cons top rest =>
      dsimp only
      by_cases hlater : cur < t.expireOf top
      · rw [if_pos hlater]
        exact fired_nothing h cur
      · rw [if_neg hlater]
        have htop : top ∈ t.heap := by
          rw [hheap]
          exact List.mem_cons_self
        obtain ⟨timer, htimer⟩ := h.allocated top htop
        obtain ⟨hsound, hlive⟩ := dropTop_spec h hheap
        rw [htimer]
        dsimp only
        cases hcancelled : timer.cancelled with
        | true =>
          rw [if_pos rfl]
          have hcounted : SortTimerLst.Sound { t.popNode.deleteNode top with
              cancelledCount := t.cancelledCount - 1 } :=
            ⟨hsound.nodup, hsound.allocated, hsound.known⟩
          obtain ⟨hrest, timers, hfst, hnodup, hdue, hleft⟩ := ih _ hcounted
          have hskip : ∀ node x, SortTimerLst.Live { t.popNode.deleteNode top with
              cancelledCount := t.cancelledCount - 1 } node x ↔ t.Live node x := by
            intro node x
            refine (hlive node x).trans (and_iff_right_of_imp fun hx heq => ?_)
            rw [heq] at hx
            have hfalse := hx.2.2
            rw [Option.some.inj (hx.2.1.symm.trans htimer), hcancelled] at hfalse
            cases hfalse
          refine ⟨hrest, timers, hfst, hnodup, ?_, ?_⟩
          · intro p hp
            exact ⟨(hskip _ _).mp (hdue p hp).1, (hdue p hp).2⟩
          · intro node x
            rw [hleft, hskip]
        | false =>
          rw [if_neg Bool.false_ne_true]
          obtain ⟨hrest, timers, hfst, hnodup, hdue, hleft⟩ := ih _ hsound
          have hexpire : timer.expire ≤ cur := by
            rw [expireOf, htimer] at hlater
            exact Int.not_lt.mp hlater
          refine ⟨hrest, (top, timer) :: timers, ?_, ?_, ?_, ?_⟩
          · rw [hfst]
            rfl
          · refine List.nodup_cons.mpr ⟨fun hmem => ?_, hnodup⟩
            obtain ⟨p, hp, heq⟩ := List.mem_map.mp hmem
            exact ((hlive p.1 p.2).mp (hdue p hp).1).1 heq
          · intro p hp
            rcases List.mem_cons.mp hp with rfl | hmem
            · exact ⟨⟨htop, htimer, hcancelled⟩, hexpire⟩
            · exact ⟨((hlive _ _).mp (hdue p hmem).1).2, (hdue p hmem).2⟩
          · intro node x
            rw [hleft, hlive, List.map_cons, List.mem_cons, not_or]
            exact ⟨fun hx => ⟨hx.1.2, hx.1.1, hx.2⟩, fun hx => ⟨⟨hx.2.1, hx.1⟩, hx.2.2⟩⟩

/-- A tick fires some of the live timers that are due, each once, and leaves the
other timers live. -/
theorem tick_spec (cur : ℤ) {t : SortTimerLst} (h : t.Sound) : Fired cur t (t.tick cur) := by
  unfold tick
  cases hheap : t.heap with
  | nil => exact fired_nothing h cur
  | cons top rest =>
    obtain ⟨hrest, timers, hfst, hnodup, hdue, hleft⟩ :=
      tickLoop_spec cur (top :: rest).length t h
    obtain ⟨hsound, _, hsame⟩ := purgeIfMany_spec hrest
    exact ⟨hsound, timers, hfst, hnodup, hdue, fun node x => (hsame node x).trans (hleft node x)⟩

/-! ## When a tick fires all that is due -/

/-- The timers due at `cur` are on top of the heap: above one there are only such. -/
def DueOnTop (t : SortTimerLst) (cur : ℤ) : Prop :=
  Sifted (fun node => t.expireOf node ≤ cur) t.heap

instance (t : SortTimerLst) (cur : ℤ) : Decidable (t.DueOnTop cur) := by
  unfold DueOnTop
  infer_instance

theorem respects_due (t : SortTimerLst) (cur : ℤ) :
    Respects t.laterThan fun node => t.expireOf node ≤ cur where
  above x y hlater hx := by
    have hlt := of_decide_eq_true hlater
    omega
  below x y hlater hy := by
    have hnot := of_decide_eq_false hlater
    omega

theorem expireOf_deleteNode {t : SortTimerLst} {node n : ℕ} (hne : n ≠ node) :
    (t.deleteNode node).expireOf n = t.expireOf n := by
  have hnodes : (t.deleteNode node).nodes n = t.nodes n := Function.update_of_ne hne ..
  rw [expireOf, expireOf, hnodes]

/-- Popping and deleting the top keeps the due timers on top. -/
theorem DueOnTop.dropTop {t : SortTimerLst} (h : t.Sound) {cur : ℤ} (hdue : t.DueOnTop cur)
    {top : ℕ} {rest : List ℕ} (hheap : t.heap = top :: rest) :
    (t.popNode.deleteNode top).DueOnTop cur := by
  have hnodup := h.nodup
  rw [hheap] at hnodup
  have hout : ∀ n, n ∈ t.popNode.heap → n ≠ top := by
    intro n hmem heq
    rw [(popNode_perm hheap).mem_iff, heq] at hmem
    exact (List.nodup_cons.mp hnodup).1 hmem
  intro i x y hi hx hy hlow
  rw [expireOf_deleteNode (hout x (List.mem_of_getElem? hx))] at hlow
  rw [expireOf_deleteNode (hout y (List.mem_of_getElem? hy))]
  exact pop_sifted (t.respects_due cur) hdue i x y hi hx hy hlow

/-- With the due timers on top the loop of tick leaves none of them. -/
theorem tickLoop_all (cur : ℤ) (n : ℕ) (t : SortTimerLst) (h : t.Sound)
    (hn : t.heap.length ≤ n) (hdue : t.DueOnTop cur) :
    ∀ node ∈ (tickLoop cur n t).2.heap, cur < (tickLoop cur n t).2.expireOf node := by
  induction n generalizing t with
  | zero =>
    intro node hmem
    change node ∈ t.heap at hmem
    rw [List.length_eq_zero_iff.mp (Nat.le_zero.mp hn)] at hmem
    cases hmem
  | succ n ih =>
    unfold tickLoop
    cases hheap : t.heap with
    | nil =>
      intro node hmem
      change node ∈ t.heap at hmem
      rw [hheap] at hmem
      cases hmem
    | cons top rest =>
      dsimp only
      by_cases hlater : cur < t.expireOf top
      · rw [if_pos hlater]
        intro node hmem
        have hroot : t.heap[0]? = some top := by rw [hheap]; rfl
        have hnot := hdue.none_of_root hroot (Int.not_le.mpr hlater) node hmem
        exact Int.not_le.mp hnot
      · rw [if_neg hlater]
        obtain ⟨timer, htimer⟩ := h.allocated top (by rw [hheap]; exact List.mem_cons_self)
        obtain ⟨hsound, _⟩ := dropTop_spec h hheap
        have hrest := hdue.dropTop h hheap
        have hshort : t.popNode.heap.length ≤ n := by
          rw [(popNode_perm hheap).length_eq]
          rw [hheap, List.length_cons] at hn
          omega
        rw [htimer]
        dsimp only
        cases timer.cancelled with
        | true =>
          rw [if_pos rfl]
          exact ih _ ⟨hsound.nodup, hsound.allocated, hsound.known⟩ hshort hrest
        | false =>
          rw [if_neg Bool.false_ne_true]
          exact ih _ hsound hshort hrest

/-- With the due timers on top a tick leaves no live timer that is due. -/
theorem tick_all (cur : ℤ) {t : SortTimerLst} (h : t.Sound) (hdue : t.DueOnTop cur) (node : ℕ)
    (x : Timer) (hlive : (t.tick cur).2.Live node x) : cur < x.expire := by
  unfold tick at hlive
  cases hheap : t.heap with
  | nil =>
    rw [hheap] at hlive
    have hmem := hlive.1
    change node ∈ t.heap at hmem
    rw [hheap] at hmem
    cases hmem
  | cons top rest =>
    rw [hheap] at hlive
    have hfired := (tickLoop_spec cur (top :: rest).length t h).sound
    have hlive' := ((purgeIfMany_spec hfired).2.2 node x).mp hlive
    have hall := tickLoop_all cur (top :: rest).length t h
      (Nat.le_of_eq (congrArg List.length hheap)) hdue node hlive'.1
    rwa [expireOf, hlive'.2.1] at hall

end SortTimerLst

end Bookstore.TimerList
