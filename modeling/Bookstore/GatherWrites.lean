import Mathlib.Algebra.GroupWithZero.Nat
import Mathlib.Data.Int.Notation
import Mathlib.Data.List.Basic
import Mathlib.Order.Basic

/-!
Senders that hand ranges of memory to a gathering write and go on from what it
took. The answers of the kernel are an infinite sequence, of which a run uses
as many as it needs. A message is delivered when the accepted bytes are the
message, in order, and the sender is never stuck with nothing to offer.
-/
namespace Bookstore.GatherWrites

variable {ρ σ : Type}

/-- The byte at each offset of each region. -/
abbrev Memory (ρ : Type) := ρ → ℤ → UInt8

structure Segment (ρ : Type) where
  region : ρ
  offset : ℤ
  length : ℕ
deriving DecidableEq

def Segment.bytes (mem : Memory ρ) (seg : Segment ρ) : List UInt8 :=
  (List.range seg.length).map fun i : ℕ => mem seg.region (seg.offset + i)

def gather (mem : Memory ρ) (segs : List (Segment ρ)) : List UInt8 :=
  segs.flatMap (Segment.bytes mem)

def offered (segs : List (Segment ρ)) : ℕ := (segs.map Segment.length).sum

@[simp] theorem Segment.length_bytes (mem : Memory ρ) (seg : Segment ρ) :
    (seg.bytes mem).length = seg.length := by
  simp [Segment.bytes]

theorem length_gather (mem : Memory ρ) (segs : List (Segment ρ)) :
    (gather mem segs).length = offered segs := by
  simp [gather, offered, List.length_flatMap]

/-- The bytes at offsets from `offset` on that lie in a known list. -/
theorem Segment.bytes_eq_drop {mem : Memory ρ} {region : ρ} {bytes : List UInt8}
    (hmem : ∀ (i : ℕ) (h : i < bytes.length), mem region i = bytes[i]) {start length : ℕ}
    (hfits : start + length = bytes.length) :
    Segment.bytes mem ⟨region, start, length⟩ = bytes.drop start := by
  apply List.ext_getElem
  · rw [Segment.length_bytes, List.length_drop]
    exact (Nat.sub_eq_of_eq_add' hfits.symm).symm
  · intro i hleft hright
    have hi : i < length := by simpa using hleft
    have hbyte := hmem (start + i) (by omega)
    simpa [Segment.bytes] using hbyte

theorem Segment.take_bytes (mem : Memory ρ) (region : ρ) (offset : ℤ) {n length : ℕ}
    (h : n ≤ length) : (Segment.bytes mem ⟨region, offset, length⟩).take n =
      Segment.bytes mem ⟨region, offset, n⟩ := by
  simp only [Segment.bytes, ← List.map_take, List.take_range, Nat.min_eq_left h]

/-- What one gathering write answers. -/
inductive Result
  | accepted (n : ℕ)
  | again
  | failed

def Result.count : Result → ℕ
  | .accepted n => n
  | _ => 0

/-- Something is taken when something is offered, never more than that, and
nothing when nothing is; the connection does not break. -/
def Legal (offered : ℕ) : Result → Prop
  | .accepted n => n ≤ offered ∧ (0 < offered → 0 < n)
  | .again => 0 < offered
  | .failed => False

instance (offered : ℕ) : (r : Result) → Decidable (Legal offered r)
  | .accepted n => inferInstanceAs (Decidable (n ≤ offered ∧ (0 < offered → 0 < n)))
  | .again => inferInstanceAs (Decidable (0 < offered))
  | .failed => isFalse id

inductive Outcome
  | completed
  | failed
  | idle
deriving DecidableEq

/-- At the head of the loop, waiting to be called again, or back for good. -/
inductive Phase (σ : Type)
  | looping (s : σ)
  | waiting (s : σ)
  | returned (s : σ) (outcome : Outcome)

def Phase.isReturned : Phase σ → Bool
  | .returned _ _ => true
  | _ => false

structure Sender (σ ρ : Type) where
  enter : σ → Phase σ
  segments : σ → List (Segment ρ)
  next : σ → Result → Phase σ

structure Run (σ : Type) where
  phase : Phase σ
  accepted : List UInt8

namespace Sender

variable (w : Sender σ ρ)

def resume : Phase σ → Phase σ
  | .waiting s => w.enter s
  | phase => phase

/-- The state at the head of the loop where the next answer is read. -/
def head (phase : Phase σ) : Option σ :=
  match w.resume phase with
  | .looping s => some s
  | _ => none

def step (mem : Memory ρ) (run : Run σ) (r : Result) : Run σ :=
  match w.resume run.phase with
  | .looping s => ⟨w.next s r, run.accepted ++ (gather mem (w.segments s)).take r.count⟩
  | phase => ⟨phase, run.accepted⟩

/-- The run after the first `k` answers. -/
def after (mem : Memory ρ) (start : Phase σ) (results : ℕ → Result) : ℕ → Run σ
  | 0 => ⟨start, []⟩
  | k + 1 => w.step mem (after mem start results k) (results k)

/-- The answers fit what is offered when they are given. -/
def Obeys (mem : Memory ρ) (start : Phase σ) (results : ℕ → Result) : Prop :=
  ∀ k s, w.head (w.after mem start results k).phase = some s →
    Legal (offered (w.segments s)) (results k)

/-- The sender stays in its loop for ever. -/
def Spins (mem : Memory ρ) (start : Phase σ) (results : ℕ → Result) : Prop :=
  ∃ N, ∀ k, N ≤ k → ∃ s, (w.after mem start results k).phase = .looping s

structure Delivers (mem : Memory ρ) (message : List UInt8) (start : Phase σ)
    (results : ℕ → Result) : Prop where
  inOrder : ∀ k, (w.after mem start results k).accepted <+: message
  complete : ∀ k s, (w.after mem start results k).phase = .returned s .completed →
    (w.after mem start results k).accepted = message
  returns : ¬ w.Spins mem start results

end Sender

/-- The bytes taken by the first `k` answers. -/
def sent (results : ℕ → Result) : ℕ → ℕ
  | 0 => 0
  | k + 1 => sent results k + (results k).count

namespace Sender

variable {w : Sender σ ρ} {mem : Memory ρ} {start : Phase σ} {results : ℕ → Result}

theorem head_looping (s : σ) : w.head (.looping s) = some s := rfl

theorem step_of_head {run : Run σ} {s : σ} (h : w.head run.phase = some s) (r : Result) :
    w.step mem run r = ⟨w.next s r, run.accepted ++ (gather mem (w.segments s)).take r.count⟩ := by
  simp only [head] at h
  simp only [step]
  cases hphase : w.resume run.phase with
  | looping t =>
    simp only [hphase, Option.some.injEq] at h
    rw [h]
  | waiting t => simp [hphase] at h
  | returned t outcome => simp [hphase] at h

theorem after_succ_of_head {k : ℕ} {s : σ} (h : w.head (w.after mem start results k).phase = some s) :
    w.after mem start results (k + 1) = ⟨w.next s (results k),
      (w.after mem start results k).accepted ++
        (gather mem (w.segments s)).take (results k).count⟩ :=
  step_of_head h (results k)

/-- A run at a head was at one before. -/
theorem head_of_head_succ (henter : ∀ s t, w.enter s ≠ .waiting t) {k : ℕ} {t : σ}
    (h : w.head (w.after mem start results (k + 1)).phase = some t) :
    ∃ s, w.head (w.after mem start results k).phase = some s := by
  cases hphase : w.resume (w.after mem start results k).phase with
  | looping s => exact ⟨s, by simp only [head, hphase]⟩
  | waiting s =>
    cases hrun : (w.after mem start results k).phase with
    | looping u =>
      rw [hrun] at hphase
      cases hphase
    | waiting u =>
      rw [hrun] at hphase
      exact absurd hphase (henter u s)
    | returned u outcome =>
      rw [hrun] at hphase
      cases hphase
  | returned s outcome =>
    simp only [after, step, hphase] at h
    cases h

/-- A run that is back stays back. -/
theorem after_returned {k : ℕ} {s : σ} {outcome : Outcome}
    (h : (w.after mem start results k).phase = .returned s outcome) {j : ℕ} (hj : k ≤ j) :
    w.after mem start results j = w.after mem start results k := by
  induction hj with
  | refl => rfl
  | step _ ih =>
    simp only [after, ih, step, h, resume]
    rw [← h]

/-- Once a run is back, the answers that follow do not matter. -/
theorem obeys_of_returned {N : ℕ} (hback : (w.after mem start results N).phase.isReturned = true)
    (hlegal : ∀ k < N, (w.head (w.after mem start results k).phase).all
      (fun s => decide (Legal (offered (w.segments s)) (results k))) = true) :
    w.Obeys mem start results := by
  intro k s hs
  by_cases hk : k < N
  · have hall := hlegal k hk
    rw [hs] at hall
    exact of_decide_eq_true hall
  · cases hphase : (w.after mem start results N).phase with
    | looping t =>
      rw [hphase] at hback
      cases hback
    | waiting t =>
      rw [hphase] at hback
      cases hback
    | returned t outcome =>
      rw [after_returned hphase (Nat.not_lt.mp hk), hphase] at hs
      cases hs

/-- Every answer adds what it counts, as long as the run goes on. -/
theorem length_accepted (hobeys : w.Obeys mem start results)
    {k : ℕ} (h : ∀ j, j < k → ∃ s, w.head (w.after mem start results j).phase = some s) :
    (w.after mem start results k).accepted.length = sent results k := by
  induction k with
  | zero => rfl
  | succ k ih =>
    obtain ⟨s, hs⟩ := h k (Nat.lt_succ_self k)
    have hlegal := hobeys k s hs
    have hcount : (results k).count ≤ offered (w.segments s) := by
      cases hr : results k with
      | accepted n =>
        rw [hr] at hlegal
        exact hlegal.1
      | again => exact Nat.zero_le _
      | failed => exact Nat.zero_le _
    have hprev := ih fun j hj => h j (Nat.lt_succ_of_lt hj)
    rw [after_succ_of_head hs, List.length_append, hprev, List.length_take, length_gather,
      Nat.min_eq_left hcount, sent]

/-- With nothing to offer and nothing done about it, the loop never ends. -/
theorem spins_of_nothing_offered (hobeys : w.Obeys mem start results) {Stuck : σ → Prop}
    (hoffered : ∀ s, Stuck s → offered (w.segments s) = 0)
    (hnext : ∀ s, Stuck s → ∃ t, w.next s (.accepted 0) = .looping t ∧ Stuck t)
    {k : ℕ} {s : σ} (hphase : (w.after mem start results k).phase = .looping s) (hs : Stuck s) :
    w.Spins mem start results := by
  refine ⟨k, fun j hj => ?_⟩
  suffices h : ∃ t, (w.after mem start results j).phase = .looping t ∧ Stuck t by
    obtain ⟨t, ht, -⟩ := h
    exact ⟨t, ht⟩
  induction hj with
  | refl => exact ⟨s, hphase, hs⟩
  | @step j _ ih =>
    obtain ⟨t, ht, hstuck⟩ := ih
    have hhead : w.head (w.after mem start results j).phase = some t := by
      rw [ht, head_looping]
    have hlegal := hobeys j t hhead
    rw [hoffered t hstuck] at hlegal
    have hresult : results j = .accepted 0 := by
      cases hr : results j with
      | accepted n =>
        rw [hr] at hlegal
        rw [Nat.le_zero.mp hlegal.1]
      | again =>
        rw [hr] at hlegal
        exact absurd hlegal (Nat.lt_irrefl 0)
      | failed =>
        rw [hr] at hlegal
        exact hlegal.elim
    obtain ⟨u, hu, hstuck'⟩ := hnext t hstuck
    refine ⟨u, ?_, hstuck'⟩
    rw [after_succ_of_head hhead, hresult, hu]

/-- A sender that always has something to offer leaves its loop. -/
theorem not_spins_of_offering (hobeys : w.Obeys mem start results)
    (hagain : ∀ s t, w.next s .again ≠ .looping t) {bound : ℕ}
    (hbound : ∀ k s, w.head (w.after mem start results k).phase = some s → sent results k ≤ bound)
    (hoffering : ∀ k s, w.head (w.after mem start results k).phase = some s →
      0 < offered (w.segments s)) :
    ¬ w.Spins mem start results := by
  rintro ⟨N, hloop⟩
  have hgrows : ∀ i, i ≤ sent results (N + i) := by
    intro i
    induction i with
    | zero => exact Nat.zero_le _
    | succ i ih =>
      obtain ⟨s, hs⟩ := hloop (N + i) (Nat.le_add_right _ _)
      obtain ⟨t, ht⟩ := hloop (N + i + 1) (by omega)
      have hhead : w.head (w.after mem start results (N + i)).phase = some s := by
        rw [hs, head_looping]
      have hlegal := hobeys _ s hhead
      have hoffer := hoffering _ s hhead
      have hpos : 0 < (results (N + i)).count := by
        cases hr : results (N + i) with
        | accepted n =>
          rw [hr] at hlegal
          exact hlegal.2 hoffer
        | again =>
          rw [after_succ_of_head hhead, hr] at ht
          exact absurd ht (hagain s t)
        | failed =>
          rw [hr] at hlegal
          exact hlegal.elim
      have hsucc : sent results (N + (i + 1)) = sent results (N + i) + (results (N + i)).count := rfl
      omega
  obtain ⟨s, hs⟩ := hloop (N + (bound + 1)) (Nat.le_add_right _ _)
  have hle := hbound _ s (by rw [hs, head_looping])
  have hge := hgrows (bound + 1)
  omega

end Sender

end Bookstore.GatherWrites
