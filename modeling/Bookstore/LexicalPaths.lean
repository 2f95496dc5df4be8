import Mathlib.Data.List.Infix
import Mathlib.Data.Nat.Notation

/-!
Paths read segment by segment. A place is the list of the names that lead to
it, the deepest name first.
-/
namespace Bookstore.LexicalPaths

variable {α : Type*}

inductive Segment (α : Type*)
  | here
  | up
  | down (name : α)
deriving DecidableEq

/-- Above the top is the top. -/
def follow : List α → Segment α → List α
  | place, .here => place
  | place, .up => place.tail
  | place, .down name => name :: place

def resolve (start : List α) (segments : List (Segment α)) : List α := segments.foldl follow start

@[simp] theorem resolve_nil (start : List α) : resolve start [] = start := rfl

@[simp] theorem resolve_cons (start : List α) (s : Segment α) (segments : List (Segment α)) :
    resolve start (s :: segments) = resolve (follow start s) segments := rfl

theorem resolve_append (start : List α) (p q : List (Segment α)) :
    resolve start (p ++ q) = resolve (resolve start p) q := List.foldl_append

/-- What a relative path comes to: it climbs, and then goes down to names. -/
structure Cleaned (α : Type*) where
  ups : ℕ
  names : List α
deriving DecidableEq

namespace Cleaned

def follow : Cleaned α → Segment α → Cleaned α
  | c, .here => c
  | ⟨ups, []⟩, .up => ⟨ups + 1, []⟩
  | ⟨ups, _ :: names⟩, .up => ⟨ups, names⟩
  | ⟨ups, names⟩, .down name => ⟨ups, name :: names⟩

def apply (c : Cleaned α) (start : List α) : List α := c.names ++ start.drop c.ups

theorem apply_follow (c : Cleaned α) (s : Segment α) (start : List α) :
    (c.follow s).apply start = LexicalPaths.follow (c.apply start) s := by
  obtain ⟨ups, names⟩ := c
  cases s with
  | here => rfl
  | up =>
    cases names with
    | nil => simp [follow, apply, LexicalPaths.follow]
    | cons name names => rfl
  | down name => rfl

end Cleaned

def clean (segments : List (Segment α)) : Cleaned α := segments.foldl Cleaned.follow ⟨0, []⟩

theorem resolve_apply (c : Cleaned α) (start : List α) (segments : List (Segment α)) :
    resolve (c.apply start) segments = (segments.foldl Cleaned.follow c).apply start := by
  induction segments generalizing c with
  | nil => rfl
  | cons s segments ih => rw [resolve_cons, ← c.apply_follow s start, ih, List.foldl_cons]

theorem resolve_eq_clean (start : List α) (segments : List (Segment α)) :
    resolve start segments = (clean segments).apply start :=
  resolve_apply ⟨0, []⟩ start segments

/-- At the place, or below it. -/
def Below (root place : List α) : Prop := root <:+ place

/-- The path comes back down through the names it has climbed above. -/
def Returns (root : List α) (c : Cleaned α) : Prop := root.take c.ups <:+ c.names

instance [DecidableEq α] (root place : List α) : Decidable (Below root place) :=
  inferInstanceAs (Decidable (root <:+ place))

instance [DecidableEq α] (root : List α) (c : Cleaned α) : Decidable (Returns root c) :=
  inferInstanceAs (Decidable (root.take c.ups <:+ c.names))

/-- A relative path stays below its start exactly when it comes back down to
it. -/
theorem below_resolve_iff (root : List α) (segments : List (Segment α)) :
    Below root (resolve root segments) ↔ Returns root (clean segments) := by
  rw [resolve_eq_clean]
  unfold Below Returns Cleaned.apply
  nth_rewrite 1 [← List.take_append_drop (clean segments).ups root]
  exact List.suffix_append_self_iff

end Bookstore.LexicalPaths
