import Mathlib.Data.List.Basic
import Mathlib.Order.Basic
import Mathlib.Data.Nat.Notation

/-!
The binary heap of push_heap and pop_heap on a vector, with a hole that moves up
or down until the value is put into it. `comp x y` says that y belongs above x.
A property that passes from a value to every value above it is followed through
both operations by itself, so the vector need not be ordered for all of them.
-/
namespace Bookstore.BinaryHeap

variable {α : Type}

section Operations

variable (comp : α → α → Bool)

/-- The loop of __push_heap: values above the hole come down as long as `value`
belongs above them. -/
def pushFrom (value : α) : ℕ → ℕ → List α → List α
  | 0, hole, l => l.set hole value
  | n + 1, hole, l =>
    match l[(hole - 1) / 2]? with
    | none => l.set hole value
    | some parent =>
      if 0 < hole ∧ comp parent value = true then
        pushFrom value n ((hole - 1) / 2) (l.set hole parent)
      else l.set hole value

/-- push_back and push_heap. -/
def push (l : List α) (value : α) : List α :=
  pushFrom comp value l.length l.length (l ++ [value])

/-- The loop of __adjust_heap: the upper one of two children moves up into the
hole. -/
def sinkHole (len : ℕ) : ℕ → ℕ → List α → ℕ × List α
  | 0, hole, l => (hole, l)
  | n + 1, hole, l =>
    if hole < (len - 1) / 2 then
      match l[2 * hole + 1]?, l[2 * hole + 2]? with
      | some left, some right =>
        if comp right left = true then sinkHole len n (2 * hole + 1) (l.set hole left)
        else sinkHole len n (2 * hole + 2) (l.set hole right)
      | _, _ => (hole, l)
    else (hole, l)

/-- A left child without a right one moves up last. -/
def sinkLast (len hole : ℕ) (l : List α) : ℕ × List α :=
  if len % 2 = 0 ∧ hole = (len - 2) / 2 then
    match l[2 * hole + 1]? with
    | some left => (2 * hole + 1, l.set hole left)
    | none => (hole, l)
  else (hole, l)

/-- __adjust_heap from the root. -/
def adjust (value : α) (l : List α) : List α :=
  let sunk := sinkHole comp l.length l.length 0 l
  let last := sinkLast l.length sunk.1 sunk.2
  pushFrom comp value last.1 last.1 last.2

/-- pop_heap and pop_back: the last value goes into the hole that the root
leaves. -/
def pop (l : List α) : List α :=
  match l.getLast? with
  | none => []
  | some value => if 1 < l.length then adjust comp value l.dropLast else []

end Operations

/-! ## The values stay the same -/

theorem swap_perm {l : List α} {i j : ℕ} {x : α} (v : α) (hi : i < l.length)
    (hj : l[j]? = some x) (hij : i ≠ j) : ((l.set i x).set j v).Perm (l.set i v) := by
  obtain ⟨hlt, hx⟩ := List.getElem?_eq_some_iff.mp hj
  have hperm := @List.set_set_perm α (l.set i v) i j (by simpa using hi) (by simpa using hlt)
  simpa [List.getElem_set_of_ne, hij, hx] using hperm

variable {comp : α → α → Bool}

theorem pushFrom_perm (value : α) (n hole : ℕ) (l : List α) (hhole : hole < l.length) :
    (pushFrom comp value n hole l).Perm (l.set hole value) := by
  induction n generalizing hole l with
  | zero => exact .refl _
  | succ n ih =>
    unfold pushFrom
    cases hparent : l[(hole - 1) / 2]? with
    | none => exact .refl _
    | some parent =>
      dsimp only
      by_cases hup : 0 < hole ∧ comp parent value = true
      · rw [if_pos hup]
        have hstep := ih ((hole - 1) / 2) (l.set hole parent) (by rw [List.length_set]; omega)
        exact hstep.trans (swap_perm value hhole hparent (by omega))
      · rw [if_neg hup]

/-- A hole that has been moved to `r.1` in `r.2`. -/
structure Moved (l : List α) (hole : ℕ) (r : ℕ × List α) : Prop where
  length : r.2.length = l.length
  inside : r.1 < r.2.length
  perm : ∀ v, (r.2.set r.1 v).Perm (l.set hole v)

theorem Moved.refl {l : List α} {hole : ℕ} (h : hole < l.length) : Moved l hole (hole, l) where
  length := rfl
  inside := h
  perm _ := .refl _

theorem Moved.trans {l : List α} {hole : ℕ} {r r' : ℕ × List α} (h : Moved l hole r)
    (h' : Moved r.2 r.1 r') : Moved l hole r' where
  length := h'.length.trans h.length
  inside := h'.inside
  perm v := (h'.perm v).trans (h.perm v)

theorem moved_to {l : List α} {hole child : ℕ} {x : α} (hhole : hole < l.length)
    (hchild : l[child]? = some x) (hne : hole ≠ child) : Moved l hole (child, l.set hole x) where
  length := List.length_set
  inside := by
    rw [List.length_set]
    exact (List.getElem?_eq_some_iff.mp hchild).1
  perm v := swap_perm v hhole hchild hne

theorem sinkHole_moved (len n hole : ℕ) (l : List α) (hhole : hole < l.length) :
    Moved l hole (sinkHole comp len n hole l) := by
  induction n generalizing hole l with
  | zero => exact .refl hhole
  | succ n ih =>
    unfold sinkHole
    by_cases hinner : hole < (len - 1) / 2
    · rw [if_pos hinner]
      cases hleft : l[2 * hole + 1]? with
      | none => exact .refl hhole
      | some left =>
        cases hright : l[2 * hole + 2]? with
        | none => exact .refl hhole
        | some right =>
          dsimp only
          split
          · have hstep := moved_to hhole hleft (by omega)
            exact hstep.trans (ih _ _ hstep.inside)
          · have hstep := moved_to hhole hright (by omega)
            exact hstep.trans (ih _ _ hstep.inside)
    · rw [if_neg hinner]
      exact .refl hhole

theorem sinkLast_moved (len hole : ℕ) (l : List α) (hhole : hole < l.length) :
    Moved l hole (sinkLast len hole l) := by
  unfold sinkLast
  split
  · cases hleft : l[2 * hole + 1]? with
    | none => exact .refl hhole
    | some left => exact moved_to hhole hleft (by omega)
  · exact .refl hhole

theorem adjust_moved (comp : α → α → Bool) {l : List α} (h : 0 < l.length) :
    Moved l 0 (sinkLast l.length (sinkHole comp l.length l.length 0 l).1
      (sinkHole comp l.length l.length 0 l).2) := by
  have hsunk := @sinkHole_moved α comp l.length l.length 0 l h
  exact hsunk.trans (sinkLast_moved _ _ _ hsunk.inside)

theorem adjust_perm (value : α) {l : List α} (h : 0 < l.length) :
    (adjust comp value l).Perm (l.set 0 value) := by
  have hmoved := adjust_moved comp h
  exact (pushFrom_perm _ _ _ _ hmoved.inside).trans (hmoved.perm value)

theorem push_perm (l : List α) (value : α) : (push comp l value).Perm (value :: l) := by
  have hpush := @pushFrom_perm α comp value l.length l.length (l ++ [value]) (by simp)
  rw [List.set_append_right _ _ (Nat.le_refl _), Nat.sub_self] at hpush
  exact hpush.trans (List.perm_append_singleton value l)

/-- pop_heap on a vector with more than one value. -/
theorem pop_concat (top value : α) (rest : List α) :
    pop comp (top :: rest ++ [value]) = adjust comp value (top :: rest) := by
  have hlast : (top :: rest ++ [value]).getLast? = some value := List.getLast?_concat
  have hlength : 1 < (top :: rest ++ [value]).length := by simp
  rw [pop, hlast]
  dsimp only
  rw [if_pos hlength, List.dropLast_concat]

theorem pop_perm (l : List α) : (pop comp l).Perm l.tail := by
  rcases List.eq_nil_or_concat l with rfl | ⟨init, value, rfl⟩
  · exact .refl _
  · rw [List.concat_eq_append]
    cases init with
    | nil => exact .refl _
    | cons top rest =>
      rw [pop_concat]
      have hadjust : (adjust comp value (top :: rest)).Perm (value :: rest) :=
        adjust_perm value (Nat.succ_pos rest.length)
      exact hadjust.trans (List.perm_append_singleton value rest).symm

/-! ## A property that passes to the values above -/

/-- Above a value with the property there are only values with it. -/
def Sifted (low : α → Prop) (l : List α) : Prop :=
  ∀ i x y, 0 < i → l[i]? = some x → l[(i - 1) / 2]? = some y → low x → low y

theorem sifted_iff_getElem (low : α → Prop) (l : List α) :
    Sifted low l ↔ ∀ i, ∀ h : i < l.length, low l[i] →
      low (l.get ⟨(i - 1) / 2, by omega⟩) := by
  constructor
  · intro hsifted i h hlow
    by_cases hi : i = 0
    · simpa [hi] using hlow
    · exact hsifted i _ _ (by omega) (List.getElem?_eq_getElem h)
        (List.getElem?_eq_getElem (by omega)) hlow
  · intro hall i x y hi hx hy hlow
    obtain ⟨h, rfl⟩ := List.getElem?_eq_some_iff.mp hx
    obtain ⟨h', rfl⟩ := List.getElem?_eq_some_iff.mp hy
    exact hall i h hlow

instance (low : α → Prop) [DecidablePred low] (l : List α) : Decidable (Sifted low l) :=
  decidable_of_iff _ (sifted_iff_getElem low l).symm

/-- The comparison puts no value without the property above one with it. -/
structure Respects (comp : α → α → Bool) (low : α → Prop) : Prop where
  above : ∀ x y, comp x y = true → low x → low y
  below : ∀ x y, comp x y = false → low y → low x

/-- Everywhere but around the hole the property passes to the values above, and
it passes over the hole. -/
structure SiftedAround (low : α → Prop) (hole : ℕ) (l : List α) : Prop where
  away : ∀ i x y, 0 < i → i ≠ hole → (i - 1) / 2 ≠ hole → l[i]? = some x →
    l[(i - 1) / 2]? = some y → low x → low y
  across : ∀ i x y, 0 < i → 0 < hole → (i - 1) / 2 = hole → l[i]? = some x →
    l[(hole - 1) / 2]? = some y → low x → low y

variable {low : α → Prop}

theorem Sifted.around {l : List α} (h : Sifted low l) (hole : ℕ) : SiftedAround low hole l where
  away i x y hi _ _ hx hy := h i x y hi hx hy
  across i x y hi hhole hparent hx hy hlow := by
    have hz : ∃ z, l[hole]? = some z := by
      have hlt := (List.getElem?_eq_some_iff.mp hx).1
      exact ⟨l.get ⟨hole, by omega⟩, List.getElem?_eq_getElem (by omega)⟩
    obtain ⟨z, hz⟩ := hz
    exact h hole z y hhole hz hy (h i x z hi hx (by rw [hparent]; exact hz) hlow)

/-- A value moved from below into the hole. -/
theorem SiftedAround.down {l : List α} {hole child : ℕ} {x : α} (h : SiftedAround low hole l)
    (hhole : hole < l.length) (hpos : 0 < child) (hparent : (child - 1) / 2 = hole)
    (hx : l[child]? = some x)
    (hsibling : ∀ i y, 0 < i → i ≠ child → (i - 1) / 2 = hole → l[i]? = some y → low y → low x) :
    SiftedAround low child (l.set hole x) where
  away i y z hi hne hne' hy hz hlow := by
    by_cases hih : i = hole
    · subst hih
      rw [List.getElem?_set_self hhole] at hy
      rw [List.getElem?_set_ne (by omega)] at hz
      rw [← Option.some.inj hy] at hlow
      exact h.across child x z hpos hi hparent hx hz hlow
    · rw [List.getElem?_set_ne (Ne.symm hih)] at hy
      by_cases hph : (i - 1) / 2 = hole
      · rw [hph, List.getElem?_set_self hhole] at hz
        rw [← Option.some.inj hz]
        exact hsibling i y hi hne hph hy hlow
      · rw [List.getElem?_set_ne (Ne.symm hph)] at hz
        exact h.away i y z hi hih hph hy hz hlow
  across i y z hi _ hpi hy hz hlow := by
    rw [List.getElem?_set_ne (by omega)] at hy
    rw [hparent, List.getElem?_set_self hhole] at hz
    rw [← Option.some.inj hz]
    exact h.away i y x hi (by omega) (by omega) hy (by rw [hpi]; exact hx) hlow

theorem sinkHole_sifted (hcomp : Respects comp low) (len n hole : ℕ) (l : List α)
    (hhole : hole < l.length) (h : SiftedAround low hole l) :
    SiftedAround low (sinkHole comp len n hole l).1 (sinkHole comp len n hole l).2 := by
  induction n generalizing hole l with
  | zero => exact h
  | succ n ih =>
    unfold sinkHole
    by_cases hinner : hole < (len - 1) / 2
    · rw [if_pos hinner]
      cases hleft : l[2 * hole + 1]? with
      | none => exact h
      | some left =>
        cases hright : l[2 * hole + 2]? with
        | none => exact h
        | some right =>
          dsimp only
          have hleftLt := (List.getElem?_eq_some_iff.mp hleft).1
          have hrightLt := (List.getElem?_eq_some_iff.mp hright).1
          split
          · rename_i hup
            apply ih _ _ (by rw [List.length_set]; omega)
            apply h.down hhole (by omega) (by omega) hleft
            intro i y _ hne hparent hy hlow
            have hi : i = 2 * hole + 2 := by omega
            rw [hi, hright] at hy
            rw [← Option.some.inj hy] at hlow
            exact hcomp.above right left hup hlow
          · rename_i hdown
            rw [Bool.not_eq_true] at hdown
            apply ih _ _ (by rw [List.length_set]; omega)
            apply h.down hhole (by omega) (by omega) hright
            intro i y _ hne hparent hy hlow
            have hi : i = 2 * hole + 1 := by omega
            rw [hi, hleft] at hy
            rw [← Option.some.inj hy] at hlow
            exact hcomp.below right left hdown hlow
    · rw [if_neg hinner]
      exact h

/-- A value moved from above into the hole. -/
theorem SiftedAround.up {l : List α} {hole : ℕ} {y : α} (h : SiftedAround low hole l)
    (hpos : 0 < hole) (hhole : hole < l.length) (hy : l[(hole - 1) / 2]? = some y) :
    SiftedAround low ((hole - 1) / 2) (l.set hole y) where
  away i x z hi hne hne' hx hz hlow := by
    have hih : i ≠ hole := by
      intro hih
      exact hne' (by rw [hih])
    rw [List.getElem?_set_ne (Ne.symm hih)] at hx
    by_cases hph : (i - 1) / 2 = hole
    · rw [hph, List.getElem?_set_self hhole] at hz
      rw [← Option.some.inj hz]
      exact h.across i x y hi hpos hph hx hy hlow
    · rw [List.getElem?_set_ne (Ne.symm hph)] at hz
      exact h.away i x z hi hih hph hx hz hlow
  across i x z hi hpos' hpi hx hz hlow := by
    rw [List.getElem?_set_ne (by omega)] at hz
    have hlowY : low y := by
      by_cases hih : i = hole
      · rw [hih, List.getElem?_set_self hhole] at hx
        rw [Option.some.inj hx]
        exact hlow
      · rw [List.getElem?_set_ne (Ne.symm hih)] at hx
        exact h.away i x y hi hih (by omega) hx (by rw [hpi]; exact hy) hlow
    exact h.away ((hole - 1) / 2) y z hpos' (by omega) (by omega) hy hz hlowY

/-- The value is put into the hole. -/
theorem SiftedAround.fill {l : List α} {hole : ℕ} {value : α} (h : SiftedAround low hole l)
    (hhole : hole < l.length)
    (habove : 0 < hole → ∀ y, l[(hole - 1) / 2]? = some y → low value → low y)
    (hbelow : ∀ i x, 0 < i → (i - 1) / 2 = hole → l[i]? = some x → low x → low value) :
    Sifted low (l.set hole value) := by
  intro i x y hi hx hy hlow
  by_cases hih : i = hole
  · subst hih
    rw [List.getElem?_set_self hhole] at hx
    rw [List.getElem?_set_ne (by omega)] at hy
    rw [← Option.some.inj hx] at hlow
    exact habove hi y hy hlow
  · rw [List.getElem?_set_ne (Ne.symm hih)] at hx
    by_cases hph : (i - 1) / 2 = hole
    · rw [hph, List.getElem?_set_self hhole] at hy
      rw [← Option.some.inj hy]
      exact hbelow i x hi hph hx hlow
    · rw [List.getElem?_set_ne (Ne.symm hph)] at hy
      exact h.away i x y hi hih hph hx hy hlow

theorem pushFrom_sifted (hcomp : Respects comp low) (value : α) (n hole : ℕ) (l : List α)
    (hn : hole ≤ n) (hhole : hole < l.length) (h : SiftedAround low hole l)
    (hbelow : ∀ i x, 0 < i → (i - 1) / 2 = hole → l[i]? = some x → low x → low value) :
    Sifted low (pushFrom comp value n hole l) := by
  induction n generalizing hole l with
  | zero => exact h.fill hhole (fun hpos => by omega) hbelow
  | succ n ih =>
    unfold pushFrom
    cases hparent : l[(hole - 1) / 2]? with
    | none =>
      apply h.fill hhole _ hbelow
      intro _ y hy
      rw [hparent] at hy
      cases hy
    | some parent =>
      dsimp only
      by_cases hup : 0 < hole ∧ comp parent value = true
      · rw [if_pos hup]
        obtain ⟨hpos, hbelongs⟩ := hup
        apply ih _ _ (by omega) (by rw [List.length_set]; omega) (h.up hpos hhole hparent)
        intro i x hi hpi hx hlow
        apply hcomp.above parent value hbelongs
        by_cases hih : i = hole
        · rw [hih, List.getElem?_set_self hhole] at hx
          rw [Option.some.inj hx]
          exact hlow
        · rw [List.getElem?_set_ne (Ne.symm hih)] at hx
          exact h.away i x parent hi hih (by omega) hx (by rw [hpi]; exact hparent) hlow
      · rw [if_neg hup]
        apply h.fill hhole _ hbelow
        intro hpos y hy
        rw [hparent] at hy
        rw [← Option.some.inj hy]
        apply hcomp.below parent value
        rw [← Bool.not_eq_true]
        exact fun hbelongs => hup ⟨hpos, hbelongs⟩

/-- The property keeps passing upwards when a value is pushed. -/
theorem push_sifted (hcomp : Respects comp low) {l : List α} (h : Sifted low l) (value : α) :
    Sifted low (push comp l value) := by
  have hend : ∀ i x, (l ++ [value])[i]? = some x → i ≠ l.length → l[i]? = some x := by
    intro i x hx hne
    have hlt := (List.getElem?_eq_some_iff.mp hx).1
    rw [List.length_append, List.length_singleton] at hlt
    rwa [List.getElem?_append_left (by omega)] at hx
  have houtside : ∀ i x, 0 < i → (i - 1) / 2 = l.length → (l ++ [value])[i]? ≠ some x := by
    intro i x hi hparent hx
    have hlt := (List.getElem?_eq_some_iff.mp hx).1
    rw [List.length_append, List.length_singleton] at hlt
    omega
  apply pushFrom_sifted hcomp value _ _ _ (Nat.le_refl _) (by simp)
  · refine ⟨?_, ?_⟩
    · intro i x y hi hne hne' hx hy
      exact h i x y hi (hend i x hx hne) (hend _ y hy hne')
    · intro i x y hi _ hparent hx
      exact absurd hx (houtside i x hi hparent)
  · intro i x hi hparent hx
    exact absurd hx (houtside i x hi hparent)

theorem sinkHole_last (len n hole : ℕ) (l : List α) (hlen : l.length = len)
    (hhole : hole < len) (hn : len ≤ hole + n) :
    (len - 1) / 2 ≤ (sinkHole comp len n hole l).1 := by
  induction n generalizing hole l with
  | zero => omega
  | succ n ih =>
    unfold sinkHole
    by_cases hinner : hole < (len - 1) / 2
    · rw [if_pos hinner]
      rw [List.getElem?_eq_getElem (show 2 * hole + 1 < l.length by omega),
        List.getElem?_eq_getElem (show 2 * hole + 2 < l.length by omega)]
      dsimp only
      split
      · exact ih _ _ (by rw [List.length_set]; exact hlen) (by omega) (by omega)
      · exact ih _ _ (by rw [List.length_set]; exact hlen) (by omega) (by omega)
    · rw [if_neg hinner]
      omega

/-- A hole without a right child sinks to a place without children. -/
theorem sinkLast_sifted {len hole : ℕ} {l : List α} (hlen : l.length = len) (hhole : hole < len)
    (hlast : (len - 1) / 2 ≤ hole) (h : SiftedAround low hole l) :
    SiftedAround low (sinkLast len hole l).1 (sinkLast len hole l).2 ∧
      len ≤ 2 * (sinkLast len hole l).1 + 1 := by
  unfold sinkLast
  by_cases heven : len % 2 = 0 ∧ hole = (len - 2) / 2
  · rw [if_pos heven]
    have hlt : 2 * hole + 1 < l.length := by omega
    rw [List.getElem?_eq_getElem hlt]
    refine ⟨?_, by dsimp only; omega⟩
    apply h.down (by omega) (by omega) (by omega) (List.getElem?_eq_getElem hlt)
    intro i y hi hne hparent hy
    have hi' := (List.getElem?_eq_some_iff.mp hy).1
    omega
  · rw [if_neg heven]
    exact ⟨h, by dsimp only; omega⟩

theorem adjust_sifted (hcomp : Respects comp low) (value : α) {l : List α} (hpos : 0 < l.length)
    (h : Sifted low l) : Sifted low (adjust comp value l) := by
  have hmoved := @sinkHole_moved α comp l.length l.length 0 l hpos
  have hinside := hmoved.inside.trans_eq hmoved.length
  obtain ⟨haround, hleaf⟩ := sinkLast_sifted hmoved.length hinside
    (sinkHole_last l.length l.length 0 l rfl hpos (by omega))
    (sinkHole_sifted hcomp l.length l.length 0 l hpos (h.around 0))
  have hlast := adjust_moved comp hpos
  apply pushFrom_sifted hcomp value _ _ _ (Nat.le_refl _) hlast.inside haround
  intro i x hi hparent hx
  have hlt := (List.getElem?_eq_some_iff.mp hx).1
  rw [hlast.length] at hlt
  omega

theorem Sifted.left {xs : List α} {ys : List α} (h : Sifted low (xs ++ ys)) : Sifted low xs := by
  intro i x y hi hx hy
  have hlt := (List.getElem?_eq_some_iff.mp hx).1
  apply h i x y hi
  · rwa [List.getElem?_append_left hlt]
  · rwa [List.getElem?_append_left (by omega)]

/-- The property keeps passing upwards when the root is popped. -/
theorem pop_sifted (hcomp : Respects comp low) {l : List α} (h : Sifted low l) :
    Sifted low (pop comp l) := by
  have hnil : Sifted low ([] : List α) := by
    intro i x y _ hx
    simp at hx
  rcases List.eq_nil_or_concat l with rfl | ⟨init, value, rfl⟩
  · exact hnil
  · rw [List.concat_eq_append] at h ⊢
    cases init with
    | nil => exact hnil
    | cons top rest =>
      rw [pop_concat]
      exact adjust_sifted hcomp value (Nat.succ_pos rest.length) h.left

/-- Below a root without the property there is no value with it. -/
theorem Sifted.none_of_root {l : List α} (h : Sifted low l) {root : α} (hroot : l[0]? = some root)
    (hnot : ¬ low root) : ∀ x ∈ l, ¬ low x := by
  have hall : ∀ (i : ℕ) (x : α), l[i]? = some x → ¬ low x := by
    intro i
    induction i using Nat.strongRecOn with
    | _ i ih =>
      intro x hx hlow
      by_cases hi : i = 0
      · rw [hi, hroot] at hx
        rw [← Option.some.inj hx] at hlow
        exact hnot hlow
      · have hlt := (List.getElem?_eq_some_iff.mp hx).1
        have hy := List.getElem?_eq_getElem (show (i - 1) / 2 < l.length by omega)
        exact ih ((i - 1) / 2) (by omega) _ hy (h i x _ (by omega) hx hy hlow)
  intro x hx
  obtain ⟨i, hi⟩ := List.mem_iff_getElem?.mp hx
  exact hall i x hi

end Bookstore.BinaryHeap
