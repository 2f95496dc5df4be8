import Mathlib.Logic.Basic

/-!
Sequences of commands on a state. A property of single steps holds along a run
when every command has it in the state that it finds. A property of the entries
of a record may look at the entries before.
-/
namespace Bookstore.Runs

variable {σ κ : Type} (perform : σ → κ → σ)

/-- Each command of a run meets `P` in the state it finds. -/
def Always (P : σ → κ → Prop) : σ → List κ → Prop
  | _, [] => True
  | s, c :: rest => P s c ∧ Always P (perform s c) rest

variable {perform} {I : σ → Prop} {P Q R : σ → κ → Prop}

/-- Two properties of steps agree along a run when they agree in every state of
an invariant that steps with the first property keep. -/
theorem always_iff (hstep : ∀ s c, I s → R s c → (P s c ↔ Q s c))
    (hkeep : ∀ s c, I s → R s c → P s c → I (perform s c)) {s : σ} (hs : I s) (cs : List κ)
    (hR : Always perform R s cs) : Always perform P s cs ↔ Always perform Q s cs := by
  induction cs generalizing s with
  | nil => exact Iff.rfl
  | cons c rest ih =>
    constructor
    · intro hP
      have hnext := hkeep s c hs hR.1 hP.1
      exact ⟨(hstep s c hs hR.1).mp hP.1, (ih hnext hR.2).mp hP.2⟩
    · intro hQ
      have hc := (hstep s c hs hR.1).mpr hQ.1
      exact ⟨hc, (ih (hkeep s c hs hR.1 hc) hR.2).mpr hQ.2⟩

theorem always_true (s : σ) (cs : List κ) : Always perform (fun _ _ => True) s cs := by
  induction cs generalizing s with
  | nil => trivial
  | cons c rest ih => exact ⟨trivial, ih _⟩

/-- What every command keeps holds after a run. -/
theorem foldl_keeps (hkeep : ∀ s c, I s → I (perform s c)) {s : σ} (hs : I s) (cs : List κ) :
    I (cs.foldl perform s) := by
  induction cs generalizing s with
  | nil => exact hs
  | cons c rest ih => exact ih (hkeep s c hs)

/-- What every enabled command keeps holds after a run. -/
theorem foldlM_keeps {step : σ → κ → Option σ}
    (hkeep : ∀ s c s', I s → step s c = some s' → I s') {s s' : σ} (hs : I s) {cs : List κ}
    (hrun : cs.foldlM step s = some s') : I s' := by
  induction cs generalizing s with
  | nil =>
    cases hrun
    exact hs
  | cons c rest ih =>
    rw [List.foldlM_cons] at hrun
    obtain ⟨t, ht, hrest⟩ := Option.bind_eq_some_iff.mp hrun
    exact ih (hkeep s c t hs ht) hrest

/-! ## Replies -/

section Replies

variable {τ ρ : Type}

/-- The replies to a list of commands, when all of them are enabled, and the
state after them. -/
def replies (step : σ → κ → Option (ρ × σ)) : σ → List κ → Option (List ρ × σ)
  | s, [] => some ([], s)
  | s, c :: rest =>
    (step s c).bind fun (r, s') => (replies step s' rest).map fun (rs, t) => (r :: rs, t)

theorem replies_append (step : σ → κ → Option (ρ × σ)) (s : σ) (cs ds : List κ) :
    replies step s (cs ++ ds) = (replies step s cs).bind fun (rs, t) =>
      (replies step t ds).map fun (rs', u) => (rs ++ rs', u) := by
  induction cs generalizing s with
  | nil =>
    simp only [List.nil_append, replies, Option.bind_some]
    exact (congrFun Option.map_id _).symm
  | cons c rest ih =>
    simp only [List.cons_append, replies, ih, Option.bind_assoc, Option.bind_map,
      Option.map_bind, Option.map_map, Function.comp_def]

/-- The same reply, and related states after it; or both not enabled. -/
def Matches (R : σ → τ → Prop) : Option (ρ × σ) → Option (ρ × τ) → Prop :=
  Option.Rel fun a b => a.1 = b.1 ∧ R a.2 b.2

theorem Matches.fst_eq {R : σ → τ → Prop} {a : Option (ρ × σ)} {b : Option (ρ × τ)}
    (h : Matches R a b) : a.map Prod.fst = b.map Prod.fst := by
  cases h with
  | none => rfl
  | some h => exact congrArg some h.1

theorem Matches.bind {ρ' : Type} {R : σ → τ → Prop} {a : Option (ρ × σ)} {b : Option (ρ × τ)}
    {f : ρ × σ → Option (ρ' × σ)} {g : ρ × τ → Option (ρ' × τ)} (h : Matches R a b)
    (hnext : ∀ r s t, R s t → Matches R (f (r, s)) (g (r, t))) :
    Matches R (a.bind f) (b.bind g) := by
  cases h with
  | none => exact .none
  | @some x y h =>
    obtain ⟨r, s⟩ := x
    obtain ⟨_, t⟩ := y
    obtain ⟨rfl, hst⟩ := h
    exact hnext r s t hst

theorem Matches.map {ρ' : Type} {R : σ → τ → Prop} {a : Option (ρ × σ)} {b : Option (ρ × τ)}
    (h : Matches R a b) (f : ρ → ρ') :
    Matches R (a.map fun (r, s) => (f r, s)) (b.map fun (r, t) => (f r, t)) := by
  cases h with
  | none => exact .none
  | some h => exact .some ⟨congrArg f h.1, h.2⟩

/-- A relation that every command keeps, with equal replies, is kept by runs. -/
theorem replies_refine {R : σ → τ → Prop} {step : σ → κ → Option (ρ × σ)}
    {step' : τ → κ → Option (ρ × τ)} (hstep : ∀ s t c, R s t → Matches R (step s c) (step' t c))
    {s : σ} {t : τ} (h : R s t) (cs : List κ) :
    Matches R (replies step s cs) (replies step' t cs) := by
  induction cs generalizing s t with
  | nil => exact .some ⟨rfl, h⟩
  | cons c rest ih => exact (hstep s t c h).bind fun r s' t' h' => (ih h').map (r :: ·)

end Replies

/-! ## Records of runs -/

section Records

variable {α : Type}

/-- Every entry of a record meets `P` after the entries before it. -/
def Each (P : List α → α → Prop) (l : List α) : Prop :=
  ∀ earlier x later, l = earlier ++ x :: later → P earlier x

variable {P Q : List α → α → Prop}

theorem each_nil : Each P [] := by
  intro earlier x later h
  cases earlier <;> cases h

theorem each_snoc {l : List α} {y : α} : Each P (l ++ [y]) ↔ Each P l ∧ P l y := by
  constructor
  · intro h
    refine ⟨?_, h l y [] rfl⟩
    intro earlier x later hl
    apply h earlier x (later ++ [y])
    rw [hl, List.append_assoc, List.cons_append]
  · rintro ⟨hl, hy⟩ earlier x later h
    rcases List.eq_nil_or_concat later with hlater | ⟨before, z, hlater⟩
    · subst hlater
      obtain ⟨hearlier, hx⟩ := List.append_inj' h rfl
      cases hx
      rw [← hearlier]
      exact hy
    · subst hlater
      rw [List.concat_eq_append, ← List.cons_append, ← List.append_assoc] at h
      obtain ⟨hearlier, _⟩ := List.append_inj' h rfl
      exact hl earlier x before hearlier

end Records

end Bookstore.Runs
