import Bookstore.Interleaving
import Mathlib.Data.List.Forall2
import Mathlib.Data.List.Induction

/-!
More on programs over a shared state: the threads of one of several owners, invariants
that the steps of a program keep and what it then comes to, and programs whose results
are translated. A run of translated programs is a run of the programs themselves.
-/
namespace Bookstore.Threads

open Interleaving

variable {σ ι ρ ρ' α β : Type}

/-! ## Schedules -/

theorem execute_append {program : ρ → Prog σ α} (c : Config ρ σ α) (front back : List (Move ρ)) :
    execute program c (front ++ back) =
      (execute program c front).bind fun c' =>
        execute program c' back := by
  induction front generalizing c with
  | nil => rfl
  | cons m front ih =>
    simp only [List.cons_append, execute]
    cases fire program c m with
    | none => rfl
    | some c' => exact ih c'

theorem execute_concat {program : ρ → Prog σ α} {c c' : Config ρ σ α} {moves : List (Move ρ)}
    {m : Move ρ} (h : execute program c (moves ++ [m]) = some c') :
    ∃ d, execute program c moves = some d ∧ fire program d m = some c' := by
  rw [execute_append] at h
  obtain ⟨d, hd, hlast⟩ := Option.bind_eq_some_iff.mp h
  exact ⟨d, hd, by simpa [execute] using hlast⟩

/-- What a move asks for. -/
def requests : Move ρ → List ρ
  | .spawn r => [r]
  | .step _ => []

/-- What has been asked for stays in the threads. -/
theorem fire_requests {program : ρ → Prog σ α} {c c' : Config ρ σ α} {m : Move ρ}
    (h : fire program c m = some c') : c'.threads.map Thread.request =
      c.threads.map Thread.request ++ requests m := by
  rcases fire_cases h with ⟨r, rfl, rfl⟩ | ⟨i, t, _, f, next, rfl, hget, -, rfl⟩
  · exact List.map_append
  · have hsame : (c.threads.map Thread.request)[i]? = some t.request := by
      rw [List.getElem?_map, hget]
      rfl
    rw [List.map_set, requests, List.append_nil]
    obtain ⟨hlt, heq⟩ := List.getElem?_eq_some_iff.mp hsame
    rw [← heq, List.set_getElem_self]

/-! ## The threads of one owner -/

section Owners

variable [DecidableEq ι]

/-- What an owner has asked for, with what is left of the programs, in order. -/
def owned (i : ι) (threads : List (Thread (ι × ρ) σ α)) : List (ρ × Prog σ α) :=
  (threads.filter fun t => t.request.1 = i).map fun t => (t.request.2, t.prog)

theorem owned_append (i : ι) (threads more : List (Thread (ι × ρ) σ α)) :
    owned i (threads ++ more) = owned i threads ++ owned i more := by
  simp only [owned, List.filter_append, List.map_append]

theorem owned_cons_self (i : ι) (r : ρ) (p : Prog σ α) (steps : ℕ)
    (threads : List (Thread (ι × ρ) σ α)) :
    owned i (⟨(i, r), p, steps⟩ :: threads) = (r, p) :: owned i threads := by
  simp [owned]

theorem owned_cons_other {i j : ι} (h : j ≠ i) (r : ρ) (p : Prog σ α) (steps : ℕ)
    (threads : List (Thread (ι × ρ) σ α)) :
    owned i (⟨(j, r), p, steps⟩ :: threads) = owned i threads := by
  simp [owned, h]

/-- The last thread of an owner can be found, when it is the only one with its program. -/
theorem exists_last_owned {i : ι} {threads : List (Thread (ι × ρ) σ α)}
    {past : List (ρ × Prog σ α)} {r : ρ} {p : Prog σ α}
    (h : owned i threads = past ++ [(r, p)]) (hnew : ∀ q ∈ past, q.2 ≠ p) :
    ∃ front back steps, threads = front ++ ⟨(i, r), p, steps⟩ :: back ∧ owned i front = past ∧
      owned i back = [] := by
  induction threads generalizing past with
  | nil =>
    have hlength := congrArg List.length h
    rw [List.length_append] at hlength
    cases hlength
  | cons t threads ih =>
    obtain ⟨⟨owner, asked⟩, prog, steps⟩ := t
    by_cases howner : owner = i
    · subst howner
      rw [owned_cons_self] at h
      cases past with
      | nil =>
        obtain ⟨hhead, htail⟩ := List.cons.inj h
        obtain ⟨rfl, rfl⟩ := Prod.mk.inj hhead
        exact ⟨[], threads, steps, rfl, rfl, htail⟩
      | cons q past =>
        obtain ⟨hhead, htail⟩ := List.cons.inj h
        obtain ⟨front, back, steps', rfl, hfront, hback⟩ :=
          ih htail fun q' hq' => hnew q' (List.mem_cons_of_mem _ hq')
        refine ⟨⟨(owner, asked), prog, steps⟩ :: front, back, steps', rfl, ?_, hback⟩
        rw [owned_cons_self, hfront, hhead]
    · rw [owned_cons_other howner] at h
      obtain ⟨front, back, steps', rfl, hfront, hback⟩ := ih h hnew
      refine ⟨⟨(owner, asked), prog, steps⟩ :: front, back, steps', rfl, ?_, hback⟩
      rw [owned_cons_other howner, hfront]

end Owners

/-! ## Invariants and results -/

/-- Every step keeps `I`, and every result that comes of it is as `P` says. -/
inductive Guarded (I : σ → Prop) (P : α → Prop) : Prog σ α → Prop
  | done {a : α} (h : P a) : Guarded I P (.done a)
  | act {β : Type} {f : σ → β × σ} {next : β → Prog σ α} (hkeeps : ∀ s, I s → I (f s).2)
      (hnext : ∀ s, I s → Guarded I P (next (f s).1)) : Guarded I P (.act f next)

section Guarded

variable {I : σ → Prop} {P : α → Prop} {Q : β → Prop}

theorem Guarded.bind {p : Prog σ α} {k : α → Prog σ β} (h : Guarded I P p)
    (hk : ∀ a, P a → Guarded I Q (k a)) : Guarded I Q (p >>= k) := by
  induction h with
  | done ha => exact hk _ ha
  | act hkeeps _ ih => exact .act hkeeps ih

theorem guarded_weaken {P' : α → Prop} {p : Prog σ α} (h : Guarded I P p) (hP : ∀ a, P a → P' a) :
    Guarded I P' p := by
  induction h with
  | done ha => exact .done (hP _ ha)
  | act hkeeps _ ih => exact .act hkeeps ih

theorem Guarded.call {f : σ → α × σ} (h : ∀ s, I s → P (f s).1 ∧ I (f s).2) :
    Guarded I P (Prog.call f) :=
  .act (fun s hs => (h s hs).2) fun s hs => .done (h s hs).1

theorem guarded_trivial (p : Prog σ α) : Guarded (fun _ => True) (fun _ => True) p := by
  induction p with
  | done a => exact .done trivial
  | act f next ih => exact .act (fun _ _ => trivial) fun s _ => ih (f s).1

/-- A program on a component that `I` does not look at. -/
theorem Guarded.lift {τ : Type} {l : Lens σ τ} (h : ∀ t s, I s → I (l.set t s)) (p : Prog τ α) :
    Guarded I (fun _ => True) (p.lift l) := by
  induction p with
  | done a => exact .done trivial
  | act f next ih => exact .act (fun s hs => h _ s hs) fun s _ => ih (f (l.get s)).1

theorem guarded_fire {program : ρ → Prog σ α} {c c' : Config ρ σ α} {m : Move ρ}
    (hprogram : ∀ r, m = .spawn r → Guarded I P (program r)) (hfire : fire program c m = some c')
    (hstate : I c.state) (h : ∀ t ∈ c.threads, Guarded I P t.prog) :
    I c'.state ∧ ∀ t ∈ c'.threads, Guarded I P t.prog := by
  rcases fire_cases hfire with ⟨r, rfl, rfl⟩ | ⟨i, t, _, f, next, -, hget, hprog, rfl⟩
  · refine ⟨hstate, fun u hu => ?_⟩
    rcases List.mem_append.mp hu with hold | hnew
    · exact h u hold
    · rw [List.mem_singleton.mp hnew]
      exact hprogram r rfl
  · have hthread := h t (List.mem_of_getElem? hget)
    rw [hprog] at hthread
    cases hthread with
    | act hkeeps hnext =>
      refine ⟨hkeeps _ hstate, fun u hu => ?_⟩
      rcases List.mem_or_eq_of_mem_set hu with hold | rfl
      · exact h u hold
      · exact hnext _ hstate

theorem guarded_execute {program : ρ → Prog σ α} {s : σ} (hs : I s) {moves : List (Move ρ)}
    {c : Config ρ σ α} (hexec : execute program ⟨s, []⟩ moves = some c)
    (hprogram : ∀ t ∈ c.threads, Guarded I P (program t.request)) :
    I c.state ∧ ∀ t ∈ c.threads, Guarded I P t.prog := by
  induction moves using List.reverseRecOn generalizing c with
  | nil =>
    obtain rfl := Option.some.inj hexec
    exact ⟨hs, fun t ht => absurd ht List.not_mem_nil⟩
  | append_singleton moves m ih =>
    obtain ⟨d, hd, hfire⟩ := execute_concat hexec
    have hrequests := fire_requests hfire
    have hall : ∀ r ∈ d.threads.map Thread.request ++ requests m, Guarded I P (program r) := by
      rw [← hrequests]
      exact List.forall_mem_map.mpr hprogram
    obtain ⟨hold, hnew⟩ := List.forall_mem_append.mp hall
    obtain ⟨hstate, hthreads⟩ := ih hd fun t ht => hold _ (List.mem_map_of_mem ht)
    refine guarded_fire (fun r hr => hnew r ?_) hfire hstate hthreads
    rw [hr]
    exact List.mem_singleton_self r

end Guarded

/-- A program that only reads. -/
inductive Reading : Prog σ α → Prop
  | done (a : α) : Reading (.done a)
  | act {β : Type} {f : σ → β × σ} {next : β → Prog σ α} (hsame : ∀ s, (f s).2 = s)
      (hnext : ∀ b, Reading (next b)) : Reading (.act f next)

theorem Reading.bind {p : Prog σ α} {k : α → Prog σ β} (h : Reading p) (hk : ∀ a, Reading (k a)) :
    Reading (p >>= k) := by
  induction h with
  | done a => exact hk a
  | act hsame _ ih => exact .act hsame ih

/-- Without interference the first program becomes the second one, and only reads. -/
inductive Settles (s : σ) : Prog σ α → Prog σ α → Prop
  | refl (p : Prog σ α) : Settles s p p
  | step {β : Type} {f : σ → β × σ} {next : β → Prog σ α} {q : Prog σ α} (hsame : (f s).2 = s)
      (hnext : Settles s (next (f s).1) q) : Settles s (.act f next) q

theorem Settles.bind {s : σ} {p q : Prog σ α} (h : Settles s p q) (k : α → Prog σ β) :
    Settles s (p >>= k) (q >>= k) := by
  induction h with
  | refl p => exact .refl _
  | step hsame _ ih => exact .step hsame ih

/-- The last thread can be brought there. -/
theorem Settles.execute {program : ρ → Prog σ α} {s : σ} {p q : Prog σ α} (h : Settles s p q)
    (ts : List (Thread ρ σ α)) (r : ρ) (n : ℕ) :
    ∃ moves n', Interleaving.execute program ⟨s, ts ++ [⟨r, p, n⟩]⟩ moves =
      some ⟨s, ts ++ [⟨r, q, n'⟩]⟩ := by
  induction h generalizing n with
  | refl p => exact ⟨[], n, rfl⟩
  | @step γ f next q hsame _ ih =>
    obtain ⟨moves, n', hmoves⟩ := ih (n + 1)
    refine ⟨.step ts.length :: moves, n', ?_⟩
    have hfire : fire program ⟨s, ts ++ [⟨r, .act f next, n⟩]⟩ (.step ts.length) =
        some ⟨s, ts ++ [⟨r, next (f s).1, n + 1⟩]⟩ := by
      simp only [fire, List.getElem?_concat_length, hsame, List.set_append_right _ _ (Nat.le_refl _),
        Nat.sub_self, List.set_cons_zero]
    rw [Interleaving.execute, hfire]
    exact hmoves

/-! ## Translations -/

/-- The program, with its result translated. -/
def translated (k : α → β) (p : Prog σ α) : Prog σ β := p.bind fun a => .done (k a)

theorem translated_eq_bind (k : α → β) (p : Prog σ α) :
    translated k p = p >>= fun a => pure (k a) := rfl

theorem translated_act {k : α → β} {p : Prog σ α} {γ : Type} {f : σ → γ × σ}
    {next : γ → Prog σ β} (h : translated k p = .act f next) :
    ∃ next', p = .act f next' ∧ ∀ c, next c = translated k (next' c) := by
  cases p with
  | done a => cases h
  | act f' next' =>
    cases h
    exact ⟨next', rfl, fun _ => rfl⟩

theorem translated_done {k : α → β} {p : Prog σ α} {b : β} (h : translated k p = .done b) :
    ∃ a, p = .done a ∧ k a = b := by
  cases p with
  | done a => exact ⟨a, rfl, Prog.done.inj h⟩
  | act f next => cases h

/-- Some threads translate others, and those left out only read. -/
inductive Projects (g : ρ → Option ρ') (k : α → β) :
    List (Thread ρ σ β) → List (Thread ρ' σ α) → Prop
  | nil : Projects g k [] []
  | left {t : Thread ρ σ β} {ts : List (Thread ρ σ β)} {ts' : List (Thread ρ' σ α)}
      (hrequest : g t.request = none) (hprog : Reading t.prog) (hrest : Projects g k ts ts') :
      Projects g k (t :: ts) ts'
  | kept {t : Thread ρ σ β} {t' : Thread ρ' σ α} {ts : List (Thread ρ σ β)}
      {ts' : List (Thread ρ' σ α)} (hrequest : g t.request = some t'.request)
      (hprog : t.prog = translated k t'.prog) (hrest : Projects g k ts ts') :
      Projects g k (t :: ts) (t' :: ts')

section Projections

variable {g : ρ → Option ρ'} {k : α → β} {ts us : List (Thread ρ σ β)}
  {ts' us' : List (Thread ρ' σ α)} {program : ρ → Prog σ β} {program' : ρ' → Prog σ α}

theorem Projects.append (h : Projects g k ts ts') (h' : Projects g k us us') :
    Projects g k (ts ++ us) (ts' ++ us') := by
  induction h with
  | nil => exact h'
  | left hrequest hprog _ ih => exact .left hrequest hprog ih
  | kept hrequest hprog _ ih => exact .kept hrequest hprog ih

/-- A step of a thread is a step of the thread it translates, or changes nothing. -/
theorem Projects.step (h : Projects g k ts ts') {i : ℕ} {t : Thread ρ σ β} {γ : Type}
    {f : σ → γ × σ} {next : γ → Prog σ β} (hget : ts[i]? = some t) (hprog : t.prog = .act f next) :
    ((∀ s, (f s).2 = s) ∧ ∀ c n, Projects g k (ts.set i ⟨t.request, next c, n⟩) ts') ∨
    ∃ j t' next', ts'[j]? = some t' ∧ t'.prog = .act f next' ∧ ∀ c n n',
      Projects g k (ts.set i ⟨t.request, next c, n⟩) (ts'.set j ⟨t'.request, next' c, n'⟩) := by
  induction h generalizing i with
  | nil => cases hget
  | left hrequest hreads hrest ih =>
    cases i with
    | zero =>
      obtain rfl := Option.some.inj hget
      rw [hprog] at hreads
      cases hreads with
      | act hsame hnext => exact .inl ⟨hsame, fun c n => .left hrequest (hnext c) hrest⟩
    | succ i =>
      rcases ih hget with ⟨hsame, hset⟩ | ⟨j, t', next', hget', hprog', hset⟩
      · exact .inl ⟨hsame, fun c n => .left hrequest hreads (hset c n)⟩
      · exact .inr ⟨j, t', next', hget', hprog', fun c n n' => .left hrequest hreads (hset c n n')⟩
  | @kept u t' _ _ hrequest hsame hrest ih =>
    cases i with
    | zero =>
      obtain rfl := Option.some.inj hget
      obtain ⟨next', hprog', hnext⟩ := translated_act (hsame.symm.trans hprog)
      exact .inr ⟨0, t', next', rfl, hprog', fun c n n' => .kept hrequest (hnext c) hrest⟩
    | succ i =>
      rcases ih hget with ⟨hnone, hset⟩ | ⟨j, t'', next', hget', hprog', hset⟩
      · exact .inl ⟨hnone, fun c n => .kept hrequest hsame (hset c n)⟩
      · exact .inr ⟨j + 1, t'', next', hget', hprog',
          fun c n n' => .kept hrequest hsame (hset c n n')⟩

/-- What a program is, next to the one it translates: what that one becomes by reading. -/
def TranslatesFrom (k : α → β) (s : σ) (p : Prog σ β) (p' : Prog σ α) : Prop :=
  ∃ q, Settles s p' q ∧ p = translated k q

theorem fire_projects {c d : Config ρ σ β} {c' : Config ρ' σ α} {m : Move ρ}
    (hleft : ∀ r, m = .spawn r → g r = none → Reading (program r))
    (hkept : ∀ r r', m = .spawn r → g r = some r' →
      TranslatesFrom k c.state (program r) (program' r'))
    (hstate : c'.state = c.state) (hthreads : Projects g k c.threads c'.threads)
    (hfire : fire program c m = some d) :
    ∃ moves d', execute program' c' moves = some d' ∧ d'.state = d.state ∧
      Projects g k d.threads d'.threads := by
  rcases fire_cases hfire with ⟨r, rfl, rfl⟩ | ⟨i, t, _, f, next, rfl, hget, hprog, rfl⟩
  · cases hr : g r with
    | none =>
      have hmore := hthreads.append (.left (t := ⟨r, program r, 0⟩) hr (hleft r rfl hr) .nil)
      rw [List.append_nil] at hmore
      exact ⟨[], c', rfl, hstate, hmore⟩
    | some r' =>
      obtain ⟨q, hsettles, hprogram⟩ := hkept r r' rfl hr
      obtain ⟨moves, n, hmoves⟩ := @Settles.execute _ _ _ program' _ _ _ hsettles c'.threads r' 0
      refine ⟨.spawn r' :: moves, ⟨c.state, c'.threads ++ [⟨r', q, n⟩]⟩, ?_, rfl,
        hthreads.append (.kept hr hprogram .nil)⟩
      rw [execute, fire, hstate]
      exact hmoves
  · rcases hthreads.step hget hprog with ⟨hsame, hset⟩ | ⟨j, t', next', hget', hprog', hset⟩
    · exact ⟨[], c', rfl, by rw [hstate, hsame], hset _ _⟩
    · refine ⟨[.step j], ⟨(f c'.state).2, c'.threads.set j ⟨t'.request, next' (f c'.state).1,
        t'.steps + 1⟩⟩, ?_, by rw [hstate], ?_⟩
      · simp only [execute, fire, hget', hprog', Option.bind_some]
      · rw [hstate]
        exact hset _ _ _

/-- A run of translated programs, next to others that only read, is a run of the programs. -/
theorem execute_projects {I : σ → Prop} {s : σ} (hs : I s) {moves : List (Move ρ)}
    {c : Config ρ σ β} (hexec : execute program ⟨s, []⟩ moves = some c)
    (hkeeps : ∀ t ∈ c.threads, Guarded I (fun _ => True) (program t.request))
    (hleft : ∀ t ∈ c.threads, g t.request = none → Reading (program t.request))
    (hkept : ∀ t ∈ c.threads, ∀ r', g t.request = some r' → ∀ s, I s →
      TranslatesFrom k s (program t.request) (program' r')) :
    ∃ moves' c', execute program' ⟨s, []⟩ moves' = some c' ∧ c'.state = c.state ∧
      Projects g k c.threads c'.threads := by
  induction moves using List.reverseRecOn generalizing c with
  | nil =>
    obtain rfl := Option.some.inj hexec
    exact ⟨[], _, rfl, rfl, .nil⟩
  | append_singleton moves m ih =>
    obtain ⟨d, hd, hfire⟩ := execute_concat hexec
    have hall : ∀ r ∈ d.threads.map Thread.request ++ requests m,
        Guarded I (fun _ => True) (program r) ∧ (g r = none → Reading (program r)) ∧
          ∀ r', g r = some r' → ∀ s, I s → TranslatesFrom k s (program r) (program' r') := by
      rw [← fire_requests hfire]
      exact List.forall_mem_map.mpr fun t ht => ⟨hkeeps t ht, hleft t ht, hkept t ht⟩
    obtain ⟨hold, hnew⟩ := List.forall_mem_append.mp hall
    have holds : ∀ t ∈ d.threads, _ := fun t ht => hold _ (List.mem_map_of_mem ht)
    obtain ⟨before, d', hd', hstate, hthreads⟩ := ih hd (fun t ht => (holds t ht).1)
      (fun t ht => (holds t ht).2.1) (fun t ht => (holds t ht).2.2)
    have hI := (guarded_execute hs hd fun t ht => (holds t ht).1).1
    have hasked : ∀ r, m = .spawn r → r ∈ requests m := by
      rintro r rfl
      exact List.mem_singleton_self r
    obtain ⟨after, c', hc', hstate', hthreads'⟩ := fire_projects
      (fun r hr => (hnew r (hasked r hr)).2.1)
      (fun r r' hr hsome => (hnew r (hasked r hr)).2.2 r' hsome _ hI) hstate hthreads hfire
    refine ⟨before ++ after, c', ?_, hstate', hthreads'⟩
    rw [execute_append, hd']
    exact hc'

theorem Projects.mem (h : Projects g k ts ts') : ∀ t' ∈ ts', ∃ t ∈ ts,
    g t.request = some t'.request ∧ t.prog = translated k t'.prog := by
  induction h with
  | nil => exact fun t' ht' => absurd ht' List.not_mem_nil
  | left _ _ _ ih =>
    intro t' ht'
    obtain ⟨t, ht, hsame⟩ := ih t' ht'
    exact ⟨t, List.mem_cons_of_mem _ ht, hsame⟩
  | kept hrequest hprog _ ih =>
    intro t' ht'
    rcases List.mem_cons.mp ht' with rfl | hrest
    · exact ⟨_, List.mem_cons_self, hrequest, hprog⟩
    · obtain ⟨t, ht, hsame⟩ := ih t' hrest
      exact ⟨t, List.mem_cons_of_mem _ ht, hsame⟩

end Projections

/-- What an owner has asked for corresponds too. -/
theorem owned_forall₂ [DecidableEq ι] {g : ρ → ρ'} {k : α → β} {ts : List (Thread (ι × ρ) σ β)}
    {ts' : List (Thread (ι × ρ') σ α)}
    (h : Projects (fun r => some (r.1, g r.2)) k ts ts') (i : ι) :
    List.Forall₂ (fun q q' => q'.1 = g q.1 ∧ q.2 = translated k q'.2) (owned i ts) (owned i ts') := by
  induction h with
  | nil => exact .nil
  | left hrequest _ _ _ => cases hrequest
  | @kept t t' ts ts' hrequest hprog _ ih =>
    obtain ⟨⟨owner, asked⟩, prog, steps⟩ := t
    obtain ⟨⟨owner', asked'⟩, prog', steps'⟩ := t'
    obtain ⟨rfl, rfl⟩ := Prod.mk.inj (Option.some.inj hrequest)
    by_cases howner : owner = i
    · subst howner
      rw [owned_cons_self, owned_cons_self]
      exact .cons ⟨rfl, hprog⟩ ih
    · rw [owned_cons_other howner, owned_cons_other howner]
      exact ih

end Bookstore.Threads
