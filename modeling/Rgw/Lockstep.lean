import Rgw.Moments
import Rgw.Replies

/-! # Programs in lockstep

Two programs that make the same calls and, on the same replies, end with related results. In
any run one can stand for the other, and nobody who shares the state can tell. -/
namespace Lockstep

open Interaction Moments Replies

variable {C : Type} {R : C → Type} {α β γ δ ε ζ σ ι : Type}

section Programs

/-- The same calls, and related results after the same replies. -/
inductive Alike (Q : α → β → Prop) : Prog C R α → Prog C R β → Prop where
  | done {a : α} {b : β} (h : Q a b) : Alike Q (.done a) (.done b)
  | cut : Alike Q .cut .cut
  | call (c : C) {k : R c → Prog C R α} {k' : R c → Prog C R β} (h : ∀ r, Alike Q (k r) (k' r)) :
      Alike Q (.call c k) (.call c k')

variable {Q : α → β → Prop} {p : Prog C R α} {q : Prog C R β}

theorem alike_refl {Q : α → α → Prop} (h : ∀ a, Q a a) (p : Prog C R α) : Alike Q p p := by
  induction p with
  | done a => exact .done (h a)
  | cut => exact .cut
  | call c k ih => exact .call c ih

theorem Alike.swap (h : Alike Q p q) : Alike (fun b a => Q a b) q p := by
  induction h with
  | done h => exact .done h
  | cut => exact .cut
  | call c _ ih => exact .call c ih

theorem Alike.mono {Q' : α → β → Prop} (h : Alike Q p q) (hi : ∀ a b, Q a b → Q' a b) :
    Alike Q' p q := by
  induction h with
  | done h => exact .done (hi _ _ h)
  | cut => exact .cut
  | call c _ ih => exact .call c ih

theorem Alike.bind {P : γ → δ → Prop} {p : Prog C R γ} {q : Prog C R δ} {f : γ → Prog C R α}
    {g : δ → Prog C R β} (h : Alike P p q) (hf : ∀ a b, P a b → Alike Q (f a) (g b)) :
    Alike Q (p >>= f) (q >>= g) := by
  induction h with
  | done h => exact hf _ _ h
  | cut => exact .cut
  | call c _ ih => exact .call c ih

/-- One of them goes on with what it has. -/
theorem Alike.map_left {Q' : γ → β → Prop} {f : α → γ} (h : Alike Q p q)
    (hf : ∀ a b, Q a b → Q' (f a) b) : Alike Q' (p >>= fun a => .done (f a)) q := by
  rw [← bind_done q]
  exact h.bind fun a b hab => .done (hf a b hab)

theorem Alike.map_right {Q' : α → γ → Prop} {f : β → γ} (h : Alike Q p q)
    (hf : ∀ a b, Q a b → Q' a (f b)) : Alike Q' p (q >>= fun b => .done (f b)) := by
  rw [← bind_done p]
  exact h.bind fun a b hab => .done (hf a b hab)

/-- What one makes of replies, the other makes of the same. -/
theorem Alike.yields {honest : Event C R → Prop} {S : β → Prop} (h : Alike Q p q)
    (hy : Yields honest S q) : Yields honest (fun a => ∃ b, Q a b ∧ S b) p := by
  induction h with
  | done h => exact ⟨_, h, hy⟩
  | cut => trivial
  | call c _ ih => exact fun r hr => ih r (hy r hr)

theorem Alike.of_done {a : α} (h : Alike Q (.done a) q) : ∃ b, q = .done b ∧ Q a b := by
  cases h with
  | done h => exact ⟨_, rfl, h⟩

end Programs

section Failing

/-- Two results: values that agree, or failures that agree. -/
inductive Results (E : ε → ζ → Prop) (Q : α → β → Prop) : Except ε α → Except ζ β → Prop where
  | ok {a : α} {b : β} (h : Q a b) : Results E Q (.ok a) (.ok b)
  | error {e : ε} {e' : ζ} (h : E e e') : Results E Q (.error e) (.error e')

variable {E : ε → ζ → Prop} {Q : α → β → Prop}

theorem results_refl {E : ε → ε → Prop} (h : ∀ e, E e e) (x : Except ε α) : Results E Eq x x := by
  cases x with
  | ok a => exact .ok rfl
  | error e => exact .error (h e)

theorem Results.mono {Q' : α → β → Prop} {x : Except ε α} {y : Except ζ β} (h : Results E Q x y)
    (hi : ∀ a b, Q a b → Q' a b) : Results E Q' x y := by
  cases h with
  | ok h => exact .ok (hi _ _ h)
  | error h => exact .error h

/-- After failures that agree both stop. -/
theorem Alike.except_bind {P : γ → δ → Prop} {x : ExceptT ε (Prog C R) γ}
    {y : ExceptT ζ (Prog C R) δ} {f : γ → ExceptT ε (Prog C R) α} {g : δ → ExceptT ζ (Prog C R) β}
    (h : Alike (Results E P) x.run y.run)
    (hf : ∀ a b, P a b → Alike (Results E Q) (f a).run (g b).run) :
    Alike (Results E Q) (x >>= f).run (y >>= g).run := by
  refine Alike.bind (f := ExceptT.bindCont f) (g := ExceptT.bindCont g) h fun r r' hr => ?_
  cases hr with
  | ok hab => exact hf _ _ hab
  | error he => exact .done (.error he)

/-- One program under two readings of its value. -/
theorem alike_views {E : ε → ε → Prop} (hE : ∀ e, E e e) (x : ExceptT ε (Prog C R) γ)
    {f : γ → ExceptT ε (Prog C R) α} {g : γ → ExceptT ε (Prog C R) β}
    (hf : ∀ a, Alike (Results E Q) (f a).run (g a).run) :
    Alike (Results E Q) (x >>= f).run (x >>= g).run :=
  (alike_refl (results_refl hE) x.run).except_bind fun a _ hab => hab ▸ hf a

end Failing

section Runs

variable {Q : α → β → Prop} {p : Prog C R α} {q : Prog C R β} {exec : Exec C R σ}

/-- Alone, they leave the same state. -/
theorem Alike.run (h : Alike Q p q) {s s' : σ} {a : α} (hr : p.run exec s = some (a, s')) :
    ∃ b, q.run exec s = some (b, s') ∧ Q a b := by
  induction h generalizing s with
  | done h =>
    cases hr
    exact ⟨_, rfl, h⟩
  | cut => cases hr
  | call c _ ih => exact ih _ hr

/-- Two systems that are in the same state, thread by thread in lockstep. -/
structure Mirrors (Q : ι → α → β → Prop) (x : Config C R α σ ι) (x' : Config C R β σ ι) : Prop where
  state : x.state = x'.state
  threads : ∀ i, Alike (Q i) (x.threads i) (x'.threads i)

variable {Q : ι → α → β → Prop} {x y : Config C R α σ ι} {x' : Config C R β σ ι}
  {e : ι × Event C R} {t : List (ι × Event C R)}

theorem Mirrors.swap (h : Mirrors Q x x') : Mirrors (fun i b a => Q i a b) x' x :=
  ⟨h.state.symm, fun i => (h.threads i).swap⟩

variable [DecidableEq ι]

theorem Mirrors.step (h : Mirrors Q x x') (hs : Step exec x e y) :
    ∃ y', Step exec x' e y' ∧ Mirrors Q y y' := by
  obtain ⟨s', p'⟩ := x'
  cases hs with
  | call s p i c k hi =>
    obtain ⟨rfl, ht⟩ := h
    have hti := ht i
    simp only [hi] at hti
    cases hp : p' i with
    | done b => simp only [hp] at hti; cases hti
    | cut => simp only [hp] at hti; cases hti
    | call c' k' =>
      simp only [hp] at hti
      cases hti with
      | call _ hk =>
        refine ⟨_, .call s p' i c _ hp, rfl, fun j => ?_⟩
        by_cases hj : j = i
        · subst j
          simpa using hk _
        · simpa [Function.update_of_ne hj] using ht j

/-- Whatever one system does, the other can do. -/
theorem Mirrors.trace (h : Mirrors Q x x') (run : Trace exec x t y) :
    ∃ y', Trace exec x' t y' ∧ Mirrors Q y y' := by
  induction run with
  | nil => exact ⟨x', .nil, h⟩
  | snoc _ hs ih =>
    obtain ⟨y', run', hy⟩ := ih
    obtain ⟨z', hs', hz⟩ := hy.step hs
    exact ⟨z', .snoc run' hs', hz⟩

end Runs

section Rounds

/-- A program that reports when its loop was cut. -/
def reported : Prog C R α → Prog C R (Option α)
  | .done a => .done (some a)
  | .cut => .done none
  | .call c k => .call c fun r => reported (k r)

@[simp] theorem reported_done (a : α) : reported (.done a : Prog C R α) = .done (some a) := rfl
@[simp] theorem reported_cut : reported (.cut : Prog C R α) = .done none := rfl

theorem reported_bind (p : Prog C R α) (f : α → Prog C R β) :
    reported (p >>= f) = reported p >>= fun o => o.elim (.done none) fun a => reported (f a) := by
  induction p with
  | done a => rfl
  | cut => rfl
  | call c k ih =>
    simp only [call_bind, reported]
    exact congrArg _ (funext ih)

theorem run_reported {exec : Exec C R σ} {p : Prog C R α} {s s' : σ} {a : α}
    (h : p.run exec s = some (a, s')) : (reported p).run exec s = some (some a, s') := by
  induction p generalizing s with
  | done b =>
    cases h
    rfl
  | cut => cases h
  | call c k ih => exact ih _ h

/-- A program that goes on from what another one reports, beside one that goes on from what is read of
that. -/
theorem alike_reading {x : ExceptT ε (Prog C R) γ} {f : γ → ExceptT ε (Prog C R) α}
    {read : Option (Except ε γ) → β} {g : β → Prog C R δ} {Q : Option (Except ε α) → δ → Prop}
    (hcut : Alike Q (.done none) (g (read none)))
    (herror : ∀ e, Alike Q (.done (some (.error e))) (g (read (some (.error e)))))
    (hok : ∀ a, Alike Q (reported (f a).run) (g (read (some (.ok a))))) :
    Alike Q (reported (x >>= f).run) ((reported x.run >>= fun o => .done (read o)) >>= g) := by
  have hbind : reported (x >>= f).run = reported x.run >>= fun o =>
      o.elim (.done none) fun r => reported (ExceptT.bindCont f r) := reported_bind _ _
  rw [hbind, bind_assoc']
  refine Alike.bind (alike_refl (Q := Eq) (fun _ => rfl) _) fun o o' heq => ?_
  subst heq
  rcases o with _ | e | a
  · exact hcut
  · exact herror e
  · exact hok a

variable [DecidableEq ι] {exec : Exec C R σ} {x y : Config C R α σ ι} {t : List (ι × Event C R)}

/-- A system whose programs report. -/
def reporting (x : Config C R α σ ι) : Config C R (Option α) σ ι :=
  ⟨x.state, fun i => reported (x.threads i)⟩

theorem trace_reported (run : Trace exec x t y) :
    Trace exec (reporting x) t (reporting y) := by
  induction run with
  | nil => exact .nil
  | snoc _ hs ih =>
    refine .snoc ih ?_
    cases hs with
    | call s p i c k hi =>
      have hcall : Step exec ⟨s, fun j => reported (p j)⟩ _ _ :=
        .call s _ i c (fun r => reported (k r)) (by rw [hi, reported])
      have hthreads : (fun j => reported (Function.update p i (k (exec c s).1) j)) =
          Function.update (fun j => reported (p j)) i (reported (k (exec c s).1)) :=
        (Function.comp_update reported p i _)
      rw [reporting, reporting, hthreads]
      exact hcall

theorem passes_reported (run : Trace exec x t y) {s : σ} (h : Passes exec (reporting x) t s) :
    Passes exec x t s := by
  obtain ⟨before, z, ⟨after, rfl⟩, hz, rfl⟩ := h
  obtain ⟨z', hz', -⟩ := trace_split run
  exact ⟨before, z', List.suffix_append _ _, hz', by
    rw [trace_unique hz (trace_reported hz'), reporting]⟩

/-- A thread that makes something of whatever replies it gets is not cut short, and returns it. -/
theorem trace_returns (run : Trace exec x t y) {i : ι} {Q : Option α → Prop} (hQ : ¬Q none)
    (h : Yields (Given exec (Passes exec x t)) Q (reported (x.threads i))) :
    y.threads i ≠ .cut ∧ ∀ a, y.threads i = .done a → Q (some a) := by
  have hhonest : Yields (Given exec (Passes exec (reporting x) t)) Q
      ((reporting x).threads i) := by
    refine yields_weaken h ?_
    rintro e ⟨s, hs, he⟩
    exact ⟨s, passes_reported run hs, he⟩
  have hend : ∀ o, (reporting y).threads i = .done o → Q o :=
    fun o ho => trace_yields (trace_reported run) hhonest ho
  constructor
  · intro hcut
    refine hQ (hend none ?_)
    simp only [reporting, hcut, reported_cut]
  · intro a ha
    refine hend (some a) ?_
    simp only [reporting, ha, reported_done]

end Rounds

end Lockstep
