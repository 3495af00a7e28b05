/-
  Be300.Lib.Prog — programs over an interface of operations, and what they do.

  A `Prog` is a tree: it returns, fails, or performs an operation and goes on with the
  answer. `run` executes it with a handler, which may fault; `wpe` says that over a total
  handler every operation it performs is allowed in the state it is performed in, that its
  result meets a postcondition, and that it fails only as another one allows; `wp` that it
  does not fail. `wp_bind`, `wp_seq` and `wp_mono` are the rules for proving it, `wp_self`
  adds that the result is the one of the run.

  `Refines` relates a handler that may fault to a total one, operation by operation;
  `run_refines` carries it to whole programs: a program that is `wp` over the total
  handler runs on the other one without a fault, with the same result, to a related state.
-/

import Mathlib.Tactic.Common

namespace Be300.Lib

inductive Prog (Op : Type) (Resp : Op → Type) (Err : Type) (α : Type) where
  | ret (a : α)
  | fail (e : Err)
  | op (o : Op) (k : Resp o → Prog Op Resp Err α)

namespace Prog

variable {Op : Type} {Resp : Op → Type} {Err α β S T : Type}

def bind : Prog Op Resp Err α → (α → Prog Op Resp Err β) → Prog Op Resp Err β
  | ret a, f => f a
  | fail e, _ => fail e
  | op o k, f => op o fun r => (k r).bind f

instance : Monad (Prog Op Resp Err) where
  pure := ret
  bind := bind

def perform (o : Op) : Prog Op Resp Err (Resp o) := op o ret

/-- A run with a handler that may fault. -/
def run (h : (o : Op) → S → Except Err (Resp o × S)) : Prog Op Resp Err α → S → Except Err (α × S)
  | ret a, s => .ok (a, s)
  | fail e, _ => .error e
  | op o k, s =>
    match h o s with
    | .error e => .error e
    | .ok (r, s') => (k r).run h s'

/-- A total handler as one that may fault. -/
def total (step : (o : Op) → S → Resp o × S) (o : Op) (s : S) : Except Err (Resp o × S) := .ok (step o s)

/-- Over `step` the program performs only operations that are `ok`, and ends as `Q` says
    or fails as `E` says. -/
def wpe (step : (o : Op) → S → Resp o × S) (ok : Op → S → Prop) :
    Prog Op Resp Err α → (α → S → Prop) → (Err → Prop) → S → Prop
  | ret a, Q, _, s => Q a s
  | fail e, _, E, _ => E e
  | op o k, Q, E, s => ok o s ∧ (k (step o s).1).wpe step ok Q E (step o s).2

/-- It does not fail. -/
abbrev wp (step : (o : Op) → S → Resp o × S) (ok : Op → S → Prop) (p : Prog Op Resp Err α) (Q : α → S → Prop) (s : S) : Prop :=
  p.wpe step ok Q (fun _ => False) s

section Rules

variable {step : (o : Op) → S → Resp o × S} {ok : Op → S → Prop} {p : Prog Op Resp Err α} {Q R : α → S → Prop}
  {E F : Err → Prop} {s : S}

theorem wpe_mono (h : p.wpe step ok Q E s) (hQ : ∀ a s, Q a s → R a s) (hE : ∀ e, E e → F e) : p.wpe step ok R F s := by
  induction p generalizing s with
  | ret a => exact hQ a s h
  | fail e => exact hE e h
  | op o k ih => exact ⟨h.1, ih _ h.2⟩

theorem wp_mono (h : p.wpe step ok Q E s) (hQ : ∀ a s, Q a s → R a s) : p.wpe step ok R E s := wpe_mono h hQ fun _ he => he

theorem wp_pure {a : α} (h : Q a s) : wpe step ok (pure a : Prog Op Resp Err α) Q E s := h

theorem wp_perform {o : Op} {Q : Resp o → S → Prop} (ho : ok o s) (h : Q (step o s).1 (step o s).2) :
    wpe step ok (perform o : Prog Op Resp Err (Resp o)) Q E s := ⟨ho, h⟩

theorem wp_bind {f : α → Prog Op Resp Err β} {R : β → S → Prop} (h : p.wpe step ok (fun a s => (f a).wpe step ok R E s) E s) :
    (p >>= f).wpe step ok R E s := by
  induction p generalizing s with
  | ret a => exact h
  | fail e => exact h
  | op o k ih => exact ⟨h.1, ih _ h.2⟩

/-- Sequencing, with what is known between the two programs. -/
theorem wp_seq {f : α → Prog Op Resp Err β} {R : β → S → Prop} (h : p.wp step ok Q s)
    (hf : ∀ a s, Q a s → (f a).wpe step ok R E s) : (p >>= f).wpe step ok R E s :=
  wp_bind (wpe_mono h hf fun _ he => he.elim)

/-- The result is the one of the run. -/
theorem wpe_self (h : p.wpe step ok Q E s) :
    p.wpe step ok (fun a s' => Q a s' ∧ p.run (total step) s = .ok (a, s'))
      (fun e => E e ∧ p.run (total step) s = .error e) s := by
  induction p generalizing s with
  | ret a => exact ⟨h, rfl⟩
  | fail e => exact ⟨h, rfl⟩
  | op o k ih => exact ⟨h.1, ih _ h.2⟩

theorem wp_self (h : p.wp step ok Q s) : p.wp step ok (fun a s' => Q a s' ∧ p.run (total step) s = .ok (a, s')) s :=
  wpe_mono (wpe_self h) (fun _ _ h => h) fun _ h => h.1

theorem run_of_wp (h : p.wp step ok Q s) : ∃ a s', p.run (total step) s = .ok (a, s') ∧ Q a s' := by
  induction p generalizing s with
  | ret a => exact ⟨a, s, rfl, h⟩
  | fail e => exact h.elim
  | op o k ih => exact ih _ h.2

end Rules

/-! ## Runs -/

section Run

variable {h : (o : Op) → S → Except Err (Resp o × S)} {p : Prog Op Resp Err α} {s s' : S} {a : α}

theorem run_bind (p : Prog Op Resp Err α) (f : α → Prog Op Resp Err β) (s : S) :
    (p >>= f).run h s = match p.run h s with
      | .error e => .error e
      | .ok (a, s') => (f a).run h s' := by
  induction p generalizing s with
  | ret a => rfl
  | fail e => rfl
  | op o k ih =>
    show run h (op o fun r => (k r).bind f) s = _
    cases hr : h o s with
    | error e => simp only [run, hr]
    | ok r =>
      simp only [run, hr]
      exact ih r.1 r.2

theorem run_bind_ok {f : α → Prog Op Resp Err β} (hp : p.run h s = .ok (a, s')) : (p >>= f).run h s = (f a).run h s' := by
  rw [run_bind, hp]

end Run

/-! ## Refinement of a handler -/

/-- The faulting handler does what the total one does, wherever an operation is `ok`. -/
def Refines (h : (o : Op) → T → Except Err (Resp o × T)) (step : (o : Op) → S → Resp o × S) (ok : Op → S → Prop)
    (rel : T → S → Prop) : Prop :=
  ∀ o t s, rel t s → ok o s → ∃ t', h o t = .ok ((step o s).1, t') ∧ rel t' (step o s).2

/-- A program that may fail: both runs end alike, as the postconditions say. -/
theorem run_refines_error {h : (o : Op) → T → Except Err (Resp o × T)} {step : (o : Op) → S → Resp o × S}
    {ok : Op → S → Prop} {rel : T → S → Prop} (href : Refines h step ok rel) {p : Prog Op Resp Err α} {Q : α → S → Prop}
    {E : Err → Prop} {s : S} {t : T} (hp : p.wpe step ok Q E s) (hrel : rel t s) :
    (∃ a t' s', p.run h t = .ok (a, t') ∧ p.run (total step) s = .ok (a, s') ∧ rel t' s' ∧ Q a s') ∨
      ∃ e, p.run h t = .error e ∧ p.run (total step) s = .error e ∧ E e := by
  induction p generalizing s t with
  | ret a => exact .inl ⟨a, t, s, rfl, rfl, hrel, hp⟩
  | fail e => exact .inr ⟨e, rfl, rfl, hp⟩
  | op o k ih =>
    obtain ⟨t1, h1, hrel1⟩ := href o t s hrel hp.1
    have hrun : (op o k).run h t = (k (step o s).1).run h t1 := by simp only [run, h1]
    rw [hrun]
    exact ih _ hp.2 hrel1

/-- A program that does not fail does on the one handler what it does on the other. -/
theorem run_refines {h : (o : Op) → T → Except Err (Resp o × T)} {step : (o : Op) → S → Resp o × S} {ok : Op → S → Prop}
    {rel : T → S → Prop} (href : Refines h step ok rel) {p : Prog Op Resp Err α} {Q : α → S → Prop} {s : S} {t : T}
    (hp : p.wp step ok Q s) (hrel : rel t s) :
    ∃ a t' s', p.run h t = .ok (a, t') ∧ p.run (total step) s = .ok (a, s') ∧ rel t' s' ∧ Q a s' := by
  rcases run_refines_error href hp hrel with hrun | ⟨e, -, -, he⟩
  · exact hrun
  · exact he.elim

end Prog

end Be300.Lib
