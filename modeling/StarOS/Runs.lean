/-
Labelled transition systems, their guarded executions, and the two rules every later run argument
is an instance of.

A *system* says which states a run may start in and which labelled steps it may take.  A run is
recorded with its trace, so that two systems can be compared step by step.  A *guard* is a
condition on the state before a step and on the label of the step; `Reach G` collects the states
reached by runs all of whose steps satisfy `G`, and the guard that always holds gives every run.

* `Runs.System`, `Runs.System.Exec`, `Runs.System.Reach` — systems, executions with their trace,
  and reachable states;
* `Runs.System.Reach.invariant` — a property that holds initially and is preserved by every guarded
  step holds in every reachable state;
* `Runs.System.Exec.simulates` — a simulation carries executions with their trace from one system
  to another, and `Runs.System.Exec.simulates_events` does so with steps that nothing matches;
* `Runs.replay` — running a given trace of a deterministic system, with `Runs.System.Exec.replay`
  and `Runs.System.Reach.replay`;
* `Runs.Along`, `Runs.along_iff`, `Runs.along_of` — a condition on every step of the run of a
  deterministic system, and the rules for two conditions that amount to the same, or of which one
  implies the other, while an invariant holds.
-/

import Mathlib.Tactic.Basic

set_option autoImplicit false

namespace Runs

universe u v w

/-- A labelled transition system. -/
structure System (σ : Type u) (ℓ : Type v) where
  /-- The states a run may start in. -/
  init : σ → Prop
  /-- The labelled steps. -/
  step : σ → ℓ → σ → Prop

variable {σ : Type u} {ℓ : Type v}

/-- The guard that every step satisfies. -/
def anyStep (_ : σ) (_ : ℓ) : Prop := True

/-- `M.Exec G tr s`: a run of `M` with trace `tr`, all of whose steps satisfy the guard `G` in the
state before the step, ends in `s`. -/
inductive System.Exec (M : System σ ℓ) (G : σ → ℓ → Prop) : List ℓ → σ → Prop
  | init {s : σ} : M.init s → M.Exec G [] s
  | step {tr : List ℓ} {s s' : σ} {a : ℓ} :
      M.Exec G tr s → G s a → M.step s a s' → M.Exec G (tr ++ [a]) s'

/-- The states reached by guarded runs. -/
def System.Reach (M : System σ ℓ) (G : σ → ℓ → Prop) (s : σ) : Prop := ∃ tr, M.Exec G tr s

theorem System.Reach.init {M : System σ ℓ} {G : σ → ℓ → Prop} {s : σ} (h : M.init s) :
    M.Reach G s := ⟨[], .init h⟩

theorem System.Reach.step {M : System σ ℓ} {G : σ → ℓ → Prop} {s s' : σ} {a : ℓ}
    (h : M.Reach G s) (hg : G s a) (hs : M.step s a s') : M.Reach G s' := by
  obtain ⟨tr, htr⟩ := h
  exact ⟨tr ++ [a], htr.step hg hs⟩

/-- The invariant rule along a trace. -/
theorem System.Exec.invariant {M : System σ ℓ} {G : σ → ℓ → Prop} {P : σ → Prop}
    (hinit : ∀ s, M.init s → P s)
    (hstep : ∀ s a s', P s → G s a → M.step s a s' → P s') {tr : List ℓ} {s : σ}
    (h : M.Exec G tr s) : P s := by
  induction h with
  | init h => exact hinit _ h
  | step _ hg hs ih => exact hstep _ _ _ ih hg hs

/-- The invariant rule: what holds initially and is preserved by every guarded step holds in every
reachable state. -/
theorem System.Reach.invariant {M : System σ ℓ} {G : σ → ℓ → Prop} {P : σ → Prop}
    (hinit : ∀ s, M.init s → P s)
    (hstep : ∀ s a s', P s → G s a → M.step s a s' → P s') {s : σ}
    (h : M.Reach G s) : P s := by
  obtain ⟨tr, htr⟩ := h
  exact htr.invariant hinit hstep

/-- The simulation rule: if every start of `M` is matched by a start of `N`, and every guarded step
of `M` from related states by a step of `N` with the same label, then every guarded execution of
`M` is matched by an execution of `N` with the same trace. -/
theorem System.Exec.simulates {τ : Type w} {M : System σ ℓ} {N : System τ ℓ}
    {G : σ → ℓ → Prop} {R : σ → τ → Prop}
    (hinit : ∀ s, M.init s → ∃ t, N.init t ∧ R s t)
    (hstep : ∀ s a s' t, R s t → G s a → M.step s a s' → ∃ t', N.step t a t' ∧ R s' t')
    {tr : List ℓ} {s : σ} (h : M.Exec G tr s) : ∃ t, N.Exec anyStep tr t ∧ R s t := by
  induction h with
  | init h =>
      obtain ⟨t, ht, hr⟩ := hinit _ h
      exact ⟨t, .init ht, hr⟩
  | step _ hg hs ih =>
      obtain ⟨t, ht, hr⟩ := ih
      obtain ⟨t', ht', hr'⟩ := hstep _ _ _ t hr hg hs
      exact ⟨t', ht.step trivial ht', hr'⟩

/-- The simulation rule with silent steps: `f` says which step of `N` a step of `M` is matched
by, if any, and the steps without one keep the relation. -/
theorem System.Exec.simulates_events {τ : Type w} {ℓ' : Type v} {M : System σ ℓ} {N : System τ ℓ'}
    {G : σ → ℓ → Prop} {f : ℓ → Option ℓ'} {R : σ → τ → Prop}
    (hinit : ∀ s, M.init s → ∃ t, N.init t ∧ R s t)
    (hsilent : ∀ s a s' t, R s t → G s a → M.step s a s' → f a = none → R s' t)
    (hstep : ∀ s a s' t b, R s t → G s a → M.step s a s' → f a = some b →
      ∃ t', N.step t b t' ∧ R s' t')
    {tr : List ℓ} {s : σ} (h : M.Exec G tr s) :
    ∃ t, N.Exec anyStep (tr.filterMap f) t ∧ R s t := by
  induction h with
  | init h =>
      obtain ⟨t, ht, hr⟩ := hinit _ h
      exact ⟨t, .init ht, hr⟩
  | @step tr s s' a _ hg hs ih =>
      obtain ⟨t, ht, hr⟩ := ih
      cases hf : f a with
      | none =>
          refine ⟨t, ?_, hsilent _ _ _ t hr hg hs hf⟩
          simpa [List.filterMap_append, hf] using ht
      | some b =>
          obtain ⟨t', ht', hr'⟩ := hstep _ _ _ t b hr hg hs hf
          refine ⟨t', ?_, hr'⟩
          simpa [List.filterMap_append, hf] using ht.step trivial ht'

/-! ### Replaying a trace -/

/-- Replaying a trace with a partial step function, checking a guard before every step. -/
def replay (next : σ → ℓ → Option σ) (G : σ → ℓ → Bool) (s : σ) : List ℓ → Option σ
  | [] => some s
  | a :: tr => if G s a then (next s a).bind fun s' => replay next G s' tr else none

/-- A replayed trace extends a run. -/
theorem System.Exec.replay {M : System σ ℓ} {next : σ → ℓ → Option σ} {G : σ → ℓ → Bool}
    (hM : ∀ s a s', next s a = some s' → M.step s a s') {tr tr' : List ℓ} {s s' : σ}
    (h : M.Exec (fun s a => G s a = true) tr s) (hrun : Runs.replay next G s tr' = some s') :
    M.Exec (fun s a => G s a = true) (tr ++ tr') s' := by
  induction tr' generalizing tr s with
  | nil =>
      cases hrun
      rwa [List.append_nil]
  | cons a tr' ih =>
      rw [Runs.replay] at hrun
      split at hrun
      · rename_i hg
        obtain ⟨m, hm, hrest⟩ := Option.bind_eq_some_iff.1 hrun
        rw [List.append_cons]
        exact ih (h.step hg (hM _ _ _ hm)) hrest
      · exact absurd hrun (by simp)

/-- A replayed trace leads from a reachable state to a reachable state. -/
theorem System.Reach.replay {M : System σ ℓ} {next : σ → ℓ → Option σ} {G : σ → ℓ → Bool}
    (hM : ∀ s a s', next s a = some s' → M.step s a s') {tr : List ℓ} {s s' : σ}
    (h : M.Reach (fun s a => G s a = true) s) (hrun : Runs.replay next G s tr = some s') :
    M.Reach (fun s a => G s a = true) s' := by
  induction tr generalizing s with
  | nil => cases hrun; exact h
  | cons a tr ih =>
      rw [Runs.replay] at hrun
      split at hrun
      · rename_i hg
        obtain ⟨m, hm, hrest⟩ := Option.bind_eq_some_iff.1 hrun
        exact ih (h.step hg (hM _ _ _ hm)) hrest
      · exact absurd hrun (by simp)

/-! ### Conditions along a run -/

section Along

variable {next : σ → ℓ → σ}

/-- `P` holds at every step of the run that `next` makes from `s` with the given labels: of the
state before the step and its label. -/
def Along (next : σ → ℓ → σ) (P : σ → ℓ → Prop) : σ → List ℓ → Prop
  | _, [] => True
  | s, a :: tr => P s a ∧ Along next P (next s a) tr

/-- The condition that always holds. -/
theorem along_true (next : σ → ℓ → σ) (s : σ) (tr : List ℓ) :
    Along next (fun _ _ => True) s tr := by
  induction tr generalizing s with
  | nil => trivial
  | cons a tr ih => exact ⟨trivial, ih (next s a)⟩

/-- Two conditions at every step. -/
theorem along_and {P Q : σ → ℓ → Prop} {s : σ} {tr : List ℓ} :
    Along next (fun s a => P s a ∧ Q s a) s tr ↔ Along next P s tr ∧ Along next Q s tr := by
  induction tr generalizing s with
  | nil => exact ⟨fun _ => ⟨trivial, trivial⟩, fun _ => trivial⟩
  | cons a tr ih => exact (and_congr_right fun _ => ih).trans and_and_and_comm

/-- The last step of a run. -/
theorem along_concat {P : σ → ℓ → Prop} {s : σ} {tr : List ℓ} {a : ℓ} :
    Along next P s (tr ++ [a]) ↔ Along next P s tr ∧ P (tr.foldl next s) a := by
  induction tr generalizing s with
  | nil => exact and_comm
  | cons b tr ih => exact (and_congr_right fun _ => ih).trans and_assoc.symm

/-- Under an invariant that is kept as long as `C` holds, `P` holds along a run exactly if `C`
does. -/
theorem along_iff {I : σ → Prop} {A P C : σ → ℓ → Prop}
    (hstep : ∀ s a, I s → A s a → (P s a ↔ C s a))
    (hnext : ∀ s a, I s → A s a → C s a → I (next s a)) {tr : List ℓ} {s : σ} (hI : I s)
    (hA : Along next A s tr) : Along next P s tr ↔ Along next C s tr := by
  induction tr generalizing s with
  | nil => exact Iff.rfl
  | cons a tr ih =>
      have hhead : P s a ↔ C s a := hstep s a hI hA.1
      constructor
      · rintro ⟨hP, hrest⟩
        exact ⟨hhead.1 hP, (ih (hnext s a hI hA.1 (hhead.1 hP)) hA.2).1 hrest⟩
      · rintro ⟨hC, hrest⟩
        exact ⟨hhead.2 hC, (ih (hnext s a hI hA.1 hC) hA.2).2 hrest⟩

/-- If a step that meets `C` has the property `P` and keeps the invariant, `P` holds along every run
along which `C` does. -/
theorem along_of {I : σ → Prop} {P C : σ → ℓ → Prop}
    (hstep : ∀ s a, I s → C s a → I (next s a) ∧ P s a) {tr : List ℓ} {s : σ} (hI : I s)
    (hC : Along next C s tr) : Along next P s tr := by
  induction tr generalizing s with
  | nil => trivial
  | cons a tr ih =>
      obtain ⟨hnext, hP⟩ := hstep s a hI hC.1
      exact ⟨hP, ih hnext hC.2⟩

end Along

/-- The runs of a system that go on from a state. -/
def System.after (M : System σ ℓ) (s : σ) : System σ ℓ where
  init := fun s' => s' = s
  step := M.step

/-- What is reached under a guard is reached without it. -/
theorem System.Reach.free {M : System σ ℓ} {G : σ → ℓ → Prop} {s : σ} (h : M.Reach G s) :
    M.Reach anyStep s :=
  h.invariant (fun _ hi => .init hi) fun _ _ _ hr _ hs => hr.step trivial hs

/-- A run under a guard is a run without it. -/
theorem System.Exec.free {M : System σ ℓ} {G : σ → ℓ → Prop} {tr : List ℓ} {s : σ}
    (h : M.Exec G tr s) : M.Exec anyStep tr s := by
  induction h with
  | init hi => exact .init hi
  | step _ _ hs ih => exact ih.step trivial hs

end Runs
