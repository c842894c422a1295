/-
Loops that run for a bounded number of rounds, and the rules for them.

A round of a loop goes on with a new state or stops with a result.  A loop that is run for too few
rounds has no result; if some measure of the state falls in every round, as many rounds as it counts
are enough.  A round may also log what it does, and the log of a run is that of its rounds.

* `Loops.Round`, `Loops.run` — a round, and the bounded run;
* `Loops.run_isSome_of`, `Loops.run_isSome` — enough rounds, by a measure;
* `Loops.run_invariant` — what every round keeps holds of the result;
* `Loops.Returns` — the result that enough rounds give, with `Loops.Returns.eq`;
* `Loops.exists_returns` — a rank that falls in every round;
* `Loops.Settles` — computations of several loops that share the bound, with `Loops.Settles.bind`
  and `Loops.exists_settles_run`;
* `Loops.Visits` — the states that a run goes through;
* `Loops.logged`, `Loops.run_logged`, `Loops.run_logged_invariant`, `Loops.Visits.logged` — rounds
  that log, what a run returns beside its log, the invariant rule for them, and that the log has
  what each visited state logs.
-/

import Mathlib.Data.Nat.Notation
import Mathlib.Order.Basic
import Mathlib.Tactic.Cases

set_option autoImplicit false

namespace Loops

universe u v w

/-- How a round ends: with a new state, or with the result of the loop. -/
inductive Round (σ : Type u) (ρ : Type v)
  | more (s : σ)
  | done (r : ρ)

variable {σ : Type u} {ρ : Type v} {κ : Type w} {round : σ → Round σ ρ} {s t t' : σ} {r : ρ}
  {n m : ℕ}

/-- Running a loop for at most `n` rounds. -/
def run (round : σ → Round σ ρ) : ℕ → σ → Option ρ
  | 0, _ => none
  | n + 1, s =>
      match round s with
      | .done r => some r
      | .more s' => run round n s'

theorem run_done (h : round s = .done r) : run round (n + 1) s = some r := by
  rw [run, h]

theorem run_more (h : round s = .more t) : run round (n + 1) s = run round n t := by
  rw [run, h]

/-- If a measure falls in every round from a state of the invariant, as many rounds as it counts are
enough. -/
theorem run_isSome_of {I : σ → Prop} {μ : σ → ℕ} (hmore : ∀ s t, I s → round s = .more t → I t)
    (hμ : ∀ s t, I s → round s = .more t → μ t < μ s) (hs : I s) (h : μ s < n) :
    (run round n s).isSome = true := by
  induction n generalizing s with
  | zero => exact absurd h (Nat.not_lt_zero _)
  | succ n ih =>
      cases hround : round s with
      | done r => rw [run_done hround]; rfl
      | more t =>
          rw [run_more hround]
          have hlt := hμ s t hs hround
          exact ih (hmore s t hs hround) (by omega)

/-- If a measure falls in every round, as many rounds as it counts are enough. -/
theorem run_isSome {μ : σ → ℕ} (hμ : ∀ s t, round s = .more t → μ t < μ s) (h : μ s < n) :
    (run round n s).isSome = true :=
  run_isSome_of (I := fun _ => True) (fun _ _ _ _ => trivial) (fun s t _ => hμ s t) trivial h

/-- The invariant rule: what holds of the first state and is kept by every round holds where the
loop stops. -/
theorem run_invariant {I : σ → Prop} {P : ρ → Prop} (hmore : ∀ s t, I s → round s = .more t → I t)
    (hdone : ∀ s r, I s → round s = .done r → P r) (hs : I s) (h : run round n s = some r) :
    P r := by
  induction n generalizing s with
  | zero => exact absurd h.symm (Option.some_ne_none _)
  | succ n ih =>
      cases hround : round s with
      | done r' =>
          rw [run_done hround] at h
          cases h
          exact hdone s r hs hround
      | more t =>
          rw [run_more hround] at h
          exact ih (hmore s t hs hround) h

/-- More rounds than enough change nothing. -/
theorem run_mono (hnm : n ≤ m) (h : run round n s = some r) : run round m s = some r := by
  induction n generalizing s m with
  | zero => exact absurd h.symm (Option.some_ne_none _)
  | succ n ih =>
      obtain ⟨m, rfl⟩ : ∃ k, m = k + 1 := ⟨m - 1, by omega⟩
      cases hround : round s with
      | done r' =>
          rw [run_done hround] at h ⊢
          exact h
      | more t =>
          rw [run_more hround] at h ⊢
          exact ih (by omega) h

/-! ### Results -/

/-- Enough rounds from a state give a result. -/
def Returns (round : σ → Round σ ρ) (s : σ) (r : ρ) : Prop := ∃ n, run round n s = some r

theorem Returns.done (h : round s = .done r) : Returns round s r := ⟨1, run_done h⟩

theorem Returns.more (h : round s = .more t) (ht : Returns round t r) : Returns round s r := by
  obtain ⟨n, hn⟩ := ht
  exact ⟨n + 1, (run_more h).trans hn⟩

/-- A run that has a result has this one. -/
theorem Returns.eq {r' : ρ} (h : Returns round s r) (hrun : run round n s = some r') : r' = r := by
  obtain ⟨m, hm⟩ := h
  have hn := run_mono (Nat.le_max_left n m) hrun
  rw [run_mono (Nat.le_max_right n m) hm] at hn
  exact (Option.some.inj hn).symm

/-- If the states of an invariant have a rank that falls in every round, the loop returns. -/
theorem exists_returns {I : ℕ → σ → Prop}
    (hmore : ∀ k s t, I k s → round s = .more t → ∃ k' < k, I k' t) (hs : I m s) :
    ∃ r, Returns round s r := by
  induction m using Nat.strongRecOn generalizing s with
  | ind m ih =>
      cases hround : round s with
      | done r => exact ⟨r, .done hround⟩
      | more t =>
          obtain ⟨k, hk, ht⟩ := hmore m s t hs hround
          obtain ⟨r, hr⟩ := ih k hk ht
          exact ⟨r, hr.more hround⟩

/-- What every round keeps holds of what the loop returns. -/
theorem Returns.invariant {I : σ → Prop} {P : ρ → Prop} (h : Returns round s r)
    (hmore : ∀ s t, I s → round s = .more t → I t) (hdone : ∀ s r, I s → round s = .done r → P r)
    (hs : I s) : P r := by
  obtain ⟨n, hn⟩ := h
  exact run_invariant hmore hdone hs hn

/-! ### Several loops -/

/-- A computation that is bounded by a number of rounds gives `a` for every number that is large
enough. -/
def Settles (f : ℕ → Option ρ) (a : ρ) : Prop := ∃ N, ∀ n ≥ N, f n = some a

theorem Settles.const (a : ρ) : Settles (fun _ => some a) a := ⟨0, fun _ _ => rfl⟩

theorem Returns.settles (h : Returns round s r) : Settles (fun n => run round n s) r := by
  obtain ⟨m, hm⟩ := h
  exact ⟨m, fun n hn => run_mono hn hm⟩

/-- One computation after another. -/
theorem Settles.bind {f : ℕ → Option σ} {g : ℕ → σ → Option ρ} {a : σ} {b : ρ} (hf : Settles f a)
    (hg : Settles (fun n => g n a) b) : Settles (fun n => (f n).bind (g n)) b := by
  obtain ⟨N, hN⟩ := hf
  obtain ⟨M, hM⟩ := hg
  refine ⟨max N M, fun n hn => ?_⟩
  dsimp only
  rw [hN n (Nat.le_trans (Nat.le_max_left N M) hn), Option.bind_some]
  exact hM n (Nat.le_trans (Nat.le_max_right N M) hn)

/-- A loop whose rounds depend on the bound too: if each round settles and a rank falls in it, the
loop settles, on a result that some round may stop with. -/
theorem exists_settles_run {step : ℕ → σ → Round σ ρ} {I : ℕ → σ → Prop} {P : ρ → Prop}
    (hstep : ∀ k s, I k s → ∃ o, (∃ N, ∀ n ≥ N, step n s = o) ∧
      (∀ t, o = .more t → ∃ k' < k, I k' t) ∧ ∀ a, o = .done a → P a) (hs : I m s) :
    ∃ a, P a ∧ ∃ N, ∀ n ≥ N, ∀ k ≥ N, run (step n) k s = some a := by
  induction m using Nat.strongRecOn generalizing s with
  | ind m ih =>
      obtain ⟨o, ⟨N, hN⟩, hmore, hdone⟩ := hstep m s hs
      cases o with
      | done a =>
          refine ⟨a, hdone a rfl, N + 1, fun n hn k hk => ?_⟩
          obtain ⟨k, rfl⟩ : ∃ j, k = j + 1 := ⟨k - 1, by omega⟩
          exact run_done (hN n (by omega))
      | more t =>
          obtain ⟨j, hj, ht⟩ := hmore t rfl
          obtain ⟨a, ha, M, hM⟩ := ih j hj ht
          refine ⟨a, ha, N + M + 1, fun n hn k hk => ?_⟩
          obtain ⟨k, rfl⟩ : ∃ j, k = j + 1 := ⟨k - 1, by omega⟩
          rw [run_more (hN n (by omega))]
          exact hM n (by omega) k (by omega)

/-- A computation settles on one result. -/
theorem Settles.unique {f : ℕ → Option ρ} {a b : ρ} (ha : Settles f a) (hb : Settles f b) :
    a = b := by
  obtain ⟨N, hN⟩ := ha
  obtain ⟨M, hM⟩ := hb
  have hmax := hN (max N M) (Nat.le_max_left N M)
  rw [hM (max N M) (Nat.le_max_right N M)] at hmax
  exact (Option.some.inj hmax).symm

/-! ### Visited states -/

/-- The states that a run goes through. -/
inductive Visits (round : σ → Round σ ρ) (s : σ) : σ → Prop
  | refl : Visits round s s
  | more {t t' : σ} : Visits round s t → round t = .more t' → Visits round s t'

theorem Visits.head (h : round s = .more t) (ht : Visits round t t') : Visits round s t' := by
  induction ht with
  | refl => exact .more .refl h
  | more _ hnext ih => exact ih.more hnext

theorem Visits.trans (h : Visits round s t) (h' : Visits round t t') : Visits round s t' := by
  induction h' with
  | refl => exact h
  | more _ hnext ih => exact ih.more hnext

/-- A visited state gives the result of the run. -/
theorem Visits.returns (h : Visits round s t) (ht : Returns round t r) : Returns round s r := by
  induction h with
  | refl => exact ht
  | more _ hnext ih => exact ih (ht.more hnext)

/-! ### Rounds that log -/

/-- The rounds of a loop together with the log so far. -/
def logged (round : σ → Round σ ρ × List κ) (s : σ × List κ) : Round (σ × List κ) (ρ × List κ) :=
  match (round s.1).1 with
  | .more t => .more (t, s.2 ++ (round s.1).2)
  | .done r => .done (r, s.2 ++ (round s.1).2)

section logged

variable {round : σ → Round σ ρ × List κ} {log : List κ}

theorem logged_more (h : (round s).1 = .more t) :
    logged round (s, log) = .more (t, log ++ (round s).2) := by
  rw [logged, h]

theorem logged_done (h : (round s).1 = .done r) :
    logged round (s, log) = .done (r, log ++ (round s).2) := by
  rw [logged, h]

/-- Beside the log, a run returns what it returns without it. -/
theorem run_logged (round : σ → Round σ ρ × List κ) (n : ℕ) (s : σ) (log : List κ) :
    (run (logged round) n (s, log)).map Prod.fst = run (fun s => (round s).1) n s := by
  induction n generalizing s log with
  | zero => rfl
  | succ n ih =>
      cases hround : (round s).1 with
      | done r => rw [run_done (logged_done hround), run_done hround, Option.map_some]
      | more t => rw [run_more (logged_more hround), run_more hround, ih]

/-- The invariant rule for rounds that log: what is logged in every state of the invariant is logged
in the run. -/
theorem run_logged_invariant {I : σ → Prop} {P : ρ → Prop} {Q : κ → Prop} {out : ρ × List κ}
    (hlog : ∀ s, I s → ∀ x ∈ (round s).2, Q x) (hmore : ∀ s t, I s → (round s).1 = .more t → I t)
    (hdone : ∀ s r, I s → (round s).1 = .done r → P r) (hs : I s)
    (h : run (logged round) n (s, []) = some out) : P out.1 ∧ ∀ x ∈ out.2, Q x := by
  refine run_invariant (I := fun st => I st.1 ∧ ∀ x ∈ st.2, Q x)
    (P := fun out => P out.1 ∧ ∀ x ∈ out.2, Q x) ?_ ?_
    ⟨hs, fun x hx => absurd hx List.not_mem_nil⟩ h
  · rintro ⟨s, l⟩ ⟨t, l'⟩ ⟨hs, hl⟩ hround
    cases hr : (round s).1 with
    | done r => rw [logged_done hr] at hround; cases hround
    | more t =>
        rw [logged_more hr] at hround
        cases hround
        exact ⟨hmore s _ hs hr, fun x hx => (List.mem_append.1 hx).elim (hl x) (hlog s hs x)⟩
  · rintro ⟨s, l⟩ ⟨r, l'⟩ ⟨hs, hl⟩ hround
    cases hr : (round s).1 with
    | more t => rw [logged_more hr] at hround; cases hround
    | done r =>
        rw [logged_done hr] at hround
        cases hround
        exact ⟨hdone s _ hs hr, fun x hx => (List.mem_append.1 hx).elim (hl x) (hlog s hs x)⟩

/-- The log of a run has the log before it. -/
theorem subset_log {out : ρ × List κ} (h : run (logged round) n (s, log) = some out) :
    ∀ x ∈ log, x ∈ out.2 := by
  refine run_invariant (I := fun st => ∀ x ∈ log, x ∈ st.2)
    (P := fun out => ∀ x ∈ log, x ∈ out.2) ?_ ?_ (fun _ hx => hx) h
  · rintro ⟨s, l⟩ ⟨t, l'⟩ hl hround x hx
    cases hs : (round s).1 with
    | done r => rw [logged_done hs] at hround; cases hround
    | more t =>
        rw [logged_more hs] at hround
        cases hround
        exact List.mem_append_left _ (hl x hx)
  · rintro ⟨s, l⟩ ⟨r, l'⟩ hl hround x hx
    cases hs : (round s).1 with
    | more t => rw [logged_more hs] at hround; cases hround
    | done r =>
        rw [logged_done hs] at hround
        cases hround
        exact List.mem_append_left _ (hl x hx)

/-- The log of a run has what each visited state logs. -/
theorem Visits.logged {out : ρ × List κ} (h : Visits (fun s => (round s).1) s t)
    (hrun : run (logged round) n (s, log) = some out) : ∀ x ∈ (round t).2, x ∈ out.2 := by
  -- the run from the visited state on has a result too, and its log is a part of the whole
  have hfrom : ∃ m log', run (Loops.logged round) m (t, log') = some out := by
    induction h with
    | refl => exact ⟨n, log, hrun⟩
    | more _ hnext ih =>
        obtain ⟨m, log', hm⟩ := ih
        cases m with
        | zero => exact absurd hm.symm (Option.some_ne_none _)
        | succ m =>
            rw [run_more (logged_more hnext)] at hm
            exact ⟨m, _, hm⟩
  obtain ⟨m, log', hm⟩ := hfrom
  cases m with
  | zero => exact absurd hm.symm (Option.some_ne_none _)
  | succ m =>
      cases ht : (round t).1 with
      | done r =>
          rw [run_done (logged_done ht)] at hm
          cases hm
          exact fun x hx => List.mem_append_right _ hx
      | more t' =>
          rw [run_more (logged_more ht)] at hm
          exact fun x hx => subset_log hm x (List.mem_append_right _ hx)

end logged

end Loops
