/-
Loops that visit finitely many states.

Such a loop returns exactly if none of the states that it visits comes again; as many rounds as
there are such states are then enough, and the loop returns what the last of them stops with.

* `Loops.Recurs`, `Loops.not_recurs_of_wf` — a state comes again, and when none does;
* `Loops.run_isSome_of_finite` — enough rounds;
* `Loops.returns_iff_of_finite` — when a loop returns, and when it returns what one is looking for;
* `Loops.settles_join_iff`, `Loops.Settles.congr_of_le` — such loops as parts of others.
-/

import StarOS.Loops
import Mathlib.Data.Set.Card

set_option autoImplicit false

namespace Loops

universe u v w

variable {σ : Type u} {ρ : Type v} {round : σ → Round σ ρ} {s t t' : σ} {r : ρ} {n : ℕ}

/-- After some rounds the state is the same again. -/
def Recurs (round : σ → Round σ ρ) (t : σ) : Prop :=
  ∃ t', round t = .more t' ∧ Visits round t' t

/-- The first round of a run. -/
theorem Visits.cases_head (h : Visits round s t) :
    s = t ∨ ∃ s', round s = .more s' ∧ Visits round s' t := by
  induction h with
  | refl => exact .inl rfl
  | @more t t' _ hnext ih =>
      obtain rfl | ⟨s', hs', hvisit⟩ := ih
      · exact .inr ⟨t', hnext, .refl⟩
      · exact .inr ⟨s', hs', hvisit.more hnext⟩

/-- With a state that comes again, the next one does. -/
theorem Recurs.next (h : Recurs round t) (hmore : round t = .more t') : Recurs round t' := by
  obtain ⟨t₁, ht₁, hback⟩ := h
  rw [hmore, Round.more.injEq] at ht₁
  subst ht₁
  obtain rfl | ⟨t₂, ht₂, hvisit⟩ := hback.cases_head
  · exact ⟨_, hmore, .refl⟩
  · exact ⟨t₂, ht₂, hvisit.more hmore⟩

/-- From a state that comes again no number of rounds is enough. -/
theorem Recurs.run_eq_none (h : Recurs round t) (n : ℕ) : run round n t = none := by
  induction n generalizing t with
  | zero => rfl
  | succ n ih =>
      obtain ⟨t', hmore, -⟩ := id h
      rw [run_more hmore]
      exact ih (h.next hmore)

/-- A state does not come again if something of it goes down in each round. -/
theorem not_recurs_of_wf {α : Sort w} {r : α → α → Prop} (hwf : WellFounded r) (f : σ → α)
    (hdown : ∀ s s', round s = .more s' → r (f s') (f s)) (s : σ) : ¬ Recurs round s := by
  induction s using (InvImage.wf f hwf).induction with
  | _ s ih =>
      intro hrec
      obtain ⟨s', hmore, -⟩ := id hrec
      exact ih s' (hdown s s' hmore) (hrec.next hmore)

/-- A run that returns does so from every state that it visits. -/
theorem Returns.of_visits (h : Returns round s r) (hvisit : Visits round s t) :
    Returns round t r := by
  induction hvisit with
  | refl => exact h
  | @more t t' _ hnext ih =>
      obtain ⟨n, hn⟩ := ih
      cases n with
      | zero => exact absurd hn.symm (Option.some_ne_none r)
      | succ n => exact ⟨n, (run_more hnext).symm.trans hn⟩

/-- What a loop returns, a visited state stops with. -/
theorem Returns.exists_done (h : Returns round s r) :
    ∃ t, Visits round s t ∧ round t = .done r := by
  obtain ⟨n, hn⟩ := h
  induction n generalizing s with
  | zero => exact absurd hn.symm (Option.some_ne_none r)
  | succ n ih =>
      cases hround : round s with
      | done r' =>
          rw [run_done hround] at hn
          exact ⟨s, .refl, by rw [hround, Option.some.inj hn]⟩
      | more s' =>
          rw [run_more hround] at hn
          obtain ⟨t, hvisit, ht⟩ := ih hn
          exact ⟨t, hvisit.head hround, ht⟩

/-- If finitely many states are visited and none of them comes again, as many rounds as there are
states are enough. -/
theorem run_isSome_of_finite (hfin : {t | Visits round s t}.Finite)
    (hno : ∀ t, Visits round s t → ¬ Recurs round t) (hn : {t | Visits round s t}.ncard ≤ n) :
    (run round n s).isSome = true := by
  induction n generalizing s with
  | zero =>
      rw [Nat.le_zero, Set.ncard_eq_zero hfin] at hn
      exact absurd (show Visits round s s from .refl) (Set.eq_empty_iff_forall_notMem.1 hn s)
  | succ n ih =>
      cases hround : round s with
      | done r =>
          rw [run_done hround]
          rfl
      | more s' =>
          rw [run_more hround]
          have hsub : {t | Visits round s' t} ⊆ {t | Visits round s t} := fun t ht =>
            Visits.head hround ht
          -- The first state is not among those visited afterwards.
          have hssub : {t | Visits round s' t} ⊂ {t | Visits round s t} :=
            hsub.ssubset_of_mem_notMem (a := s) .refl fun hs => hno s .refl ⟨s', hround, hs⟩
          have hlt := Set.ncard_lt_ncard hssub hfin
          exact ih (hfin.subset hsub) (fun t ht => hno t (Visits.head hround ht)) (by omega)

/-- A loop that visits finitely many states returns such a result exactly if no visited state comes
again, and each one that it stops in stops with such a result. -/
theorem returns_iff_of_finite (hfin : {t | Visits round s t}.Finite) (P : ρ → Prop) :
    (∃ r, P r ∧ Returns round s r) ↔
      ∀ t, Visits round s t → (∀ r, round t = .done r → P r) ∧ ¬ Recurs round t := by
  constructor
  · rintro ⟨r, hP, hr⟩ t hvisit
    have ht := hr.of_visits hvisit
    refine ⟨fun r' hr' => ?_, fun hrec => ?_⟩
    · obtain ⟨n, hn⟩ := Returns.done hr'
      rwa [ht.eq hn]
    · obtain ⟨n, hn⟩ := ht
      rw [hrec.run_eq_none n] at hn
      cases hn
  · intro hall
    obtain ⟨r, hr⟩ := Option.isSome_iff_exists.1
      (run_isSome_of_finite hfin (fun t ht => (hall t ht).2) (Nat.le_refl _))
    have hreturns : Returns round s r := ⟨_, hr⟩
    obtain ⟨t, hvisit, ht⟩ := hreturns.exists_done
    exact ⟨r, (hall t hvisit).1 r ht, hreturns⟩

/-- A loop that may stop without a result settles on what it returns. -/
theorem settles_join_iff {round : σ → Round σ (Option ρ)} {a : ρ} :
    Settles (fun n => (run round n s).join) a ↔ Returns round s (some a) := by
  constructor
  · rintro ⟨N, hN⟩
    exact ⟨N, Option.join_eq_some_iff.1 (hN N (Nat.le_refl N))⟩
  · intro h
    obtain ⟨N, hN⟩ := h.settles
    exact ⟨N, fun n hn => Option.join_eq_some_iff.2 (hN n hn)⟩

/-- Computations that agree for every number that is large enough. -/
theorem Settles.congr_of_le {f g : ℕ → Option ρ} {a : ρ} {N : ℕ} (hfg : ∀ n ≥ N, f n = g n) :
    Settles f a ↔ Settles g a := by
  constructor
  · rintro ⟨M, hM⟩
    exact ⟨max N M, fun n hn => (hfg n (by omega)).symm.trans (hM n (by omega))⟩
  · rintro ⟨M, hM⟩
    exact ⟨max N M, fun n hn => (hfg n (by omega)).trans (hM n (by omega))⟩

/-- A computation without a result for any number settles on nothing. -/
theorem not_settles_none {a : ρ} : ¬ Settles (fun _ => none) a := by
  rintro ⟨N, hN⟩
  cases hN N (Nat.le_refl N)

end Loops
