import Mathlib.Algebra.Ring.Nat
import Aesd.Foundations.Machine

/-! Machines of which some steps bring a measure down: how many of them a run has, and where
it gets when there is always one more to take. -/
namespace Aesd.Foundations
namespace Machine
variable {σ ι ο κ : Type} {M : Machine σ ι ο}

/-- What each admitted step brings about is paid for by the measure, so a run brings about
no more than the measure was at its start. -/
theorem length_emits_le {I : σ → Prop} {P : σ → ι → Prop} {f : σ → ι → List κ} {m : σ → Nat}
    (hstep : ∀ s i, I s → P s i → ∃ s' o, M.step s i = some (s', o) ∧ I s' ∧ m s' + (f s i).length ≤ m s)
    {s : σ} {is : List ι} (hI : I s) (hP : M.Along P s is) :
    ∃ s' os, M.run s is = some (s', os) ∧ I s' ∧ m s' + (M.emits f s is).length ≤ m s := by
  induction is generalizing s with
  | nil => exact ⟨s, [], rfl, hI, Nat.le_refl _⟩
  | cons i is ih =>
    obtain ⟨s₁, o, hs, hI₁, hle⟩ := hstep s i hI hP.1
    obtain ⟨s', os, hrun, hI', hle'⟩ := ih hI₁ (hP.2 s₁ o hs)
    refine ⟨s', o :: os, by rw [M.run_cons_of_step hs, hrun]; rfl, hI', ?_⟩
    rw [M.emits_cons_of_step hs, List.length_append]
    omega

/-- If wherever something is left to do an admitted step brings the measure down, then after
at most as many of them nothing is left. -/
theorem run_until {I D : σ → Prop} {P : σ → ι → Prop} {m : σ → Nat}
    (hstep : ∀ s, I s → ¬D s → ∃ i s' o, P s i ∧ M.step s i = some (s', o) ∧ I s' ∧ m s' < m s)
    {s : σ} (hI : I s) :
    ∃ is s' os, is.length ≤ m s ∧ M.Along P s is ∧ M.run s is = some (s', os) ∧ I s' ∧ D s' := by
  induction hn : m s using Nat.strongRecOn generalizing s with
  | ind n ih =>
    by_cases hdone : D s
    · exact ⟨[], s, [], Nat.zero_le _, trivial, rfl, hI, hdone⟩
    · obtain ⟨i, s₁, o, hi, hs, hI₁, hlt⟩ := hstep s hI hdone
      obtain ⟨is, s', os, hlen, hall, hrun, hI', hdone'⟩ := ih (m s₁) (hn ▸ hlt) hI₁ rfl
      refine ⟨i :: is, s', o :: os, ?_, ⟨hi, fun s₂ o₂ hs₂ => ?_⟩, ?_, hI', hdone'⟩
      · rw [List.length_cons]
        omega
      · obtain ⟨rfl, _⟩ := Prod.mk.inj (Option.some.inj (hs.symm.trans hs₂))
        exact hall
      · rw [M.run_cons_of_step hs, hrun]
        rfl

/-- Where each step of a run brings about what its input names, the run brings about what its
inputs name. -/
theorem emits_of_along {f : σ → ι → List κ} {g : ι → List κ} {s s' : σ} {is : List ι} {os : List ο}
    (h : M.Along (fun s i => f s i = g i) s is) (hrun : M.run s is = some (s', os)) :
    M.emits f s is = is.flatMap g := by
  induction is generalizing s os with
  | nil => rfl
  | cons i is ih =>
    obtain ⟨s₁, o, os₁, hs, hrest, _⟩ := M.run_cons_eq_some hrun
    rw [M.emits_cons_of_step hs, h.1, ih (h.2 s₁ o hs) hrest, List.flatMap_cons]

theorem filter_emits (f : σ → ι → List κ) (p : κ → Bool) (s : σ) (is : List ι) :
    (M.emits f s is).filter p = M.emits (fun s i => (f s i).filter p) s is := by
  induction is generalizing s with
  | nil => rfl
  | cons i is ih =>
    rw [emits, emits, List.filter_append]
    cases M.step s i with
    | none => rfl
    | some r => exact congrArg _ (ih r.1)

end Machine

/-- One of the summands changes. -/
theorem sum_map_set {α : Type} {f : α → Nat} {xs : List α} {k : Nat} {x y : α} (hk : xs[k]? = some x) :
    ((xs.set k y).map f).sum + f x = (xs.map f).sum + f y := by
  induction xs generalizing k with
  | nil => exact absurd hk (by simp)
  | cons z xs ih =>
    cases k with
    | zero =>
      obtain rfl := Option.some.inj hk
      simp only [List.set_cons_zero, List.map_cons, List.sum_cons]
      omega
    | succ k =>
      have hrest := ih hk
      simp only [List.set_cons_succ, List.map_cons, List.sum_cons]
      omega

end Aesd.Foundations
