import Mathlib.Data.Set.Basic
import Mathlib.Logic.Relation
import Mathlib.Tactic.Common

/-! Who waits for whom, where each thread waits for at most one other. Threads that all wait
for one another stay where they are for ever; where waiting leads down some measure there are
none, and whoever waits is kept waiting by one that does not. -/
namespace Aesd.Foundations
variable {ι : Type} {awaits : ι → Option ι} {m : ι → Nat}

/-- Each of these threads waits for one of them. -/
structure Deadlock (awaits : ι → Option ι) (S : Set ι) : Prop where
  nonempty : S.Nonempty
  closed : ∀ t ∈ S, ∃ u ∈ S, awaits t = some u

/-- The thread is the other one, or waits for it, directly or through others. -/
def KeptBy (awaits : ι → Option ι) : ι → ι → Prop := Relation.ReflTransGen fun t u => awaits t = some u

theorem not_deadlock (h : ∀ t u, awaits t = some u → m u < m t) (S : Set ι) : ¬Deadlock awaits S := by
  rintro ⟨⟨t, ht⟩, hclosed⟩
  induction hn : m t using Nat.strongRecOn generalizing t with
  | ind n ih =>
    obtain ⟨u, hu, hwaits⟩ := hclosed t ht
    exact ih (m u) (hn ▸ h t u hwaits) u hu rfl

/-- What passes from each thread to the one it waits for is true of one that does not wait. -/
theorem keptBy_end {P : ι → Prop} (h : ∀ t u, awaits t = some u → m u < m t)
    (hpass : ∀ t u, awaits t = some u → P t → P u) {t : ι} (ht : P t) :
    ∃ u, KeptBy awaits t u ∧ awaits u = none ∧ P u := by
  induction hn : m t using Nat.strongRecOn generalizing t with
  | ind n ih =>
    cases hwaits : awaits t with
    | none => exact ⟨t, .refl, hwaits, ht⟩
    | some v =>
      obtain ⟨u, hkept, hfree, hu⟩ := ih (m v) (hn ▸ h t v hwaits) (hpass t v hwaits ht) rfl
      exact ⟨u, .head hwaits hkept, hfree, hu⟩

end Aesd.Foundations
