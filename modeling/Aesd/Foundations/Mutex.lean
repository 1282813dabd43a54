import Mathlib.Tactic.Common

/-! Mutual exclusion by ownership: the recorded owner of a mutex is exactly the thread
that stands in its critical section. -/
namespace Aesd.Foundations
variable {ι : Type}

/-- The owner is exactly the thread inside; there is none when the mutex is free. -/
def Guards (owner : Option ι) (inside : ι → Prop) : Prop := ∀ i, owner = some i ↔ inside i

namespace Guards
variable {owner : Option ι} {inside inside' : ι → Prop} {i j : ι}

theorem exclusive (h : Guards owner inside) (hi : inside i) (hj : inside j) : i = j :=
  Option.some.inj (((h i).mpr hi).symm.trans ((h j).mpr hj))

theorem free_iff (h : Guards owner inside) : owner = none ↔ ∀ i, ¬inside i := by
  constructor
  · intro hfree i hi
    rw [(h i).mpr hi] at hfree
    exact absurd hfree (by simp)
  · intro hnone
    cases ho : owner with
    | none => rfl
    | some i => exact absurd ((h i).mp ho) (hnone i)

/-- A step that changes neither the owner nor who is inside. -/
theorem keep (h : Guards owner inside) (hkeep : ∀ i, inside' i ↔ inside i) : Guards owner inside' :=
  fun i => (h i).trans (hkeep i).symm

theorem acquire (h : Guards none inside) (hin : inside' i) (hothers : ∀ j, j ≠ i → (inside' j ↔ inside j)) :
    Guards (some i) inside' := by
  intro j
  by_cases hj : j = i
  · subst hj
    exact iff_of_true rfl hin
  · rw [hothers j hj]
    exact iff_of_false (fun he => hj (Option.some.inj he).symm) (h.free_iff.mp rfl j)

theorem release (h : Guards (some i) inside) (hout : ¬inside' i)
    (hothers : ∀ j, j ≠ i → (inside' j ↔ inside j)) : Guards none inside' := by
  intro j
  by_cases hj : j = i
  · subst hj
    exact iff_of_false (by simp) hout
  · rw [hothers j hj, ← h j]
    exact iff_of_false (by simp) fun he => hj (Option.some.inj he).symm

end Guards

/-- The thread of this number, in a list of threads, is at a point with the property. -/
def Among {α : Type} (P : α → Prop) (ts : List α) (k : Nat) : Prop := ∃ t, ts[k]? = some t ∧ P t

namespace Guards
variable {α : Type} {owner : Option Nat} {P : α → Prop} {ts : List α} {t t' : α} {k : Nat}

theorem among_iff (ht : ts[k]? = some t) : Among P ts k ↔ P t := by
  constructor
  · rintro ⟨u, hu, hP⟩
    rwa [Option.some.inj (ht.symm.trans hu)]
  · exact fun hP => ⟨t, ht, hP⟩

theorem getElem?_set_self (ht : ts[k]? = some t) : (ts.set k t')[k]? = some t' := by
  rw [List.getElem?_set_self (List.getElem?_eq_some_iff.mp ht).1]

theorem among_set_of_ne {j : Nat} (hj : j ≠ k) : Among P (ts.set k t') j ↔ Among P ts j := by
  rw [Among, List.getElem?_set_ne hj.symm]
  rfl

/-- A thread that starts outside. -/
theorem start (h : Guards owner (Among P ts)) (ht : ¬P t) : Guards owner (Among P (ts ++ [t])) := by
  refine h.keep fun k => ?_
  constructor
  · rintro ⟨u, hu, hP⟩
    rcases Nat.lt_trichotomy k ts.length with hk | rfl | hk
    · exact ⟨u, by rwa [List.getElem?_append_left hk] at hu, hP⟩
    · rw [List.getElem?_concat_length] at hu
      rw [← Option.some.inj hu] at hP
      exact absurd hP ht
    · rw [List.getElem?_eq_none (by simp; omega)] at hu
      exact absurd hu (by simp)
  · rintro ⟨u, hu, hP⟩
    exact ⟨u, List.getElem?_append_left (List.getElem?_eq_some_iff.mp hu).1 ▸ hu, hP⟩

/-- A thread that moves on without entering or leaving. -/
theorem move (h : Guards owner (Among P ts)) (ht : ts[k]? = some t) (hP : P t' ↔ P t) :
    Guards owner (Among P (ts.set k t')) := by
  refine h.keep fun j => ?_
  by_cases hj : j = k
  · subst hj
    rw [among_iff (getElem?_set_self ht), among_iff ht, hP]
  · exact among_set_of_ne hj

theorem enter (h : Guards none (Among P ts)) (ht : ts[k]? = some t) (hP : P t') :
    Guards (some k) (Among P (ts.set k t')) :=
  h.acquire ((among_iff (getElem?_set_self ht)).mpr hP) fun _ => among_set_of_ne

theorem leave (h : Guards (some k) (Among P ts)) (ht : ts[k]? = some t) (hP : ¬P t') :
    Guards none (Among P (ts.set k t')) :=
  h.release (mt (among_iff (getElem?_set_self ht)).mp hP) fun _ => among_set_of_ne

end Guards
end Aesd.Foundations
