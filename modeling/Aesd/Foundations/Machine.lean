import Mathlib.Data.List.Forall2
import Mathlib.Data.List.Induction
import Mathlib.Tactic.Common

/-! Deterministic machines whose steps may go wrong, their runs over input lists,
and the rules that carry invariants and simulations from one step to a run. -/
namespace Aesd.Foundations

/-- A step consumes an input and answers it; `none` is undefined behaviour. -/
structure Machine (σ ι ο : Type) where
  step : σ → ι → Option (σ × ο)

namespace Machine
variable {σ ι ο τ : Type} (M : Machine σ ι ο)

/-- The state reached and the answers given, in order. -/
def run : σ → List ι → Option (σ × List ο)
  | s, [] => some (s, [])
  | s, i :: is => (M.step s i).bind fun r => (run r.1 is).map fun q => (q.1, r.2 :: q.2)

/-- The condition holds of the state and the input before every step of the run. -/
def Along (P : σ → ι → Prop) : σ → List ι → Prop
  | _, [] => True
  | s, i :: is => P s i ∧ ∀ s' o, M.step s i = some (s', o) → Along P s' is

@[simp] theorem run_nil (s : σ) : M.run s [] = some (s, []) := rfl

theorem run_cons (s : σ) (i : ι) (is : List ι) :
    M.run s (i :: is) = (M.step s i).bind fun r => (M.run r.1 is).map fun q => (q.1, r.2 :: q.2) := rfl

theorem run_cons_of_step {s s' : σ} {i : ι} {o : ο} (h : M.step s i = some (s', o)) (is : List ι) :
    M.run s (i :: is) = (M.run s' is).map fun q => (q.1, o :: q.2) := by
  simp [run_cons, h]

/-- A successful run begins with a successful step. -/
theorem run_cons_eq_some {s s' : σ} {i : ι} {is : List ι} {os : List ο}
    (h : M.run s (i :: is) = some (s', os)) :
    ∃ s₁ o os₁, M.step s i = some (s₁, o) ∧ M.run s₁ is = some (s', os₁) ∧ os = o :: os₁ := by
  obtain ⟨⟨s₁, o⟩, hstep, h⟩ := Option.bind_eq_some_iff.mp h
  obtain ⟨⟨s₂, os₁⟩, hrun, he⟩ := Option.map_eq_some_iff.mp h
  obtain ⟨rfl, rfl⟩ := Prod.mk.inj he
  exact ⟨s₁, o, os₁, hstep, hrun, rfl⟩

/-- Runs compose: a run over a concatenation is the second run after the first. -/
theorem run_append (s : σ) (is js : List ι) :
    M.run s (is ++ js) =
      (M.run s is).bind fun p => (M.run p.1 js).map fun q => (q.1, p.2 ++ q.2) := by
  induction is generalizing s with
  | nil => cases h : M.run s js <;> simp [h]
  | cons i is ih =>
    rw [List.cons_append, run_cons, run_cons]
    cases h : M.step s i with
    | none => rfl
    | some r =>
      simp only [Option.bind_some, ih]
      cases hr : M.run r.1 is with
      | none => rfl
      | some p => cases hq : M.run p.1 js <;> simp [hq]

theorem run_concat {s s' : σ} {is : List ι} {os : List ο} (h : M.run s is = some (s', os)) (i : ι) :
    M.run s (is ++ [i]) = (M.step s' i).map fun r => (r.1, os ++ [r.2]) := by
  rw [run_append, h, Option.bind_some, run_cons]
  cases M.step s' i <;> simp

/-- A condition holds along a run exactly if it holds along its parts. -/
theorem along_append {P : σ → ι → Prop} {s : σ} {is js : List ι} :
    M.Along P s (is ++ js) ↔
      M.Along P s is ∧ ∀ s' os, M.run s is = some (s', os) → M.Along P s' js := by
  induction is generalizing s with
  | nil => simp [Along]
  | cons i is ih =>
    simp only [List.cons_append, Along, ih]
    constructor
    · rintro ⟨hp, hrest⟩
      refine ⟨⟨hp, fun s' o hs => (hrest s' o hs).1⟩, fun s' os hr => ?_⟩
      obtain ⟨s₁, o, os₁, hs, hr, _⟩ := M.run_cons_eq_some hr
      exact (hrest s₁ o hs).2 s' os₁ hr
    · rintro ⟨⟨hp, hfirst⟩, hlast⟩
      refine ⟨hp, fun s' o hs => ⟨hfirst s' o hs, fun s'' os hr => ?_⟩⟩
      exact hlast s'' (o :: os) (by rw [M.run_cons_of_step hs, hr]; rfl)

/-- Along a run means at every point that a beginning of it reaches. -/
theorem along_iff_forall_concat {P : σ → ι → Prop} {s : σ} {is : List ι} :
    M.Along P s is ↔ ∀ done i, done ++ [i] <+: is → ∀ s' os, M.run s done = some (s', os) → P s' i := by
  induction is using List.reverseRecOn with
  | nil => simp [Along]
  | append_singleton is j ih =>
    rw [along_append, ih]
    constructor
    · rintro ⟨hall, hlast⟩ done i hpre s' os hrun
      rcases List.prefix_concat_iff.mp hpre with heq | hpre
      · obtain ⟨rfl, hi⟩ := List.append_inj' heq rfl
        obtain rfl := List.singleton_inj.mp hi
        exact (hlast s' os hrun).1
      · exact hall done i hpre s' os hrun
    · intro hall
      refine ⟨fun done i hpre => hall done i (hpre.trans (List.prefix_append _ _)), fun s' os hrun => ?_⟩
      exact ⟨hall is j List.prefix_rfl s' os hrun, fun _ _ _ => trivial⟩

theorem along_of_forall {P : σ → ι → Prop} {is : List ι} (h : ∀ i ∈ is, ∀ s, P s i) (s : σ) :
    M.Along P s is := by
  induction is generalizing s with
  | nil => trivial
  | cons i is ih =>
    exact ⟨h i (by simp) s, fun s' _ _ => ih (fun j hj => h j (List.mem_cons_of_mem i hj)) s'⟩

theorem along_mono {P Q : σ → ι → Prop} (h : ∀ s i, P s i → Q s i) {s : σ} {is : List ι} (hP : M.Along P s is) :
    M.Along Q s is := by
  induction is generalizing s with
  | nil => trivial
  | cons i is ih => exact ⟨h s i hP.1, fun s' o hs => ih (hP.2 s' o hs)⟩

theorem forall_of_along {P : ι → Prop} {s s' : σ} {is : List ι} {os : List ο} (hP : M.Along (fun _ i => P i) s is)
    (hrun : M.run s is = some (s', os)) : ∀ i ∈ is, P i := by
  induction is generalizing s os with
  | nil => simp
  | cons i is ih =>
    obtain ⟨s₁, o, os₁, hs, hrest, _⟩ := M.run_cons_eq_some hrun
    exact List.forall_mem_cons.mpr ⟨hP.1, ih (hP.2 s₁ o hs) hrest⟩

/-- Two conditions that agree wherever an invariant holds, which either of them keeps,
hold along the same runs. -/
theorem along_congr {R : σ → Prop} {P Q : σ → ι → Prop} (hiff : ∀ s i, R s → (Q s i ↔ P s i))
    (hstep : ∀ s i s' o, R s → P s i → M.step s i = some (s', o) → R s') {s : σ} {is : List ι} (hR : R s) :
    M.Along Q s is ↔ M.Along P s is := by
  induction is generalizing s with
  | nil => exact Iff.rfl
  | cons i is ih =>
    rw [Along, Along, hiff s i hR]
    refine and_congr_right fun hp => ?_
    constructor
    · exact fun hall s' o hs => (ih (hstep s i s' o hR hp hs)).mp (hall s' o hs)
    · exact fun hall s' o hs => (ih (hstep s i s' o hR hp hs)).mpr (hall s' o hs)

/-- Forward simulation: if every admitted step is matched by the abstract one and
answered as promised, so is every run whose steps are all admitted. -/
theorem run_simulates {R : σ → τ → Prop} {P : σ → ι → Prop} {F : τ → ι → τ} {A : ι → ο → Prop}
    (hstep : ∀ s t i, R s t → P s i → ∃ s' o, M.step s i = some (s', o) ∧ R s' (F t i) ∧ A i o)
    {s : σ} {t : τ} {is : List ι} (hR : R s t) (hP : M.Along P s is) :
    ∃ s' os, M.run s is = some (s', os) ∧ R s' (is.foldl F t) ∧ List.Forall₂ A is os := by
  induction is generalizing s t with
  | nil => exact ⟨s, [], rfl, hR, .nil⟩
  | cons i is ih =>
    obtain ⟨s', o, hs, hR', ho⟩ := hstep s t i hR hP.1
    obtain ⟨s'', os, hr, hR'', hos⟩ := ih hR' (hP.2 s' o hs)
    exact ⟨s'', o :: os, by simp [run_cons, hs, hr], hR'', .cons ho hos⟩

/-- Conditions on that part of the state hold along its runs. -/
theorem along_maps {κ : Type} {N : Machine τ κ ο} {f : σ → τ} {g : ι → κ} {P : τ → κ → Prop}
    (hstep : ∀ s i s' o, M.step s i = some (s', o) → N.step (f s) (g i) = some (f s', o)) {s : σ} {is : List ι}
    (hP : N.Along P (f s) (is.map g)) : M.Along (fun s i => P (f s) (g i)) s is := by
  induction is generalizing s with
  | nil => trivial
  | cons i is ih => exact ⟨hP.1, fun s' o hs => ih (hP.2 (f s') o (hstep s i s' o hs))⟩

/-- What successful steps keep related to an abstract state, a successful run does. -/
theorem run_keeps {R : σ → τ → Prop} {F : τ → ι → τ}
    (hstep : ∀ s t i s' o, R s t → M.step s i = some (s', o) → R s' (F t i))
    {s s' : σ} {t : τ} {is : List ι} {os : List ο} (hR : R s t) (hrun : M.run s is = some (s', os)) :
    R s' (is.foldl F t) := by
  induction is generalizing s t os with
  | nil =>
    obtain ⟨rfl, _⟩ := Prod.mk.inj (Option.some.inj hrun)
    exact hR
  | cons i is ih =>
    obtain ⟨s₁, o, os₁, hs, hrest, _⟩ := M.run_cons_eq_some hrun
    exact ih (hstep s t i s₁ o hR hs) hrest

/-- A successful run ends with a successful step. -/
theorem run_concat_eq_some {s s' : σ} {is : List ι} {i : ι} {os : List ο}
    (h : M.run s (is ++ [i]) = some (s', os)) :
    ∃ s₁ os₁ o, M.run s is = some (s₁, os₁) ∧ M.step s₁ i = some (s', o) ∧ os = os₁ ++ [o] := by
  rw [run_append] at h
  obtain ⟨⟨s₁, os₁⟩, hrun, h⟩ := Option.bind_eq_some_iff.mp h
  obtain ⟨⟨s₂, os₂⟩, hlast, he⟩ := Option.map_eq_some_iff.mp h
  obtain ⟨rfl, rfl⟩ := Prod.mk.inj he
  obtain ⟨s₃, o, os₃, hstep, hnil, rfl⟩ := M.run_cons_eq_some hlast
  obtain ⟨rfl, rfl⟩ := Prod.mk.inj (Option.some.inj hnil)
  exact ⟨s₁, os₁, o, hrun, hstep, rfl⟩

/-- Invariant rule: what every admitted step keeps true of the state and the answers so
far, a run of admitted steps does. -/
theorem along_keeps {I : σ → List ο → Prop} {P : σ → ι → Prop}
    (hstep : ∀ s os i s' o, I s os → P s i → M.step s i = some (s', o) → I s' (os ++ [o]))
    {s s' : σ} {is : List ι} (os₀ : List ο) {os : List ο} (hI : I s os₀) (hP : M.Along P s is)
    (hrun : M.run s is = some (s', os)) : I s' (os₀ ++ os) := by
  induction is generalizing s os₀ os with
  | nil =>
    obtain ⟨rfl, rfl⟩ := Prod.mk.inj (Option.some.inj hrun)
    rwa [List.append_nil]
  | cons i is ih =>
    obtain ⟨s₁, o, os₁, hs, hrest, rfl⟩ := M.run_cons_eq_some hrun
    have hlater := ih (os₀ ++ [o]) (hstep s os₀ i s₁ o hI hP.1 hs) (hP.2 s₁ o hs) hrest
    rwa [List.append_assoc, List.singleton_append] at hlater

/-- What every step keeps true of the state and the answers so far is true after every run. -/
theorem run_invariant {I : σ → List ο → Prop}
    (hstep : ∀ s os i s' o, I s os → M.step s i = some (s', o) → I s' (os ++ [o]))
    {s s' : σ} {is : List ι} {os : List ο} (hI : I s []) (hrun : M.run s is = some (s', os)) : I s' os :=
  M.along_keeps (P := fun _ _ => True) (fun s os i s' o h _ => hstep s os i s' o h) [] hI
    (M.along_of_forall (fun _ _ _ => trivial) s) hrun

/-- What the steps of a run bring about, in order. -/
def emits {κ : Type} (f : σ → ι → List κ) : σ → List ι → List κ
  | _, [] => []
  | s, i :: is => f s i ++ ((M.step s i).map fun r => emits f r.1 is).getD []

theorem emits_cons_of_step {κ : Type} {f : σ → ι → List κ} {s s' : σ} {i : ι} {o : ο}
    (h : M.step s i = some (s', o)) (is : List ι) : M.emits f s (i :: is) = f s i ++ M.emits f s' is := by
  rw [emits, h]
  rfl

theorem emits_append {κ : Type} {f : σ → ι → List κ} {s s' : σ} {is js : List ι} {os : List ο}
    (h : M.run s is = some (s', os)) : M.emits f s (is ++ js) = M.emits f s is ++ M.emits f s' js := by
  induction is generalizing s os with
  | nil =>
    obtain ⟨rfl, _⟩ := Prod.mk.inj (Option.some.inj h)
    rfl
  | cons i is ih =>
    obtain ⟨s₁, o, os₁, hstep, hrun, _⟩ := M.run_cons_eq_some h
    rw [List.cons_append, M.emits_cons_of_step hstep, M.emits_cons_of_step hstep, ih hrun, List.append_assoc]

theorem emits_concat {κ : Type} {f : σ → ι → List κ} {s s' : σ} {is : List ι} {i : ι} {os : List ο}
    (h : M.run s is = some (s', os)) : M.emits f s (is ++ [i]) = M.emits f s is ++ f s' i := by
  rw [M.emits_append h, emits]
  cases M.step s' i <;> simp [emits]

/-- Invariant rule for what relates the state to the inputs so far: what every admitted step
is defined on and keeps, a run of admitted steps is defined on and keeps. -/
theorem run_history {R : List ι → σ → Prop} {P : σ → ι → Prop} {s₀ : σ}
    (hstep : ∀ done s os i, M.run s₀ done = some (s, os) → R done s → P s i →
      ∃ s' o, M.step s i = some (s', o) ∧ R (done ++ [i]) s')
    (hR : R [] s₀) {is : List ι} (hP : M.Along P s₀ is) : ∃ s os, M.run s₀ is = some (s, os) ∧ R is s := by
  induction is using List.reverseRecOn with
  | nil => exact ⟨s₀, [], rfl, hR⟩
  | append_singleton is i ih =>
    obtain ⟨hbefore, hlast⟩ := M.along_append.mp hP
    obtain ⟨s, os, hrun, hR⟩ := ih hbefore
    obtain ⟨s', o, hs, hR'⟩ := hstep is s os i hrun hR (hlast s os hrun).1
    exact ⟨s', os ++ [o], by rw [M.run_concat hrun, hs]; rfl, hR'⟩

/-- Exactness rule: if a step from a state with the invariant keeps it precisely when
it is admitted, then a run has the invariant throughout precisely when its steps are
all admitted. -/
theorem forall_prefix_iff_along {R I : σ → Prop} {P : σ → ι → Prop}
    (hstep : ∀ s i, R s → I s → ∃ s' o, M.step s i = some (s', o) ∧ R s' ∧ (I s' ↔ P s i))
    {s : σ} {is : List ι} (hR : R s) (hI : I s) :
    (∀ js, js <+: is → ∃ s' os, M.run s js = some (s', os) ∧ I s') ↔ M.Along P s is := by
  induction is generalizing s with
  | nil =>
    refine iff_of_true (fun js hjs => ?_) trivial
    rw [List.prefix_nil.mp hjs]
    exact ⟨s, [], rfl, hI⟩
  | cons i is ih =>
    obtain ⟨s₁, o, hs, hR₁, hkeep⟩ := hstep s i hR hI
    constructor
    · intro hall
      obtain ⟨s', os, hrun, hI'⟩ := hall [i] ⟨is, rfl⟩
      obtain rfl : s₁ = s' := by
        rw [M.run_cons_of_step hs, run_nil, Option.map_some] at hrun
        exact congrArg Prod.fst (Option.some.inj hrun)
      refine ⟨hkeep.mp hI', fun s'' o' hs'' => ?_⟩
      obtain ⟨rfl, rfl⟩ := Prod.mk.inj (Option.some.inj (hs.symm.trans hs''))
      refine (ih hR₁ hI').mp fun js hjs => ?_
      obtain ⟨s', os, hrun, hI'⟩ := hall (i :: js) (List.cons_prefix_cons.mpr ⟨rfl, hjs⟩)
      obtain ⟨s₂, o', os₁, hs₂, hrun, _⟩ := M.run_cons_eq_some hrun
      obtain ⟨rfl, _⟩ := Prod.mk.inj (Option.some.inj (hs.symm.trans hs₂))
      exact ⟨s', os₁, hrun, hI'⟩
    · rintro ⟨hp, hrest⟩ js hjs
      cases js with
      | nil => exact ⟨s, [], rfl, hI⟩
      | cons j js =>
        obtain ⟨rfl, htail⟩ := List.cons_prefix_cons.mp hjs
        obtain ⟨s', os, hrun, hI'⟩ := (ih hR₁ (hkeep.mpr hp)).mpr (hrest s₁ o hs) js htail
        exact ⟨s', o :: os, by rw [M.run_cons_of_step hs, hrun]; rfl, hI'⟩

end Machine
end Aesd.Foundations
