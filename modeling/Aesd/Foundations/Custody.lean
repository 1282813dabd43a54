import Mathlib.Data.Set.Insert
import Mathlib.Logic.Function.Basic
import Mathlib.Tactic.Common

/-! Who holds what: each key in use has exactly one holder. It stays so where one holder takes
keys that are not in use and gives up keys of its own, and where keys pass from one holder
to another. -/
namespace Aesd.Foundations
variable {α β ι : Type} {a : α} {used used₁ used' mine mine₁ mine' : Set α}

/-- A holder takes keys that nobody has, and gives up keys of its own. -/
structure Exchange (used used' mine mine' : Set α) : Prop where
  used_iff : ∀ a, a ∈ used' ↔ a ∈ mine' ∨ a ∈ used ∧ a ∉ mine
  taken : ∀ a ∈ mine', a ∈ mine ∨ a ∉ used

namespace Exchange

theorem nothing (h : mine ⊆ used) : Exchange used used mine mine := by
  refine ⟨fun a => ⟨fun ha => ?_, ?_⟩, fun a ha => .inl ha⟩
  · by_cases hm : a ∈ mine
    · exact .inl hm
    · exact .inr ⟨ha, hm⟩
  · rintro (hm | ⟨ha, _⟩)
    · exact h hm
    · exact ha

theorem take (h : mine ⊆ used) (ha : a ∉ used) : Exchange used (insert a used) mine (insert a mine) := by
  refine ⟨fun b => ?_, fun b hb => ?_⟩
  · rw [Set.mem_insert_iff, Set.mem_insert_iff, or_assoc]
    exact or_congr_right ((nothing h).used_iff b)
  · rcases hb with rfl | hb
    · exact .inr ha
    · exact .inl hb

theorem drop (h : mine ⊆ used) (ha : a ∈ mine) : Exchange used (used \ {a}) mine (mine \ {a}) := by
  refine ⟨fun b => ?_, fun b hb => .inl hb.1⟩
  have hsame := (nothing h).used_iff b
  constructor
  · rintro ⟨hb, hne⟩
    exact (hsame.mp hb).imp_left fun hm => ⟨hm, hne⟩
  · rintro (⟨hm, hne⟩ | ⟨hb, hm⟩)
    · exact ⟨h hm, hne⟩
    · refine ⟨hb, ?_⟩
      rintro rfl
      exact hm ha

theorem trans (h₁ : Exchange used used₁ mine mine₁) (h₂ : Exchange used₁ used' mine₁ mine') :
    Exchange used used' mine mine' := by
  have hkept : ∀ b, b ∈ used → b ∉ mine → b ∉ mine₁ := by
    intro b hb hm hm₁
    exact (h₁.taken b hm₁).elim hm fun hnot => hnot hb
  refine ⟨fun b => ?_, fun b hb => ?_⟩
  · rw [h₂.used_iff, h₁.used_iff]
    constructor
    · rintro (hm | ⟨hm | hb, hnot⟩)
      · exact .inl hm
      · exact absurd hm hnot
      · exact .inr hb
    · rintro (hm | hb)
      · exact .inl hm
      · exact .inr ⟨.inr hb, hkept b hb.1 hb.2⟩
  · by_contra hnot
    obtain ⟨hm, hu⟩ := not_or.mp hnot
    have hu := not_not.mp hu
    rcases h₂.taken b hb with hm₁ | hu₁
    · exact hkept b hu hm hm₁
    · exact hu₁ ((h₁.used_iff b).mpr (.inr ⟨hu, hm⟩))

end Exchange

/-- The keys in use are those that somebody holds, and nobody shares them. -/
structure Custody (used : Set α) (held : ι → Set α) : Prop where
  used_iff : ∀ a, a ∈ used ↔ ∃ i, a ∈ held i
  alone : ∀ a i j, a ∈ held i → a ∈ held j → i = j

namespace Custody
variable {held held' : ι → Set α} {i j : ι}

theorem subset (h : Custody used held) (i : ι) : held i ⊆ used := fun a ha => (h.used_iff a).mpr ⟨i, ha⟩

/-- One holder exchanges keys. -/
theorem exchange (h : Custody used held) (hothers : ∀ k, k ≠ i → held' k = held k)
    (hmine : Exchange used used' (held i) (held' i)) : Custody used' held' := by
  refine ⟨fun a => ?_, fun a k l hk hl => ?_⟩
  · rw [hmine.used_iff]
    constructor
    · rintro (ha | ⟨ha, hnot⟩)
      · exact ⟨i, ha⟩
      · obtain ⟨k, hk⟩ := (h.used_iff a).mp ha
        have hki : k ≠ i := by
          rintro rfl
          exact hnot hk
        exact ⟨k, by rwa [hothers k hki]⟩
    · rintro ⟨k, hk⟩
      by_cases hki : k = i
      · exact .inl (hki ▸ hk)
      · rw [hothers k hki] at hk
        exact .inr ⟨h.subset k hk, fun ha => hki (h.alone a k i hk ha)⟩
  · -- a key that another one holds is in use, so it has not been taken
    have hother : ∀ k, k ≠ i → a ∈ held' k → a ∈ held' i → False := by
      intro k hki hk ha
      rw [hothers k hki] at hk
      rcases hmine.taken a ha with hold | hnot
      · exact hki (h.alone a k i hk hold)
      · exact hnot (h.subset k hk)
    by_cases hki : k = i
    · by_cases hli : l = i
      · rw [hki, hli]
      · exact (hother l hli hl (hki ▸ hk)).elim
    · by_cases hli : l = i
      · exact (hother k hki hk (hli ▸ hl)).elim
      · rw [hothers k hki] at hk
        rw [hothers l hli] at hl
        exact h.alone a k l hk hl

/-- Keys pass between two holders. -/
theorem pass (h : Custody used held) (hothers : ∀ k, k ≠ i → k ≠ j → held' k = held k)
    (hsame : ∀ a, a ∈ held' i ∨ a ∈ held' j ↔ a ∈ held i ∨ a ∈ held j)
    (hapart : ∀ a ∈ held' i, a ∉ held' j) : Custody used held' := by
  have hpair : ∀ a k, a ∈ held k → k = i ∨ k = j → a ∈ held' i ∨ a ∈ held' j := by
    rintro a k ha (rfl | rfl)
    · exact (hsame a).mpr (.inl ha)
    · exact (hsame a).mpr (.inr ha)
  refine ⟨fun a => ?_, fun a k l hk hl => ?_⟩
  · rw [h.used_iff]
    constructor
    · rintro ⟨k, hk⟩
      by_cases hki : k = i ∨ k = j
      · exact (hpair a k hk hki).elim (fun ha => ⟨i, ha⟩) fun ha => ⟨j, ha⟩
      · obtain ⟨hki, hkj⟩ := not_or.mp hki
        exact ⟨k, by rwa [hothers k hki hkj]⟩
    · rintro ⟨k, hk⟩
      by_cases hki : k = i
      · exact ((hsame a).mp (.inl (hki ▸ hk))).elim (fun ha => ⟨i, ha⟩) fun ha => ⟨j, ha⟩
      · by_cases hkj : k = j
        · exact ((hsame a).mp (.inr (hkj ▸ hk))).elim (fun ha => ⟨i, ha⟩) fun ha => ⟨j, ha⟩
        · exact ⟨k, by rwa [hothers k hki hkj] at hk⟩
  · have hcases : ∀ k, a ∈ held' k → (k = i ∨ k = j) ∨ k ≠ i ∧ k ≠ j ∧ a ∈ held k := by
      intro k hk
      by_cases hki : k = i
      · exact .inl (.inl hki)
      · by_cases hkj : k = j
        · exact .inl (.inr hkj)
        · exact .inr ⟨hki, hkj, by rwa [hothers k hki hkj] at hk⟩
    -- a third holder has none of the keys that pass
    have hthird : ∀ k l, (k = i ∨ k = j) → a ∈ held' k → l ≠ i → l ≠ j → a ∈ held l → False := by
      rintro k l hkij hk hli hlj hl
      have hpassed : a ∈ held i ∨ a ∈ held j := by
        apply (hsame a).mp
        rcases hkij with rfl | rfl
        · exact .inl hk
        · exact .inr hk
      rcases hpassed with ha | ha
      · exact hli (h.alone a l i hl ha)
      · exact hlj (h.alone a l j hl ha)
    rcases hcases k hk with hkij | ⟨hki, hkj, hk'⟩
    · rcases hcases l hl with hlij | ⟨hli, hlj, hl'⟩
      · rcases hkij with rfl | rfl <;> rcases hlij with rfl | rfl
        · rfl
        · exact absurd hl (hapart a hk)
        · exact absurd hk (hapart a hl)
        · rfl
      · exact (hthird k l hkij hk hli hlj hl').elim
    · rcases hcases l hl with hlij | ⟨_, _, hl'⟩
      · exact (hthird l k hlij hl hki hkj hk').elim
      · exact h.alone a k l hk' hl'

end Custody

section Tables
variable [DecidableEq α] {f : α → Option β} {b : β}

def domain (f : α → Option β) : Set α := {a | f a ≠ none}

def entries (f : α → Option β) : Set (α × β) := {x | f x.1 = some x.2}

theorem domain_put : domain (Function.update f a (some b)) = insert a (domain f) := by
  ext x
  by_cases hx : x = a
  · subst hx
    simp [domain]
  · simp [domain, hx]

theorem domain_overwrite (h : f a ≠ none) : domain (Function.update f a (some b)) = domain f := by
  rw [domain_put]
  exact Set.insert_eq_of_mem h

theorem domain_remove : domain (Function.update f a none) = domain f \ {a} := by
  ext x
  by_cases hx : x = a
  · subst hx
    simp [domain]
  · simp [domain, hx]

theorem entries_put (h : f a = none) : entries (Function.update f a (some b)) = insert (a, b) (entries f) := by
  ext ⟨x, y⟩
  by_cases hx : x = a
  · subst hx
    simp [entries, h, eq_comm]
  · simp [entries, hx]

theorem entries_remove (h : f a = some b) : entries (Function.update f a none) = entries f \ {(a, b)} := by
  ext ⟨x, y⟩
  by_cases hx : x = a
  · subst hx
    simp [entries, h, eq_comm]
  · simp [entries, hx]

end Tables
end Aesd.Foundations
