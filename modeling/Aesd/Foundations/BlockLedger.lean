import Aesd.Foundations.BlockHeap

/-! Accounting for a heap: which allocated blocks the program still refers to, each
once, and how many it has lost the last reference to. -/
namespace Aesd.Foundations
variable {α β : Type}

/-- The references are distinct allocated addresses, and the blocks that none of
them reaches are n in number. -/
structure Ledger (h : BlockHeap α β) (refs : List α) (n : Nat) : Prop where
  nodup : refs.Nodup
  lost : ∃ leaks : Finset α, leaks.card = n ∧ (∀ a ∈ leaks, a ∉ refs) ∧
    ∀ a, a ∈ h ↔ a ∈ refs ∨ a ∈ leaks

namespace Ledger
variable {h : BlockHeap α β} {refs : List α} {n : Nat} {a : α} {b : List β}

theorem empty : Ledger (∅ : BlockHeap α β) [] 0 :=
  ⟨List.nodup_nil, ∅, rfl, by simp, fun _ => iff_of_false Finmap.notMem_empty (by simp)⟩

theorem mem (l : Ledger h refs n) (ha : a ∈ refs) : a ∈ h := by
  obtain ⟨leaks, _, _, hmem⟩ := l.lost
  exact (hmem a).mpr (.inl ha)

theorem perm {refs' : List α} (l : Ledger h refs n) (hp : refs.Perm refs') : Ledger h refs' n := by
  obtain ⟨leaks, hc, hd, hmem⟩ := l.lost
  exact ⟨hp.nodup_iff.mp l.nodup, leaks, hc, fun x hx => hp.mem_iff.not.mp (hd x hx),
    fun x => by rw [hmem, hp.mem_iff]⟩

variable [DecidableEq α]

/-- Dropping a reference to an allocated block loses that block. -/
theorem forget (l : Ledger h (a :: refs) n) : Ledger h refs (n + 1) := by
  obtain ⟨leaks, hc, hd, hmem⟩ := l.lost
  have hnd := List.nodup_cons.mp l.nodup
  have ha : a ∉ leaks := fun hx => hd a hx List.mem_cons_self
  refine ⟨hnd.2, insert a leaks, by rw [Finset.card_insert_of_notMem ha, hc], ?_, ?_⟩
  · intro x hx
    rcases Finset.mem_insert.mp hx with rfl | hx
    · exact hnd.1
    · exact fun hr => hd x hx (List.mem_cons_of_mem a hr)
  · intro x
    rw [hmem, List.mem_cons, Finset.mem_insert]
    tauto

/-- A new block comes with its reference. -/
theorem alloc (l : Ledger h refs n) (ha : a ∉ h) : Ledger (h.insert a b) (a :: refs) n := by
  obtain ⟨leaks, hc, hd, hmem⟩ := l.lost
  have hnew := (hmem a).not.mp ha
  refine ⟨List.nodup_cons.mpr ⟨fun hr => hnew (.inl hr), l.nodup⟩, leaks, hc, ?_, ?_⟩
  · intro x hx hr
    rcases List.mem_cons.mp hr with rfl | hr
    · exact hnew (.inr hx)
    · exact hd x hx hr
  · intro x
    rw [Finmap.mem_insert, hmem, List.mem_cons]
    tauto

/-- Rewriting an allocated block changes no account. -/
theorem update (l : Ledger h refs n) (ha : a ∈ h) : Ledger (h.insert a b) refs n := by
  obtain ⟨leaks, hc, hd, hmem⟩ := l.lost
  refine ⟨l.nodup, leaks, hc, hd, fun x => ?_⟩
  rw [Finmap.mem_insert, ← hmem]
  constructor
  · rintro (rfl | hx)
    · exact ha
    · exact hx
  · exact .inr

/-- A block that is freed leaves with its only reference. -/
theorem free (l : Ledger h (a :: refs) n) : Ledger (h.erase a) refs n := by
  obtain ⟨leaks, hc, hd, hmem⟩ := l.lost
  have hnd := List.nodup_cons.mp l.nodup
  refine ⟨hnd.2, leaks, hc, fun x hx hr => hd x hx (List.mem_cons_of_mem a hr), fun x => ?_⟩
  rw [Finmap.mem_erase, hmem, List.mem_cons]
  constructor
  · rintro ⟨hne, (hx | hx) | hx⟩
    · exact absurd hx hne
    · exact .inl hx
    · exact .inr hx
  · rintro (hx | hx)
    · exact ⟨fun he => hnd.1 (he ▸ hx), .inl (.inr hx)⟩
    · exact ⟨fun he => hd x hx (he ▸ List.mem_cons_self), .inr hx⟩

/-- No block is lost exactly when every allocated block has exactly one reference. -/
theorem count_eq_one_iff (l : Ledger h refs n) : (∀ a ∈ h, refs.count a = 1) ↔ n = 0 := by
  obtain ⟨leaks, hc, hd, hmem⟩ := l.lost
  constructor
  · intro hone
    rw [← hc, Finset.card_eq_zero, Finset.eq_empty_iff_forall_notMem]
    intro x hx
    have := hone x ((hmem x).mpr (.inr hx))
    exact hd x hx (List.count_pos_iff.mp (by omega))
  · intro hn a ha
    have hempty : leaks = ∅ := Finset.card_eq_zero.mp (hc.trans hn)
    apply List.count_eq_one_of_mem l.nodup
    simpa [hempty] using (hmem a).mp ha

end Ledger
end Aesd.Foundations
