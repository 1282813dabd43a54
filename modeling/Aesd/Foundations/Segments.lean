import Mathlib.Algebra.GroupWithZero.Nat
import Mathlib.Data.List.Basic
import Mathlib.Tactic.Common

/-! Positions in the concatenation of a list of segments: which segment holds a
position, and how much of that segment is left from there. -/
namespace Aesd.Foundations
variable {α : Type}

/-- The segment that holds a position of the concatenation, and the offset within it. -/
def locate : List Nat → Nat → Option (Nat × Nat)
  | [], _ => none
  | n :: ns, p => if p < n then some (0, p) else (locate ns (p - n)).map fun q => (q.1 + 1, q.2)

/-- A position is at offset o of segment k when the segments before k and o add up to it. -/
theorem locate_eq_some_iff {ns : List Nat} {p k o : Nat} :
    locate ns p = some (k, o) ↔ ∃ n, ns[k]? = some n ∧ o < n ∧ p = (ns.take k).sum + o := by
  induction ns generalizing p k with
  | nil => simp [locate]
  | cons m ns ih =>
    rw [locate]
    split
    · rename_i hp
      cases k with
      | zero => simp; omega
      | succ k =>
        simp only [Option.some.injEq, Prod.mk.injEq, List.take_succ_cons, List.sum_cons]
        constructor
        · rintro ⟨hk, _⟩
          exact absurd hk (Nat.succ_ne_zero k).symm
        · rintro ⟨n, _, _, hsum⟩
          omega
    · rename_i hp
      cases k with
      | zero => simp; omega
      | succ k =>
        have hcons : (locate ns (p - m)).map (fun q => (q.1 + 1, q.2)) = some (k + 1, o) ↔
            locate ns (p - m) = some (k, o) := by
          constructor
          · intro h
            obtain ⟨⟨k', o'⟩, hk', he⟩ := Option.map_eq_some_iff.mp h
            obtain ⟨rfl, rfl⟩ : k' = k ∧ o' = o := by simpa using he
            exact hk'
          · intro h
            rw [h, Option.map_some]
        rw [hcons, ih, List.getElem?_cons_succ, List.take_succ_cons, List.sum_cons]
        constructor
        · rintro ⟨n, hn, ho, hsum⟩
          exact ⟨n, hn, ho, by omega⟩
        · rintro ⟨n, hn, ho, hsum⟩
          exact ⟨n, hn, ho, by omega⟩

theorem locate_eq_none_iff_sum {ns : List Nat} {p : Nat} : locate ns p = none ↔ ns.sum ≤ p := by
  induction ns generalizing p with
  | nil => simp [locate]
  | cons m ns ih =>
    rw [locate, List.sum_cons]
    split
    · simp only [reduceCtorEq, false_iff]
      omega
    · rw [Option.map_eq_none_iff, ih]
      omega

/-- How much is left, from a position on, of the segment that holds it. -/
def leftAt : List (List α) → Nat → Nat
  | [], _ => 0
  | s :: ss, p => if p < s.length then s.length - p else leftAt ss (p - s.length)

theorem leftAt_eq_zero_iff (ss : List (List α)) (p : Nat) : leftAt ss p = 0 ↔ ss.flatten.length ≤ p := by
  induction ss generalizing p with
  | nil => simp [leftAt]
  | cons s ss ih =>
    rw [leftAt, List.flatten_cons, List.length_append]
    split
    · omega
    · rw [ih]
      omega

theorem add_leftAt_le (ss : List (List α)) (p : Nat) (h : p ≤ ss.flatten.length) :
    p + leftAt ss p ≤ ss.flatten.length := by
  induction ss generalizing p with
  | nil => simpa [leftAt] using h
  | cons s ss ih =>
    rw [List.flatten_cons, List.length_append] at h ⊢
    rw [leftAt]
    split
    · omega
    · have := ih (p - s.length) (by omega)
      omega

theorem leftAt_append (xs ys : List (List α)) (p : Nat) :
    leftAt (xs ++ ys) (xs.flatten.length + p) = leftAt ys p := by
  induction xs with
  | nil => simp
  | cons x xs ih =>
    rw [List.cons_append, leftAt, List.flatten_cons, List.length_append, if_neg (by omega)]
    rw [show x.length + xs.flatten.length + p - x.length = xs.flatten.length + p by omega, ih]

theorem locate_eq_none_iff (ss : List (List α)) (p : Nat) :
    locate (ss.map List.length) p = none ↔ ss.flatten.length ≤ p := by
  rw [locate_eq_none_iff_sum, List.length_flatten]

/-- The located segment holds the position: the older segments end where it
starts, the offset is inside it, and reading on from the offset, for no longer
than the segment lasts, is reading on in the concatenation. -/
theorem locate_eq_some {ss : List (List α)} {p k o : Nat} (h : locate (ss.map List.length) p = some (k, o)) :
    ∃ s, ss[k]? = some s ∧ o < s.length ∧ p = (ss.take k).flatten.length + o ∧
      leftAt ss p = s.length - o ∧
      ∀ n ≤ s.length - o, (s.drop o).take n = (ss.flatten.drop p).take n := by
  induction ss generalizing p k with
  | nil => simp [locate] at h
  | cons s ss ih =>
    rw [List.map_cons, locate] at h
    split at h
    · rename_i hp
      obtain ⟨rfl, rfl⟩ : 0 = k ∧ p = o := by simpa using h
      refine ⟨s, rfl, hp, by simp, by simp [leftAt, hp], fun n hn => ?_⟩
      rw [List.flatten_cons, List.drop_append_of_le_length (Nat.le_of_lt hp), List.take_append_of_le_length]
      rwa [List.length_drop]
    · rename_i hp
      obtain ⟨⟨k', o'⟩, hk', he⟩ := Option.map_eq_some_iff.mp h
      obtain ⟨rfl, rfl⟩ : k' + 1 = k ∧ o' = o := by simpa using he
      obtain ⟨t, ht, ho, hpos, hleft, hread⟩ := ih hk'
      refine ⟨t, by simpa using ht, ho, ?_, by simp [leftAt, hp, hleft], fun n hn => ?_⟩
      · rw [List.take_succ_cons, List.flatten_cons, List.length_append]
        omega
      · have hs : s.drop p = [] := List.drop_eq_nil_of_le (Nat.le_of_not_lt hp)
        rw [hread n hn, List.flatten_cons, List.drop_append, hs, List.nil_append]

theorem length_take_drop_leftAt (ss : List (List α)) (p n : Nat) :
    ((ss.flatten.drop p).take (min n (leftAt ss p))).length = min n (leftAt ss p) := by
  rw [List.length_take, List.length_drop]
  by_cases h : p ≤ ss.flatten.length
  · have := add_leftAt_le ss p h
    omega
  · have := (leftAt_eq_zero_iff ss p).mpr (by omega)
    omega

end Aesd.Foundations
