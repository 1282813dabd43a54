import Mathlib.Algebra.GroupWithZero.Nat
import Mathlib.Data.List.DropRight
import Mathlib.Tactic.Common

/-! The live window of a ring of fixed capacity, read from its oldest slot, and
the last-n view of a sequence that a bounded queue keeps. -/
namespace Aesd.Foundations
variable {α : Type}

section LastN

theorem rtake_of_length_le {l : List α} {n : Nat} (h : l.length ≤ n) : l.rtake n = l := by
  rw [List.rtake, Nat.sub_eq_zero_of_le h, List.drop_zero]

@[simp] theorem length_rtake (l : List α) (n : Nat) : (l.rtake n).length = min n l.length := by
  rw [List.rtake, List.length_drop]
  omega

@[simp] theorem length_rdrop (l : List α) (n : Nat) : (l.rdrop n).length = l.length - n := by
  rw [List.rdrop, List.length_take]
  omega

theorem rtake_suffix (l : List α) (n : Nat) : l.rtake n <:+ l := List.drop_suffix _ l

@[simp] theorem rdrop_append_rtake (l : List α) (n : Nat) : l.rdrop n ++ l.rtake n = l :=
  List.take_append_drop _ l

theorem rtake_rtake_of_le (l : List α) {m n : Nat} (h : n ≤ m) : (l.rtake m).rtake n = l.rtake n := by
  simp only [List.rtake, List.length_drop, List.drop_drop]
  congr 1
  omega

/-- Keeping the last n as elements arrive keeps the last n of the whole arrival. -/
theorem rtake_rtake_append (l : List α) (n : Nat) (a : α) :
    (l.rtake n ++ [a]).rtake n = (l ++ [a]).rtake n := by
  cases n with
  | zero => simp
  | succ n =>
    rw [List.rtake_concat_succ, List.rtake_concat_succ, rtake_rtake_of_le l (Nat.le_succ n)]

/-- A full window drops its oldest element when a new one arrives. -/
theorem rtake_append_of_length_eq {l : List α} {n : Nat} (hn : 0 < n) (h : l.length = n) (a : α) :
    (l ++ [a]).rtake n = l.tail ++ [a] := by
  obtain ⟨m, rfl⟩ := Nat.exists_eq_succ_of_ne_zero hn.ne'
  rw [List.rtake_concat_succ, List.rtake, h, ← List.drop_one]
  congr 2
  omega

/-- What arrives is what was dropped before, what is dropped now and what is kept. -/
theorem rdrop_append_rdrop_rtake (l : List α) (n : Nat) (a : α) :
    l.rdrop n ++ (l.rtake n ++ [a]).rdrop n = (l ++ [a]).rdrop n := by
  have h : l.rdrop n ++ ((l.rtake n ++ [a]).rdrop n ++ (l.rtake n ++ [a]).rtake n) =
      (l ++ [a]).rdrop n ++ (l ++ [a]).rtake n := by
    rw [rdrop_append_rtake, rdrop_append_rtake, ← List.append_assoc, rdrop_append_rtake]
  rw [rtake_rtake_append, ← List.append_assoc] at h
  exact List.append_cancel_right h

end LastN

section Window
variable {cap : Nat}

theorem get_set (v : Vector α cap) (j : Nat) (hj : j < cap) (a : α) (i : Fin cap) :
    (v.set j a hj).get i = if j = i.val then a else v.get i := by
  change (v.set j a hj)[i.val] = _
  rw [Vector.getElem_set hj i.isLt]
  rfl

/-- Slots within one revolution are distinct. -/
theorem add_mod_ne {out i j : Nat} (hij : i < j) (hj : j < i + cap) : (out + i) % cap ≠ (out + j) % cap := by
  intro he
  have hd : cap ∣ (out + j) - (out + i) :=
    Nat.dvd_of_mod_eq_zero (Nat.sub_mod_eq_zero_of_mod_eq he.symm)
  have := Nat.le_of_dvd (by omega) hd
  omega

variable [NeZero cap]

/-- The count slots of the ring from slot out on, wrapping past its last slot. -/
def ringWindow (v : Vector α cap) (out count : Nat) : List α :=
  (List.range count).map fun i => v.get (Fin.ofNat cap (out + i))

@[simp] theorem length_ringWindow (v : Vector α cap) (out count : Nat) :
    (ringWindow v out count).length = count := by simp [ringWindow]

theorem getElem_ringWindow (v : Vector α cap) (out count i : Nat) (h : i < (ringWindow v out count).length) :
    (ringWindow v out count)[i] = v.get (Fin.ofNat cap (out + i)) := by simp [ringWindow]

theorem ringWindow_succ (v : Vector α cap) (out count : Nat) :
    ringWindow v out (count + 1) = ringWindow v out count ++ [v.get (Fin.ofNat cap (out + count))] := by
  simp [ringWindow, List.range_succ]

theorem ringWindow_succ_left (v : Vector α cap) (out count : Nat) :
    ringWindow v out (count + 1) = v.get (Fin.ofNat cap out) :: ringWindow v (out + 1) count := by
  simp only [ringWindow, List.range_succ_eq_map, List.map_cons, List.map_map, Nat.add_zero]
  congr 1
  apply List.map_congr_left
  intro i _
  simp only [Function.comp_apply, Nat.succ_eq_add_one, Nat.add_comm i 1, Nat.add_assoc]

theorem ringWindow_mod (v : Vector α cap) (out count : Nat) :
    ringWindow v (out % cap) count = ringWindow v out count := by
  apply List.map_congr_left
  intro i _
  congr 1
  apply Fin.ext
  simp [Fin.ofNat]

theorem ringWindow_set_of_ge (v : Vector α cap) (out count : Nat) (a : α) (i : Nat)
    (hlo : count ≤ i) (hhi : i < cap) (hj : (out + i) % cap < cap) :
    ringWindow (v.set ((out + i) % cap) a hj) out count = ringWindow v out count := by
  apply List.map_congr_left
  intro k hk
  rw [get_set, if_neg]
  have hk' := List.mem_range.mp hk
  exact (add_mod_ne (by omega) (by omega)).symm

/-- Writing the first free slot appends to a window with room. -/
theorem ringWindow_set_push (v : Vector α cap) (out count : Nat) (a : α) (hc : count < cap)
    (hj : (out + count) % cap < cap) :
    ringWindow (v.set ((out + count) % cap) a hj) out (count + 1) = ringWindow v out count ++ [a] := by
  rw [ringWindow_succ, ringWindow_set_of_ge v out count a count le_rfl hc, get_set]
  exact congrArg (fun b => ringWindow v out count ++ [b]) (if_pos rfl)

/-- Overwriting the oldest slot of a full window and moving past it rotates the window. -/
theorem ringWindow_set_rotate (v : Vector α cap) (out n : Nat) (a : α) (hn : n + 1 = cap)
    (hj : out % cap < cap) :
    ringWindow (v.set (out % cap) a hj) (out + 1) (n + 1) = (ringWindow v out (n + 1)).tail ++ [a] := by
  have hlast : (out + 1 + n) % cap = out % cap := by
    rw [show out + 1 + n = out + cap by omega, Nat.add_mod_right]
  have hinit : ringWindow (v.set (out % cap) a hj) (out + 1) n = ringWindow v (out + 1) n := by
    have h := ringWindow_set_of_ge v (out + 1) n a n le_rfl (by omega) (by rw [hlast]; exact hj)
    simpa only [hlast] using h
  rw [ringWindow_succ, hinit, ringWindow_succ_left, List.tail_cons, get_set]
  exact congrArg (fun b => ringWindow v (out + 1) n ++ [b]) (if_pos hlast.symm)

end Window
end Aesd.Foundations
