import Mathlib.Data.Finmap
import Mathlib.Tactic.Common

/-! A heap of separately allocated blocks of cells. Accesses outside an allocated
block have no result, and neither has freeing a block that is not allocated. -/
namespace Aesd.Foundations
variable {α β : Type} [DecidableEq α]

abbrev BlockHeap (α β : Type) := Finmap fun _ : α => List β

def overwrite (b : List β) (off : Nat) (data : List β) : List β :=
  b.take off ++ data ++ b.drop (off + data.length)

theorem length_overwrite {b : List β} {off : Nat} {data : List β} (h : off + data.length ≤ b.length) :
    (overwrite b off data).length = b.length := by
  simp only [overwrite, List.length_append, List.length_take, List.length_drop]
  omega

/-- Up to a point inside the new data, an overwritten block is its old prefix and that data. -/
theorem take_overwrite {b : List β} {off k : Nat} {data : List β} (h : off ≤ b.length)
    (hk : k ≤ data.length) : (overwrite b off data).take (off + k) = b.take off ++ data.take k := by
  have hl : (b.take off).length = off := by simp [h]
  rw [overwrite, List.append_assoc, List.take_append, hl, Nat.add_sub_cancel_left,
    List.take_of_length_le (by omega), List.take_append_of_le_length hk]

namespace BlockHeap

def load (h : BlockHeap α β) (a : α) (off n : Nat) : Option (List β) :=
  (h.lookup a).bind fun b => if off + n ≤ b.length then some ((b.drop off).take n) else none

def store (h : BlockHeap α β) (a : α) (off : Nat) (data : List β) : Option (BlockHeap α β) :=
  (h.lookup a).bind fun b =>
    if off + data.length ≤ b.length then some (h.insert a (overwrite b off data)) else none

def free (h : BlockHeap α β) (a : α) : Option (BlockHeap α β) :=
  if a ∈ h then some (h.erase a) else none

theorem load_of_lookup {h : BlockHeap α β} {a : α} {b : List β} (hb : h.lookup a = some b)
    {off n : Nat} (hn : off + n ≤ b.length) : load h a off n = some ((b.drop off).take n) := by
  simp [load, hb, hn]

theorem store_of_lookup {h : BlockHeap α β} {a : α} {b : List β} (hb : h.lookup a = some b)
    {off : Nat} {data : List β} (hn : off + data.length ≤ b.length) :
    store h a off data = some (h.insert a (overwrite b off data)) := by
  simp [store, hb, hn]

theorem free_of_mem {h : BlockHeap α β} {a : α} (ha : a ∈ h) : free h a = some (h.erase a) := if_pos ha

end BlockHeap
end Aesd.Foundations
