import Aesd.Foundations.BlockHeap
import Mathlib.Order.Lattice.Nat

/-! Kernel memory as the driver uses it: kmalloc, krealloc, kfree and copy_from_user
over a heap of blocks. What the allocator is free to choose is an input; an access
outside an allocated block, or a free of one that is not allocated, has no result.
Sizes are of blocks and buffers held in memory, so size_t sums do not wrap. -/
namespace Aesd.Driver
open Aesd.Foundations

abbrev Byte := UInt8
abbrev Addr := Nat
abbrev Heap := BlockHeap Addr Byte

/-- A pointer that is not NULL: ZERO_SIZE_PTR or the start of a block. -/
inductive KPtr where
  | zeroSize : KPtr
  | block : Addr → KPtr
  deriving DecidableEq, Repr

/-- The choices of an allocator that serves a request: the address of a new block,
never one in use, what a fresh block happens to contain, and whether krealloc moves. -/
structure Grant where
  place : Heap → Addr
  fresh : ∀ h, place h ∉ h
  junk : Nat → Byte
  moves : Bool

def Grant.contents (g : Grant) (n : Nat) : List Byte := (List.range n).map g.junk

@[simp] theorem Grant.length_contents (g : Grant) (n : Nat) : (g.contents n).length = n := by
  simp [Grant.contents]

/-- A grant above every block, filled with one byte and moving on every krealloc. -/
def Grant.above (b : Byte) : Grant where
  place h := h.keys.sup id + 1
  fresh h hm := by
    have hle : h.keys.sup id + 1 ≤ h.keys.sup id := Finset.le_sup (f := id) (Finmap.mem_keys.mpr hm)
    exact Nat.not_succ_le_self _ hle
  junk _ := b
  moves := true

/-- No grant is an allocation that fails; a request for no bytes gets ZERO_SIZE_PTR. -/
def kmalloc (alloc : Option Grant) (n : Nat) (h : Heap) : Option KPtr × Heap :=
  match alloc with
  | none => (none, h)
  | some g => if n = 0 then (some .zeroSize, h)
    else (some (.block (g.place h)), h.insert (g.place h) (g.contents n))

/-- A failing krealloc leaves the old block as it is. One that succeeds keeps the
common prefix, in place or in a new block after which the old one is freed. -/
def krealloc (alloc : Option Grant) (p : Option KPtr) (n : Nat) (h : Heap) :
    Option (Option KPtr × Heap) :=
  match p with
  | some (.block a) => do
    let old ← h.lookup a
    match alloc with
    | none => return (none, h)
    | some g =>
      let new := old.take n ++ (g.contents n).drop old.length
      if n = 0 then return (some .zeroSize, h.erase a)
      else if g.moves then return (some (.block (g.place h)), (h.insert (g.place h) new).erase a)
      else return (some (.block a), h.insert a new)
  | _ => return kmalloc alloc n h

def kfree (p : Option KPtr) (h : Heap) : Option Heap :=
  match p with
  | some (.block a) => BlockHeap.free h a
  | _ => some h

/-- Reading no bytes touches no memory. -/
def peek (p : Option KPtr) (off n : Nat) (h : Heap) : Option (List Byte) :=
  if n = 0 then some []
  else match p with
    | some (.block a) => BlockHeap.load h a off n
    | _ => none

@[simp] theorem peek_zero (p : Option KPtr) (off : Nat) (h : Heap) : peek p off 0 h = some [] := if_pos rfl

def poke (p : KPtr) (off : Nat) (data : List Byte) (h : Heap) : Option Heap :=
  if data = [] then some h
  else match p with
    | .block a => BlockHeap.store h a off data
    | .zeroSize => none

/-- Copies all but the last uncopied bytes and pads the destination with zeros. -/
def copyFromUser (dst : KPtr) (off : Nat) (buf : List Byte) (uncopied : Nat) (h : Heap) : Option Heap :=
  poke dst off (buf.take (buf.length - uncopied) ++ List.replicate uncopied 0) h

end Aesd.Driver
