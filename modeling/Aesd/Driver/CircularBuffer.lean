import Aesd.Foundations.Machine
import Aesd.Foundations.RingWindow

/-! The ring of write operations of aesd-circular-buffer.c. A buffptr is a nullable
pointer of any type, and storing past the array has no result. Entry sizes are of
any word type, since the scan only compares and subtracts them. -/
namespace Aesd.Driver
open Aesd.Foundations

abbrev maxWriteOperationsSupported : Nat := 10

structure AesdBufferEntry (π σ : Type) where
  buffptr : Option π
  size : σ
  deriving DecidableEq, Repr

/-- The offsets are uint8_t in the source and wrap at 256. -/
structure AesdCircularBuffer (π σ : Type) where
  entry : Vector (AesdBufferEntry π σ) maxWriteOperationsSupported
  inOffs : UInt8
  outOffs : UInt8
  full : Bool
  deriving DecidableEq, Repr

variable {π σ : Type}

section Source
variable [OfNat σ 0]

/-- memset(buffer, 0, sizeof(struct aesd_circular_buffer)) -/
def aesdCircularBufferInit : AesdCircularBuffer π σ :=
  ⟨Vector.replicate maxWriteOperationsSupported ⟨none, 0⟩, 0, 0, false⟩

/-- The increment-and-wrap that both branches of the add apply to the offsets. -/
def advance (offs : UInt8) : UInt8 :=
  if offs + 1 = maxWriteOperationsSupported.toUInt8 then 0 else offs + 1

/-- memcpy of an entry into a slot of the array. -/
def storeSlot (entry : Vector (AesdBufferEntry π σ) maxWriteOperationsSupported) (offs : UInt8)
    (addEntry : AesdBufferEntry π σ) : Option (Vector (AesdBufferEntry π σ) maxWriteOperationsSupported) :=
  if h : offs.toNat < maxWriteOperationsSupported then some (entry.set offs.toNat addEntry h) else none

/-- The returned pointer is that of the slot at out_offs when the ring was full, else NULL. -/
def aesdCircularBufferAddEntry (buffer : AesdCircularBuffer π σ) (addEntry : AesdBufferEntry π σ) :
    Option (AesdCircularBuffer π σ × Option π) :=
  if buffer.full then do
    let oldest ← buffer.entry[buffer.outOffs.toNat]?
    let entry ← storeSlot buffer.entry buffer.inOffs addEntry
    return ({ buffer with entry, inOffs := advance buffer.inOffs, outOffs := advance buffer.outOffs },
      oldest.buffptr)
  else do
    let entry ← storeSlot buffer.entry buffer.inOffs addEntry
    let inOffs := advance buffer.inOffs
    return ({ buffer with entry, inOffs, full := if inOffs = buffer.outOffs then true else buffer.full },
      none)

/-- The slot scanned in iteration i: out_offs + i, reduced only when it passes the end. -/
def scanIdx (buffer : AesdCircularBuffer π σ) (i : Nat) : Fin maxWriteOperationsSupported :=
  if h : buffer.outOffs.toNat + i ≥ maxWriteOperationsSupported then
    ⟨(buffer.outOffs.toNat + i) % maxWriteOperationsSupported, Nat.mod_lt _ (by decide)⟩
  else ⟨buffer.outOffs.toNat + i, Nat.lt_of_not_le h⟩

variable [OfNat σ 1] [Sub σ] [LT σ] [DecidableLT σ] [DecidableEq σ]

def findFrom (buffer : AesdCircularBuffer π σ) :
    Nat → Nat → σ → Option (Fin maxWriteOperationsSupported × σ)
  | 0, _, _ => none
  | todo + 1, i, charOffset =>
    let slot := buffer.entry.get (scanIdx buffer i)
    if slot.size = 0 then none
    else if charOffset > slot.size - 1 then findFrom buffer todo (i + 1) (charOffset - slot.size)
    else some (scanIdx buffer i, charOffset)

/-- The slot found and the value stored in entry_offset_byte_rtn; NULL stores none. -/
def aesdCircularBufferFindEntryOffsetForFpos (buffer : AesdCircularBuffer π σ) (charOffset : σ) :
    Option (Fin maxWriteOperationsSupported × σ) :=
  findFrom buffer maxWriteOperationsSupported 0 charOffset

end Source

namespace AesdCircularBuffer

/-- Live slots: all ten when full, else (in_offs - out_offs) mod 10. -/
def count (cb : AesdCircularBuffer π σ) : Nat :=
  if cb.full then maxWriteOperationsSupported
  else (((cb.inOffs.toNat : Int) - cb.outOffs.toNat) % maxWriteOperationsSupported).toNat

/-- The entries in the live slots, oldest first. -/
def window (cb : AesdCircularBuffer π σ) : List (AesdBufferEntry π σ) :=
  ringWindow cb.entry cb.outOffs.toNat cb.count

end AesdCircularBuffer

/-- The ring as a machine: each input is added, each answer is the pointer returned. -/
def addRuns (π σ : Type) : Machine (AesdCircularBuffer π σ) (AesdBufferEntry π σ) (Option π) :=
  ⟨aesdCircularBufferAddEntry⟩

end Aesd.Driver
