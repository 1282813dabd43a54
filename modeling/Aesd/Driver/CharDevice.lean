import Aesd.Driver.CircularBuffer
import Aesd.Driver.KernelMemory
import Mathlib.Logic.Function.Basic

/-! The file operations of the character device (main.c), and the system of any
number of open files over the one device. A call runs under the device mutex, so
calls are atomic here; whether its lock wait was interrupted is an input. -/
namespace Aesd.Driver
open Aesd.Foundations

def ENOMEM : Int := 12
def EFAULT : Int := 14
def ERESTARTSYS : Int := 512

def newline : Byte := 10

abbrev Entry := AesdBufferEntry KPtr Nat
abbrev Ring := AesdCircularBuffer KPtr Nat

structure AesdDev where
  entryToInsertInCb : Entry
  cbHandler : Ring

structure Kernel where
  aesdDevice : AesdDev
  heap : Heap

/-- What read and write use of an open file: whether private_data is set, and f_pos. -/
structure File where
  privateData : Bool
  fPos : Nat

def aesdOpen : File := ⟨true, 0⟩

def aesdRelease (filp : File) : File := { filp with privateData := false }

/-- The result of loading the module, given those of alloc_chrdev_region and cdev_add. -/
def aesdInitModule (allocChrdevRegion cdevAdd : Int) (dev : AesdDev) : Int × AesdDev :=
  if allocChrdevRegion < 0 then (allocChrdevRegion, dev)
  else (cdevAdd, ⟨⟨none, 0⟩, aesdCircularBufferInit⟩)

def Kernel.loaded : Kernel := ⟨⟨⟨none, 0⟩, aesdCircularBufferInit⟩, ∅⟩

theorem aesdInitModule_loaded (dev : AesdDev) :
    aesdInitModule 0 0 dev = (0, Kernel.loaded.aesdDevice) := rfl

/-- What a call answers: its return value, the bytes copied to the user, and the
pointers it passed to kfree. -/
structure Reply where
  ret : Int
  data : List Byte
  freed : List KPtr
  deriving DecidableEq, Repr

/-- A write and what its environment decides: the user buffer of count bytes (none
is NULL), whether the lock was obtained, the allocator's answer, and how many bytes
copy_from_user leaves. -/
structure WriteCall where
  buf : Option (List Byte)
  lock : Bool
  alloc : Option Grant
  uncopied : Nat

/-- A read and what its environment decides: whether the user buffer is not NULL, the
count, the lock, and how many of n bytes copy_to_user leaves. -/
structure ReadCall where
  buf : Bool
  count : Nat
  lock : Bool
  uncopied : Nat → Nat

/-- The kmalloc or krealloc of a write, chosen on the preserved size. -/
def reserve (alloc : Option Grant) (preserved : Entry) (count : Nat) (h : Heap) :
    Option (Option KPtr × Heap) :=
  if preserved.size = 0 then some (kmalloc alloc count h)
  else krealloc alloc preserved.buffptr (preserved.size + count) h

/-- The accumulated entry joins the ring if memchr finds a newline in it; an entry
that leaves the ring is freed and the preserved entry is reset. -/
def insertEntry (entry : Entry) (copied : Nat) (cb : Ring) (h : Heap) : Option (Kernel × Reply) := do
  let text ← peek entry.buffptr 0 entry.size h
  if newline ∈ text then
    let (cb, oldest) ← aesdCircularBufferAddEntry cb entry
    let h ← kfree oldest h
    return (⟨⟨⟨none, 0⟩, cb⟩, h⟩, ⟨copied, [], oldest.toList⟩)
  else
    return (⟨⟨entry, cb⟩, h⟩, ⟨copied, [], []⟩)

/-- The part of aesd_write that runs with the mutex held. -/
def writeLocked (buf : List Byte) (alloc : Option Grant) (uncopied : Nat) (k : Kernel) :
    Option (Kernel × Reply) := do
  let preserved := k.aesdDevice.entryToInsertInCb
  let (buffptr, h) ← reserve alloc preserved buf.length k.heap
  match buffptr with
  | none => return (⟨⟨⟨none, preserved.size⟩, k.aesdDevice.cbHandler⟩, h⟩, ⟨-ENOMEM, [], []⟩)
  | some p =>
    let remaining := min uncopied buf.length
    let h ← copyFromUser p preserved.size buf remaining h
    let copied := buf.length - remaining
    insertEntry ⟨some p, preserved.size + copied⟩ copied k.aesdDevice.cbHandler h

/-- Without private_data the error path unlocks a NULL mutex pointer. -/
def aesdWrite (filp : File) (call : WriteCall) (k : Kernel) : Option (Kernel × Reply) :=
  if filp.privateData = false then none
  else match call.buf with
    | none => some (k, ⟨-EFAULT, [], []⟩)
    | some buf =>
      if call.lock = false then some (k, ⟨-ERESTARTSYS, [], []⟩)
      else writeLocked buf call.alloc call.uncopied k

def readLocked (filp : File) (count : Nat) (uncopied : Nat → Nat) (k : Kernel) : Option (File × Reply) :=
  let cb := k.aesdDevice.cbHandler
  match aesdCircularBufferFindEntryOffsetForFpos cb filp.fPos with
  | none => some (filp, ⟨0, [], []⟩)
  | some (slot, offset) =>
    let entry := cb.entry.get slot
    let remaining := if entry.size - offset > count then count else entry.size - offset
    -- buffptr + offset is NULL only for a NULL buffptr and no offset
    if entry.buffptr = none ∧ offset = 0 then some (filp, ⟨0, [], []⟩)
    else do
      let string ← peek entry.buffptr offset remaining k.heap
      let copied := remaining - min (uncopied remaining) remaining
      return ({ filp with fPos := filp.fPos + copied }, ⟨copied, string.take copied, []⟩)

def aesdRead (filp : File) (call : ReadCall) (k : Kernel) : Option (File × Reply) :=
  if filp.privateData = false then none
  else if call.buf = false then some (filp, ⟨-EFAULT, [], []⟩)
  else if call.lock = false then some (filp, ⟨-ERESTARTSYS, [], []⟩)
  else readLocked filp call.count call.uncopied k

/-- A call on one of the open files, numbered without bound. -/
inductive Op where
  | read : Nat → ReadCall → Op
  | write : Nat → WriteCall → Op

structure Sys where
  kernel : Kernel
  files : Nat → File

def Sys.loaded : Sys := ⟨Kernel.loaded, fun _ => aesdOpen⟩

def Sys.step (s : Sys) : Op → Option (Sys × Reply)
  | .read f call => (aesdRead (s.files f) call s.kernel).map fun r =>
    (⟨s.kernel, Function.update s.files f r.1⟩, r.2)
  | .write f call => (aesdWrite (s.files f) call s.kernel).map fun r => (⟨r.1, s.files⟩, r.2)

/-- The driver as a machine: calls are the inputs, in the order the mutex gives. -/
def driver : Machine Sys Op Reply := ⟨Sys.step⟩

end Aesd.Driver
