import Aesd.Driver.Serialization

/-! The device as its users see it, without mutex, kernel memory or pointers: what calls that
overlap answer is what it answers to them in the order in which they take effect. -/
namespace Aesd.Driver
open Aesd.Foundations

structure Device where
  view : DeviceView
  fPos : Nat → Nat

def Device.loaded : Device := ⟨.loaded, fun _ => 0⟩

def Device.step (d : Device) : Op → Device × Int × List Byte
  | .read f ⟨true, count, true, uncopied⟩ =>
    let n := transferred d.view.stored (d.fPos f) count uncopied
    (⟨d.view, Function.update d.fPos f (d.fPos f + n)⟩, n, (d.view.stored.flatten.drop (d.fPos f)).take n)
  | .write _ ⟨some buf, true, alloc, uncopied⟩ =>
    (⟨d.view.write buf alloc uncopied, d.fPos⟩, writeRet buf alloc uncopied, [])
  | .read _ ⟨false, _, _, _⟩ | .write _ ⟨none, _, _, _⟩ => (d, -EFAULT, [])
  | .read _ ⟨true, _, false, _⟩ | .write _ ⟨some _, false, _, _⟩ => (d, -ERESTARTSYS, [])

def device : Machine Device Op (Int × List Byte) := ⟨fun d op => some (d.step op)⟩

section Step
variable {s : Sys} {d : Device}

end Step

end Aesd.Driver
