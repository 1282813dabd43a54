import Aesd.Driver.CharDevice

/-! The statements of aesd_read and aesd_write, one step each, for any number of calls at
once. The addresses of members of the device are never NULL, so of the checks before the
lock those of private_data and of the user's pointers remain. -/
namespace Aesd.Driver
open Aesd.Foundations

/-- The next statement of aesd_read once it has the mutex, with its locals. -/
inductive ReadPc where
  | find : ReadPc
  | measure : Fin maxWriteOperationsSupported → Nat → ReadPc
  | address : Fin maxWriteOperationsSupported → Nat → Nat → ReadPc
  | copyToUser : Option KPtr → Nat → Nat → ReadPc
  | advance : Nat → List Byte → ReadPc

/-- The next statement of aesd_write once it has the mutex; freed is what it has passed to kfree. -/
inductive WritePc where
  | reserve : WritePc
  | testBuffptr : WritePc
  | copyFromUser : WritePc
  | addSize : Nat → WritePc
  | scan : Nat → WritePc
  | addEntry : Nat → WritePc
  | freeOldest : Option KPtr → Nat → WritePc
  | clearSize : Nat → List KPtr → WritePc
  | clearBuffptr : Nat → List KPtr → WritePc

/-- What a call that has passed its checks is to do with the mutex held, and what its
environment decides: a read of a file, or a write of a buffer. -/
inductive Request where
  | read : Nat → Nat → (Nat → Nat) → Request
  | write : List Byte → Option Grant → Nat → Request

/-- A request at one of its statements between lock and error_handler. -/
inductive Body where
  | read : Nat → Nat → (Nat → Nat) → ReadPc → Body
  | write : List Byte → Option Grant → Nat → WritePc → Body

/-- A call at one of its statements. The lock carries whether the wait is interrupted,
error_handler whether mutex_p is set, and it and the end what the call answers. -/
inductive Call where
  | start : Op → Call
  | checkUser : Op → Call
  | lock : Bool → Request → Call
  | locked : Body → Call
  | errorHandler : Bool → Reply → Call
  | returned : Reply → Call

def Request.first : Request → Body
  | .read f count uncopied => .read f count uncopied .find
  | .write buf alloc uncopied => .write buf alloc uncopied .reserve

def Op.file : Op → Nat
  | .read f _ | .write f _ => f

/-- What retval is set to where it is declared. -/
def Op.retval : Op → Int
  | .read .. => 0
  | .write .. => -ENOMEM

/-- filp == NULL || buf == NULL || f_pos == NULL -/
def Op.checkUser : Op → Call
  | .read f call =>
    if call.buf = false then .returned ⟨-EFAULT, [], []⟩
    else .lock call.lock (.read f call.count call.uncopied)
  | .write _ call =>
    match call.buf with
    | none => .returned ⟨-EFAULT, [], []⟩
    | some buf => .lock call.lock (.write buf call.alloc call.uncopied)

/-- A statement of aesd_read with the mutex held. -/
def readStatement (f count : Nat) (uncopied : Nat → Nat) (s : Sys) : ReadPc → Option (Sys × Call)
  | .find =>
    match aesdCircularBufferFindEntryOffsetForFpos s.kernel.aesdDevice.cbHandler (s.files f).fPos with
    | none => some (s, .errorHandler true ⟨0, [], []⟩)
    | some (slot, offset) => some (s, .locked (.read f count uncopied (.measure slot offset)))
  | .measure slot offset =>
    let size := (s.kernel.aesdDevice.cbHandler.entry.get slot).size
    let remaining := if size - offset > count then count else size - offset
    some (s, .locked (.read f count uncopied (.address slot offset remaining)))
  | .address slot offset remaining =>
    let buffptr := (s.kernel.aesdDevice.cbHandler.entry.get slot).buffptr
    if buffptr = none ∧ offset = 0 then some (s, .errorHandler true ⟨0, [], []⟩)
    else some (s, .locked (.read f count uncopied (.copyToUser buffptr offset remaining)))
  | .copyToUser buffptr offset remaining => do
    let string ← peek buffptr offset remaining s.kernel.heap
    let copied := remaining - min (uncopied remaining) remaining
    return (s, .locked (.read f count uncopied (.advance copied (string.take copied))))
  | .advance copied data =>
    let filp := s.files f
    some (⟨s.kernel, Function.update s.files f { filp with fPos := filp.fPos + copied }⟩,
      .errorHandler true ⟨copied, data, []⟩)

/-- A statement of aesd_write with the mutex held. -/
def writeStatement (buf : List Byte) (alloc : Option Grant) (uncopied : Nat) (s : Sys) :
    WritePc → Option (Sys × Call)
  | .reserve => do
    let (buffptr, h) ← reserve alloc s.kernel.aesdDevice.entryToInsertInCb buf.length s.kernel.heap
    return ({ s with kernel :=
        ⟨⟨⟨buffptr, s.kernel.aesdDevice.entryToInsertInCb.size⟩, s.kernel.aesdDevice.cbHandler⟩, h⟩ },
      .locked (.write buf alloc uncopied .testBuffptr))
  | .testBuffptr =>
    match s.kernel.aesdDevice.entryToInsertInCb.buffptr with
    | none => some (s, .errorHandler true ⟨-ENOMEM, [], []⟩)
    | some _ => some (s, .locked (.write buf alloc uncopied .copyFromUser))
  | .copyFromUser => do
    let p ← s.kernel.aesdDevice.entryToInsertInCb.buffptr
    let remaining := min uncopied buf.length
    let h ← copyFromUser p s.kernel.aesdDevice.entryToInsertInCb.size buf remaining s.kernel.heap
    return ({ s with kernel := ⟨s.kernel.aesdDevice, h⟩ },
      .locked (.write buf alloc uncopied (.addSize (buf.length - remaining))))
  | .addSize copied =>
    let preserved := s.kernel.aesdDevice.entryToInsertInCb
    some ({ s with kernel :=
        ⟨⟨⟨preserved.buffptr, preserved.size + copied⟩, s.kernel.aesdDevice.cbHandler⟩, s.kernel.heap⟩ },
      .locked (.write buf alloc uncopied (.scan copied)))
  | .scan copied => do
    let preserved := s.kernel.aesdDevice.entryToInsertInCb
    let text ← peek preserved.buffptr 0 preserved.size s.kernel.heap
    if newline ∈ text then return (s, .locked (.write buf alloc uncopied (.addEntry copied)))
    else return (s, .errorHandler true ⟨copied, [], []⟩)
  | .addEntry copied => do
    let preserved := s.kernel.aesdDevice.entryToInsertInCb
    let (cb, oldest) ← aesdCircularBufferAddEntry s.kernel.aesdDevice.cbHandler preserved
    return ({ s with kernel := ⟨⟨preserved, cb⟩, s.kernel.heap⟩ },
      .locked (.write buf alloc uncopied (.freeOldest oldest copied)))
  | .freeOldest oldest copied => do
    let h ← kfree oldest s.kernel.heap
    return ({ s with kernel := ⟨s.kernel.aesdDevice, h⟩ },
      .locked (.write buf alloc uncopied (.clearSize copied oldest.toList)))
  | .clearSize copied freed =>
    some ({ s with kernel := ⟨⟨⟨s.kernel.aesdDevice.entryToInsertInCb.buffptr, 0⟩,
        s.kernel.aesdDevice.cbHandler⟩, s.kernel.heap⟩ },
      .locked (.write buf alloc uncopied (.clearBuffptr copied freed)))
  | .clearBuffptr copied freed =>
    some ({ s with kernel := ⟨⟨⟨none, s.kernel.aesdDevice.entryToInsertInCb.size⟩,
        s.kernel.aesdDevice.cbHandler⟩, s.kernel.heap⟩ },
      .errorHandler true ⟨copied, [], freed⟩)

def Body.statement (s : Sys) : Body → Option (Sys × Call)
  | .read f count uncopied pc => readStatement f count uncopied s pc
  | .write buf alloc uncopied pc => writeStatement buf alloc uncopied s pc

/-- What is left of a call's locked part takes the device there and ends with this answer. -/
inductive Finishes : Call → Sys → Sys → Reply → Prop where
  | done (s : Sys) (r : Reply) : Finishes (.errorHandler true r) s s r
  | next {body : Body} {c : Call} {s s' s'' : Sys} {r : Reply} (h : body.statement s = some (s', c))
      (rest : Finishes c s' s'' r) : Finishes (.locked body) s s'' r

section Finishes
variable {s s' : Sys} {r : Reply}

/-- Statement by statement, the locked part of a read does what it does in one piece. -/
theorem readLocked_finishes {f count : Nat} {uncopied : Nat → Nat} {filp : File}
    (h : readLocked (s.files f) count uncopied s.kernel = some (filp, r)) :
    Finishes (.locked (.read f count uncopied .find)) s ⟨s.kernel, Function.update s.files f filp⟩ r := by
  cases hfind : aesdCircularBufferFindEntryOffsetForFpos s.kernel.aesdDevice.cbHandler (s.files f).fPos with
  | none =>
    simp only [readLocked, hfind] at h
    obtain ⟨rfl, rfl⟩ := Prod.mk.inj (Option.some.inj h)
    rw [Function.update_eq_self]
    refine .next ?_ (.done _ _)
    simp only [Body.statement, readStatement, hfind]
  | some q =>
    obtain ⟨slot, offset⟩ := q
    simp only [readLocked, hfind] at h
    refine .next (by simp only [Body.statement, readStatement, hfind]; rfl) ?_
    refine .next rfl ?_
    by_cases hnull : (s.kernel.aesdDevice.cbHandler.entry.get slot).buffptr = none ∧ offset = 0
    · rw [if_pos hnull] at h
      obtain ⟨rfl, rfl⟩ := Prod.mk.inj (Option.some.inj h)
      rw [Function.update_eq_self]
      exact .next (if_pos hnull) (.done _ _)
    · rw [if_neg hnull] at h
      obtain ⟨string, hpeek, h⟩ := Option.bind_eq_some_iff.mp h
      obtain ⟨rfl, rfl⟩ := Prod.mk.inj (Option.some.inj h)
      refine .next (if_neg hnull) ?_
      refine .next (by simp only [Body.statement, readStatement, hpeek]; rfl) ?_
      exact .next rfl (.done _ _)

/-- And so does the locked part of a write. -/
theorem writeLocked_finishes {buf : List Byte} {alloc : Option Grant} {uncopied : Nat} {k : Kernel}
    (h : writeLocked buf alloc uncopied s.kernel = some (k, r)) :
    Finishes (.locked (.write buf alloc uncopied .reserve)) s { s with kernel := k } r := by
  obtain ⟨⟨buffptr, h₁⟩, hres, h⟩ := Option.bind_eq_some_iff.mp h
  refine .next (by simp only [Body.statement, writeStatement, hres]; rfl) ?_
  cases buffptr with
  | none =>
    obtain ⟨rfl, rfl⟩ := Prod.mk.inj (Option.some.inj h)
    exact .next rfl (.done _ _)
  | some p =>
    obtain ⟨h₂, hcopy, h⟩ := Option.bind_eq_some_iff.mp h
    obtain ⟨text, hpeek, h⟩ := Option.bind_eq_some_iff.mp h
    refine .next rfl ?_
    refine .next
      (by simp only [Body.statement, writeStatement, Option.bind_eq_bind, Option.bind_some, hcopy]; rfl) ?_
    refine .next rfl ?_
    by_cases hnl : newline ∈ text
    · rw [if_pos hnl] at h
      obtain ⟨⟨cb, oldest⟩, hadd, h⟩ := Option.bind_eq_some_iff.mp h
      obtain ⟨h₃, hfree, h⟩ := Option.bind_eq_some_iff.mp h
      obtain ⟨rfl, rfl⟩ := Prod.mk.inj (Option.some.inj h)
      refine .next (by simp only [Body.statement, writeStatement, hpeek, Option.bind_eq_bind,
        Option.bind_some, if_pos hnl]; rfl) ?_
      refine .next (by simp only [Body.statement, writeStatement, hadd]; rfl) ?_
      refine .next (by simp only [Body.statement, writeStatement, hfree]; rfl) ?_
      refine .next rfl ?_
      exact .next rfl (.done _ _)
    · rw [if_neg hnl] at h
      obtain ⟨rfl, rfl⟩ := Prod.mk.inj (Option.some.inj h)
      refine .next (by simp only [Body.statement, writeStatement, hpeek, Option.bind_eq_bind,
        Option.bind_some, if_neg hnl]; rfl) ?_
      exact .done _ _

end Finishes
end Aesd.Driver
