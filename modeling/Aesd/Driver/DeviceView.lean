import Aesd.Driver.CharDevice
import Aesd.Driver.RingQueue
import Aesd.Foundations.BlockLedger

/-! The device without pointers: the stored texts, what is pending, and a count of
lost blocks. It keeps the contents of fresh memory, so it follows the driver through
every failing allocation and faulting copy. -/
namespace Aesd.Driver
open Aesd.Foundations

/-- The preserved entry: of size zero, with or without a block; some bytes; or a
positive size whose buffer a failed krealloc has lost. -/
inductive Pending where
  | empty : Bool → Pending
  | text : List Byte → Pending
  | lost : Nat → Pending
  deriving DecidableEq, Repr

namespace Pending

/-- What stands before the new bytes once an allocation has succeeded. -/
def kept (g : Grant) : Pending → List Byte
  | .empty _ => []
  | .text b => b
  | .lost n => g.contents n

def afterFailure : Pending → Pending
  | .empty _ => .empty false
  | .text b => .lost b.length
  | .lost n => .lost n

def size : Pending → Nat
  | .empty _ => 0
  | .text b => b.length
  | .lost n => n

theorem length_kept (g : Grant) (p : Pending) : (p.kept g).length = p.size := by
  cases p with
  | empty | text => rfl
  | lost n => exact g.length_contents n

theorem size_afterFailure (p : Pending) : p.afterFailure.size = p.size := by
  cases p <;> rfl

/-- The blocks that lose their last reference when the allocation succeeds. -/
def lostBySuccess : Pending → Nat
  | .empty true => 1
  | _ => 0

/-- The blocks that lose their last reference when the allocation fails. -/
def lostByFailure : Pending → Nat
  | .empty true | .text _ => 1
  | _ => 0

end Pending

def accepted (buf : List Byte) (uncopied : Nat) : List Byte :=
  buf.take (buf.length - min uncopied buf.length)

@[simp] theorem length_accepted (buf : List Byte) (uncopied : Nat) :
    (accepted buf uncopied).length = buf.length - min uncopied buf.length := by
  rw [accepted, List.length_take, Nat.min_eq_left (Nat.sub_le _ _)]

@[simp] theorem accepted_zero (buf : List Byte) : accepted buf 0 = buf := by simp [accepted]

structure DeviceView where
  stored : List (List Byte)
  pending : Pending
  leaked : Nat
  deriving DecidableEq, Repr

namespace DeviceView

def loaded : DeviceView := ⟨[], .empty false, 0⟩

/-- A write that gets as far as the allocation. -/
def write (v : DeviceView) (buf : List Byte) (alloc : Option Grant) (uncopied : Nat) : DeviceView :=
  match alloc with
  | none => ⟨v.stored, v.pending.afterFailure, v.leaked + v.pending.lostByFailure⟩
  | some g =>
    let text := v.pending.kept g ++ accepted buf uncopied
    let leaked := v.leaked + v.pending.lostBySuccess
    if newline ∈ text then ⟨(v.stored ++ [text]).rtake maxWriteOperationsSupported, .empty false, leaked⟩
    else ⟨v.stored, if text = [] then .empty (buf ≠ []) else .text text, leaked⟩

def size (v : DeviceView) : Nat := v.stored.flatten.length + v.pending.size

/-- A write adds no more than the bytes that it copies. -/
theorem size_write_le (v : DeviceView) (buf : List Byte) (alloc : Option Grant) (uncopied : Nat) :
    (v.write buf alloc uncopied).size ≤
      v.size + if alloc.isSome then (accepted buf uncopied).length else 0 := by
  cases alloc with
  | none => simp [write, size, Pending.size_afterFailure]
  | some g =>
    have hlen : (v.pending.kept g ++ accepted buf uncopied).length =
        v.pending.size + (accepted buf uncopied).length := by rw [List.length_append, Pending.length_kept]
    simp only [write, Option.isSome_some, if_true]
    generalize v.pending.kept g ++ accepted buf uncopied = text at hlen ⊢
    split
    · have hkept := (rtake_suffix (v.stored ++ [text]) maxWriteOperationsSupported).sublist.flatten.length_le
      rw [List.flatten_append, List.flatten_singleton, List.length_append, hlen] at hkept
      change ((v.stored ++ [text]).rtake maxWriteOperationsSupported).flatten.length + 0 ≤ _
      rw [size]
      omega
    · have hpending : (if text = [] then Pending.empty (buf ≠ []) else .text text).size = text.length := by
        split
        · rename_i hnil
          rw [hnil]
          rfl
        · rfl
      change v.stored.flatten.length + (if text = [] then Pending.empty (buf ≠ []) else .text text).size ≤ _
      rw [hpending, size]
      omega

end DeviceView

def writeRet (buf : List Byte) (alloc : Option Grant) (uncopied : Nat) : Int :=
  if alloc.isSome then (accepted buf uncopied).length else -ENOMEM

def blocks : Option KPtr → List Addr
  | some (.block a) => [a]
  | _ => []

theorem mem_blocks {p : Option KPtr} {a : Addr} : a ∈ blocks p ↔ p = some (.block a) := by
  unfold blocks
  split <;> simp_all [eq_comm]

def windowBlocks (w : List Entry) : List Addr := w.flatMap fun e => blocks e.buffptr

def Kernel.refs (k : Kernel) : List Addr :=
  blocks k.aesdDevice.entryToInsertInCb.buffptr ++ windowBlocks k.aesdDevice.cbHandler.window

/-- The entry's block is allocated and starts with these bytes, as many as its size. -/
def Holds (h : Heap) (e : Entry) (b : List Byte) : Prop :=
  e.size = b.length ∧ ∃ a blk, e.buffptr = some (.block a) ∧ h.lookup a = some blk ∧ b <+: blk

def PendingHolds (h : Heap) (e : Entry) : Pending → Prop
  | .empty held => e.size = 0 ∧ (blocks e.buffptr ≠ [] ↔ held = true)
  | .text b => b ≠ [] ∧ Holds h e b
  | .lost n => 0 < n ∧ e.size = n ∧ e.buffptr = none

/-- The driver's memory is laid out as the view says, and the view's ledger is right. -/
structure Shows (k : Kernel) (v : DeviceView) : Prop where
  queue : k.aesdDevice.cbHandler.Queue k.aesdDevice.cbHandler.window
  stored : List.Forall₂ (Holds k.heap) k.aesdDevice.cbHandler.window v.stored
  lines : ∀ b ∈ v.stored, newline ∈ b
  pending : PendingHolds k.heap k.aesdDevice.entryToInsertInCb v.pending
  ledger : Ledger k.heap k.refs v.leaked

section Holds
variable {h h' : Heap} {e : Entry} {b : List Byte}

theorem Holds.blocks_eq (hb : Holds h e b) : ∃ a, blocks e.buffptr = [a] ∧ e.buffptr = some (.block a) := by
  obtain ⟨_, a, _, hp, _, _⟩ := hb
  exact ⟨a, by rw [hp]; rfl, hp⟩

theorem Holds.congr (hb : Holds h e b) (ha : ∀ a ∈ blocks e.buffptr, h'.lookup a = h.lookup a) :
    Holds h' e b := by
  obtain ⟨hs, a, blk, hp, hl, hpre⟩ := hb
  exact ⟨hs, a, blk, hp, by rw [ha a (mem_blocks.mpr hp), hl], hpre⟩

theorem Holds.peek (hb : Holds h e b) (off n : Nat) (hn : off + n ≤ b.length) :
    peek e.buffptr off n h = some ((b.drop off).take n) := by
  obtain ⟨_, a, blk, hp, hl, t, rfl⟩ := hb
  unfold Driver.peek
  split
  · simp_all
  · simp only [hp]
    rw [BlockHeap.load_of_lookup hl (by rw [List.length_append]; omega),
      List.drop_append_of_le_length (by omega),
      List.take_append_of_le_length (by rw [List.length_drop]; omega)]

theorem Holds.peek_text (hb : Holds h e b) : Driver.peek e.buffptr 0 e.size h = some b := by
  rw [hb.peek 0 e.size (by rw [hb.1, Nat.zero_add]), hb.1, List.drop_zero, List.take_length]

theorem forall₂_holds_congr {w : List Entry} {bs : List (List Byte)} (hw : List.Forall₂ (Holds h) w bs)
    (ha : ∀ a ∈ windowBlocks w, h'.lookup a = h.lookup a) : List.Forall₂ (Holds h') w bs := by
  induction hw with
  | nil => exact .nil
  | cons hb _ ih =>
    refine .cons (hb.congr fun a hm => ha a ?_) (ih fun a hm => ha a ?_)
    · exact List.mem_append_left _ hm
    · exact List.mem_append_right _ hm

theorem holds_of_mem {w : List Entry} {bs : List (List Byte)}
    (hw : List.Forall₂ (Holds h) w bs) {x : Entry} (hx : x ∈ w) : ∃ b, Holds h x b := by
  induction hw with
  | nil => simp at hx
  | cons hb _ ih =>
    rcases List.mem_cons.mp hx with rfl | hx
    · exact ⟨_, hb⟩
    · exact ih hx

theorem sizes_eq {w : List Entry} {bs : List (List Byte)} (hw : List.Forall₂ (Holds h) w bs) :
    w.map AesdBufferEntry.size = bs.map List.length := by
  induction hw with
  | nil => rfl
  | cons hb _ ih => rw [List.map_cons, List.map_cons, hb.1, ih]

theorem size_pos {w : List Entry} {bs : List (List Byte)} (hw : List.Forall₂ (Holds h) w bs)
    (hne : ∀ b ∈ bs, b ≠ []) : ∀ e ∈ w, 0 < e.size := by
  induction hw with
  | nil => simp
  | cons hb _ ih =>
    intro e he
    rcases List.mem_cons.mp he with rfl | he
    · rw [hb.1]
      exact List.length_pos_of_ne_nil (hne _ List.mem_cons_self)
    · exact ih (fun b hb => hne b (List.mem_cons_of_mem _ hb)) e he

end Holds

theorem shows_loaded : Shows Kernel.loaded DeviceView.loaded where
  queue := queue_init
  stored := .nil
  lines := by simp [DeviceView.loaded]
  pending := by simp [Kernel.loaded, DeviceView.loaded, PendingHolds, blocks]
  ledger := Ledger.empty

end Aesd.Driver
