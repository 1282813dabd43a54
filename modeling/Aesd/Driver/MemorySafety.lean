import Aesd.Driver.DeviceRuns

/-! Pointers of the driver at every point between calls: no live slot dangles, none
shares its block, and what a call frees nothing refers to afterwards. -/
namespace Aesd.Driver
open Aesd.Foundations

/-- A slot of the ring, live or not, or the preserved entry has this pointer. -/
def Kernel.RefersTo (k : Kernel) (q : KPtr) : Prop :=
  k.aesdDevice.entryToInsertInCb.buffptr = some q ∨
    ∃ i, (k.aesdDevice.cbHandler.entry.get i).buffptr = some q

structure Kernel.LiveSlotsSafe (k : Kernel) : Prop where
  allocated : ∀ e ∈ k.aesdDevice.cbHandler.window,
    ∃ a blk, e.buffptr = some (.block a) ∧ k.heap.lookup a = some blk ∧ e.size ≤ blk.length
  distinct : (k.aesdDevice.cbHandler.window.map AesdBufferEntry.buffptr).Nodup
  apart : ∀ e ∈ k.aesdDevice.cbHandler.window, e.buffptr ≠ k.aesdDevice.entryToInsertInCb.buffptr

/-- Every slot is live or as initialised. -/
theorem AesdCircularBuffer.Queue.get_mem_window {cb : Ring} (h : cb.Queue cb.window)
    (s : Fin maxWriteOperationsSupported) : cb.entry.get s ∈ cb.window ∨ cb.entry.get s = ⟨none, 0⟩ := by
  by_cases hs : ∃ i < cb.count, (cb.outOffs.toNat + i) % maxWriteOperationsSupported = s.val
  · obtain ⟨i, hi, he⟩ := hs
    refine .inl (List.mem_map.mpr ⟨i, List.mem_range.mpr hi, ?_⟩)
    exact congrArg cb.entry.get (Fin.ext he)
  · push Not at hs
    exact .inr (h.get_eq_zero s hs)

section Shows
variable {k : Kernel} {v : DeviceView}

/-- Whatever the driver refers to is on the ledger. -/
theorem Shows.mem_refs (h : Shows k v) {a : Addr} (ha : k.RefersTo (.block a)) : a ∈ k.refs := by
  rcases ha with ha | ⟨i, hi⟩
  · exact List.mem_append_left _ (mem_blocks.mpr ha)
  · apply List.mem_append_right
    rcases h.queue.get_mem_window i with hw | hz
    · exact List.mem_flatMap.mpr ⟨_, hw, mem_blocks.mpr hi⟩
    · rw [hz] at hi
      exact absurd hi (by simp)

private theorem windowBlocks_eq {h : Heap} {w : List Entry} {bs : List (List Byte)}
    (hw : List.Forall₂ (Holds h) w bs) :
    w.map AesdBufferEntry.buffptr = (windowBlocks w).map fun a => some (.block a) := by
  induction hw with
  | nil => rfl
  | cons hb _ ih =>
    obtain ⟨a, hblocks, hptr⟩ := hb.blocks_eq
    rw [windowBlocks, List.flatMap_cons, hblocks, List.map_cons, ih, hptr]
    rfl

theorem Shows.liveSlotsSafe (h : Shows k v) : k.LiveSlotsSafe := by
  have hnd := List.nodup_append.mp h.ledger.nodup
  refine ⟨fun e he => ?_, ?_, fun e he hc => ?_⟩
  · obtain ⟨b, hs, a, blk, hptr, hl, hpre⟩ := holds_of_mem h.stored he
    exact ⟨a, blk, hptr, hl, hs ▸ hpre.length_le⟩
  · rw [windowBlocks_eq h.stored]
    apply hnd.2.1.map
    intro a b hab
    simpa using hab
  · obtain ⟨b, hb⟩ := holds_of_mem h.stored he
    obtain ⟨a, hblocks, hptr⟩ := hb.blocks_eq
    have hpending : a ∈ blocks k.aesdDevice.entryToInsertInCb.buffptr := mem_blocks.mpr (hc ▸ hptr)
    have hwindow : a ∈ windowBlocks k.aesdDevice.cbHandler.window :=
      List.mem_flatMap.mpr ⟨e, he, by rw [hblocks]; exact List.mem_cons_self⟩
    exact hnd.2.2 a hpending a hwindow rfl

end Shows

/-- At every point of every run the live slots are safe, the next call does not go
wrong, and what it frees was allocated and is referred to by nothing afterwards. -/
theorem driver_memory_safe (ops : List Op) :
    ∃ s rs, driver.run Sys.loaded ops = some (s, rs) ∧ s.kernel.LiveSlotsSafe ∧
      ∀ op, ∃ s' r, driver.step s op = some (s', r) ∧
        ∀ q ∈ r.freed, ∃ a, q = .block a ∧ a ∈ s.kernel.heap ∧ ¬s'.kernel.RefersTo q := by
  obtain ⟨s, rs, hrun, hs⟩ := run_shows ops
  refine ⟨s, rs, hrun, hs.kernel.liveSlotsSafe, fun op => ?_⟩
  obtain ⟨s', r, hstep, hs', hfreed⟩ := step_shows hs op
  refine ⟨s', r, hstep, fun q hq => ?_⟩
  obtain ⟨a, rfl, ha, hna⟩ := hfreed q hq
  exact ⟨a, rfl, ha, fun hr => hna (hs'.kernel.ledger.mem (hs'.kernel.mem_refs hr))⟩

end Aesd.Driver
