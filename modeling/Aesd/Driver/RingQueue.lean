import Aesd.Driver.CircularBuffer
import Aesd.Foundations.Segments

/-! The ring is a bounded queue: what its slots hold after any adds, and which of
them a position in their concatenation selects. -/
namespace Aesd.Driver
open Aesd.Foundations
variable {π σ : Type}

namespace AesdCircularBuffer

/-- The ring holds these entries as a queue of capacity ten: they fill the slots
from out_offs up to in_offs, and every other slot is still as initialised. -/
structure Queue [OfNat σ 0] (cb : AesdCircularBuffer π σ) (w : List (AesdBufferEntry π σ)) : Prop where
  out_lt : cb.outOffs.toNat < maxWriteOperationsSupported
  in_eq : cb.inOffs.toNat = (cb.outOffs.toNat + w.length) % maxWriteOperationsSupported
  length_le : w.length ≤ maxWriteOperationsSupported
  full_iff : cb.full = true ↔ w.length = maxWriteOperationsSupported
  slots : ringWindow cb.entry cb.outOffs.toNat w.length = w
  free : ∀ i, w.length ≤ i → i < maxWriteOperationsSupported →
    cb.entry.get (Fin.ofNat _ (cb.outOffs.toNat + i)) = ⟨none, 0⟩

namespace Queue
variable [OfNat σ 0] {cb : AesdCircularBuffer π σ} {w : List (AesdBufferEntry π σ)}

theorem in_lt (h : cb.Queue w) : cb.inOffs.toNat < maxWriteOperationsSupported := by
  rw [h.in_eq]
  exact Nat.mod_lt _ (by decide)

theorem count_eq (h : cb.Queue w) : cb.count = w.length := by
  have hin := h.in_eq
  have hout := h.out_lt
  have hlen := h.length_le
  unfold count
  split
  · rename_i hf
    exact (h.full_iff.mp hf).symm
  · rename_i hf
    have hne : w.length ≠ 10 := fun he => hf (h.full_iff.mpr he)
    simp only [maxWriteOperationsSupported] at hin hout hlen ⊢
    omega

theorem window_eq (h : cb.Queue w) : cb.window = w := by rw [window, h.count_eq, h.slots]

theorem in_eq_out_of_full (h : cb.Queue w) (hf : cb.full = true) : cb.inOffs = cb.outOffs := by
  apply UInt8.toNat_inj.mp
  rw [h.in_eq, h.full_iff.mp hf, Nat.add_mod_right, Nat.mod_eq_of_lt h.out_lt]

/-- A slot outside the window is as initialised. -/
theorem get_eq_zero (h : cb.Queue w) (s : Fin maxWriteOperationsSupported)
    (hs : ∀ i < cb.count, (cb.outOffs.toNat + i) % maxWriteOperationsSupported ≠ s.val) :
    cb.entry.get s = ⟨none, 0⟩ := by
  rw [h.count_eq] at hs
  have hout := h.out_lt
  have hlt := s.isLt
  have hfree := h.free ((s.val + 10 - cb.outOffs.toNat) % 10)
  simp only [maxWriteOperationsSupported] at hs hout hlt hfree
  have hback : (cb.outOffs.toNat + (s.val + 10 - cb.outOffs.toNat) % 10) % 10 = s.val := by omega
  have hge : w.length ≤ (s.val + 10 - cb.outOffs.toNat) % 10 := by
    by_contra hlt'
    exact hs _ (Nat.lt_of_not_le hlt') hback
  have hslot : Fin.ofNat 10 (cb.outOffs.toNat + (s.val + 10 - cb.outOffs.toNat) % 10) = s :=
    Fin.ext hback
  rw [← hslot]
  exact hfree hge (Nat.mod_lt _ (by decide))

end Queue
end AesdCircularBuffer

theorem advance_toNat {offs : UInt8} (h : offs.toNat < maxWriteOperationsSupported) :
    (advance offs).toNat = (offs.toNat + 1) % maxWriteOperationsSupported := by
  simp only [maxWriteOperationsSupported] at h ⊢
  have hadd : (offs + 1).toNat = offs.toNat + 1 := by
    rw [UInt8.toNat_add]
    exact Nat.mod_eq_of_lt (by change offs.toNat + 1 < 256; omega)
  unfold advance
  split
  · rename_i he
    have : offs.toNat + 1 = 10 := by rw [← hadd, he]; rfl
    rw [this]
    rfl
  · rename_i he
    have hne : offs.toNat + 1 ≠ 10 := fun hc => he (UInt8.toNat_inj.mp (hadd.trans hc))
    rw [hadd, Nat.mod_eq_of_lt (by omega)]

theorem storeSlot_of_lt {entry : Vector (AesdBufferEntry π σ) maxWriteOperationsSupported} {offs : UInt8}
    (h : offs.toNat < maxWriteOperationsSupported) (e : AesdBufferEntry π σ) :
    storeSlot entry offs e = some (entry.set offs.toNat e h) := dif_pos h

variable [OfNat σ 0]

theorem queue_init : (aesdCircularBufferInit : AesdCircularBuffer π σ).Queue [] where
  out_lt := by change 0 < 10; decide
  in_eq := rfl
  length_le := Nat.zero_le _
  full_iff := by simp [aesdCircularBufferInit]
  slots := rfl
  free i _ _ := by
    change (Vector.replicate 10 (⟨none, 0⟩ : AesdBufferEntry π σ))[(Fin.ofNat 10 _).val] = ⟨none, 0⟩
    rw [Vector.getElem_replicate]

private theorem add_entry_with_room {cb : AesdCircularBuffer π σ} {w : List (AesdBufferEntry π σ)}
    (h : cb.Queue w) (e : AesdBufferEntry π σ) (hroom : w.length < maxWriteOperationsSupported) :
    ∃ cb', aesdCircularBufferAddEntry cb e = some (cb', none) ∧ cb'.Queue (w ++ [e]) := by
  have hnf : cb.full = false := by
    by_contra hf
    exact hroom.ne (h.full_iff.mp (by simpa using hf))
  have hadv := advance_toNat h.in_lt
  refine ⟨{ cb with
    entry := cb.entry.set cb.inOffs.toNat e h.in_lt
    inOffs := advance cb.inOffs
    full := if advance cb.inOffs = cb.outOffs then true else cb.full }, ?_, ?_⟩
  · simp [aesdCircularBufferAddEntry, hnf, storeSlot_of_lt h.in_lt]
  · have hin := h.in_eq
    have hset : ∀ hj, cb.entry.set cb.inOffs.toNat e h.in_lt =
        cb.entry.set ((cb.outOffs.toNat + w.length) % maxWriteOperationsSupported) e hj := by simp [hin]
    have hlen : (w ++ [e]).length = w.length + 1 := List.length_append
    refine ⟨h.out_lt, ?_, hlen ▸ hroom, ?_, ?_, ?_⟩
    · simp only [hadv, hin, hlen, Nat.mod_add_mod, Nat.add_assoc]
    · have hwrap : advance cb.inOffs = cb.outOffs ↔ w.length + 1 = 10 := by
        rw [← UInt8.toNat_inj, hadv, hin]
        have := h.out_lt
        simp only [maxWriteOperationsSupported] at this hroom ⊢
        omega
      rw [hlen]
      by_cases hc : w.length + 1 = 10
      · exact iff_of_true (if_pos (hwrap.mpr hc)) hc
      · have hne : advance cb.inOffs ≠ cb.outOffs := fun he => hc (hwrap.mp he)
        exact iff_of_false (by simp [hne, hnf]) hc
    · simp only [hlen]
      rw [hset (Nat.mod_lt _ (by decide)), ringWindow_set_push _ _ _ _ hroom, h.slots]
    · intro i hi hlt
      simp only [hlen] at hi ⊢
      rw [hset (Nat.mod_lt _ (by decide)), get_set, if_neg]
      · exact h.free i (by omega) hlt
      · exact add_mod_ne (by omega) (by omega)

private theorem add_entry_when_full {cb : AesdCircularBuffer π σ} {w : List (AesdBufferEntry π σ)}
    (h : cb.Queue w) (e : AesdBufferEntry π σ) (hlen : w.length = maxWriteOperationsSupported) :
    ∃ cb', aesdCircularBufferAddEntry cb e = some (cb', w.head?.bind AesdBufferEntry.buffptr) ∧
      cb'.Queue (w.tail ++ [e]) := by
  have hf := h.full_iff.mpr hlen
  have hio := h.in_eq_out_of_full hf
  have hadv := advance_toNat h.out_lt
  have hhead : w.head? = cb.entry[cb.outOffs.toNat]? := by
    have hs := h.slots
    rw [hlen, ringWindow_succ_left] at hs
    rw [← hs, List.head?_cons, Vector.getElem?_eq_getElem h.out_lt]
    congr 1
    exact congrArg cb.entry.get (Fin.ext (Nat.mod_eq_of_lt h.out_lt) : Fin.ofNat _ _ = ⟨_, h.out_lt⟩)
  refine ⟨{ cb with
    entry := cb.entry.set cb.inOffs.toNat e h.in_lt
    inOffs := advance cb.inOffs
    outOffs := advance cb.outOffs }, ?_, ?_⟩
  · rw [hhead, Vector.getElem?_eq_getElem h.out_lt]
    simp [aesdCircularBufferAddEntry, hf, storeSlot_of_lt h.in_lt, h.out_lt]
  · have hset : ∀ hj, cb.entry.set cb.inOffs.toNat e h.in_lt =
        cb.entry.set (cb.outOffs.toNat % maxWriteOperationsSupported) e hj := by
      simp [hio, Nat.mod_eq_of_lt h.out_lt]
    have hl : (w.tail ++ [e]).length = 10 := by simp [hlen]
    refine ⟨?_, ?_, hl.le, ?_, ?_, fun i hi hlt => absurd hlt (by rw [hl] at hi; exact Nat.not_lt.mpr hi)⟩
    · exact hadv ▸ Nat.mod_lt _ (by decide)
    · simp only [hio, hl, Nat.add_mod_right]
      exact (Nat.mod_eq_of_lt (hadv ▸ Nat.mod_lt _ (by decide))).symm
    · simp [hf, hl]
    · simp only [hl, hadv]
      rw [ringWindow_mod, hset (Nat.mod_lt _ (by decide)), ringWindow_set_rotate _ _ 9 _ rfl]
      have hs := h.slots
      rw [hlen] at hs
      exact congrArg (fun l => l.tail ++ [e]) hs

/-- What an add does to the queue: the entry joins it, the oldest one leaves when
there were ten, and the pointer of the one that leaves is returned. -/
theorem add_entry_queue {cb : AesdCircularBuffer π σ} {w : List (AesdBufferEntry π σ)}
    (h : cb.Queue w) (e : AesdBufferEntry π σ) :
    ∃ cb', aesdCircularBufferAddEntry cb e =
        some (cb', ((w ++ [e]).rdrop maxWriteOperationsSupported).head?.bind AesdBufferEntry.buffptr) ∧
      cb'.Queue ((w ++ [e]).rtake maxWriteOperationsSupported) := by
  rcases h.length_le.lt_or_eq with hroom | hlen
  · obtain ⟨cb', hadd, hq⟩ := add_entry_with_room h e hroom
    have hle : (w ++ [e]).length ≤ maxWriteOperationsSupported := by
      rw [List.length_append, List.length_singleton]
      exact hroom
    refine ⟨cb', ?_, by rwa [rtake_of_length_le hle]⟩
    rw [hadd, List.rdrop, Nat.sub_eq_zero_of_le hle]
    rfl
  · obtain ⟨cb', hadd, hq⟩ := add_entry_when_full h e hlen
    refine ⟨cb', ?_, by rwa [rtake_append_of_length_eq (by decide) hlen]⟩
    rw [hadd]
    cases w with
    | nil => simp at hlen
    | cons a w =>
      have hw : w.length = 9 := Nat.succ.inj hlen
      simp [List.rdrop, hw, maxWriteOperationsSupported]

/-- What every sequence of adds leaves in the ring and has returned. -/
theorem add_runs_queue (es : List (AesdBufferEntry π σ)) :
    ∃ (cb : AesdCircularBuffer π σ) (rets : List (Option π)),
      (addRuns π σ).run aesdCircularBufferInit es = some (cb, rets) ∧
      cb.Queue (es.rtake maxWriteOperationsSupported) ∧
      rets = List.replicate (min es.length maxWriteOperationsSupported) none ++
        (es.rdrop maxWriteOperationsSupported).map AesdBufferEntry.buffptr := by
  induction es using List.reverseRecOn with
  | nil => exact ⟨aesdCircularBufferInit, [], rfl, queue_init, rfl⟩
  | append_singleton es e ih =>
    obtain ⟨cb, rets, hrun, hq, hrets⟩ := ih
    obtain ⟨cb', hadd, hq'⟩ := add_entry_queue hq e
    have hstep : (addRuns π σ).step cb e = _ := hadd
    refine ⟨cb', _, by rw [Machine.run_concat _ hrun, hstep]; rfl, ?_, ?_⟩
    · rwa [rtake_rtake_append] at hq'
    · rw [hrets, ← rdrop_append_rdrop_rtake es _ e, List.map_append, List.length_append,
        List.length_singleton, ← List.append_assoc]
      have hleft := length_rdrop (es.rtake maxWriteOperationsSupported ++ [e]) maxWriteOperationsSupported
      rw [List.length_append, length_rtake, List.length_singleton] at hleft
      by_cases hroom : es.length < maxWriteOperationsSupported
      · have hnone := List.eq_nil_of_length_eq_zero (hleft.trans (by omega))
        have hold := List.eq_nil_of_length_eq_zero
          ((length_rdrop es maxWriteOperationsSupported).trans (Nat.sub_eq_zero_of_le hroom.le))
        rw [hnone, hold, Nat.min_eq_left hroom.le, Nat.min_eq_left hroom, List.replicate_succ']
        simp
      · obtain ⟨a, ha⟩ := List.length_eq_one_iff.mp (hleft.trans (by omega))
        rw [ha, Nat.min_eq_right (Nat.le_of_not_lt hroom), Nat.min_eq_right (by omega)]
        rfl

/-- The circular buffer is a first-in first-out queue of capacity ten, for every
sequence of adds. The k-th add returns NULL while there is room, and from the
eleventh on the pointer of the entry added ten adds before it. -/
theorem circular_buffer_bounded_fifo (es : List (AesdBufferEntry π σ)) :
    ∃ (cb : AesdCircularBuffer π σ) (rets : List (Option π)),
      (addRuns π σ).run aesdCircularBufferInit es = some (cb, rets) ∧
      cb.window = es.rtake maxWriteOperationsSupported ∧
      cb.inOffs.toNat < maxWriteOperationsSupported ∧ cb.outOffs.toNat < maxWriteOperationsSupported ∧
      (cb.full = true ↔ maxWriteOperationsSupported ≤ es.length) ∧
      (cb.full = true → cb.inOffs = cb.outOffs) ∧
      (cb.full = false → ∀ s : Fin maxWriteOperationsSupported,
        (∀ i < cb.count, (cb.outOffs.toNat + i) % maxWriteOperationsSupported ≠ s.val) →
          (cb.entry.get s).size = 0) ∧
      rets = List.replicate (min es.length maxWriteOperationsSupported) none ++
        (es.rdrop maxWriteOperationsSupported).map AesdBufferEntry.buffptr := by
  obtain ⟨cb, rets, hrun, hq, hrets⟩ := add_runs_queue es
  refine ⟨cb, rets, hrun, hq.window_eq, hq.in_lt, hq.out_lt, ?_, hq.in_eq_out_of_full,
    fun _ s hs => congrArg AesdBufferEntry.size (hq.get_eq_zero s hs), hrets⟩
  rw [hq.full_iff, length_rtake]
  omega

section Scan
variable {cb : AesdCircularBuffer π Nat} {w : List (AesdBufferEntry π Nat)}

private theorem scanIdx_eq (i : Nat) : scanIdx cb i = Fin.ofNat _ (cb.outOffs.toNat + i) := by
  apply Fin.ext
  unfold scanIdx
  split
  · rfl
  · rename_i hlt
    exact (Nat.mod_eq_of_lt (Nat.lt_of_not_le hlt)).symm

private theorem findFrom_eq_locate (h : cb.Queue w) (hpos : ∀ e ∈ w, 0 < e.size) (todo i p : Nat)
    (hi : i + todo = maxWriteOperationsSupported) :
    findFrom cb todo i p = (locate ((w.drop i).map AesdBufferEntry.size) p).map
      fun q => (Fin.ofNat _ (cb.outOffs.toNat + (i + q.1)), q.2) := by
  have hlen := h.length_le
  induction todo generalizing i p with
  | zero =>
    rw [List.drop_eq_nil_of_le (by omega)]
    rfl
  | succ todo ih =>
    rw [findFrom, scanIdx_eq]
    by_cases hiw : i < w.length
    · have hslot : cb.entry.get (Fin.ofNat _ (cb.outOffs.toNat + i)) = w[i] := by
        have hs := h.slots
        rw [← getElem_ringWindow cb.entry _ w.length i (by rwa [length_ringWindow])]
        simp only [hs]
      have hsize := hpos w[i] (List.getElem_mem hiw)
      rw [List.drop_eq_getElem_cons hiw, List.map_cons, locate]
      simp only [hslot, hsize.ne', if_false]
      by_cases hp : p < w[i].size
      · rw [if_neg (by omega), if_pos hp]
        rfl
      · rw [if_pos (by omega), if_neg hp, ih (i + 1) _ (by omega), Option.map_map]
        congr 1
        funext q
        simp [Nat.add_comm q.1 1, Nat.add_assoc]
    · have hfree := h.free i (Nat.le_of_not_lt hiw) (by omega)
      simp only [hfree, if_true, List.drop_eq_nil_of_le (Nat.le_of_not_lt hiw)]
      rfl

/-- On non-empty entries the scan is the lookup in the concatenation of the queue. -/
theorem find_entry_eq_locate (h : cb.Queue w) (hpos : ∀ e ∈ w, 0 < e.size) (p : Nat) :
    aesdCircularBufferFindEntryOffsetForFpos cb p = (locate (w.map AesdBufferEntry.size) p).map
      fun q => (Fin.ofNat _ (cb.outOffs.toNat + q.1), q.2) := by
  have hscan := findFrom_eq_locate h hpos maxWriteOperationsSupported 0 p (Nat.zero_add _)
  rw [aesdCircularBufferFindEntryOffsetForFpos]
  simpa only [List.drop_zero, Nat.zero_add] using hscan

end Scan
end Aesd.Driver
