import Aesd.Driver.RingQueue

/-! The lookup by offset at the word size of the driver. Sizes and offsets are size_t
of 64 bits, and no sum of sizes is ever formed, so the scan is the one over unbounded
numbers even where the stored bytes exceed every word. -/
namespace Aesd.Driver
open Aesd.Foundations
variable {π : Type}

def AesdBufferEntry.widen (e : AesdBufferEntry π UInt64) : AesdBufferEntry π Nat := ⟨e.buffptr, e.size.toNat⟩

def AesdCircularBuffer.widen (cb : AesdCircularBuffer π UInt64) : AesdCircularBuffer π Nat :=
  ⟨cb.entry.map AesdBufferEntry.widen, cb.inOffs, cb.outOffs, cb.full⟩

/-- Minuend and subtrahend of every subtraction of the scan, from iteration i on. -/
def scanSubtractions (buffer : AesdCircularBuffer π UInt64) : Nat → Nat → UInt64 → List (UInt64 × UInt64)
  | 0, _, _ => []
  | todo + 1, i, charOffset =>
    let slot := buffer.entry.get (scanIdx buffer i)
    if slot.size = 0 then []
    else if charOffset > slot.size - 1 then
      (slot.size, 1) :: (charOffset, slot.size) :: scanSubtractions buffer todo (i + 1) (charOffset - slot.size)
    else [(slot.size, 1)]

def recordSub (a b : UInt64) : StateM (List (UInt64 × UInt64)) UInt64 :=
  fun log => (a - b, log ++ [(a, b)])

/-- The scan loop, with each subtraction written down as it is made. -/
def findFromRecorded (buffer : AesdCircularBuffer π UInt64) :
    Nat → Nat → UInt64 → StateM (List (UInt64 × UInt64)) (Option (Fin maxWriteOperationsSupported × UInt64))
  | 0, _, _ => pure none
  | todo + 1, i, charOffset =>
    let slot := buffer.entry.get (scanIdx buffer i)
    if slot.size = 0 then pure none
    else do
      let last ← recordSub slot.size 1
      if charOffset > last then
        let left ← recordSub charOffset slot.size
        findFromRecorded buffer todo (i + 1) left
      else pure (some (scanIdx buffer i, charOffset))

private theorem recordSub_run_bind {α : Type} (a b : UInt64) (f : UInt64 → StateM (List (UInt64 × UInt64)) α)
    (log : List (UInt64 × UInt64)) : (recordSub a b >>= f).run log = (f (a - b)).run (log ++ [(a, b)]) :=
  rfl

/-- It finds what the scan finds, and writes down its subtractions in their order. -/
theorem findFromRecorded_run (buffer : AesdCircularBuffer π UInt64) (todo i : Nat) (charOffset : UInt64)
    (log : List (UInt64 × UInt64)) :
    (findFromRecorded buffer todo i charOffset).run log =
      (findFrom buffer todo i charOffset, log ++ scanSubtractions buffer todo i charOffset) := by
  induction todo generalizing i charOffset log with
  | zero =>
    rw [scanSubtractions, List.append_nil]
    rfl
  | succ todo ih =>
    simp only [findFromRecorded, findFrom, scanSubtractions]
    by_cases hz : (buffer.entry.get (scanIdx buffer i)).size = 0
    · simp only [hz, if_true, List.append_nil]
      rfl
    · simp only [hz, if_false]
      rw [recordSub_run_bind]
      by_cases hpast : charOffset > (buffer.entry.get (scanIdx buffer i)).size - 1
      · simp only [hpast, if_true]
        rw [recordSub_run_bind, ih]
        simp only [List.append_assoc, List.cons_append, List.nil_append]
      · simp only [hpast, if_false]
        rfl

section Widen
variable {cb : AesdCircularBuffer π UInt64} {w : List (AesdBufferEntry π UInt64)}

theorem get_widen (cb : AesdCircularBuffer π UInt64) (s : Fin maxWriteOperationsSupported) :
    cb.widen.entry.get s = (cb.entry.get s).widen := by
  change (cb.entry.map AesdBufferEntry.widen)[s.val] = _
  rw [Vector.getElem_map]
  rfl

theorem AesdCircularBuffer.Queue.widen (h : cb.Queue w) : cb.widen.Queue (w.map AesdBufferEntry.widen) where
  out_lt := h.out_lt
  in_eq := by
    rw [List.length_map]
    exact h.in_eq
  length_le := by
    rw [List.length_map]
    exact h.length_le
  full_iff := by
    rw [List.length_map]
    exact h.full_iff
  slots := by
    rw [List.length_map]
    conv_rhs => rw [← h.slots, ringWindow, List.map_map]
    exact List.map_congr_left fun i _ => get_widen cb _
  free i hi hlt := by
    rw [List.length_map] at hi
    rw [get_widen]
    exact congrArg AesdBufferEntry.widen (h.free i hi hlt)

private theorem size_ne_zero_iff (n : UInt64) : n = 0 ↔ n.toNat = 0 := by
  rw [← UInt64.toNat_inj]
  rfl

private theorem one_le {n : UInt64} (h : n ≠ 0) : 1 ≤ n := by
  rw [UInt64.le_iff_toNat_le]
  exact Nat.pos_of_ne_zero fun hz => h ((size_ne_zero_iff n).mpr hz)

private theorem past_iff {p n : UInt64} (h : n ≠ 0) : p > n - 1 ↔ n ≤ p := by
  have hle := one_le h
  rw [gt_iff_lt, UInt64.lt_iff_toNat_lt, UInt64.toNat_sub_of_le _ _ hle, UInt64.le_iff_toNat_le]
  rw [UInt64.le_iff_toNat_le] at hle
  have hone : (1 : UInt64).toNat = 1 := rfl
  omega

/-- The scan over words finds what the scan over unbounded numbers does. -/
theorem findFrom_widen (cb : AesdCircularBuffer π UInt64) (todo i : Nat) (p : UInt64) :
    (findFrom cb todo i p).map (fun q => (q.1, q.2.toNat)) = findFrom cb.widen todo i p.toNat := by
  induction todo generalizing i p with
  | zero => rfl
  | succ todo ih =>
    have hidx : scanIdx cb.widen i = scanIdx cb i := rfl
    simp only [findFrom, hidx, get_widen, AesdBufferEntry.widen]
    by_cases hz : (cb.entry.get (scanIdx cb i)).size = 0
    · rw [if_pos hz, if_pos ((size_ne_zero_iff _).mp hz), Option.map_none]
    · rw [if_neg hz, if_neg (mt (size_ne_zero_iff _).mpr hz)]
      by_cases hp : (cb.entry.get (scanIdx cb i)).size ≤ p
      · have hsub := UInt64.toNat_sub_of_le p _ hp
        have hpast := (past_iff hz).mpr hp
        rw [UInt64.le_iff_toNat_le] at hp
        have hpos := Nat.pos_of_ne_zero (mt (size_ne_zero_iff _).mpr hz)
        rw [if_pos hpast, if_pos (by omega), ih, hsub]
      · have hbefore := mt (past_iff hz).mp hp
        rw [UInt64.le_iff_toNat_le] at hp
        rw [if_neg hbefore, if_neg (by omega), Option.map_some]

/-- No subtraction of the scan wraps, whatever the ring contains. -/
theorem scanSubtractions_le (cb : AesdCircularBuffer π UInt64) (todo i : Nat) (p : UInt64) :
    ∀ q ∈ scanSubtractions cb todo i p, q.2 ≤ q.1 := by
  induction todo generalizing i p with
  | zero => simp [scanSubtractions]
  | succ todo ih =>
    rw [scanSubtractions]
    by_cases hz : (cb.entry.get (scanIdx cb i)).size = 0
    · simp [hz]
    · simp only [hz, if_false]
      split
      · rename_i hpast
        intro q hq
        rcases List.mem_cons.mp hq with rfl | hq
        · exact one_le hz
        rcases List.mem_cons.mp hq with rfl | hq
        · exact (past_iff hz).mp hpast
        · exact ih _ _ q hq
      · intro q hq
        rw [List.mem_singleton.mp hq]
        exact one_le hz

end Widen

section Slots
variable {cb : AesdCircularBuffer π UInt64} {w : List (AesdBufferEntry π UInt64)}

def AesdCircularBuffer.slotOf (cb : AesdCircularBuffer π UInt64) (k : Nat) : Fin maxWriteOperationsSupported :=
  ⟨(cb.outOffs.toNat + k) % maxWriteOperationsSupported, Nat.mod_lt _ (by decide)⟩

private theorem slotOf_inj {k l : Nat} (hk : k < maxWriteOperationsSupported)
    (hl : l < maxWriteOperationsSupported) (h : cb.slotOf k = cb.slotOf l) : k = l := by
  have he : (cb.outOffs.toNat + k) % maxWriteOperationsSupported =
      (cb.outOffs.toNat + l) % maxWriteOperationsSupported := congrArg Fin.val h
  rcases Nat.lt_trichotomy k l with hlt | heq | hlt
  · exact absurd he (add_mod_ne hlt (by omega))
  · exact heq
  · exact absurd he.symm (add_mod_ne hlt (by omega))

/-- On a queue of non-empty entries the lookup is that in the concatenation. -/
theorem find_entry_words (h : cb.Queue w) (hpos : ∀ e ∈ w, e.size ≠ 0) (p : UInt64) :
    (aesdCircularBufferFindEntryOffsetForFpos cb p).map (fun q => (q.1, q.2.toNat)) =
      (locate (w.map fun e => e.size.toNat) p.toNat).map fun q => (cb.slotOf q.1, q.2) := by
  have hwide : ∀ e ∈ w.map AesdBufferEntry.widen, 0 < e.size := by
    intro e he
    obtain ⟨x, hx, rfl⟩ := List.mem_map.mp he
    exact Nat.pos_of_ne_zero (mt (size_ne_zero_iff x.size).mpr (hpos x hx))
  have hfind := find_entry_eq_locate h.widen hwide p.toNat
  rw [List.map_map] at hfind
  exact (findFrom_widen cb _ 0 p).trans hfind

private theorem find_entry_eq_some_iff (h : cb.Queue w) (hpos : ∀ e ∈ w, e.size ≠ 0) (p o : UInt64) {k : Nat}
    (hk : k < w.length) : aesdCircularBufferFindEntryOffsetForFpos cb p = some (cb.slotOf k, o) ↔
      locate (w.map fun e => e.size.toNat) p.toNat = some (k, o.toNat) := by
  have hfind := find_entry_words h hpos p
  have hlen := h.length_le
  constructor
  · intro hs
    rw [hs, Option.map_some] at hfind
    obtain ⟨⟨l, m⟩, hl, he⟩ := Option.map_eq_some_iff.mp hfind.symm
    obtain ⟨hslot, rfl⟩ := Prod.mk.inj he
    obtain ⟨n, hn, _⟩ := locate_eq_some_iff.mp hl
    have hlt := (List.getElem?_eq_some_iff.mp hn).1
    rw [List.length_map] at hlt
    have hkl : l = k := slotOf_inj (by omega) (by omega) hslot
    exact hkl ▸ hl
  · intro hl
    rw [hl, Option.map_some] at hfind
    obtain ⟨⟨s, m⟩, hs, he⟩ := Option.map_eq_some_iff.mp hfind
    obtain ⟨rfl, hm⟩ := Prod.mk.inj he
    obtain rfl : m = o := UInt64.toNat_inj.mp hm
    exact hs

end Slots

/-- Lookup by offset is position in the concatenation, for every ring that adds of
non-empty entries reach and every offset: the scan answers with the k-th oldest entry
and an offset inside it exactly where the sizes of the older ones and that offset add
up to the position, with nothing exactly past the end, and it never wraps. -/
theorem find_entry_offset_for_fpos_correct (es : List (AesdBufferEntry π UInt64))
    (hpos : ∀ e ∈ es, e.size ≠ 0) (charOffset : UInt64) :
    ∃ (cb : AesdCircularBuffer π UInt64) (rets : List (Option π)),
      (addRuns π UInt64).run aesdCircularBufferInit es = some (cb, rets) ∧
      cb.window = es.rtake maxWriteOperationsSupported ∧
      (∀ k < cb.window.length, ∀ o : UInt64,
        aesdCircularBufferFindEntryOffsetForFpos cb charOffset = some (cb.slotOf k, o) ↔
          ∃ e, cb.window[k]? = some e ∧ o.toNat < e.size.toNat ∧
            charOffset.toNat = ((cb.window.take k).map fun e => e.size.toNat).sum + o.toNat) ∧
      (aesdCircularBufferFindEntryOffsetForFpos cb charOffset = none ↔
        (cb.window.map fun e => e.size.toNat).sum ≤ charOffset.toNat) ∧
      (findFromRecorded cb maxWriteOperationsSupported 0 charOffset).run [] =
        (aesdCircularBufferFindEntryOffsetForFpos cb charOffset,
          scanSubtractions cb maxWriteOperationsSupported 0 charOffset) ∧
      ∀ q ∈ scanSubtractions cb maxWriteOperationsSupported 0 charOffset, q.2 ≤ q.1 := by
  obtain ⟨cb, rets, hrun, hq, _⟩ := add_runs_queue es
  have hne : ∀ e ∈ cb.window, e.size ≠ 0 := by
    rw [hq.window_eq]
    exact fun e he => hpos e ((rtake_suffix _ _).subset he)
  have hwindow := hq.window_eq
  rw [← hwindow] at hq
  refine ⟨cb, rets, hrun, hwindow, fun k hk o => ?_, ?_, findFromRecorded_run cb _ 0 charOffset [],
    scanSubtractions_le cb _ 0 charOffset⟩
  · rw [find_entry_eq_some_iff hq hne charOffset o hk, locate_eq_some_iff]
    constructor
    · rintro ⟨n, hn, ho, hsum⟩
      rw [List.getElem?_map] at hn
      obtain ⟨e, he, rfl⟩ := Option.map_eq_some_iff.mp hn
      exact ⟨e, he, ho, by rw [List.map_take]; exact hsum⟩
    · rintro ⟨e, he, ho, hsum⟩
      rw [List.map_take] at hsum
      exact ⟨e.size.toNat, by rw [List.getElem?_map, he, Option.map_some], ho, hsum⟩
  · rw [← locate_eq_none_iff_sum, ← Option.map_eq_none_iff, find_entry_words hq hne, Option.map_eq_none_iff]

/-- Two entries whose sizes add up to more than a word: the second starts where the
first, of the largest size, ends. -/
theorem find_entry_offset_beyond_word :
    ∃ (cb : AesdCircularBuffer Unit UInt64) (rets : List (Option Unit)),
      (addRuns Unit UInt64).run aesdCircularBufferInit [⟨some (), 18446744073709551615⟩, ⟨some (), 9⟩] =
        some (cb, rets) ∧
      aesdCircularBufferFindEntryOffsetForFpos cb 18446744073709551615 = some (cb.slotOf 1, 0) := by
  obtain ⟨cb, rets, hrun, hwindow, hfind, _⟩ := find_entry_offset_for_fpos_correct
    [⟨some (), 18446744073709551615⟩, ⟨some (), 9⟩] (by decide) 18446744073709551615
  rw [hwindow] at hfind
  exact ⟨cb, rets, hrun, (hfind 1 (by decide) 0).mpr ⟨⟨some (), 9⟩, by decide, by decide, by decide⟩⟩

end Aesd.Driver
