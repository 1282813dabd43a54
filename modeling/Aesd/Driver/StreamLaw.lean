import Aesd.Driver.DeviceJournal
import Mathlib.Data.List.Pairwise

/-! Readers against the stream of committed bytes. A file position counts from the
oldest stored byte, so evictions move what it means; the absolute position it stands
for only grows. -/
namespace Aesd.Driver
open Aesd.Foundations

/-- A call that completes: the lock, the allocation and the user copy all succeed. -/
inductive FileOp where
  | read : Nat → Nat → FileOp
  | write : Nat → List Byte → Grant → FileOp

def FileOp.op : FileOp → Op
  | .read f n => .read f ⟨true, n, true, fun _ => 0⟩
  | .write f buf g => .write f ⟨some buf, true, some g, 0⟩

def evictedBytes (j : Journal Byte) : Nat := (j.committed.rdrop maxWriteOperationsSupported).flatten.length

theorem evictedBytes_accept_le (j : Journal Byte) (c : List Byte) :
    evictedBytes j ≤ evictedBytes (j.accept newline c) := by
  rw [evictedBytes, evictedBytes, Journal.rdrop_accept, List.flatten_append, List.length_append]
  exact Nat.le_add_right _ _

theorem committed_flatten (j : Journal Byte) :
    j.committed.flatten = (j.committed.rdrop maxWriteOperationsSupported).flatten ++
      (j.committed.rtake maxWriteOperationsSupported).flatten := by
  rw [← List.flatten_append, rdrop_append_rtake]

theorem drop_committed (j : Journal Byte) (p : Nat) :
    j.committed.flatten.drop (evictedBytes j + p) =
      (j.committed.rtake maxWriteOperationsSupported).flatten.drop p := by
  rw [committed_flatten j, evictedBytes, List.drop_append, Nat.add_sub_cancel_left,
    List.drop_eq_nil_of_le (Nat.le_add_right _ p), List.nil_append]

theorem leftAt_committed (j : Journal Byte) (p : Nat) :
    leftAt j.committed (evictedBytes j + p) = leftAt (j.committed.rtake maxWriteOperationsSupported) p := by
  conv_lhs => rw [← rdrop_append_rtake j.committed maxWriteOperationsSupported]
  exact leftAt_append _ _ p

section Read
variable {s : Sys} {j : Journal Byte}

/-- The bytes a complete read returns, by absolute position. -/
theorem step_read_mirrors (h : Mirrors s j) (f n : Nat) :
    let p := (s.files f).fPos
    let r := min n (leftAt j.committed (evictedBytes j + p))
    driver.step s (FileOp.read f n).op =
      some (⟨s.kernel, Function.update s.files f ⟨true, p + r⟩⟩,
        ⟨r, (j.committed.flatten.drop (evictedBytes j + p)).take r, []⟩) := by
  intro p r
  obtain ⟨v, hs, hst, _⟩ := h
  have ht : transferred v.stored p n (fun _ => 0) = r := by
    rw [transferred, show v.stored = _ from hst, ← leftAt_committed j p]
    simp [r]
  have hstep := step_read_shows hs f n fun _ => 0
  rw [ht, show v.stored = _ from hst, ← drop_committed j p] at hstep
  exact hstep

/-- Reading leaves the kernel and the journal as they are. -/
theorem read_mirrors (h : Mirrors s j) (f p : Nat) :
    Mirrors ⟨s.kernel, Function.update s.files f ⟨true, p⟩⟩ j := by
  obtain ⟨v, hs, hst, hp⟩ := h
  exact ⟨v, ⟨hs.kernel, update_opened hs f p⟩, hst, hp⟩

private theorem length_read (j : Journal Byte) (p n : Nat) :
    ((j.committed.flatten.drop (evictedBytes j + p)).take
      (min n (leftAt j.committed (evictedBytes j + p)))).length =
        min n (leftAt j.committed (evictedBytes j + p)) := length_take_drop_leftAt _ _ n

private theorem read_eq_zero_iff (j : Journal Byte) (p n : Nat) :
    min n (leftAt j.committed (evictedBytes j + p)) = 0 ↔
      n = 0 ∨ j.committed.flatten.length - evictedBytes j ≤ p := by
  have h := leftAt_eq_zero_iff j.committed (evictedBytes j + p)
  omega

end Read

/-- Positions and bytes of what one read delivers from an absolute position on. -/
def placed (a : Nat) (data : List Byte) : List (Nat × Byte) := data.mapIdx fun i b => (a + i, b)

/-- What one file has been delivered along a run, each byte with the absolute
position its reader stood at. -/
def deliveries (f : Nat) : Sys → Journal Byte → List FileOp → List (Nat × Byte)
  | _, _, [] => []
  | s, j, op :: ops =>
    match driver.step s op.op with
    | none => []
    | some (s', r) =>
      let rest := deliveries f s' (j.accept newline (chunk op.op)) ops
      match op with
      | .read g _ => if g = f then placed (evictedBytes j + (s.files f).fPos) r.data ++ rest else rest
      | .write .. => rest

section Deliveries
variable {a : Nat} {data : List Byte}

theorem mem_placed {d : Nat × Byte} (h : d ∈ placed a data) :
    a ≤ d.1 ∧ d.1 < a + data.length ∧ data[d.1 - a]? = some d.2 := by
  obtain ⟨i, hi, rfl⟩ := List.mem_mapIdx.mp h
  simp [hi]

/-- What a read places is the committed byte there, whatever is committed later. -/
theorem placed_committed {j : Journal Byte} {S : List Byte} (hpre : j.committed.flatten <+: S) {r : Nat}
    {d : Nat × Byte} (h : d ∈ placed a ((j.committed.flatten.drop a).take r)) : S[d.1]? = some d.2 := by
  obtain ⟨hle, hlt, hget⟩ := mem_placed h
  rw [List.length_take] at hlt
  rw [List.getElem?_take_of_lt (by omega), List.getElem?_drop, Nat.add_sub_cancel' hle] at hget
  obtain ⟨hi, hget⟩ := List.getElem?_eq_some_iff.mp hget
  rw [← hget]
  exact List.prefix_iff_getElem?.mp hpre d.1 hi

theorem placed_increasing (a : Nat) (data : List Byte) : ((placed a data).map Prod.fst).Pairwise (· < ·) := by
  rw [List.pairwise_map, List.pairwise_iff_getElem]
  intro i j _ _ hij
  simp [placed, hij]

end Deliveries

/-- From any state that mirrors the journal, the positions delivered to a file grow
strictly from the one it stands at, and each byte is the committed one there. -/
theorem deliveries_increase {s : Sys} {j : Journal Byte} (h : Mirrors s j) (hl : j.Lined newline) (f : Nat)
    (ops : List FileOp) :
    let S := ((ops.map FileOp.op).foldl (fun j op => j.accept newline (chunk op)) j).committed.flatten
    (∀ d ∈ deliveries f s j ops, evictedBytes j + (s.files f).fPos ≤ d.1 ∧ S[d.1]? = some d.2) ∧
      ((deliveries f s j ops).map Prod.fst).Pairwise (· < ·) ∧ j.committed.flatten <+: S := by
  induction ops generalizing s j with
  | nil => exact ⟨by simp [deliveries], by simp [deliveries], List.prefix_rfl⟩
  | cons op ops ih =>
    cases op with
    | write g buf grant =>
      obtain ⟨s', r, hstep, hm, _, _, hfiles⟩ := step_write_mirrors h g buf grant 0
      obtain ⟨hmem, hinc, hpre⟩ := ih hm (hl.accept _)
      have hd : deliveries f s j (.write g buf grant :: ops) =
          deliveries f s' (j.accept newline (accepted buf 0)) ops := by
        simp only [deliveries, FileOp.op, hstep]
        rfl
      obtain ⟨t, ht⟩ := Journal.committed_prefix_accept newline j (accepted buf 0)
      have hgrow : j.committed.flatten <+: (j.accept newline (accepted buf 0)).committed.flatten :=
        ⟨t.flatten, by rw [← ht, List.flatten_append]⟩
      rw [hd]
      refine ⟨fun d hdm => ⟨?_, (hmem d hdm).2⟩, hinc, hgrow.trans hpre⟩
      have := (hmem d hdm).1
      have := evictedBytes_accept_le j (accepted buf 0)
      rw [hfiles] at *
      omega
    | read g n =>
      have hstep := step_read_mirrors h g n
      simp only at hstep
      have hj : j.accept newline (chunk (FileOp.read g n).op) = j := Journal.accept_nil hl.pending
      obtain ⟨hmem, hinc, hpre⟩ := ih (read_mirrors h g
        ((s.files g).fPos + min n (leftAt j.committed (evictedBytes j + (s.files g).fPos)))) hl
      simp only [List.map_cons, List.foldl_cons, hj, deliveries, hstep]
      by_cases hg : g = f
      · subst hg
        rw [if_pos rfl]
        simp only [Function.update_self] at hmem
        have hlen := length_read j (s.files g).fPos n
        refine ⟨fun d hd => ?_, ?_, hpre⟩
        · rcases List.mem_append.mp hd with hd | hd
          · exact ⟨(mem_placed hd).1, placed_committed hpre hd⟩
          · exact ⟨by have := (hmem d hd).1; omega, (hmem d hd).2⟩
        · rw [List.map_append, List.pairwise_append]
          refine ⟨placed_increasing _ _, hinc, fun x hx y hy => ?_⟩
          obtain ⟨d, hd, rfl⟩ := List.mem_map.mp hx
          obtain ⟨d', hd', rfl⟩ := List.mem_map.mp hy
          have := (mem_placed hd).2.1
          have := (hmem d' hd').1
          omega
      · rw [if_neg hg]
        simp only [Function.update_of_ne (Ne.symm hg)] at hmem
        exact ⟨hmem, hinc, hpre⟩

/-- Complete calls keep the device a mirror of the journal. -/
theorem run_mirrors (ops : List FileOp) :
    ∃ s rs, driver.run Sys.loaded (ops.map FileOp.op) = some (s, rs) ∧
      Mirrors s (journal (ops.map FileOp.op)) := by
  obtain ⟨s, rs, hrun, ⟨hm, _⟩, _⟩ := driver.run_simulates
    (R := fun s j => Mirrors s j ∧ j.Lined newline) (P := fun _ i => ∃ op, i = FileOp.op op)
    (F := fun j op => j.accept newline (chunk op)) (A := fun _ _ => True)
    (fun s j i hR hi => by
      obtain ⟨op, rfl⟩ := hi
      have hl := hR.2.accept (chunk op.op)
      cases op with
      | read f n =>
        rw [show j.accept newline (chunk (FileOp.read f n).op) = j from Journal.accept_nil hR.2.pending] at *
        exact ⟨_, _, step_read_mirrors hR.1 f n, ⟨read_mirrors hR.1 f _, hl⟩, trivial⟩
      | write f buf grant =>
        obtain ⟨s', r, hstep, hm, _⟩ := step_write_mirrors hR.1 f buf grant 0
        exact ⟨s', r, hstep, ⟨hm, hl⟩, trivial⟩)
    ⟨mirrors_loaded, Journal.lined_empty newline⟩
    (driver.along_of_forall (fun i hi _ => (List.mem_map.mp hi).imp fun _ h => h.2.symm) Sys.loaded)
  exact ⟨s, rs, hrun, hm⟩

/-- The stream law: after any interleaving of complete calls on any files, a read at
position p returns the committed bytes from the absolute position D + p on, to the end
of their entry at most; and no file is ever handed a position twice or out of order. -/
theorem read_stream_law (ops : List FileOp) :
    let j := journal (ops.map FileOp.op)
    let S := j.committed.flatten
    let D := evictedBytes j
    ∃ s rs, driver.run Sys.loaded (ops.map FileOp.op) = some (s, rs) ∧
      s.kernel.storedTexts = some (j.committed.rtake maxWriteOperationsSupported) ∧
      (∀ f n, let p := (s.files f).fPos
        let r := min n (leftAt j.committed (D + p))
        driver.step s (FileOp.read f n).op =
            some (⟨s.kernel, Function.update s.files f ⟨true, p + r⟩⟩, ⟨r, (S.drop (D + p)).take r, []⟩) ∧
          ((S.drop (D + p)).take r).length = r ∧ (r = 0 ↔ n = 0 ∨ S.length - D ≤ p)) ∧
      ∀ f, ((deliveries f Sys.loaded .empty ops).map Prod.fst).Pairwise (· < ·) ∧
        ∀ d ∈ deliveries f Sys.loaded .empty ops, S[d.1]? = some d.2 := by
  intro j S D
  obtain ⟨s, rs, hrun, hm⟩ := run_mirrors ops
  refine ⟨s, rs, hrun, hm.storedTexts_eq, fun f n => ?_, fun f => ?_⟩
  · exact ⟨step_read_mirrors hm f n, length_read j _ n, read_eq_zero_iff j _ n⟩
  · obtain ⟨hmem, hinc, _⟩ := deliveries_increase mirrors_loaded (Journal.lined_empty newline) f ops
    exact ⟨hinc, fun d hd => (hmem d hd).2⟩

end Aesd.Driver
