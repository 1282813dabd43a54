import Aesd.Driver.DeviceJournal

/-! Writes whose allocation fails. aesd_write puts what kmalloc or krealloc returns over
its only pointer to the pending bytes before it looks at it, so a failure costs whatever
is pending; with nothing pending it leaves no trace. -/
namespace Aesd.Driver
open Aesd.Foundations

def failedWrite (f : Nat) (buf : List Byte) (uncopied : Nat) : Op := .write f ⟨some buf, true, none, uncopied⟩

/-- The stored entries, the pending bytes and the pending size are those of before. -/
structure SameContent (k k' : Kernel) : Prop where
  ring : k'.aesdDevice.cbHandler = k.aesdDevice.cbHandler
  stored : k'.storedTexts = k.storedTexts
  pending : k'.pendingText = k.pendingText
  size : k'.aesdDevice.entryToInsertInCb.size = k.aesdDevice.entryToInsertInCb.size

/-- Every sequence of calls gets the same answers from here as from there. -/
def SameAnswers (s s' : Sys) : Prop :=
  ∀ ops, (driver.run s' ops).map Prod.snd = (driver.run s ops).map Prod.snd

/-- The call returns -ENOMEM and is not to be seen in the device, now or in any later call. -/
def ChangesNothing (s : Sys) (op : Op) : Prop :=
  ∃ s', driver.step s op = some (s', ⟨-ENOMEM, [], []⟩) ∧ SameContent s.kernel s'.kernel ∧ SameAnswers s s'

def Kernel.dropPending (k : Kernel) : Kernel :=
  ⟨⟨⟨none, k.aesdDevice.entryToInsertInCb.size⟩, k.aesdDevice.cbHandler⟩, k.heap⟩

section Failed
variable {s : Sys} {v : DeviceView}

theorem Kernel.dropPending_of_null {k : Kernel} (h : k.aesdDevice.entryToInsertInCb.buffptr = none) :
    k.dropPending = k := by
  obtain ⟨⟨⟨buffptr, size⟩, cb⟩, heap⟩ := k
  obtain rfl : buffptr = none := h
  rfl

/-- All that a failed write does is to set buffptr to NULL. -/
theorem step_failedWrite (hs : SysShows s v) (f : Nat) (buf : List Byte) (uncopied : Nat) :
    driver.step s (failedWrite f buf uncopied) = some (⟨s.kernel.dropPending, s.files⟩, ⟨-ENOMEM, [], []⟩) := by
  have ho := hs.opened f
  simp [driver, Sys.step, failedWrite, aesdWrite, ho, writeLocked, reserve_fails hs.kernel.pending,
    Kernel.dropPending]

/-- With a preserved size of zero a write does not look at buffptr. -/
theorem writeLocked_dropPending {k : Kernel} (h : k.aesdDevice.entryToInsertInCb.size = 0) (buf : List Byte)
    (alloc : Option Grant) (uncopied : Nat) :
    writeLocked buf alloc uncopied k.dropPending = writeLocked buf alloc uncopied k := by
  simp [writeLocked, reserve, Kernel.dropPending, h]

/-- A call after a failed write that found nothing pending ends as it would have without
it, or leaves the two states as they were to each other. -/
theorem step_dropPending (h : s.kernel.aesdDevice.entryToInsertInCb.size = 0) (op : Op) :
    driver.step ⟨s.kernel.dropPending, s.files⟩ op = driver.step s op ∨
      ∃ files r, driver.step s op = some (⟨s.kernel, files⟩, r) ∧
        driver.step ⟨s.kernel.dropPending, s.files⟩ op = some (⟨s.kernel.dropPending, files⟩, r) := by
  cases op with
  | read f call =>
    have hread : aesdRead (s.files f) call s.kernel.dropPending = aesdRead (s.files f) call s.kernel := rfl
    cases hr : aesdRead (s.files f) call s.kernel with
    | none => exact .inl (by simp [driver, Sys.step, hread, hr])
    | some q =>
      refine .inr ⟨Function.update s.files f q.1, q.2, ?_, ?_⟩
      · simp [driver, Sys.step, hr]
      · simp [driver, Sys.step, hread, hr]
  | write f call =>
    by_cases ho : (s.files f).privateData = false
    · exact .inl (by simp [driver, Sys.step, aesdWrite, ho])
    · cases hbuf : call.buf with
      | none =>
        refine .inr ⟨s.files, ⟨-EFAULT, [], []⟩, ?_, ?_⟩
        · simp [driver, Sys.step, aesdWrite, ho, hbuf]
        · simp [driver, Sys.step, aesdWrite, ho, hbuf]
      | some buf =>
        by_cases hlock : call.lock = false
        · refine .inr ⟨s.files, ⟨-ERESTARTSYS, [], []⟩, ?_, ?_⟩
          · simp [driver, Sys.step, aesdWrite, ho, hbuf, hlock]
          · simp [driver, Sys.step, aesdWrite, ho, hbuf, hlock]
        · refine .inl ?_
          simp [driver, Sys.step, aesdWrite, ho, hbuf, hlock, writeLocked_dropPending h]

theorem sameAnswers_of_empty (h : s.kernel.aesdDevice.entryToInsertInCb.size = 0) :
    SameAnswers s ⟨s.kernel.dropPending, s.files⟩ := by
  intro ops
  induction ops generalizing s with
  | nil => rfl
  | cons op ops ih =>
    rcases step_dropPending h op with heq | ⟨files, r, hstep, hstep'⟩
    · rw [Machine.run_cons, Machine.run_cons, heq]
    · have hrest := ih (s := ⟨s.kernel, files⟩) h
      rw [driver.run_cons_of_step hstep, driver.run_cons_of_step hstep', Option.map_map, Option.map_map]
      simpa [Option.map_map, Function.comp_def] using congrArg (Option.map (r :: ·)) hrest

theorem sameContent_dropPending {k : Kernel} (h : k.aesdDevice.entryToInsertInCb.size = 0) :
    SameContent k k.dropPending := by
  refine ⟨rfl, rfl, ?_, rfl⟩
  simp [Kernel.pendingText, Kernel.dropPending, h]

/-- Pending bytes that were there can no longer be read. -/
theorem pendingText_dropPending {k : Kernel} (h : k.aesdDevice.entryToInsertInCb.size ≠ 0) :
    k.dropPending.pendingText = none := by
  simp [Kernel.pendingText, Kernel.dropPending, peek, h]

end Failed

/-- A write whose allocation fails changes nothing exactly when no bytes are pending or
those that are have been lost before. -/
theorem failed_write_changes_nothing_iff (done : List Op) (f : Nat) (buf : List Byte) (uncopied : Nat) :
    ∃ s rs, driver.run Sys.loaded done = some (s, rs) ∧
      (ChangesNothing s (failedWrite f buf uncopied) ↔
        s.kernel.aesdDevice.entryToInsertInCb.size = 0 ∨ s.kernel.aesdDevice.entryToInsertInCb.buffptr = none) := by
  obtain ⟨s, rs, hrun, hs⟩ := run_shows done
  have hstep := step_failedWrite hs f buf uncopied
  refine ⟨s, rs, hrun, fun ⟨s', hstep', hsame, _⟩ => ?_, ?_⟩
  · obtain ⟨rfl, _⟩ := Prod.mk.inj (Option.some.inj (hstep.symm.trans hstep'))
    by_contra hcond
    obtain ⟨hsize, hptr⟩ := not_or.mp hcond
    have hpending := hs.kernel.pending
    have hnone := hsame.pending.symm.trans (pendingText_dropPending hsize)
    cases hv : (done.foldl DeviceView.next .loaded).pending with
    | empty held =>
      rw [hv] at hpending
      exact hsize hpending.1
    | text b =>
      rw [hv] at hpending
      rw [Kernel.pendingText, hpending.2.peek_text] at hnone
      exact absurd hnone (by simp)
    | lost n =>
      rw [hv] at hpending
      exact hptr hpending.2.2
  · rintro (hsize | hptr)
    · exact ⟨_, hstep, sameContent_dropPending hsize, sameAnswers_of_empty hsize⟩
    · rw [Kernel.dropPending_of_null hptr] at hstep
      exact ⟨s, hstep, ⟨rfl, rfl, rfl, rfl⟩, fun _ => rfl⟩

/-- "a" is pending when a krealloc fails; the "\n" that follows commits a byte of fresh
memory in its place. -/
theorem failed_krealloc_loses_pending :
    ∃ s rs, driver.run Sys.loaded [.write 0 ⟨some [97], true, some (.above 7), 0⟩] = some (s, rs) ∧
      ¬ChangesNothing s (failedWrite 0 [98] 0) := by
  let later : List Op := [.write 0 ⟨some [10], true, some (.above 7), 0⟩, .read 1 ⟨true, 100, true, fun _ => 0⟩]
  obtain ⟨s, rs, hrun, _⟩ := run_shows [.write 0 ⟨some [97], true, some (.above 7), 0⟩]
  refine ⟨s, rs, hrun, fun ⟨s', hstep, _, hsame⟩ => ?_⟩
  have hbefore : (driver.run Sys.loaded [.write 0 ⟨some [97], true, some (.above 7), 0⟩]).bind (fun p =>
      (driver.run p.1 later).map fun q => q.2.map Reply.data) = some [[], [97, 10]] := by decide
  have hafter : (driver.run Sys.loaded [.write 0 ⟨some [97], true, some (.above 7), 0⟩]).bind (fun p =>
      (driver.step p.1 (failedWrite 0 [98] 0)).bind fun p' =>
        (driver.run p'.1 later).map fun q => q.2.map Reply.data) = some [[], [7, 10]] := by decide
  rw [hrun, Option.bind_some] at hbefore hafter
  rw [hstep, Option.bind_some] at hafter
  have hdata := congrArg (Option.map fun rs : List Reply => rs.map Reply.data) (hsame later)
  rw [Option.map_map, Option.map_map] at hdata
  exact absurd (hafter.symm.trans (hdata.trans hbefore)) (by decide)

end Aesd.Driver
