import Aesd.Driver.FailedWrites

/-! Faults in user memory. read and write return how many bytes the user copy has
transferred, so a copy that transfers none is answered as the end of file and as a write
of nothing. -/
namespace Aesd.Driver
open Aesd.Foundations

/-- A read of some bytes before the end of the content, or a write of some bytes whose
allocation succeeds. -/
def Op.Transfer (texts : List (List Byte)) (files : Nat → File) : Op → Prop
  | .read f call => 0 < call.count ∧ (files f).fPos < texts.flatten.length
  | .write _ call => call.buf ≠ some [] ∧ call.alloc.isSome = true

/-- How many bytes the call asks its user copy for; a call that is refused asks for none. -/
def Op.asked (texts : List (List Byte)) (files : Nat → File) : Op → Nat
  | .read f ⟨true, count, true, _⟩ => min count (leftAt texts (files f).fPos)
  | .write _ ⟨some buf, true, some _, _⟩ => buf.length
  | _ => 0

def Op.uncopied (n : Nat) : Op → Nat
  | .read _ call => call.uncopied n
  | .write _ call => call.uncopied

def Op.copied (texts : List (List Byte)) (files : Nat → File) (op : Op) : Nat :=
  op.asked texts files - min (op.uncopied (op.asked texts files)) (op.asked texts files)

/-- The call returns the number of bytes transferred, or else an error, with the positions,
the stored entries and the pending bytes as they were. -/
def ReportsFault (s : Sys) (op : Op) (copied : Nat) : Prop :=
  ∃ s' r, driver.step s op = some (s', r) ∧ (0 < copied → r.ret = copied) ∧
    (copied = 0 → r.ret < 0 ∧ (∀ f, (s'.files f).fPos = (s.files f).fPos) ∧ SameContent s.kernel s'.kernel)

section Fault
variable {s : Sys} {v : DeviceView}

theorem refusal_neg {op : Op} {e : Int} (he : op.refusal = some e) : e < 0 := by
  match op with
  | .read _ ⟨false, _, _, _⟩ | .write _ ⟨none, _, _, _⟩ =>
    obtain rfl := Option.some.inj he
    decide
  | .read _ ⟨true, _, false, _⟩ | .write _ ⟨some _, false, _, _⟩ =>
    obtain rfl := Option.some.inj he
    decide
  | .read _ ⟨true, _, true, _⟩ | .write _ ⟨some _, true, _, _⟩ => exact absurd he (by simp [Op.refusal])

theorem asked_of_refusal (texts : List (List Byte)) (files : Nat → File) {op : Op} {e : Int}
    (he : op.refusal = some e) : op.asked texts files = 0 := by
  match op with
  | .read _ ⟨false, _, _, _⟩ | .write _ ⟨none, _, _, _⟩ => rfl
  | .read _ ⟨true, _, false, _⟩ | .write _ ⟨some _, false, _, _⟩ => rfl
  | .read _ ⟨true, _, true, _⟩ | .write _ ⟨some _, true, _, _⟩ => exact absurd he (by simp [Op.refusal])

/-- A transfer that is not refused asks for something and returns what it has copied. -/
theorem step_transfer (hs : SysShows s v) {op : Op} (hop : op.Transfer v.stored s.files) (he : op.refusal = none) :
    0 < op.asked v.stored s.files ∧
      ∃ s' r, driver.step s op = some (s', r) ∧ r.ret = op.copied v.stored s.files := by
  rcases op.cases_refusal with ⟨e, he'⟩ | ⟨f, count, uncopied, rfl⟩ | ⟨f, buf, alloc, uncopied, rfl⟩
  · exact absurd (he.symm.trans he') (by simp)
  · obtain ⟨hcount, hpos⟩ := hop
    have hleft := leftAt_eq_zero_iff v.stored (s.files f).fPos
    refine ⟨?_, _, _, step_read_shows hs f count uncopied, rfl⟩
    simp only [Op.asked] at hcount ⊢
    omega
  · obtain ⟨hbuf, halloc⟩ := hop
    obtain ⟨g, rfl⟩ := Option.isSome_iff_exists.mp halloc
    obtain ⟨k', r, hstep, _, hret, _⟩ := step_write_shows hs f buf (some g) uncopied
    refine ⟨List.length_pos_of_ne_nil fun hnil => hbuf (congrArg some hnil), _, r, hstep, ?_⟩
    rw [hret]
    simp [writeRet, Op.copied, Op.asked, Op.uncopied]

/-- A refused call is answered as it should be. -/
theorem reportsFault_of_refusal (hs : SysShows s v) {op : Op} {e : Int} (he : op.refusal = some e) :
    ReportsFault s op (op.copied v.stored s.files) := by
  refine ⟨s, _, step_refused_shows hs he, fun hpos => ?_, fun _ => ?_⟩
  · rw [Op.copied, asked_of_refusal _ _ he, Nat.zero_sub] at hpos
    exact absurd hpos (Nat.lt_irrefl 0)
  · exact ⟨refusal_neg he, fun _ => rfl, ⟨rfl, rfl, rfl, rfl⟩⟩

/-- A call that is not refused reports the fault exactly if it has transferred something. -/
theorem reportsFault_iff (hs : SysShows s v) {op : Op} (hop : op.Transfer v.stored s.files)
    (he : op.refusal = none) : ReportsFault s op (op.copied v.stored s.files) ↔
      op.uncopied (op.asked v.stored s.files) < op.asked v.stored s.files := by
  obtain ⟨hasked, s', r, hstep, hret⟩ := step_transfer hs hop he
  have hcopied : 0 < op.copied v.stored s.files ↔
      op.uncopied (op.asked v.stored s.files) < op.asked v.stored s.files := by
    simp only [Op.copied]
    omega
  rw [← hcopied]
  constructor
  · rintro ⟨s₁, r₁, hstep₁, _, hnone⟩
    obtain ⟨rfl, rfl⟩ := Prod.mk.inj (Option.some.inj (hstep.symm.trans hstep₁))
    by_contra hzero
    obtain ⟨hneg, _⟩ := hnone (by omega)
    omega
  · intro hpos
    exact ⟨s', r, hstep, fun _ => hret, fun hzero => absurd hpos (by omega)⟩

end Fault

/-- In every reachable state a transfer reports what it should exactly when it is refused
before the user copy or the copy transfers at least one byte. -/
theorem user_fault_reported_iff (done : List Op) (op : Op) :
    ∃ s rs texts, driver.run Sys.loaded done = some (s, rs) ∧ s.kernel.storedTexts = some texts ∧
      ((op.Transfer texts s.files → ReportsFault s op (op.copied texts s.files)) ↔
        (op.Transfer texts s.files → op.refusal.isSome = true ∨
          op.uncopied (op.asked texts s.files) < op.asked texts s.files)) := by
  obtain ⟨s, rs, hrun, hs⟩ := run_shows done
  refine ⟨s, rs, _, hrun, hs.kernel.storedTexts_eq, forall_congr' fun hop => ?_⟩
  cases he : op.refusal with
  | some e => exact iff_of_true (reportsFault_of_refusal hs he) (.inl rfl)
  | none => simp [reportsFault_iff hs hop he]

/-- "a\n" is stored, and a read of it whose copy_to_user leaves everything returns 0. -/
theorem fault_reported_as_end_of_file :
    ∃ s rs texts, driver.run Sys.loaded [.write 0 ⟨some [97, 10], true, some (.above 7), 0⟩] = some (s, rs) ∧
      s.kernel.storedTexts = some texts ∧
      ¬((Op.read 1 ⟨true, 2, true, id⟩).Transfer texts s.files →
        ReportsFault s (.read 1 ⟨true, 2, true, id⟩) ((Op.read 1 ⟨true, 2, true, id⟩).copied texts s.files)) := by
  obtain ⟨s, rs, hrun, hs⟩ := run_shows [.write 0 ⟨some [97, 10], true, some (.above 7), 0⟩]
  refine ⟨s, rs, _, hrun, hs.kernel.storedTexts_eq, fun hreports => ?_⟩
  have hfiles : s.files = Sys.loaded.files := by
    obtain ⟨s₁, os₁, o, hnil, hstep, _⟩ := driver.run_concat_eq_some
      (show driver.run Sys.loaded ([] ++ [_]) = _ from hrun)
    obtain ⟨rfl, _⟩ := Prod.mk.inj (Option.some.inj hnil)
    obtain ⟨_, _, hwrite, _⟩ := step_write_shows sysShows_loaded 0 [97, 10] (some (.above 7)) 0
    obtain ⟨rfl, _⟩ := Prod.mk.inj (Option.some.inj (hwrite.symm.trans hstep))
    rfl
  have hop : (Op.read 1 ⟨true, 2, true, id⟩).Transfer [[97, 10]] s.files := by
    rw [hfiles]
    exact ⟨by decide, by decide⟩
  have hlt := (reportsFault_iff hs hop rfl).mp (hreports hop)
  rw [hfiles] at hlt
  exact absurd hlt (by decide)

end Aesd.Driver
