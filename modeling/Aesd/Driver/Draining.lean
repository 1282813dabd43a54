import Mathlib.Algebra.Ring.Int.Defs
import Aesd.Driver.DeviceJournal

/-! Reading a device that nobody writes to. Each read serves one entry at most and may
stop short, and the next goes on from where it stopped, so the reads of one file hand
over the content without a gap, and all of it as long as each makes progress. -/
namespace Aesd.Driver
open Aesd.Foundations

/-- A read that gets the lock with a buffer: the count, and what copy_to_user leaves of n bytes. -/
structure DeviceRead where
  count : Nat
  uncopied : Nat → Nat

namespace DeviceRead

def op (f : Nat) (c : DeviceRead) : Op := .read f ⟨true, c.count, true, c.uncopied⟩

/-- It asks for something, and copies something whenever there is something to copy. -/
def Eager (c : DeviceRead) : Prop := 0 < c.count ∧ ∀ n, 0 < n → c.uncopied n < n

end DeviceRead

def Sys.seek (s : Sys) (f p : Nat) : Sys := ⟨s.kernel, Function.update s.files f ⟨true, p⟩⟩

section Reads
variable {s : Sys} {v : DeviceView}

theorem seek_shows (hs : SysShows s v) (f p : Nat) : SysShows (s.seek f p) v :=
  ⟨hs.kernel, update_opened hs f p⟩

@[simp] theorem seek_fPos (s : Sys) (f p : Nat) : ((s.seek f p).files f).fPos = p := by
  simp only [Sys.seek, Function.update_self]

theorem seek_seek (s : Sys) (f p q : Nat) : (s.seek f p).seek f q = s.seek f q := by
  simp only [Sys.seek, Function.update_idem]

/-- A read hands over what is transferred and moves its own file past it. -/
theorem step_read_seek (hs : SysShows s v) (f p : Nat) (c : DeviceRead) :
    let n := transferred v.stored p c.count c.uncopied
    driver.step (s.seek f p) (c.op f) =
      some (s.seek f (p + n), ⟨n, (v.stored.flatten.drop p).take n, []⟩) := by
  intro n
  have hstep := step_read_shows (seek_shows hs f p) f c.count c.uncopied
  rw [seek_fPos] at hstep
  rw [DeviceRead.op, hstep, ← seek_seek s f p (p + n)]
  rfl

private theorem transferred_within (stored : List (List Byte)) {p : Nat} (hp : p ≤ stored.flatten.length)
    (c : DeviceRead) : transferred stored p c.count c.uncopied ≤ leftAt stored p ∧
      p + transferred stored p c.count c.uncopied ≤ stored.flatten.length := by
  have hle := transferred_le stored p c.count c.uncopied
  have hleft := add_leftAt_le stored p hp
  omega

private theorem length_handed {stored : List (List Byte)} {p n : Nat} (h : p + n ≤ stored.flatten.length) :
    ((stored.flatten.drop p).take n).length = n := by
  rw [List.length_take, List.length_drop]
  omega

/-- Reads one after the other hand over the content from the position on, in order. -/
theorem run_reads_shows (hs : SysShows s v) (f : Nat) {p : Nat} (hp : p ≤ v.stored.flatten.length)
    (cs : List DeviceRead) :
    ∃ (rs : List Reply) (n : Nat),
      driver.run (s.seek f p) (cs.map (DeviceRead.op f)) = some (s.seek f (p + n), rs) ∧
      (rs.map Reply.ret).sum = n ∧ p + n ≤ v.stored.flatten.length ∧
      (rs.map Reply.data).flatten = (v.stored.flatten.drop p).take n ∧
      ∀ i r, rs[i]? = some r → r.ret = r.data.length ∧
        r.data.length ≤ leftAt v.stored (p + ((rs.take i).map fun r => r.data.length).sum) := by
  induction cs generalizing p with
  | nil => exact ⟨[], 0, rfl, rfl, hp, by simp, by simp⟩
  | cons c cs ih =>
    have hstep := step_read_seek hs f p c
    obtain ⟨hentry, hwithin⟩ := transferred_within v.stored hp c
    simp only at hstep
    generalize transferred v.stored p c.count c.uncopied = k at hstep hentry hwithin
    have hlen := length_handed hwithin
    obtain ⟨rs, n, hrun, hsum, hle, hdata, hall⟩ := ih hwithin
    refine ⟨⟨k, (v.stored.flatten.drop p).take k, []⟩ :: rs, k + n, ?_, ?_, by omega, ?_, ?_⟩
    · rw [List.map_cons, driver.run_cons_of_step hstep, hrun, Nat.add_assoc]
      rfl
    · rw [List.map_cons, List.sum_cons, hsum, Int.natCast_add]
    · rw [List.map_cons, List.flatten_cons, hdata, List.take_add, List.drop_drop]
    · intro i r hi
      cases i with
      | zero =>
        obtain rfl := Option.some.inj hi
        simp only [hlen, List.take_zero, List.map_nil, List.sum_nil, Nat.add_zero, true_and]
        exact hentry
      | succ i =>
        have hrest := hall i r hi
        rw [List.take_succ_cons, List.map_cons, List.sum_cons, hlen, ← Nat.add_assoc]
        exact hrest

/-- Eager reads reach the end: until everything is handed over none returns 0, and the
next one does. -/
theorem run_reads_drain (hs : SysShows s v) (f : Nat) {p : Nat} (hp : p ≤ v.stored.flatten.length)
    (calls : Nat → DeviceRead) (heager : ∀ i, (calls i).Eager) :
    ∃ (N : Nat) (rs : List Reply),
      driver.run (s.seek f p) ((List.range N).map fun i => (calls i).op f) =
        some (s.seek f v.stored.flatten.length, rs) ∧
      (rs.map Reply.data).flatten = v.stored.flatten.drop p ∧ (∀ r ∈ rs, 0 < r.ret) ∧
      driver.step (s.seek f v.stored.flatten.length) ((calls N).op f) =
        some (s.seek f v.stored.flatten.length, ⟨0, [], []⟩) := by
  induction hleft : v.stored.flatten.length - p using Nat.strong_induction_on generalizing p calls with
  | _ left ih =>
    have hzero := leftAt_eq_zero_iff v.stored p
    have hstep := step_read_seek hs f p (calls 0)
    obtain ⟨_, hwithin⟩ := transferred_within v.stored hp (calls 0)
    simp only at hstep
    rcases hp.lt_or_eq with hlt | rfl
    · have hpos : 0 < transferred v.stored p (calls 0).count (calls 0).uncopied := by
        have hcount := (heager 0).1
        have hprogress := (heager 0).2 (min (calls 0).count (leftAt v.stored p)) (by omega)
        simp only [transferred]
        omega
      generalize transferred v.stored p (calls 0).count (calls 0).uncopied = k at hstep hwithin hpos
      obtain ⟨N, rs, hrun, hdata, hnone, hend⟩ :=
        ih (v.stored.flatten.length - (p + k)) (by omega) hwithin (fun i => calls (i + 1))
          (fun i => heager (i + 1)) rfl
      refine ⟨N + 1, ⟨k, (v.stored.flatten.drop p).take k, []⟩ :: rs, ?_, ?_, ?_, hend⟩
      · rw [List.range_succ_eq_map, List.map_cons, driver.run_cons_of_step hstep, List.map_map]
        exact congrArg (Option.map _) hrun
      · rw [List.map_cons, List.flatten_cons, hdata, ← List.drop_drop, List.take_append_drop]
      · intro r hr
        rcases List.mem_cons.mp hr with rfl | hr
        · exact Int.natCast_pos.mpr hpos
        · exact hnone r hr
    · have hnone : transferred v.stored v.stored.flatten.length (calls 0).count (calls 0).uncopied = 0 := by
        have := transferred_le v.stored v.stored.flatten.length (calls 0).count (calls 0).uncopied
        omega
      rw [hnone] at hstep
      exact ⟨0, [], rfl, by simp, by simp, hstep⟩

end Reads

/-- Reading drains the device: on any state that successful writes reach and from any
position within the content, reads of any counts and faults hand over the content in
order, each within one entry and returning what it handed over; and eager reads hand
over all of it before the first that returns 0. -/
theorem reads_drain_device (ws : List DeviceWrite) (f p : Nat) :
    ∃ s ws' texts, driver.run Sys.loaded (ws.map DeviceWrite.op) = some (s, ws') ∧
      s.kernel.storedTexts = some texts ∧
      (p ≤ texts.flatten.length →
        (∀ cs : List DeviceRead, ∃ (rs : List Reply) (n : Nat),
          driver.run (s.seek f p) (cs.map (DeviceRead.op f)) = some (s.seek f (p + n), rs) ∧
          (rs.map Reply.ret).sum = n ∧ p + n ≤ texts.flatten.length ∧
          (rs.map Reply.data).flatten = (texts.flatten.drop p).take n ∧
          ∀ i r, rs[i]? = some r → r.ret = r.data.length ∧
            r.data.length ≤ leftAt texts (p + ((rs.take i).map fun r => r.data.length).sum)) ∧
        ∀ calls : Nat → DeviceRead, (∀ i, (calls i).Eager) → ∃ (N : Nat) (rs : List Reply),
          driver.run (s.seek f p) ((List.range N).map fun i => (calls i).op f) =
            some (s.seek f texts.flatten.length, rs) ∧
          (rs.map Reply.data).flatten = texts.flatten.drop p ∧ (∀ r ∈ rs, 0 < r.ret) ∧
          driver.step (s.seek f texts.flatten.length) ((calls N).op f) =
            some (s.seek f texts.flatten.length, ⟨0, [], []⟩)) := by
  obtain ⟨s, ws', hrun, ⟨v, hs, _⟩, _⟩ := run_writes_mirror mirrors_loaded ws
  refine ⟨s, ws', v.stored, hrun, hs.kernel.storedTexts_eq, fun hp => ⟨fun cs => ?_, fun calls heager => ?_⟩⟩
  · exact run_reads_shows hs f hp cs
  · exact run_reads_drain hs f hp calls heager

end Aesd.Driver
