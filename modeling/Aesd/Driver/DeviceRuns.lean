import Aesd.Driver.WriteRefinement

/-! Runs of the driver: every call on the open files follows the view, reads hand
over the stored texts from the file position on, and no run goes wrong. -/
namespace Aesd.Driver
open Aesd.Foundations

/-- How many bytes a read transfers: of the rest of the stored text that holds the
position, as many as asked for, less what copy_to_user leaves. -/
def transferred (stored : List (List Byte)) (p count : Nat) (uncopied : Nat → Nat) : Nat :=
  let n := min count (leftAt stored p)
  n - min (uncopied n) n

theorem transferred_le (stored : List (List Byte)) (p count : Nat) (uncopied : Nat → Nat) :
    transferred stored p count uncopied ≤ min count (leftAt stored p) := Nat.sub_le _ _

private theorem window_get {cb : Ring} {i : Nat} {e : Entry}
    (he : cb.window[i]? = some e) : cb.entry.get (Fin.ofNat _ (cb.outOffs.toNat + i)) = e := by
  obtain ⟨hi, rfl⟩ := List.getElem?_eq_some_iff.mp he
  exact (getElem_ringWindow cb.entry cb.outOffs.toNat cb.count i (by simpa [AesdCircularBuffer.window] using hi)).symm

private theorem holds_getElem {h : Heap} {w : List Entry} {bs : List (List Byte)}
    (hw : List.Forall₂ (Holds h) w bs) {i : Nat} {b : List Byte} (hb : bs[i]? = some b) :
    ∃ e, w[i]? = some e ∧ Holds h e b := by
  induction hw generalizing i with
  | nil => simp at hb
  | cons hx _ ih =>
    cases i with
    | zero => exact ⟨_, rfl, by rwa [← Option.some.inj hb]⟩
    | succ i => exact ih hb

/-- The locked part of a read hands over the stored texts from the position on. -/
theorem readLocked_shows {k : Kernel} {v : DeviceView} (hv : Shows k v) (filp : File) (count : Nat)
    (uncopied : Nat → Nat) :
    readLocked filp count uncopied k =
      some ({ filp with fPos := filp.fPos + transferred v.stored filp.fPos count uncopied },
        ⟨transferred v.stored filp.fPos count uncopied,
          (v.stored.flatten.drop filp.fPos).take (transferred v.stored filp.fPos count uncopied), []⟩) := by
  have hne : ∀ b ∈ v.stored, b ≠ [] := fun b hb => List.ne_nil_of_mem (hv.lines b hb)
  have hfind := find_entry_eq_locate hv.queue (size_pos hv.stored hne) filp.fPos
  rw [sizes_eq hv.stored] at hfind
  unfold readLocked
  cases hloc : locate (v.stored.map List.length) filp.fPos with
  | none =>
    have hleft := (leftAt_eq_zero_iff _ _).mpr ((locate_eq_none_iff _ _).mp hloc)
    rw [hloc, Option.map_none] at hfind
    simp [hfind, transferred, hleft]
  | some q =>
    obtain ⟨i, o⟩ := q
    obtain ⟨b, hb, ho, _, hleft, hread⟩ := locate_eq_some hloc
    obtain ⟨e, he, hholds⟩ := holds_getElem hv.stored hb
    have hslot := window_get he
    obtain ⟨a, _, hptr⟩ := hholds.blocks_eq
    have hmin : (if e.size - o > count then count else e.size - o) = min count (leftAt v.stored filp.fPos) := by
      rw [hleft, hholds.1]
      split <;> omega
    have hpeek := hholds.peek o (min count (leftAt v.stored filp.fPos)) (by omega)
    rw [hread _ (by omega)] at hpeek
    rw [hloc, Option.map_some] at hfind
    simp only [hfind, hslot, hmin, hpeek]
    rw [if_neg (by simp [hptr])]
    simp only [Option.bind_eq_bind, Option.bind_some, List.take_take]
    rw [Nat.min_eq_left (Nat.sub_le _ _)]
    rfl

def Op.refusal : Op → Option Int
  | .read _ ⟨false, _, _, _⟩ | .write _ ⟨none, _, _, _⟩ => some (-EFAULT)
  | .read _ ⟨true, _, false, _⟩ | .write _ ⟨some _, false, _, _⟩ => some (-ERESTARTSYS)
  | _ => none

/-- A call is refused, or it reads or writes with the lock held. -/
theorem Op.cases_refusal (op : Op) :
    (∃ e, op.refusal = some e) ∨ (∃ f count uncopied, op = .read f ⟨true, count, true, uncopied⟩) ∨
      ∃ f buf alloc uncopied, op = .write f ⟨some buf, true, alloc, uncopied⟩ := by
  match op with
  | .read _ ⟨false, _, _, _⟩ | .write _ ⟨none, _, _, _⟩ => exact .inl ⟨_, rfl⟩
  | .read _ ⟨true, _, false, _⟩ | .write _ ⟨some _, false, _, _⟩ => exact .inl ⟨_, rfl⟩
  | .read f ⟨true, count, true, uncopied⟩ => exact .inr (.inl ⟨f, count, uncopied, rfl⟩)
  | .write f ⟨some buf, true, alloc, uncopied⟩ => exact .inr (.inr ⟨f, buf, alloc, uncopied, rfl⟩)

/-- What a call does to the view: only a write that gets the lock with a buffer does anything. -/
def DeviceView.next (v : DeviceView) : Op → DeviceView
  | .write _ ⟨some buf, true, alloc, uncopied⟩ => v.write buf alloc uncopied
  | _ => v

theorem DeviceView.next_of_refusal (v : DeviceView) {op : Op} {e : Int} (he : op.refusal = some e) :
    v.next op = v := by
  match op with
  | .read .. | .write _ ⟨none, _, _, _⟩ | .write _ ⟨some _, false, _, _⟩ => rfl
  | .write _ ⟨some _, true, _, _⟩ => simp [Op.refusal] at he

/-- The kernel shows the view and every file in use has been opened and not released. -/
structure SysShows (s : Sys) (v : DeviceView) : Prop where
  kernel : Shows s.kernel v
  opened : ∀ f, (s.files f).privateData = true

theorem sysShows_loaded : SysShows Sys.loaded DeviceView.loaded := ⟨shows_loaded, fun _ => rfl⟩

section Step
variable {s : Sys} {v : DeviceView}

/-- A refused call changes nothing. -/
theorem step_refused_shows (hs : SysShows s v) {op : Op} {e : Int} (he : op.refusal = some e) :
    driver.step s op = some (s, ⟨e, [], []⟩) := by
  cases op with
  | read f call =>
    obtain ⟨buf, count, lock, uncopied⟩ := call
    have ho := hs.opened f
    cases buf <;> cases lock <;> simp_all [driver, Sys.step, aesdRead, Op.refusal]
  | write f call =>
    obtain ⟨buf, lock, alloc, uncopied⟩ := call
    have ho := hs.opened f
    cases buf <;> cases lock <;> simp_all [driver, Sys.step, aesdWrite, Op.refusal]

/-- A read changes nothing but the position of its own file. -/
theorem step_read_shows (hs : SysShows s v) (f count : Nat) (uncopied : Nat → Nat) :
    driver.step s (.read f ⟨true, count, true, uncopied⟩) =
      some (⟨s.kernel, Function.update s.files f
          ⟨true, (s.files f).fPos + transferred v.stored (s.files f).fPos count uncopied⟩⟩,
        ⟨transferred v.stored (s.files f).fPos count uncopied,
          (v.stored.flatten.drop (s.files f).fPos).take
            (transferred v.stored (s.files f).fPos count uncopied), []⟩) := by
  have ho := hs.opened f
  simp [driver, Sys.step, aesdRead, ho, readLocked_shows hs.kernel]

/-- A write that gets the lock with a buffer leaves every file as it is. -/
theorem step_write_shows (hs : SysShows s v) (f : Nat) (buf : List Byte) (alloc : Option Grant)
    (uncopied : Nat) :
    ∃ k' r, driver.step s (.write f ⟨some buf, true, alloc, uncopied⟩) = some (⟨k', s.files⟩, r) ∧
      Shows k' (v.write buf alloc uncopied) ∧ r.ret = writeRet buf alloc uncopied ∧ r.data = [] ∧
      ∀ q ∈ r.freed, ∃ a, q = .block a ∧ a ∈ s.kernel.heap ∧ a ∉ k'.heap := by
  obtain ⟨k', r, hw, hv', hret, hdata, hfreed⟩ := writeLocked_shows hs.kernel buf alloc uncopied
  have ho := hs.opened f
  exact ⟨k', r, by simp [driver, Sys.step, aesdWrite, ho, hw], hv', hret, hdata, hfreed⟩

/-- On a full ring a write that completes a line frees the oldest entry. -/
theorem step_write_evicts (hs : SysShows s v) {f : Nat} {buf : List Byte} {g : Grant} {uncopied : Nat}
    (hnl : newline ∈ v.pending.kept g ++ accepted buf uncopied)
    (hfull : v.stored.length = maxWriteOperationsSupported) {s' : Sys} {r : Reply}
    (hstep : driver.step s (.write f ⟨some buf, true, some g, uncopied⟩) = some (s', r)) : r.freed ≠ [] := by
  obtain ⟨⟨k', r'⟩, hwrite, he⟩ := Option.map_eq_some_iff.mp hstep
  obtain ⟨_, rfl⟩ := Prod.mk.inj he
  rw [aesdWrite, if_neg (by simp [hs.opened f])] at hwrite
  exact writeLocked_evicts hs.kernel hnl hfull hwrite

theorem update_opened (hs : SysShows s v) (f p : Nat) (g : Nat) :
    (Function.update s.files f ⟨true, p⟩ g).privateData = true := by
  by_cases hg : g = f
  · rw [hg, Function.update_self]
  · rw [Function.update_of_ne hg]
    exact hs.opened g

/-- Every call, whatever its environment decides, follows the view and frees only
blocks that were allocated before it and are not after it. -/
theorem step_shows (hs : SysShows s v) (op : Op) :
    ∃ s' r, driver.step s op = some (s', r) ∧ SysShows s' (v.next op) ∧
      ∀ q ∈ r.freed, ∃ a, q = .block a ∧ a ∈ s.kernel.heap ∧ a ∉ s'.kernel.heap := by
  rcases op.cases_refusal with ⟨e, he⟩ | ⟨f, count, uncopied, rfl⟩ | ⟨f, buf, alloc, uncopied, rfl⟩
  · exact ⟨s, _, step_refused_shows hs he, by rwa [v.next_of_refusal he], by simp⟩
  · exact ⟨_, _, step_read_shows hs f count uncopied, ⟨hs.kernel, update_opened hs f _⟩, by simp⟩
  · obtain ⟨k', r, hstep, hv', _, _, hfreed⟩ := step_write_shows hs f buf alloc uncopied
    exact ⟨_, r, hstep, ⟨hv', hs.opened⟩, hfreed⟩

end Step

/-- No run of reads and writes goes wrong, and its end is what the view says. -/
theorem run_shows (ops : List Op) :
    ∃ s rs, driver.run Sys.loaded ops = some (s, rs) ∧ SysShows s (ops.foldl DeviceView.next .loaded) := by
  obtain ⟨s, rs, hrun, hs, _⟩ := driver.run_simulates (P := fun _ _ => True) (A := fun _ _ => True)
    (fun s v op hs _ => by
      obtain ⟨s', r, hstep, hs', _⟩ := step_shows hs op
      exact ⟨s', r, hstep, hs', trivial⟩)
    sysShows_loaded (driver.along_of_forall (fun _ _ _ => trivial) Sys.loaded)
  exact ⟨s, rs, hrun, hs⟩

end Aesd.Driver
