import Aesd.Driver.DeviceRuns

/-! Unloading the module. aesd_cleanup_module takes the device out of the system but
frees none of its buffers, so whatever has been written is still allocated. -/
namespace Aesd.Driver
open Aesd.Foundations

/-- cdev_del and unregister_chrdev_region: neither entries nor buffers are touched. -/
def aesdCleanupModule (k : Kernel) : Kernel := k

/-- Every buffer that was allocated has been freed. None has been freed twice, for a
kfree of what is not allocated has no result. -/
def Kernel.Released (k : Kernel) : Prop := ∀ a, a ∉ k.heap

def ReleasesAll (ops : List Op) : Prop :=
  ∃ s rs, driver.run Sys.loaded ops = some (s, rs) ∧ (aesdCleanupModule s.kernel).Released

/-- A write that comes to its allocation gets the memory and copies the whole buffer. -/
def Op.Granted : Op → Prop
  | .write _ ⟨some _, true, alloc, uncopied⟩ => alloc.isSome = true ∧ uncopied = 0
  | _ => True

/-- A call, refused or not, in which no allocation and no copy from the user fails. -/
structure CompleteOp where
  op : Op
  granted : op.Granted

/-- Every write that gets the lock with a buffer is of no bytes. -/
def AllEmpty (ops : List Op) : Prop :=
  ∀ f buf alloc uncopied, Op.write f ⟨some buf, true, alloc, uncopied⟩ ∈ ops → buf = []

def DeviceView.Occupied (v : DeviceView) : Prop := v.stored ≠ [] ∨ ∃ b, b ≠ [] ∧ v.pending = .text b

section Held
variable {k : Kernel} {v : DeviceView}

/-- Stored entries and pending bytes are in allocated blocks. -/
theorem Shows.holds_block (h : Shows k v) (hv : v.Occupied) : ∃ a, a ∈ k.heap := by
  rcases hv with hs | ⟨b, _, hb⟩
  · have hlen := h.stored.length_eq
    have hw : k.aesdDevice.cbHandler.window ≠ [] := by
      intro he
      rw [he] at hlen
      exact hs (List.eq_nil_of_length_eq_zero hlen.symm)
    obtain ⟨e, he⟩ := List.exists_mem_of_ne_nil _ hw
    obtain ⟨_, _, a, _, _, hl, _⟩ := holds_of_mem h.stored he
    exact ⟨a, Finmap.mem_of_lookup_eq_some hl⟩
  · have hp := h.pending
    rw [hb] at hp
    obtain ⟨_, _, a, _, _, hl, _⟩ := hp
    exact ⟨a, Finmap.mem_of_lookup_eq_some hl⟩

/-- With no entry stored, nothing pending and nothing lost no block is allocated. -/
theorem Shows.released (h : Shows k .loaded) : k.Released := by
  intro a ha
  have hpending : blocks k.aesdDevice.entryToInsertInCb.buffptr = [] := by
    have hp := h.pending.2
    simpa using hp
  have hwindow : k.aesdDevice.cbHandler.window = [] := List.eq_nil_of_length_eq_zero h.stored.length_eq
  have hone := h.ledger.count_eq_one_iff.mpr rfl a ha
  rw [Kernel.refs, hpending, hwindow] at hone
  exact absurd hone (by simp [windowBlocks])

end Held

section Runs
variable {v : DeviceView} {op : Op} {ops : List Op}

/-- A granted write leaves the device occupied if it was before or the write has bytes. -/
theorem occupied_write (buf : List Byte) (g : Grant) (h : v.Occupied ∨ buf ≠ []) :
    (v.write buf (some g) 0).Occupied := by
  simp only [DeviceView.write, accepted_zero]
  split
  · left
    apply List.ne_nil_of_length_pos
    rw [length_rtake, List.length_append]
    exact Nat.lt_min.mpr ⟨by decide, Nat.succ_pos _⟩
  · by_cases hstored : v.stored = []
    · right
      have htext : v.pending.kept g ++ buf ≠ [] := by
        rcases h with (hs | ⟨b, hb, hp⟩) | hbuf
        · exact absurd hstored hs
        · rw [hp]
          exact List.append_ne_nil_of_left_ne_nil hb buf
        · exact List.append_ne_nil_of_right_ne_nil _ hbuf
      exact ⟨_, htext, if_neg htext⟩
    · exact .inl hstored

/-- What a granted call does: a write of some bytes occupies the device, and none empties it. -/
theorem Op.Granted.occupied (hop : op.Granted)
    (h : v.Occupied ∨ ∃ f buf alloc uncopied, op = .write f ⟨some buf, true, alloc, uncopied⟩ ∧ buf ≠ []) :
    (v.next op).Occupied := by
  rcases op.cases_refusal with ⟨e, he⟩ | ⟨f, count, uncopied, rfl⟩ | ⟨f, buf, alloc, uncopied, rfl⟩
  · rw [v.next_of_refusal he]
    refine h.resolve_right ?_
    rintro ⟨f, buf, alloc, uncopied, rfl, _⟩
    exact absurd he (by simp [Op.refusal])
  · refine h.resolve_right ?_
    rintro ⟨_, _, _, _, hop, _⟩
    exact absurd hop (by simp)
  · obtain ⟨halloc, rfl⟩ := hop
    obtain ⟨g, rfl⟩ := Option.isSome_iff_exists.mp halloc
    refine occupied_write buf g (h.imp_right ?_)
    rintro ⟨_, _, _, _, hop, hbuf⟩
    obtain ⟨rfl, rfl, rfl, rfl⟩ : _ = f ∧ _ = buf ∧ _ = some g ∧ _ = 0 := by simpa using hop.symm
    exact hbuf

theorem occupied_foldl (hops : ∀ op ∈ ops, op.Granted) (h : v.Occupied ∨ ¬AllEmpty ops) :
    (ops.foldl DeviceView.next v).Occupied := by
  induction ops generalizing v with
  | nil => exact h.resolve_right fun he => he (by simp [AllEmpty])
  | cons op ops ih =>
    obtain ⟨hop, hrest⟩ := List.forall_mem_cons.mp hops
    refine ih hrest ?_
    by_cases hempty : AllEmpty ops
    · refine .inl (hop.occupied (h.imp_right fun hne => ?_))
      simp only [AllEmpty, not_forall] at hne
      obtain ⟨f, buf, alloc, uncopied, hm, hbuf⟩ := hne
      rcases List.mem_cons.mp hm with hm | hm
      · exact ⟨f, buf, alloc, uncopied, hm.symm, hbuf⟩
      · exact absurd (hempty f buf alloc uncopied hm) hbuf
    · exact .inr hempty

/-- Writes of no bytes leave the device as it was loaded. -/
theorem AllEmpty.foldl_next (hops : ∀ op ∈ ops, op.Granted) (h : AllEmpty ops) :
    ops.foldl DeviceView.next .loaded = .loaded := by
  induction ops with
  | nil => rfl
  | cons op ops ih =>
    obtain ⟨hop, hrest⟩ := List.forall_mem_cons.mp hops
    have hfold := ih hrest fun f buf alloc uncopied hm => h f buf alloc uncopied (List.mem_cons_of_mem op hm)
    have hnext : DeviceView.loaded.next op = .loaded := by
      rcases op.cases_refusal with ⟨e, he⟩ | ⟨f, count, uncopied, rfl⟩ | ⟨f, buf, alloc, uncopied, rfl⟩
      · exact DeviceView.loaded.next_of_refusal he
      · rfl
      · obtain ⟨halloc, rfl⟩ := hop
        obtain ⟨g, rfl⟩ := Option.isSome_iff_exists.mp halloc
        obtain rfl := h f buf (some g) 0 List.mem_cons_self
        rfl
    rw [List.foldl_cons, hnext, hfold]

end Runs

/-- Unloading leaves nothing allocated exactly when no byte was ever written. -/
theorem unloading_releases_iff (ops : List CompleteOp) :
    ReleasesAll (ops.map CompleteOp.op) ↔ AllEmpty (ops.map CompleteOp.op) := by
  have hops : ∀ op ∈ ops.map CompleteOp.op, op.Granted := by
    intro op hop
    obtain ⟨c, _, rfl⟩ := List.mem_map.mp hop
    exact c.granted
  obtain ⟨s, rs, hrun, hs⟩ := run_shows (ops.map CompleteOp.op)
  constructor
  · rintro ⟨s', rs', hrun', hreleased⟩
    obtain ⟨rfl, _⟩ := Prod.mk.inj (Option.some.inj (hrun'.symm.trans hrun))
    by_contra hne
    obtain ⟨a, ha⟩ := hs.kernel.holds_block (occupied_foldl hops (.inr hne))
    exact hreleased a ha
  · intro hempty
    rw [hempty.foldl_next hops] at hs
    exact ⟨s, rs, hrun, hs.kernel.released⟩

/-- One command is written and the module unloaded: its buffer stays allocated. -/
theorem buffer_outlives_module : ¬ReleasesAll [.write 0 ⟨some [97, 10], true, some (.above 0), 0⟩] := by
  rintro ⟨s, rs, hrun, hreleased⟩
  have heval : (driver.run Sys.loaded [.write 0 ⟨some [97, 10], true, some (.above 0), 0⟩]).map
      (fun p => (aesdCleanupModule p.1.kernel).heap.lookup 1) = some (some [97, 10]) := by decide
  rw [hrun, Option.map_some] at heval
  exact hreleased 1 (Finmap.mem_of_lookup_eq_some (Option.some.inj heval))

end Aesd.Driver
