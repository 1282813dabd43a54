import Aesd.Driver.DeviceRuns

/-! Which blocks the driver still refers to. A write chooses between kmalloc and
krealloc on the preserved size and overwrites the preserved pointer with the answer,
so a block held at size zero, or held when the allocation fails, is lost. -/
namespace Aesd.Driver
open Aesd.Foundations

/-- No block is empty: a request for no bytes gets ZERO_SIZE_PTR. -/
def Solid (h : Heap) : Prop := ∀ a blk, h.lookup a = some blk → blk ≠ []

section Solid
variable {h h' : Heap}

private theorem solid_empty : Solid ∅ := by
  intro a blk hl
  simp at hl

private theorem Solid.insert (hs : Solid h) (a : Addr) {blk : List Byte} (hb : blk ≠ []) :
    Solid (h.insert a blk) := by
  intro x old hx
  by_cases he : x = a
  · subst he
    rw [Finmap.lookup_insert] at hx
    exact Option.some.inj hx ▸ hb
  · rw [Finmap.lookup_insert_of_ne _ he] at hx
    exact hs x old hx

private theorem Solid.erase (hs : Solid h) (a : Addr) : Solid (h.erase a) := by
  intro x old hx
  by_cases he : x = a
  · subst he
    rw [Finmap.lookup_erase] at hx
    exact absurd hx (by simp)
  · rw [Finmap.lookup_erase_ne he] at hx
    exact hs x old hx

private theorem kmalloc_solid (hs : Solid h) (alloc : Option Grant) (n : Nat) :
    Solid (kmalloc alloc n h).2 := by
  unfold kmalloc
  cases alloc with
  | none => exact hs
  | some g =>
    by_cases hn : n = 0
    · simpa [hn] using hs
    · simp only [if_neg hn]
      exact hs.insert _ (List.ne_nil_of_length_pos (by rw [g.length_contents]; exact Nat.pos_of_ne_zero hn))

private theorem krealloc_solid (hs : Solid h) {alloc : Option Grant} {p q : Option KPtr} {n : Nat}
    (hk : krealloc alloc p n h = some (q, h')) : Solid h' := by
  have hmalloc : some (kmalloc alloc n h) = some (q, h') → Solid h' := by
    intro he
    have := kmalloc_solid hs alloc n
    rwa [Option.some.inj he] at this
  match p with
  | none | some .zeroSize => exact hmalloc hk
  | some (.block a) =>
    obtain ⟨old, hold, hk⟩ := Option.bind_eq_some_iff.mp hk
    cases alloc with
    | none =>
      obtain ⟨rfl, rfl⟩ := Prod.mk.inj (Option.some.inj hk)
      exact hs
    | some g =>
      by_cases hn : n = 0
      · simp only [if_pos hn] at hk
        obtain ⟨rfl, rfl⟩ := Prod.mk.inj (Option.some.inj hk)
        exact hs.erase a
      · have hnew : old.take n ++ (g.contents n).drop old.length ≠ [] := by
          apply List.ne_nil_of_length_pos
          rw [List.length_append, List.length_take, List.length_drop, g.length_contents]
          omega
        simp only [if_neg hn] at hk
        cases hm : g.moves with
        | true =>
          rw [hm, if_pos rfl] at hk
          obtain ⟨rfl, rfl⟩ := Prod.mk.inj (Option.some.inj hk)
          exact (hs.insert _ hnew).erase a
        | false =>
          rw [hm, if_neg (by simp)] at hk
          obtain ⟨rfl, rfl⟩ := Prod.mk.inj (Option.some.inj hk)
          exact hs.insert a hnew

private theorem copyFromUser_solid (hs : Solid h) {p : KPtr} {off uncopied : Nat} {buf : List Byte}
    (hc : copyFromUser p off buf uncopied h = some h') : Solid h' := by
  unfold copyFromUser poke at hc
  split at hc
  · exact Option.some.inj hc ▸ hs
  · cases p with
    | zeroSize => exact absurd hc (by simp)
    | block a =>
      obtain ⟨blk, hl, hfit⟩ := Option.bind_eq_some_iff.mp hc
      split at hfit
      · rename_i hle
        rw [← Option.some.inj hfit]
        apply hs.insert a
        apply List.ne_nil_of_length_pos
        rw [length_overwrite hle]
        exact List.length_pos_of_ne_nil (hs a blk hl)
      · exact absurd hfit (by simp)

private theorem kfree_solid (hs : Solid h) {p : Option KPtr} (hf : kfree p h = some h') : Solid h' := by
  match p with
  | none | some .zeroSize => exact Option.some.inj hf ▸ hs
  | some (.block a) =>
    simp only [kfree, BlockHeap.free] at hf
    split at hf
    · exact Option.some.inj hf ▸ hs.erase a
    · exact absurd hf (by simp)

private theorem insertEntry_solid {e : Entry} {copied : Nat} {cb : Ring} {k : Kernel} {r : Reply}
    (hs : Solid h) (hi : insertEntry e copied cb h = some (k, r)) : Solid k.heap := by
  obtain ⟨text, _, hi⟩ := Option.bind_eq_some_iff.mp hi
  split at hi
  · obtain ⟨⟨cb', oldest⟩, _, hi⟩ := Option.bind_eq_some_iff.mp hi
    obtain ⟨h₁, hf, hi⟩ := Option.bind_eq_some_iff.mp hi
    obtain ⟨rfl, rfl⟩ := Prod.mk.inj (Option.some.inj hi)
    exact kfree_solid hs hf
  · obtain ⟨rfl, rfl⟩ := Prod.mk.inj (Option.some.inj hi)
    exact hs

private theorem writeLocked_solid {k k' : Kernel} {r : Reply} {buf : List Byte} {alloc : Option Grant}
    {uncopied : Nat} (hs : Solid k.heap) (hw : writeLocked buf alloc uncopied k = some (k', r)) :
    Solid k'.heap := by
  obtain ⟨⟨q, h₁⟩, hres, hw⟩ := Option.bind_eq_some_iff.mp hw
  have hs₁ : Solid h₁ := by
    unfold reserve at hres
    split at hres
    · have := kmalloc_solid hs alloc buf.length
      rwa [Option.some.inj hres] at this
    · exact krealloc_solid hs hres
  cases q with
  | none =>
    obtain ⟨rfl, rfl⟩ := Prod.mk.inj (Option.some.inj hw)
    exact hs₁
  | some p =>
    obtain ⟨h₂, hc, hw⟩ := Option.bind_eq_some_iff.mp hw
    exact insertEntry_solid (copyFromUser_solid hs₁ hc) hw

/-- No call leaves an empty block. -/
theorem step_solid {s s' : Sys} {op : Op} {r : Reply} (hs : Solid s.kernel.heap)
    (hstep : driver.step s op = some (s', r)) : Solid s'.kernel.heap := by
  cases op with
  | read f call =>
    obtain ⟨q, _, he⟩ := Option.map_eq_some_iff.mp hstep
    rw [← (Prod.mk.inj he).1]
    exact hs
  | write f call =>
    obtain ⟨⟨k', r'⟩, hw, he⟩ := Option.map_eq_some_iff.mp hstep
    rw [← (Prod.mk.inj he).1]
    obtain ⟨buf, lock, alloc, uncopied⟩ := call
    unfold aesdWrite at hw
    split at hw
    · exact absurd hw (by simp)
    · match buf, lock with
      | none, _ | some _, false => exact (Prod.mk.inj (Option.some.inj hw)).1 ▸ hs
      | some buf, true => exact writeLocked_solid hs hw

end Solid

/-- Every allocated block of non-zero length is referred to exactly once, by a live
slot or by the preserved entry. -/
def Kernel.Owned (k : Kernel) : Prop :=
  ∀ a blk, k.heap.lookup a = some blk → blk ≠ [] → k.refs.count a = 1

/-- A call that keeps every block: if it reaches the allocation, then the preserved
entry holds no block, or has a positive size and the allocation succeeds. -/
def KeepsBlocks (s : Sys) : Op → Prop
  | .write _ ⟨some _, true, alloc, _⟩ =>
    blocks s.kernel.aesdDevice.entryToInsertInCb.buffptr = [] ∨
      0 < s.kernel.aesdDevice.entryToInsertInCb.size ∧ alloc.isSome = true
  | _ => True

def OwnsThroughout (ops : List Op) : Prop :=
  ∀ done, done <+: ops → ∃ s rs, driver.run Sys.loaded done = some (s, rs) ∧ s.kernel.Owned

theorem Shows.owned_iff {k : Kernel} {v : DeviceView} (h : Shows k v) (hs : Solid k.heap) :
    k.Owned ↔ v.leaked = 0 := by
  rw [← h.ledger.count_eq_one_iff]
  constructor
  · intro ho a ha
    obtain ⟨blk, hl⟩ := Finmap.mem_iff.mp ha
    exact ho a blk hl (hs a blk hl)
  · exact fun hall a blk hl _ => hall a (Finmap.mem_of_lookup_eq_some hl)

/-- What a call loses, in terms of the state before it. -/
theorem leaked_eq_iff {s : Sys} {v : DeviceView} (hs : SysShows s v) (op : Op) :
    (v.next op).leaked = v.leaked ↔ KeepsBlocks s op := by
  match op with
  | .read .. | .write _ ⟨none, _, _, _⟩ | .write _ ⟨some _, false, _, _⟩ => exact iff_of_true rfl trivial
  | .write _ ⟨some buf, true, alloc, uncopied⟩ =>
    have hp := hs.kernel.pending
    simp only [DeviceView.next, DeviceView.write, KeepsBlocks]
    cases hv : v.pending with
    | empty held =>
      rw [hv] at hp
      cases held <;> cases alloc <;>
        simp_all [Pending.lostByFailure, Pending.lostBySuccess, PendingHolds, apply_ite DeviceView.leaked]
    | text b =>
      rw [hv] at hp
      obtain ⟨hne, hb⟩ := hp
      obtain ⟨a, hblocks, _⟩ := hb.blocks_eq
      have hsize := hb.1.symm ▸ List.length_pos_of_ne_nil hne
      cases alloc <;>
        simp_all [Pending.lostByFailure, Pending.lostBySuccess, apply_ite DeviceView.leaked]
    | lost n =>
      rw [hv] at hp
      obtain ⟨hpos, hsize, hptr⟩ := hp
      cases alloc <;>
        simp_all [Pending.lostByFailure, Pending.lostBySuccess, blocks, apply_ite DeviceView.leaked]

private theorem step_owned (s : Sys) (op : Op) (hs : (∃ v, SysShows s v) ∧ Solid s.kernel.heap)
    (ho : s.kernel.Owned) :
    ∃ s' r, driver.step s op = some (s', r) ∧ ((∃ v, SysShows s' v) ∧ Solid s'.kernel.heap) ∧
      (s'.kernel.Owned ↔ KeepsBlocks s op) := by
  obtain ⟨⟨v, hv⟩, hsolid⟩ := hs
  obtain ⟨s', r, hstep, hv', _⟩ := step_shows hv op
  have hsolid' := step_solid hsolid hstep
  refine ⟨s', r, hstep, ⟨⟨_, hv'⟩, hsolid'⟩, ?_⟩
  have hzero := (hv.kernel.owned_iff hsolid).mp ho
  rw [hv'.kernel.owned_iff hsolid', ← leaked_eq_iff hv op, hzero]

private theorem owned_loaded : Sys.loaded.kernel.Owned := (shows_loaded.owned_iff solid_empty).mpr rfl

/-- No buffer is lost at any point of a run exactly when every call keeps its blocks. -/
theorem blocks_owned_throughout_iff (ops : List Op) :
    OwnsThroughout ops ↔ driver.Along KeepsBlocks Sys.loaded ops :=
  driver.forall_prefix_iff_along (R := fun s => (∃ v, SysShows s v) ∧ Solid s.kernel.heap)
    (I := fun s => s.kernel.Owned) step_owned ⟨⟨_, sysShows_loaded⟩, solid_empty⟩ owned_loaded

/-- A write of one byte whose user copy faults keeps a block at size zero, and the
next write allocates another one over its pointer. -/
theorem block_lost_after_faulting_copy :
    ¬OwnsThroughout
      [.write 0 ⟨some [97], true, some (.above 0), 1⟩, .write 0 ⟨some [98], true, some (.above 0), 0⟩] := by
  intro h
  obtain ⟨s, rs, hrun, ho⟩ := h _ List.prefix_rfl
  have heval : (driver.run Sys.loaded
      [.write 0 ⟨some [97], true, some (.above 0), 1⟩, .write 0 ⟨some [98], true, some (.above 0), 0⟩]).map
        (fun p => (p.1.kernel.refs, p.1.kernel.heap.lookup 1)) = some ([2], some [0]) := by decide
  rw [hrun] at heval
  obtain ⟨hrefs, hl⟩ := Prod.mk.inj (Option.some.inj heval)
  have hone := ho 1 [0] hl (by decide)
  rw [hrefs] at hone
  exact absurd hone (by decide)

end Aesd.Driver
