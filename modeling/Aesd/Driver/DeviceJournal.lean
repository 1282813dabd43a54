import Aesd.Driver.DeviceRuns
import Aesd.Foundations.LineJournal

/-! What the device is for: a journal of the bytes writes have accepted, committed at
newlines, of which it stores the last ten entries. The driver follows the journal as
long as no allocation succeeds for a pending text whose buffer was lost before. -/
namespace Aesd.Driver
open Aesd.Foundations

def chunk : Op → List Byte
  | .write _ ⟨some buf, true, some _, uncopied⟩ => accepted buf uncopied
  | _ => []

/-- The journal after these calls; it depends on nothing that fresh memory contains. -/
def journal (ops : List Op) : Journal Byte :=
  ops.foldl (fun j op => j.accept newline (chunk op)) .empty

theorem journal_stream (ops : List Op) : (journal ops).stream = (ops.map chunk).flatten := by
  have h := Journal.stream_foldl newline .empty (ops.map chunk)
  rw [List.foldl_map] at h
  simpa [Journal.empty, Journal.stream, journal] using h

def Pending.Exact : Pending → List Byte → Prop
  | .empty _, b => b = []
  | .text t, b => b = t
  | .lost _, _ => False

def Pending.Sized : Pending → List Byte → Prop
  | .lost n, b => b.length = n
  | p, b => p.Exact b

theorem Pending.Exact.sized {p : Pending} {b : List Byte} (h : p.Exact b) : p.Sized b := by
  cases p with
  | lost n => exact h.elim
  | _ => exact h

theorem Pending.Sized.size_eq {p : Pending} {b : List Byte} (h : p.Sized b) : p.size = b.length := by
  cases p with
  | empty => exact (congrArg List.length h).symm
  | text => exact (congrArg List.length h).symm
  | lost => exact h.symm

section Step
variable {v : DeviceView} {j : Journal Byte}

def DeviceView.Stores (v : DeviceView) (j : Journal Byte) : Prop :=
  v.stored = j.committed.rtake maxWriteOperationsSupported

/-- A granted write on pending bytes that are still there accepts its chunk. -/
theorem write_granted (hs : v.Stores j) (hp : v.pending.Exact j.pending) (buf : List Byte) (g : Grant)
    (uncopied : Nat) :
    (v.write buf (some g) uncopied).Stores (j.accept newline (accepted buf uncopied)) ∧
    (v.write buf (some g) uncopied).pending.Exact (j.accept newline (accepted buf uncopied)).pending := by
  have hk : v.pending.kept g = j.pending := by
    cases hv : v.pending with
    | empty held => rw [hv] at hp; exact hp.symm
    | text t => rw [hv] at hp; exact hp.symm
    | lost n => rw [hv] at hp; exact hp.elim
  unfold DeviceView.write DeviceView.Stores
  by_cases hnl : newline ∈ j.pending ++ accepted buf uncopied
  · rw [Journal.accept_of_mem hnl]
    simp only [hk, hnl, if_true]
    exact ⟨by rw [show v.stored = _ from hs, rtake_rtake_append], rfl⟩
  · rw [Journal.accept_of_not_mem hnl]
    simp only [hk, hnl, if_false]
    refine ⟨hs, ?_⟩
    split
    · assumption
    · rfl

/-- A failed allocation stores nothing and keeps the pending size. -/
theorem write_failed (hs : v.Stores j) (hp : v.pending.Sized j.pending) (buf : List Byte) (uncopied : Nat) :
    (v.write buf none uncopied).Stores j ∧ (v.write buf none uncopied).pending.Sized j.pending := by
  refine ⟨hs, ?_⟩
  unfold DeviceView.write
  cases hv : v.pending with
  | empty held => rw [hv] at hp; exact hp
  | text t => rw [hv] at hp; exact congrArg List.length hp
  | lost n => rw [hv] at hp; exact hp

end Step

/-- A call whose allocation succeeds when the preserved entry has a positive size but
no buffer, so that its size counts bytes that nobody wrote. -/
def RevivesLost (s : Sys) : Op → Prop
  | .write _ ⟨some _, true, some _, _⟩ =>
    0 < s.kernel.aesdDevice.entryToInsertInCb.size ∧ s.kernel.aesdDevice.entryToInsertInCb.buffptr = none
  | _ => False

/-- The driver stores what the journal says and its preserved size is the journal's. -/
def Follows (s : Sys) (j : Journal Byte) : Prop :=
  ∃ v, SysShows s v ∧ v.Stores j ∧ v.pending.Sized j.pending

/-- The driver stores and preserves exactly what the journal says. -/
def Mirrors (s : Sys) (j : Journal Byte) : Prop :=
  ∃ v, SysShows s v ∧ v.Stores j ∧ v.pending.Exact j.pending

private theorem exact_of_not_lost {h : Heap} {e : Entry} {p : Pending} {b : List Byte}
    (hp : PendingHolds h e p) (hs : p.Sized b) (hl : ¬(0 < e.size ∧ e.buffptr = none)) : p.Exact b := by
  cases p with
  | lost n => exact absurd ⟨hp.2.1 ▸ hp.1, hp.2.2⟩ hl
  | _ => exact hs

theorem mirrors_loaded : Mirrors Sys.loaded .empty := ⟨.loaded, sysShows_loaded, rfl, rfl⟩

theorem Mirrors.follows {s : Sys} {j : Journal Byte} (h : Mirrors s j) : Follows s j := by
  obtain ⟨v, hs, hst, hp⟩ := h
  exact ⟨v, hs, hst, hp.sized⟩

theorem chunk_of_refusal {op : Op} {e : Int} (he : op.refusal = some e) : chunk op = [] := by
  match op with
  | .read .. | .write _ ⟨none, _, _, _⟩ | .write _ ⟨some _, false, _, _⟩ => rfl
  | .write _ ⟨some _, true, _, _⟩ => simp [Op.refusal] at he

/-- Any call that does not revive a lost text follows the journal. -/
theorem step_follows {s : Sys} {j : Journal Byte} (hj : j.Lined newline) (h : Follows s j) (op : Op)
    (hop : ¬RevivesLost s op) :
    ∃ s' r, driver.step s op = some (s', r) ∧ Follows s' (j.accept newline (chunk op)) := by
  obtain ⟨v, hs, hst, hp⟩ := h
  obtain ⟨s', r, hstep, hs', _⟩ := step_shows hs op
  refine ⟨s', r, hstep, v.next op, hs', ?_⟩
  rcases op.cases_refusal with ⟨e, he⟩ | ⟨f, count, uncopied, rfl⟩ | ⟨f, buf, alloc, uncopied, rfl⟩
  · rw [chunk_of_refusal he, Journal.accept_nil hj.pending, v.next_of_refusal he]
    exact ⟨hst, hp⟩
  · rw [show chunk _ = [] from rfl, Journal.accept_nil hj.pending]
    exact ⟨hst, hp⟩
  · cases alloc with
    | none =>
      rw [show chunk _ = [] from rfl, Journal.accept_nil hj.pending]
      exact write_failed hst hp buf uncopied
    | some g =>
      have hexact := exact_of_not_lost hs.kernel.pending hp hop
      obtain ⟨hst', hp'⟩ := write_granted hst hexact buf g uncopied
      exact ⟨hst', hp'.sized⟩

/-- A write that gets the lock with a buffer and an allocation mirrors the journal,
returns the length of what it accepted and leaves the files as they are. -/
theorem step_write_mirrors {s : Sys} {j : Journal Byte} (h : Mirrors s j) (f : Nat) (buf : List Byte)
    (g : Grant) (uncopied : Nat) :
    ∃ s' r, driver.step s (.write f ⟨some buf, true, some g, uncopied⟩) = some (s', r) ∧
      Mirrors s' (j.accept newline (accepted buf uncopied)) ∧ r.ret = (accepted buf uncopied).length ∧
      r.data = [] ∧ s'.files = s.files := by
  obtain ⟨v, hs, hst, hp⟩ := h
  obtain ⟨k', r, hstep, hv', hret, hdata, _⟩ := step_write_shows hs f buf (some g) uncopied
  obtain ⟨hst', hp'⟩ := write_granted hst hp buf g uncopied
  exact ⟨⟨k', s.files⟩, r, hstep, ⟨_, ⟨hv', hs.opened⟩, hst', hp'⟩, hret, hdata, rfl⟩

def Kernel.storedTexts (k : Kernel) : Option (List (List Byte)) :=
  k.aesdDevice.cbHandler.window.mapM fun e => peek e.buffptr 0 e.size k.heap

def Kernel.pendingText (k : Kernel) : Option (List Byte) :=
  peek k.aesdDevice.entryToInsertInCb.buffptr 0 k.aesdDevice.entryToInsertInCb.size k.heap

private theorem mapM_peek {h : Heap} {w : List Entry} {bs : List (List Byte)}
    (hw : List.Forall₂ (Holds h) w bs) : w.mapM (fun e => peek e.buffptr 0 e.size h) = some bs := by
  induction hw with
  | nil => rfl
  | cons hb _ ih =>
    rw [List.mapM_cons, ih, hb.peek_text]
    rfl

theorem Shows.storedTexts_eq {k : Kernel} {v : DeviceView} (h : Shows k v) :
    k.storedTexts = some v.stored := mapM_peek h.stored

/-- The live slots hold the journal's last ten entries. -/
theorem Mirrors.storedTexts_eq {s : Sys} {j : Journal Byte} (h : Mirrors s j) :
    s.kernel.storedTexts = some (j.committed.rtake maxWriteOperationsSupported) := by
  obtain ⟨v, hs, hst, _⟩ := h
  rw [hs.kernel.storedTexts_eq, hst]

/-- The preserved entry holds the journal's pending bytes. -/
theorem Mirrors.pendingText_eq {s : Sys} {j : Journal Byte} (h : Mirrors s j) :
    s.kernel.pendingText = some j.pending := by
  obtain ⟨v, hs, _, hp⟩ := h
  have hpend := hs.kernel.pending
  unfold Kernel.pendingText
  cases hv : v.pending with
  | empty held =>
    rw [hv] at hp hpend
    rw [show j.pending = [] from hp, hpend.1, peek_zero]
  | text t =>
    rw [hv] at hp hpend
    obtain ⟨_, hb⟩ := hpend
    rw [show j.pending = t from hp, hb.peek_text]
  | lost n =>
    rw [hv] at hp
    exact hp.elim

structure DeviceWrite where
  file : Nat
  buf : List Byte
  grant : Grant
  uncopied : Nat

namespace DeviceWrite

def op (w : DeviceWrite) : Op := .write w.file ⟨some w.buf, true, some w.grant, w.uncopied⟩

def chunk (w : DeviceWrite) : List Byte := accepted w.buf w.uncopied

end DeviceWrite

/-- Granted writes mirror the journal from any state that does. -/
theorem run_writes_mirror {s : Sys} {j : Journal Byte} (h : Mirrors s j) (ws : List DeviceWrite) :
    ∃ s' rs, driver.run s (ws.map DeviceWrite.op) = some (s', rs) ∧
      Mirrors s' ((ws.map DeviceWrite.chunk).foldl (Journal.accept newline) j) ∧
      rs.map Reply.ret = (ws.map fun w => (w.chunk.length : Int)) ∧ s'.files = s.files := by
  induction ws generalizing s j with
  | nil => exact ⟨s, [], rfl, h, rfl, rfl⟩
  | cons w ws ih =>
    obtain ⟨s₁, r, hstep, h₁, hret, _, hfiles⟩ := step_write_mirrors h w.file w.buf w.grant w.uncopied
    obtain ⟨s₂, rs, hrun, h₂, hrets, hfiles'⟩ := ih h₁
    refine ⟨s₂, r :: rs, ?_, h₂, ?_, hfiles'.trans hfiles⟩
    · rw [List.map_cons, DeviceWrite.op, driver.run_cons_of_step hstep, hrun]
      rfl
    · rw [List.map_cons, List.map_cons, hret, hrets]
      rfl

/-- aesd_write refines the store of the last ten entries: after any granted writes,
of any sizes and with any partial copies, the ring read from out_offs and the
preserved entry are the store's entries and pending bytes, every call has returned
the length of what it accepted, and no accepted byte is lost, duplicated or moved. -/
theorem aesd_write_refines_bounded_store (ws : List DeviceWrite) :
    let cs := ws.map DeviceWrite.chunk
    let d := cs.foldl (Bounded.accept maxWriteOperationsSupported newline) .empty
    ∃ s rs, driver.run Sys.loaded (ws.map DeviceWrite.op) = some (s, rs) ∧
      s.kernel.storedTexts = some d.entries ∧ s.kernel.pendingText = some d.pending ∧
      rs.map Reply.ret = cs.map (fun c => (c.length : Int)) ∧
      newline ∉ d.pending ∧ (∀ b ∈ d.entries, b ≠ []) ∧
      (Bounded.evicted maxWriteOperationsSupported newline .empty cs ++ d.entries).flatten ++ d.pending =
        cs.flatten := by
  intro cs d
  obtain ⟨s, rs, hrun, hm, hrets, _⟩ := run_writes_mirror mirrors_loaded ws
  have hlined := (Journal.lined_empty newline).foldl cs
  have hstream := Journal.stream_foldl newline .empty cs
  obtain ⟨hd, he⟩ := Journal.bounded_foldl maxWriteOperationsSupported newline .empty cs
  rw [show (Journal.empty : Journal Byte).bounded _ = Bounded.empty from rfl] at hd he
  have hentries : d.entries = (cs.foldl (Journal.accept newline) .empty).committed.rtake
      maxWriteOperationsSupported := by rw [show d = _ from hd.symm]; rfl
  have hpending : d.pending = (cs.foldl (Journal.accept newline) .empty).pending := by
    rw [show d = _ from hd.symm]; rfl
  refine ⟨s, rs, hrun, by rw [hm.storedTexts_eq, hentries], by rw [hm.pendingText_eq, hpending],
    by simpa [cs, Function.comp_def] using hrets, hpending ▸ hlined.pending, ?_, ?_⟩
  · intro b hb
    rw [hentries] at hb
    exact List.ne_nil_of_mem (hlined.committed b ((rtake_suffix _ _).subset hb))
  · have hev : Bounded.evicted maxWriteOperationsSupported newline .empty cs =
        (cs.foldl (Journal.accept newline) .empty).committed.rdrop maxWriteOperationsSupported := by
      rw [he]
      rfl
    rw [hev, hentries, hpending, rdrop_append_rtake]
    simpa [Journal.stream, Journal.empty] using hstream

end Aesd.Driver
