import Aesd.Foundations.RingWindow

/-! A stream accepted in chunks and committed line by line: a chunk that brings a
separator commits everything accumulated so far. The journal keeps every entry; a
bounded store keeps the last few and drops the rest. -/
namespace Aesd.Foundations
variable {α : Type} [DecidableEq α]

/-- Every committed entry, and what has accumulated since the last commit. -/
structure Journal (α : Type) where
  committed : List (List α)
  pending : List α
  deriving DecidableEq, Repr

namespace Journal

def empty : Journal α := ⟨[], []⟩

def accept (sep : α) (j : Journal α) (c : List α) : Journal α :=
  if sep ∈ j.pending ++ c then ⟨j.committed ++ [j.pending ++ c], []⟩ else ⟨j.committed, j.pending ++ c⟩

def stream (j : Journal α) : List α := j.committed.flatten ++ j.pending

/-- Entries carry the separator and what is pending does not. -/
structure Lined (sep : α) (j : Journal α) : Prop where
  committed : ∀ b ∈ j.committed, sep ∈ b
  pending : sep ∉ j.pending

variable (sep : α)

omit [DecidableEq α] in
theorem lined_empty : (empty : Journal α).Lined sep := ⟨by simp [empty], by simp [empty]⟩

variable {sep} {j : Journal α}

theorem accept_of_mem {c : List α} (h : sep ∈ j.pending ++ c) :
    j.accept sep c = ⟨j.committed ++ [j.pending ++ c], []⟩ := if_pos h

theorem accept_of_not_mem {c : List α} (h : sep ∉ j.pending ++ c) :
    j.accept sep c = ⟨j.committed, j.pending ++ c⟩ := if_neg h

theorem accept_nil (h : sep ∉ j.pending) : j.accept sep [] = j := by
  rw [accept_of_not_mem (by simpa using h), List.append_nil]

/-- Accepting loses, duplicates and reorders nothing. -/
theorem stream_accept (j : Journal α) (c : List α) : (j.accept sep c).stream = j.stream ++ c := by
  unfold accept stream
  split <;> simp

theorem Lined.accept (h : j.Lined sep) (c : List α) : (j.accept sep c).Lined sep := by
  by_cases hc : sep ∈ j.pending ++ c
  · rw [accept_of_mem hc]
    refine ⟨fun b hb => ?_, by simp⟩
    rcases List.mem_append.mp hb with hb | hb
    · exact h.committed b hb
    · rwa [List.mem_singleton.mp hb]
  · rw [accept_of_not_mem hc]
    exact ⟨h.committed, hc⟩

theorem stream_foldl (sep : α) (j : Journal α) (cs : List (List α)) :
    (cs.foldl (accept sep) j).stream = j.stream ++ cs.flatten := by
  induction cs generalizing j with
  | nil => simp
  | cons c cs ih => rw [List.foldl_cons, ih, stream_accept, List.flatten_cons, List.append_assoc]

theorem Lined.foldl (h : j.Lined sep) (cs : List (List α)) :
    (cs.foldl (Journal.accept sep) j).Lined sep := by
  induction cs generalizing j with
  | nil => exact h
  | cons c cs ih => exact ih (h.accept c)

/-- What is committed stays committed, in front of what comes later. -/
theorem committed_prefix_accept (sep : α) (j : Journal α) (c : List α) :
    j.committed <+: (j.accept sep c).committed := by
  unfold accept
  split
  · exact List.prefix_append _ _
  · exact List.prefix_rfl

theorem committed_prefix_foldl (sep : α) (j : Journal α) (cs : List (List α)) :
    j.committed <+: (cs.foldl (accept sep) j).committed := by
  induction cs generalizing j with
  | nil => exact List.prefix_rfl
  | cons c cs ih => exact (committed_prefix_accept sep j c).trans (ih _)

end Journal

/-- A bounded store: at most so many of the newest entries, and what is pending. -/
structure Bounded (α : Type) where
  entries : List (List α)
  pending : List α
  deriving DecidableEq, Repr

namespace Bounded

def empty : Bounded α := ⟨[], []⟩

def accept (cap : Nat) (sep : α) (d : Bounded α) (c : List α) : Bounded α :=
  if sep ∈ d.pending ++ c then ⟨(d.entries ++ [d.pending ++ c]).rtake cap, []⟩
  else ⟨d.entries, d.pending ++ c⟩

/-- The entries that accepting a chunk pushes out. -/
def evictedBy (cap : Nat) (sep : α) (d : Bounded α) (c : List α) : List (List α) :=
  if sep ∈ d.pending ++ c then (d.entries ++ [d.pending ++ c]).rdrop cap else []

def evicted (cap : Nat) (sep : α) : Bounded α → List (List α) → List (List α)
  | _, [] => []
  | d, c :: cs => d.evictedBy cap sep c ++ evicted cap sep (d.accept cap sep c) cs

end Bounded

namespace Journal
variable (cap : Nat) {sep : α}

def bounded (j : Journal α) : Bounded α := ⟨j.committed.rtake cap, j.pending⟩

theorem bounded_accept (j : Journal α) (c : List α) :
    (j.accept sep c).bounded cap = (j.bounded cap).accept cap sep c := by
  unfold accept bounded Bounded.accept
  split <;> simp [rtake_rtake_append]

theorem rdrop_accept (j : Journal α) (c : List α) :
    (j.accept sep c).committed.rdrop cap =
      j.committed.rdrop cap ++ (j.bounded cap).evictedBy cap sep c := by
  unfold accept bounded Bounded.evictedBy
  split <;> simp [rdrop_append_rdrop_rtake]

/-- The bounded store is the journal's end, and what it pushed out is the rest. -/
theorem bounded_foldl (sep : α) (j : Journal α) (cs : List (List α)) :
    (cs.foldl (accept sep) j).bounded cap = cs.foldl (Bounded.accept cap sep) (j.bounded cap) ∧
    (cs.foldl (accept sep) j).committed.rdrop cap =
      j.committed.rdrop cap ++ Bounded.evicted cap sep (j.bounded cap) cs := by
  induction cs generalizing j with
  | nil => simp [Bounded.evicted]
  | cons c cs ih =>
    obtain ⟨hb, he⟩ := ih (j.accept sep c)
    rw [List.foldl_cons, List.foldl_cons, hb, he, bounded_accept, rdrop_accept, Bounded.evicted,
      List.append_assoc]
    exact ⟨rfl, rfl⟩

end Journal
end Aesd.Foundations
