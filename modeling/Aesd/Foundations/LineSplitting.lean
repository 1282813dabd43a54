import Aesd.Foundations.LineJournal

/-! How a journal depends on where its stream is cut into chunks: only through the
positions at which chunks with a separator end. Cuts that never follow a separator
inside a chunk all give the journal of the stream itself, one line an entry. -/
namespace Aesd.Foundations
variable {α : Type} [DecidableEq α]

namespace Journal
variable {sep : α} {j : Journal α}

section Closed

def ofStream (sep : α) (j : Journal α) (s : List α) : Journal α :=
  s.foldl (fun j a => j.accept sep [a]) j

theorem ofStream_concat (j : Journal α) (s : List α) (a : α) :
    ofStream sep j (s ++ [a]) = (ofStream sep j s).accept sep [a] := by simp [ofStream]

theorem accept_append {c : List α} (hc : sep ∉ c) (hl : j.Lined sep) (d : List α) :
    j.accept sep (c ++ d) = (j.accept sep c).accept sep d := by
  have hpc : sep ∉ j.pending ++ c := by simp [hl.pending, hc]
  rw [accept_of_not_mem hpc]
  simp only [accept, List.append_assoc]

/-- A chunk with nothing after a separator is accepted as its elements are. -/
theorem accept_eq_ofStream {c : List α} (hc : sep ∉ c.dropLast) (hl : j.Lined sep) :
    j.accept sep c = ofStream sep j c := by
  induction c generalizing j with
  | nil => exact accept_nil hl.pending
  | cons a c ih =>
    cases c with
    | nil => rfl
    | cons b c =>
      rw [List.dropLast_cons_cons, List.mem_cons, not_or] at hc
      rw [← List.singleton_append, accept_append (by simpa using hc.1) hl, ih hc.2 (hl.accept [a])]
      rfl

/-- Every cut without elements after a separator gives the journal of the stream. -/
theorem foldl_accept_eq_ofStream {cs : List (List α)} (hcs : ∀ c ∈ cs, sep ∉ c.dropLast) (hl : j.Lined sep) :
    cs.foldl (accept sep) j = ofStream sep j cs.flatten := by
  induction cs generalizing j with
  | nil => rfl
  | cons c cs ih =>
    have hc := accept_eq_ofStream (hcs c List.mem_cons_self) hl
    rw [List.foldl_cons, ih (fun d hd => hcs d (List.mem_cons_of_mem c hd)) (hl.accept c), hc,
      List.flatten_cons, ofStream, ofStream, ofStream, List.foldl_append]

/-- In the journal of a stream an entry is one line, ending at its only separator. -/
theorem ofStream_line (s : List α) :
    ∀ b ∈ (ofStream sep .empty s).committed, ∃ body, b = body ++ [sep] ∧ sep ∉ body := by
  induction s using List.reverseRecOn with
  | nil => simp [ofStream, empty]
  | append_singleton s a ih =>
    have hl : (ofStream sep .empty s).Lined sep := by
      have h := (lined_empty sep).foldl (s.map fun a => [a])
      rwa [List.foldl_map] at h
    rw [ofStream_concat]
    by_cases ha : sep ∈ (ofStream sep .empty s).pending ++ [a]
    · have hsa : a = sep := by simpa [hl.pending, eq_comm] using ha
      rw [accept_of_mem ha, hsa]
      intro b hb
      rcases List.mem_append.mp hb with hb | hb
      · exact ih b hb
      · exact ⟨_, List.mem_singleton.mp hb, hl.pending⟩
    · rw [accept_of_not_mem ha]
      exact ih

/-- What stays pending of a stream is what follows its last separator. -/
theorem ofStream_pending (s : List α) :
    (ofStream sep .empty s).pending = s.rtakeWhile fun a => a ≠ sep := by
  induction s using List.reverseRecOn with
  | nil => rfl
  | append_singleton s a ih =>
    have hnot : sep ∉ (ofStream sep .empty s).pending := by
      rw [ih]
      intro hm
      simpa using List.mem_rtakeWhile_imp hm
    rw [ofStream_concat, List.rtakeWhile_concat, accept, ← ih]
    by_cases ha : a = sep
    · simp [ha]
    · simp [hnot, ha, Ne.symm ha]

end Closed

section Ends

/-- Where the segments of a list end, counting from a position on. -/
def ends : Nat → List (List α) → List Nat
  | _, [] => []
  | n, e :: es => (n + e.length) :: ends (n + e.length) es

def commitEnds (sep : α) : Nat → List (List α) → List Nat
  | _, [] => []
  | n, c :: cs =>
    if sep ∈ c then (n + c.length) :: commitEnds sep (n + c.length) cs else commitEnds sep (n + c.length) cs

omit [DecidableEq α] in
theorem ends_append (n : Nat) (es es' : List (List α)) :
    ends n (es ++ es') = ends n es ++ ends (n + es.flatten.length) es' := by
  induction es generalizing n with
  | nil => rfl
  | cons e es ih => simp only [List.cons_append, ends, ih, List.flatten_cons, List.length_append, Nat.add_assoc]

omit [DecidableEq α] in
theorem map_length_of_ends {n : Nat} {es es' : List (List α)} (h : ends n es = ends n es') :
    es.map List.length = es'.map List.length := by
  induction es generalizing n es' with
  | nil =>
    cases es' with
    | nil => rfl
    | cons e' es' => exact absurd h (by simp [ends])
  | cons e es ih =>
    cases es' with
    | nil => exact absurd h (by simp [ends])
    | cons e' es' =>
      obtain ⟨hn, hrest⟩ := List.cons.inj h
      have he : e.length = e'.length := Nat.add_left_cancel hn
      rw [← he] at hrest
      rw [List.map_cons, List.map_cons, he, ih hrest]

/-- Entries end where the chunks with a separator do. -/
theorem ends_foldl (hl : j.Lined sep) (cs : List (List α)) :
    ends 0 (cs.foldl (accept sep) j).committed = ends 0 j.committed ++ commitEnds sep j.stream.length cs := by
  induction cs generalizing j with
  | nil => simp [commitEnds]
  | cons c cs ih =>
    have hlen : (j.accept sep c).stream.length = j.stream.length + c.length := by
      rw [stream_accept, List.length_append]
    rw [List.foldl_cons, ih (hl.accept c), hlen, commitEnds]
    by_cases hc : sep ∈ c
    · rw [accept_of_mem (List.mem_append_right _ hc), ends_append, if_pos hc]
      simp [ends, stream, Nat.add_assoc]
    · rw [accept_of_not_mem (by simp [hl.pending, hc]), if_neg hc]

/-- Two cuts of one stream give the same journal if they commit at the same positions. -/
theorem foldl_eq_of_commitEnds {cs cs' : List (List α)} (hs : cs.flatten = cs'.flatten)
    (he : commitEnds sep 0 cs = commitEnds sep 0 cs') :
    cs.foldl (accept sep) .empty = cs'.foldl (accept sep) .empty := by
  have hstream := stream_foldl sep .empty cs
  have hstream' := stream_foldl sep .empty cs'
  have hends := ends_foldl (lined_empty sep) cs
  have hends' := ends_foldl (lined_empty sep) cs'
  rw [show (empty : Journal α).stream.length = 0 from rfl, he] at hends
  rw [show (empty : Journal α).stream.length = 0 from rfl] at hends'
  have hlen := map_length_of_ends (hends.trans hends'.symm)
  rw [hs, ← hstream', stream, stream] at hstream
  have hcl : (cs.foldl (accept sep) .empty).committed.flatten.length =
      (cs'.foldl (accept sep) .empty).committed.flatten.length := by
    rw [List.length_flatten, List.length_flatten, hlen]
  obtain ⟨hc, hp⟩ := List.append_inj hstream hcl
  have hcommitted := List.eq_iff_flatten_eq.mpr ⟨hc, hlen⟩
  generalize cs.foldl (accept sep) .empty = k at hcommitted hp ⊢
  generalize cs'.foldl (accept sep) .empty = k' at hcommitted hp ⊢
  cases k
  cases k'
  simp_all

end Ends

end Journal
end Aesd.Foundations
