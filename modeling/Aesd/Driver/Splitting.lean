import Aesd.Driver.StreamLaw
import Aesd.Foundations.LineSplitting

/-! What the way a stream is split into writes changes: nothing but where the entries
end. A write commits everything accumulated, so it is the ends of the writes with a
newline that count, and an entry is one command when no write goes on after a newline. -/
namespace Aesd.Driver
open Aesd.Foundations

def Closed (ws : List DeviceWrite) : Prop := ∀ w ∈ ws, newline ∉ w.chunk.dropLast

instance (ws : List DeviceWrite) : Decidable (Closed ws) :=
  inferInstanceAs (Decidable (∀ w ∈ ws, newline ∉ w.chunk.dropLast))

/-- The stream positions at which the writes with a newline end. -/
def commitPositions (ws : List DeviceWrite) : List Nat :=
  Journal.commitEnds newline 0 (ws.map DeviceWrite.chunk)

/-- The two runs from a fresh device end with the same stored entries, the same pending
bytes, and the same answer to every read. -/
def EndAlike (ws ws' : List DeviceWrite) : Prop :=
  ∃ s rs s' rs', driver.run Sys.loaded (ws.map DeviceWrite.op) = some (s, rs) ∧
    driver.run Sys.loaded (ws'.map DeviceWrite.op) = some (s', rs') ∧
    s.kernel.storedTexts = s'.kernel.storedTexts ∧ s.kernel.pendingText = s'.kernel.pendingText ∧
    ∀ f n uncopied, (driver.step s (.read f ⟨true, n, true, uncopied⟩)).map Prod.snd =
      (driver.step s' (.read f ⟨true, n, true, uncopied⟩)).map Prod.snd

/-- The run ends with entries that are one newline-terminated command each, and with
what follows the last newline of the stream pending. -/
def StoresCommands (ws : List DeviceWrite) : Prop :=
  ∃ s rs entries, driver.run Sys.loaded (ws.map DeviceWrite.op) = some (s, rs) ∧
    s.kernel.storedTexts = some entries ∧
    (∀ b ∈ entries, ∃ command, b = command ++ [newline] ∧ newline ∉ command) ∧
    s.kernel.pendingText = some ((ws.map DeviceWrite.chunk).flatten.rtakeWhile fun b => b ≠ newline)

/-- The write that follows these commits its whole chunk, as the end of one entry. -/
def CommitsWhole (us : List DeviceWrite) (w : DeviceWrite) : Prop :=
  ∃ s rs s' r entries pending, driver.run Sys.loaded (us.map DeviceWrite.op) = some (s, rs) ∧
    s.kernel.storedTexts = some entries ∧ s.kernel.pendingText = some pending ∧
    driver.step s w.op = some (s', r) ∧
    s'.kernel.storedTexts = some ((entries ++ [pending ++ w.chunk]).rtake maxWriteOperationsSupported) ∧
    s'.kernel.pendingText = some []

section Runs
variable {ws ws' : List DeviceWrite}

theorem endAlike_of_journal_eq (h : (ws.map DeviceWrite.chunk).foldl (Journal.accept newline) .empty =
    (ws'.map DeviceWrite.chunk).foldl (Journal.accept newline) .empty) : EndAlike ws ws' := by
  obtain ⟨s, rs, hrun, hm, _, hfiles⟩ := run_writes_mirror mirrors_loaded ws
  obtain ⟨s', rs', hrun', hm', _, hfiles'⟩ := run_writes_mirror mirrors_loaded ws'
  rw [← h] at hm'
  refine ⟨s, rs, s', rs', hrun, hrun', hm.storedTexts_eq.trans hm'.storedTexts_eq.symm,
    hm.pendingText_eq.trans hm'.pendingText_eq.symm, fun f n uncopied => ?_⟩
  obtain ⟨v, hs, hst, _⟩ := hm
  obtain ⟨v', hs', hst', _⟩ := hm'
  rw [step_read_shows hs, step_read_shows hs', Option.map_some, Option.map_some, hfiles, hfiles',
    show v.stored = v'.stored from hst.trans hst'.symm]

theorem Closed.journal_eq (h : Closed ws) : (ws.map DeviceWrite.chunk).foldl (Journal.accept newline) .empty =
    Journal.ofStream newline .empty (ws.map DeviceWrite.chunk).flatten := by
  apply Journal.foldl_accept_eq_ofStream _ (Journal.lined_empty newline)
  intro c hc
  obtain ⟨w, hw, rfl⟩ := List.mem_map.mp hc
  exact h w hw

theorem Closed.storesCommands (h : Closed ws) : StoresCommands ws := by
  obtain ⟨s, rs, hrun, hm, _⟩ := run_writes_mirror mirrors_loaded ws
  rw [h.journal_eq] at hm
  refine ⟨s, rs, _, hrun, hm.storedTexts_eq, fun b hb => ?_, ?_⟩
  · exact Journal.ofStream_line _ b ((rtake_suffix _ _).subset hb)
  · rw [hm.pendingText_eq, Journal.ofStream_pending]

theorem commitsWhole (us : List DeviceWrite) {w : DeviceWrite} (hw : newline ∈ w.chunk) : CommitsWhole us w := by
  obtain ⟨s, rs, hrun, hm, _⟩ := run_writes_mirror mirrors_loaded us
  obtain ⟨s', r, hstep, hm', _⟩ := step_write_mirrors hm w.file w.buf w.grant w.uncopied
  have haccept := Journal.accept_of_mem (List.mem_append_right
    ((us.map DeviceWrite.chunk).foldl (Journal.accept newline) .empty).pending hw)
  rw [show accepted w.buf w.uncopied = w.chunk from rfl, haccept] at hm'
  refine ⟨s, rs, s', r, _, _, hrun, hm.storedTexts_eq, hm.pendingText_eq, hstep, ?_, hm'.pendingText_eq⟩
  rw [hm'.storedTexts_eq, rtake_rtake_append]

end Runs

/-- The splitting law: two splittings of one stream end alike if their writes with a
newline end at the same positions, in particular if no write of either goes on after
a newline; and then the entries are the newline-terminated commands. What a write
carries after a newline goes into the entry that it commits. -/
theorem splitting_invisible_between_commands (ws ws' : List DeviceWrite)
    (h : (ws.map DeviceWrite.chunk).flatten = (ws'.map DeviceWrite.chunk).flatten) :
    (commitPositions ws = commitPositions ws' → EndAlike ws ws') ∧
    (Closed ws → Closed ws' → EndAlike ws ws') ∧ (Closed ws → StoresCommands ws) ∧
    ∀ us w, us ++ [w] <+: ws → newline ∈ w.chunk → CommitsWhole us w := by
  refine ⟨fun he => ?_, fun hc hc' => ?_, Closed.storesCommands, fun us w _ hw => commitsWhole us hw⟩
  · exact endAlike_of_journal_eq (Journal.foldl_eq_of_commitEnds h he)
  · apply endAlike_of_journal_eq
    rw [hc.journal_eq, hc'.journal_eq, h]

/-- "a\nb\n" as two writes and as three. -/
theorem splitting_two_commands :
    let ws : List DeviceWrite := [⟨0, [97, 10], .above 0, 0⟩, ⟨0, [98, 10], .above 0, 0⟩]
    let ws' : List DeviceWrite := [⟨0, [97], .above 0, 0⟩, ⟨0, [10], .above 0, 0⟩, ⟨0, [98, 10], .above 0, 0⟩]
    EndAlike ws ws' ∧ StoresCommands ws := by
  intro ws ws'
  have h := splitting_invisible_between_commands ws ws' rfl
  exact ⟨h.1 (by decide), h.2.2.1 (by decide)⟩

/-- "a\nb\n" as one write is one entry, and as two writes it is two. -/
theorem splitting_visible_after_newline :
    let ws : List DeviceWrite := [⟨0, [97, 10, 98, 10], .above 0, 0⟩]
    let ws' : List DeviceWrite := [⟨0, [97, 10], .above 0, 0⟩, ⟨0, [98, 10], .above 0, 0⟩]
    (ws.map DeviceWrite.chunk).flatten = (ws'.map DeviceWrite.chunk).flatten ∧ ¬EndAlike ws ws' := by
  intro ws ws'
  refine ⟨rfl, ?_⟩
  rintro ⟨s, rs, s', rs', hrun, hrun', htexts, _⟩
  have hone : (driver.run Sys.loaded (ws.map DeviceWrite.op)).map (fun p => p.1.kernel.storedTexts) =
      some (some [[97, 10, 98, 10]]) := by decide
  have htwo : (driver.run Sys.loaded (ws'.map DeviceWrite.op)).map (fun p => p.1.kernel.storedTexts) =
      some (some [[97, 10], [98, 10]]) := by decide
  rw [hrun, Option.map_some, htexts] at hone
  rw [hrun', Option.map_some] at htwo
  exact absurd (hone.symm.trans htwo) (by decide)

end Aesd.Driver
