import Aesd.Driver.StreamLaw

/-! What readers can learn. As long as no allocation succeeds for a lost text, every
byte a read returns was copied from a user, and fresh memory makes no difference. -/
namespace Aesd.Driver
open Aesd.Foundations

/-- The call with the fresh memory it is granted filled with zeros. -/
def Op.blank : Op → Op
  | .write f ⟨buf, lock, alloc, uncopied⟩ =>
    .write f ⟨buf, lock, alloc.map fun g => { g with junk := fun _ => 0 }, uncopied⟩
  | op => op

/-- Calls that agree up to fresh memory are the same read, or writes that agree in
everything but the grant, which both have or both lack. -/
theorem Op.blank_eq {op op' : Op} (h : op.blank = op'.blank) :
    op = op' ∨ ∃ f buf lock alloc alloc' uncopied, op = .write f ⟨buf, lock, alloc, uncopied⟩ ∧
      op' = .write f ⟨buf, lock, alloc', uncopied⟩ ∧ alloc.isSome = alloc'.isSome := by
  cases op with
  | read f call =>
    cases op' with
    | read f' call' => exact .inl h
    | write f' call' => exact absurd h (by simp [blank])
  | write f call =>
    cases op' with
    | read f' call' => exact absurd h (by simp [blank])
    | write f' call' =>
      obtain ⟨buf, lock, alloc, uncopied⟩ := call
      obtain ⟨buf', lock', alloc', uncopied'⟩ := call'
      simp only [blank, Op.write.injEq, WriteCall.mk.injEq] at h
      obtain ⟨rfl, rfl, rfl, ha, rfl⟩ := h
      refine .inr ⟨f, buf, lock, alloc, alloc', uncopied, rfl, rfl, ?_⟩
      simpa using congrArg Option.isSome ha

/-- Every byte that the next call returns is the one that some earlier write copied
from a user to that place of the stream of all writes. -/
def ReturnsCopied (done : List Op) (op : Op) : Prop :=
  ∃ s rs s' r, driver.run Sys.loaded done = some (s, rs) ∧ driver.step s op = some (s', r) ∧
    ∀ f call, op = .read f call → ∀ i b, r.data[i]? = some b →
      (done.map chunk).flatten[evictedBytes (journal done) + (s.files f).fPos + i]? = some b

/-- Nothing but what users wrote is ever returned: every read returns copied bytes, and
the run answers every call alike whatever fresh memory contains. -/
def NoDisclosure (ops : List Op) : Prop :=
  (∀ done op, done ++ [op] <+: ops → ReturnsCopied done op) ∧
  ∀ ops' : List Op, ops'.map Op.blank = ops.map Op.blank →
    ∃ s rs s' rs', driver.run Sys.loaded ops = some (s, rs) ∧ driver.run Sys.loaded ops' = some (s', rs') ∧
      rs.map Reply.data = rs'.map Reply.data

section Provenance

/-- Without a revival a run never leaves the journal. -/
theorem run_follows {ops : List Op} (h : driver.Along (fun s op => ¬RevivesLost s op) Sys.loaded ops) :
    ∃ s rs, driver.run Sys.loaded ops = some (s, rs) ∧ Follows s (journal ops) := by
  obtain ⟨s, rs, hrun, ⟨hf, _⟩, _⟩ := driver.run_simulates
    (R := fun s j => Follows s j ∧ j.Lined newline) (F := fun j op => j.accept newline (chunk op))
    (A := fun _ _ => True)
    (fun s j op hR hop => by
      obtain ⟨s', r, hstep, hf⟩ := step_follows hR.2 hR.1 op hop
      exact ⟨s', r, hstep, ⟨hf, hR.2.accept _⟩, trivial⟩)
    ⟨mirrors_loaded.follows, Journal.lined_empty newline⟩ h
  exact ⟨s, rs, hrun, hf⟩

private theorem stored_getElem {j : Journal Byte} {p n i : Nat} {b : Byte}
    (h : (((j.committed.rtake maxWriteOperationsSupported).flatten.drop p).take n)[i]? = some b) :
    j.stream[evictedBytes j + p + i]? = some b := by
  obtain ⟨hi, _⟩ := List.getElem?_eq_some_iff.mp h
  rw [List.length_take] at hi
  rw [List.getElem?_take_of_lt (by omega), ← drop_committed, List.getElem?_drop] at h
  rwa [Journal.stream, List.getElem?_append_left (List.getElem?_eq_some_iff.mp h).1]

/-- After a run that revives no lost text, the next call returns copied bytes. -/
theorem returns_copied {done : List Op} {op : Op}
    (h : driver.Along (fun s op => ¬RevivesLost s op) Sys.loaded done) : ReturnsCopied done op := by
  obtain ⟨s, rs, hrun, v, hs, hst, _⟩ := run_follows h
  obtain ⟨s', r, hstep, _⟩ := step_shows hs op
  refine ⟨s, rs, s', r, hrun, hstep, ?_⟩
  rintro f call rfl i b hb
  rcases (Op.read f call).cases_refusal with ⟨e, he⟩ | ⟨_, count, uncopied, hop⟩ | ⟨_, _, _, _, hop⟩
  · rw [step_refused_shows hs he] at hstep
    obtain ⟨_, rfl⟩ := Prod.mk.inj (Option.some.inj hstep)
    simp at hb
  · obtain ⟨rfl, rfl⟩ := Op.read.inj hop
    rw [step_read_shows hs, show v.stored = _ from hst] at hstep
    obtain ⟨_, rfl⟩ := Prod.mk.inj (Option.some.inj hstep)
    rw [← journal_stream]
    exact stored_getElem hb
  · exact absurd hop (by simp)

end Provenance

section TwoRuns
variable {s s' : Sys} {v : DeviceView}

/-- Two states of the driver with the same contents, in memory laid out in two ways. -/
structure Alike (v : DeviceView) (s s' : Sys) : Prop where
  left : SysShows s v
  right : SysShows s' v
  positions : ∀ f, (s.files f).fPos = (s'.files f).fPos

/-- A write that revives no lost text stores the same whatever fresh memory contains. -/
theorem write_alike (hs : SysShows s v) {f : Nat} {buf : List Byte} {alloc alloc' : Option Grant}
    {uncopied : Nat} (ha : alloc.isSome = alloc'.isSome)
    (hop : ¬RevivesLost s (.write f ⟨some buf, true, alloc, uncopied⟩)) :
    v.write buf alloc uncopied = v.write buf alloc' uncopied := by
  match alloc, alloc' with
  | none, none => rfl
  | some g, some g' =>
    have hk : v.pending.kept g = v.pending.kept g' := by
      have hp := hs.kernel.pending
      cases hv : v.pending with
      | empty held => rfl
      | text b => rfl
      | lost n =>
        rw [hv] at hp
        exact absurd ⟨hp.2.1 ▸ hp.1, hp.2.2⟩ hop
    simp only [DeviceView.write, hk]

/-- Two states with the same contents answer a call alike and keep the same contents. -/
theorem step_alike (h : Alike v s s') {op op' : Op} (hb : op'.blank = op.blank) (hop : ¬RevivesLost s op) :
    ∃ t r t' r' w, driver.step s op = some (t, r) ∧ driver.step s' op' = some (t', r') ∧
      r.data = r'.data ∧ Alike w t t' := by
  rcases op.cases_refusal with ⟨e, he⟩ | ⟨f, count, uncopied, rfl⟩ | ⟨f, buf, alloc, uncopied, rfl⟩
  · have he' : op'.refusal = some e := by
      rcases Op.blank_eq hb with rfl | ⟨f, buf, lock, alloc, alloc', uncopied, rfl, rfl, _⟩
      · exact he
      · cases buf <;> cases lock <;> exact he
    exact ⟨_, _, _, _, v, step_refused_shows h.left he, step_refused_shows h.right he', rfl, h⟩
  · rcases Op.blank_eq hb with rfl | ⟨_, _, _, _, _, _, _, hread, _⟩
    · have hp := h.positions f
      refine ⟨_, _, _, _, v, step_read_shows h.left f count uncopied, step_read_shows h.right f count uncopied,
        by rw [hp], ⟨h.left.kernel, update_opened h.left f _⟩, ⟨h.right.kernel, update_opened h.right f _⟩, ?_⟩
      intro g
      by_cases hg : g = f
      · subst hg
        simp only [Function.update_self, hp]
      · simpa only [Function.update_of_ne hg] using h.positions g
    · exact absurd hread (by simp)
  · obtain ⟨alloc', rfl, ha⟩ : ∃ alloc', op' = .write f ⟨some buf, true, alloc', uncopied⟩ ∧
        alloc.isSome = alloc'.isSome := by
      rcases Op.blank_eq hb with rfl | ⟨f', buf', lock', alloc', alloc'', uncopied', rfl, hw, ha⟩
      · exact ⟨alloc, rfl, rfl⟩
      · simp only [Op.write.injEq, WriteCall.mk.injEq] at hw
        obtain ⟨rfl, rfl, rfl, rfl, rfl⟩ := hw
        exact ⟨alloc', rfl, ha.symm⟩
    obtain ⟨k, r, hstep, hv, _, hdata, _⟩ := step_write_shows h.left f buf alloc uncopied
    obtain ⟨k', r', hstep', hv', _, hdata', _⟩ := step_write_shows h.right f buf alloc' uncopied
    rw [← write_alike h.left ha hop] at hv'
    exact ⟨_, r, _, r', _, hstep, hstep', hdata.trans hdata'.symm, ⟨hv, h.left.opened⟩,
      ⟨hv', h.right.opened⟩, h.positions⟩

/-- Runs that revive no lost text and agree up to fresh memory return the same bytes. -/
theorem run_alike (h : Alike v s s') {ops ops' : List Op} (hb : ops'.map Op.blank = ops.map Op.blank)
    (hops : driver.Along (fun s op => ¬RevivesLost s op) s ops) :
    ∃ t rs t' rs', driver.run s ops = some (t, rs) ∧ driver.run s' ops' = some (t', rs') ∧
      rs.map Reply.data = rs'.map Reply.data := by
  induction ops generalizing v s s' ops' with
  | nil =>
    obtain rfl : ops' = [] := List.map_eq_nil_iff.mp hb
    exact ⟨s, [], s', [], rfl, rfl, rfl⟩
  | cons op ops ih =>
    obtain ⟨op', ops', rfl⟩ := List.exists_cons_of_ne_nil
      (show ops' ≠ [] from fun he => absurd hb (by simp [he]))
    obtain ⟨hop', hrest⟩ := List.cons.inj hb
    obtain ⟨t, r, t', r', w, hstep, hstep', hdata, hw⟩ := step_alike h hop' hops.1
    obtain ⟨u, rs, u', rs', hrun, hrun', hdatas⟩ := ih hw hrest (hops.2 t r hstep)
    refine ⟨u, r :: rs, u', r' :: rs', ?_, ?_, by rw [List.map_cons, List.map_cons, hdata, hdatas]⟩
    · rw [driver.run_cons_of_step hstep, hrun]
      rfl
    · rw [driver.run_cons_of_step hstep', hrun']
      rfl

end TwoRuns

/-- No run in which no allocation succeeds for a lost text discloses anything. -/
theorem no_disclosure_without_revival (ops : List Op)
    (h : driver.Along (fun s op => ¬RevivesLost s op) Sys.loaded ops) : NoDisclosure ops := by
  refine ⟨fun done op hpre => ?_, fun ops' hb => ?_⟩
  · obtain ⟨rest, rfl⟩ := hpre
    rw [List.append_assoc, driver.along_append] at h
    exact returns_copied h.1
  · exact run_alike ⟨sysShows_loaded, sysShows_loaded, fun _ => rfl⟩ hb h

/-- A committed write, one whose allocation fails, and a read of the former: nothing is disclosed. -/
theorem no_disclosure_on_failed_write :
    NoDisclosure [.write 0 ⟨some [97, 10], true, some (.above 7), 0⟩, .write 0 ⟨some [98], true, none, 0⟩,
      .read 1 ⟨true, 100, true, fun _ => 0⟩] := by
  apply no_disclosure_without_revival
  refine ⟨?_, fun s r h => ⟨id, fun s' r' h' => ⟨id, fun _ _ _ => trivial⟩⟩⟩
  rintro ⟨hsize, _⟩
  exact absurd hsize (by decide)

private def revival (b : Byte) : List Op :=
  [.write 0 ⟨some [97], true, some (.above 7), 0⟩, .write 0 ⟨some [98], true, none, 0⟩,
    .write 0 ⟨some [10], true, some (.above b), 0⟩, .read 1 ⟨true, 100, true, fun _ => 0⟩]

/-- A byte accepted before a failing krealloc is gone but still counted, and the next
allocation hands out what its memory contained in its place. -/
theorem disclosure_after_failed_krealloc :
    ¬NoDisclosure [.write 0 ⟨some [97], true, some (.above 7), 0⟩, .write 0 ⟨some [98], true, none, 0⟩,
      .write 0 ⟨some [10], true, some (.above 7), 0⟩, .read 1 ⟨true, 100, true, fun _ => 0⟩] := by
  intro h
  obtain ⟨s, rs, s', rs', hrun, hrun', hdata⟩ := (show NoDisclosure (revival 7) from h).2 (revival 8) rfl
  have hseven : (driver.run Sys.loaded (revival 7)).map (fun p => p.2.map Reply.data) =
      some [[], [], [], [7, 10]] := by decide
  have height : (driver.run Sys.loaded (revival 8)).map (fun p => p.2.map Reply.data) =
      some [[], [], [], [8, 10]] := by decide
  rw [hrun, Option.map_some, hdata] at hseven
  rw [hrun', Option.map_some] at height
  exact absurd (hseven.symm.trans height) (by decide)

end Aesd.Driver
