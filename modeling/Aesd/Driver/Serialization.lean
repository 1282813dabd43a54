import Aesd.Driver.LockDiscipline
import Aesd.Foundations.Atomicity

/-! Calls of aesd_read and aesd_write that overlap are explained by the calls one after the
other, each in one piece, in the order in which they get the mutex or are refused it. -/
namespace Aesd.Driver
open Aesd.Foundations

def callsMade (turns : List Turn) : List Op :=
  turns.filterMap fun
    | .call op => some op
    | .step _ => none

/-- The call k takes effect where it gets the mutex, or where it is refused before that. -/
def Concurrent.effectAt (s : Concurrent) (k : Nat) : Call → List Nat
  | .checkUser op =>
    match op.checkUser with
    | .returned _ => [k]
    | _ => []
  | .lock lock _ => if lock = false ∨ s.mutexLock = none then [k] else []
  | _ => []

def Concurrent.effect (s : Concurrent) : Turn → List Nat
  | .call _ => []
  | .step k => (s.calls[k]?.map (s.effectAt k)).getD []

def effects (files : Nat → File) (turns : List Turn) : List Nat :=
  concurrent.emits Concurrent.effect (.loaded files) turns

/-- The call that a call at this point was made as, as long as it has not taken effect. -/
def Call.Pending (files : Nat → File) : Call → Op → Prop
  | .start op', op => op = op'
  | .checkUser op', op => op = op' ∧ (files op.file).privateData = true
  | .lock granted q, op => op.checkUser = .lock granted q ∧ (files op.file).privateData = true
  | _, _ => False

def Call.answer : Call → Option Reply
  | .returned r => some r
  | _ => none

def Call.Waits : Call → Prop
  | .start _ | .checkUser _ | .lock .. => True
  | _ => False

def ReadPc.left : ReadPc → Nat
  | .find => 6
  | .measure .. => 5
  | .address .. => 4
  | .copyToUser .. => 3
  | .advance .. => 2

def WritePc.left : WritePc → Nat
  | .reserve => 10
  | .testBuffptr => 9
  | .copyFromUser => 8
  | .addSize _ => 7
  | .scan _ => 6
  | .addEntry _ => 5
  | .freeOldest .. => 4
  | .clearSize .. => 3
  | .clearBuffptr .. => 2

def Call.left : Call → Nat
  | .start _ => 13
  | .checkUser _ => 12
  | .lock .. => 11
  | .locked (.read _ _ _ pc) => pc.left
  | .locked (.write _ _ _ pc) => pc.left
  | .errorHandler .. => 1
  | .returned _ => 0

/-- The driver as the object of its calls. -/
def overlapping (files : Nat → File) : Guarded Sys Op Reply Call where
  object := driver
  Waits := Call.Waits
  Pending := Call.Pending files
  answer := Call.answer
  Rest := Finishes

/-- Which files have private_data is as it was when the module was loaded. -/
def Opened (files : Nat → File) (s : Sys) : Prop := ∀ f, (s.files f).privateData = (files f).privateData

section Effects
variable {files : Nat → File} {s : Concurrent} {sys sys' object : Sys} {k : Nat} {c c' : Call} {r : Reply} {op : Op}
  {made : List Op} {log : List (Effect Op Reply)}

private theorem update_privateData (fs : Nat → File) (f p g : Nat) :
    (Function.update fs f { fs f with fPos := p } g).privateData = (fs g).privateData := by
  by_cases hg : g = f
  · subst hg
    rw [Function.update_self]
  · rw [Function.update_of_ne hg]

/-- A statement of the locked part leaves fewer of them to do, and private_data as it is. -/
theorem statement_advances {body : Body} (h : body.statement sys = some (sys', c)) :
    c.left < (Call.locked body).left ∧ ∀ g, (sys'.files g).privateData = (sys.files g).privateData := by
  cases body with
  | read f count uncopied pc =>
    cases pc with
    | find =>
      simp only [Body.statement, readStatement] at h
      split at h
      · cases h
        exact ⟨by simp [Call.left, ReadPc.left], fun _ => rfl⟩
      · cases h
        exact ⟨by simp [Call.left, ReadPc.left], fun _ => rfl⟩
    | measure slot offset =>
      cases h
      exact ⟨by simp [Call.left, ReadPc.left], fun _ => rfl⟩
    | address slot offset remaining =>
      simp only [Body.statement, readStatement] at h
      split at h
      · cases h
        exact ⟨by simp [Call.left, ReadPc.left], fun _ => rfl⟩
      · cases h
        exact ⟨by simp [Call.left, ReadPc.left], fun _ => rfl⟩
    | copyToUser buffptr offset remaining =>
      obtain ⟨_, _, h⟩ := Option.bind_eq_some_iff.mp h
      cases h
      exact ⟨by simp [Call.left, ReadPc.left], fun _ => rfl⟩
    | advance copied data =>
      cases h
      exact ⟨by simp [Call.left, ReadPc.left], fun g => update_privateData ..⟩
  | write buf alloc uncopied pc =>
    cases pc with
    | reserve =>
      obtain ⟨_, _, h⟩ := Option.bind_eq_some_iff.mp h
      cases h
      exact ⟨by simp [Call.left, WritePc.left], fun _ => rfl⟩
    | testBuffptr =>
      simp only [Body.statement, writeStatement] at h
      split at h
      · cases h
        exact ⟨by simp [Call.left, WritePc.left], fun _ => rfl⟩
      · cases h
        exact ⟨by simp [Call.left, WritePc.left], fun _ => rfl⟩
    | copyFromUser =>
      obtain ⟨_, _, h⟩ := Option.bind_eq_some_iff.mp h
      obtain ⟨_, _, h⟩ := Option.bind_eq_some_iff.mp h
      cases h
      exact ⟨by simp [Call.left, WritePc.left], fun _ => rfl⟩
    | scan copied =>
      obtain ⟨_, _, h⟩ := Option.bind_eq_some_iff.mp h
      split at h
      · cases h
        exact ⟨by simp [Call.left, WritePc.left], fun _ => rfl⟩
      · cases h
        exact ⟨by simp [Call.left, WritePc.left], fun _ => rfl⟩
    | addEntry copied =>
      obtain ⟨_, _, h⟩ := Option.bind_eq_some_iff.mp h
      cases h
      exact ⟨by simp [Call.left, WritePc.left], fun _ => rfl⟩
    | freeOldest oldest copied =>
      obtain ⟨_, _, h⟩ := Option.bind_eq_some_iff.mp h
      cases h
      exact ⟨by simp [Call.left, WritePc.left], fun _ => rfl⟩
    | addSize copied | clearSize copied freed | clearBuffptr copied freed =>
      cases h
      exact ⟨by simp [Call.left, WritePc.left], fun _ => rfl⟩

theorem Finishes.privateData (h : Finishes c sys sys' r) (g : Nat) :
    (sys'.files g).privateData = (sys.files g).privateData := by
  induction h with
  | done => rfl
  | next hstmt _ ih => rw [ih, (statement_advances hstmt).2]

/-- A call with a NULL pointer from the user is refused in one piece as well. -/
theorem checkUser_refuses (h : op.checkUser = .returned r) (hopen : (sys.files op.file).privateData = true) :
    driver.step sys op = some (sys, r) := by
  cases op with
  | read f call =>
    have hf : (sys.files f).privateData = true := hopen
    rw [Op.checkUser] at h
    split at h
    · rename_i hbuf
      rw [← Call.returned.inj h]
      simp [driver, Sys.step, aesdRead, hf, hbuf]
    · exact absurd h (by simp)
  | write f call =>
    have hf : (sys.files f).privateData = true := hopen
    rw [Op.checkUser] at h
    split at h
    · rename_i hbuf
      rw [← Call.returned.inj h]
      simp [driver, Sys.step, aesdWrite, hf, hbuf]
    · exact absurd h (by simp)

/-- And so is one whose wait for the mutex is interrupted. -/
theorem lock_refuses {q : Request} (h : op.checkUser = .lock false q)
    (hopen : (sys.files op.file).privateData = true) :
    driver.step sys op = some (sys, ⟨-ERESTARTSYS, [], []⟩) := by
  cases op with
  | read f call =>
    have hf : (sys.files f).privateData = true := hopen
    rw [Op.checkUser] at h
    split at h
    · exact absurd h (by simp)
    · rename_i hbuf
      obtain ⟨hlock, _⟩ := Call.lock.inj h
      simp [driver, Sys.step, aesdRead, hf, hbuf, hlock]
  | write f call =>
    have hf : (sys.files f).privateData = true := hopen
    rw [Op.checkUser] at h
    split at h
    · exact absurd h (by simp)
    · rename_i buf hbuf
      obtain ⟨hlock, _⟩ := Call.lock.inj h
      simp [driver, Sys.step, aesdWrite, hf, hbuf, hlock]

/-- With the mutex, the rest of a call does what the call does in one piece. -/
theorem lock_performs {q : Request} {v : DeviceView} (h : op.checkUser = .lock true q)
    (hopen : (sys.files op.file).privateData = true) (hv : Shows sys.kernel v) :
    ∃ sys' r, driver.step sys op = some (sys', r) ∧ Finishes (.locked q.first) sys sys' r := by
  cases op with
  | read f call =>
    have hf : (sys.files f).privateData = true := hopen
    rw [Op.checkUser] at h
    split at h
    · exact absurd h (by simp)
    · rename_i hbuf
      obtain ⟨hlock, rfl⟩ := Call.lock.inj h
      have hread := readLocked_shows hv (sys.files f) call.count call.uncopied
      refine ⟨_, _, ?_, readLocked_finishes hread⟩
      simp [driver, Sys.step, aesdRead, hf, hbuf, hlock, hread]
  | write f call =>
    have hf : (sys.files f).privateData = true := hopen
    rw [Op.checkUser] at h
    split at h
    · exact absurd h (by simp)
    · rename_i buf hbuf
      obtain ⟨hlock, rfl⟩ := Call.lock.inj h
      obtain ⟨k', r, hwrite, _⟩ := writeLocked_shows hv buf call.alloc call.uncopied
      refine ⟨_, _, ?_, writeLocked_finishes hwrite⟩
      simp [driver, Sys.step, aesdWrite, hf, hbuf, hlock, hwrite]

private theorem effect_of_getElem? (hk : s.calls[k]? = some c) : s.effect (.step k) = s.effectAt k c := by
  rw [Concurrent.effect, hk]
  rfl

/-- The calls so far are explained by the effects in the log, which took the device to object. -/
structure Concurrent.Serialized (files : Nat → File) (made : List Op) (s : Concurrent) (object : Sys)
    (log : List (Effect Op Reply)) : Prop where
  serial : Serial (overlapping files) ⟨Kernel.loaded, files⟩ made s.sys s.mutexLock s.calls object log
  sys : Opened files s.sys
  object : Opened files object

theorem serialized_loaded (files : Nat → File) :
    (Concurrent.loaded files).Serialized files [] ⟨Kernel.loaded, files⟩ [] :=
  ⟨Serial.empty _, fun _ => rfl, fun _ => rfl⟩

def Concurrent.Explains (files : Nat → File) (made : List Op) (log : List (Effect Op Reply)) (s s' : Concurrent)
    (turn : Turn) : Prop :=
  ∃ object new, s'.Serialized files made object (log ++ new) ∧ new.map Effect.call = s.effect turn

private theorem Concurrent.Orderly.not_owner (h : s.Orderly) (hk : s.calls[k]? = some c) (hout : ¬c.Inside) :
    s.mutexLock ≠ some k :=
  fun howner => hout ((Guards.among_iff hk).mp ((h.guards k).mp howner))

namespace Concurrent.Serialized

theorem call (h : s.Serialized files made object log) (horder : s.Orderly) (op : Op) :
    Concurrent.Serialized files (made ++ [op]) { s with calls := s.calls ++ [.start op] } object log := by
  refine ⟨h.serial.call rfl rfl fun j hj => ?_, h.sys, h.object⟩
  obtain ⟨c, hc, _⟩ := (horder.guards j).mp hj
  exact (List.getElem?_eq_some_iff.mp hc).1

/-- A call that goes on outside its locked part, or stays where it is. -/
theorem move (h : s.Serialized files made object log) (horder : s.Orderly) (hk : s.calls[k]? = some c)
    (hout : ¬c.Inside) (heffect : s.effect (.step k) = []) (hw : c'.Waits → c.Waits)
    (hp : ∀ op, c.Pending files op → c'.Pending files op) (ha : c'.answer = c.answer) :
    s.Explains files made log { s with calls := s.calls.set k c' } (.step k) := by
  refine ⟨object, [], ⟨?_, h.sys, h.object⟩, heffect.symm⟩
  rw [List.append_nil]
  exact h.serial.move hk (horder.not_owner hk hout) hw hp ha

/-- A call that is refused, whoever has the mutex. -/
theorem refuse (h : s.Serialized files made object log) (horder : s.Orderly) (hk : s.calls[k]? = some c)
    (hout : ¬c.Inside) (heffect : s.effect (.step k) = [k]) (hwaits : c.Waits)
    (hrefuse : ∀ op, c.Pending files op → driver.step object op = some (object, r)) :
    s.Explains files made log { s with calls := s.calls.set k (.returned r) } (.step k) := by
  obtain ⟨op, hmade, hop, hnew⟩ := h.serial.waits k c hk hwaits
  refine ⟨object, [⟨k, op, r⟩], ⟨?_, h.sys, h.object⟩, heffect.symm⟩
  exact h.serial.refuse (horder.not_owner hk hout) hmade hnew (hrefuse op hop) id rfl

/-- The call takes effect where it gets the mutex. -/
theorem acquire {q : Request} (h : s.Serialized files made object log) (horder : s.Orderly)
    (hk : s.calls[k]? = some (.lock true q)) (hfree : s.mutexLock = none) :
    s.Explains files made log ⟨s.sys, some k, s.calls.set k (.locked q.first)⟩ (.step k) := by
  obtain ⟨op, hmade, ⟨hcheck, hopen⟩, hnew⟩ := h.serial.waits k _ hk trivial
  obtain ⟨v, hv⟩ := horder.free hfree
  obtain ⟨sys', r, hstep, hfin⟩ := lock_performs hcheck ((h.sys op.file).trans hopen) hv
  have hserial := h.serial
  rw [hfree] at hserial
  refine ⟨sys', [⟨k, op, r⟩], ⟨?_, h.sys, fun f => (hfin.privateData f).trans (h.sys f)⟩, ?_⟩
  · exact hserial.acquire hmade hnew hstep id rfl hfin
  · rw [effect_of_getElem? hk]
    exact (if_pos (.inr hfree)).symm

/-- A statement of the locked part brings the device nearer to what the call makes of it. -/
theorem inside {body : Body} (h : s.Serialized files made object log) (horder : s.Orderly)
    (hk : s.calls[k]? = some (.locked body)) (hstmt : body.statement s.sys = some (sys, c')) (hin : c'.Inside) :
    s.Explains files made log ⟨sys, s.mutexLock, s.calls.set k c'⟩ (.step k) := by
  have howner : s.mutexLock = some k := (horder.guards k).mpr ⟨_, hk, trivial⟩
  have hserial := h.serial
  rw [howner] at hserial ⊢
  have hwaits : ¬c'.Waits := by
    intro hw
    cases c' with
    | locked | errorHandler | returned => exact hw
    | _ => exact hin
  have hanswer : c'.answer = none := by
    cases c' with
    | returned => exact hin.elim
    | _ => rfl
  refine ⟨object, [], ⟨?_, fun f => ((statement_advances hstmt).2 f).trans (h.sys f), h.object⟩, ?_⟩
  · rw [List.append_nil]
    refine hserial.inside hk hwaits hanswer fun r hrest => ?_
    cases hrest with
    | next hstmt' hrest =>
      obtain ⟨rfl, rfl⟩ := Prod.mk.inj (Option.some.inj (hstmt.symm.trans hstmt'))
      exact hrest
  · rw [effect_of_getElem? hk]
    rfl

theorem release (h : s.Serialized files made object log) (horder : s.Orderly)
    (hk : s.calls[k]? = some (.errorHandler true r)) :
    s.Explains files made log ⟨s.sys, none, s.calls.set k (.returned r)⟩ (.step k) := by
  have howner : s.mutexLock = some k := (horder.guards k).mpr ⟨_, hk, trivial⟩
  have hserial := h.serial
  rw [howner] at hserial
  refine ⟨object, [], ⟨?_, h.sys, h.object⟩, ?_⟩
  · rw [List.append_nil]
    refine hserial.release hk id fun r' hrest => ?_
    cases hrest
    exact ⟨rfl, rfl⟩
  · rw [effect_of_getElem? hk]
    rfl

/-- Every statement keeps the calls explained. -/
theorem statement {lock : Option Nat} (h : s.Serialized files made object log) (horder : s.Orderly)
    (hk : s.calls[k]? = some c) (hstmt : s.statement k c = some (sys, lock, c'))
    (hfinds : ∀ op, c = .start op → (s.sys.files op.file).privateData = true)
    (hmutex : ∀ r, c ≠ .errorHandler false r) :
    s.Explains files made log ⟨sys, lock, s.calls.set k c'⟩ (.step k) := by
  have heffect := effect_of_getElem? hk
  cases c with
  | start op =>
    have hopen := hfinds op rfl
    rw [Concurrent.statement, if_pos hopen] at hstmt
    cases hstmt
    refine h.move horder hk id heffect (fun _ => trivial) (fun op' hop' => ⟨hop', ?_⟩) rfl
    obtain rfl : op' = op := hop'
    exact (h.sys op'.file).symm.trans hopen
  | checkUser op =>
    cases hstmt
    cases hcheck : op.checkUser with
    | returned r =>
      rw [Concurrent.effectAt, hcheck] at heffect
      refine h.refuse horder hk id heffect trivial fun op' hop' => ?_
      obtain ⟨rfl, hopen⟩ := hop'
      exact checkUser_refuses hcheck ((h.object op'.file).trans hopen)
    | lock lock q =>
      rw [Concurrent.effectAt, hcheck] at heffect
      refine h.move horder hk id heffect (fun _ => trivial) (fun op' hop' => ?_) rfl
      obtain ⟨rfl, hopen⟩ := hop'
      exact ⟨hcheck, hopen⟩
    | start op' | checkUser op' | locked body | errorHandler mutexP r =>
      cases op <;> (rw [Op.checkUser] at hcheck; split at hcheck <;> exact absurd hcheck (by simp))
  | lock lock q =>
    cases lock with
    | false =>
      cases hstmt
      refine h.refuse horder hk id heffect trivial fun op hop => ?_
      exact lock_refuses hop.1 ((h.object op.file).trans hop.2)
    | true =>
      cases hfree : s.mutexLock with
      | none =>
        simp only [Concurrent.statement, hfree] at hstmt
        cases hstmt
        exact h.acquire horder hk hfree
      | some j =>
        rw [Concurrent.effectAt, if_neg (by simp [hfree])] at heffect
        simp only [Concurrent.statement, hfree] at hstmt
        cases hstmt
        rw [← hfree]
        exact h.move horder hk id heffect (fun _ => trivial) (fun _ => id) rfl
  | locked body =>
    obtain ⟨⟨sys', c''⟩, hbody, he⟩ := Option.map_eq_some_iff.mp hstmt
    cases he
    obtain ⟨sys'', c'', hbody', hin, _⟩ := horder.locked hk
    obtain ⟨rfl, rfl⟩ := Prod.mk.inj (Option.some.inj (hbody.symm.trans hbody'))
    exact h.inside horder hk hbody hin
  | errorHandler mutexP r =>
    cases mutexP with
    | false => exact absurd rfl (hmutex r)
    | true =>
      rw [Concurrent.statement, if_pos ⟨rfl, (horder.guards k).mpr ⟨_, hk, trivial⟩⟩] at hstmt
      cases hstmt
      exact h.release horder hk
  | returned r =>
    cases hstmt
    exact h.move horder hk id heffect id (fun _ => id) rfl

end Concurrent.Serialized

end Effects

/-- What holds after every beginning of a run in which each call finds the device. -/
def Concurrent.Follows (files : Nat → File) (turns : List Turn) (s : Concurrent) : Prop :=
  s.Orderly ∧ s.Disciplined ∧ ∃ object log, s.Serialized files (callsMade turns) object log ∧
    log.map Effect.call = effects files turns

private theorem callsMade_concat (turns : List Turn) (turn : Turn) :
    callsMade (turns ++ [turn]) = callsMade turns ++ callsMade [turn] := List.filterMap_append

/-- No overlap of calls that find the device goes wrong, and each is explained. -/
theorem run_follows_calls (files : Nat → File) (turns : List Turn)
    (hfinds : concurrent.Along FindsDevice (.loaded files) turns) :
    ∃ s ks, concurrent.run (.loaded files) turns = some (s, ks) ∧ s.Follows files turns := by
  apply concurrent.run_history (R := Concurrent.Follows files) _ _ hfinds
  · rintro done s ks turn hrun ⟨horder, hd, object, log, hser, hcalls⟩ hfind
    have hemits : effects files (done ++ [turn]) = effects files done ++ s.effect turn := concurrent.emits_concat hrun
    simp only [Concurrent.Follows, callsMade_concat, hemits, ← hcalls]
    cases turn with
    | call op =>
      have horder' := horder.call op
      refine ⟨_, _, rfl, horder', horder'.disciplined_iff_not_mem.mpr fun r hmem => ?_, object, log,
        hser.call horder op, (List.append_nil _).symm⟩
      rcases List.mem_append.mp hmem with hold | hnew
      · exact horder.disciplined_iff_not_mem.mp hd r hold
      · exact absurd (List.mem_singleton.mp hnew) (by simp)
    | step k =>
      cases hk : s.calls[k]? with
      | none =>
        refine ⟨s, k, by simp only [concurrent, hk], horder, hd, object, log, ?_, ?_⟩
        · simpa [callsMade] using hser
        · simp [Concurrent.effect, hk]
      | some c =>
        have hfinds : ∀ op, c = .start op → (s.sys.files op.file).privateData = true :=
          fun op hop => hfind op (hop ▸ hk)
        obtain ⟨sys, lock, c', hstmt, horder', hkeeps⟩ := statement_orderly horder hd hk
        have hmutex : ∀ r, c ≠ .errorHandler false r := by
          rintro r rfl
          exact absurd (hd.unlocks k false r hk).1 (by simp)
        obtain ⟨object', new, hser', hnew⟩ := hser.statement horder hk hstmt hfinds hmutex
        refine ⟨_, k, by simp only [concurrent, hk, hstmt, Option.map_some], horder',
          (disciplined_set horder hd hk horder').mpr (hkeeps.mpr hfinds), object', log ++ new, ?_, ?_⟩
        · simpa [callsMade] using hser'
        · rw [List.map_append, hnew]
  · exact ⟨orderly_loaded files, (orderly_loaded files).disciplined_iff_not_mem.mpr (by simp [Concurrent.loaded]),
      _, [], serialized_loaded files, rfl⟩

/-- Where every file has private_data, every call finds the device. -/
theorem finds_opened {files : Nat → File} (hopen : ∀ f, (files f).privateData = true) (turns : List Turn) :
    concurrent.Along FindsDevice (.loaded files) turns := by
  induction turns using List.reverseRecOn with
  | nil => trivial
  | append_singleton turns turn ih =>
    refine concurrent.along_append.mpr ⟨ih, fun s ks hrun => ⟨?_, fun _ _ _ => trivial⟩⟩
    obtain ⟨s', ks', hrun', _, _, object, log, hser, _⟩ := run_follows_calls files turns ih
    obtain ⟨rfl, rfl⟩ := Prod.mk.inj (Option.some.inj (hrun.symm.trans hrun'))
    cases turn with
    | call op => trivial
    | step k => exact fun op _ => (hser.sys op.file).trans (hopen op.file)

/-- However calls of aesd_read and aesd_write overlap, the device and every answer are those
of the calls made one after the other, each in one piece, in the order in which they get the
mutex or are refused, as long as each finds private_data set. -/
theorem calls_serializable (files : Nat → File) (turns : List Turn)
    (hfinds : concurrent.Along FindsDevice (.loaded files) turns) :
    ∃ s ks object, ∃ log : List (Effect Op Reply), concurrent.run (.loaded files) turns = some (s, ks) ∧
      driver.run ⟨Kernel.loaded, files⟩ (log.map Effect.op) = some (object, log.map Effect.answer) ∧
      log.map Effect.call = effects files turns ∧ (effects files turns).Nodup ∧
      (∀ e ∈ log, (callsMade turns)[e.call]? = some e.op) ∧
      (∀ k r, s.calls[k]? = some (.returned r) → ∃ op, ⟨k, op, r⟩ ∈ log) ∧
      (s.mutexLock = none → s.sys = object) := by
  obtain ⟨s, ks, hrun, _, _, object, log, hser, hcalls⟩ := run_follows_calls files turns hfinds
  have h := hser.serial
  refine ⟨s, ks, object, log, hrun, h.run, hcalls, hcalls ▸ h.once, h.logged, fun k r hk => ?_, fun hfree => ?_⟩
  · exact h.answered k _ r hk rfl
  · exact (h.free hfree).symm

/-- Two writes and a read on opened files, whose statements alternate. -/
theorem calls_serializable_three_calls :
    ∃ s ks object, ∃ log : List (Effect Op Reply),
      concurrent.run (.loaded fun _ => aesdOpen)
        (.call (.write 0 ⟨some [97, 10], true, some (Grant.above 0), 0⟩) :: .call (.read 1 ⟨true, 2, true, id⟩) ::
          .call (.write 2 ⟨some [98], true, none, 0⟩) :: (List.replicate 14 [Turn.step 2, .step 1, .step 0]).flatten) =
          some (s, ks) ∧
      driver.run ⟨Kernel.loaded, fun _ => aesdOpen⟩ (log.map Effect.op) = some (object, log.map Effect.answer) ∧
      log.map Effect.call = [2, 1, 0] := by
  obtain ⟨s, ks, object, log, hrun, hobject, hcalls, _⟩ :=
    calls_serializable (fun _ => aesdOpen) _ (finds_opened (fun _ => rfl) _)
  exact ⟨s, ks, object, log, hrun, hobject, hcalls⟩

/-- A call that has returned before another is made takes effect before it. -/
theorem effects_in_real_time (files : Nat → File) (turns later : List Turn)
    (hfinds : concurrent.Along FindsDevice (.loaded files) (turns ++ later)) {s : Concurrent} {ks : List Nat}
    (hrun : concurrent.run (.loaded files) turns = some (s, ks)) {j k : Nat} {r : Reply}
    (hreturned : s.calls[j]? = some (.returned r)) (hmade : (callsMade turns).length ≤ k)
    (heffect : k ∈ effects files (turns ++ later)) : [j, k].Sublist (effects files (turns ++ later)) := by
  obtain ⟨s', ks', hrun', _, _, object, log, hser, hcalls⟩ :=
    run_follows_calls files turns (concurrent.along_append.mp hfinds).1
  obtain ⟨rfl, rfl⟩ := Prod.mk.inj (Option.some.inj (hrun.symm.trans hrun'))
  have hsplit : effects files (turns ++ later) = effects files turns ++ concurrent.emits Concurrent.effect s later :=
    concurrent.emits_append hrun
  obtain ⟨op, hj⟩ := hser.serial.answered j _ r hreturned rfl
  have hbefore : j ∈ effects files turns := hcalls ▸ List.mem_map_of_mem hj
  have hnotyet : k ∉ effects files turns := by
    intro hk
    rw [← hcalls] at hk
    obtain ⟨e, he, rfl⟩ := List.mem_map.mp hk
    have hlt := hser.serial.call_lt he
    rw [hser.serial.length] at hlt
    exact Nat.not_lt.mpr hmade hlt
  rw [hsplit] at heffect ⊢
  have hafter := (List.mem_append.mp heffect).resolve_left hnotyet
  exact (List.singleton_sublist.mpr hbefore).append (List.singleton_sublist.mpr hafter)

/-- A read that is made after a write has returned. -/
theorem effects_in_real_time_write_read :
    [0, 1].Sublist (effects (fun _ => aesdOpen)
      ((.call (.write 0 ⟨some [97, 10], true, some (Grant.above 0), 0⟩) :: List.replicate 13 (.step 0)) ++
        .call (.read 1 ⟨true, 2, true, id⟩) :: List.replicate 3 (.step 1))) := by
  have heval : ((concurrent.run (.loaded fun _ => aesdOpen)
      (.call (.write 0 ⟨some [97, 10], true, some (Grant.above 0), 0⟩) :: List.replicate 13 (.step 0))).map
        fun q => q.1.calls[0]?.bind Call.answer) = some (some ⟨2, [], []⟩) := rfl
  obtain ⟨⟨s, ks⟩, hrun, hanswer⟩ := Option.map_eq_some_iff.mp heval
  obtain ⟨c, hc, hreply⟩ := Option.bind_eq_some_iff.mp hanswer
  obtain ⟨r, rfl⟩ : ∃ r, c = .returned r := by
    cases c with
    | returned r => exact ⟨r, rfl⟩
    | _ => exact absurd hreply (by simp [Call.answer])
  exact effects_in_real_time (fun _ => aesdOpen) _ _ (finds_opened (fun _ => rfl) _) hrun hc (by decide)
    (show 1 ∈ [0, 1] by decide)

end Aesd.Driver
