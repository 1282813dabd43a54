import Aesd.Driver.CallStatements
import Aesd.Driver.DeviceRuns
import Aesd.Foundations.Mutex

/-! Calls of aesd_read and aesd_write that overlap, statement by statement. All error exits
share error_handler, which unlocks, and a call on a file without private_data gets there
before mutex_p is set. -/
namespace Aesd.Driver
open Aesd.Foundations

/-- The device and its files, who holds the device's mutex, and the calls made so far. -/
structure Concurrent where
  sys : Sys
  mutexLock : Option Nat
  calls : List Call

def Concurrent.loaded (files : Nat → File) : Concurrent := ⟨⟨Kernel.loaded, files⟩, none, []⟩

/-- The call k executes its next statement. Unlocking a mutex that it does not hold, or
through a NULL pointer, is undefined. -/
def Concurrent.statement (s : Concurrent) (k : Nat) : Call → Option (Sys × Option Nat × Call)
  | .start op =>
    if (s.sys.files op.file).privateData then some (s.sys, s.mutexLock, .checkUser op)
    else some (s.sys, s.mutexLock, .errorHandler false ⟨op.retval, [], []⟩)
  | .checkUser op => some (s.sys, s.mutexLock, op.checkUser)
  | .lock lock request =>
    if lock = false then some (s.sys, s.mutexLock, .returned ⟨-ERESTARTSYS, [], []⟩)
    else match s.mutexLock with
      | none => some (s.sys, some k, .locked request.first)
      | some _ => some (s.sys, s.mutexLock, .lock lock request)
  | .locked body => (body.statement s.sys).map fun r => (r.1, s.mutexLock, r.2)
  | .errorHandler mutexP reply =>
    if mutexP = true ∧ s.mutexLock = some k then some (s.sys, none, .returned reply) else none
  | .returned reply => some (s.sys, s.mutexLock, .returned reply)

/-- What can happen next: a new call, or a statement of one of the calls made. -/
inductive Turn where
  | call : Op → Turn
  | step : Nat → Turn

/-- The driver under calls that overlap; the answer is the new call's number or the
call that has taken its turn. -/
def concurrent : Machine Concurrent Turn Nat where
  step s
    | .call op => some ({ s with calls := s.calls ++ [.start op] }, s.calls.length)
    | .step k =>
      match s.calls[k]? with
      | none => some (s, k)
      | some c => (s.statement k c).map fun r => (⟨r.1, r.2.1, s.calls.set k r.2.2⟩, k)

/-- A call unlocks only the device's mutex and only while it holds it, returns without
holding it, and is between lock and error_handler only while holding it. -/
structure Concurrent.Disciplined (s : Concurrent) : Prop where
  unlocks : ∀ k mutexP r, s.calls[k]? = some (.errorHandler mutexP r) → mutexP = true ∧ s.mutexLock = some k
  returns : ∀ k r, s.calls[k]? = some (.returned r) → s.mutexLock ≠ some k
  touches : ∀ k body, s.calls[k]? = some (.locked body) → s.mutexLock = some k

/-- A call that takes its first step finds private_data set. -/
def FindsDevice (s : Concurrent) : Turn → Prop
  | .call _ => True
  | .step k => ∀ op, s.calls[k]? = some (.start op) → (s.sys.files op.file).privateData = true

def Call.Inside : Call → Prop
  | .locked _ | .errorHandler true _ => True
  | _ => False

/-- The mutex has exactly the call inside as its owner, the kernel is in order while it is
free, and the call inside leaves the kernel in order. -/
structure Concurrent.Orderly (s : Concurrent) : Prop where
  guards : Guards s.mutexLock (Among Call.Inside s.calls)
  free : s.mutexLock = none → ∃ v, Shows s.sys.kernel v
  held : ∀ k c, s.mutexLock = some k → s.calls[k]? = some c →
    ∃ s' r v, Finishes c s.sys s' r ∧ Shows s'.kernel v

section Discipline
variable {s : Concurrent} {sys s' : Sys} {k : Nat} {c c' : Call} {r : Reply}

theorem Finishes.inside (h : Finishes c sys s' r) : c.Inside := by
  cases h <;> trivial

/-- Of orderly calls only those in error_handler without mutex_p break the discipline. -/
theorem Concurrent.Orderly.disciplined_iff_not_mem (h : s.Orderly) :
    s.Disciplined ↔ ∀ r, Call.errorHandler false r ∉ s.calls := by
  constructor
  · intro hd r hmem
    obtain ⟨k, hk⟩ := List.mem_iff_getElem?.mp hmem
    exact absurd (hd.unlocks k false r hk).1 (by simp)
  · intro hnone
    refine ⟨fun k mutexP r hk => ?_, fun k r hk howner => ?_, fun k body hk => ?_⟩
    · cases mutexP with
      | false => exact absurd (List.mem_of_getElem? hk) (hnone r)
      | true => exact ⟨rfl, (h.guards k).mpr ⟨_, hk, trivial⟩⟩
    · exact (Guards.among_iff hk).mp ((h.guards k).mp howner)
    · exact (h.guards k).mpr ⟨_, hk, trivial⟩

theorem orderly_loaded (files : Nat → File) : (Concurrent.loaded files).Orderly where
  guards k := by simp [Concurrent.loaded, Among]
  free _ := ⟨_, shows_loaded⟩
  held k c hk := absurd hk (by simp [Concurrent.loaded])

theorem Concurrent.Orderly.call (h : s.Orderly) (op : Op) :
    Concurrent.Orderly { s with calls := s.calls ++ [.start op] } where
  guards := h.guards.start id
  free := h.free
  held k c howner hk := by
    obtain ⟨d, hd, _⟩ := (h.guards k).mp howner
    have hsame : (s.calls ++ [Call.start op])[k]? = s.calls[k]? :=
      List.getElem?_append_left (List.getElem?_eq_some_iff.mp hd).1
    exact h.held k c howner (hsame ▸ hk)

/-- A call that moves on before the lock, or returns without having had it. -/
theorem Concurrent.Orderly.outside (h : s.Orderly) (hk : s.calls[k]? = some c) (hc : ¬c.Inside)
    (hc' : ¬c'.Inside) : Concurrent.Orderly { s with calls := s.calls.set k c' } where
  guards := h.guards.move hk (iff_of_false hc' hc)
  free := h.free
  held j d howner hd := by
    have hj : j ≠ k := by
      rintro rfl
      exact hc ((Guards.among_iff hk).mp ((h.guards j).mp howner))
    rw [List.getElem?_set_ne hj.symm] at hd
    exact h.held j d howner hd

theorem Request.finishes {v : DeviceView} (hv : Shows sys.kernel v) (q : Request) :
    ∃ s' r v, Finishes (.locked q.first) sys s' r ∧ Shows s'.kernel v := by
  cases q with
  | read f count uncopied =>
    exact ⟨_, _, v, readLocked_finishes (readLocked_shows hv (sys.files f) count uncopied), hv⟩
  | write buf alloc uncopied =>
    obtain ⟨k', r, hw, hv', _⟩ := writeLocked_shows hv buf alloc uncopied
    exact ⟨_, r, _, writeLocked_finishes hw, hv'⟩

/-- A call that gets the free mutex finds the kernel in order. -/
theorem Concurrent.Orderly.acquire (h : s.Orderly) (hk : s.calls[k]? = some c)
    (hfree : s.mutexLock = none) (q : Request) :
    Concurrent.Orderly ⟨s.sys, some k, s.calls.set k (.locked q.first)⟩ where
  guards := by
    have hguards := h.guards
    rw [hfree] at hguards
    exact hguards.enter hk trivial
  free := by simp
  held j d howner hd := by
    obtain rfl := Option.some.inj howner
    rw [Guards.getElem?_set_self hk] at hd
    obtain rfl := Option.some.inj hd
    obtain ⟨v, hv⟩ := h.free hfree
    exact q.finishes hv

/-- A statement of the locked part is defined and leaves the rest of it to do. -/
theorem Concurrent.Orderly.locked {body : Body} (h : s.Orderly) (hk : s.calls[k]? = some (.locked body)) :
    ∃ sys c', body.statement s.sys = some (sys, c') ∧ c'.Inside ∧
      Concurrent.Orderly ⟨sys, s.mutexLock, s.calls.set k c'⟩ := by
  have howner : s.mutexLock = some k := (h.guards k).mpr ⟨_, hk, trivial⟩
  obtain ⟨s', r, v, hfin, hv⟩ := h.held k _ howner hk
  cases hfin with
  | @next _ c' _ sys _ _ hstmt hrest =>
    refine ⟨sys, c', hstmt, hrest.inside, ?_, ?_, ?_⟩
    · exact h.guards.move hk (iff_of_true hrest.inside trivial)
    · intro hnone
      rw [show s.mutexLock = none from hnone] at howner
      exact absurd howner (by simp)
    · intro j d hj hd
      obtain rfl : k = j := Option.some.inj (howner.symm.trans hj)
      rw [Guards.getElem?_set_self hk] at hd
      obtain rfl := Option.some.inj hd
      exact ⟨s', r, v, hrest, hv⟩

theorem Concurrent.Orderly.release (h : s.Orderly) (hk : s.calls[k]? = some (.errorHandler true r)) :
    s.mutexLock = some k ∧ Concurrent.Orderly ⟨s.sys, none, s.calls.set k (.returned r)⟩ := by
  have howner : s.mutexLock = some k := (h.guards k).mpr ⟨_, hk, trivial⟩
  obtain ⟨s', r', v, hfin, hv⟩ := h.held k _ howner hk
  cases hfin
  have hguards := h.guards
  rw [howner] at hguards
  exact ⟨howner, hguards.leave hk id, fun _ => ⟨v, hv⟩, by simp⟩

/-- Of the calls only the one that moves can begin to break the discipline. -/
theorem disciplined_set {lock : Option Nat} (h : s.Orderly) (hd : s.Disciplined) (hk : s.calls[k]? = some c)
    (h' : Concurrent.Orderly ⟨sys, lock, s.calls.set k c'⟩) :
    Concurrent.Disciplined ⟨sys, lock, s.calls.set k c'⟩ ↔ ∀ r, c' ≠ .errorHandler false r := by
  rw [h'.disciplined_iff_not_mem]
  constructor
  · rintro hnone r rfl
    exact hnone r (List.mem_of_getElem? (Guards.getElem?_set_self hk))
  · intro hc r hmem
    rcases List.mem_or_eq_of_mem_set hmem with hold | rfl
    · exact h.disciplined_iff_not_mem.mp hd r hold
    · exact hc r rfl

theorem Op.checkUser_outside (op : Op) : ¬op.checkUser.Inside ∧ ∀ r, op.checkUser ≠ .errorHandler false r := by
  cases op with
  | read f call =>
    rw [Op.checkUser]
    split <;> simp [Call.Inside]
  | write f call =>
    rw [Op.checkUser]
    split <;> simp [Call.Inside]

/-- Every statement is defined, and keeps to the discipline unless it starts a call that
does not find the device. -/
theorem statement_orderly (h : s.Orderly) (hd : s.Disciplined) (hk : s.calls[k]? = some c) :
    ∃ sys lock c', s.statement k c = some (sys, lock, c') ∧
      Concurrent.Orderly ⟨sys, lock, s.calls.set k c'⟩ ∧
      ((∀ r, c' ≠ .errorHandler false r) ↔
        ∀ op, c = .start op → (s.sys.files op.file).privateData = true) := by
  cases c with
  | start op =>
    cases hdev : (s.sys.files op.file).privateData with
    | true =>
      refine ⟨_, _, .checkUser op, ?_, h.outside hk id id, ?_⟩
      · rw [Concurrent.statement, if_pos hdev]
      · simp [hdev]
    | false =>
      refine ⟨_, _, .errorHandler false ⟨op.retval, [], []⟩, ?_, h.outside hk id id, ?_⟩
      · rw [Concurrent.statement, if_neg (by simp [hdev])]
      · simp [hdev]
  | checkUser op =>
    obtain ⟨hout, hnot⟩ := op.checkUser_outside
    exact ⟨_, _, _, rfl, h.outside hk id hout, by simp [hnot]⟩
  | lock lock q =>
    cases lock with
    | false =>
      refine ⟨s.sys, s.mutexLock, .returned ⟨-ERESTARTSYS, [], []⟩, ?_, h.outside hk id id, by simp⟩
      rw [Concurrent.statement, if_pos rfl]
    | true =>
      cases hfree : s.mutexLock with
      | none =>
        refine ⟨s.sys, some k, .locked q.first, ?_, h.acquire hk hfree q, by simp⟩
        rw [Concurrent.statement, if_neg (by simp), hfree]
      | some j =>
        refine ⟨s.sys, s.mutexLock, .lock true q, ?_, h.outside hk id id, by simp⟩
        rw [Concurrent.statement, if_neg (by simp), hfree]
  | locked body =>
    obtain ⟨sys, c', hstmt, hin, h'⟩ := h.locked hk
    refine ⟨sys, s.mutexLock, c', by rw [Concurrent.statement, hstmt]; rfl, h', ?_⟩
    refine iff_of_true ?_ (by simp)
    rintro r rfl
    exact hin
  | errorHandler mutexP r =>
    obtain ⟨rfl, _⟩ := hd.unlocks k mutexP r hk
    obtain ⟨howner, h'⟩ := h.release hk
    exact ⟨s.sys, none, .returned r, if_pos ⟨rfl, howner⟩, h', by simp⟩
  | returned r => exact ⟨_, _, _, rfl, h.outside hk id id, by simp⟩

end Discipline

/-- Every overlap of calls keeps the lock discipline exactly as long as no call finds
private_data NULL. -/
theorem lock_discipline_iff (files : Nat → File) (turns : List Turn) :
    (∀ done, done <+: turns → ∃ s ks, concurrent.run (.loaded files) done = some (s, ks) ∧ s.Disciplined) ↔
      concurrent.Along FindsDevice (.loaded files) turns := by
  apply concurrent.forall_prefix_iff_along (R := Concurrent.Orderly) _ (orderly_loaded files)
  · exact (orderly_loaded files).disciplined_iff_not_mem.mpr (by simp [Concurrent.loaded])
  · intro s turn h hd
    cases turn with
    | call op =>
      refine ⟨_, _, rfl, h.call op, iff_of_true ?_ trivial⟩
      apply (h.call op).disciplined_iff_not_mem.mpr
      intro r hmem
      rcases List.mem_append.mp hmem with hold | hnew
      · exact h.disciplined_iff_not_mem.mp hd r hold
      · exact absurd (List.mem_singleton.mp hnew) (by simp)
    | step k =>
      cases hk : s.calls[k]? with
      | none => exact ⟨s, k, by simp only [concurrent, hk], h, by simp [FindsDevice, hk, hd]⟩
      | some c =>
        obtain ⟨sys, lock, c', hstmt, h', hfinds⟩ := statement_orderly h hd hk
        refine ⟨_, k, by simp only [concurrent, hk, hstmt, Option.map_some], h', ?_⟩
        rw [disciplined_set h hd hk h', hfinds]
        simp [FindsDevice, hk]

/-- A read of a file that aesd_release has been called on reaches error_handler with
mutex_p still NULL. -/
theorem released_file_unlocks_null :
    ¬∀ done, done <+: [.call (.read 0 ⟨true, 1, true, id⟩), .step 0] → ∃ s ks,
      concurrent.run (.loaded fun _ => aesdRelease aesdOpen) done = some (s, ks) ∧ s.Disciplined := by
  intro h
  obtain ⟨s, ks, hrun, hd⟩ := h _ List.prefix_rfl
  obtain ⟨rfl, _⟩ := Prod.mk.inj (Option.some.inj hrun)
  exact absurd (hd.unlocks 0 false _ rfl).1 (by simp)

end Aesd.Driver
