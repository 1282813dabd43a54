import Aesd.Foundations.Machine
import Aesd.Foundations.Mutex

/-! The threads of examples/threading: each sleeps, locks the one mutex, sleeps and unlocks
it, and returns at the first call that fails. After a second sleep that fails the mutex is
still locked. -/
namespace Aesd.Threading
open Aesd.Foundations

/-- struct thread_data, less the mutex that all threads share. As malloc leaves it,
thread_complete_success is indeterminate. -/
structure ThreadData where
  waitToObtainMs : Int
  waitToReleaseMs : Int
  threadCompleteSuccess : Option Bool
  deriving DecidableEq, Repr

/-- The next call of threadfunc. -/
inductive ThreadPc where
  | usleepObtain : ThreadPc
  | lock : ThreadPc
  | usleepRelease : ThreadPc
  | unlock : ThreadPc
  | returned : ThreadPc
  deriving DecidableEq, Repr

structure Thread where
  pc : ThreadPc
  data : ThreadData
  deriving DecidableEq, Repr

/-- A call of threadfunc that has done what it is for. -/
inductive Act where
  | usleep : Int → Act
  | lock : Act
  | unlock : Act
  deriving DecidableEq, Repr

/-- The mutex, with whether it is robust and who owns it, and the threads started so far. -/
structure Threads where
  robust : Bool
  mutex : Option Nat
  threads : List Thread

def Threads.initial (robust : Bool) : Threads := ⟨robust, none, []⟩

def Threads.returned (s : Threads) (k : Nat) : Bool :=
  match s.threads[k]? with
  | some t => t.pc = .returned
  | none => false

def Thread.finish (t : Thread) (success : Bool) : Thread :=
  ⟨.returned, { t.data with threadCompleteSuccess := some success }⟩

/-- The next call of threadfunc in the thread k: the owner of the mutex, the thread and
what the call has done. Unless ok, a call that may fail does. A mutex is unlocked by its
owner only; one whose owner has returned is locked again only if it is robust, and then
pthread_mutex_lock answers EOWNERDEAD. -/
def threadfunc (s : Threads) (k : Nat) (ok : Bool) (t : Thread) : Option Nat × Thread × Option Act :=
  match t.pc with
  | .usleepObtain =>
    if ok then (s.mutex, ⟨.lock, t.data⟩, some (.usleep t.data.waitToObtainMs))
    else (s.mutex, t.finish false, none)
  | .lock =>
    if ok then
      match s.mutex with
      | none => (some k, ⟨.usleepRelease, t.data⟩, some .lock)
      | some j =>
        if s.robust ∧ s.returned j then (some k, t.finish false, some .lock)
        else (s.mutex, t, none)
    else (s.mutex, t.finish false, none)
  | .usleepRelease =>
    if ok then (s.mutex, ⟨.unlock, t.data⟩, some (.usleep t.data.waitToReleaseMs))
    else (s.mutex, t.finish false, none)
  | .unlock =>
    if s.mutex = some k then (none, t.finish true, some .unlock)
    else (s.mutex, t.finish false, none)
  | .returned => (s.mutex, t, none)

/-- A call of start_thread_obtaining_mutex: whether the mutex is not NULL, whether malloc
and pthread_create succeed, and the two waits. -/
structure StartCall where
  mutex : Bool
  malloc : Bool
  pthreadCreate : Bool
  waitToObtainMs : Int
  waitToReleaseMs : Int

/-- What it returns, and the data of the thread that it has created. -/
def startThreadObtainingMutex (x : StartCall) : Bool × Option ThreadData :=
  if x.mutex = false then (false, none)
  else if x.malloc = false then (false, none)
  else
    let tData := ⟨x.waitToObtainMs, x.waitToReleaseMs, none⟩
    if x.pthreadCreate = false then (false, none) else (true, some tData)

/-- What can happen next: a start, or a call of a thread, which succeeds where it may fail. -/
inductive Input where
  | start : StartCall → Input
  | step : Nat → Bool → Input

/-- Any number of threads on the mutex; each answer is what the thread that has moved has done. -/
def threading : Machine Threads Input (Option (Nat × Act)) where
  step s
    | .start x =>
      let new := (startThreadObtainingMutex x).2.toList.map (Thread.mk .usleepObtain)
      some ({ s with threads := s.threads ++ new }, none)
    | .step k ok =>
      match s.threads[k]? with
      | none => some (s, none)
      | some t =>
        let (mutex, t', act) := threadfunc s k ok t
        some (⟨s.robust, mutex, s.threads.set k t'⟩, act.map fun a => (k, a))

def actsOf (k : Nat) (acts : List (Option (Nat × Act))) : List Act :=
  acts.filterMap fun o => o.bind fun q => if q.1 = k then some q.2 else none

def ThreadData.whole (d : ThreadData) : List Act :=
  [.usleep d.waitToObtainMs, .lock, .usleep d.waitToReleaseMs, .unlock]

/-- A thread that has returned does not own the mutex, and once all have, nobody does. -/
structure Threads.MutexFreed (s : Threads) : Prop where
  returned : ∀ k t, s.threads[k]? = some t → t.pc = .returned → s.mutex ≠ some k
  free : (∀ t ∈ s.threads, t.pc = .returned) → s.mutex = none

/-- thread_complete_success of a thread that has returned is true exactly when the thread
has done everything. -/
def Threads.SuccessTells (s : Threads) (acts : List (Option (Nat × Act))) : Prop :=
  ∀ k t, s.threads[k]? = some t → t.pc = .returned →
    (t.data.threadCompleteSuccess = some true ↔ actsOf k acts = t.data.whole)

def SleepsHolding (s : Threads) : Input → Prop
  | .start _ => True
  | .step k ok => ∀ t, s.threads[k]? = some t → t.pc = .usleepRelease → ok = true

section Acts
variable {s : Threads} {t : Thread} {k : Nat} {ok : Bool} {acts : List Act}

theorem actsOf_concat (k : Nat) (os : List (Option (Nat × Act))) (j : Nat) (a : Option Act) :
    actsOf k (os ++ [a.map fun a => (j, a)]) = actsOf k os ++ if j = k then a.toList else [] := by
  rw [actsOf, List.filterMap_append]
  congr 1
  cases a with
  | none => simp
  | some a => by_cases hj : j = k <;> simp [hj]

/-- How much of it a thread has done, at a call or by the time it returned. -/
def ThreadPc.At (d : ThreadData) (n : Nat) : ThreadPc → Prop
  | .usleepObtain => n = 0
  | .lock => n = 1
  | .usleepRelease => n = 2
  | .unlock => n = 3
  | .returned => n ≤ 4 ∧ d.threadCompleteSuccess = some (decide (n = 4))

def Thread.Did (t : Thread) (acts : List Act) : Prop := ∃ n, t.pc.At t.data n ∧ acts = t.data.whole.take n

theorem Thread.Did.success_iff (h : t.Did acts) (hpc : t.pc = .returned) :
    t.data.threadCompleteSuccess = some true ↔ acts = t.data.whole := by
  obtain ⟨n, hat, rfl⟩ := h
  rw [hpc] at hat
  obtain ⟨hle, hsuccess⟩ := hat
  rw [hsuccess, Option.some.injEq, decide_eq_true_eq]
  constructor
  · rintro rfl
    rfl
  · intro hwhole
    have hlen := congrArg List.length hwhole
    simp only [List.length_take, ThreadData.whole, List.length_cons, List.length_nil] at hlen
    omega

theorem Thread.did_finish {n : Nat} (hn : n ≤ 4) : (t.finish (decide (n = 4))).Did (t.data.whole.take n) :=
  ⟨n, ⟨hn, rfl⟩, rfl⟩

/-- Whatever its calls answer, a thread does one thing after the other, and reports it. -/
theorem threadfunc_did (s : Threads) (k : Nat) (ok : Bool) (h : t.Did acts) :
    (threadfunc s k ok t).2.1.Did (acts ++ (threadfunc s k ok t).2.2.toList) := by
  obtain ⟨pc, d⟩ := t
  obtain ⟨n, hat, rfl⟩ := h
  cases pc with
  | usleepObtain =>
    obtain rfl : n = 0 := hat
    cases ok with
    | true => exact ⟨1, rfl, rfl⟩
    | false => exact Thread.did_finish (n := 0) (by omega)
  | lock =>
    obtain rfl : n = 1 := hat
    cases ok with
    | false => exact Thread.did_finish (n := 1) (by omega)
    | true =>
      cases hm : s.mutex with
      | none =>
        simp only [threadfunc, hm]
        exact ⟨2, rfl, rfl⟩
      | some j =>
        by_cases hdead : s.robust ∧ s.returned j
        · simp only [threadfunc, hm, hdead]
          exact Thread.did_finish (n := 2) (by omega)
        · simp only [threadfunc, hm, hdead]
          exact ⟨1, rfl, rfl⟩
  | usleepRelease =>
    obtain rfl : n = 2 := hat
    cases ok with
    | true => exact ⟨3, rfl, rfl⟩
    | false => exact Thread.did_finish (n := 2) (by omega)
  | unlock =>
    obtain rfl : n = 3 := hat
    by_cases howner : s.mutex = some k
    · simp only [threadfunc, howner]
      exact Thread.did_finish (n := 4) (by omega)
    · simp only [threadfunc, howner]
      exact Thread.did_finish (n := 3) (by omega)
  | returned => exact ⟨n, hat, (List.append_nil _)⟩

end Acts

/-- Every thread has done what its place in threadfunc says, and others nothing. -/
def Recorded (s : Threads) (os : List (Option (Nat × Act))) : Prop :=
  ∀ k, match s.threads[k]? with
    | some t => t.Did (actsOf k os)
    | none => actsOf k os = []

section Recorded
variable {s s' : Threads} {os : List (Option (Nat × Act))} {k : Nat}

theorem Recorded.successTells (h : Recorded s os) : s.SuccessTells os := by
  intro k t hk hpc
  have hdid := h k
  rw [hk] at hdid
  exact Thread.Did.success_iff hdid hpc

theorem recorded_initial (robust : Bool) : Recorded (.initial robust) [] := fun _ => rfl

/-- New threads have done nothing. -/
theorem Recorded.start (h : Recorded s os) (ds : List ThreadData) :
    Recorded { s with threads := s.threads ++ ds.map (Thread.mk .usleepObtain) } (os ++ [none]) := by
  intro k
  have hnone : actsOf k (os ++ [none]) = actsOf k os := by simp [actsOf]
  rw [hnone]
  have hk := h k
  rcases Nat.lt_or_ge k s.threads.length with hlt | hle
  · rw [List.getElem?_append_left hlt]
    exact hk
  · rw [List.getElem?_eq_none hle] at hk
    have hk : actsOf k os = [] := hk
    rw [List.getElem?_append_right hle, List.getElem?_map]
    cases ds[k - s.threads.length]? with
    | none => exact hk
    | some d => exact ⟨0, rfl, by rw [hk]; rfl⟩

theorem Recorded.step (h : Recorded s os) {t : Thread} (hk : s.threads[k]? = some t) (ok : Bool) :
    Recorded ⟨s.robust, (threadfunc s k ok t).1, s.threads.set k (threadfunc s k ok t).2.1⟩
      (os ++ [(threadfunc s k ok t).2.2.map fun a => (k, a)]) := by
  intro j
  rw [actsOf_concat]
  have hj := h j
  by_cases hjk : j = k
  · subst hjk
    rw [hk] at hj
    rw [Guards.getElem?_set_self hk, if_pos rfl]
    exact threadfunc_did s j ok hj
  · rw [List.getElem?_set_ne (Ne.symm hjk), if_neg (Ne.symm hjk), List.append_nil]
    exact hj

/-- In every run each thread has done what its place in threadfunc says. -/
theorem recorded_run (robust : Bool) {inputs : List Input}
    (hrun : threading.run (.initial robust) inputs = some (s, os)) : Recorded s os := by
  refine threading.run_invariant (I := Recorded) (fun s os x s' o h hstep => ?_) (recorded_initial robust) hrun
  cases x with
  | start x =>
    obtain ⟨rfl, rfl⟩ := Prod.mk.inj (Option.some.inj hstep)
    exact h.start _
  | step k ok =>
    cases hk : s.threads[k]? with
    | none =>
      simp only [threading, hk] at hstep
      obtain ⟨rfl, rfl⟩ := Prod.mk.inj (Option.some.inj hstep)
      simpa using h.start []
    | some t =>
      simp only [threading, hk] at hstep
      obtain ⟨rfl, rfl⟩ := Prod.mk.inj (Option.some.inj hstep)
      exact h.step hk ok

end Recorded
end Aesd.Threading
