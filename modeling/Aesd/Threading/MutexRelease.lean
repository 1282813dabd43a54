import Aesd.Threading.Threadfunc

/-! Who owns the mutex that the threads share: the thread between its lock and its unlock,
and a thread whose second usleep has failed, also after it has returned. -/
namespace Aesd.Threading
open Aesd.Foundations

def Thread.Inside (t : Thread) : Prop := t.pc = .usleepRelease ∨ t.pc = .unlock

def Threads.Guarded (s : Threads) : Prop := Guards s.mutex (Among Thread.Inside s.threads)

section Guarded
variable {s : Threads} {t : Thread} {k : Nat} {ok : Bool}

theorem Thread.not_inside (h : t.pc = .returned) : ¬t.Inside := by simp [Thread.Inside, h]

theorem Threads.Guarded.mutexFreed (h : s.Guarded) : s.MutexFreed where
  returned k t hk hpc howner := Thread.not_inside hpc ((Guards.among_iff hk).mp ((h k).mp howner))
  free hall := by
    apply h.free_iff.mpr
    rintro k ⟨t, hk, hin⟩
    exact Thread.not_inside (hall t (List.mem_of_getElem? hk)) hin

theorem Threads.Guarded.start (h : s.Guarded) (ds : List ThreadData) :
    Threads.Guarded { s with threads := s.threads ++ ds.map (Thread.mk .usleepObtain) } := by
  induction ds generalizing s with
  | nil => simpa using h
  | cons d ds ih =>
    have hd : Threads.Guarded { s with threads := s.threads ++ [⟨.usleepObtain, d⟩] } :=
      Guards.start h (by simp [Thread.Inside])
    simpa using ih hd

/-- With its second sleep complete a thread leaves the owner of the mutex inside. -/
theorem threadfunc_guarded (h : s.Guarded) (hk : s.threads[k]? = some t)
    (hsleep : t.pc = .usleepRelease → ok = true) :
    Threads.Guarded ⟨s.robust, (threadfunc s k ok t).1, s.threads.set k (threadfunc s k ok t).2.1⟩ := by
  obtain ⟨pc, d⟩ := t
  have hfail (pc : ThreadPc) (hpc : pc = .usleepObtain ∨ pc = .lock) (hk : s.threads[k]? = some ⟨pc, d⟩) :
      Threads.Guarded ⟨s.robust, s.mutex, s.threads.set k (Thread.finish ⟨pc, d⟩ false)⟩ := by
    apply Guards.move h hk
    rcases hpc with rfl | rfl <;> simp [Thread.Inside, Thread.finish]
  cases pc with
  | usleepObtain =>
    cases ok with
    | true => exact Guards.move h hk (by simp [Thread.Inside, threadfunc])
    | false => exact hfail _ (.inl rfl) hk
  | lock =>
    cases ok with
    | false => exact hfail _ (.inr rfl) hk
    | true =>
      cases hm : s.mutex with
      | none =>
        simp only [threadfunc, hm]
        have hfree := h
        rw [Threads.Guarded, hm] at hfree
        exact Guards.enter hfree hk (.inl rfl)
      | some j =>
        have halive : ¬(s.robust ∧ s.returned j) := by
          rintro ⟨_, hreturned⟩
          obtain ⟨u, hu, hin⟩ := (h j).mp hm
          simp only [Threads.returned, hu] at hreturned
          exact Thread.not_inside (by simpa using hreturned) hin
        simp only [threadfunc, hm, halive]
        rw [← hm]
        exact Guards.move h hk Iff.rfl
  | usleepRelease =>
    obtain rfl := hsleep rfl
    exact Guards.move h hk (by simp [Thread.Inside, threadfunc])
  | unlock =>
    have howner : s.mutex = some k := (h k).mpr ⟨_, hk, .inr rfl⟩
    simp only [threadfunc, howner]
    have hheld := h
    rw [Threads.Guarded, howner] at hheld
    exact Guards.leave hheld hk (Thread.not_inside rfl)
  | returned => exact Guards.move h hk Iff.rfl

/-- With its second sleep cut short a thread returns as the owner of the mutex. -/
theorem threadfunc_keeps_mutex (h : s.Guarded) (hk : s.threads[k]? = some t) (hpc : t.pc = .usleepRelease) :
    ¬Threads.MutexFreed ⟨s.robust, (threadfunc s k false t).1, s.threads.set k (threadfunc s k false t).2.1⟩ := by
  intro hfreed
  have howner : s.mutex = some k := (h k).mpr ⟨_, hk, .inl hpc⟩
  simp only [threadfunc, hpc] at hfreed
  exact hfreed.returned k _ (Guards.getElem?_set_self hk) rfl howner

/-- One input from a guarded state keeps it guarded, or is a sleep that fails. -/
theorem Threads.Guarded.step (h : s.Guarded) (x : Input) :
    ∃ s' o, threading.step s x = some (s', o) ∧ (s'.MutexFreed → s'.Guarded) ∧
      (s'.MutexFreed ↔ SleepsHolding s x) := by
  cases x with
  | start x =>
    have hstart := h.start (startThreadObtainingMutex x).2.toList
    exact ⟨_, _, rfl, fun _ => hstart, iff_of_true hstart.mutexFreed trivial⟩
  | step k ok =>
    cases hk : s.threads[k]? with
    | none =>
      have hsleep : SleepsHolding s (.step k ok) := by simp [SleepsHolding, hk]
      exact ⟨s, none, by simp only [threading, hk], fun _ => h, iff_of_true h.mutexFreed hsleep⟩
    | some t =>
      refine ⟨_, _, by simp only [threading, hk]; rfl, ?_⟩
      by_cases hsleep : t.pc = .usleepRelease → ok = true
      · have hstep := threadfunc_guarded h hk hsleep
        exact ⟨fun _ => hstep, iff_of_true hstep.mutexFreed (by simpa [SleepsHolding, hk] using hsleep)⟩
      · obtain ⟨hpc, hok⟩ := Classical.not_imp.mp hsleep
        obtain rfl := Bool.eq_false_iff.mpr hok
        have hstep := threadfunc_keeps_mutex h hk hpc
        exact ⟨fun hf => absurd hf hstep, iff_of_false hstep (by simpa [SleepsHolding, hk] using hsleep)⟩

theorem guarded_initial (robust : Bool) : (Threads.initial robust).Guarded := by
  simp [Threads.Guarded, Guards, Threads.initial, Among]

end Guarded

/-- No thread ends with the mutex, and each reports what it has done, exactly as long as no
usleep of a thread that holds the mutex fails. -/
theorem no_thread_ends_holding_iff (robust : Bool) (inputs : List Input) :
    (∀ done, done <+: inputs → ∃ s acts, threading.run (.initial robust) done = some (s, acts) ∧
      s.MutexFreed ∧ s.SuccessTells acts) ↔ threading.Along SleepsHolding (.initial robust) inputs := by
  rw [← threading.forall_prefix_iff_along (R := fun s => s.MutexFreed → s.Guarded)
    (fun s x hR hfreed => (hR hfreed).step x) (fun _ => guarded_initial robust)
    (guarded_initial robust).mutexFreed]
  constructor
  · intro hall done hdone
    obtain ⟨s, acts, hrun, hfreed, _⟩ := hall done hdone
    exact ⟨s, acts, hrun, hfreed⟩
  · intro hall done hdone
    obtain ⟨s, acts, hrun, hfreed⟩ := hall done hdone
    exact ⟨s, acts, hrun, hfreed, (recorded_run robust hrun).successTells⟩

/-- One thread, whose second usleep is interrupted: it returns as the owner of the mutex. -/
theorem interrupted_sleep_keeps_mutex :
    ¬∀ done, done <+: [.start ⟨true, true, true, 1, 1⟩, .step 0 true, .step 0 true, .step 0 false] →
      ∃ s acts, threading.run (.initial false) done = some (s, acts) ∧ s.MutexFreed ∧ s.SuccessTells acts := by
  intro h
  obtain ⟨s, acts, hrun, hfreed, _⟩ := h _ List.prefix_rfl
  obtain ⟨rfl, _⟩ := Prod.mk.inj (Option.some.inj hrun)
  exact hfreed.returned 0 _ rfl rfl rfl

end Aesd.Threading
