import Aesd.Threading.MutexRelease

/-! What becomes of the mutex once a usleep of the thread that holds it has failed: it is
the property of threads that have returned from then on, and no thread succeeds. -/
namespace Aesd.Threading
open Aesd.Foundations

/-- A thread that has returned owns the mutex, and none is between lock and unlock. -/
structure Threads.Lost (s : Threads) : Prop where
  owned : ∃ j, s.mutex = some j ∧ s.returned j = true
  outside : ∀ t ∈ s.threads, ¬t.Inside

def Threads.Succeeded (s : Threads) (k : Nat) : Prop :=
  ∃ t, s.threads[k]? = some t ∧ t.data.threadCompleteSuccess = some true

/-- From s to s' nobody unlocks the mutex, it is locked again only if it is robust, and no
thread comes to a success. -/
structure Threads.Barren (s s' : Threads) (ws : List (Option (Nat × Act))) : Prop where
  robust : s'.robust = s.robust
  unlock : ∀ j, some (j, .unlock) ∉ ws
  lock : s.robust = false → s'.mutex = s.mutex ∧ ∀ j, some (j, .lock) ∉ ws
  succeeded : ∀ k, s'.Succeeded k → s.Succeeded k

section Steps
variable {s s' s'' : Threads} {t t' : Thread} {ws ws' : List (Option (Nat × Act))} {a : Option Act} {j k : Nat}
  {ts : List Thread}

theorem Threads.Barren.refl (s : Threads) : s.Barren s [] := ⟨rfl, by simp, fun _ => ⟨rfl, by simp⟩, fun _ => id⟩

theorem Threads.Barren.trans (h : s.Barren s' ws) (h' : s'.Barren s'' ws') : s.Barren s'' (ws ++ ws') where
  robust := h'.robust.trans h.robust
  unlock j hj := (List.mem_append.mp hj).elim (h.unlock j) (h'.unlock j)
  lock hrobust := by
    obtain ⟨hsame, hnone⟩ := h.lock hrobust
    obtain ⟨hsame', hnone'⟩ := h'.lock (h.robust.trans hrobust)
    exact ⟨hsame'.trans hsame, fun j hj => (List.mem_append.mp hj).elim (hnone j) (hnone' j)⟩
  succeeded k hk := h.succeeded k (h'.succeeded k hk)

theorem mem_map_act {b : Act} : some (j, b) ∈ [a.map fun a => (k, a)] ↔ j = k ∧ a = some b := by
  cases a with
  | none => simp
  | some a => simp [eq_comm]

theorem returned_eq_true : s.returned k = true ↔ ∃ t, s.threads[k]? = some t ∧ t.pc = .returned := by
  unfold Threads.returned
  split <;> simp_all

theorem returned_set (hk : s.threads[k]? = some t) (hpc : t.pc = .returned → t'.pc = .returned)
    (hreturned : s.returned j = true) (mutex : Option Nat) :
    Threads.returned ⟨s.robust, mutex, s.threads.set k t'⟩ j = true := by
  obtain ⟨u, hu, hupc⟩ := returned_eq_true.mp hreturned
  apply returned_eq_true.mpr
  by_cases hj : j = k
  · subst hj
    obtain rfl := Option.some.inj (hk.symm.trans hu)
    exact ⟨t', Guards.getElem?_set_self hk, hpc hupc⟩
  · exact ⟨u, (List.getElem?_set_ne (Ne.symm hj)).trans hu, hupc⟩

theorem outside_set (h : ∀ u ∈ ts, ¬u.Inside) (hout : ¬t'.Inside) (k : Nat) : ∀ u ∈ ts.set k t', ¬u.Inside := by
  intro u hu
  rcases List.mem_or_eq_of_mem_set hu with hu | rfl
  · exact h u hu
  · exact hout

theorem succeeded_set (hk : s.threads[k]? = some t)
    (hdata : t'.data.threadCompleteSuccess = some true → t.data.threadCompleteSuccess = some true)
    {mutex : Option Nat} (h : Threads.Succeeded ⟨s.robust, mutex, s.threads.set k t'⟩ j) : s.Succeeded j := by
  obtain ⟨u, hu, hsuccess⟩ := h
  by_cases hj : j = k
  · subst hj
    obtain rfl := Option.some.inj ((Guards.getElem?_set_self hk).symm.trans hu)
    exact ⟨t, hk, hdata hsuccess⟩
  · exact ⟨u, (List.getElem?_set_ne (Ne.symm hj)).symm.trans hu, hsuccess⟩

/-- A thread that is not inside, with the mutex lost: it leaves the mutex alone, or finds
its owner dead and returns as the next one. -/
theorem Threads.Lost.call (h : s.Lost) (hk : s.threads[k]? = some t) (ok : Bool) :
    ¬(threadfunc s k ok t).2.1.Inside ∧
    ((threadfunc s k ok t).2.1.data.threadCompleteSuccess = some true → t.data.threadCompleteSuccess = some true) ∧
    (t.pc = .returned → (threadfunc s k ok t).2.1.pc = .returned) ∧
    (threadfunc s k ok t).2.2 ≠ some .unlock ∧
    (((threadfunc s k ok t).1 = s.mutex ∧ (threadfunc s k ok t).2.2 ≠ some .lock) ∨
      (s.robust = true ∧ (threadfunc s k ok t).1 = some k ∧ (threadfunc s k ok t).2.1.pc = .returned)) := by
  obtain ⟨j, howner, hreturned⟩ := h.owned
  have hout := h.outside t (List.mem_of_getElem? hk)
  obtain ⟨pc, d⟩ := t
  cases pc with
  | usleepObtain => cases ok <;> simp [threadfunc, Thread.finish, Thread.Inside]
  | lock =>
    cases ok with
    | false => simp [threadfunc, Thread.finish, Thread.Inside]
    | true =>
      cases hrobust : s.robust <;>
        simp [threadfunc, howner, hrobust, hreturned, Thread.finish, Thread.Inside]
  | usleepRelease => exact absurd (.inl rfl) hout
  | unlock => exact absurd (.inr rfl) hout
  | returned => simp [threadfunc, Thread.Inside]

theorem Threads.Lost.start (h : s.Lost) (ds : List ThreadData) :
    Threads.Lost { s with threads := s.threads ++ ds.map (Thread.mk .usleepObtain) } where
  owned := by
    obtain ⟨j, howner, hreturned⟩ := h.owned
    obtain ⟨u, hu, hpc⟩ := returned_eq_true.mp hreturned
    have hlt := (List.getElem?_eq_some_iff.mp hu).1
    exact ⟨j, howner, returned_eq_true.mpr ⟨u, (List.getElem?_append_left hlt).trans hu, hpc⟩⟩
  outside t ht := by
    rcases List.mem_append.mp ht with ht | ht
    · exact h.outside t ht
    · obtain ⟨d, _, rfl⟩ := List.mem_map.mp ht
      simp [Thread.Inside]

/-- A new thread has not succeeded. -/
theorem succeeded_start {ds : List ThreadData} (hds : ∀ d ∈ ds, d.threadCompleteSuccess = none)
    (h : Threads.Succeeded { s with threads := s.threads ++ ds.map (Thread.mk .usleepObtain) } k) : s.Succeeded k := by
  obtain ⟨u, hu, hsuccess⟩ := h
  rcases Nat.lt_or_ge k s.threads.length with hlt | hge
  · exact ⟨u, (List.getElem?_append_left hlt).symm.trans hu, hsuccess⟩
  · have hnew : u ∈ ds.map (Thread.mk .usleepObtain) :=
      List.mem_of_getElem? ((List.getElem?_append_right hge).symm.trans hu)
    obtain ⟨d, hd, rfl⟩ := List.mem_map.mp hnew
    rw [hds d hd] at hsuccess
    exact absurd hsuccess (by simp)

theorem startThreadObtainingMutex_unset (x : StartCall) :
    ∀ d ∈ (startThreadObtainingMutex x).2.toList, d.threadCompleteSuccess = none := by
  intro d hd
  unfold startThreadObtainingMutex at hd
  split_ifs at hd <;> simp_all

theorem Threads.Lost.step (h : s.Lost) (i : Input) :
    ∃ s' o, threading.step s i = some (s', o) ∧ s'.Lost ∧ s.Barren s' [o] := by
  cases i with
  | start x =>
    refine ⟨_, none, rfl, h.start _, rfl, by simp, fun _ => ⟨rfl, by simp⟩, fun k hk => ?_⟩
    exact succeeded_start (startThreadObtainingMutex_unset x) hk
  | step k ok =>
    cases hk : s.threads[k]? with
    | none => exact ⟨s, none, by simp only [threading, hk], h, rfl, by simp, fun _ => ⟨rfl, by simp⟩, fun _ => id⟩
    | some t =>
      obtain ⟨hout, hdata, hpc, hunlock, hmutex⟩ := h.call hk ok
      have hstep : threading.step s (.step k ok) =
          some (⟨s.robust, (threadfunc s k ok t).1, s.threads.set k (threadfunc s k ok t).2.1⟩,
            (threadfunc s k ok t).2.2.map fun a => (k, a)) := by simp only [threading, hk]
      refine ⟨_, _, hstep, ⟨?_, outside_set h.outside hout k⟩, rfl, fun j hj => hunlock (mem_map_act.mp hj).2, ?_,
        fun j => succeeded_set hk hdata⟩
      · rcases hmutex with ⟨hsame, _⟩ | ⟨_, hnew, hreturned⟩
        · obtain ⟨j, howner, hreturned⟩ := h.owned
          exact ⟨j, hsame.trans howner, returned_set hk hpc hreturned _⟩
        · exact ⟨k, hnew, returned_eq_true.mpr ⟨_, Guards.getElem?_set_self hk, hreturned⟩⟩
      · intro hrobust
        rcases hmutex with ⟨hsame, hlock⟩ | ⟨htrue, _⟩
        · exact ⟨hsame, fun j hj => hlock (mem_map_act.mp hj).2⟩
        · exact absurd (hrobust.symm.trans htrue) (by simp)

/-- With its second sleep cut short a thread loses the mutex to all others. -/
theorem Threads.Guarded.interrupted (h : s.Guarded) (hk : s.threads[k]? = some t) (hpc : t.pc = .usleepRelease) :
    threading.step s (.step k false) = some (⟨s.robust, some k, s.threads.set k (t.finish false)⟩, none) ∧
      Threads.Lost ⟨s.robust, some k, s.threads.set k (t.finish false)⟩ := by
  have howner : s.mutex = some k := (h k).mpr ⟨t, hk, .inl hpc⟩
  refine ⟨by simp [threading, hk, threadfunc, hpc, howner], ?_, ?_⟩
  · exact ⟨k, rfl, returned_eq_true.mpr ⟨_, Guards.getElem?_set_self hk, rfl⟩⟩
  · intro u hu hin
    obtain ⟨j, hj⟩ := List.mem_iff_getElem?.mp hu
    by_cases hjk : j = k
    · subst hjk
      obtain rfl := Option.some.inj ((Guards.getElem?_set_self hk).symm.trans hj)
      exact Thread.not_inside rfl hin
    · have hu : s.threads[j]? = some u := (List.getElem?_set_ne (Ne.symm hjk)).symm.trans hj
      exact hjk (h.exclusive ⟨u, hu, hin⟩ ⟨t, hk, .inl hpc⟩)

end Steps

section Runs
variable {robust : Bool} {s : Threads} {inputs : List Input} {os : List (Option (Nat × Act))}

theorem robust_run (hrun : threading.run (.initial robust) inputs = some (s, os)) : s.robust = robust := by
  refine threading.run_invariant (I := fun s _ => s.robust = robust) (fun s os i s' o h hstep => ?_) rfl hrun
  cases i with
  | start x =>
    obtain ⟨rfl, _⟩ := Prod.mk.inj (Option.some.inj hstep)
    exact h
  | step k ok =>
    cases hk : s.threads[k]? with
    | none =>
      simp only [threading, hk] at hstep
      obtain ⟨rfl, _⟩ := Prod.mk.inj (Option.some.inj hstep)
      exact h
    | some t =>
      simp only [threading, hk] at hstep
      obtain ⟨rfl, _⟩ := Prod.mk.inj (Option.some.inj hstep)
      exact h

/-- The mutex belongs to the thread inside until it is lost. -/
theorem guarded_or_lost (hrun : threading.run (.initial robust) inputs = some (s, os)) : s.Guarded ∨ s.Lost := by
  refine threading.run_invariant (I := fun s _ => s.Guarded ∨ s.Lost) (fun s os i s' o h hstep => ?_)
    (.inl (guarded_initial robust)) hrun
  rcases h with h | h
  · by_cases hsleep : SleepsHolding s i
    · obtain ⟨s₁, o₁, hs₁, hkeeps, hfreed⟩ := h.step i
      obtain ⟨rfl, _⟩ := Prod.mk.inj (Option.some.inj (hs₁.symm.trans hstep))
      exact .inl (hkeeps (hfreed.mpr hsleep))
    · cases i with
      | start x => exact absurd trivial hsleep
      | step k ok =>
        simp only [SleepsHolding, not_forall] at hsleep
        obtain ⟨t, hk, hpc, hok⟩ := hsleep
        obtain rfl := Bool.eq_false_iff.mpr hok
        obtain ⟨hs₁, hlost⟩ := h.interrupted hk hpc
        obtain ⟨rfl, _⟩ := Prod.mk.inj (Option.some.inj (hs₁.symm.trans hstep))
        exact .inr hlost
  · obtain ⟨s₁, o₁, hs₁, hlost, _⟩ := h.step i
    obtain ⟨rfl, _⟩ := Prod.mk.inj (Option.some.inj (hs₁.symm.trans hstep))
    exact .inr hlost

/-- A lost mutex stays lost in every run. -/
theorem Threads.Lost.run (h : s.Lost) (later : List Input) :
    ∃ s' ws, threading.run s later = some (s', ws) ∧ s'.Lost ∧ s.Barren s' ws := by
  induction later generalizing s with
  | nil => exact ⟨s, [], rfl, h, .refl s⟩
  | cons i later ih =>
    obtain ⟨s₁, o, hstep, hlost, hbarren⟩ := h.step i
    obtain ⟨s', ws, hrun, hlost', hbarren'⟩ := ih hlost
    exact ⟨s', o :: ws, by rw [threading.run_cons_of_step hstep, hrun]; rfl, hlost', hbarren.trans hbarren'⟩

end Runs

/-- Once the second usleep of a thread has failed, whatever happens next: the mutex stays
with threads that have returned, nobody unlocks it, and no thread succeeds that had not
succeeded before; and unless it is robust nobody locks it either. -/
theorem interrupted_sleep_starves (robust : Bool) (inputs : List Input) {s : Threads}
    {os : List (Option (Nat × Act))} (hrun : threading.run (.initial robust) inputs = some (s, os)) {k : Nat}
    {t : Thread} (hk : s.threads[k]? = some t) (hpc : t.pc = .usleepRelease) (later : List Input) :
    ∃ s' ws, threading.run s (.step k false :: later) = some (s', ws) ∧
      (∃ j, s'.mutex = some j ∧ s'.returned j = true) ∧ (∀ j, some (j, .unlock) ∉ ws) ∧
      (∀ j, s'.Succeeded j → s.Succeeded j) ∧
      (robust = false → s'.mutex = some k ∧ ∀ j, some (j, .lock) ∉ ws) := by
  have hguarded : s.Guarded := by
    rcases guarded_or_lost hrun with h | h
    · exact h
    · exact absurd (.inl hpc) (h.outside t (List.mem_of_getElem? hk))
  obtain ⟨hstep, hlost⟩ := hguarded.interrupted hk hpc
  obtain ⟨s', ws, hlater, hlost', hbarren⟩ := hlost.run later
  refine ⟨s', none :: ws, by rw [threading.run_cons_of_step hstep, hlater]; rfl, hlost'.owned, ?_, ?_, ?_⟩
  · simpa using hbarren.unlock
  · intro j hj
    exact succeeded_set hk (by simp [Thread.finish]) (hbarren.succeeded j hj)
  · intro hfalse
    obtain ⟨hsame, hnone⟩ := hbarren.lock ((robust_run hrun).trans hfalse)
    exact ⟨hsame, by simpa using hnone⟩

/-- Two threads; the first is interrupted as it holds the mutex, the second then runs. -/
theorem interrupted_sleep_starves_second_thread :
    ∃ s' ws, threading.run ⟨false, some 0, [⟨.usleepRelease, 1, 1, none⟩, ⟨.usleepObtain, 1, 1, none⟩]⟩
        [.step 0 false, .step 1 true, .step 1 true] = some (s', ws) ∧ s'.mutex = some 0 ∧ ¬s'.Succeeded 1 := by
  have hrun : threading.run (.initial false) [.start ⟨true, true, true, 1, 1⟩, .start ⟨true, true, true, 1, 1⟩,
      .step 0 true, .step 0 true] =
        some (⟨false, some 0, [⟨.usleepRelease, 1, 1, none⟩, ⟨.usleepObtain, 1, 1, none⟩]⟩,
          [none, none, some (0, .usleep 1), some (0, .lock)]) := rfl
  obtain ⟨s', ws, hlater, _, _, hsucceeded, hlost⟩ :=
    interrupted_sleep_starves false _ hrun (k := 0) rfl rfl [.step 1 true, .step 1 true]
  refine ⟨s', ws, hlater, (hlost rfl).1, fun hone => ?_⟩
  obtain ⟨t, ht, hsuccess⟩ := hsucceeded 1 hone
  obtain rfl := Option.some.inj ht
  exact absurd hsuccess (by simp)

end Aesd.Threading
