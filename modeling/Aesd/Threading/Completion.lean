import Aesd.Foundations.Variant
import Aesd.Foundations.Waiting
import Aesd.Threading.MutexRelease

/-! How the threads come to their return. While no usleep of a thread that holds the mutex
fails, whoever waits for the mutex waits for a thread that goes on; once a thread has
returned as its owner, no other thread succeeds any more. -/
namespace Aesd.Threading
open Aesd.Foundations

/-- The thread that k waits for: at its pthread_mutex_lock, the owner of the mutex. -/
def Threads.awaits (s : Threads) (k : Nat) : Option Nat :=
  match s.threads[k]? with
  | some t => if t.pc = .lock then s.mutex else none
  | none => none

def ThreadPc.left : ThreadPc → Nat
  | .usleepObtain => 4
  | .lock => 3
  | .usleepRelease => 2
  | .unlock => 1
  | .returned => 0

def Threads.left (s : Threads) : Nat := (s.threads.map fun t => t.pc.left).sum

def Threads.leftOf (s : Threads) (k : Nat) : Nat := (s.threads[k]?.map fun t => t.pc.left).getD 0

def Input.thread : Input → List Nat
  | .start _ => []
  | .step k _ => [k]

def Threads.moves (s : Threads) : Input → List Nat
  | .start _ => []
  | .step k ok =>
    match s.threads[k]? with
    | some t => if (threadfunc s k ok t).2.1.pc = t.pc then [] else [k]
    | none => []

section Moves
variable {s : Threads} {t : Thread} {k : Nat} {ok : Bool}

theorem ThreadPc.left_le (pc : ThreadPc) : pc.left ≤ 4 := by cases pc <;> decide

theorem Threads.left_le (s : Threads) : s.left ≤ 4 * s.threads.length := by
  have h : ∀ ts : List Thread, (ts.map fun t => t.pc.left).sum ≤ 4 * ts.length := by
    intro ts
    induction ts with
    | nil => simp
    | cons t ts ih =>
      have ht := t.pc.left_le
      simp only [List.map_cons, List.sum_cons, List.length_cons]
      omega
  exact h s.threads

theorem Thread.finish_left (hpc : t.pc ≠ .returned) (success : Bool) : (t.finish success).pc.left < t.pc.left := by
  obtain ⟨pc, d⟩ := t
  cases pc with
  | returned => exact absurd rfl hpc
  | _ => simp [Thread.finish, ThreadPc.left]

/-- Whatever a call answers, its thread is then at a later one, or where it was. -/
theorem threadfunc_left (s : Threads) (k : Nat) (ok : Bool) (t : Thread) :
    (threadfunc s k ok t).2.1.pc = t.pc ∨ (threadfunc s k ok t).2.1.pc.left < t.pc.left := by
  obtain ⟨pc, d⟩ := t
  cases pc with
  | usleepObtain | usleepRelease =>
    cases ok with
    | true => exact .inr (by simp [threadfunc, ThreadPc.left])
    | false => exact .inr (Thread.finish_left (by simp) false)
  | lock =>
    cases ok with
    | false => exact .inr (Thread.finish_left (by simp) false)
    | true =>
      cases hm : s.mutex with
      | none =>
        simp only [threadfunc, hm]
        exact .inr (by simp [ThreadPc.left])
      | some j =>
        by_cases hdead : s.robust ∧ s.returned j
        · simp only [threadfunc, hm, hdead]
          exact .inr (Thread.finish_left (by simp) false)
        · simp only [threadfunc, hm, hdead]
          exact .inl rfl
  | unlock =>
    by_cases howner : s.mutex = some k
    · simp only [threadfunc, howner]
      exact .inr (Thread.finish_left (by simp) true)
    · simp only [threadfunc, howner]
      exact .inr (Thread.finish_left (by simp) false)
  | returned => exact .inl rfl

theorem moves_step (hk : s.threads[k]? = some t) :
    Threads.left ⟨s.robust, (threadfunc s k ok t).1, s.threads.set k (threadfunc s k ok t).2.1⟩ +
      (s.moves (.step k ok)).length ≤ s.left := by
  have hsum := sum_map_set (f := fun t : Thread => t.pc.left) (y := (threadfunc s k ok t).2.1) hk
  simp only [Threads.left, Threads.moves, hk]
  rcases threadfunc_left s k ok t with hsame | hless
  · rw [if_pos hsame, List.length_nil]
    rw [hsame] at hsum
    omega
  · rw [if_neg (by intro hsame; rw [hsame] at hless; exact lt_irrefl _ hless), List.length_singleton]
    omega

theorem Threads.leftOf_le (s : Threads) (j : Nat) : s.leftOf j ≤ 4 := by
  unfold Threads.leftOf
  cases s.threads[j]? with
  | none => exact Nat.zero_le 4
  | some t => exact t.pc.left_le

theorem moves_step_of (hk : s.threads[k]? = some t) (j : Nat) :
    Threads.leftOf ⟨s.robust, (threadfunc s k ok t).1, s.threads.set k (threadfunc s k ok t).2.1⟩ j +
      ((s.moves (.step k ok)).filter (· == j)).length ≤ s.leftOf j := by
  by_cases hj : j = k
  · subst hj
    simp only [Threads.leftOf, Threads.moves, hk, Guards.getElem?_set_self hk, Option.map_some, Option.getD_some]
    rcases threadfunc_left s j ok t with hsame | hless
    · rw [if_pos hsame, hsame, List.filter_nil, List.length_nil, Nat.add_zero]
    · rw [if_neg (by intro hsame; rw [hsame] at hless; exact lt_irrefl _ hless)]
      simpa [Nat.succ_le_iff] using hless
  · have hnone : (s.moves (.step k ok)).filter (· == j) = [] := by
      simp only [Threads.moves, hk]
      split <;> simp [Ne.symm hj]
    rw [hnone, List.length_nil, Nat.add_zero, Threads.leftOf, List.getElem?_set_ne (Ne.symm hj), Threads.leftOf]

end Moves

section Waiting
variable {s : Threads} {t : Thread} {j k : Nat}

theorem awaits_eq_some : s.awaits k = some j ↔ ∃ t, s.threads[k]? = some t ∧ t.pc = .lock ∧ s.mutex = some j := by
  unfold Threads.awaits
  split
  · rename_i t ht
    by_cases hpc : t.pc = .lock
    · simp [ht, hpc]
    · simp [ht, hpc]
  · rename_i hnone
    simp [hnone]

/-- The owner of the mutex does not wait for it. -/
theorem Threads.Guarded.owner_free (h : s.Guarded) (howner : s.mutex = some k) : s.awaits k = none := by
  by_contra hwaits
  obtain ⟨j, hj⟩ := Option.ne_none_iff_exists'.mp hwaits
  obtain ⟨t, ht, hpc, _⟩ := awaits_eq_some.mp hj
  have hin := (Guards.among_iff ht).mp ((h k).mp howner)
  rw [Thread.Inside, hpc] at hin
  exact absurd hin (by simp)

theorem Threads.Guarded.not_deadlock (h : s.Guarded) (S : Set Nat) : ¬Deadlock s.awaits S := by
  refine Foundations.not_deadlock (m := fun k => if s.awaits k = none then 0 else 1) (fun k j hwaits => ?_) S
  obtain ⟨_, _, _, howner⟩ := awaits_eq_some.mp hwaits
  rw [if_pos (h.owner_free howner), if_neg (by simp [hwaits])]
  exact Nat.one_pos

/-- A call that succeeds, of the owner or while nobody has the mutex. -/
theorem Threads.Guarded.goes_on (h : s.Guarded) (hk : s.threads[k]? = some t) (hpc : t.pc ≠ .returned)
    (hmutex : s.mutex = none ∨ s.mutex = some k) :
    (threadfunc s k true t).2.1.pc.left < t.pc.left ∧
      ((threadfunc s k true t).2.1.pc = .returned →
        (threadfunc s k true t).2.1.data.threadCompleteSuccess = some true) := by
  obtain ⟨pc, d⟩ := t
  have hin : s.mutex = some k ↔ Thread.Inside ⟨pc, d⟩ := (h k).trans (Guards.among_iff hk)
  cases pc with
  | usleepObtain | usleepRelease => exact ⟨by simp [threadfunc, ThreadPc.left], by simp [threadfunc]⟩
  | lock =>
    have hfree := hmutex.resolve_right (mt hin.mp (by simp [Thread.Inside]))
    simp only [threadfunc, hfree]
    exact ⟨by simp [ThreadPc.left], by simp⟩
  | unlock =>
    have howner := hin.mpr (.inr rfl)
    simp only [threadfunc, howner]
    exact ⟨by simp [Thread.finish, ThreadPc.left], by simp [Thread.finish]⟩
  | returned => exact absurd rfl hpc

/-- Where some thread has not returned, one can go on. -/
theorem Threads.Guarded.exists_going_on (h : s.Guarded) (hnot : ¬∀ t ∈ s.threads, t.pc = .returned) :
    ∃ k t, s.threads[k]? = some t ∧ t.pc ≠ .returned ∧ (s.mutex = none ∨ s.mutex = some k) := by
  cases hmutex : s.mutex with
  | some k =>
    obtain ⟨t, ht, hin⟩ := (h k).mp hmutex
    exact ⟨k, t, ht, fun hpc => Thread.not_inside hpc hin, .inr rfl⟩
  | none =>
    simp only [not_forall] at hnot
    obtain ⟨t, ht, hpc⟩ := hnot
    obtain ⟨k, hk⟩ := List.mem_iff_getElem?.mp ht
    exact ⟨k, t, hk, hpc, .inl rfl⟩

end Waiting

section Runs
variable {robust : Bool} {s s' : Threads} {inputs : List Input} {os : List (Option (Nat × Act))} {k : Nat} {t : Thread}

/-- The owner of the mutex is the thread inside, as long as no sleep of an owner fails. -/
theorem guarded_run (hsleeps : threading.Along SleepsHolding (.initial robust) inputs)
    (hrun : threading.run (.initial robust) inputs = some (s, os)) : s.Guarded :=
  threading.along_keeps (I := fun s _ => s.Guarded)
    (fun s _ x s' o h hx hstep => by
      obtain ⟨s₁, o₁, hs₁, hkeeps, hfreed⟩ := h.step x
      obtain ⟨rfl, _⟩ := Prod.mk.inj (Option.some.inj (hs₁.symm.trans hstep))
      exact hkeeps (hfreed.mpr hx))
    [] (guarded_initial robust) hsleeps hrun

/-- q has the same threads, and those that had not returned in s and have returned in q
succeeded. -/
def Threads.Onward (s q : Threads) : Prop :=
  q.threads.length = s.threads.length ∧
    ∀ (k : Nat) (t : Thread), s.threads[k]? = some t → t.pc ≠ .returned →
      ∃ t', q.threads[k]? = some t' ∧ (t'.pc = .returned → t'.data.threadCompleteSuccess = some true)

theorem Threads.Onward.step {q : Threads} {mutex : Option Nat} {t' : Thread} (h : s.Onward q)
    (hk : q.threads[k]? = some t) (hsuccess : t'.pc = .returned → t'.data.threadCompleteSuccess = some true) :
    s.Onward ⟨q.robust, mutex, q.threads.set k t'⟩ := by
  refine ⟨(List.length_set ..).trans h.1, fun j u hu hpc => ?_⟩
  by_cases hj : j = k
  · subst hj
    exact ⟨t', Guards.getElem?_set_self hk, hsuccess⟩
  · obtain ⟨u', hu', hdone⟩ := h.2 j u hu hpc
    exact ⟨u', (List.getElem?_set_ne (Ne.symm hj)).trans hu', hdone⟩

/-- Steps of threads already started happen, and bring the threads further at most as often as
the measure says. -/
theorem moves_le {m : Threads → Nat} {f : Threads → Input → List Nat}
    (hpaid : ∀ s k ok t, s.threads[k]? = some t →
      m ⟨s.robust, (threadfunc s k ok t).1, s.threads.set k (threadfunc s k ok t).2.1⟩ +
        (f s (.step k ok)).length ≤ m s)
    (hnone : ∀ s k ok, s.threads[k]? = none → f s (.step k ok) = []) (s : Threads) (js : List (Nat × Bool)) :
    ∃ s' os, threading.run s (js.map fun j => .step j.1 j.2) = some (s', os) ∧
      (threading.emits f s (js.map fun j => .step j.1 j.2)).length ≤ m s := by
  have hsteps : ∀ i ∈ js.map fun j => Input.step j.1 j.2, ∃ k ok, i = .step k ok := by
    intro i hi
    obtain ⟨⟨k, ok⟩, _, rfl⟩ := List.mem_map.mp hi
    exact ⟨k, ok, rfl⟩
  obtain ⟨s', os, hrun, _, hle⟩ := threading.length_emits_le (I := fun _ => True)
    (P := fun _ i => ∃ k ok, i = .step k ok) (f := f) (m := m)
    (fun s i _ hi => by
      obtain ⟨k, ok, rfl⟩ := hi
      cases hk : s.threads[k]? with
      | none => exact ⟨s, none, by simp only [threading, hk], trivial, by rw [hnone s k ok hk]; exact le_rfl⟩
      | some t => exact ⟨_, _, by simp only [threading, hk]; rfl, trivial, hpaid s k ok t hk⟩)
    trivial (threading.along_of_forall (fun i hi _ => hsteps i hi) s)
  exact ⟨s', os, hrun, by omega⟩

/-- The calls of a run of threads already started bring each of them further at most four times. -/
theorem count_moves_le (s : Threads) (js : List (Nat × Bool)) (k : Nat) :
    (threading.emits Threads.moves s (js.map fun j => .step j.1 j.2)).count k ≤ 4 := by
  obtain ⟨_, _, _, hle⟩ := moves_le (m := fun s => s.leftOf k) (f := fun s i => (s.moves i).filter (· == k))
    (fun s j ok t hj => moves_step_of hj k) (fun s j ok hj => by simp [Threads.moves, hj]) s js
  rw [← threading.filter_emits, ← List.count_eq_length_filter] at hle
  exact hle.trans (s.leftOf_le k)

/-- Threads that are all to return do so when their calls succeed. -/
theorem Threads.Guarded.all_return (h : s.Guarded) :
    ∃ ks : List Nat, ks.length ≤ s.left ∧ (∀ k, ks.count k ≤ 4) ∧ ∃ s' os,
      threading.run s (ks.map fun k => .step k true) = some (s', os) ∧
        s'.mutex = none ∧ (∀ t ∈ s'.threads, t.pc = .returned) ∧ s.Onward s' := by
  obtain ⟨is, s', os, hlen, hall, hrun, ⟨hguarded, honward⟩, hdone⟩ := threading.run_until
    (I := fun q => q.Guarded ∧ s.Onward q) (P := fun q i => q.moves i = i.thread ∧ ∃ k, i = .step k true)
    (D := fun q => ∀ t ∈ q.threads, t.pc = .returned) (m := Threads.left)
    (fun q hq hnot => by
      obtain ⟨hguarded, honward⟩ := hq
      obtain ⟨k, t, hk, hpc, hmutex⟩ := hguarded.exists_going_on hnot
      obtain ⟨hless, hsuccess⟩ := hguarded.goes_on hk hpc hmutex
      have hsum := sum_map_set (f := fun t : Thread => t.pc.left) (y := (threadfunc q k true t).2.1) hk
      have hmoves : q.moves (.step k true) = [k] := by
        simp only [Threads.moves, hk]
        exact if_neg fun hsame => lt_irrefl _ (hsame ▸ hless)
      refine ⟨.step k true, _, _, ⟨hmoves, k, rfl⟩, by simp only [threading, hk]; rfl,
        ⟨threadfunc_guarded hguarded hk fun _ => rfl, honward.step hk hsuccess⟩, ?_⟩
      simp only [Threads.left]
      omega)
    ⟨h, rfl, fun k t hk hpc => ⟨t, hk, fun hreturned => absurd hreturned hpc⟩⟩
  have hsteps := threading.forall_of_along (threading.along_mono (fun _ _ hi => hi.2) hall) hrun
  have hemits := threading.emits_of_along (threading.along_mono (fun _ _ hi => hi.1) hall) hrun
  obtain ⟨ks, rfl⟩ : ∃ ks : List Nat, is = ks.map fun k => .step k true := by
    choose! f hf using hsteps
    refine ⟨is.map f, ?_⟩
    rw [List.map_map]
    exact (List.map_id' is).symm.trans (List.map_congr_left fun i hi => hf i hi)
  rw [List.length_map] at hlen
  refine ⟨ks, hlen, fun k => ?_, s', os, hrun, (hguarded.mutexFreed).free hdone, hdone, honward⟩
  have hcount := count_moves_le s (ks.map fun k => (k, true)) k
  have hks : (ks.map fun k => (k, true)).map (fun j => Input.step j.1 j.2) = ks.map fun k => .step k true :=
    List.map_map
  rw [hks, hemits, List.flatMap_map] at hcount
  rwa [show ks.flatMap (fun k => (Input.step k true).thread) = ks from List.flatMap_singleton' ks] at hcount

end Runs

/-- While no usleep of a thread that holds the mutex fails: no threads wait for one another;
in any order, and whatever their calls answer, each thread gets past at most four calls; and
at most four successful calls of each bring them all to their return, with success unless they
had already returned, and leave the mutex free. -/
theorem threads_return (robust : Bool) (inputs : List Input)
    (hsleeps : threading.Along SleepsHolding (.initial robust) inputs) {s : Threads}
    {os : List (Option (Nat × Act))} (hrun : threading.run (.initial robust) inputs = some (s, os)) :
    (∀ S, ¬Deadlock s.awaits S) ∧
    (∀ js : List (Nat × Bool), ∃ s' ws, threading.run s (js.map fun j => .step j.1 j.2) = some (s', ws) ∧
      (threading.emits Threads.moves s (js.map fun j => .step j.1 j.2)).length ≤ 4 * s.threads.length ∧
      ∀ k, (threading.emits Threads.moves s (js.map fun j => .step j.1 j.2)).count k ≤ 4) ∧
    ∃ ks : List Nat, ks.length ≤ 4 * s.threads.length ∧ (∀ k, ks.count k ≤ 4) ∧ ∃ s' ws,
      threading.run s (ks.map fun k => .step k true) = some (s', ws) ∧
        s'.mutex = none ∧ (∀ t ∈ s'.threads, t.pc = .returned) ∧ s.Onward s' := by
  have hguarded := guarded_run hsleeps hrun
  have hleft := s.left_le
  refine ⟨hguarded.not_deadlock, fun js => ?_, ?_⟩
  · obtain ⟨s', ws, hrun', hle⟩ := moves_le (fun s k ok t hk => moves_step hk)
      (fun s k ok hk => by simp [Threads.moves, hk]) s js
    exact ⟨s', ws, hrun', hle.trans hleft, count_moves_le s js⟩
  · obtain ⟨ks, hlen, hrest⟩ := hguarded.all_return
    exact ⟨ks, hlen.trans hleft, hrest⟩

/-- Two threads, of which one has the mutex and the other has come to its lock. -/
theorem threads_return_two_threads :
    ∃ s os, threading.run (.initial false) [.start ⟨true, true, true, 1, 1⟩, .start ⟨true, true, true, 1, 1⟩,
        .step 0 true, .step 1 true, .step 0 true] = some (s, os) ∧ s.awaits 1 = some 0 ∧
      ∃ (ks : List Nat) (s' : Threads) (ws : List (Option (Nat × Act))),
        threading.run s (ks.map fun k => .step k true) = some (s', ws) ∧ s'.mutex = none := by
  have hsleeps : threading.Along SleepsHolding (.initial false) [.start ⟨true, true, true, 1, 1⟩,
      .start ⟨true, true, true, 1, 1⟩, .step 0 true, .step 1 true, .step 0 true] := by
    apply threading.along_of_forall
    intro i hi s
    cases i with
    | start => trivial
    | step k ok =>
      intro t _ _
      simp only [List.mem_cons, Input.step.injEq, reduceCtorEq, List.not_mem_nil] at hi
      tauto
  refine ⟨_, _, rfl, rfl, ?_⟩
  obtain ⟨ks, _, _, s', ws, hrun, hfree, _⟩ := (threads_return false _ hsleeps rfl).2.2
  exact ⟨ks, s', ws, hrun, hfree⟩

end Aesd.Threading
