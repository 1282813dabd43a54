import Mathlib.Data.List.Nodup
import Aesd.Foundations.Machine
import Aesd.Foundations.Mutex

/-! Operations on an object that one mutex guards, each a call of several steps. They take
effect one after the other, where their calls get the mutex, and what the calls have
answered is what the object answers to the operations in that order. -/
namespace Aesd.Foundations

/-- What the points of a call mean to an object: whether it has its operation still to perform,
and which, what it answers after it, and where the rest of its critical section takes the object. -/
structure Guarded (σ ι ο α : Type) where
  object : Machine σ ι ο
  Waits : α → Prop
  Pending : α → ι → Prop
  answer : α → Option ο
  Rest : α → σ → σ → ο → Prop

structure Effect (ι ο : Type) where
  call : Nat
  op : ι
  answer : ο

/-- Each call has performed its operation on the object at most once, in the order of the
log. While the mutex is free the object is what the calls share; else it is what they will
share once the owner leaves. -/
structure Serial {σ ι ο α : Type} (G : Guarded σ ι ο α) (start : σ) (made : List ι) (shared : σ)
    (owner : Option Nat) (calls : List α) (object : σ) (log : List (Effect ι ο)) : Prop where
  run : G.object.run start (log.map Effect.op) = some (object, log.map Effect.answer)
  length : calls.length = made.length
  waits : ∀ k c, calls[k]? = some c → G.Waits c →
    ∃ i, made[k]? = some i ∧ G.Pending c i ∧ ∀ e ∈ log, e.call ≠ k
  answered : ∀ k c o, calls[k]? = some c → G.answer c = some o → ∃ i, ⟨k, i, o⟩ ∈ log
  free : owner = none → object = shared
  held : ∀ k c, owner = some k → calls[k]? = some c → ∃ i o, ⟨k, i, o⟩ ∈ log ∧ G.Rest c shared object o
  logged : ∀ e ∈ log, made[e.call]? = some e.op
  once : (log.map Effect.call).Nodup

namespace Serial
variable {σ ι ο α : Type} {G : Guarded σ ι ο α} {start : σ} {made : List ι} {shared shared' object object' : σ}
  {owner : Option Nat} {calls : List α} {log : List (Effect ι ο)} {k : Nat} {c c' : α} {i : ι} {o : ο}

theorem empty (start : σ) : Serial G start [] start none [] start [] where
  run := rfl
  length := rfl
  waits k c hk := absurd hk (by simp)
  answered k c o hk := absurd hk (by simp)
  free _ := rfl
  held k c hk := absurd hk (by simp)
  logged := by simp
  once := List.nodup_nil

private theorem set_cases {j : Nat} {d : α} (hj : (calls.set k c')[j]? = some d) :
    (j = k ∧ d = c') ∨ (j ≠ k ∧ calls[j]? = some d) := by
  by_cases hjk : j = k
  · subst hjk
    have hlt := (List.getElem?_eq_some_iff.mp hj).1
    rw [List.getElem?_set_self (by simpa using hlt)] at hj
    exact .inl ⟨rfl, (Option.some.inj hj).symm⟩
  · rw [List.getElem?_set_ne (Ne.symm hjk)] at hj
    exact .inr ⟨hjk, hj⟩

private theorem concat_cases {j : Nat} {d : α} (hj : (calls ++ [c])[j]? = some d) :
    (j = calls.length ∧ d = c) ∨ calls[j]? = some d := by
  rcases Nat.lt_or_ge j calls.length with hlt | hge
  · exact .inr (by rwa [List.getElem?_append_left hlt] at hj)
  · have hle := (List.getElem?_eq_some_iff.mp hj).1
    rw [List.length_append, List.length_singleton] at hle
    obtain rfl : j = calls.length := by omega
    rw [List.getElem?_concat_length] at hj
    exact .inl ⟨rfl, (Option.some.inj hj).symm⟩

theorem call_lt (h : Serial G start made shared owner calls object log) {e : Effect ι ο} (he : e ∈ log) :
    e.call < calls.length := by
  rw [h.length]
  exact (List.getElem?_eq_some_iff.mp (h.logged e he)).1

/-- A new call. -/
theorem call (h : Serial G start made shared owner calls object log) (hc : G.Pending c i)
    (ha : G.answer c = none) (howner : ∀ j, owner = some j → j < calls.length) :
    Serial G start (made ++ [i]) shared owner (calls ++ [c]) object log where
  run := h.run
  length := by simp [h.length]
  waits j d hj hd := by
    rcases concat_cases hj with ⟨rfl, rfl⟩ | hj
    · exact ⟨i, by rw [h.length, List.getElem?_concat_length], hc, fun e he => Nat.ne_of_lt (h.call_lt he)⟩
    · obtain ⟨i', hmade, hrest⟩ := h.waits j d hj hd
      exact ⟨i', List.getElem?_append_left (List.getElem?_eq_some_iff.mp hmade).1 ▸ hmade, hrest⟩
  answered j d o hj hd := by
    rcases concat_cases hj with ⟨_, rfl⟩ | hj
    · exact absurd (ha.symm.trans hd) (by simp)
    · exact h.answered j d o hj hd
  free := h.free
  held j d hj hd := by
    rw [List.getElem?_append_left (howner j hj)] at hd
    exact h.held j d hj hd
  logged e he := by
    have hmade := h.logged e he
    rwa [List.getElem?_append_left (List.getElem?_eq_some_iff.mp hmade).1]
  once := h.once

/-- A call that moves on outside its critical section without performing its operation. -/
theorem move (h : Serial G start made shared owner calls object log) (hk : calls[k]? = some c)
    (hout : owner ≠ some k) (hw : G.Waits c' → G.Waits c) (hp : ∀ i, G.Pending c i → G.Pending c' i)
    (ha : G.answer c' = G.answer c) :
    Serial G start made shared owner (calls.set k c') object log where
  run := h.run
  length := by simpa using h.length
  waits j d hj hd := by
    rcases set_cases hj with ⟨rfl, rfl⟩ | ⟨_, hj⟩
    · obtain ⟨i, hmade, hpending, hnew⟩ := h.waits j c hk (hw hd)
      exact ⟨i, hmade, hp i hpending, hnew⟩
    · exact h.waits j d hj hd
  answered j d o hj hd := by
    rcases set_cases hj with ⟨rfl, rfl⟩ | ⟨_, hj⟩
    · exact h.answered j c o hk (ha.symm.trans hd)
    · exact h.answered j d o hj hd
  free := h.free
  held j d hj hd := by
    rcases set_cases hd with ⟨rfl, _⟩ | ⟨_, hd⟩
    · exact absurd hj hout
    · exact h.held j d hj hd
  logged := h.logged
  once := h.once

private theorem perform (h : Serial G start made shared owner calls object log) {e : Effect ι ο}
    (hmade : made[e.call]? = some e.op) (hnew : ∀ d ∈ log, d.call ≠ e.call)
    (hstep : G.object.step object e.op = some (object', e.answer)) :
    G.object.run start ((log ++ [e]).map Effect.op) = some (object', (log ++ [e]).map Effect.answer) ∧
      (∀ d ∈ log ++ [e], made[d.call]? = some d.op) ∧ ((log ++ [e]).map Effect.call).Nodup := by
  refine ⟨?_, fun d hd => ?_, ?_⟩
  · rw [List.map_append, List.map_append, List.map_singleton, List.map_singleton, G.object.run_concat h.run, hstep]
    rfl
  · rcases List.mem_append.mp hd with hd | hd
    · exact h.logged d hd
    · rwa [List.mem_singleton.mp hd]
  · rw [List.map_append, List.map_singleton, ← List.concat_eq_append]
    refine List.Nodup.concat (fun hmem => ?_) h.once
    obtain ⟨d, hd, hde⟩ := List.mem_map.mp hmem
    exact hnew d hd hde

private theorem others_wait (h : Serial G start made shared owner calls object log) {j : Nat} {d : α}
    (hj : calls[j]? = some d) (hd : G.Waits d) {e : Effect ι ο} (hjk : j ≠ e.call) :
    ∃ i', made[j]? = some i' ∧ G.Pending d i' ∧ ∀ e' ∈ log ++ [e], e'.call ≠ j := by
  obtain ⟨i', hmade, hpending, hnew⟩ := h.waits j d hj hd
  refine ⟨i', hmade, hpending, fun e' he => ?_⟩
  rcases List.mem_append.mp he with he | he
  · exact hnew e' he
  · rw [List.mem_singleton.mp he]
    exact Ne.symm hjk

/-- An operation that only answers may take effect also while another call has the mutex. -/
theorem refuse (h : Serial G start made shared owner calls object log)
    (hout : owner ≠ some k) (hmade : made[k]? = some i) (hnew : ∀ e ∈ log, e.call ≠ k)
    (hstep : G.object.step object i = some (object, o)) (hw : ¬G.Waits c') (ha : G.answer c' = some o) :
    Serial G start made shared owner (calls.set k c') object (log ++ [⟨k, i, o⟩]) := by
  obtain ⟨hrun, hlogged, honce⟩ := h.perform (e := ⟨k, i, o⟩) hmade hnew hstep
  refine ⟨hrun, by simpa using h.length, fun j d hj hd => ?_, fun j d o' hj hd => ?_, h.free,
    fun j d hj hd => ?_, hlogged, honce⟩
  · rcases set_cases hj with ⟨_, rfl⟩ | ⟨hjk, hj⟩
    · exact absurd hd hw
    · exact h.others_wait hj hd hjk
  · rcases set_cases hj with ⟨rfl, rfl⟩ | ⟨_, hj⟩
    · obtain rfl := Option.some.inj (ha.symm.trans hd)
      exact ⟨i, by simp⟩
    · obtain ⟨i', hi'⟩ := h.answered j d o' hj hd
      exact ⟨i', List.mem_append_left _ hi'⟩
  · rcases set_cases hd with ⟨rfl, _⟩ | ⟨_, hd⟩
    · exact absurd hj hout
    · obtain ⟨i', o', hi', hrest⟩ := h.held j d hj hd
      exact ⟨i', o', List.mem_append_left _ hi', hrest⟩

/-- The operation takes effect where its call gets the mutex. -/
theorem acquire (h : Serial G start made shared none calls object log)
    (hmade : made[k]? = some i) (hnew : ∀ e ∈ log, e.call ≠ k)
    (hstep : G.object.step shared i = some (object', o)) (hw : ¬G.Waits c') (ha : G.answer c' = none)
    (hrest : G.Rest c' shared object' o) :
    Serial G start made shared (some k) (calls.set k c') object' (log ++ [⟨k, i, o⟩]) := by
  obtain ⟨hrun, hlogged, honce⟩ := h.perform (e := ⟨k, i, o⟩) hmade hnew (h.free rfl ▸ hstep)
  refine ⟨hrun, by simpa using h.length, fun j d hj hd => ?_, fun j d o' hj hd => ?_, by simp,
    fun j d hj hd => ?_, hlogged, honce⟩
  · rcases set_cases hj with ⟨_, rfl⟩ | ⟨hjk, hj⟩
    · exact absurd hd hw
    · exact h.others_wait hj hd hjk
  · rcases set_cases hj with ⟨_, rfl⟩ | ⟨_, hj⟩
    · exact absurd (ha.symm.trans hd) (by simp)
    · obtain ⟨i', hi'⟩ := h.answered j d o' hj hd
      exact ⟨i', List.mem_append_left _ hi'⟩
  · obtain rfl := Option.some.inj hj
    rcases set_cases hd with ⟨_, rfl⟩ | ⟨hjk, _⟩
    · exact ⟨i, o, by simp, hrest⟩
    · exact absurd rfl hjk

/-- A step of the critical section. -/
theorem inside (h : Serial G start made shared (some k) calls object log) (hk : calls[k]? = some c)
    (hw : ¬G.Waits c') (ha : G.answer c' = none)
    (hrest : ∀ o, G.Rest c shared object o → G.Rest c' shared' object o) :
    Serial G start made shared' (some k) (calls.set k c') object log := by
  refine ⟨h.run, by simpa using h.length, fun j d hj hd => ?_, fun j d o hj hd => ?_, by simp,
    fun j d hj hd => ?_, h.logged, h.once⟩
  · rcases set_cases hj with ⟨_, rfl⟩ | ⟨_, hj⟩
    · exact absurd hd hw
    · exact h.waits j d hj hd
  · rcases set_cases hj with ⟨_, rfl⟩ | ⟨_, hj⟩
    · exact absurd (ha.symm.trans hd) (by simp)
    · exact h.answered j d o hj hd
  · obtain rfl := Option.some.inj hj
    rcases set_cases hd with ⟨_, rfl⟩ | ⟨hjk, _⟩
    · obtain ⟨i, o, hlog, hc⟩ := h.held k c rfl hk
      exact ⟨i, o, hlog, hrest o hc⟩
    · exact absurd rfl hjk

/-- The end of the critical section, where nothing of it is left. -/
theorem release (h : Serial G start made shared (some k) calls object log) (hk : calls[k]? = some c)
    (hw : ¬G.Waits c')
    (hrest : ∀ o, G.Rest c shared object o → object = shared ∧ G.answer c' = some o) :
    Serial G start made shared none (calls.set k c') object log := by
  obtain ⟨i, o, hlog, hc⟩ := h.held k c rfl hk
  obtain ⟨hobject, hanswer⟩ := hrest o hc
  refine ⟨h.run, by simpa using h.length, fun j d hj hd => ?_, fun j d o' hj hd => ?_, fun _ => hobject, by simp,
    h.logged, h.once⟩
  · rcases set_cases hj with ⟨_, rfl⟩ | ⟨_, hj⟩
    · exact absurd hd hw
    · exact h.waits j d hj hd
  · rcases set_cases hj with ⟨rfl, rfl⟩ | ⟨_, hj⟩
    · obtain rfl := Option.some.inj (hanswer.symm.trans hd)
      exact ⟨i, hlog⟩
    · exact h.answered j d o' hj hd

end Serial
end Aesd.Foundations
