import Aesd.Driver.Serialization
import Aesd.Foundations.Variant

/-! Calls of aesd_read and aesd_write that overlap all return: none waits for ever for the
mutex, and each has boundedly many statements of its own. -/
namespace Aesd.Driver
open Aesd.Foundations

/-- The call k has returned, or waits for the mutex that a call has. -/
def Concurrent.stalled (s : Concurrent) (k : Nat) : Bool :=
  match s.calls[k]? with
  | some (.lock true _) => s.mutexLock.isSome
  | some (.returned _) | none => true
  | _ => false

def Concurrent.moves (s : Concurrent) : Turn → List Nat
  | .call _ => []
  | .step k => if s.stalled k then [] else [k]

/-- At most how many statements the calls made have left, in all. -/
def Concurrent.left (s : Concurrent) : Nat := (s.calls.map Call.left).sum

/-- No call runs into the unlock of a NULL pointer, and none that is to come will. -/
structure Concurrent.Runs (s : Concurrent) : Prop where
  orderly : s.Orderly
  disciplined : s.Disciplined
  opened : ∀ f, (s.sys.files f).privateData = true

section Runs
variable {s : Concurrent} {sys : Sys} {lock : Option Nat} {k : Nat} {c c' : Call}

theorem Call.left_le (c : Call) : c.left ≤ 13 := by
  match c with
  | .locked (.read _ _ _ pc) => cases pc <;> simp [Call.left, ReadPc.left]
  | .locked (.write _ _ _ pc) => cases pc <;> simp [Call.left, WritePc.left]
  | .start _ | .checkUser _ | .lock .. | .errorHandler .. | .returned _ => simp [Call.left]

theorem Concurrent.left_le (s : Concurrent) : s.left ≤ 13 * s.calls.length := by
  have h : ∀ calls : List Call, (calls.map Call.left).sum ≤ 13 * calls.length := by
    intro calls
    induction calls with
    | nil => simp
    | cons c calls ih =>
      have hc := c.left_le
      simp only [List.map_cons, List.sum_cons, List.length_cons]
      omega
  exact h s.calls

theorem Op.left_checkUser (op : Op) : op.checkUser.left < (Call.checkUser op).left := by
  cases op with
  | read f call =>
    rw [Op.checkUser]
    split <;> simp [Call.left]
  | write f call =>
    rw [Op.checkUser]
    split <;> simp [Call.left]

theorem Request.left_first (q : Request) (lock : Bool) : (Call.locked q.first).left < (Call.lock lock q).left := by
  cases q <;> simp [Request.first, Call.left, ReadPc.left, WritePc.left]

/-- A statement of a call that is not stalled brings it further; one that is stalled changes nothing. -/
theorem statement_left (hk : s.calls[k]? = some c) (hstmt : s.statement k c = some (sys, lock, c')) :
    c'.left + (s.moves (.step k)).length ≤ c.left ∧ (s.stalled k = true → c' = c ∧ sys = s.sys ∧ lock = s.mutexLock) ∧
      ∀ f, (sys.files f).privateData = (s.sys.files f).privateData := by
  have hmoves : ∀ b, s.stalled k = b → (s.moves (.step k)).length = if b then 0 else 1 := by
    rintro b rfl
    rw [Concurrent.moves]
    split <;> rfl
  cases c with
  | start op =>
    have hstalled : s.stalled k = false := by simp only [Concurrent.stalled, hk]
    rw [hmoves _ hstalled, hstalled]
    simp only [Concurrent.statement] at hstmt
    split at hstmt
    · cases hstmt
      exact ⟨by simp [Call.left], by simp, fun _ => rfl⟩
    · cases hstmt
      exact ⟨by simp [Call.left], by simp, fun _ => rfl⟩
  | checkUser op =>
    have hstalled : s.stalled k = false := by simp only [Concurrent.stalled, hk]
    rw [hmoves _ hstalled, hstalled]
    cases hstmt
    exact ⟨op.left_checkUser, by simp, fun _ => rfl⟩
  | lock granted q =>
    cases granted with
    | false =>
      have hstalled : s.stalled k = false := by simp only [Concurrent.stalled, hk]
      rw [hmoves _ hstalled, hstalled]
      cases hstmt
      exact ⟨by simp [Call.left], by simp, fun _ => rfl⟩
    | true =>
      have hstalled : s.stalled k = s.mutexLock.isSome := by simp only [Concurrent.stalled, hk]
      rw [hmoves _ hstalled, hstalled]
      simp only [Concurrent.statement] at hstmt
      cases hfree : s.mutexLock with
      | none =>
        rw [hfree] at hstmt
        cases hstmt
        exact ⟨q.left_first true, by simp, fun _ => rfl⟩
      | some j =>
        rw [hfree] at hstmt
        cases hstmt
        exact ⟨Nat.le_refl _, by simp, fun _ => rfl⟩
  | locked body =>
    have hstalled : s.stalled k = false := by simp only [Concurrent.stalled, hk]
    rw [hmoves _ hstalled, hstalled]
    obtain ⟨⟨sys', c''⟩, hbody, he⟩ := Option.map_eq_some_iff.mp hstmt
    cases he
    obtain ⟨hleft, hfiles⟩ := statement_advances hbody
    exact ⟨hleft, by simp, hfiles⟩
  | errorHandler mutexP r =>
    have hstalled : s.stalled k = false := by simp only [Concurrent.stalled, hk]
    rw [hmoves _ hstalled, hstalled]
    simp only [Concurrent.statement] at hstmt
    split at hstmt
    · cases hstmt
      exact ⟨by simp [Call.left], by simp, fun _ => rfl⟩
    · exact absurd hstmt (by simp)
  | returned r =>
    have hstalled : s.stalled k = true := by simp only [Concurrent.stalled, hk]
    rw [hmoves _ hstalled, hstalled]
    cases hstmt
    exact ⟨Nat.le_refl _, by simp, fun _ => rfl⟩

/-- Every statement is defined, and brings the calls further unless its own call is stalled. -/
theorem Concurrent.Runs.step (h : s.Runs) (k : Nat) :
    ∃ s', concurrent.step s (.step k) = some (s', k) ∧ s'.Runs ∧ s'.left + (s.moves (.step k)).length ≤ s.left ∧
      s'.calls.length = s.calls.length ∧ (s.stalled k = true → s' = s) := by
  cases hk : s.calls[k]? with
  | none =>
    have hstalled : s.stalled k = true := by simp only [Concurrent.stalled, hk]
    exact ⟨s, by simp only [concurrent, hk], h, by simp [Concurrent.moves, hstalled], rfl, fun _ => rfl⟩
  | some c =>
    obtain ⟨sys, lock, c', hstmt, horder, hkeeps⟩ := statement_orderly h.orderly h.disciplined hk
    obtain ⟨hleft, hstill, hfiles⟩ := statement_left hk hstmt
    refine ⟨_, by simp only [concurrent, hk, hstmt, Option.map_some], ⟨horder, ?_, fun f => ?_⟩, ?_, ?_, ?_⟩
    · exact (disciplined_set h.orderly h.disciplined hk horder).mpr (hkeeps.mpr fun op _ => h.opened op.file)
    · exact (hfiles f).trans (h.opened f)
    · have hsum := sum_map_set (f := Call.left) (y := c') hk
      rw [Concurrent.left, Concurrent.left]
      simp only at hsum ⊢
      omega
    · exact List.length_set ..
    · intro hstalled
      obtain ⟨rfl, rfl, rfl⟩ := hstill hstalled
      obtain ⟨hlt, hc⟩ := List.getElem?_eq_some_iff.mp hk
      rw [← hc, List.set_getElem_self hlt]

/-- While a call has not returned, some call is not stalled: the one that has the mutex or,
while it is free, any that has not returned. -/
theorem Concurrent.Runs.not_stalled (h : s.Runs) (hk : s.calls[k]? = some c) (hc : ∀ r, c ≠ .returned r) :
    ∃ j, s.stalled j = false := by
  cases howner : s.mutexLock with
  | some j =>
    obtain ⟨d, hd, hin⟩ := (h.orderly.guards j).mp howner
    refine ⟨j, ?_⟩
    cases d with
    | locked body | errorHandler mutexP r => simp only [Concurrent.stalled, hd]
    | _ => exact hin.elim
  | none =>
    refine ⟨k, ?_⟩
    cases c with
    | returned r => exact absurd rfl (hc r)
    | lock granted q => cases granted <;> simp [Concurrent.stalled, hk, howner]
    | _ => simp only [Concurrent.stalled, hk]

end Runs

theorem runs_of_turns (turns : List Turn) :
    ∃ s ks, concurrent.run (.loaded fun _ => aesdOpen) turns = some (s, ks) ∧ s.Runs := by
  obtain ⟨s, ks, hrun, horder, hd, object, log, hser, _⟩ :=
    run_follows_calls (fun _ => aesdOpen) turns (finds_opened (fun _ => rfl) turns)
  exact ⟨s, ks, hrun, horder, hd, hser.sys⟩

/-- From wherever overlapping calls have got, they get further at most 13 times for each of
them, whatever the order; only a stalled call stays where it is, and they are all stalled
only when all have returned; and so there is an order in which they all return. -/
theorem overlapping_calls_return (turns : List Turn) :
    ∃ s ks, concurrent.run (.loaded fun _ => aesdOpen) turns = some (s, ks) ∧
      (∀ k, s.stalled k = true → concurrent.step s (.step k) = some (s, k)) ∧
      (∀ js : List Nat, ∃ s' os, concurrent.run s (js.map .step) = some (s', os) ∧
        (concurrent.emits Concurrent.moves s (js.map .step)).length ≤ 13 * s.calls.length ∧
        ((∀ j, s'.stalled j = true) → ∀ c ∈ s'.calls, ∃ r, c = .returned r)) ∧
      ∃ js : List Nat, js.length ≤ 13 * s.calls.length ∧ ∃ s' os,
        concurrent.run s (js.map .step) = some (s', os) ∧ s'.calls.length = s.calls.length ∧
          ∀ c ∈ s'.calls, ∃ r, c = .returned r := by
  obtain ⟨s, ks, hrun, hs⟩ := runs_of_turns turns
  have hbound := s.left_le
  refine ⟨s, ks, hrun, fun k hk => ?_, fun js => ?_, ?_⟩
  · obtain ⟨s', hstep, _, _, _, hstays⟩ := hs.step k
    rw [hstep, hstays hk]
  · obtain ⟨s', os, hrun', hs', hle⟩ := concurrent.length_emits_le (I := Concurrent.Runs)
      (P := fun _ turn => ∃ k, turn = .step k) (f := Concurrent.moves) (m := Concurrent.left)
      (fun s turn h hturn => by
        obtain ⟨k, rfl⟩ := hturn
        obtain ⟨s', hstep, h', hle, _⟩ := h.step k
        exact ⟨s', k, hstep, h', hle⟩)
      hs (concurrent.along_of_forall (fun turn hturn _ => (List.mem_map.mp hturn).imp fun _ h => h.2.symm) s)
    refine ⟨s', os, hrun', by omega, fun hall c hc => ?_⟩
    by_contra hnot
    obtain ⟨k, hk⟩ := List.mem_iff_getElem?.mp hc
    obtain ⟨j, hj⟩ := hs'.not_stalled hk fun r hr => hnot ⟨r, hr⟩
    exact absurd (hj.symm.trans (hall j)) (by simp)
  · obtain ⟨is, s', os, hlen, hall, hrun', ⟨hs', hcalls⟩, hdone⟩ := concurrent.run_until
      (I := fun s' => s'.Runs ∧ s'.calls.length = s.calls.length) (P := fun _ turn => ∃ k, turn = .step k)
      (D := fun s' => ∀ c ∈ s'.calls, ∃ r, c = .returned r) (m := Concurrent.left)
      (fun s' h hnot => by
        simp only [not_forall, not_exists] at hnot
        obtain ⟨c, hc, hc'⟩ := hnot
        obtain ⟨k, hk⟩ := List.mem_iff_getElem?.mp hc
        obtain ⟨j, hj⟩ := h.1.not_stalled hk hc'
        obtain ⟨s'', hstep, h'', hle, hlength, _⟩ := h.1.step j
        refine ⟨.step j, s'', j, ⟨j, rfl⟩, hstep, ⟨h'', hlength.trans h.2⟩, ?_⟩
        simp only [Concurrent.moves, hj, Bool.false_eq_true, if_false, List.length_singleton] at hle
        omega)
      ⟨hs, rfl⟩
    obtain ⟨js, rfl⟩ : ∃ js : List Nat, is = js.map .step := by
      choose! f hf using concurrent.forall_of_along hall hrun'
      refine ⟨is.map f, ?_⟩
      rw [List.map_map]
      exact (List.map_id' is).symm.trans (List.map_congr_left fun i hi => hf i hi)
    rw [List.length_map] at hlen
    exact ⟨js, by omega, s', os, hrun', hcalls, hdone⟩

end Aesd.Driver
