import Aesd.Server.ThreadCallback
import Aesd.Server.BufferSharing

/-! The process over what lies behind RECV_FILE_NAME: the store that its opens, writes and
reads meet, and the responses that leave it. -/
namespace Aesd.Server
open Aesd.Foundations Aesd.Driver
variable {σ : Type}

structure Shelf (σ : Type) where
  store : σ
  reads : Nat

/-- What the store becomes by a statement of a session; there is nothing where the store
would have answered the statement's call in another way. -/
def Shelf.serve (x : Shelf σ) (calls : StoreCalls σ) : SessionPc → SessionPc → Option Act → Option (Shelf σ)
  | .openAppend _, .write _, _ => (calls.openAppend x.store).map fun s => ⟨s, x.reads⟩
  | .write _, _, some (.call (.write .store data)) =>
    (calls.write x.store data).toOption.map fun q => ⟨q.1, x.reads⟩
  | .openRead, .mallocRead _, _ => (calls.openRead x.store).map fun s => ⟨s, 0⟩
  | .read _ length _, _, some (.call (.read .store n data)) =>
    (calls.read x.reads x.store length.toNat).toOption.bind fun q =>
      if q.2 = (n, data) then some ⟨q.1, x.reads + 1⟩ else none
  | _, _, _ => some x

/-- What it becomes by a statement of a thread; create_new_file's open is main's only one. -/
def Shelf.attend (x : Shelf σ) (created : σ → σ) (calls : Nat → StoreCalls σ) (p p' : Proc)
    (o : Option (Actor × Act)) : Tid → Option (Shelf σ)
  | .main => some (if p.main = .createOpen ∧ p'.main = .createClose then ⟨created x.store, x.reads⟩ else x)
  | .session k =>
    match p.sessions[k]?, p'.sessions[k]? with
    | some s, some s' => x.serve (calls k) s.pc s'.pc (o.map Prod.snd)
    | _, _ => some x

/-- The server and its store: any thread may take its next statement, and what its calls on
the store are answered is what the store answers. -/
def hosted (timer : Bool) (created : σ → σ) (calls : Nat → StoreCalls σ) :
    Machine (Proc × Shelf σ) (Tid × Reply) (Option (Actor × Act)) where
  step s i :=
    ((process timer).step s.1 (.step i.1 i.2)).bind fun q =>
      (s.2.attend created calls s.1 q.1 q.2 i.1).map fun x => ((q.1, x), q.2)

def statements (is : List Input) : List (Tid × Reply) :=
  is.filterMap fun
    | .step t r => some (t, r)
    | .signal _ _ => none

def responses (os : Trace) : List (Nat × List Byte) :=
  os.filterMap fun
    | some (_, .call (.send k response)) => some (k, response)
    | _ => none

def served (calls : Nat → StoreCalls σ) (os : Trace) : List (Session σ) :=
  (responses os).map fun r => .complete ((chunksOf (callsOf os r.1)).map delivered) (calls r.1)

section Hosted
variable {timer : Bool} {created : σ → σ} {calls : Nat → StoreCalls σ} {p p' : Proc} {x x' : Shelf σ}
  {t : Tid} {r : Reply} {o : Option (Actor × Act)} {os : Trace} {is : List (Tid × Reply)}

theorem hosted_step_eq_some : (hosted timer created calls).step (p, x) (t, r) = some ((p', x'), o) ↔
    (process timer).step p (.step t r) = some (p', o) ∧ x.attend created calls p p' o t = some x' := by
  constructor
  · intro h
    obtain ⟨⟨p₁, o₁⟩, hstep, h⟩ := Option.bind_eq_some_iff.mp h
    obtain ⟨x₁, hattend, h⟩ := Option.map_eq_some_iff.mp h
    obtain ⟨hs, rfl⟩ := Prod.mk.inj h
    obtain ⟨rfl, rfl⟩ := Prod.mk.inj hs
    exact ⟨hstep, hattend⟩
  · rintro ⟨hstep, hattend⟩
    apply Option.bind_eq_some_iff.mpr
    exact ⟨(p', o), hstep, Option.map_eq_some_iff.mpr ⟨x', hattend, rfl⟩⟩

end Hosted

section Chunks
variable {timer : Bool} {p p' : Proc} {i : Input} {o : Option (Actor × Act)} {node : Nat} {me : Tid}
  {r : Reply} {g g' : Image} {pc pc' : SessionPc} {act : Option Act}

theorem SessionMove.receives_nothing (h : SessionMove me node g pc pc' g' act) (hpc : ∀ total, pc ≠ .recv total) :
    chunksOf (Act.calls act) = [] := by
  cases h with
  | recv => exact absurd rfl (hpc _)
  | write => cases g.fds g.fptr <;> rfl
  | freeRecv => cases g.recvData <;> rfl
  | freeRead => cases g.readBuffer <;> rfl
  | _ => rfl

/-- A recv is given room for 100 bytes. -/
theorem sessionStep_recv {total : Int} (h : sessionStep me node r g (.recv total) = .ok (.next pc' g' act)) :
    ∃ c, chunksOf (Act.calls act) = [c] ∧ c.length ≤ recvLen := by
  obtain ⟨q, _, h⟩ := bind_eq_ok.mp h
  split at h
  · split at h
    · obtain ⟨_, _, h⟩ := bind_eq_ok.mp h
      obtain ⟨_, _, h⟩ := bind_eq_ok.mp h
      obtain ⟨_, _, rfl⟩ := Outcome.next.inj (Except.ok.inj h)
      exact ⟨r.data.take recvLen, rfl, List.length_take_le ..⟩
    · exact absurd (Except.ok.inj h) (by simp)
  · exact absurd (Except.ok.inj h) (by simp)

/-- Only its own recv adds to what a session has received. -/
theorem step_chunks (hstep : (process timer).step p i = some (p', o)) (os : Trace) (k : Nat) :
    chunksOf (callsOf (os ++ [o]) k) = chunksOf (callsOf os k) ∨
      ∃ s total c, p.sessions[k]? = some s ∧ s.pc = .recv total ∧ c.length ≤ recvLen ∧
        chunksOf (callsOf (os ++ [o]) k) = chunksOf (callsOf os k) ++ [c] := by
  cases step_moves hstep with
  | stays | delivered | handlerEnds | mainEnds | sessionEnds =>
    rw [callsOf_concat_none]
    exact .inl rfl
  | @handler t _ _ _ _ _ act =>
    rw [callsOf_concat_of_ne os act (by simp)]
    exact .inl rfl
  | main =>
    rw [callsOf_concat_of_ne os _ (by simp)]
    exact .inl rfl
  | @session j s _ _ _ _ hended hframes hs =>
    rcases step_session hended hframes hs hstep with ⟨pc, g, act, hnext, _, ho⟩ | ⟨_, _, _, ho⟩ | ⟨_, ho⟩
    · rw [ho]
      by_cases hj : j = k
      · subst hj
        rw [callsOf_concat_own, chunksOf_append]
        by_cases hrecv : ∃ total, s.pc = .recv total
        · obtain ⟨total, hpc⟩ := hrecv
          rw [hpc] at hnext
          obtain ⟨c, hc, hlen⟩ := sessionStep_recv hnext
          exact .inr ⟨s, total, c, hs, hpc, hlen, by rw [hc]⟩
        · have hnone := (sessionStep_moves hnext).receives_nothing fun total hpc => hrecv ⟨total, hpc⟩
          rw [hnone, List.append_nil]
          exact .inl rfl
      · rw [callsOf_concat_of_ne os act (by simpa using hj)]
        exact .inl rfl
    · rw [ho, callsOf_concat_none]
      exact .inl rfl
    · rw [ho, callsOf_concat_none]
      exact .inl rfl

end Chunks

section Responses
variable {os : Trace} {who : Actor} {act : Option Act}

theorem responses_concat (os : Trace) (o : Option (Actor × Act)) :
    responses (os ++ [o]) = responses os ++ responses [o] := List.filterMap_append ..

theorem responses_concat_none (os : Trace) : responses (os ++ [none]) = responses os := by
  simp [responses]

/-- What sends nothing adds no response. -/
theorem responses_concat_of_silent (os : Trace) (who : Actor)
    (hsilent : ∀ k response, act ≠ some (.call (.send k response))) :
    responses (os ++ [act.map fun a => (who, a)]) = responses os := by
  rw [responses_concat, List.append_right_eq_self]
  cases act with
  | none => rfl
  | some a =>
    cases a with
    | call c =>
      cases c with
      | send k response => exact absurd rfl (hsilent k response)
      | _ => rfl
    | _ => rfl

theorem responses_concat_send (os : Trace) (who : Actor) (k : Nat) (response : List Byte) :
    responses (os ++ [some (who, .call (.send k response))]) = responses os ++ [(k, response)] :=
  responses_concat os _

end Responses
end Aesd.Server
