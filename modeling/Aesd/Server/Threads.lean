import Aesd.Server.Process

/-! What the threads of the server share: the globals, the heap, the descriptor table,
the list of sessions and the mutex. A freed block is never handed out again, so a block
that is not in memory is one that was freed. -/
namespace Aesd.Server
open Aesd.Foundations Aesd.Driver

/-- The main thread, or the session thread created with this number. -/
inductive Tid where
  | main : Tid
  | session : Nat → Tid
  deriving DecidableEq, Repr

/-- What an open descriptor refers to; 0, 1 and 2 are inherited. -/
inductive Desc where
  | inherited : Desc
  | listening : Desc
  | store : Desc
  | connection : Nat → Desc
  deriving DecidableEq, Repr

structure Params where
  threadId : Option Nat
  acceptedSockfd : Int
  isThreadComplete : Bool
  deriving DecidableEq, Repr

/-- A block of the heap: bytes, or a node of the list, which begins with its thread_params. -/
inductive Block where
  | buffer : Buffer → Block
  | node : Params → Block
  deriving DecidableEq, Repr

/-- The globals, the list that head starts, the descriptors, the heap with its next
unused block, whether sighandler has removed RECV_FILE_NAME, and the threads joined. -/
structure Image where
  sockfd : Int
  acceptedSockfd : Int
  readBuffer : Option Nat
  recvData : Option Nat
  fptr : Int
  readDataLen : Int
  mutexLock : Option Tid
  head : List Nat
  fds : Int → Option Desc
  memory : Nat → Option Block
  next : Nat
  removed : Bool
  joined : List Nat

def Image.initial : Image where
  sockfd := 0
  acceptedSockfd := 0
  readBuffer := none
  recvData := none
  fptr := 0
  readDataLen := 0
  mutexLock := none
  head := []
  fds fd := if fd = 0 ∨ fd = 1 ∨ fd = 2 then some .inherited else none
  memory _ := none
  next := 0
  removed := false
  joined := []

/-- What the system answers to the call in a statement, as far as the call has it: whether
it succeeds, a new descriptor, a count and bytes. -/
structure Reply where
  ok : Bool
  fd : Int
  count : Int
  data : List Byte

/-- A call that moves bytes, between which object and which bytes. -/
inductive Call where
  | recv : Nat → List Byte → Call
  | write : Desc → List Byte → Call
  | read : Desc → Int → List Byte → Call
  | send : Nat → List Byte → Call
  deriving DecidableEq, Repr

/-- The calls of a statement that a trace of the process shows. -/
inductive Act where
  | call : Call → Act
  | close : Int → Act
  | free : Nat → Act
  | join : Nat → Act
  deriving DecidableEq, Repr

/-- Why the process ends: a call failed by itself, or sighandler had taken away the
descriptor or the path that it needs. -/
inductive Ending where
  | failed : Ending
  | lost : Ending
  deriving DecidableEq, Repr

/-- What a statement leads to: another statement, or the end of the process. -/
inductive Outcome (π : Type) where
  | next : π → Image → Option Act → Outcome π
  | ends : Ending → Outcome π

namespace Image
variable {g g' : Image}

/-- The buffer that a pointer leads to; NULL and freed blocks may not be followed. -/
def buffer (g : Image) (p : Option Nat) : Except Stop (Nat × Buffer) :=
  match p with
  | none => .error .undefined
  | some i =>
    match g.memory i with
    | some (.buffer b) => .ok (i, b)
    | _ => .error .undefined

def params (g : Image) (a : Nat) : Except Stop Params :=
  match g.memory a with
  | some (.node q) => .ok q
  | _ => .error .undefined

def set (g : Image) (i : Nat) (b : Block) : Image := { g with memory := Function.update g.memory i (some b) }

/-- The block that malloc hands out is the next unused one. -/
def alloc (g : Image) (b : Block) : Image :=
  { g with memory := Function.update g.memory g.next (some b), next := g.next + 1 }

/-- free; of NULL it does nothing, of a freed block it is undefined. -/
def free (g : Image) (p : Option Nat) : Except Stop Image :=
  match p with
  | none => .ok g
  | some i =>
    if (g.memory i).isSome then .ok { g with memory := Function.update g.memory i none } else .error .undefined

def openFd (g : Image) (fd : Int) (d : Desc) : Except Stop Image :=
  if 0 ≤ fd ∧ g.fds fd = none then .ok { g with fds := Function.update g.fds fd (some d) }
  else .error .unfinished

def closeFd (g : Image) (fd : Int) : Image := { g with fds := Function.update g.fds fd none }

theorem buffer_eq_ok {p : Option Nat} {i : Nat} {b : Buffer} :
    g.buffer p = .ok (i, b) ↔ p = some i ∧ g.memory i = some (.buffer b) := by
  constructor
  · intro h
    unfold buffer at h
    split at h
    · exact absurd h (by simp)
    · split at h
      · rename_i hm
        obtain ⟨rfl, rfl⟩ := Prod.mk.inj (Except.ok.inj h)
        exact ⟨rfl, hm⟩
      · exact absurd h (by simp)
  · rintro ⟨rfl, hm⟩
    simp only [buffer, hm]

theorem params_eq_ok {a : Nat} {q : Params} : g.params a = .ok q ↔ g.memory a = some (.node q) := by
  unfold params
  split
  · rename_i q' hm
    rw [hm]
    simp
  · rename_i hm
    exact iff_of_false (by simp) (hm q)

theorem free_eq_ok {p : Option Nat} (h : g.free p = .ok g') :
    (p = none ∧ g' = g) ∨ ∃ i b, p = some i ∧ g.memory i = some b ∧
      g' = { g with memory := Function.update g.memory i none } := by
  unfold free at h
  split at h
  · exact .inl ⟨rfl, (Except.ok.inj h).symm⟩
  · rename_i i
    split at h
    · rename_i hsome
      obtain ⟨b, hb⟩ := Option.isSome_iff_exists.mp hsome
      exact .inr ⟨i, b, rfl, hb, (Except.ok.inj h).symm⟩
    · exact absurd h (by simp)

/-- free changes the memory alone. -/
theorem free_frame {p : Option Nat} (h : g.free p = .ok g') : g' = { g with memory := g'.memory } := by
  rcases free_eq_ok h with ⟨_, rfl⟩ | ⟨_, _, _, _, rfl⟩
  · rfl
  · rfl

/-- free of a pointer that is not NULL finds the block there and takes it away. -/
theorem free_some {i : Nat} (h : g.free (some i) = .ok g') :
    g.memory i ≠ none ∧ g' = { g with memory := Function.update g.memory i none } := by
  rcases free_eq_ok h with ⟨hnull, _⟩ | ⟨j, b, hj, hb, rfl⟩
  · exact absurd hnull (by simp)
  · obtain rfl := Option.some.inj hj
    exact ⟨by simp [hb], rfl⟩

theorem free_gone {p : Option Nat} {b : Nat} (h : g.free p = .ok g') (hb : g.memory b = none) :
    g'.memory b = none := by
  rcases free_eq_ok h with ⟨_, rfl⟩ | ⟨i, _, _, _, rfl⟩
  · exact hb
  · by_cases hbi : b = i
    · subst hbi
      exact Function.update_self ..
    · simpa only [Function.update_of_ne hbi] using hb

theorem openFd_eq_ok {fd : Int} {d : Desc} (h : g.openFd fd d = .ok g') :
    0 ≤ fd ∧ g.fds fd = none ∧ g' = { g with fds := Function.update g.fds fd (some d) } := by
  unfold openFd at h
  split at h
  · rename_i hfree
    exact ⟨hfree.1, hfree.2, (Except.ok.inj h).symm⟩
  · exact absurd h (by simp)

theorem closeFd_eq_some {fd f : Int} {d : Desc} :
    (g.closeFd fd).fds f = some d ↔ f ≠ fd ∧ g.fds f = some d := by
  by_cases hf : f = fd
  · subst hf
    simp [closeFd]
  · simp only [closeFd, Function.update_of_ne hf]
    exact (and_iff_right hf).symm

end Image

/-- A statement that opens a descriptor and goes on. -/
theorem openFd_next {π : Type} {g g' : Image} {fd : Int} {d : Desc} {after after' : π} {f : Image → Image}
    {act act' : Option Act}
    (h : (g.openFd fd d >>= fun g₁ => .ok (Outcome.next after (f g₁) act)) = .ok (.next after' g' act')) :
    0 ≤ fd ∧ g.fds fd = none ∧ after' = after ∧
      g' = f { g with fds := Function.update g.fds fd (some d) } ∧ act' = act := by
  obtain ⟨g₁, hopen, h⟩ := bind_eq_ok.mp h
  obtain ⟨rfl, rfl, rfl⟩ := Outcome.next.inj (Except.ok.inj h)
  obtain ⟨hfd, hfree, rfl⟩ := Image.openFd_eq_ok hopen
  exact ⟨hfd, hfree, rfl, rfl, rfl⟩

/-- pthread_mutex_lock: a mutex that is held, also by the caller, keeps it waiting. -/
def lockMutex {π : Type} (me : Tid) (r : Reply) (g : Image) (after : π) : Except Stop (Outcome π) :=
  if r.ok then
    match g.mutexLock with
    | none => .ok (.next after { g with mutexLock := some me } none)
    | some _ => .error .unfinished
  else .ok (.ends .failed)

/-- pthread_mutex_unlock: only the owner may call it. -/
def unlockMutex {π : Type} (me : Tid) (r : Reply) (g : Image) (after : π) : Except Stop (Outcome π) :=
  if r.ok then
    if g.mutexLock = some me then .ok (.next after { g with mutexLock := none } none) else .error .undefined
  else .ok (.ends .failed)

section Mutex
variable {π : Type} {me : Tid} {r : Reply} {g g' : Image} {after after' : π} {act : Option Act}

theorem lockMutex_next (h : lockMutex me r g after = .ok (.next after' g' act)) :
    g.mutexLock = none ∧ after' = after ∧ g' = { g with mutexLock := some me } ∧ act = none := by
  unfold lockMutex at h
  split at h
  · split at h
    · rename_i hfree
      obtain ⟨rfl, rfl, rfl⟩ := Outcome.next.inj (Except.ok.inj h)
      exact ⟨hfree, rfl, rfl, rfl⟩
    · exact absurd h (by simp)
  · exact absurd h (by simp)

theorem unlockMutex_next (h : unlockMutex me r g after = .ok (.next after' g' act)) :
    g.mutexLock = some me ∧ after' = after ∧ g' = { g with mutexLock := none } ∧ act = none := by
  unfold unlockMutex at h
  split at h
  · split at h
    · rename_i hmine
      obtain ⟨rfl, rfl, rfl⟩ := Outcome.next.inj (Except.ok.inj h)
      exact ⟨hmine, rfl, rfl, rfl⟩
    · exact absurd h (by simp)
  · exact absurd h (by simp)

end Mutex
end Aesd.Server
