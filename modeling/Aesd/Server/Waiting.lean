import Aesd.Foundations.Waiting
import Aesd.Server.Reaping

/-! What keeps a thread of the server waiting: a mutex that another one holds, or for main
the end of a thread that it joins. Every other call returns, whatever the clients do with
it, so a thread that waits for nobody gets to its next statement. -/
namespace Aesd.Server
open Aesd.Foundations Aesd.Driver

/-- The thread that t waits for: the owner of the mutex that its innermost handler or its own
code asks for, or the session that main joins. -/
def Proc.awaits (p : Proc) (t : Tid) : Option Tid :=
  match p.frames t with
  | .timer (.lock _) :: _ => p.image.mutexLock
  | _ :: _ => none
  | [] =>
    match t with
    | .main =>
      match p.main with
      | .join a _ => (p.image.threadOf a).bind fun k => if p.finished k then none else some (.session k)
      | _ => none
    | .session k =>
      match p.sessions[k]? with
      | some s => if s.pc = .lock then p.image.mutexLock else none
      | none => none

/-- A join may lead to a thread that waits for the mutex, and its owner does not wait. -/
def Proc.waitRank (p : Proc) (t : Tid) : Nat :=
  if p.awaits t = none then 0 else if t = .main ∧ p.frames .main = [] then 2 else 1

def Proc.busy (p : Proc) (t : Tid) : Prop := p.frames t ≠ [] ∨ p.alive t = true

def Image.unused (g : Image) (fd : Int) : Prop := 0 ≤ fd ∧ g.fds fd = none

/-- Nothing that has to be waited for: it goes on, ends the process, or is undefined. -/
def Prompt {α : Type} (x : Except Stop α) : Prop := x ≠ .error .unfinished

section Prompt
variable {α β : Type}

theorem prompt_ok (a : α) : Prompt (.ok a) := by simp [Prompt]

theorem prompt_undefined : Prompt (.error .undefined : Except Stop α) := by simp [Prompt]

theorem Prompt.bind {x : Except Stop α} {f : α → Except Stop β} (hx : Prompt x) (hf : ∀ a, Prompt (f a)) :
    Prompt (x >>= f) := by
  cases x with
  | ok a => exact hf a
  | error e => exact fun h => hx (congrArg Except.error (Except.error.inj h))

theorem prompt_addInt {a b : Int} : Prompt (addInt a b) := by
  rcases addInt_cases a b with h | h
  · rw [h]
    exact prompt_ok _
  · rw [h]
    exact prompt_undefined

theorem prompt_place {b : Buffer} {i : Int} {data : List Byte} : Prompt (place b i data) := by
  unfold place
  split
  · exact prompt_ok _
  · split
    · exact prompt_ok _
    · exact prompt_undefined

theorem prompt_byteAt {b : Buffer} {i : Int} : Prompt (byteAt b i) := by
  unfold byteAt
  split
  · exact prompt_undefined
  · split
    · exact prompt_ok _
    · exact prompt_undefined

theorem prompt_firstBytes {b : Buffer} {n : Int} : Prompt (firstBytes b n) := by
  unfold firstBytes
  split
  · split
    · exact prompt_ok _
    · exact prompt_undefined
  · exact prompt_undefined

variable {g : Image}

theorem prompt_buffer {p : Option Nat} : Prompt (g.buffer p) := by
  unfold Image.buffer
  split
  · exact prompt_undefined
  · split
    · exact prompt_ok _
    · exact prompt_undefined

theorem prompt_params {a : Nat} : Prompt (g.params a) := by
  unfold Image.params
  split
  · exact prompt_ok _
  · exact prompt_undefined

theorem prompt_free {p : Option Nat} : Prompt (g.free p) := by
  unfold Image.free
  split
  · exact prompt_ok _
  · split
    · exact prompt_ok _
    · exact prompt_undefined

theorem prompt_openFd {fd : Int} {d : Desc} (h : g.unused fd) : Prompt (g.openFd fd d) := by
  unfold Image.openFd
  split
  · exact prompt_ok _
  · rename_i hnot
    exact absurd h hnot

theorem prompt_lockMutex {π : Type} {me : Tid} {r : Reply} {after : π} (h : g.mutexLock = none) :
    Prompt (lockMutex me r g after) := by
  unfold lockMutex
  rw [h]
  split
  · exact prompt_ok _
  · exact prompt_ok _

theorem prompt_unlockMutex {π : Type} {me : Tid} {r : Reply} {after : π} : Prompt (unlockMutex me r g after) := by
  unfold unlockMutex
  split
  · split
    · exact prompt_ok _
    · exact prompt_undefined
  · exact prompt_ok _

theorem prompt_orReturn {r : Reply} {after : MainPc} : Prompt (orReturn r g after) := by
  unfold orReturn
  split
  · exact prompt_ok _
  · exact prompt_ok _

end Prompt

section Statements
variable {me : Tid} {node : Nat} {r : Reply} {g : Image}

/-- A session waits in pthread_mutex_lock alone. -/
theorem sessionStep_prompt {pc : SessionPc} (hdone : pc ≠ .done) (hlock : pc = .lock → g.mutexLock = none)
    (hfd : g.unused r.fd) : Prompt (sessionStep me node r g pc) := by
  cases pc with
  | lock => exact prompt_lockMutex (hlock rfl)
  | done => exact absurd rfl hdone
  | unlock => exact prompt_unlockMutex
  | malloc =>
    rw [sessionStep]
    split
    · exact prompt_ok _
    · exact prompt_ok _
  | memset => exact prompt_buffer.bind fun _ => prompt_place.bind fun _ => prompt_ok _
  | recv total =>
    refine prompt_params.bind fun q => ?_
    split
    · split
      · exact prompt_buffer.bind fun _ => prompt_place.bind fun _ => prompt_ok _
      · exact prompt_ok _
    · exact prompt_ok _
  | scan total n =>
    exact prompt_addInt.bind fun _ => prompt_buffer.bind fun _ =>
      prompt_byteAt.bind fun _ => prompt_ok _
  | realloc total found =>
    refine prompt_addInt.bind fun _ => prompt_buffer.bind fun q => ?_
    dsimp only
    split
    · exact prompt_free.bind fun _ => prompt_ok _
    · exact prompt_ok _
  | openAppend total | openRead =>
    rw [sessionStep]
    split
    · exact (prompt_openFd hfd).bind fun _ => prompt_ok _
    · exact prompt_ok _
  | write total => exact prompt_buffer.bind fun _ => prompt_firstBytes.bind fun _ => prompt_ok _
  | freeRecv | freeRead => exact prompt_free.bind fun _ => prompt_ok _
  | addLen total => exact prompt_addInt.bind fun _ => prompt_ok _
  | mallocRead fd =>
    rw [sessionStep]
    split
    · exact prompt_ok _
    · exact prompt_ok _
  | read fd length status =>
    refine prompt_buffer.bind fun q => ?_
    dsimp only
    split
    · exact prompt_place.bind fun _ => prompt_ok _
    · exact prompt_ok _
  | send =>
    refine prompt_params.bind fun q => prompt_buffer.bind fun b => ?_
    dsimp only
    split
    · split
      · exact prompt_firstBytes.bind fun _ => prompt_ok _
      · exact prompt_ok _
    · exact prompt_ok _
  | complete | closeSocket => exact prompt_params.bind fun _ => prompt_ok _
  | openFailed | nullRecv | closeStore | nullRead | closeRead | nullReadAgain => exact prompt_ok _

/-- main waits in pthread_join alone. -/
theorem mainStep_prompt {timer : Bool} {n : Nat} {finished : Nat → Bool} {pc : MainPc}
    (hjoin : ∀ a rest k, pc = .join a rest → g.threadOf a = some k → finished k = true)
    (hfd : g.unused r.fd) : Prompt (mainStep timer n finished r g pc) := by
  cases pc with
  | register | getAddressInfo | setsockopt | bind | daemonise | initTimer => exact prompt_orReturn
  | socket | createOpen =>
    rw [mainStep]
    split
    · exact (prompt_openFd hfd).bind fun _ => prompt_ok _
    · exact prompt_ok _
  | initMutex =>
    cases timer with
    | true => exact prompt_ok _
    | false => exact prompt_orReturn
  | listen =>
    rw [mainStep]
    split
    · exact prompt_orReturn
    · exact prompt_ok _
  | accept =>
    rw [mainStep]
    split
    · split
      · exact (prompt_openFd hfd).bind fun _ => prompt_ok _
      · exact prompt_ok _
    · exact prompt_ok _
  | mallocNode =>
    rw [mainStep]
    split
    · exact prompt_ok _
    · exact prompt_ok _
  | setSockfd a | setComplete a | insert a => exact prompt_params.bind fun _ => prompt_ok _
  | create a =>
    rw [mainStep]
    split
    · exact prompt_params.bind fun _ => prompt_ok _
    · exact prompt_ok _
  | pass rest =>
    cases rest with
    | nil => exact prompt_ok _
    | cons a rest => exact prompt_params.bind fun _ => prompt_ok _
  | join a rest =>
    rw [mainStep]
    cases hq : g.params a with
    | error e =>
      have hprompt : Prompt (g.params a) := prompt_params
      rw [hq] at hprompt
      exact fun h => hprompt (congrArg Except.error (Except.error.inj h))
    | ok q =>
      rw [ok_bind]
      split
      · rename_i k hk
        have hfinished := hjoin a rest k rfl (threadOf_eq_some.mpr ⟨q, Image.params_eq_ok.mp hq, hk⟩)
        rw [if_pos hfinished]
        split
        · exact prompt_undefined
        · exact prompt_ok _
      · exact prompt_undefined
  | resetAccepted | createFailed | createClose | initList | first => exact prompt_ok _

theorem sighandlerStep_prompt (pc : SighandlerPc) : Prompt (sighandlerStep r g pc) := by
  cases pc with
  | closeFptr | first =>
    rw [sighandlerStep]
    split
    · exact prompt_ok _
    · exact prompt_ok _
  | freeRead | freeRecv | freeNode => exact prompt_free.bind fun _ => prompt_ok _
  | removeHead temp =>
    rw [sighandlerStep]
    split
    · exact prompt_undefined
    · exact prompt_params.bind fun _ => prompt_ok _
  | closeSockfd | closeAccepted | remove => exact prompt_ok _

theorem timerStep_prompt {pc : TimerPc} (hlock : ∀ time, pc = .lock time → g.mutexLock = none)
    (hfd : g.unused r.fd) : Prompt (timerStep me r g pc) := by
  cases pc with
  | lock time => exact prompt_lockMutex (hlock time rfl)
  | unlock => exact prompt_unlockMutex
  | openStore time =>
    rw [timerStep]
    split
    · exact (prompt_openFd hfd).bind fun _ => prompt_ok _
    · exact prompt_ok _
  | format | openFailed | write | close => exact prompt_ok _

/-- Where a session shows no call it is at another statement afterwards. -/
theorem SessionMove.leaves {pc pc' : SessionPc} {g' : Image} {act : Option Act}
    (h : SessionMove me node g pc pc' g' act) (hact : act = none) : pc' ≠ pc := by
  cases h with
  | realloc => split <;> simp
  | @readClosed fd length status _ =>
    split
    · intro he
      have hsame : toInt (status - 1) = status := (SessionPc.read.inj he).2.2
      by_cases hfits : FitsInt (status - 1)
      · rw [toInt, if_pos hfits] at hsame
        omega
      · have hmod : Int.bmod (status - 1) 4294967296 % 4294967296 = (status - 1) % 4294967296 := Int.bmod_emod ..
        rw [toInt, if_neg hfits] at hsame
        rw [hsame] at hmod
        omega
    · simp
  | read | closeRead => exact absurd hact (by simp)
  | _ => simp

theorem MainMove.leaves {timer : Bool} {n : Nat} {finished : Nat → Bool} {pc pc' : MainPc} {g' : Image}
    {act : Option Act} (h : MainMove timer n finished g pc pc' g' act) : pc' ≠ pc := by
  cases h with
  | initMutex => split <;> simp
  | visit => split <;> simp
  | _ => simp

theorem sighandlerStep_leaves_pc {pc : SighandlerPc} {next : Option SighandlerPc} {g' : Image} {act : Option Act}
    (h : sighandlerStep r g pc = .ok (.next next g' act)) : next ≠ some pc := by
  cases pc with
  | closeFptr | first =>
    simp only [sighandlerStep] at h
    split at h
    · obtain ⟨rfl, _⟩ := Outcome.next.inj (Except.ok.inj h)
      simp
    · obtain ⟨rfl, _⟩ := Outcome.next.inj (Except.ok.inj h)
      simp
  | freeRead | freeRecv | freeNode =>
    obtain ⟨_, _, h⟩ := bind_eq_ok.mp h
    obtain ⟨rfl, _⟩ := Outcome.next.inj (Except.ok.inj h)
    simp
  | removeHead temp =>
    simp only [sighandlerStep] at h
    split at h
    · exact absurd h (by simp)
    · obtain ⟨_, _, h⟩ := bind_eq_ok.mp h
      obtain ⟨rfl, _⟩ := Outcome.next.inj (Except.ok.inj h)
      simp
  | closeSockfd | closeAccepted | remove =>
    obtain ⟨rfl, _⟩ := Outcome.next.inj (Except.ok.inj h)
    simp

theorem timerStep_leaves_pc {pc : TimerPc} {next : Option TimerPc} {g' : Image} {act : Option Act}
    (h : timerStep me r g pc = .ok (.next next g' act)) : next ≠ some pc := by
  cases pc with
  | lock time =>
    obtain ⟨_, rfl, _⟩ := lockMutex_next h
    simp
  | unlock =>
    obtain ⟨_, rfl, _⟩ := unlockMutex_next h
    simp
  | openStore time =>
    simp only [timerStep] at h
    split at h
    · obtain ⟨_, _, rfl, _⟩ := openFd_next h
      simp
    · obtain ⟨rfl, _⟩ := Outcome.next.inj (Except.ok.inj h)
      simp
  | openFailed e => exact absurd h (by simp [timerStep])
  | format | write | close =>
    obtain ⟨rfl, _⟩ := Outcome.next.inj (Except.ok.inj h)
    simp

end Statements

section Handlers
variable {me : Tid} {r : Reply} {g g' : Image} {fr : Frame} {fr' : Option Frame} {act : Option Act}

theorem Prompt.map {α β : Type} {x : Except Stop α} (hx : Prompt x) (f : α → β) : Prompt (x.map f) := by
  cases x with
  | ok a => exact prompt_ok _
  | error e => exact fun h => hx (congrArg Except.error (Except.error.inj h))

theorem frameStep_prompt (hlock : ∀ time, fr = .timer (.lock time) → g.mutexLock = none) (hfd : g.unused r.fd) :
    Prompt (frameStep me r g fr) := by
  cases fr with
  | sighandler pc => exact (sighandlerStep_prompt pc).map _
  | timer pc => exact (timerStep_prompt (fun time hpc => hlock time (hpc ▸ rfl)) hfd).map _

theorem frameStep_leaves (h : frameStep me r g fr = .ok (.next fr' g' act)) (rest : List Frame) :
    fr'.toList ++ rest ≠ fr :: rest := by
  cases fr with
  | sighandler pc =>
    obtain ⟨next, hnext, rfl⟩ := frameStep_sighandler h
    cases next with
    | none => simp
    | some pc' => simpa using sighandlerStep_leaves_pc hnext
  | timer pc =>
    obtain ⟨next, hnext, rfl⟩ := frameStep_timer h
    cases next with
    | none => simp
    | some pc' => simpa using timerStep_leaves_pc hnext

end Handlers

section Waiting
variable {timer : Bool} {p : Proc} {t u : Tid} {r : Reply}

private theorem settle_goes_on {π : Type} {who : Actor} {after : π → Image → Proc} {x : Except Stop (Outcome π)}
    (hended : p.ended = none) (hprompt : Prompt x)
    (hleaves : ∀ pc g, x = .ok (.next pc g none) → after pc g ≠ p) : p.settle who after x ≠ some (p, none) := by
  intro h
  unfold Proc.settle at h
  split at h
  · rename_i pc g act
    obtain ⟨hafter, hact⟩ := Prod.mk.inj (Option.some.inj h)
    obtain rfl := Option.map_eq_none_iff.mp hact
    exact hleaves pc g rfl hafter
  · obtain ⟨hp, _⟩ := Prod.mk.inj (Option.some.inj h)
    rw [← hp] at hended
    exact absurd hended (by simp)
  · obtain ⟨hp, _⟩ := Prod.mk.inj (Option.some.inj h)
    rw [← hp] at hended
    exact absurd hended (by simp)
  · exact hprompt rfl
  · exact absurd h (by simp)

theorem awaits_eq_some (hended : p.ended = none) (h : p.awaits t = some u) :
    (p.aboutToLock t ∧ p.image.mutexLock = some u) ∨
      (t = .main ∧ p.frames .main = [] ∧ ∃ a rest k, p.main = .join a rest ∧ p.image.threadOf a = some k ∧
        p.finished k = false ∧ u = .session k) := by
  unfold Proc.awaits at h
  split at h
  · rename_i time rest hframes
    refine .inl ⟨⟨hended, ?_⟩, h⟩
    rw [hframes]
    exact ⟨time, rfl⟩
  · exact absurd h (by simp)
  · rename_i hframes
    split at h
    · split at h
      · rename_i a rest hjoin
        obtain ⟨k, hk, h⟩ := Option.bind_eq_some_iff.mp h
        split at h
        · exact absurd h (by simp)
        · rename_i hrunning
          exact .inr ⟨rfl, hframes, a, rest, k, hjoin, hk, by simpa using hrunning, (Option.some.inj h).symm⟩
      · exact absurd h (by simp)
    · rename_i k
      split at h
      · rename_i s hs
        split at h
        · rename_i hpc
          refine .inl ⟨⟨hended, ?_⟩, h⟩
          rw [hframes]
          exact ⟨k, s, rfl, hs, hpc⟩
        · exact absurd h (by simp)
      · exact absurd h (by simp)

/-- A thread that waits stays where it is, unless its call fails. -/
theorem step_waits (timer : Bool) (hended : p.ended = none) (h : p.awaits t = some u) (hok : r.ok = true) :
    (process timer).step p (.step t r) = some (p, none) := by
  simp only [process, Proc.step]
  rw [if_neg (not_not.mpr hended)]
  rcases awaits_eq_some hended h with ⟨⟨_, hlock⟩, howner⟩ | ⟨rfl, hframes, a, rest, k, hjoin, hk, hrunning, rfl⟩
  · cases hframes : p.frames t with
    | cons fr rest =>
      rw [hframes] at hlock
      obtain ⟨time, rfl⟩ := hlock
      simp [frameStep, timerStep, lockMutex, hok, howner, Except.map, Proc.settle]
    | nil =>
      rw [hframes] at hlock
      obtain ⟨k, s, rfl, hs, hpc⟩ := hlock
      simp [hs, hpc, sessionStep, lockMutex, hok, howner, Proc.settle]
  · obtain ⟨q, hq, hid⟩ := threadOf_eq_some.mp hk
    rw [hframes]
    simp [hjoin, mainStep, Image.params_eq_ok.mpr hq, hid, hrunning, Proc.settle, throw, throwThe,
      MonadExceptOf.throw]

/-- One that waits for nobody goes on, ends the process, or is undefined. -/
theorem step_goes_on (timer : Bool) (hended : p.ended = none) (h : p.awaits t = none) (hbusy : p.busy t)
    (hfd : p.image.unused r.fd) : (process timer).step p (.step t r) ≠ some (p, none) := by
  simp only [process, Proc.step]
  rw [if_neg (not_not.mpr hended)]
  unfold Proc.awaits at h
  cases hframes : p.frames t with
  | cons fr rest =>
    simp only [hframes] at h ⊢
    refine settle_goes_on hended (frameStep_prompt (fun time hfr => ?_) hfd) fun fr' g hstep hp => ?_
    · rwa [hfr] at h
    · have hsame := congrFun (congrArg Proc.frames hp) t
      rw [hframes] at hsame
      simp only [Function.update_self] at hsame
      exact frameStep_leaves hstep rest hsame
  | nil =>
    simp only [hframes] at h ⊢
    cases t with
    | main =>
      refine settle_goes_on hended (mainStep_prompt (fun a rest k hpc hk => ?_) hfd) fun pc g hstep hp => ?_
      · simp only [hpc, hk, Option.bind_some] at h
        by_contra hrunning
        exact absurd h (by simp [hrunning])
      · exact (mainStep_moves hstep).leaves (congrArg Proc.main hp)
    | session k =>
      have halive := hbusy.resolve_left (not_not.mpr hframes)
      simp only [Proc.alive] at halive
      cases hs : p.sessions[k]? with
      | none =>
        rw [hs] at halive
        exact absurd halive (by simp)
      | some s =>
        simp only [hs] at h halive ⊢
        refine settle_goes_on hended (sessionStep_prompt (by simpa using halive) (fun hpc => ?_) hfd)
          fun pc g hstep hp => ?_
        · rwa [if_pos hpc] at h
        · have hsame := congrArg (fun q : Proc => q.sessions[k]?) hp
          simp only [List.getElem?_set_self (List.getElem?_eq_some_iff.mp hs).1, hs] at hsame
          exact (sessionStep_moves hstep).leaves rfl (congrArg SessionThread.pc (Option.some.inj hsame))

end Waiting

def Proc.Created (p : Proc) : Prop := ∀ a k, p.image.threadOf a = some k → k < p.sessions.length

section Created
variable {timer : Bool} {p p' : Proc} {i : Input} {o : Option (Actor × Act)} {g g' : Image} {a k : Nat}
  {act : Option Act}

private theorem node_of_update {memory : Nat → Option Block} {i : Nat} {v : Option Block} {q : Params}
    (hv : ∀ q, v ≠ some (.node q)) (h : Function.update memory i v a = some (.node q)) :
    memory a = some (.node q) := by
  by_cases ha : a = i
  · subst ha
    rw [Function.update_self] at h
    exact absurd h (hv q)
  · rwa [Function.update_of_ne ha] at h

private theorem threadOf_of_node (hnode : ∀ q, g'.memory a = some (.node q) → g.memory a = some (.node q))
    (h : g'.threadOf a = some k) : g.threadOf a = some k := by
  obtain ⟨q, hq, hid⟩ := threadOf_eq_some.mp h
  exact threadOf_eq_some.mpr ⟨q, hnode q hq, hid⟩

private theorem threadOf_set {b : Nat} {q : Params} (h : (g.set b (.node q)).threadOf a = some k) :
    a = b ∧ q.threadId = some k ∨ g.threadOf a = some k := by
  by_cases ha : a = b
  · subst ha
    simp only [Image.threadOf, Image.set, Function.update_self] at h
    exact .inl ⟨rfl, h⟩
  · simp only [Image.threadOf, Image.set, Function.update_of_ne ha] at h
    exact .inr h

private theorem threadOf_free {b : Option Nat} (hfree : g.free b = .ok g') (h : g'.threadOf a = some k) :
    g.threadOf a = some k := by
  rcases Image.free_eq_ok hfree with ⟨_, rfl⟩ | ⟨_, _, _, _, rfl⟩
  · exact h
  · exact threadOf_of_node (fun _ => node_of_update (by simp)) h

theorem SessionMove.threadOf {me : Tid} {node : Nat} {pc pc' : SessionPc} (hmove : SessionMove me node g pc pc' g' act)
    (h : g'.threadOf a = some k) : g.threadOf a = some k := by
  cases hmove with
  | malloc | memset | recv | mallocRead | read => exact threadOf_of_node (fun _ => node_of_update (by simp)) h
  | realloc => exact threadOf_of_node (fun _ hq => node_of_update (by simp) (node_of_update (by simp) hq)) h
  | freeRecv hfree | freeRead hfree => exact threadOf_free hfree h
  | complete hq =>
    rcases threadOf_set h with ⟨rfl, hid⟩ | h
    · exact threadOf_eq_some.mpr ⟨_, hq, hid⟩
    · exact h
  | _ => exact h

theorem MainMove.threadOf {n : Nat} {finished : Nat → Bool} {pc pc' : MainPc}
    (hmove : MainMove timer n finished g pc pc' g' act) (h : g'.threadOf a = some k) :
    g.threadOf a = some k ∨ k = n ∧ pc.created ≠ [] := by
  cases hmove with
  | mallocNode =>
    rcases threadOf_set h with ⟨_, hid⟩ | h
    · exact absurd hid (by simp)
    · exact .inl h
  | setSockfd hq | setComplete hq =>
    rcases threadOf_set h with ⟨rfl, hid⟩ | h
    · exact .inl (threadOf_eq_some.mpr ⟨_, hq, hid⟩)
    · exact .inl h
  | create =>
    rcases threadOf_set h with ⟨rfl, hid⟩ | h
    · exact .inr ⟨(Option.some.inj hid).symm, by simp [MainPc.created]⟩
    · exact .inl h
  | _ => exact .inl h

theorem frameStep_threadOf {me : Tid} {r : Reply} {fr : Frame} {fr' : Option Frame}
    (hstep : frameStep me r g fr = .ok (.next fr' g' act)) (h : g'.threadOf a = some k) :
    g.threadOf a = some k := by
  cases fr with
  | sighandler pc =>
    obtain ⟨next, hnext, _⟩ := frameStep_sighandler hstep
    cases pc with
    | freeRead | freeRecv | freeNode =>
      obtain ⟨g₁, hfree, hnext⟩ := bind_eq_ok.mp hnext
      obtain ⟨_, rfl, _⟩ := Outcome.next.inj (Except.ok.inj hnext)
      exact threadOf_free hfree h
    | closeFptr | first =>
      simp only [sighandlerStep] at hnext
      split at hnext
      · obtain ⟨_, rfl, _⟩ := Outcome.next.inj (Except.ok.inj hnext)
        exact h
      · obtain ⟨_, rfl, _⟩ := Outcome.next.inj (Except.ok.inj hnext)
        exact h
    | removeHead temp =>
      simp only [sighandlerStep] at hnext
      split at hnext
      · exact absurd hnext (by simp)
      · obtain ⟨_, _, hnext⟩ := bind_eq_ok.mp hnext
        obtain ⟨_, rfl, _⟩ := Outcome.next.inj (Except.ok.inj hnext)
        exact h
    | closeSockfd | closeAccepted | remove =>
      obtain ⟨_, rfl, _⟩ := Outcome.next.inj (Except.ok.inj hnext)
      exact h
  | timer pc =>
    obtain ⟨next, hnext, _⟩ := frameStep_timer hstep
    cases pc with
    | lock time =>
      obtain ⟨_, _, rfl, _⟩ := lockMutex_next hnext
      exact h
    | unlock =>
      obtain ⟨_, _, rfl, _⟩ := unlockMutex_next hnext
      exact h
    | openStore time =>
      simp only [timerStep] at hnext
      split at hnext
      · obtain ⟨_, _, _, rfl, _⟩ := openFd_next hnext
        exact h
      · obtain ⟨_, rfl, _⟩ := Outcome.next.inj (Except.ok.inj hnext)
        exact h
    | openFailed e => exact absurd hnext (by simp [timerStep])
    | format | write | close =>
      obtain ⟨_, rfl, _⟩ := Outcome.next.inj (Except.ok.inj hnext)
      exact h

theorem Proc.Created.step (h : p.Created) (hmove : Moves timer p i p' o) : p'.Created := by
  intro a k ha
  cases hmove with
  | stays | delivered | handlerEnds | mainEnds | sessionEnds => exact h a k ha
  | handler _ _ hstep => exact h a k (frameStep_threadOf hstep ha)
  | main _ _ hmain =>
    rw [List.length_append]
    rcases hmain.threadOf ha with hold | ⟨rfl, hcreated⟩
    · exact Nat.lt_add_right _ (h a k hold)
    · exact Nat.lt_add_of_pos_right (List.length_pos_iff.mpr hcreated)
  | session _ _ _ hsession =>
    rw [List.length_set]
    exact h a k (hsession.threadOf ha)

theorem created_run {is : List Input} {os : Trace} (hrun : (process timer).run .start is = some (p, os)) :
    p.Created :=
  (process timer).run_invariant (I := fun s _ => s.Created) (fun _ _ _ _ _ h hstep => h.step (step_moves hstep))
    (fun a k ha => absurd ha (by simp [Proc.start, Image.initial, Image.threadOf])) hrun

end Created

section Chains
variable {p : Proc} {t u : Tid}

/-- The owner of the mutex does not wait. -/
theorem Guarded.owner_free (h : Guarded p) (hended : p.ended = none) (howner : p.image.mutexLock = some t) :
    p.awaits t = none := by
  by_contra hwaits
  obtain ⟨u, hu⟩ := Option.ne_none_iff_exists'.mp hwaits
  rcases awaits_eq_some hended hu with ⟨hlock, _⟩ | ⟨rfl, hframes, _⟩
  · exact h.not_owner_of_aboutToLock hlock howner
  · have hinside := (h.owner .main).mp howner
    rw [Proc.inside, hframes, inside_nil] at hinside
    exact absurd hinside (by simp [Proc.ownCritical])

/-- Who is waited for has the lower rank. -/
theorem Guarded.waitRank_lt (h : Guarded p) (hended : p.ended = none) (hwaits : p.awaits t = some u) :
    p.waitRank u < p.waitRank t := by
  rcases awaits_eq_some hended hwaits with ⟨_, howner⟩ | ⟨rfl, hframes, a, rest, k, _, _, _, rfl⟩
  · rw [Proc.waitRank, if_pos (h.owner_free hended howner), Proc.waitRank, if_neg (by simp [hwaits])]
    split
    · exact Nat.two_pos
    · exact Nat.one_pos
  · have hmain : p.waitRank .main = 2 := by
      rw [Proc.waitRank, hwaits]
      simp [hframes]
    rw [hmain, Proc.waitRank]
    split
    · exact Nat.two_pos
    · rw [if_neg (by simp)]
      exact Nat.one_lt_two

theorem Guarded.busy_of_awaited (h : Guarded p) (hcreated : p.Created) (hended : p.ended = none)
    (hwaits : p.awaits t = some u) : p.busy u := by
  rcases awaits_eq_some hended hwaits with ⟨_, howner⟩ | ⟨_, _, a, rest, k, _, hk, hrunning, rfl⟩
  · rcases (h.owner u).mp howner with ⟨fr, hfr, _⟩ | hown
    · exact .inl (List.ne_nil_of_mem hfr)
    · refine .inr ?_
      cases u with
      | main => rfl
      | session k =>
        cases hs : p.sessions[k]? with
        | none =>
          simp only [Proc.ownCritical, hs] at hown
          exact absurd hown (by simp)
        | some s =>
          rw [ownCritical_of_getElem? hs] at hown
          have hne : s.pc ≠ .done := by
            intro hpc
            rw [hpc] at hown
            exact absurd hown (by simp [SessionPc.critical])
          simp only [Proc.alive, hs]
          exact decide_eq_true hne
  · refine .inr ?_
    have hlt := hcreated a k hk
    simp only [Proc.finished, List.getElem?_eq_getElem hlt] at hrunning
    simp only [Proc.alive, List.getElem?_eq_getElem hlt]
    simpa using hrunning

end Chains

/-- However the threads of the server and its handlers interleave, as long as SIGALRM finds
its thread outside of the mutex: no threads wait for one another, and whoever waits is kept
waiting by a thread whose next statement, whatever its call answers, does not wait. -/
theorem waiting_ends (timer : Bool) (is : List Input) (hout : (process timer).Along AlarmOutside .start is)
    {p : Proc} {os : Trace} (hrun : (process timer).run .start is = some (p, os)) (hended : p.ended = none) :
    (∀ t u, p.awaits t = some u → ∀ r : Reply, r.ok = true →
      (process timer).step p (.step t r) = some (p, none)) ∧
    (∀ S, ¬Deadlock p.awaits S) ∧
    ∀ t, p.alive t = true → ∃ u, KeptBy p.awaits t u ∧ ∀ r : Reply, p.image.unused r.fd →
      (process timer).step p (.step u r) ≠ some (p, none) := by
  have hguarded := guarded_run hout hrun
  have hcreated := created_run hrun
  have hrank : ∀ t u, p.awaits t = some u → p.waitRank u < p.waitRank t := fun t u => hguarded.waitRank_lt hended
  refine ⟨fun t u hwaits r hok => step_waits timer hended hwaits hok, not_deadlock hrank, fun t ht => ?_⟩
  obtain ⟨u, hkept, hfree, hbusy⟩ := keptBy_end (P := p.busy) hrank
    (fun t u hwaits _ => hguarded.busy_of_awaited hcreated hended hwaits) (.inr ht)
  exact ⟨u, hkept, fun r hfd => step_goes_on timer hended hfree hbusy hfd⟩

/-- SIGALRM reaches main while a session has the mutex: main waits for the session. -/
theorem waiting_ends_alarm_in_main :
    ∃ p os, (process true).run .start (startUp true ++ accepting 4 ++ [.ok (.session 0) 0] ++
        [.signal .sigalrm .main, .ok .main 0]) = some (p, os) ∧
      p.awaits .main = some (.session 0) ∧ ∀ S, ¬Deadlock p.awaits S := by
  have heval : ((process true).run .start (startUp true ++ accepting 4 ++ [.ok (.session 0) 0] ++
      [.signal .sigalrm .main, .ok .main 0])).map (fun q => (q.1.ended, q.1.awaits .main)) =
        some (none, some (.session 0)) := by decide +kernel
  have hbefore : ((process true).run .start (startUp true ++ accepting 4 ++ [.ok (.session 0) 0])).map
      (fun q => q.1.image.mutexLock) = some (some (.session 0)) := by decide +kernel
  obtain ⟨⟨p, os⟩, hrun, hp⟩ := Option.map_eq_some_iff.mp heval
  obtain ⟨hended, hwaits⟩ := Prod.mk.inj hp
  refine ⟨p, os, hrun, hwaits, (waiting_ends true _ ?_ hrun hended).2.1⟩
  refine (process true).along_append.mpr ⟨?_, fun q ws hq => ⟨?_, fun s o _ => ?_⟩⟩
  · apply (process true).along_of_forall
    intro i hi s t ht
    simp [startUp, accepting, Input.ok, ht] at hi
  · rw [hq] at hbefore
    intro t ht
    obtain rfl : Tid.main = t := by simpa using ht
    rw [show q.image.mutexLock = _ from Option.some.inj hbefore]
    simp
  · apply (process true).along_of_forall
    intro i hi s t ht
    simp [Input.ok, ht] at hi

end Aesd.Server
