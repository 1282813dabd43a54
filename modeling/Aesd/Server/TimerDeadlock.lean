import Aesd.Foundations.Mutex
import Aesd.Server.Interleaving

/-! Who owns mutex_lock: at every point exactly the thread whose own code, or one of whose
handlers, is between the lock and the unlock. A timer_handler that starts on the owner
waits for itself; started on any other thread it never does. -/
namespace Aesd.Server
open Aesd.Foundations Aesd.Driver

def SessionPc.critical : SessionPc → Bool
  | .lock | .complete | .closeSocket | .done => false
  | _ => true

def Frame.critical : Frame → Bool
  | .sighandler _ | .timer .format | .timer (.lock _) => false
  | .timer _ => true

def Frame.isTimer : Frame → Bool
  | .sighandler _ => false
  | .timer _ => true

def Proc.ownCritical (p : Proc) : Tid → Bool
  | .main => false
  | .session k =>
    match p.sessions[k]? with
    | some s => s.pc.critical
    | none => false

/-- A handler in the list, or the code that it interrupted, is in its critical section. -/
def Inside (own : Bool) (frames : List Frame) : Prop := (∃ fr ∈ frames, fr.critical = true) ∨ own = true

def Proc.inside (p : Proc) (t : Tid) : Prop := Inside (p.ownCritical t) (p.frames t)

/-- Below a handler of the timer nothing is in its critical section. -/
def Layered (own : Bool) : List Frame → Prop
  | [] => True
  | fr :: rest => (fr.isTimer = true → ¬Inside own rest) ∧ Layered own rest

def MainPc.starting : MainPc → Bool
  | .register | .getAddressInfo | .resetAccepted | .socket | .setsockopt | .bind | .daemonise | .createOpen
  | .createFailed | .createClose | .initList | .initMutex | .initTimer => true
  | _ => false

structure Guarded (p : Proc) : Prop where
  owner : Guards p.image.mutexLock p.inside
  layered : ∀ t, Layered (p.ownCritical t) (p.frames t)
  threads : ∀ k, p.sessions.length ≤ k → p.frames (.session k) = []
  starting : p.main.starting = true → p.sessions = []

section Frames
variable {own own' : Bool} {fr fr' : Frame} {rest : List Frame}

@[simp] theorem inside_nil : Inside own [] ↔ own = true := by simp [Inside]

@[simp] theorem inside_cons : Inside own (fr :: rest) ↔ fr.critical = true ∨ Inside own rest := by
  simp [Inside, or_assoc]

end Frames

section Moves
variable {me : Tid} {node : Nat} {r : Reply} {g g' : Image} {act : Option Act}

/-- Only the lock and the unlock of a session change the owner. -/
theorem SessionMove.mutex {pc pc' : SessionPc} (h : SessionMove me node g pc pc' g' act) :
    (g.mutexLock = none ∧ g'.mutexLock = some me ∧ pc = .lock ∧ pc' = .malloc) ∨
      (g.mutexLock = some me ∧ g' = { g with mutexLock := none } ∧ act = none ∧ pc = .unlock ∧
        pc' = .complete) ∨
      (g'.mutexLock = g.mutexLock ∧ pc ≠ .unlock ∧ pc'.critical = pc.critical) := by
  cases h with
  | lock hfree => exact .inl ⟨hfree, rfl, rfl, rfl⟩
  | unlock hmine => exact .inr (.inl ⟨hmine, rfl, rfl, rfl, rfl⟩)
  | realloc | read | readClosed => exact .inr (.inr ⟨rfl, by simp, by split <;> rfl⟩)
  | freeRecv hfree | freeRead hfree =>
    have hsame := congrArg Image.mutexLock (Image.free_frame hfree)
    exact .inr (.inr ⟨hsame, by simp, rfl⟩)
  | _ => exact .inr (.inr ⟨rfl, by simp, rfl⟩)

/-- main touches the mutex only to initialise it, and does not come back to its start. -/
theorem MainMove.mutex {timer : Bool} {created : Nat} {finished : Nat → Bool} {pc pc' : MainPc}
    (h : MainMove timer created finished g pc pc' g' act) :
    (g'.mutexLock = g.mutexLock ∨ pc.starting = true ∧ g'.mutexLock = none) ∧
      (pc'.starting = true → pc.starting = true ∧ pc.created = []) := by
  cases h with
  | initMutex => exact ⟨.inr ⟨rfl, rfl⟩, fun _ => ⟨rfl, rfl⟩⟩
  | initTimer => exact ⟨.inl rfl, fun _ => ⟨rfl, rfl⟩⟩
  | visit => exact ⟨.inl rfl, fun hs => absurd hs (by split <;> simp [MainPc.starting])⟩
  | _ => exact ⟨.inl rfl, by simp [MainPc.starting, MainPc.created]⟩

theorem timerStep_mutex {pc : TimerPc} {next : Option TimerPc}
    (h : timerStep me r g pc = .ok (.next next g' act)) :
    (g.mutexLock = none ∧ g'.mutexLock = some me ∧ ∃ pc', next = some pc' ∧ (Frame.timer pc').critical = true) ∨
      (g.mutexLock = some me ∧ g'.mutexLock = none ∧ next = none) ∨
      (g'.mutexLock = g.mutexLock ∧
        ∃ pc', next = some pc' ∧ (Frame.timer pc').critical = (Frame.timer pc).critical) := by
  cases pc with
  | format =>
    obtain ⟨rfl, rfl, _⟩ := Outcome.next.inj (Except.ok.inj h)
    exact .inr (.inr ⟨rfl, _, rfl, rfl⟩)
  | lock time =>
    obtain ⟨hfree, rfl, rfl, _⟩ := lockMutex_next h
    exact .inl ⟨hfree, rfl, _, rfl, rfl⟩
  | openStore time =>
    simp only [timerStep] at h
    split at h
    · obtain ⟨_, _, rfl, rfl, _⟩ := openFd_next h
      exact .inr (.inr ⟨rfl, _, rfl, rfl⟩)
    · obtain ⟨rfl, rfl, _⟩ := Outcome.next.inj (Except.ok.inj h)
      exact .inr (.inr ⟨rfl, _, rfl, rfl⟩)
  | openFailed e => exact absurd h (by simp [timerStep])
  | write time =>
    obtain ⟨rfl, rfl, _⟩ := Outcome.next.inj (Except.ok.inj h)
    exact .inr (.inr ⟨rfl, _, rfl, rfl⟩)
  | close =>
    obtain ⟨rfl, rfl, _⟩ := Outcome.next.inj (Except.ok.inj h)
    exact .inr (.inr ⟨rfl, _, rfl, rfl⟩)
  | unlock =>
    obtain ⟨hmine, rfl, rfl, _⟩ := unlockMutex_next h
    exact .inr (.inl ⟨hmine, rfl, rfl⟩)

end Moves

section Guarded
variable {timer : Bool} {p p' : Proc} {i : Input} {o : Option (Actor × Act)} {t u : Tid} {k : Nat}
  {s : SessionThread} {g : Image} {frames : Tid → List Frame}

private theorem session_lt (hs : p.sessions[k]? = some s) : k < p.sessions.length :=
  (List.getElem?_eq_some_iff.mp hs).1

/-- Where there is a session main is in its loop. -/
theorem Guarded.running (h : Guarded p) (hs : s ∈ p.sessions) : p.main.starting = false := by
  by_contra hstart
  rw [h.starting (by simpa using hstart)] at hs
  exact absurd hs (by simp)

theorem ownCritical_of_getElem? (hs : p.sessions[k]? = some s) : p.ownCritical (.session k) = s.pc.critical := by
  simp only [Proc.ownCritical, hs]

theorem ownCritical_set (hs : p.sessions[k]? = some s) (pc : SessionPc) (node : Nat) (t : Tid) :
    ({ p with image := g, sessions := p.sessions.set k ⟨pc, node⟩ } : Proc).ownCritical t =
      if t = .session k then pc.critical else p.ownCritical t := by
  cases t with
  | main => rfl
  | session j =>
    by_cases hj : j = k
    · subst hj
      simp [Proc.ownCritical, session_lt hs]
    · rw [if_neg (by simpa using hj)]
      simp only [Proc.ownCritical, List.getElem?_set_ne (Ne.symm hj)]

theorem ownCritical_append (pc : MainPc) (t : Tid) :
    ({ p with image := g, main := pc, sessions := p.sessions ++ p.main.created } : Proc).ownCritical t =
      p.ownCritical t := by
  cases t with
  | main => rfl
  | session j =>
    by_cases hj : j < p.sessions.length
    · simp only [Proc.ownCritical, List.getElem?_append_left hj]
    · have hnone := List.getElem?_eq_none (Nat.not_lt.mp hj)
      simp only [Proc.ownCritical, List.getElem?_append_right (Nat.not_lt.mp hj), hnone]
      cases p.main with
      | create a => cases j - p.sessions.length <;> rfl
      | _ => rfl

theorem Guarded.free_of_starting (h : Guarded p) (hstart : p.main.starting = true)
    (hmain : p.frames .main = []) : p.image.mutexLock = none := by
  have hnone := h.starting hstart
  rw [h.owner.free_iff]
  intro t
  cases t with
  | main => simp [Proc.inside, hmain, Proc.ownCritical]
  | session k => simp [Proc.inside, h.threads k (by simp [hnone]), Proc.ownCritical, hnone]

/-- What a statement of a handler does to the mutex, and whether its thread is then inside of it. -/
theorem frameStep_mutex {fr : Frame} {fr' : Option Frame} {r : Reply} {act : Option Act} {g' : Image}
    (hstep : frameStep t r g fr = .ok (.next fr' g' act)) :
    (g.mutexLock = none ∧ g'.mutexLock = some t ∧ ∀ own rest, Inside own (fr'.toList ++ rest)) ∨
      (g.mutexLock = some t ∧ g'.mutexLock = none ∧ fr.isTimer = true ∧ fr' = none) ∨
      (g'.mutexLock = g.mutexLock ∧
        ∀ own rest, Inside own (fr'.toList ++ rest) ↔ Inside own (fr :: rest)) := by
  cases fr with
  | sighandler pc =>
    obtain ⟨next, hnext, rfl⟩ := frameStep_sighandler hstep
    refine .inr (.inr ⟨(sighandlerStep_leaves hnext).mutexLock, fun own rest => ?_⟩)
    cases next <;> simp [Frame.critical]
  | timer pc =>
    obtain ⟨next, hnext, rfl⟩ := frameStep_timer hstep
    rcases timerStep_mutex hnext with ⟨hfree, hmine, pc', rfl, hcritical⟩ | ⟨hmine, hfree, rfl⟩ |
      ⟨hsame, pc', rfl, hcritical⟩
    · exact .inl ⟨hfree, hmine, fun own rest => by simp [hcritical]⟩
    · exact .inr (.inl ⟨hmine, hfree, rfl, rfl⟩)
    · exact .inr (.inr ⟨hsame, fun own rest => by simp [hcritical]⟩)

/-- A statement of a handler leaves the handlers under it where they were. -/
theorem frameStep_layered {own : Bool} {fr : Frame} {rest : List Frame} {fr' : Option Frame} {r : Reply}
    {act : Option Act} {g' : Image} (hstep : frameStep t r g fr = .ok (.next fr' g' act))
    (h : Layered own (fr :: rest)) : Layered own (fr'.toList ++ rest) := by
  cases fr with
  | sighandler pc =>
    obtain ⟨next, _, rfl⟩ := frameStep_sighandler hstep
    cases next with
    | none => exact h.2
    | some pc' => exact ⟨fun ht => absurd ht (by simp [Frame.isTimer]), h.2⟩
  | timer pc =>
    obtain ⟨next, _, rfl⟩ := frameStep_timer hstep
    cases next with
    | none => exact h.2
    | some pc' => exact ⟨fun _ => h.1 rfl, h.2⟩

/-- A statement of a handler, given what it does to the mutex and to its list of handlers. -/
theorem Guarded.handler {fr : Frame} {rest : List Frame} {fr' : Option Frame} {r : Reply} {act : Option Act}
    (h : Guarded p) (hframes : p.frames t = fr :: rest)
    (hstep : frameStep t r p.image fr = .ok (.next fr' g act)) :
    Guarded { p with image := g, frames := Function.update p.frames t (fr'.toList ++ rest) } := by
  have hlayered := h.layered t
  rw [hframes] at hlayered
  refine ⟨?_, fun u => ?_, fun k hk => ?_, h.starting⟩
  · have hothers : ∀ u, u ≠ t →
        (({ p with image := g, frames := Function.update p.frames t (fr'.toList ++ rest) } : Proc).inside u ↔
          p.inside u) := by
      intro u hu
      simp only [Proc.inside, Proc.ownCritical, Function.update_of_ne hu]
    have hhere : ({ p with image := g, frames := Function.update p.frames t (fr'.toList ++ rest) } : Proc).inside t ↔
        Inside (p.ownCritical t) (fr'.toList ++ rest) := by
      simp only [Proc.inside, Proc.ownCritical, Function.update_self]
    have hmine : p.inside t ↔ Inside (p.ownCritical t) (fr :: rest) := by rw [Proc.inside, hframes]
    rcases frameStep_mutex hstep with ⟨hfree, hmine', hin⟩ | ⟨hmine', hfree, hout⟩ | ⟨hsame, hkeep⟩
    · have howner := h.owner
      rw [hfree] at howner
      rw [hmine']
      exact howner.acquire (hhere.mpr (hin _ rest)) hothers
    · have howner := h.owner
      rw [hmine'] at howner
      rw [hfree]
      refine howner.release (fun hin => ?_) hothers
      obtain ⟨htimer, rfl⟩ := hout
      exact hlayered.1 htimer (by simpa using hhere.mp hin)
    · rw [hsame]
      refine h.owner.keep fun u => ?_
      by_cases hu : u = t
      · subst hu
        rw [hhere, hmine]
        exact hkeep _ rest
      · exact hothers u hu
  · by_cases hu : u = t
    · subst hu
      simp only [Proc.ownCritical, Function.update_self]
      exact frameStep_layered hstep hlayered
    · simp only [Proc.ownCritical, Function.update_of_ne hu]
      exact h.layered u
  · have hnil := h.threads k hk
    have hne : Tid.session k ≠ t := by
      rintro rfl
      rw [hnil] at hframes
      exact absurd hframes (by simp)
    simp only [Function.update_of_ne hne]
    exact hnil

theorem Guarded.main {pc : MainPc} {act : Option Act} (h : Guarded p) (hmain : p.frames .main = [])
    (hmove : MainMove timer p.sessions.length p.finished p.image p.main pc g act) :
    Guarded { p with image := g, main := pc, sessions := p.sessions ++ p.main.created } := by
  obtain ⟨hmutex, hstarting⟩ := hmove.mutex
  have hsame : g.mutexLock = p.image.mutexLock := by
    rcases hmutex with hsame | ⟨hstart, hfree⟩
    · exact hsame
    · rw [hfree, h.free_of_starting hstart hmain]
  refine ⟨?_, fun t => ?_, fun k hk => ?_, fun hs => ?_⟩
  · rw [hsame]
    refine h.owner.keep fun t => ?_
    rw [Proc.inside, ownCritical_append]
    rfl
  · rw [ownCritical_append]
    exact h.layered t
  · rw [List.length_append] at hk
    exact h.threads k (by omega)
  · obtain ⟨hstart, hcreated⟩ := hstarting hs
    simp only [hcreated, h.starting hstart, List.append_nil]

theorem Guarded.session {pc : SessionPc} {act : Option Act} (h : Guarded p)
    (hframes : p.frames (.session k) = []) (hs : p.sessions[k]? = some s)
    (hmove : SessionMove (.session k) s.node p.image s.pc pc g act) :
    Guarded { p with image := g, sessions := p.sessions.set k ⟨pc, s.node⟩ } := by
  have hown := ownCritical_of_getElem? hs
  have hothers : ∀ u, u ≠ Tid.session k →
      (({ p with image := g, sessions := p.sessions.set k ⟨pc, s.node⟩ } : Proc).inside u ↔ p.inside u) := by
    intro u hu
    rw [Proc.inside, ownCritical_set hs, if_neg hu]
    rfl
  have hhere : ({ p with image := g, sessions := p.sessions.set k ⟨pc, s.node⟩ } : Proc).inside (.session k) ↔
      pc.critical = true := by
    rw [Proc.inside, ownCritical_set hs, if_pos rfl, hframes, inside_nil]
  refine ⟨?_, fun u => ?_, fun j hj => ?_, fun hstart => ?_⟩
  · rcases hmove.mutex with ⟨hfree, hmine, _, hpc⟩ | ⟨hmine, rfl, _, _, hpc⟩ | ⟨hsame, _, hcritical⟩
    · have howner := h.owner
      rw [hfree] at howner
      rw [hmine]
      exact howner.acquire (hhere.mpr (by rw [hpc]; rfl)) hothers
    · have howner := h.owner
      rw [hmine] at howner
      exact howner.release (fun hin => absurd (hhere.mp hin) (by simp [hpc, SessionPc.critical])) hothers
    · rw [hsame]
      refine h.owner.keep fun u => ?_
      by_cases hu : u = .session k
      · subst hu
        rw [hhere, hcritical, Proc.inside, hframes, inside_nil, hown]
      · exact hothers u hu
  · rw [ownCritical_set hs]
    split
    · rename_i hu
      rw [hu, hframes]
      trivial
    · exact h.layered u
  · rw [List.length_set] at hj
    exact h.threads j hj
  · rw [h.starting hstart] at hs
    exact absurd hs (by simp)

/-- While another session is in its critical section session k stays outside of its own. -/
theorem Guarded.others {pc : SessionPc} {act : Option Act} {j : Nat} {u : SessionThread} (h : Guarded p)
    (hframes : p.frames (.session k) = []) (hs : p.sessions[k]? = some s)
    (hmove : SessionMove (.session k) s.node p.image s.pc pc g act) (hj : j ≠ k) (hu : p.sessions[j]? = some u)
    (hcritical : u.pc.critical = true) : s.pc.critical = false ∧ pc.critical = false := by
  constructor
  · by_contra hin
    have hjk := h.owner.exclusive (i := .session j) (j := .session k)
      (.inr (by rwa [ownCritical_of_getElem? hu])) (.inr (by simpa [ownCritical_of_getElem? hs] using hin))
    exact hj (Tid.session.inj hjk)
  · by_contra hin
    have hjk := (h.session hframes hs hmove).owner.exclusive (i := .session j) (j := .session k)
      (.inr (by rw [ownCritical_set hs, if_neg (by simpa using hj), ownCritical_of_getElem? hu, hcritical]))
      (.inr (by rw [ownCritical_set hs, if_pos rfl]; simpa using hin))
    exact hj (Tid.session.inj hjk)

/-- A handler that starts keeps this, a timer_handler if its thread is not the owner. -/
theorem Guarded.delivered {fr : Frame} {sig : Signal} (h : Guarded p) (hfr : registered timer sig = some fr)
    (halive : p.alive t = true) (hout : sig = .sigalrm → p.image.mutexLock ≠ some t) :
    Guarded { p with frames := Function.update p.frames t (fr :: p.frames t) } := by
  have hfresh : fr.critical = false ∧ (fr.isTimer = true → sig = .sigalrm) := by
    cases sig with
    | sigalrm =>
      simp only [registered] at hfr
      split at hfr
      · rw [← Option.some.inj hfr]
        exact ⟨rfl, fun _ => rfl⟩
      · exact absurd hfr (by simp)
    | sigint | sigterm =>
      rw [← Option.some.inj hfr]
      exact ⟨rfl, fun ht => absurd ht (by simp [Frame.isTimer])⟩
  refine ⟨h.owner.keep fun u => ?_, fun u => ?_, fun k hk => ?_, h.starting⟩
  · by_cases hu : u = t
    · subst hu
      simp [Proc.inside, Proc.ownCritical, hfresh.1]
    · simp only [Proc.inside, Proc.ownCritical, Function.update_of_ne hu]
  · by_cases hu : u = t
    · subst hu
      simp only [Proc.ownCritical, Function.update_self]
      exact ⟨fun ht hin => hout (hfresh.2 ht) ((h.owner u).mpr hin), h.layered u⟩
    · simp only [Proc.ownCritical, Function.update_of_ne hu]
      exact h.layered u
  · have hne : Tid.session k ≠ t := by
      rintro rfl
      simp only [Proc.alive, List.getElem?_eq_none hk] at halive
      exact absurd halive (by simp)
    simp only [Function.update_of_ne hne]
    exact h.threads k hk

/-- SIGALRM finds its thread outside of the mutex. -/
def AlarmOutside (p : Proc) (i : Input) : Prop := ∀ t, i = .signal .sigalrm t → p.image.mutexLock ≠ some t

theorem Guarded.ends (h : Guarded p) (e : Ending) : Guarded { p with ended := some e } :=
  ⟨h.owner, h.layered, h.threads, h.starting⟩

theorem Guarded.step (h : Guarded p) (hout : AlarmOutside p i) (hmove : Moves timer p i p' o) :
    Guarded p' := by
  cases hmove with
  | stays => exact h
  | delivered hfr _ _ halive => exact h.delivered hfr halive fun hsig => hout _ (by rw [hsig])
  | handlerEnds => exact h.ends _
  | handler _ hframes hstep => exact h.handler hframes hstep
  | mainEnds => exact h.ends _
  | main _ hmain hmove => exact h.main hmain hmove
  | sessionEnds => exact h.ends _
  | session _ hframes hs hmove => exact h.session hframes hs hmove

theorem guarded_start : Guarded Proc.start := by
  refine ⟨fun t => ?_, fun t => trivial, fun k _ => rfl, fun _ => rfl⟩
  cases t <;> simp [Proc.start, Image.initial, Proc.inside, Proc.ownCritical]

/-- The owner of the mutex is the thread inside, in every run whose alarms come outside. -/
theorem guarded_run {is : List Input} {os : List (Option (Actor × Act))}
    (hout : (process timer).Along AlarmOutside .start is) (hrun : (process timer).run .start is = some (p, os)) :
    Guarded p :=
  (process timer).along_keeps (I := fun s _ => Guarded s)
    (fun _ _ _ _ _ h hout hstep => h.step hout (step_moves hstep)) [] guarded_start hout hrun

end Guarded

def Proc.aboutToLock (p : Proc) (t : Tid) : Prop :=
  p.ended = none ∧
    match p.frames t with
    | fr :: _ => ∃ time, fr = .timer (.lock time)
    | [] => ∃ k s, t = .session k ∧ p.sessions[k]? = some s ∧ s.pc = .lock

/-- With the timer, no thread ever comes to lock the mutex while it holds it. -/
def NoSelfDeadlock (is : List Input) : Prop :=
  ∀ js, js <+: is → ∀ p os, (process true).run .start js = some (p, os) →
    ∀ t, p.aboutToLock t → p.image.mutexLock ≠ some t

theorem Guarded.not_owner_of_aboutToLock {p : Proc} {t : Tid} (h : Guarded p) (hlock : p.aboutToLock t) :
    p.image.mutexLock ≠ some t := by
  intro howner
  have hin := (h.owner t).mp howner
  obtain ⟨_, hlock⟩ := hlock
  have hlayered := h.layered t
  unfold Proc.inside at hin
  cases hframes : p.frames t with
  | cons fr rest =>
    rw [hframes] at hlock hin hlayered
    obtain ⟨time, rfl⟩ := hlock
    rcases inside_cons.mp hin with hcritical | hbelow
    · exact absurd hcritical (by simp [Frame.critical])
    · exact hlayered.1 rfl hbelow
  | nil =>
    rw [hframes] at hlock hin
    obtain ⟨k, s, rfl, hs, hpc⟩ := hlock
    rw [inside_nil, ownCritical_of_getElem? hs, hpc] at hin
    exact absurd hin (by simp [SessionPc.critical])

/-- No thread waits for itself in a run in which SIGALRM is delivered only to threads that
do not hold the mutex. -/
theorem no_self_deadlock_outside (is : List Input) (h : (process true).Along AlarmOutside .start is) :
    NoSelfDeadlock is := by
  rintro js ⟨later, rfl⟩ p os hrun t hlock
  have hjs := ((process true).along_append.mp h).1
  exact (guarded_run hjs hrun).not_owner_of_aboutToLock hlock

/-- SIGALRM reaches main while it waits for its first connection. -/
theorem no_self_deadlock_in_accept :
    NoSelfDeadlock (startUp true ++ [.signal .sigalrm .main, .ok .main 0, .ok .main 0]) := by
  refine no_self_deadlock_outside _ ((process true).along_append.mpr ⟨?_, fun p os hrun => ⟨?_, fun s o _ => ?_⟩⟩)
  · refine (process true).along_of_forall (fun i hi s t ht => ?_) _
    simp [startUp, Input.ok, ht] at hi
  · have heval : ((process true).run .start (startUp true)).map (fun q => q.1.image.mutexLock) = some none := by
      decide +kernel
    rw [hrun] at heval
    have hfree : p.image.mutexLock = none := Option.some.inj heval
    intro t _
    rw [hfree]
    simp
  · refine (process true).along_of_forall (fun i hi s t ht => ?_) _
    simp [Input.ok, ht] at hi

/-- SIGALRM reaches a session that has just locked the mutex. -/
theorem alarm_in_session_deadlocks :
    ¬NoSelfDeadlock (startUp true ++ accepting 4 ++
      [.ok (.session 0) 0, .signal .sigalrm (.session 0), .ok (.session 0) 0]) := by
  intro h
  have heval : ((process true).run .start (startUp true ++ accepting 4 ++
      [.ok (.session 0) 0, .signal .sigalrm (.session 0), .ok (.session 0) 0])).map
        (fun q => (q.1.ended, q.1.frames (.session 0), q.1.image.mutexLock)) =
      some (none, [.timer (.lock [])], some (.session 0)) := by decide +kernel
  obtain ⟨⟨p, os⟩, hrun, hp⟩ := Option.map_eq_some_iff.mp heval
  obtain ⟨hended, hp⟩ := Prod.mk.inj hp
  obtain ⟨hframes, howner⟩ := Prod.mk.inj hp
  refine h _ List.prefix_rfl p os hrun (.session 0) ⟨hended, ?_⟩ howner
  rw [hframes]
  exact ⟨[], rfl⟩

end Aesd.Server
