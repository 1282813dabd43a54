import Aesd.Foundations.Machine
import Aesd.Server.Moves

/-! The process: main, the session threads it has created, and the handlers that signals
have started on them. An input lets one thread take its next statement or delivers a
signal to a thread; what the statement's calls did is the answer. -/
namespace Aesd.Server
open Aesd.Foundations Aesd.Driver

structure SessionThread where
  pc : SessionPc
  node : Nat
  deriving DecidableEq, Repr

/-- A handler that has interrupted a thread. -/
inductive Frame where
  | sighandler : SighandlerPc → Frame
  | timer : TimerPc → Frame
  deriving DecidableEq, Repr

inductive Signal where
  | sigint : Signal
  | sigterm : Signal
  | sigalrm : Signal
  deriving DecidableEq, Repr

/-- A thread continues when every handler above it has returned; the first one is the innermost. -/
structure Proc where
  image : Image
  main : MainPc
  sessions : List SessionThread
  frames : Tid → List Frame
  ended : Option Ending

def Proc.start : Proc := ⟨.initial, .register, [], fun _ => [], none⟩

/-- Who made a call: a thread's own code, or a handler on it. -/
inductive Actor where
  | thread : Tid → Actor
  | handler : Tid → Actor
  deriving DecidableEq, Repr

/-- What can happen next; a statement comes with what the system answers to its call. -/
inductive Input where
  | step : Tid → Reply → Input
  | signal : Signal → Tid → Input

def Proc.alive (p : Proc) : Tid → Bool
  | .main => true
  | .session k =>
    match p.sessions[k]? with
    | some s => s.pc ≠ .done
    | none => false

def Proc.finished (p : Proc) (k : Nat) : Bool :=
  match p.sessions[k]? with
  | some s => s.pc = .done
  | none => false

/-- register_signal_handler; timer_handler exists where USE_AESD_CHAR_DEVICE is 0. -/
def registered (timer : Bool) : Signal → Option Frame
  | .sigint | .sigterm => some (.sighandler .closeFptr)
  | .sigalrm => if timer then some (.timer .format) else none

def MainPc.created : MainPc → List SessionThread
  | .create a => [⟨.lock, a⟩]
  | _ => []

def Outcome.map {π ρ : Type} (f : π → ρ) : Outcome π → Outcome ρ
  | .next pc g act => .next (f pc) g act
  | .ends e => .ends e

def frameStep (me : Tid) (r : Reply) (g : Image) : Frame → Except Stop (Outcome (Option Frame))
  | .sighandler pc => (sighandlerStep r g pc).map (Outcome.map (Option.map Frame.sighandler))
  | .timer pc => (timerStep me r g pc).map (Outcome.map (Option.map Frame.timer))

/-- The process after a statement; a call that does not return leaves it as it is, and
after undefined behaviour there is none. -/
def Proc.settle {π : Type} (p : Proc) (who : Actor) (after : π → Image → Proc) :
    Except Stop (Outcome π) → Option (Proc × Option (Actor × Act))
  | .ok (.next pc g act) => some (after pc g, act.map fun a => (who, a))
  | .ok (.ends e) => some ({ p with ended := some e }, none)
  | .error .exited => some ({ p with ended := some .failed }, none)
  | .error .unfinished => some (p, none)
  | .error .undefined => none

def Proc.step (timer : Bool) (p : Proc) : Input → Option (Proc × Option (Actor × Act))
  | .signal sig t =>
    match registered timer sig with
    | some fr =>
      if p.ended = none ∧ p.main ≠ .register ∧ p.alive t = true then
        some ({ p with frames := Function.update p.frames t (fr :: p.frames t) }, none)
      else some (p, none)
    | none => some (p, none)
  | .step t r =>
    if p.ended ≠ none then some (p, none)
    else
      match p.frames t with
      | fr :: rest =>
        p.settle (.handler t)
          (fun fr' g => { p with image := g, frames := Function.update p.frames t (fr'.toList ++ rest) })
          (frameStep t r p.image fr)
      | [] =>
        match t with
        | .main =>
          p.settle (.thread .main)
            (fun pc g => { p with image := g, main := pc, sessions := p.sessions ++ p.main.created })
            (mainStep timer p.sessions.length p.finished r p.image p.main)
        | .session k =>
          match p.sessions[k]? with
          | some s =>
            p.settle (.thread (.session k))
              (fun pc g => { p with image := g, sessions := p.sessions.set k ⟨pc, s.node⟩ })
              (sessionStep (.session k) s.node r p.image s.pc)
          | none => some (p, none)

/-- The server, with timer_handler where timer is true. -/
def process (timer : Bool) : Machine Proc Input (Option (Actor × Act)) := ⟨Proc.step timer⟩

def Input.ok (t : Tid) (fd : Int) : Input := .step t ⟨true, fd, 0, []⟩

/-- main up to its first accept, with 3 for the listening socket and 4 for the store. -/
def startUp (timer : Bool) : List Input :=
  List.replicate 3 (.ok .main 0) ++ .ok .main 3 :: List.replicate 3 (.ok .main 0) ++
    .ok .main 4 :: List.replicate (if timer then 5 else 4) (.ok .main 0)

/-- main from accept, with this number for the connection, up to the pass over the list. -/
def accepting (fd : Int) : List Input := .ok .main fd :: List.replicate 5 (.ok .main 0)

/-- Session k to its end: one recv brings the packet, one read the content, and the store
is opened with this number. -/
def serving (k : Nat) (fd : Int) (packet content : List Byte) : List Input :=
  List.replicate 3 (.ok (.session k) 0) ++ .step (.session k) ⟨true, 0, 0, packet⟩ ::
    List.replicate 2 (.ok (.session k) 0) ++ .ok (.session k) fd :: List.replicate 6 (.ok (.session k) 0) ++
      .ok (.session k) fd :: .ok (.session k) 0 :: .step (.session k) ⟨true, 0, content.length, content⟩ ::
        List.replicate 7 (.ok (.session k) 0)

def Input.isStep : Input → Bool
  | .step _ _ => true
  | .signal _ _ => false

/-- What one input can do to the process. -/
inductive Moves (timer : Bool) (p : Proc) : Input → Proc → Option (Actor × Act) → Prop where
  | stays {i : Input} : Moves timer p i p none
  | delivered {sig : Signal} {t : Tid} {fr : Frame} : registered timer sig = some fr → p.ended = none →
    p.main ≠ .register → p.alive t = true →
    Moves timer p (.signal sig t) { p with frames := Function.update p.frames t (fr :: p.frames t) } none
  | handlerEnds {t : Tid} {r : Reply} {fr : Frame} {rest : List Frame} {e : Ending} : p.ended = none →
    p.frames t = fr :: rest → Ends (frameStep t r p.image fr) e →
    Moves timer p (.step t r) { p with ended := some e } none
  | handler {t : Tid} {r : Reply} {fr : Frame} {rest : List Frame} {fr' : Option Frame} {g : Image}
      {act : Option Act} : p.ended = none → p.frames t = fr :: rest →
    frameStep t r p.image fr = .ok (.next fr' g act) →
    Moves timer p (.step t r)
      { p with image := g, frames := Function.update p.frames t (fr'.toList ++ rest) }
      (act.map fun a => (.handler t, a))
  | mainEnds {r : Reply} {e : Ending} : p.ended = none → p.frames .main = [] →
    Ends (mainStep timer p.sessions.length p.finished r p.image p.main) e →
    Moves timer p (.step .main r) { p with ended := some e } none
  | main {r : Reply} {pc : MainPc} {g : Image} {act : Option Act} : p.ended = none → p.frames .main = [] →
    MainMove timer p.sessions.length p.finished p.image p.main pc g act →
    Moves timer p (.step .main r) { p with image := g, main := pc, sessions := p.sessions ++ p.main.created }
      (act.map fun a => (.thread .main, a))
  | sessionEnds {k : Nat} {s : SessionThread} {r : Reply} {e : Ending} : p.ended = none →
    p.frames (.session k) = [] → p.sessions[k]? = some s →
    Ends (sessionStep (.session k) s.node r p.image s.pc) e →
    Moves timer p (.step (.session k) r) { p with ended := some e } none
  | session {k : Nat} {s : SessionThread} {r : Reply} {pc : SessionPc} {g : Image} {act : Option Act} :
    p.ended = none → p.frames (.session k) = [] → p.sessions[k]? = some s →
    SessionMove (.session k) s.node p.image s.pc pc g act →
    Moves timer p (.step (.session k) r)
      { p with image := g, sessions := p.sessions.set k ⟨pc, s.node⟩ }
      (act.map fun a => (.thread (.session k), a))

section Handlers
variable {me : Tid} {r : Reply} {g g' : Image} {fr' : Option Frame} {act : Option Act}

private theorem map_eq_next {π ρ : Type} {f : π → ρ} {x : Except Stop (Outcome π)} {b : ρ}
    (h : x.map (Outcome.map f) = .ok (.next b g act)) : ∃ a, x = .ok (.next a g act) ∧ b = f a := by
  match x, h with
  | .ok (.next a _ _), h =>
    obtain ⟨rfl, rfl, rfl⟩ := Outcome.next.inj (Except.ok.inj h)
    exact ⟨a, rfl, rfl⟩
  | .ok (.ends _), h => exact absurd (Except.ok.inj h) (by simp [Outcome.map])

private theorem map_ends {π ρ : Type} {f : π → ρ} {x : Except Stop (Outcome π)} {e : Ending}
    (h : Ends (x.map (Outcome.map f)) e) : Ends x e := by
  match x, h with
  | .ok (.next _ _ _), .inl h => exact absurd (Except.ok.inj h) (by simp [Outcome.map])
  | .ok (.ends _), .inl h =>
    obtain rfl := Outcome.ends.inj (Except.ok.inj h)
    exact .inl rfl
  | .error _, .inr ⟨h, he⟩ => exact .inr ⟨congrArg Except.error (Except.error.inj h), he⟩

theorem frameStep_sighandler_ends {pc : SighandlerPc} {e : Ending}
    (h : Ends (frameStep me r g (.sighandler pc)) e) : Ends (sighandlerStep r g pc) e := map_ends h

theorem frameStep_sighandler {pc : SighandlerPc}
    (h : frameStep me r g (.sighandler pc) = .ok (.next fr' g' act)) :
    ∃ next, sighandlerStep r g pc = .ok (.next next g' act) ∧ fr' = next.map .sighandler := map_eq_next h

theorem frameStep_timer {pc : TimerPc} (h : frameStep me r g (.timer pc) = .ok (.next fr' g' act)) :
    ∃ next, timerStep me r g pc = .ok (.next next g' act) ∧ fr' = next.map .timer := map_eq_next h

end Handlers

section Moves
variable {π : Type} {timer : Bool} {p p' : Proc} {i : Input} {o : Option (Actor × Act)}

private theorem settle_cases {who : Actor} {after : π → Image → Proc} {x : Except Stop (Outcome π)}
    (h : p.settle who after x = some (p', o)) :
    (∃ pc g act, x = .ok (.next pc g act) ∧ p' = after pc g ∧ o = act.map fun a => (who, a)) ∨
      (∃ e, Ends x e ∧ p' = { p with ended := some e } ∧ o = none) ∨ p' = p ∧ o = none := by
  unfold Proc.settle at h
  split at h
  · rename_i pc g act
    obtain ⟨rfl, rfl⟩ := Prod.mk.inj (Option.some.inj h)
    exact .inl ⟨pc, g, act, rfl, rfl, rfl⟩
  · rename_i e
    obtain ⟨rfl, rfl⟩ := Prod.mk.inj (Option.some.inj h)
    exact .inr (.inl ⟨e, .inl rfl, rfl, rfl⟩)
  · obtain ⟨rfl, rfl⟩ := Prod.mk.inj (Option.some.inj h)
    exact .inr (.inl ⟨.failed, .inr ⟨rfl, rfl⟩, rfl, rfl⟩)
  · obtain ⟨rfl, rfl⟩ := Prod.mk.inj (Option.some.inj h)
    exact .inr (.inr ⟨rfl, rfl⟩)
  · exact absurd h (by simp)

/-- A session that no handler has interrupted takes its next statement, or the process
ends by it, or it waits. -/
theorem step_session {k : Nat} {s : SessionThread} {r : Reply} (hended : p.ended = none)
    (hframes : p.frames (.session k) = []) (hs : p.sessions[k]? = some s)
    (h : (process timer).step p (.step (.session k) r) = some (p', o)) :
    (∃ pc g act, sessionStep (.session k) s.node r p.image s.pc = .ok (.next pc g act) ∧
      p' = { p with image := g, sessions := p.sessions.set k ⟨pc, s.node⟩ } ∧
        o = act.map fun a => (.thread (.session k), a)) ∨
      (∃ e, Ends (sessionStep (.session k) s.node r p.image s.pc) e ∧ p' = { p with ended := some e } ∧ o = none) ∨
        p' = p ∧ o = none := by
  simp only [process, Proc.step] at h
  rw [if_neg (not_not.mpr hended), hframes] at h
  simp only [hs] at h
  exact settle_cases h

/-- Every step of the process is one of these moves. -/
theorem step_moves (h : (process timer).step p i = some (p', o)) : Moves timer p i p' o := by
  cases i with
  | signal sig t =>
    simp only [process, Proc.step] at h
    split at h
    · rename_i fr hfr
      split at h
      · rename_i hdeliver
        obtain ⟨rfl, rfl⟩ := Prod.mk.inj (Option.some.inj h)
        exact .delivered hfr hdeliver.1 hdeliver.2.1 hdeliver.2.2
      · obtain ⟨rfl, rfl⟩ := Prod.mk.inj (Option.some.inj h)
        exact .stays
    · obtain ⟨rfl, rfl⟩ := Prod.mk.inj (Option.some.inj h)
      exact .stays
  | step t r =>
    have htaken := h
    simp only [process, Proc.step] at h
    split at h
    · obtain ⟨rfl, rfl⟩ := Prod.mk.inj (Option.some.inj h)
      exact .stays
    · rename_i hended
      have hrunning : p.ended = none := not_not.mp hended
      split at h
      · rename_i fr rest hframes
        rcases settle_cases h with ⟨fr', g, act, hstep, rfl, rfl⟩ | ⟨e, he, rfl, rfl⟩ | ⟨rfl, rfl⟩
        · exact .handler hrunning hframes hstep
        · exact .handlerEnds hrunning hframes he
        · exact .stays
      · rename_i hframes
        split at h
        · rcases settle_cases h with ⟨pc, g, act, hstep, rfl, rfl⟩ | ⟨e, he, rfl, rfl⟩ | ⟨rfl, rfl⟩
          · exact .main hrunning hframes (mainStep_moves hstep)
          · exact .mainEnds hrunning hframes he
          · exact .stays
        · rename_i k
          split at h
          · rename_i s hs
            rcases step_session hrunning hframes hs htaken with ⟨pc, g, act, hnext, rfl, rfl⟩ | ⟨e, he, rfl, rfl⟩ |
              ⟨rfl, rfl⟩
            · exact .session hrunning hframes hs (sessionStep_moves hnext)
            · exact .sessionEnds hrunning hframes hs he
            · exact .stays
          · obtain ⟨rfl, rfl⟩ := Prod.mk.inj (Option.some.inj h)
            exact .stays

end Moves
end Aesd.Server
