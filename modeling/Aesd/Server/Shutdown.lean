import Aesd.Server.Isolation

/-! What SIGINT and SIGTERM take away. sighandler frees the nodes and the buffers and
closes the listening socket whatever the sessions are doing; a run in which it finds no
session in progress loses nothing. -/
namespace Aesd.Server
open Aesd.Foundations Aesd.Driver

def SessionPc.touches (node : Nat) (g : Image) : SessionPc → List Nat
  | .memset | .scan _ _ | .realloc _ _ | .write _ | .freeRecv _ => g.recvData.toList
  | .recv _ => node :: g.recvData.toList
  | .read _ _ _ | .freeRead => g.readBuffer.toList
  | .send => node :: g.readBuffer.toList
  | .complete | .closeSocket => [node]
  | _ => []

def SessionPc.receiving : SessionPc → Bool
  | .lock | .malloc | .memset => false
  | _ => true

def freedByHandlers (os : Trace) : List Nat :=
  os.filterMap fun
    | some (.handler _, .free b) => some b
    | _ => none

/-- No session is about to use or free what sighandler has freed. -/
def FreedUntouched (p : Proc) (os : Trace) : Prop :=
  ∀ (k : Nat) (s : SessionThread), p.ended = none → p.frames (.session k) = [] → p.sessions[k]? = some s →
    ∀ b ∈ s.pc.touches s.node p.image, b ∉ freedByHandlers os

/-- Where the process has ended for what sighandler took away, each session that has come
to its recv has sent its response. -/
def NoneAbandoned (p : Proc) (os : Trace) : Prop :=
  p.ended = some .lost → ∀ (k : Nat) (s : SessionThread), p.sessions[k]? = some s → s.pc.receiving = true →
    ∃ response, Call.send k response ∈ callsOf os k

def ShutdownSafe (is : List Input) : Prop :=
  ∀ js, js <+: is → ∀ p os, (process false).run .start js = some (p, os) →
    FreedUntouched p os ∧ NoneAbandoned p os

/-- SIGINT and SIGTERM come while no session is in progress. -/
def BetweenSessions (p : Proc) (i : Input) : Prop := ∀ sig t, i = .signal sig t → sig ≠ .sigalrm → Idle p

def MainPc.bound : MainPc → Bool
  | .register | .getAddressInfo | .resetAccepted | .socket => false
  | _ => true

def MainPc.stored : MainPc → Bool
  | .setsockopt | .bind | .daemonise | .createOpen | .createFailed => false
  | pc => pc.bound

def SighandlerPc.closed : SighandlerPc → Bool
  | .closeFptr | .closeSockfd => false
  | _ => true

section Session
variable {k node b : Nat} {me : Tid} {r : Reply} {base : Int} {g g' : Image} {cs : List Call}
  {pc pc' : SessionPc} {act : Option Act}

private theorem Points.alive {p : Option Nat} {data : List Byte} (h : Points g p data) (hb : b ∈ p.toList) :
    g.memory b ≠ none := by
  obtain ⟨i, _, rfl, hm, _⟩ := h
  rw [List.mem_singleton.mp hb, hm]
  simp

private theorem Reading.alive {status : Int} (h : Reading k base g cs status) (hb : b ∈ g.readBuffer.toList) :
    g.memory b ≠ none := by
  obtain ⟨_, _, i, _, _, _, hp, hm, _⟩ := h
  rw [hp] at hb
  rw [List.mem_singleton.mp hb, hm]
  simp

private theorem Filling.alive {total : Int} (h : Filling k base g cs total) (hb : b ∈ g.recvData.toList) :
    g.memory b ≠ none := by
  obtain ⟨_, _, _, hpoints, _⟩ := h
  exact hpoints.alive hb

/-- What a session in progress is about to touch is there. -/
theorem Holding.alive (h : Holding k base g cs pc) (hwired : Wired g k node) (hb : b ∈ pc.touches node g) :
    g.memory b ≠ none := by
  obtain ⟨q, hq, _⟩ := hwired
  cases pc with
  | memset =>
    obtain ⟨_, hnull | hpoints, _⟩ := h
    · rw [SessionPc.touches, hnull] at hb
      exact absurd hb (by simp)
    · exact hpoints.alive hb
  | scan | realloc => exact Filling.alive h hb
  | recv =>
    rcases List.mem_cons.mp hb with rfl | hb
    · simp [hq]
    · exact Filling.alive h hb
  | write => exact h.1.alive hb
  | freeRecv => exact h.2.2.alive hb
  | read => exact h.1.alive hb
  | send =>
    obtain ⟨_, hreading⟩ := h
    rcases List.mem_cons.mp hb with rfl | hb
    · simp [hq]
    · exact hreading.alive hb
  | freeRead => exact h.2.alive hb
  | complete | closeSocket =>
    rw [List.mem_singleton.mp hb, hq]
    simp
  | _ => exact absurd hb (by simp [SessionPc.touches])

/-- A block that is gone is not handed out again. -/
theorem SessionMove.gone (h : SessionMove me node g pc pc' g' act) (hlt : b < g.next) (hb : g.memory b = none) :
    b < g'.next ∧ g'.memory b = none := by
  have hne : b ≠ g.next := Nat.ne_of_lt hlt
  cases h with
  | malloc | mallocRead => exact ⟨Nat.lt_succ_of_lt hlt, (Function.update_of_ne hne ..).trans hb⟩
  | memset _ hm | recv _ _ _ hm | read _ hm => exact ⟨hlt, update_gone hb (.inl (by simp [hm]))⟩
  | realloc => exact ⟨Nat.lt_succ_of_lt hlt, (Function.update_of_ne hne ..).trans (update_gone hb (.inr rfl))⟩
  | complete hq => exact ⟨hlt, update_gone hb (.inl (by simp [hq]))⟩
  | freeRecv hfree | freeRead hfree =>
    have hgone := Image.free_gone hfree hb
    rw [Image.free_frame hfree]
    exact ⟨hlt, hgone⟩
  | _ => exact ⟨hlt, hb⟩

/-- As long as the path is there no session ends for want of it. -/
theorem SessionMove.not_lost (h : SessionMove me node g pc pc' g' act) (hremoved : g.removed = false) :
    pc' ≠ .openFailed .lost := by
  cases h with
  | openFailed => simp [openEnding, hremoved]
  | realloc | read | readClosed => split <;> simp
  | _ => simp

end Session

section Main
variable {timer : Bool} {n b : Nat} {finished : Nat → Bool} {g g' : Image} {pc pc' : MainPc} {act : Option Act}

theorem MainMove.gone (h : MainMove timer n finished g pc pc' g' act) (hlt : b < g.next) (hb : g.memory b = none) :
    b < g'.next ∧ g'.memory b = none := by
  cases h with
  | mallocNode => exact ⟨Nat.lt_succ_of_lt hlt, (Function.update_of_ne (Nat.ne_of_lt hlt) ..).trans hb⟩
  | setSockfd hq | setComplete hq | create hq => exact ⟨hlt, update_gone hb (.inl (by simp [hq]))⟩
  | _ => exact ⟨hlt, hb⟩

/-- main gets its listening socket from socket alone. -/
theorem MainMove.bound (h : MainMove timer n finished g pc pc' g' act) (hbound : pc'.bound = true) :
    pc.bound = true ∨ g'.fds g'.sockfd = some .listening := by
  cases h with
  | socket => exact .inr (Function.update_self ..)
  | register | getAddressInfo | resetAccepted => exact absurd hbound (by simp [MainPc.bound])
  | _ => exact .inl rfl

theorem MainMove.creating (h : MainMove timer n finished g pc pc' g' act) (hpc : pc' = .createClose) :
    g'.fds g'.fptr = some .store := by
  cases h with
  | createOpen => exact Function.update_self ..
  | initMutex | visit => exact absurd hpc (by split <;> simp)
  | _ => exact absurd hpc (by simp)

/-- While main listens it goes on listening. -/
theorem MainMove.listening (h : MainMove timer n finished g pc pc' g' act) (hbound : pc.bound = true)
    (hcreating : pc = .createClose → g.fds g.fptr ≠ some .listening) (hl : g.fds g.sockfd = some .listening) :
    g'.fds g'.sockfd = some .listening := by
  cases h with
  | socket => exact absurd hbound (by simp [MainPc.bound])
  | createOpen _ hfree => exact (update_eq_some_iff (by simp [hfree]) (by simp) _).mpr hl
  | createClose => exact (update_eq_some_iff (hcreating rfl) (by simp) _).mpr hl
  | accept _ _ hfree => exact (update_eq_some_iff (by simp [hfree]) (by simp) _).mpr hl
  | _ => exact hl

/-- Once its socket is closed main does not listen again, nor accept. -/
theorem MainMove.deaf (h : MainMove timer n finished g pc pc' g' act) (hbound : pc.bound = true)
    (hl : g.fds g.sockfd ≠ some .listening) :
    g'.fds g'.sockfd ≠ some .listening ∧ (pc.pending = false → pc.created = [] ∧ pc'.pending = false) := by
  cases h with
  | socket => exact absurd hbound (by simp [MainPc.bound])
  | createOpen _ hfree =>
    refine ⟨fun h => hl ((update_eq_some_iff (by simp [hfree]) (by simp) _).mp h), fun _ => ⟨rfl, rfl⟩⟩
  | createClose =>
    exact ⟨fun h => hl (Image.closeFd_eq_some.mp h).2, fun _ => ⟨rfl, rfl⟩⟩
  | listen hlistening | accept hlistening => exact absurd hlistening hl
  | initMutex | visit => exact ⟨hl, fun _ => ⟨rfl, by split <;> rfl⟩⟩
  | mallocNode | setSockfd | setComplete | insert | create =>
    exact ⟨hl, fun hpending => absurd hpending (by simp [MainPc.pending])⟩
  | _ => exact ⟨hl, fun _ => ⟨rfl, rfl⟩⟩

/-- create_new_file brings the path back, and nothing in main removes it. -/
theorem MainMove.removed (h : MainMove timer n finished g pc pc' g' act) (hremoved : g'.removed = true) :
    g.removed = true ∧ (pc'.stored = true → pc.stored = true) := by
  cases h with
  | createOpen => exact absurd hremoved (by simp)
  | initMutex | visit => exact ⟨hremoved, fun _ => rfl⟩
  | _ => exact ⟨hremoved, by simp [MainPc.stored, MainPc.bound]⟩

theorem bound_of_stored (h : pc.stored = true) : pc.bound = true := by
  cases pc <;> first | rfl | exact h

theorem stored_of_running (h : pc.starting = false) : pc.stored = true := by
  cases pc <;> first | rfl | exact absurd h (by simp [MainPc.starting])

end Main

section Sighandler
variable {b : Nat} {r : Reply} {g g' : Image} {pc pc' : SighandlerPc} {next : Option SighandlerPc}
  {act : Option Act}

theorem sighandlerStep_not_lost : ¬Ends (sighandlerStep r g pc) .lost := by
  intro h
  have h := h.lost
  cases pc with
  | closeFptr | first =>
    simp only [sighandlerStep] at h
    split at h
    · exact absurd h (by simp)
    · exact absurd h (by simp)
  | closeSockfd | closeAccepted | remove => exact absurd (Except.ok.inj h) (by simp)
  | freeRead | freeRecv | freeNode temp =>
    obtain ⟨_, _, h⟩ := bind_eq_ok.mp h
    exact absurd (Except.ok.inj h) (by simp)
  | removeHead temp =>
    simp only [sighandlerStep] at h
    split at h
    · exact absurd h (by simp)
    · obtain ⟨_, _, h⟩ := bind_eq_ok.mp h
      exact absurd (Except.ok.inj h) (by simp)

/-- A block that sighandler frees is there before it and gone after it. -/
theorem sighandlerStep_frees (h : sighandlerStep r g pc = .ok (.next next g' (some (.free b)))) :
    g.memory b ≠ none ∧ g'.memory b = none := by
  have free_gone : ∀ {p : Option Nat} {g₁ : Image}, g.free p = .ok g₁ → p = some b →
      g.memory b ≠ none ∧ g₁.memory b = none := by
    rintro p g₁ hfree rfl
    obtain ⟨hb, rfl⟩ := Image.free_some hfree
    exact ⟨hb, Function.update_self ..⟩
  cases pc with
  | closeFptr | first =>
    simp only [sighandlerStep] at h
    split at h
    · exact absurd (Outcome.next.inj (Except.ok.inj h)).2.2 (by simp)
    · exact absurd (Outcome.next.inj (Except.ok.inj h)).2.2 (by simp)
  | closeSockfd | closeAccepted | remove =>
    exact absurd (Outcome.next.inj (Except.ok.inj h)).2.2 (by simp)
  | freeRead | freeRecv | freeNode temp =>
    obtain ⟨g₁, hfree, h⟩ := bind_eq_ok.mp h
    obtain ⟨_, rfl, hact⟩ := Outcome.next.inj (Except.ok.inj h)
    exact free_gone hfree (by simpa using hact)
  | removeHead temp =>
    simp only [sighandlerStep] at h
    split at h
    · exact absurd h (by simp)
    · obtain ⟨_, _, h⟩ := bind_eq_ok.mp h
      exact absurd (Outcome.next.inj (Except.ok.inj h)).2.2 (by simp)

/-- sighandler comes to what follows the closing of sockfd only through it, and removes
the path after it. -/
theorem sighandlerStep_closes (h : sighandlerStep r g pc = .ok (.next next g' act)) :
    ((∃ pc', next = some pc' ∧ pc'.closed = true) → pc.closed = true ∨ g'.fds g'.sockfd = none) ∧
      (g'.removed = true → g.removed = true ∨ pc.closed = true) := by
  cases pc with
  | closeFptr =>
    simp only [sighandlerStep] at h
    split at h
    · obtain ⟨rfl, rfl, _⟩ := Outcome.next.inj (Except.ok.inj h)
      exact ⟨by simp [SighandlerPc.closed], .inl⟩
    · obtain ⟨rfl, rfl, _⟩ := Outcome.next.inj (Except.ok.inj h)
      exact ⟨by simp [SighandlerPc.closed], .inl⟩
  | closeSockfd =>
    obtain ⟨rfl, rfl, _⟩ := Outcome.next.inj (Except.ok.inj h)
    exact ⟨fun _ => .inr (Function.update_self ..), .inl⟩
  | _ => exact ⟨fun _ => .inl rfl, fun _ => .inr rfl⟩

end Sighandler

structure Orderly (p : Proc) (os : Trace) : Prop where
  sound : Sound p os
  lost : p.ended = some .lost → ∀ s ∈ p.sessions, s.pc = .done
  freed : ∀ b ∈ freedByHandlers os, b < p.image.next ∧ p.image.memory b = none
  creating : p.main = .createClose → p.image.fds p.image.fptr ≠ some .listening
  serving : p.main.bound = true → p.image.fds p.image.sockfd = some .listening ∨ Idle p
  removed : p.image.removed = true → p.main.stored = false ∨ p.image.fds p.image.sockfd ≠ some .listening
  closed : ∀ t pc, .sighandler pc ∈ p.frames t → pc.closed = true →
    p.main.bound = false ∨ p.image.fds p.image.sockfd ≠ some .listening
  opened : ∀ s ∈ p.sessions, s.pc ≠ .openFailed .lost

section Orderly
variable {timer : Bool} {p p' : Proc} {os : Trace} {i : Input} {o : Option (Actor × Act)} {g : Image}
  {act : Option Act} {s : SessionThread} {k : Nat}

theorem freedByHandlers_append (os ws : Trace) :
    freedByHandlers (os ++ ws) = freedByHandlers os ++ freedByHandlers ws :=
  List.filterMap_append

theorem freedByHandlers_thread (t : Tid) (act : Option Act) :
    freedByHandlers [act.map fun a => (.thread t, a)] = [] := by
  cases act with
  | none => rfl
  | some a => cases a <;> rfl

theorem mem_freedByHandlers_handler {t : Tid} {b : Nat}
    (hb : b ∈ freedByHandlers [act.map fun a => (.handler t, a)]) : act = some (.free b) := by
  cases act with
  | none => exact absurd hb (by simp [freedByHandlers])
  | some a =>
    cases a with
    | free b' =>
      obtain rfl : b = b' := by simpa [freedByHandlers] using hb
      rfl
    | call | close | join => exact absurd hb (by simp [freedByHandlers])

theorem orderly_start : Orderly Proc.start [] := by
  refine ⟨sound_start, ?_, ?_, ?_, ?_, ?_, ?_, ?_⟩
  · exact fun h => absurd h (by simp [Proc.start])
  · exact fun b hb => absurd hb (by simp [freedByHandlers])
  · exact fun h => absurd h (by simp [Proc.start])
  · exact fun h => absurd h (by simp [Proc.start, MainPc.bound])
  · exact fun h => absurd h (by simp [Proc.start, Image.initial])
  · exact fun t pc h => absurd h (by simp [Proc.start])
  · exact fun s h => absurd h (by simp [Proc.start])

/-- As long as a session is in progress main listens and the path is there. -/
theorem Orderly.inProgress (h : Orderly p os) (hs : s ∈ p.sessions) (hdone : s.pc ≠ .done) :
    p.image.fds p.image.sockfd = some .listening ∧ p.image.removed = false := by
  have hstored := stored_of_running (h.sound.guarded.running hs)
  have hlistening := (h.serving (bound_of_stored hstored)).resolve_right fun hidle => hdone (hidle.1 s hs)
  refine ⟨hlistening, ?_⟩
  by_contra hremoved
  rcases h.removed (by simpa using hremoved) with hnot | hnot
  · exact absurd (hstored.symm.trans hnot) (by simp)
  · exact hnot hlistening

theorem Orderly.main {pc : MainPc} (h : Orderly p os) (hended : p.ended = none) (hmain : p.frames .main = [])
    (hmove : MainMove timer p.sessions.length p.finished p.image p.main pc g act) :
    Orderly { p with image := g, main := pc, sessions := p.sessions ++ p.main.created }
      (os ++ [act.map fun a => (.thread .main, a)]) := by
  refine ⟨h.sound.main hmain hmove, ?_, fun b hb => ?_, fun hpc => ?_, fun hbound => ?_, fun hremoved => ?_,
    fun t pc hpc => ?_, fun s hs => ?_⟩
  · exact fun hlost => absurd (hended.symm.trans hlost) (by simp)
  · rw [freedByHandlers_append, freedByHandlers_thread, List.append_nil] at hb
    exact hmove.gone (h.freed b hb).1 (h.freed b hb).2
  · simp [hmove.creating hpc]
  · rcases hmove.bound hbound with hbefore | hlistening
    · by_cases hl : p.image.fds p.image.sockfd = some .listening
      · exact .inl (hmove.listening hbefore h.creating hl)
      · obtain ⟨hdone, hpending⟩ := (h.serving hbefore).resolve_left hl
        obtain ⟨hcreated, hpending'⟩ := (hmove.deaf hbefore hl).2 hpending
        rw [hcreated, List.append_nil]
        exact .inr ⟨hdone, hpending'⟩
    · exact .inl hlistening
  · obtain ⟨hbefore, hstored⟩ := hmove.removed hremoved
    by_cases hpc : pc.stored = true
    · have hl := (h.removed hbefore).resolve_left (by simp [hstored hpc])
      exact .inr (hmove.deaf (bound_of_stored (hstored hpc)) hl).1
    · exact .inl (by simpa using hpc)
  · obtain ⟨rfl, _⟩ := h.sound.handlers t _ hpc
    rw [show p.frames .main = [] from hmain] at hpc
    exact absurd hpc (by simp)
  · rcases List.mem_append.mp hs with hs | hs
    · exact h.opened s hs
    · rw [(hmove.created h.sound.pending hs).1]
      simp

theorem Orderly.session {pc : SessionPc} (h : Orderly p os) (hended : p.ended = none)
    (hframes : p.frames (.session k) = []) (hs : p.sessions[k]? = some s)
    (hmove : SessionMove (.session k) s.node p.image s.pc pc g act) :
    Orderly { p with image := g, sessions := p.sessions.set k ⟨pc, s.node⟩ }
      (os ++ [act.map fun a => (.thread (.session k), a)]) := by
  have hmem := List.mem_of_getElem? hs
  have hspares := (h.sound.holding k s hs).spares hmove (h.sound.wired k s hs hmove.not_done) h.sound.fresh
  obtain ⟨hlistening, hpath⟩ := h.inProgress hmem hmove.not_done
  have hlistening' : g.fds g.sockfd = some .listening := by
    rw [hspares.sockfd]
    exact (hspares.fds _ _ (by simp) (.inl (by simp))).mpr hlistening
  refine ⟨h.sound.session hframes hs hmove, ?_, fun b hb => ?_, fun hpc => ?_, fun _ => .inl hlistening',
    fun hremoved => ?_, fun t pc hpc _ => ?_, fun u hu => ?_⟩
  · exact fun hlost => absurd (hended.symm.trans hlost) (by simp)
  · rw [freedByHandlers_append, freedByHandlers_thread, List.append_nil] at hb
    exact hmove.gone (h.freed b hb).1 (h.freed b hb).2
  · have hrunning := h.sound.guarded.running hmem
    rw [show p.main = _ from hpc] at hrunning
    exact absurd hrunning (by simp [MainPc.starting])
  · rw [show g.removed = _ from hspares.removed, hpath] at hremoved
    exact absurd hremoved (by simp)
  · obtain ⟨_, _, hidle⟩ := h.sound.handlers t _ hpc
    exact absurd (hidle.1 s hmem) hmove.not_done
  · rcases List.mem_or_eq_of_mem_set hu with hu | rfl
    · exact h.opened u hu
    · exact hmove.not_lost hpath

theorem Orderly.handler {t : Tid} {r : Reply} {fr : Frame} {rest : List Frame} {fr' : Option Frame}
    (h : Orderly p os) (hended : p.ended = none) (hframes : p.frames t = fr :: rest)
    (hstep : frameStep t r p.image fr = .ok (.next fr' g act)) :
    Orderly { p with image := g, frames := Function.update p.frames t (fr'.toList ++ rest) }
      (os ++ [act.map fun a => (.handler t, a)]) := by
  have hfr : fr ∈ p.frames t := by
    rw [hframes]
    exact List.mem_cons_self
  obtain ⟨rfl, ⟨pc, rfl⟩, hidle⟩ := h.sound.handlers t fr hfr
  obtain ⟨next, hnext, rfl⟩ := frameStep_sighandler hstep
  have hleaves := sighandlerStep_leaves hnext
  obtain ⟨hcloses, hremoves⟩ := sighandlerStep_closes hnext
  -- what is closed stays closed
  have hdeaf : p.image.fds p.image.sockfd ≠ some .listening → g.fds g.sockfd ≠ some .listening := by
    intro hl hl'
    rw [hleaves.sockfd] at hl'
    exact hl (hleaves.fds _ _ hl')
  refine ⟨h.sound.handler hframes hstep, ?_, fun b hb => ?_, fun hpc hl => ?_, fun _ => .inr hidle,
    fun hremoved => ?_, fun t pc' hpc hclosed => ?_, h.opened⟩
  · exact fun hlost => absurd (hended.symm.trans hlost) (by simp)
  · rw [freedByHandlers_append] at hb
    rw [show g.next = _ from hleaves.next]
    rcases List.mem_append.mp hb with hb | hb
    · exact ⟨(h.freed b hb).1, hleaves.memory b (h.freed b hb).2⟩
    · obtain rfl := mem_freedByHandlers_handler hb
      obtain ⟨halive, hgone⟩ := sighandlerStep_frees hnext
      refine ⟨?_, hgone⟩
      by_contra hlt
      exact halive (h.sound.fresh b (Nat.not_lt.mp hlt))
  · rw [hleaves.fptr] at hl
    exact h.creating hpc (hleaves.fds _ _ hl)
  · rcases hremoves hremoved with hremoved | hclosed
    · exact (h.removed hremoved).imp id hdeaf
    · rcases h.closed .main pc hfr hclosed with hbound | hl
      · left
        by_contra hstored
        exact absurd (bound_of_stored (by simpa using hstored)) (by simp [hbound])
      · exact .inr (hdeaf hl)
  · have hbefore : ∀ pc₁, .sighandler pc₁ ∈ p.frames .main → pc₁.closed = true →
        p.main.bound = false ∨ g.fds g.sockfd ≠ some .listening :=
      fun pc₁ hpc₁ hclosed₁ => (h.closed .main pc₁ hpc₁ hclosed₁).imp id hdeaf
    by_cases ht : t = .main
    · subst ht
      simp only [Function.update_self] at hpc
      rcases List.mem_append.mp hpc with hpc | hpc
      · obtain rfl : next = some pc' := by simpa using hpc
        rcases hcloses ⟨pc', rfl, hclosed⟩ with hclosed | hl
        · exact hbefore pc hfr hclosed
        · exact .inr (by simp [hl])
      · exact hbefore pc' (by rw [hframes]; exact List.mem_cons_of_mem _ hpc) hclosed
    · simp only [Function.update_of_ne ht] at hpc
      exact absurd (h.sound.handlers t _ hpc).1 ht

theorem Orderly.delivered {sig : Signal} {t : Tid} {fr : Frame} (h : Orderly p os) (hended : p.ended = none)
    (hfr : registered timer sig = some fr) (halive : p.alive t = true) (hcalm : Calm timer p (.signal sig t)) :
    Orderly { p with frames := Function.update p.frames t (fr :: p.frames t) } (os ++ [none]) := by
  refine ⟨h.sound.delivered hfr halive hcalm, ?_, fun b hb => ?_, h.creating, h.serving, h.removed,
    fun u pc hpc hclosed => ?_, h.opened⟩
  · exact fun hlost => absurd (hended.symm.trans hlost) (by simp)
  · exact h.freed b (by simpa [freedByHandlers_append, freedByHandlers] using hb)
  · by_cases hu : u = t
    · subst hu
      simp only [Function.update_self] at hpc
      rcases List.mem_cons.mp hpc with rfl | hpc
      · cases sig with
        | sigalrm => exact absurd rfl (hcalm .sigalrm _ rfl (by rw [hfr]; rfl)).1
        | sigint | sigterm =>
          obtain rfl := Frame.sighandler.inj (Option.some.inj hfr)
          exact absurd hclosed (by simp [SighandlerPc.closed])
      · exact h.closed u pc hpc hclosed
    · simp only [Function.update_of_ne hu] at hpc
      exact h.closed u pc hpc hclosed

/-- What ends the process keeps this, if it is not for what a session in progress needs. -/
theorem Orderly.ends (h : Orderly p os) {e : Option Ending}
    (he : e = some .lost → ∀ s ∈ p.sessions, s.pc = .done) :
    Orderly { p with ended := e } (os ++ [none]) := by
  refine ⟨h.sound.silence e, he, fun b hb => ?_, h.creating, h.serving, h.removed, h.closed, h.opened⟩
  exact h.freed b (by simpa [freedByHandlers_append, freedByHandlers] using hb)

/-- A session in progress does not end the process for want of what sighandler takes. -/
theorem Orderly.session_not_lost {r : Reply} (h : Orderly p os) (hs : p.sessions[k]? = some s) :
    ¬Ends (sessionStep (.session k) s.node r p.image s.pc) .lost := by
  intro hends
  have hmem := List.mem_of_getElem? hs
  rcases sessionStep_lost hends with hpc | ⟨hpc, hremoved⟩ | ⟨hpc, q, hq, hconnection⟩
  · exact h.opened s hmem hpc
  · rw [(h.inProgress hmem (by simp [hpc])).2] at hremoved
    exact absurd hremoved (by simp)
  · have hdone : s.pc ≠ .done := by
      rcases hpc with ⟨total, hpc⟩ | hpc <;> simp [hpc]
    obtain ⟨q', hq', _, hk⟩ := h.sound.wired k s hs hdone
    obtain rfl := Block.node.inj (Option.some.inj (hq'.symm.trans hq))
    exact hconnection k hk

theorem Orderly.step (h : Orderly p os) (hcalm : Calm timer p i) (hmove : Moves timer p i p' o) :
    Orderly p' (os ++ [o]) := by
  cases hmove with
  | stays => exact h.ends h.lost
  | delivered hfr hended _ halive => exact h.delivered hended hfr halive hcalm
  | @handlerEnds t r fr rest e _ hframes hends =>
    refine h.ends fun he => ?_
    obtain rfl := Option.some.inj he
    obtain ⟨_, ⟨pc, rfl⟩, _⟩ := h.sound.handlers t fr (by rw [hframes]; exact List.mem_cons_self)
    exact absurd (frameStep_sighandler_ends hends) sighandlerStep_not_lost
  | handler hended hframes hstep => exact h.handler hended hframes hstep
  | mainEnds _ _ hends =>
    refine h.ends fun he => ?_
    obtain rfl := Option.some.inj he
    obtain ⟨hpc, hl⟩ := mainStep_lost hends
    exact ((h.serving (by rcases hpc with hpc | hpc <;> rw [hpc] <;> rfl)).resolve_left hl).1
  | main hended hmain hmove => exact h.main hended hmain hmove
  | sessionEnds _ _ hs hends =>
    refine h.ends fun he => ?_
    obtain rfl := Option.some.inj he
    exact absurd hends (h.session_not_lost hs)
  | session hended hframes hs hmove => exact h.session hended hframes hs hmove

theorem BetweenSessions.calm (h : BetweenSessions p i) : Calm false p i := by
  rintro sig t rfl hregistered
  have hsig : sig ≠ .sigalrm := by
    rintro rfl
    exact absurd hregistered (by simp [registered])
  exact ⟨hsig, h sig t rfl hsig⟩

/-- Signals between sessions leave the server in order. -/
theorem orderly_run {is : List Input} (h : (process false).Along BetweenSessions .start is)
    (hrun : (process false).run .start is = some (p, os)) : Orderly p os :=
  (process false).along_keeps (fun _ _ _ _ _ h hbetween hstep => h.step hbetween.calm (step_moves hstep)) []
    orderly_start h hrun

theorem Orderly.freedUntouched (h : Orderly p os) : FreedUntouched p os := by
  intro k s _ _ hs b hb hfreed
  by_cases hdone : s.pc = .done
  · rw [hdone] at hb
    exact absurd hb (by simp [SessionPc.touches])
  · exact (h.sound.holding k s hs).alive (h.sound.wired k s hs hdone) hb (h.freed b hfreed).2

theorem Orderly.noneAbandoned (h : Orderly p os) : NoneAbandoned p os := by
  intro hlost k s hs _
  have hholding := h.sound.holding k s hs
  rw [h.lost hlost s (List.mem_of_getElem? hs)] at hholding
  obtain ⟨_, before, _, response, _, _, _, _, _, hcalls⟩ := hholding
  exact ⟨response, by simp [hcalls]⟩

end Orderly

/-- A server that SIGINT and SIGTERM find between sessions leaves no session with freed
memory or without its response. -/
theorem shutdown_safe_between_sessions (is : List Input)
    (h : (process false).Along BetweenSessions .start is) : ShutdownSafe is := by
  rintro js ⟨later, rfl⟩ p os hrun
  have horderly := orderly_run ((process false).along_append.mp h).1 hrun
  exact ⟨horderly.freedUntouched, horderly.noneAbandoned⟩

/-- SIGINT reaches main in accept after its only session has sent its response. -/
theorem shutdown_safe_after_session :
    ShutdownSafe ((startUp false ++ accepting 4 ++ List.replicate 4 (.ok .main 0) ++
      serving 0 5 [97, 10] [97, 10]) ++ .signal .sigint .main :: List.replicate 11 (.ok .main 0)) := by
  refine shutdown_safe_between_sessions _
    ((process false).along_append.mpr ⟨?_, fun p os hrun => ⟨?_, fun s o _ => ?_⟩⟩)
  · refine (process false).along_of_forall (fun i hi s sig t ht => ?_) _
    simp [startUp, accepting, serving, Input.ok, ht] at hi
  · have heval : ((process false).run .start (startUp false ++ accepting 4 ++ List.replicate 4 (.ok .main 0) ++
        serving 0 5 [97, 10] [97, 10])).map (fun q => (q.1.sessions, q.1.main)) =
          some ([⟨.done, 0⟩], .accept) := by
      decide +kernel
    rw [hrun] at heval
    obtain ⟨hsessions, hmain⟩ := Prod.mk.inj (Option.some.inj heval)
    exact fun _ _ _ _ => ⟨by simp [show p.sessions = _ from hsessions], by rw [show p.main = _ from hmain]; rfl⟩
  · refine (process false).along_of_forall (fun i hi s sig t ht => ?_) _
    simp [Input.ok, ht] at hi

/-- SIGINT reaches a session in its first recv: the node and the buffer that recv is given
are freed, and main's next accept ends the process. -/
theorem signal_in_recv_not_safe :
    ¬ShutdownSafe (startUp false ++ accepting 4 ++ List.replicate 4 (.ok .main 0) ++
      List.replicate 3 (.ok (.session 0) 0) ++ .signal .sigint (.session 0) ::
        List.replicate 10 (.ok (.session 0) 0)) := by
  intro h
  have heval : ((process false).run .start (startUp false ++ accepting 4 ++ List.replicate 4 (.ok .main 0) ++
      List.replicate 3 (.ok (.session 0) 0) ++ .signal .sigint (.session 0) ::
        List.replicate 10 (.ok (.session 0) 0))).map
      (fun q => (q.1.ended, q.1.frames (.session 0), q.1.sessions[0]?, freedByHandlers q.2)) =
        some (none, [], some ⟨.recv 0, 0⟩, [1, 0]) := by
    decide +kernel
  obtain ⟨⟨p, os⟩, hrun, hp⟩ := Option.map_eq_some_iff.mp heval
  obtain ⟨hended, hp⟩ := Prod.mk.inj hp
  obtain ⟨hframes, hp⟩ := Prod.mk.inj hp
  obtain ⟨hs, hfreed⟩ := Prod.mk.inj hp
  refine (h _ List.prefix_rfl p os hrun).1 0 _ hended hframes hs 0 List.mem_cons_self ?_
  rw [show freedByHandlers os = _ from hfreed]
  simp

end Aesd.Server
