import Aesd.Server.Reaping
import Aesd.Server.Shutdown

/-! Which descriptors sighandler closes. It closes the numbers in fptr, sockfd and
accepted_sockfd; fptr is the number of a descriptor that has been closed, and which may
have become that of a connection, and accepted_sockfd knows only the last connection. -/
namespace Aesd.Server
open Aesd.Foundations Aesd.Driver

/-- The descriptor of the store that a session has open, of its own writing or in read_file. -/
def SessionPc.storeFd (fptr : Int) : SessionPc → Option Int
  | .write _ | .freeRecv _ | .nullRecv _ | .closeStore _ => some fptr
  | .mallocRead fd | .read fd _ _ | .closeRead fd => some fd
  | _ => none

def closedByHandlers (os : Trace) : List Int :=
  os.filterMap fun
    | some (.handler _, .close fd) => some fd
    | _ => none

/-- A signal to the thread t and sighandler's first three statements. -/
def delivery (sig : Signal) (t : Tid) (r : Reply) : List Input := .signal sig t :: List.replicate 3 (.step t r)

/-- Each descriptor that the server has opened and not closed is closed once, and nothing
else is; what is closed through fptr is not a connection. -/
structure ClosesEach (g : Image) (closed : List Int) : Prop where
  each : ∀ fd d, g.fds fd = some d → d ≠ .inherited → closed.count fd = 1
  own : ∀ fd ∈ closed, ∃ d, g.fds fd = some d ∧ d ≠ .inherited
  store : g.fptr ≠ -1 → ∀ c, g.fds g.fptr ≠ some (.connection c)

/-- The server has come from its start to p, with no session between an open and its
close, where SIGINT and SIGTERM can be delivered to t. -/
structure Interrupted (timer : Bool) (is : List Input) (p : Proc) (t : Tid) : Prop where
  steps : ∀ i ∈ is, i.isStep = true
  reached : ∃ os, (process timer).run .start is = some (p, os)
  running : p.ended = none
  registered : p.main ≠ .register
  alive : p.alive t = true
  outside : ∀ s ∈ p.sessions, s.pc.storeFd p.image.fptr = none

/-- sighandler, where a signal starts it now, closes each descriptor. -/
def Disciplined (timer : Bool) (p : Proc) (sig : Signal) (t : Tid) (r : Reply) : Prop :=
  ∃ q ws, (process timer).run p (delivery sig t r) = some (q, ws) ∧ ClosesEach p.image (closedByHandlers ws)

/-- The last open has failed, and the last connection accepted is the only one open. -/
def OnlyLastOpen (g : Image) : Prop :=
  g.fptr = -1 ∧ (∃ c, g.fds g.acceptedSockfd = some (.connection c)) ∧
    ∀ fd c, g.fds fd = some (.connection c) → fd = g.acceptedSockfd

/-- Which descriptors are open between signals: the listening socket at sockfd, the store
for whoever is using it, connections once main is in its loop. -/
structure Numbered (p : Proc) : Prop where
  listening : ∀ f, p.image.fds f = some .listening ↔ f = p.image.sockfd ∧ p.main.bound = true
  inherited : p.image.fds 0 = some .inherited
  starting : p.main.starting = true → p.image.acceptedSockfd = 0 ∧ ∀ f c, p.image.fds f ≠ some (.connection c)
  creating : p.main = .createClose → p.image.fds p.image.fptr = some .store
  store : ∀ f, p.image.fds f = some .store →
    p.main = .createClose ∧ f = p.image.fptr ∨ ∃ s ∈ p.sessions, s.pc.storeFd p.image.fptr = some f

section Moves
variable {timer : Bool} {n node : Nat} {finished : Nat → Bool} {me : Tid} {g g' : Image} {act : Option Act}
  {f : Int}

private theorem opened_eq_some {fds : Int → Option Desc} {fd : Int} {d e : Desc}
    (h : Function.update fds fd (some d) f = some e) : f = fd ∧ d = e ∨ f ≠ fd ∧ fds f = some e := by
  by_cases hf : f = fd
  · subst hf
    rw [Function.update_self] at h
    exact .inl ⟨rfl, Option.some.inj h⟩
  · rw [Function.update_of_ne hf] at h
    exact .inr ⟨hf, h⟩

/-- A session opens the store for itself alone and does not leave it open. -/
theorem SessionMove.store {pc pc' : SessionPc} (h : SessionMove me node g pc pc' g' act)
    (hf : g'.fds f = some .store) :
    pc'.storeFd g'.fptr = some f ∨ g.fds f = some .store ∧ pc.storeFd g.fptr ≠ some f := by
  -- the descriptor stays with the session from its open to its close
  have keeps : ∀ fd : Int, pc.storeFd g.fptr = some fd → pc'.storeFd g'.fptr = some fd → g'.fds = g.fds →
      pc'.storeFd g'.fptr = some f ∨ g.fds f = some .store ∧ pc.storeFd g.fptr ≠ some f := by
    intro fd hpc hpc' hfds
    rw [hfds] at hf
    by_cases hfd : fd = f
    · exact .inl (by rw [hpc', hfd])
    · exact .inr ⟨hf, by simpa [hpc] using hfd⟩
  cases h with
  | openAppend | openRead =>
    rcases opened_eq_some hf with ⟨rfl, _⟩ | ⟨_, hf⟩
    · exact .inl rfl
    · exact .inr ⟨hf, by simp [SessionPc.storeFd]⟩
  | closeStore | closeRead =>
    obtain ⟨hne, hf⟩ := Image.closeFd_eq_some.mp hf
    exact .inr ⟨hf, by simpa [SessionPc.storeFd] using Ne.symm hne⟩
  | closeSocket => exact .inr ⟨(Image.closeFd_eq_some.mp hf).2, by simp [SessionPc.storeFd]⟩
  | freeRecv hfree =>
    have hfptr := congrArg Image.fptr (Image.free_frame hfree)
    have hfds := congrArg Image.fds (Image.free_frame hfree)
    exact keeps _ rfl (by rw [SessionPc.storeFd, hfptr]) hfds
  | freeRead hfree =>
    have hfds := congrArg Image.fds (Image.free_frame hfree)
    rw [hfds] at hf
    exact .inr ⟨hf, by simp [SessionPc.storeFd]⟩
  | write | nullRecv | mallocRead => exact keeps _ rfl rfl rfl
  | @read fd | @readClosed fd => exact keeps fd rfl (by split <;> rfl) rfl
  | _ => exact .inr ⟨hf, by simp [SessionPc.storeFd]⟩

/-- main opens the store to create it, and closes it at once. -/
theorem MainMove.store {pc pc' : MainPc} (h : MainMove timer n finished g pc pc' g' act)
    (hf : g'.fds f = some .store) :
    pc' = .createClose ∧ f = g'.fptr ∨ g.fds f = some .store ∧ ¬(pc = .createClose ∧ f = g.fptr) := by
  cases h with
  | socket | accept =>
    obtain ⟨_, hf⟩ := (opened_eq_some hf).resolve_left (by simp)
    exact .inr ⟨hf, by simp⟩
  | createOpen =>
    rcases opened_eq_some hf with ⟨rfl, _⟩ | ⟨_, hf⟩
    · exact .inl ⟨rfl, rfl⟩
    · exact .inr ⟨hf, by simp⟩
  | createClose =>
    obtain ⟨hne, hf⟩ := Image.closeFd_eq_some.mp hf
    exact .inr ⟨hf, by simpa using hne⟩
  | _ => exact .inr ⟨hf, by simp⟩

/-- main has no socket but the one in sockfd, which it opens once. -/
theorem MainMove.listens {pc pc' : MainPc} (h : MainMove timer n finished g pc pc' g' act)
    (hbefore : ∀ f, g.fds f = some .listening → f = g.sockfd ∧ pc.bound = true)
    (hf : g'.fds f = some .listening) : f = g'.sockfd ∧ pc'.bound = true := by
  cases h with
  | socket =>
    rcases opened_eq_some hf with ⟨rfl, _⟩ | ⟨_, hf⟩
    · exact ⟨rfl, rfl⟩
    · exact absurd (hbefore f hf).2 (by simp [MainPc.bound])
  | createOpen | accept =>
    obtain ⟨_, hf⟩ := (opened_eq_some hf).resolve_left (by simp)
    exact ⟨(hbefore f hf).1, rfl⟩
  | createClose => exact ⟨(hbefore f (Image.closeFd_eq_some.mp hf).2).1, rfl⟩
  | register | getAddressInfo | resetAccepted => exact absurd (hbefore f hf).2 (by simp [MainPc.bound])
  | initMutex | visit => exact ⟨(hbefore f hf).1, by split <;> rfl⟩
  | _ => exact ⟨(hbefore f hf).1, rfl⟩

/-- What main has open before its loop, beside its socket and the store. -/
theorem MainMove.starts {pc pc' : MainPc} (h : MainMove timer n finished g pc pc' g' act)
    (hstart : pc'.starting = true)
    (hbefore : g.acceptedSockfd = 0 ∧ ∀ f c, g.fds f ≠ some (.connection c)) :
    g'.acceptedSockfd = 0 ∧ ∀ f c, g'.fds f ≠ some (.connection c) := by
  cases h with
  | socket | createOpen =>
    refine ⟨hbefore.1, fun f c hf => ?_⟩
    exact hbefore.2 f c ((opened_eq_some hf).resolve_left (by simp)).2
  | createClose => exact ⟨hbefore.1, fun f c hf => hbefore.2 f c (Image.closeFd_eq_some.mp hf).2⟩
  | resetAccepted => exact ⟨rfl, hbefore.2⟩
  | accept => exact absurd hstart (by simp [MainPc.starting])
  | _ => exact hbefore

/-- main closes only the store. -/
theorem MainMove.inherits {pc pc' : MainPc} (h : MainMove timer n finished g pc pc' g' act)
    (hcreating : pc = .createClose → g.fds g.fptr = some .store) (hf : g.fds f = some .inherited) :
    g'.fds f = some .inherited := by
  cases h with
  | socket _ hfree | createOpen _ hfree | accept _ _ hfree =>
    exact (update_eq_some_iff (by simp [hfree]) (by simp) f).mpr hf
  | createClose => exact (update_eq_some_iff (by simp [hcreating rfl]) (by simp) f).mpr hf
  | _ => exact hf

theorem MainMove.fptr {pc pc' : MainPc} (h : MainMove timer n finished g pc pc' g' act)
    (hloop : pc.starting = false) : g'.fptr = g.fptr := by
  cases h with
  | createOpen | createFailed => exact absurd hloop (by simp [MainPc.starting])
  | _ => rfl

end Moves

section Numbered
variable {timer : Bool} {p p' : Proc} {os : Trace} {t : Tid} {r : Reply} {o : Option (Actor × Act)} {g : Image}
  {act : Option Act} {k : Nat} {s : SessionThread}

theorem numbered_start : Numbered Proc.start := by
  refine ⟨fun f => ?_, rfl, fun _ => ⟨rfl, fun f c => ?_⟩, fun h => ?_, fun f hf => ?_⟩
  · simp only [Proc.start, Image.initial, MainPc.bound]
    split <;> simp
  · simp only [Proc.start, Image.initial]
    split <;> simp
  · exact absurd h (by simp [Proc.start])
  · simp only [Proc.start, Image.initial] at hf
    split at hf <;> simp at hf

theorem Numbered.main {pc : MainPc} (h : Numbered p) (hsound : Sound p os)
    (hmove : MainMove timer p.sessions.length p.finished p.image p.main pc g act) :
    Numbered { p with image := g, main := pc, sessions := p.sessions ++ p.main.created } := by
  refine ⟨fun f => ⟨hmove.listens fun f => (h.listening f).mp, ?_⟩, hmove.inherits h.creating h.inherited,
    fun hstart => hmove.starts hstart (h.starting (hmove.mutex.2 hstart).1), hmove.creating, fun f hf => ?_⟩
  · rintro ⟨rfl, hbound⟩
    rcases hmove.bound hbound with hbefore | hlistening
    · refine hmove.listening hbefore (fun hpc => by simp [h.creating hpc]) ((h.listening _).mpr ⟨rfl, hbefore⟩)
    · exact hlistening
  · rcases hmove.store hf with hcreating | ⟨hf, hnot⟩
    · exact .inl hcreating
    · obtain ⟨s, hs, hfd⟩ := (h.store f hf).resolve_left hnot
      refine .inr ⟨s, List.mem_append_left _ hs, ?_⟩
      rw [show g.fptr = p.image.fptr from hmove.fptr (hsound.guarded.running hs), hfd]

theorem critical_of_storeFd {pc : SessionPc} {fptr f : Int} (h : pc.storeFd fptr = some f) :
    pc.critical = true := by
  cases pc <;> first | rfl | exact absurd h (by simp [SessionPc.storeFd])

theorem Numbered.session {pc : SessionPc} (h : Numbered p) (hsound : Sound p os)
    (hframes : p.frames (.session k) = []) (hs : p.sessions[k]? = some s)
    (hmove : SessionMove (.session k) s.node p.image s.pc pc g act) :
    Numbered { p with image := g, sessions := p.sessions.set k ⟨pc, s.node⟩ } := by
  have hk := (List.getElem?_eq_some_iff.mp hs).1
  have hwired := hsound.wired k s hs hmove.not_done
  have hspares := (hsound.holding k s hs).spares hmove hwired hsound.fresh
  have hrunning := hsound.guarded.running (List.mem_of_getElem? hs)
  refine ⟨fun f => ?_, (hspares.fds 0 _ (by simp) (.inl (by simp))).mpr h.inherited, fun hstart => ?_,
    fun hpc => ?_, fun f hf => .inr ?_⟩
  · rw [show g.sockfd = _ from hspares.sockfd]
    exact (hspares.fds f _ (by simp) (.inl (by simp))).trans (h.listening f)
  · exact absurd (hrunning.symm.trans hstart) (by simp)
  · rw [show p.main = _ from hpc] at hrunning
    exact absurd hrunning (by simp [MainPc.starting])
  · rcases hmove.store hf with hmine | ⟨hf, hnot⟩
    · exact ⟨_, List.mem_set hk .., hmine⟩
    · obtain ⟨u, hu, hfd⟩ := (h.store f hf).resolve_left (by
        rintro ⟨hpc, _⟩
        rw [hpc] at hrunning
        exact absurd hrunning (by simp [MainPc.starting]))
      obtain ⟨j, hj⟩ := List.mem_iff_getElem?.mp hu
      have hjk : j ≠ k := by
        rintro rfl
        obtain rfl := Option.some.inj (hs.symm.trans hj)
        exact hnot hfd
      -- the session that has the store open has the mutex, and session k leaves it fptr
      obtain ⟨hout, hout'⟩ := hsound.guarded.others hframes hs hmove hjk hj (critical_of_storeFd hfd)
      refine ⟨u, List.mem_of_getElem? (i := j) ?_, ?_⟩
      · rw [List.getElem?_set_ne (Ne.symm hjk), hj]
      · rw [(hmove.undisturbed hwired hout hout').fptr, hfd]

theorem Numbered.step (h : Numbered p) (hsound : Sound p os) (hquiet : ∀ t, p.frames t = [])
    (hmove : Moves timer p (.step t r) p' o) : Numbered p' := by
  cases hmove with
  | stays => exact h
  | handlerEnds _ hframes | handler _ hframes =>
    rw [hquiet] at hframes
    exact absurd hframes (by simp)
  | mainEnds | sessionEnds => exact ⟨h.listening, h.inherited, h.starting, h.creating, h.store⟩
  | main _ _ hmove => exact h.main hsound hmove
  | session _ hframes hs hmove => exact h.session hsound hframes hs hmove

/-- In a run without signals the open descriptors are where the globals and the threads say. -/
theorem numbered_run {is : List Input} (hsteps : ∀ i ∈ is, i.isStep = true)
    (hrun : (process timer).run .start is = some (p, os)) : Numbered p ∧ ∀ t, p.frames t = [] := by
  have hkeeps := (process timer).along_keeps (I := fun p os => Sound p os ∧ Listed p ∧ Numbered p)
    (fun p os i p' o h hi hs => ?_) [] ⟨sound_start, listed_start, numbered_start⟩ (along_steps hsteps _) hrun
  · exact ⟨hkeeps.2.2, hkeeps.2.1.quiet⟩
  · have hmove := step_moves hs
    obtain ⟨t, r, rfl⟩ := step_of_isStep hi
    exact ⟨h.1.step (calm_step p hi) hmove, h.2.1.step h.1 hmove, h.2.2.step h.1 h.2.1.quiet hmove⟩

end Numbered

section Delivery
variable (timer : Bool) {p : Proc} {t : Tid} {r : Reply} {g : Image} {act : Option Act}

def Image.closes (g : Image) : List Int :=
  (if g.fptr ≠ -1 then [g.fptr] else []) ++ [g.sockfd, g.acceptedSockfd]

theorem closedByHandlers_cons (o : Option (Actor × Act)) (os : Trace) :
    closedByHandlers (o :: os) = closedByHandlers [o] ++ closedByHandlers os :=
  by rw [closedByHandlers, closedByHandlers, closedByHandlers, ← List.filterMap_append, List.singleton_append]

/-- A statement of sighandler on the thread. -/
theorem step_handler {pc : SighandlerPc} {rest : List Frame} {next : Option SighandlerPc}
    (hended : p.ended = none) (hframes : p.frames t = .sighandler pc :: rest)
    (hstep : sighandlerStep r p.image pc = .ok (.next next g act)) :
    ∃ p', (process timer).step p (.step t r) = some (p', act.map fun a => (.handler t, a)) ∧ p'.ended = none ∧
      p'.image = g ∧ p'.frames t = (next.map Frame.sighandler).toList ++ rest := by
  have hframe : frameStep t r p.image (.sighandler pc) = .ok (.next (next.map .sighandler) g act) := by
    simp only [frameStep, hstep, Except.map, Outcome.map]
  refine ⟨{ p with
    image := g
    frames := Function.update p.frames t ((next.map Frame.sighandler).toList ++ rest) },
    ?_, hended, rfl, Function.update_self ..⟩
  simp only [process, Proc.step, hframes, hframe, Proc.settle]
  rw [if_neg (by simp [hended])]

/-- A signal starts sighandler on the thread. -/
theorem step_delivered {sig : Signal} (hsig : sig ≠ .sigalrm) (hended : p.ended = none)
    (hmain : p.main ≠ .register) (halive : p.alive t = true) :
    ∃ p', (process timer).step p (.signal sig t) = some (p', none) ∧ p'.ended = none ∧ p'.image = p.image ∧
      p'.frames t = .sighandler .closeFptr :: p.frames t := by
  have hregistered : registered timer sig = some (.sighandler .closeFptr) := by
    cases sig with
    | sigalrm => exact absurd rfl hsig
    | sigint | sigterm => rfl
  refine ⟨{ p with frames := Function.update p.frames t (.sighandler .closeFptr :: p.frames t) },
    ?_, hended, rfl, Function.update_self ..⟩
  simp only [process, Proc.step, hregistered]
  rw [if_pos ⟨hended, hmain, halive⟩]

/-- sighandler's first statement closes fptr where the last open succeeded. -/
theorem closeFptr_closes (r : Reply) (g : Image) (t : Tid) :
    ∃ g' act, sighandlerStep r g .closeFptr = .ok (.next (some .closeSockfd) g' act) ∧ g'.sockfd = g.sockfd ∧
      g'.acceptedSockfd = g.acceptedSockfd ∧
        closedByHandlers [act.map fun a => (.handler t, a)] = if g.fptr ≠ -1 then [g.fptr] else [] := by
  by_cases hfptr : g.fptr = -1
  · exact ⟨g, none, by simp [sighandlerStep, hfptr], rfl, rfl, by simp [closedByHandlers, hfptr]⟩
  · exact ⟨g.closeFd g.fptr, some (.close g.fptr), by simp [sighandlerStep, hfptr], rfl, rfl,
      by simp [closedByHandlers, hfptr]⟩

/-- A delivered signal has closed the three numbers when sighandler comes to its frees. -/
theorem delivery_run {sig : Signal} (hsig : sig ≠ .sigalrm) (hended : p.ended = none)
    (hmain : p.main ≠ .register) (halive : p.alive t = true) (r : Reply) :
    ∃ q ws, (process timer).run p (delivery sig t r) = some (q, ws) ∧
      closedByHandlers ws = p.image.closes := by
  obtain ⟨p₁, hstep₁, hended₁, himage₁, hframes₁⟩ := step_delivered timer hsig hended hmain halive
  obtain ⟨g, act, hfirst, hsockfd, haccepted, hclosed⟩ := closeFptr_closes r p₁.image t
  obtain ⟨p₂, hstep₂, hended₂, rfl, hframes₂⟩ := step_handler timer hended₁ hframes₁ hfirst
  obtain ⟨p₃, hstep₃, hended₃, himage₃, hframes₃⟩ := step_handler timer (r := r) hended₂ hframes₂ rfl
  obtain ⟨p₄, hstep₄, _⟩ := step_handler timer (r := r) hended₃ hframes₃ rfl
  refine ⟨p₄, [none, act.map fun a => (.handler t, a), some (.handler t, .close p₂.image.sockfd),
    some (.handler t, .close p₃.image.acceptedSockfd)], ?_, ?_⟩
  · simp only [delivery, List.replicate, Machine.run_cons, hstep₁, hstep₂, hstep₃, hstep₄, Option.bind_some,
      Machine.run_nil, Option.map_some]
  · rw [closedByHandlers_cons, closedByHandlers_cons (act.map _), hclosed, Image.closes, himage₃, ← himage₁,
      ← hsockfd, ← haccepted]
    rfl

end Delivery

section Closes
variable {p : Proc} {f : Int} {c : Nat}

private theorem Numbered.store_of_outside (h : Numbered p)
    (hout : ∀ s ∈ p.sessions, s.pc.storeFd p.image.fptr = none) (hf : p.image.fds f = some .store) :
    p.main = .createClose := by
  rcases h.store f hf with ⟨hpc, _⟩ | ⟨s, hs, hfd⟩
  · exact hpc
  · rw [hout s hs] at hfd
    exact absurd hfd (by simp)

private theorem Numbered.accepted_inherited (h : Numbered p) (hstart : p.main.starting = true) :
    p.image.fds p.image.acceptedSockfd = some .inherited := by
  rw [(h.starting hstart).1]
  exact h.inherited

private theorem Numbered.bound (h : Numbered p) (hf : p.image.fds f = some (.connection c)) :
    p.image.fds p.image.sockfd = some .listening := by
  refine (h.listening _).mpr ⟨rfl, bound_of_stored (stored_of_running ?_)⟩
  by_contra hstart
  exact (h.starting (by simpa using hstart)).2 f c hf

theorem accepted_mem_closes (g : Image) : g.acceptedSockfd ∈ g.closes := by simp [Image.closes]

theorem Numbered.onlyLastOpen (h : Numbered p) (hout : ∀ s ∈ p.sessions, s.pc.storeFd p.image.fptr = none)
    (hcloses : ClosesEach p.image p.image.closes) : OnlyLastOpen p.image := by
  obtain ⟨d, hd, hown⟩ := hcloses.own _ (accepted_mem_closes p.image)
  have hrunning : p.main.starting = false := by
    by_contra hstart
    rw [h.accepted_inherited (by simpa using hstart)] at hd
    exact hown (Option.some.inj hd).symm
  -- nobody has the store open now
  have hstore : ∀ f, p.image.fds f ≠ some .store := by
    intro f hf
    rw [h.store_of_outside hout hf] at hrunning
    exact absurd hrunning (by simp [MainPc.starting])
  have hlistening := (h.listening p.image.sockfd).mpr ⟨rfl, bound_of_stored (stored_of_running hrunning)⟩
  have honce := hcloses.each _ _ hlistening (by simp)
  -- sockfd itself is one of the numbers closed, so the other two are not the same
  have hfptr : p.image.fptr = -1 := by
    by_contra hfptr
    obtain ⟨e, he, hown'⟩ := hcloses.own p.image.fptr (by simp [Image.closes, hfptr])
    cases e with
    | inherited => exact hown' rfl
    | store => exact hstore _ he
    | connection c => exact hcloses.store hfptr c he
    | listening =>
      have hsame := ((h.listening _).mp he).1
      rw [hsame] at hfptr
      simp [Image.closes, hsame, hfptr] at honce
  have hcloses' : p.image.closes = [p.image.sockfd, p.image.acceptedSockfd] := by simp [Image.closes, hfptr]
  rw [hcloses'] at honce
  have hne : p.image.acceptedSockfd ≠ p.image.sockfd := by
    intro hsame
    rw [hsame] at honce
    simp at honce
  refine ⟨hfptr, ?_, fun f c hf => ?_⟩
  · cases d with
    | inherited => exact absurd rfl hown
    | store => exact absurd hd (hstore _)
    | listening => exact absurd ((h.listening _).mp hd).1 hne
    | connection c => exact ⟨c, hd⟩
  · have hcount := hcloses.each f _ hf (by simp)
    have hmem : f ∈ p.image.closes := List.count_pos_iff.mp (by omega)
    rw [hcloses'] at hmem
    rcases List.mem_cons.mp hmem with rfl | hmem
    · exact absurd (hlistening.symm.trans hf) (by simp)
    · exact List.mem_singleton.mp hmem

theorem Numbered.closesEach (h : Numbered p) (hout : ∀ s ∈ p.sessions, s.pc.storeFd p.image.fptr = none)
    (hlast : OnlyLastOpen p.image) : ClosesEach p.image p.image.closes := by
  obtain ⟨hfptr, ⟨c, hc⟩, honly⟩ := hlast
  have hlistening := h.bound hc
  have hne : p.image.sockfd ≠ p.image.acceptedSockfd := by
    intro hsame
    rw [hsame, hc] at hlistening
    exact absurd hlistening (by simp)
  have hcloses : p.image.closes = [p.image.sockfd, p.image.acceptedSockfd] := by simp [Image.closes, hfptr]
  rw [hcloses]
  refine ⟨fun f d hf hown => ?_, fun f hf => ?_, fun hnot => absurd hfptr hnot⟩
  · cases d with
    | inherited => exact absurd rfl hown
    | listening =>
      rw [((h.listening f).mp hf).1]
      simp [hne]
    | store =>
      have hpc := h.store_of_outside hout hf
      exact absurd hc ((h.starting (by rw [hpc]; rfl)).2 _ c)
    | connection c' =>
      rw [honly f c' hf, List.count_cons_of_ne hne, List.count_singleton_self]
  · rcases List.mem_cons.mp hf with rfl | hf
    · exact ⟨_, hlistening, by simp⟩
    · rw [List.mem_singleton.mp hf]
      exact ⟨_, hc, by simp⟩

end Closes

/-- Where the server is interrupted, sighandler closes what is open, each descriptor once and
nothing else, exactly if the last open has failed and the last connection accepted is the
only one open. -/
theorem disciplined_iff (timer : Bool) (is : List Input) (p : Proc) (t : Tid) (h : Interrupted timer is p t)
    (sig : Signal) (hsig : sig ≠ .sigalrm) (r : Reply) :
    Disciplined timer p sig t r ↔ OnlyLastOpen p.image := by
  obtain ⟨os, hrun⟩ := h.reached
  obtain ⟨hnumbered, _⟩ := numbered_run h.steps hrun
  obtain ⟨q, ws, hdelivery, hcloses⟩ := delivery_run timer hsig h.running h.registered h.alive r
  constructor
  · rintro ⟨q', ws', hdelivery', heach⟩
    obtain ⟨rfl, rfl⟩ := Prod.mk.inj (Option.some.inj (hdelivery.symm.trans hdelivery'))
    rw [hcloses] at heach
    exact hnumbered.onlyLastOpen h.outside heach
  · intro hlast
    refine ⟨q, ws, hdelivery, ?_⟩
    rw [hcloses]
    exact hnumbered.closesEach h.outside hlast

private def firstOpen : List Input :=
  startUp false ++ accepting 4 ++ List.replicate 3 (.ok (.session 0) 0) ++
    .step (.session 0) ⟨true, 0, 0, [10]⟩ :: List.replicate 2 (.ok (.session 0) 0)

set_option maxRecDepth 100000 in
/-- SIGINT reaches the session after its open has failed. -/
theorem disciplined_after_failed_open :
    ∃ p, Interrupted false (firstOpen ++ [.step (.session 0) ⟨false, 0, 0, []⟩]) p (.session 0) ∧
      Disciplined false p .sigint (.session 0) ⟨true, 0, 0, []⟩ := by
  have heval : ((process false).run .start (firstOpen ++ [.step (.session 0) ⟨false, 0, 0, []⟩])).map
      (fun q => (q.1.ended, q.1.main, q.1.sessions, q.1.image.fptr, q.1.image.acceptedSockfd, q.1.image.fds)) =
        some (none, .first, [⟨.openFailed .failed, 0⟩], -1, 4,
          Function.update (Function.update (Function.update (Function.update Image.initial.fds
            3 (some .listening)) 4 (some .store)) 4 none) 4 (some (.connection 0))) := rfl
  obtain ⟨⟨p, os⟩, hrun, hp⟩ := Option.map_eq_some_iff.mp heval
  obtain ⟨hended, hp⟩ := Prod.mk.inj hp
  obtain ⟨hmain, hp⟩ := Prod.mk.inj hp
  obtain ⟨hsessions, hp⟩ := Prod.mk.inj hp
  obtain ⟨hfptr, hp⟩ := Prod.mk.inj hp
  obtain ⟨haccepted, hfds⟩ := Prod.mk.inj hp
  dsimp only at hended hmain hsessions hfptr haccepted hfds
  have hinterrupted : Interrupted false (firstOpen ++ [.step (.session 0) ⟨false, 0, 0, []⟩]) p (.session 0) :=
    ⟨by decide, ⟨os, hrun⟩, hended, by simp [hmain], by simp [Proc.alive, hsessions],
      by simp [hsessions, SessionPc.storeFd]⟩
  refine ⟨p, hinterrupted,
    (disciplined_iff false _ p _ hinterrupted .sigint (by simp) _).mpr ⟨hfptr, ⟨0, ?_⟩, ?_⟩⟩
  · rw [hfds, haccepted, Function.update_self]
  · intro fd c hfd
    rw [hfds] at hfd
    rw [haccepted]
    by_contra hne
    rw [Function.update_of_ne hne, Function.update_of_ne hne, Function.update_of_ne hne] at hfd
    rcases opened_eq_some hfd with ⟨_, hsame⟩ | ⟨_, hfd⟩
    · exact absurd hsame (by simp)
    · simp only [Image.initial] at hfd
      split at hfd <;> simp at hfd

/-- SIGINT reaches main in accept with one session waiting for its packet. create_new_file
had the number of its connection before it, and fptr still has it. -/
theorem stale_fptr_not_disciplined :
    ∃ p, Interrupted false (startUp false ++ accepting 4 ++ List.replicate 4 (.ok .main 0)) p .main ∧
      ¬Disciplined false p .sigint .main ⟨true, 0, 0, []⟩ := by
  have heval : ((process false).run .start (startUp false ++ accepting 4 ++ List.replicate 4 (.ok .main 0))).map
      (fun q => (q.1.ended, q.1.main, q.1.sessions, q.1.image.closes)) =
        some (none, .accept, [⟨.lock, 0⟩], [4, 3, 4]) := by decide +kernel
  obtain ⟨⟨p, os⟩, hrun, hp⟩ := Option.map_eq_some_iff.mp heval
  obtain ⟨hended, hp⟩ := Prod.mk.inj hp
  obtain ⟨hmain, hp⟩ := Prod.mk.inj hp
  obtain ⟨hsessions, hcloses⟩ := Prod.mk.inj hp
  dsimp only at hended hmain hsessions hcloses
  refine ⟨p, ⟨by decide, ⟨os, hrun⟩, hended, by simp [hmain], rfl, by simp [hsessions, SessionPc.storeFd]⟩, ?_⟩
  rintro ⟨q, ws, hdelivery, heach⟩
  obtain ⟨q', ws', hdelivery', hclosed⟩ := delivery_run false (t := .main)
    (show Signal.sigint ≠ .sigalrm by simp) hended (by simp [hmain]) rfl ⟨true, 0, 0, []⟩
  obtain ⟨rfl, rfl⟩ := Prod.mk.inj (Option.some.inj (hdelivery.symm.trans hdelivery'))
  rw [hclosed, hcloses] at heach
  obtain ⟨d, hd, hown⟩ := heach.own 4 (by simp)
  have honce := heach.each 4 d hd hown
  exact absurd honce (by decide)

end Aesd.Server
