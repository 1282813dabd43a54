import Aesd.Server.SerialSessions

/-! The process over its store with timer_handler at work: SIGALRM interrupts any thread, and
the handler appends its line under the same mutex. What the threads do they do as without
the handlers, which leave nothing behind but fptr and what is in the store. -/
namespace Aesd.Server
open Aesd.Foundations Aesd.Driver
variable {σ : Type}

/-- What the store becomes by a statement of timer_handler, in the frame that is the first one before it. -/
def Shelf.ring (x : Shelf σ) (calls : StoreCalls σ) : Frame → List Frame → Option Act → Option (Shelf σ)
  | .timer (.openStore _), .timer (.write _) :: _, _ => (calls.openAppend x.store).map fun s => ⟨s, x.reads⟩
  | .timer (.write _), _, some (.call (.write .store line)) =>
    (calls.write x.store line).toOption.map fun q => ⟨q.1, x.reads⟩
  | _, _, _ => some x

/-- What it becomes by whatever happens next. -/
def Shelf.meet (x : Shelf σ) (created : σ → σ) (calls : Nat → StoreCalls σ) (tick : StoreCalls σ) (p p' : Proc)
    (o : Option (Actor × Act)) : Input → Option (Shelf σ)
  | .signal _ _ => some x
  | .step t _ =>
    match p.frames t with
    | [] => x.attend created calls p p' o t
    | fr :: _ => x.ring tick fr (p'.frames t) (o.map Prod.snd)

def happenings (os : Trace) : List ((Nat × List Byte) ⊕ List Byte) :=
  os.filterMap fun
    | some (_, .call (.send k response)) => some (.inl (k, response))
    | some (.handler _, .call (.write _ line)) => some (.inr line)
    | _ => none

/-- The server and its store, with signals. The calls of a handler on the store are those of
the tick which is the next thing to happen. -/
def ticking (timer : Bool) (created : σ → σ) (calls ticks : Nat → StoreCalls σ) :
    Machine (Proc × Shelf σ × Nat) Input (Option (Actor × Act)) where
  step s i :=
    ((process timer).step s.1 i).bind fun q =>
      (s.2.1.meet created calls (ticks s.2.2) s.1 q.1 q.2 i).map fun x =>
        ((q.1, x, s.2.2 + (happenings [q.2]).length), q.2)

/-- The only signal with a handler that comes is SIGALRM, and only once main is past init_timer. -/
def Alarmed (timer : Bool) (p : Proc) (i : Input) : Prop :=
  ∀ sig t, i = .signal sig t → (registered timer sig).isSome → sig = .sigalrm ∧ p.main.starting = false

/-- The process as it would be without handlers, and with this image. -/
def Proc.without (p : Proc) (h : Image) : Proc := { p with image := h, frames := fun _ => [] }

def TimerPc.opened : TimerPc → Bool
  | .write _ | .close => true
  | _ => false

def Image.hush (g : Image) (opened : Bool) : Image :=
  { g with mutexLock := none, fds := if opened then Function.update g.fds g.fptr none else g.fds }

/-- The handler on t, somewhere in its thread's frames, is between lock and unlock, and no other is. -/
structure Rings (p : Proc) (t : Tid) (above : List Frame) (pc : TimerPc) (rest : List Frame) : Prop where
  frames : p.frames t = above ++ .timer pc :: rest
  critical : (Frame.timer pc).critical = true
  others : ∀ u fr, fr ∈ Function.update p.frames t (above ++ rest) u → fr.critical = false
  mutex : p.image.mutexLock = some t
  store : pc.opened = true → p.image.fds p.image.fptr = some .store

/-- The store that a handler has found, of which it is this far. -/
def Shelf.Found (y : Shelf σ) (tick : StoreCalls σ) (x : Shelf σ) : TimerPc → Prop
  | .write _ => y.reads = x.reads ∧ tick.openAppend y.store = some x.store
  | _ => y = x

/-- The image and the store that the threads would have without the handlers. -/
inductive Apart (tick : StoreCalls σ) (p : Proc) (x : Shelf σ) : Image → Shelf σ → Prop where
  | free : (∀ t fr, fr ∈ p.frames t → fr.critical = false) → Apart tick p x p.image x
  | held {t : Tid} {above : List Frame} {pc : TimerPc} {rest : List Frame} {y : Shelf σ} : Rings p t above pc rest →
    y.Found tick x pc → Apart tick p x (p.image.hush pc.opened) y

section Ticking
variable {timer : Bool} {created : σ → σ} {calls ticks : Nat → StoreCalls σ} {tick : StoreCalls σ} {p p' : Proc}
  {x x' : Shelf σ} {n n' : Nat} {i : Input} {o : Option (Actor × Act)}

theorem ticking_step_eq_some : (ticking timer created calls ticks).step (p, x, n) i = some ((p', x', n'), o) ↔
    (process timer).step p i = some (p', o) ∧ x.meet created calls (ticks n) p p' o i = some x' ∧
      n' = n + (happenings [o]).length := by
  constructor
  · intro h
    obtain ⟨⟨p₁, o₁⟩, hstep, h⟩ := Option.bind_eq_some_iff.mp h
    obtain ⟨x₁, hmeet, h⟩ := Option.map_eq_some_iff.mp h
    simp only [Prod.mk.injEq] at h
    obtain ⟨⟨rfl, rfl, rfl⟩, rfl⟩ := h
    exact ⟨hstep, hmeet, rfl⟩
  · rintro ⟨hstep, hmeet, rfl⟩
    apply Option.bind_eq_some_iff.mpr
    exact ⟨(p', o), hstep, Option.map_eq_some_iff.mpr ⟨x', hmeet, rfl⟩⟩

theorem ticking_along {P : Proc → Input → Prop} {is : List Input} (hP : (process timer).Along P p is) :
    (ticking timer created calls ticks).Along (fun s i => P s.1 i) (p, x, n) is := by
  apply (ticking timer created calls ticks).along_maps (N := process timer) (f := Prod.fst) (g := id)
    (fun _ _ _ _ hstep => (ticking_step_eq_some.mp hstep).1)
  rwa [List.map_id]

/-- A step after which every thread and every handler is where it was leaves the store. -/
theorem Shelf.meet_stays (x : Shelf σ) (created : σ → σ) (calls : Nat → StoreCalls σ) (tick : StoreCalls σ) (p : Proc)
    (e : Option Ending) (i : Input) : x.meet created calls tick p { p with ended := e } none i = some x := by
  cases i with
  | signal => rfl
  | step t r =>
    simp only [Shelf.meet]
    cases hframes : p.frames t with
    | nil => exact x.attend_stays created calls p e t
    | cons fr rest =>
      cases fr with
      | sighandler pc => rfl
      | timer pc => cases pc <;> rfl

end Ticking

section Hush
variable {g g' : Image} {opened : Bool} {f : Int} {d : Desc}

theorem hush_fds (hstore : opened = true → g.fds g.fptr = some .store) (hd : d ≠ .store) :
    (g.hush opened).fds f = some d ↔ g.fds f = some d := by
  cases opened with
  | false => rfl
  | true => exact update_eq_some_iff (by simpa [hstore rfl] using hd.symm) (by simp) f

theorem hush_unused (h : g.fds f = none) : (g.hush opened).fds f = none := by
  cases opened with
  | false => exact h
  | true => exact update_gone h (.inr rfl)

/-- main, in its loop, does the same without what a handler holds. -/
theorem MainMove.hushed {timer : Bool} {n : Nat} {finished : Nat → Bool} {pc pc' : MainPc} {act : Option Act}
    (hmove : MainMove timer n finished g pc pc' g' act) (hloop : pc.starting = false)
    (hstore : opened = true → g.fds g.fptr = some .store) :
    MainMove timer n finished (g.hush opened) pc pc' (g'.hush opened) act ∧ g'.mutexLock = g.mutexLock ∧
      (opened = true → g'.fds g'.fptr = some .store) := by
  cases hmove with
  | listen hlisten => exact ⟨.listen ((hush_fds hstore (by simp)).mpr hlisten), rfl, hstore⟩
  | @accept fd hlisten hfd hfree =>
    have hne : opened = true → fd ≠ g.fptr := by
      rintro hopened rfl
      exact absurd ((hstore hopened).symm.trans hfree) (by simp)
    refine ⟨?_, rfl, fun hopened => ?_⟩
    · have hfree' : (g.hush opened).fds fd = none := hush_unused hfree
      have hmove : MainMove timer n finished (g.hush opened) .accept .mallocNode _ none :=
        .accept ((hush_fds hstore (by simp)).mpr hlisten) hfd hfree'
      cases opened with
      | false => exact hmove
      | true =>
        simp only [Image.hush, if_true] at hmove ⊢
        rwa [Function.update_comm (hne rfl).symm] at hmove
    · simp only [Function.update_of_ne (hne hopened).symm]
      exact hstore hopened
  | mallocNode => exact ⟨.mallocNode, rfl, hstore⟩
  | setSockfd hq => exact ⟨.setSockfd hq, rfl, hstore⟩
  | setComplete hq => exact ⟨.setComplete hq, rfl, hstore⟩
  | insert => exact ⟨.insert, rfl, hstore⟩
  | create hq => exact ⟨.create hq, rfl, hstore⟩
  | first => exact ⟨.first, rfl, hstore⟩
  | passed => exact ⟨.passed, rfl, hstore⟩
  | visit hq => exact ⟨.visit hq, rfl, hstore⟩
  | join hq hk hfinished => exact ⟨.join hq hk hfinished, rfl, hstore⟩
  | _ => exact absurd hloop (by simp [MainPc.starting])

/-- So does a session, which is outside then. -/
theorem sessionStep_hushed {me : Tid} {node k : Nat} {r : Reply} {pc pc' : SessionPc} {act : Option Act}
    (hstep : sessionStep me node r g pc = .ok (.next pc' g' act)) (hpc : pc.critical = false) {t : Tid}
    (hmutex : g.mutexLock = some t) (hstore : opened = true → g.fds g.fptr = some .store)
    (hwired : Wired (g.hush opened) k node) :
    sessionStep me node r (g.hush opened) pc = .ok (.next pc' (g'.hush opened) act) ∧ g'.mutexLock = g.mutexLock ∧
      (opened = true → g'.fds g'.fptr = some .store) := by
  cases pc with
  | lock =>
    obtain ⟨hfree, _⟩ := lockMutex_next hstep
    exact absurd (hmutex.symm.trans hfree) (by simp)
  | complete =>
    obtain ⟨q, hq, hstep⟩ := bind_eq_ok.mp hstep
    obtain ⟨rfl, rfl, rfl⟩ := Outcome.next.inj (Except.ok.inj hstep)
    exact ⟨bind_eq_ok.mpr ⟨q, hq, rfl⟩, rfl, hstore⟩
  | closeSocket =>
    obtain ⟨q, hq, hstep⟩ := bind_eq_ok.mp hstep
    obtain ⟨rfl, rfl, rfl⟩ := Outcome.next.inj (Except.ok.inj hstep)
    obtain ⟨q', hq', _, hconnection⟩ := hwired
    obtain rfl := Block.node.inj (Option.some.inj ((Image.params_eq_ok.mp hq).symm.trans hq'))
    have hne : opened = true → q.acceptedSockfd ≠ g.fptr := by
      intro hopened hsame
      rw [hsame, hopened] at hconnection
      simp [Image.hush] at hconnection
    refine ⟨bind_eq_ok.mpr ⟨q, hq, ?_⟩, rfl, fun hopened => ?_⟩
    · cases opened with
      | false => rfl
      | true =>
        simp only [Image.hush, Image.closeFd, if_true]
        rw [Function.update_comm (hne rfl)]
        rfl
    · simp only [Image.closeFd, Function.update_of_ne (hne hopened).symm]
      exact hstore hopened
  | done => exact absurd hstep (by simp [sessionStep])
  | _ => exact absurd hpc (by simp [SessionPc.critical])

end Hush

section Rings
variable {p : Proc} {t u : Tid} {above rest below : List Frame} {pc : TimerPc} {fr : Frame} {g : Image}

theorem mem_update {f : Tid → List Frame} {v : Tid} : fr ∈ Function.update f u rest v ↔
    v = u ∧ fr ∈ rest ∨ v ≠ u ∧ fr ∈ f v := by
  by_cases hv : v = u
  · subst hv
    simp
  · simp [hv]

/-- The frames of the handler inside are still there when others come or move on outside. -/
theorem Rings.moved {old new : List Frame} (h : Rings p t above pc rest) (hframes : p.frames u = old ++ below)
    (hold : ∀ fr ∈ old, fr.critical = false) (hnew : ∀ fr ∈ new, fr.critical = false) :
    ∃ above', Rings { p with frames := Function.update p.frames u (new ++ below) } t above' pc rest := by
  by_cases hu : u = t
  · subst hu
    obtain ⟨above', rfl, rfl⟩ : ∃ above', above = old ++ above' ∧ below = above' ++ .timer pc :: rest := by
      rcases List.append_eq_append_iff.mp (hframes.symm.trans h.frames) with hlong | ⟨inner, rfl, hinner⟩
      · exact hlong
      · cases inner with
        | nil => exact ⟨[], by simp, by simpa using hinner.symm⟩
        | cons fr inner =>
          obtain ⟨rfl, _⟩ := List.cons.inj hinner
          exact absurd (h.critical.symm.trans (hold _ (by simp))) (by simp)
    refine ⟨new ++ above', ?_, h.critical, fun v fr hfr => ?_, h.mutex, h.store⟩
    · simp only [Function.update_self, List.append_assoc]
    · rw [Function.update_idem] at hfr
      rcases mem_update.mp hfr with ⟨rfl, hmem⟩ | ⟨hv, hmem⟩
      · rw [List.append_assoc] at hmem
        rcases List.mem_append.mp hmem with hmem | hmem
        · exact hnew fr hmem
        · exact h.others v fr (mem_update.mpr (.inl ⟨rfl, by simp_all⟩))
      · exact h.others v fr (mem_update.mpr (.inr ⟨hv, hmem⟩))
  · refine ⟨above, ?_, h.critical, fun v fr hfr => ?_, h.mutex, h.store⟩
    · simp only [Function.update_of_ne (Ne.symm hu), h.frames]
    · rcases mem_update.mp hfr with ⟨rfl, hmem⟩ | ⟨hv, hthere⟩
      · exact h.others v fr (mem_update.mpr (.inl ⟨rfl, hmem⟩))
      · rcases mem_update.mp hthere with ⟨rfl, hmem⟩ | ⟨_, hmem⟩
        · rcases List.mem_append.mp hmem with hmem | hmem
          · exact hnew fr hmem
          · refine h.others v fr (mem_update.mpr (.inr ⟨hv, ?_⟩))
            rw [hframes]
            exact List.mem_append_right old hmem
        · exact h.others v fr (mem_update.mpr (.inr ⟨hv, hmem⟩))

end Rings

section Apart
variable {tick : StoreCalls σ} {p : Proc} {x x' y : Shelf σ} {h g : Image} {t : Tid} {pc : TimerPc}
  {next : Option TimerPc} {below frames : List Frame} {act : Option Act} {r : Reply}

/-- Only what a handler holds depends on which tick it is. -/
theorem Apart.retick (ha : Apart tick p x h y) (hheld : h.mutexLock ≠ none) (tick' : StoreCalls σ) :
    Apart tick' p x h y := by
  cases ha with
  | free hfree => exact .free hfree
  | held => exact absurd rfl hheld

theorem Apart.ends (ha : Apart tick p x h y) (e : Option Ending) : Apart tick { p with ended := e } x h y := by
  cases ha with
  | free hfree => exact .free hfree
  | held hrings hfound =>
    exact .held ⟨hrings.frames, hrings.critical, hrings.others, hrings.mutex, hrings.store⟩ hfound

theorem Apart.delivered (ha : Apart tick p x h y) {fr : Frame} (hfr : fr.critical = false) (u : Tid) :
    Apart tick { p with frames := Function.update p.frames u (fr :: p.frames u) } x h y := by
  cases ha with
  | free hfree =>
    refine .free fun v fr' hfr' => ?_
    rcases mem_update.mp hfr' with ⟨rfl, hmem⟩ | ⟨_, hmem⟩
    · rcases List.mem_cons.mp hmem with rfl | hmem
      · exact hfr
      · exact hfree v fr' hmem
    · exact hfree v fr' hmem
  | held hrings hfound =>
    have hout : ∀ fr' ∈ [fr], fr'.critical = false := by simpa using hfr
    have hframes : p.frames u = [] ++ p.frames u := rfl
    obtain ⟨above', hrings'⟩ := hrings.moved hframes (by simp) hout
    exact .held hrings' hfound

def Rung (tick : StoreCalls σ) (line : List Byte) (y y' : Shelf σ) : Prop :=
  ∃ s n, tick.openAppend y.store = some s ∧ tick.write s line = .ok (y'.store, n)

theorem Rings.handler (hrings : Rings p t [] pc below) (hfound : y.Found tick x pc)
    (hstep : timerStep t r p.image pc = .ok (.next next g act))
    (hring : x.ring tick (.timer pc) ((next.map Frame.timer).toList ++ below) act = some x') :
    Apart tick { p with image := g, frames := Function.update p.frames t ((next.map Frame.timer).toList ++ below) } x'
        { p.image.hush pc.opened with fptr := g.fptr } y ∧ (∀ d line, act ≠ some (.call (.write d line))) ∨
      ∃ line, act = some (.call (.write .store line)) ∧ Rung tick line y x' ∧ ∀ tick',
        Apart tick' { p with image := g, frames := Function.update p.frames t ((next.map Frame.timer).toList ++ below) }
          x' { p.image.hush pc.opened with fptr := g.fptr } x' := by
  have hothers := hrings.others
  have hrings' : ∀ (pc' : TimerPc) (g : Image), (Frame.timer pc').critical = true → g.mutexLock = some t →
      (pc'.opened = true → g.fds g.fptr = some .store) →
      Rings { p with image := g, frames := Function.update p.frames t (([Frame.timer pc'] : List Frame) ++ below) } t []
        pc' below := by
    intro pc' g hcritical hmutex hstore
    exact ⟨by simp, hcritical, fun v fr hfr => hothers v fr (by rwa [Function.update_idem] at hfr), hmutex, hstore⟩
  cases pc with
  | format | lock => exact absurd hrings.critical (by simp [Frame.critical])
  | openStore time =>
    simp only [timerStep] at hstep
    split at hstep
    · obtain ⟨_, hfree, rfl, rfl, rfl⟩ := openFd_next hstep
      obtain ⟨s, hopen, rfl⟩ := Option.map_eq_some_iff.mp hring
      obtain rfl : y = x := hfound
      refine .inl ⟨?_, by simp⟩
      have hrings₁ := hrings' (.write time)
        { p.image with fds := Function.update p.image.fds r.fd (some .store), fptr := r.fd } rfl hrings.mutex
          fun _ => Function.update_self ..
      have hheld : Apart tick _ ⟨s, y.reads⟩ _ y := .held hrings₁ ⟨rfl, hopen⟩
      simp only [Image.hush, TimerPc.opened, if_true, Function.update_idem] at hheld
      rw [← hfree, Function.update_eq_self] at hheld
      exact hheld
    · obtain ⟨rfl, rfl, rfl⟩ := Outcome.next.inj (Except.ok.inj hstep)
      obtain rfl := Option.some.inj hring
      have hrings₁ := hrings' (.openFailed (openEnding p.image)) { p.image with fptr := -1 } rfl hrings.mutex
        (by simp [TimerPc.opened])
      exact .inl ⟨.held hrings₁ hfound, by simp⟩
  | openFailed e => exact absurd hstep (by simp [timerStep])
  | write line =>
    obtain ⟨rfl, rfl, rfl⟩ := Outcome.next.inj (Except.ok.inj hstep)
    have hstore := hrings.store rfl
    rw [hstore] at hring ⊢
    obtain ⟨⟨s, n⟩, hwrite, rfl⟩ := Option.map_eq_some_iff.mp hring
    obtain ⟨_, hopen⟩ := hfound
    refine .inr ⟨line, rfl, ⟨x.store, n, hopen, toOption_eq_some.mp hwrite⟩, fun tick' => ?_⟩
    exact .held (hrings' .close _ rfl hrings.mutex fun _ => hstore) rfl
  | close =>
    obtain ⟨rfl, rfl, rfl⟩ := Outcome.next.inj (Except.ok.inj hstep)
    obtain rfl := Option.some.inj hring
    have hrings₁ := hrings' .unlock (p.image.closeFd p.image.fptr) rfl hrings.mutex (by simp [TimerPc.opened])
    exact .inl ⟨.held hrings₁ hfound, by simp⟩
  | unlock =>
    obtain ⟨_, rfl, rfl, rfl⟩ := unlockMutex_next hstep
    obtain rfl := Option.some.inj hring
    obtain rfl : y = x := hfound
    exact .inl ⟨.free hothers, by simp⟩

/-- What a statement of timer_handler is to the threads: nothing but for fptr, or the whole tick. -/
theorem Apart.handler (ha : Apart tick p x h y) (hframes : p.frames t = .timer pc :: below)
    (hstep : timerStep t r p.image pc = .ok (.next next g act))
    (hring : x.ring tick (.timer pc) ((next.map Frame.timer).toList ++ below) act = some x') :
    (h.mutexLock = none ∨ act = none ∧ g.fptr = h.fptr) ∧
    (Apart tick { p with image := g, frames := Function.update p.frames t ((next.map Frame.timer).toList ++ below) } x'
        { h with fptr := g.fptr } y ∧ (∀ d line, act ≠ some (.call (.write d line))) ∨
      ∃ line, act = some (.call (.write .store line)) ∧ Rung tick line y x' ∧ ∀ tick',
        Apart tick' { p with image := g, frames := Function.update p.frames t ((next.map Frame.timer).toList ++ below) }
          x' { h with fptr := g.fptr } x') := by
  cases ha with
  | free hfree =>
    have hout := hfree t (.timer pc) (by rw [hframes]; exact List.mem_cons_self)
    have hbelow : ∀ v fr, fr ∈ Function.update p.frames t below v → fr.critical = false := by
      intro v fr hfr
      rcases mem_update.mp hfr with ⟨rfl, hmem⟩ | ⟨_, hmem⟩
      · exact hfree v fr (by rw [hframes]; exact List.mem_cons_of_mem _ hmem)
      · exact hfree v fr hmem
    cases pc with
    | format =>
      obtain ⟨rfl, rfl, rfl⟩ := Outcome.next.inj (Except.ok.inj hstep)
      obtain rfl := Option.some.inj hring
      refine ⟨.inr ⟨rfl, rfl⟩, .inl ⟨.free fun v fr hfr => ?_, by simp⟩⟩
      rcases mem_update.mp hfr with ⟨rfl, hmem⟩ | ⟨hv, hmem⟩
      · rcases List.mem_cons.mp hmem with rfl | hmem
        · rfl
        · exact hbelow v fr (mem_update.mpr (.inl ⟨rfl, hmem⟩))
      · exact hbelow v fr (mem_update.mpr (.inr ⟨hv, hmem⟩))
    | lock time =>
      obtain ⟨hnone, rfl, rfl, rfl⟩ := lockMutex_next hstep
      obtain rfl := Option.some.inj hring
      refine ⟨.inl hnone, .inl ⟨?_, by simp⟩⟩
      have hrings : Rings { p with
          image := { p.image with mutexLock := some t }
          frames := Function.update p.frames t ([.timer (.openStore time)] ++ below) } t [] (.openStore time) below :=
        ⟨by simp, rfl, fun v fr hfr => hbelow v fr (by rwa [Function.update_idem] at hfr), rfl,
          by simp [TimerPc.opened]⟩
      have hheld : Apart tick _ x _ x := .held hrings rfl
      simp only [Image.hush, TimerPc.opened] at hheld
      rw [← hnone] at hheld
      exact hheld
    | _ => exact absurd hout (by simp [Frame.critical])
  | @held u above inner rest _ hrings hfound =>
    have hsplit := hrings.frames
    by_cases hout : (Frame.timer pc).critical = false
    · -- it waits for the lock, or is on its way there
      cases pc with
      | format =>
        obtain ⟨rfl, rfl, rfl⟩ := Outcome.next.inj (Except.ok.inj hstep)
        obtain rfl := Option.some.inj hring
        have hframes' : p.frames t = [.timer .format] ++ below := hframes
        have hout' : ∀ fr ∈ [Frame.timer (.lock (r.data.take 49))], fr.critical = false := by simp [Frame.critical]
        obtain ⟨above', hrings'⟩ := hrings.moved hframes' (by simp [Frame.critical]) hout'
        exact ⟨.inl rfl, .inl ⟨.held hrings' hfound, by simp⟩⟩
      | lock time =>
        obtain ⟨hnone, _⟩ := lockMutex_next hstep
        exact absurd (hrings.mutex.symm.trans hnone) (by simp)
      | _ => exact absurd hout (by simp [Frame.critical])
    · obtain ⟨rfl, rfl, rfl, rfl⟩ : t = u ∧ above = [] ∧ pc = inner ∧ below = rest := by
        by_cases htu : t = u
        · subst htu
          cases above with
          | nil =>
            obtain ⟨hpc, rfl⟩ := List.cons.inj (hframes.symm.trans hsplit)
            exact ⟨rfl, rfl, Frame.timer.inj hpc, rfl⟩
          | cons fr above =>
            obtain ⟨rfl, _⟩ := List.cons.inj (hframes.symm.trans hsplit)
            exact absurd (hrings.others t (.timer pc) (mem_update.mpr (.inl ⟨rfl, by simp⟩))) hout
        · refine absurd (hrings.others t (.timer pc) (mem_update.mpr (.inr ⟨htu, ?_⟩))) hout
          rw [hframes]
          exact List.mem_cons_self
      exact ⟨.inl rfl, hrings.handler hfound hstep hring⟩

theorem Apart.main {timer : Bool} {n : Nat} {finished : Nat → Bool} {main : MainPc} {created : σ → σ}
    (ha : Apart tick p x h y) (hloop : (∃ t, p.frames t ≠ []) → p.main.starting = false)
    (hmove : MainMove timer n finished p.image p.main main g act) (sessions : List SessionThread) :
    ∃ h', MainMove timer n finished h p.main main h' act ∧
      Apart tick { p with image := g, main := main, sessions := sessions }
        (if p.main = .createOpen ∧ main = .createClose then ⟨created x.store, x.reads⟩ else x) h'
        (if p.main = .createOpen ∧ main = .createClose then ⟨created y.store, y.reads⟩ else y) := by
  cases ha with
  | free hfree => exact ⟨g, hmove, .free hfree⟩
  | @held u above pc rest _ hrings hfound =>
    have hstarted := hloop ⟨u, by rw [hrings.frames]; simp⟩
    obtain ⟨hmove', hmutex, hstore⟩ := hmove.hushed hstarted hrings.store
    have hnot : ¬(p.main = .createOpen ∧ main = .createClose) := by
      rintro ⟨hopen, _⟩
      rw [hopen] at hstarted
      exact absurd hstarted (by simp [MainPc.starting])
    rw [if_neg hnot, if_neg hnot]
    exact ⟨_, hmove', .held ⟨hrings.frames, hrings.critical, hrings.others, hmutex.trans hrings.mutex, hstore⟩ hfound⟩

theorem Apart.session {k node : Nat} {me : Tid} {calls : StoreCalls σ} {spc spc' : SessionPc}
    (ha : Apart tick p x h y) (hout : h.mutexLock = none → p.image.mutexLock ≠ none → spc.critical = false)
    (hwired : Wired h k node) (hnext : sessionStep me node r p.image spc = .ok (.next spc' g act))
    (hserve : x.serve calls spc spc' act = some x') (sessions : List SessionThread) :
    ∃ h' y', sessionStep me node r h spc = .ok (.next spc' h' act) ∧ y.serve calls spc spc' act = some y' ∧
      Apart tick { p with image := g, sessions := sessions } x' h' y' := by
  cases ha with
  | free hfree => exact ⟨g, x', hnext, hserve, .free hfree⟩
  | @held u above pc rest _ hrings hfound =>
    have hspc := hout rfl (by simp [hrings.mutex])
    obtain ⟨hnext', hmutex, hstore⟩ := sessionStep_hushed hnext hspc hrings.mutex hrings.store hwired
    obtain rfl := Shelf.serve_outside hserve hspc
    refine ⟨_, y, hnext', ?_, ?_⟩
    · cases spc with
      | lock | complete | closeSocket | done => rfl
      | _ => exact absurd hspc (by simp [SessionPc.critical])
    · exact .held ⟨hrings.frames, hrings.critical, hrings.others, hmutex.trans hrings.mutex, hstore⟩ hfound

end Apart

section Aside
variable {q : Proc} {os : Trace} {o : Option (Actor × Act)} {created : σ → σ} {calls : Nat → StoreCalls σ} {s₀ : σ}
  {serial serial' : ServerState σ} {y y' : Shelf σ}

theorem Sound.outside (hsound : Sound q os) (hfree : q.image.mutexLock = none) {k : Nat}
    {s : SessionThread} (hs : q.sessions[k]? = some s) : s.pc.critical = false := by
  by_contra hin
  refine hsound.guarded.owner.free_iff.mp hfree (.session k) (.inr ?_)
  simpa [ownCritical_of_getElem? hs] using hin

/-- While the mutex is free fptr is nobody's. -/
theorem Sound.aside (h : Sound q os) (hfree : q.image.mutexLock = none)
    (hcalls : ∀ k, callsOf (os ++ [o]) k = callsOf os k) (fptr : Int) :
    Sound { q with image := { q.image with fptr := fptr } } (os ++ [o]) := by
  have htotal : releasedTotal q.sessions (os ++ [o]) = releasedTotal q.sessions os := by
    simp only [releasedTotal, released, hcalls]
  have hguarded := h.guarded
  refine ⟨⟨hguarded.owner, hguarded.layered, hguarded.threads, hguarded.starting⟩, h.fresh, ?_, h.wired,
    fun k s hs => ?_, fun k hk => ?_, fun _ => ?_, h.handlers⟩
  · have hpending := h.pending
    revert hpending
    cases q.main <;> exact id
  · rw [hcalls]
    exact (h.holding k s hs).of_not_critical (h.outside hfree hs) _ _
  · rw [hcalls]
    exact h.silent k hk
  · rw [htotal]
    exact h.resting hfree

theorem Stands.aside (h : Stands created calls s₀ serial q y os) (hsound : Sound q os)
    (hfree : q.image.mutexLock = none) (hstored : q.main.stored = true)
    (hresponses : responses (os ++ [o]) = responses os) (hcalls : ∀ k, callsOf (os ++ [o]) k = callsOf os k)
    (hsettled : Settled serial q.image y → Settled serial' q.image y') (fptr : Int) :
    Stands created calls s₀ serial' { q with image := { q.image with fptr := fptr } } y' (os ++ [o]) := by
  refine ⟨fun hnot => ?_, fun _ _ => hsettled (h.settled hstored hfree), fun k s hs hcritical => ?_,
    fun k response hk => ?_, ?_⟩
  · exact absurd (hstored.symm.trans hnot) (by simp)
  · exact absurd ((hsound.outside hfree hs).symm.trans hcritical) (by simp)
  · rw [hresponses] at hk
    rw [hcalls]
    exact h.sent k response hk
  · rw [hresponses]
    exact h.once

end Aside
end Aesd.Server
