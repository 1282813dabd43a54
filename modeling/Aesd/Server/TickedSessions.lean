import Aesd.Server.Ticking

/-! The threads and the handlers of SIGALRM against a server that does one thing at a time:
however they interleave, what the clients get is what thread_callback answers, run as one
call, where timer_handler too is one call between them. -/
namespace Aesd.Server
open Aesd.Foundations Aesd.Driver
variable {σ : Type}

/-- timer_handler with this line in formatted_time, its calls on the mutex succeeding. -/
def appendLine (calls : StoreCalls σ) (line : List Byte) (server : ServerState σ) : Except Stop (ServerState σ) :=
  match calls.openAppend server.store with
  | none => .error .exited
  | some store => do
    let (store, _) ← calls.write store line
    return { server with store }

theorem timerHandler_eq (time : Tm) (calls : StoreCalls σ) (server : ServerState σ) :
    timerHandler ⟨time, true, calls, true⟩ server = appendLine calls (formattedTime time) server := rfl

/-- What the server does as one call. -/
inductive Occurrence (σ : Type) where
  | session : Session σ → Occurrence σ
  | tick : StoreCalls σ → List Byte → Occurrence σ

/-- The server of whole sessions with whole ticks; a session answers the response it sends. -/
def clockServer (σ : Type) (fuel : Nat) : Machine (ServerState σ) (Occurrence σ) (Option (List Byte)) where
  step s
    | .session c => ((server σ fuel).step s c).map fun q => (q.1, some q.2)
    | .tick calls line => (appendLine calls line s).toOption.map fun s => (s, none)

/-- A session that has been answered, with what it received, or a tick, which is the n-th thing that happens. -/
def occurrence (calls ticks : Nat → StoreCalls σ) (os : Trace) (n : Nat) :
    (Nat × List Byte) ⊕ List Byte → Occurrence σ
  | .inl r => .session (.complete ((chunksOf (callsOf os r.1)).map delivered) (calls r.1))
  | .inr line => .tick (ticks n) line

def occurred (calls ticks : Nat → StoreCalls σ) (os : Trace) : List (Occurrence σ) :=
  (happenings os).mapIdx (occurrence calls ticks os)

def answer : (Nat × List Byte) ⊕ List Byte → Option (List Byte)
  | .inl r => some r.2
  | .inr _ => none

def answers (os : Trace) : List (Option (List Byte)) := (happenings os).map answer

/-- A server that does one thing at a time is here after what has happened so far. -/
def Clocked (created : σ → σ) (calls ticks : Nat → StoreCalls σ) (s₀ : σ) (serial : ServerState σ) (os : Trace) :
    Prop :=
  ∃ m, ∀ fuel, m ≤ fuel →
    (clockServer σ fuel).run ⟨created s₀, 0⟩ (occurred calls ticks os) = some (serial, answers os)

structure Ticked (created : σ → σ) (calls ticks : Nat → StoreCalls σ) (s₀ : σ) (p : Proc) (x : Shelf σ) (n : Nat)
    (os : Trace) : Prop where
  timers : ∀ t fr, fr ∈ p.frames t → fr.isTimer = true
  running : (∃ t, p.frames t ≠ []) → p.main.starting = false
  count : n = (happenings os).length
  apart : ∃ h y serial, Apart (ticks n) p x h y ∧ Sound (p.without h) os ∧
    Stands created calls s₀ serial (p.without h) y os ∧ Clocked created calls ticks s₀ serial os

section Happenings
variable {os : Trace} {o : Option (Actor × Act)} {r : Nat × List Byte} {act : Option Act} {t : Tid}

theorem happenings_concat (os : Trace) (o : Option (Actor × Act)) :
    happenings (os ++ [o]) = happenings os ++ happenings [o] := List.filterMap_append ..

/-- The responses are among what happens. -/
theorem mem_responses_of_happenings (h : .inl r ∈ happenings os) : r ∈ responses os := by
  obtain ⟨o, ho, hr⟩ := List.mem_filterMap.mp h
  refine List.mem_filterMap.mpr ⟨o, ho, ?_⟩
  split at hr
  · exact congrArg some (Sum.inl.inj (Option.some.inj hr))
  · exact absurd hr (by simp)
  · exact absurd hr (by simp)

theorem happenings_thread (hsilent : ∀ k response, act ≠ some (.call (.send k response))) :
    happenings [act.map fun a => (.thread t, a)] = [] := by
  cases act with
  | none => rfl
  | some a =>
    cases a with
    | call c =>
      cases c with
      | send k response => exact absurd rfl (hsilent k response)
      | _ => rfl
    | _ => rfl

theorem happenings_handler (hsilent : ∀ k response, act ≠ some (.call (.send k response)))
    (hwrites : ∀ d line, act ≠ some (.call (.write d line))) : happenings [act.map fun a => (.handler t, a)] = [] := by
  cases act with
  | none => rfl
  | some a =>
    cases a with
    | call c =>
      cases c with
      | send k response => exact absurd rfl (hsilent k response)
      | write d line => exact absurd rfl (hwrites d line)
      | _ => rfl
    | _ => rfl

/-- timer_handler sends nothing. -/
theorem timerStep_silent {me : Tid} {reply : Reply} {g g' : Image} {pc : TimerPc} {next : Option TimerPc}
    (h : timerStep me reply g pc = .ok (.next next g' act)) (k : Nat) (response : List Byte) :
    act ≠ some (.call (.send k response)) := by
  cases pc with
  | lock time =>
    obtain ⟨_, _, _, rfl⟩ := lockMutex_next h
    simp
  | openStore time =>
    simp only [timerStep] at h
    split at h
    · obtain ⟨_, _, _, _, rfl⟩ := openFd_next h
      simp
    · obtain ⟨_, _, rfl⟩ := Outcome.next.inj (Except.ok.inj h)
      simp
  | openFailed e => exact absurd h (by simp [timerStep])
  | unlock =>
    obtain ⟨_, _, _, rfl⟩ := unlockMutex_next h
    simp
  | write line =>
    obtain ⟨_, _, rfl⟩ := Outcome.next.inj (Except.ok.inj h)
    cases g.fds g.fptr <;> simp
  | format | close =>
    obtain ⟨_, _, rfl⟩ := Outcome.next.inj (Except.ok.inj h)
    simp

end Happenings

section Clocked
variable {created : σ → σ} {calls ticks : Nat → StoreCalls σ} {s₀ : σ} {serial serial' : ServerState σ}
  {os : Trace} {o : Option (Actor × Act)}

theorem clocked_start (created : σ → σ) (calls ticks : Nat → StoreCalls σ) (s₀ : σ) :
    Clocked created calls ticks s₀ ⟨created s₀, 0⟩ [] := ⟨0, fun _ _ => rfl⟩

theorem answers_concat (os : Trace) (o : Option (Actor × Act)) : answers (os ++ [o]) = answers os ++ answers [o] := by
  rw [answers, happenings_concat, List.map_append]
  rfl

/-- What has happened so far stays as it is, if those who have been answered receive nothing more. -/
theorem occurred_concat (hcalls : ∀ q ∈ responses os, callsOf (os ++ [o]) q.1 = callsOf os q.1) :
    occurred calls ticks (os ++ [o]) = occurred calls ticks os ++
      (happenings [o]).mapIdx fun n => occurrence calls ticks (os ++ [o]) (n + (happenings os).length) := by
  rw [occurred, happenings_concat, List.mapIdx_append, occurred]
  apply congrArg (· ++ _)
  apply List.mapIdx_eq_mapIdx_iff.mpr
  intro i hi
  cases hget : (happenings os)[i] with
  | inl r =>
    have hr := mem_responses_of_happenings (hget ▸ List.getElem_mem hi)
    simp only [occurrence, hcalls r hr]
  | inr line => rfl

theorem Clocked.silence (h : Clocked created calls ticks s₀ serial os) (hnothing : happenings [o] = [])
    (hcalls : ∀ q ∈ responses os, callsOf (os ++ [o]) q.1 = callsOf os q.1) :
    Clocked created calls ticks s₀ serial (os ++ [o]) := by
  obtain ⟨m, hrun⟩ := h
  refine ⟨m, fun fuel hfuel => ?_⟩
  have hanswers : answers [o] = [] := by
    rw [answers, hnothing]
    rfl
  rw [occurred_concat hcalls, answers_concat, hanswers, hnothing, List.mapIdx_nil, List.append_nil, List.append_nil]
  exact hrun fuel hfuel

/-- A write by a handler is a tick of the server that does one thing at a time. -/
theorem Clocked.tick (h : Clocked created calls ticks s₀ serial os) {t : Tid} {line : List Byte}
    (hline : appendLine (ticks (happenings os).length) line serial = .ok serial') :
    Clocked created calls ticks s₀ serial' (os ++ [some (.handler t, .call (.write .store line))]) := by
  obtain ⟨m, hrun⟩ := h
  refine ⟨m, fun fuel hfuel => ?_⟩
  have hcalls : ∀ q ∈ responses os,
      callsOf (os ++ [some (.handler t, .call (.write .store line))]) q.1 = callsOf os q.1 :=
    fun q _ => callsOf_concat_of_ne os (some (.call (.write .store line))) (by simp)
  rw [occurred_concat hcalls, answers_concat]
  change (clockServer σ fuel).run _ (_ ++ [.tick (ticks (0 + (happenings os).length)) line]) =
    some (serial', _ ++ [none])
  rw [Nat.zero_add, (clockServer σ fuel).run_concat (hrun fuel hfuel)]
  simp [clockServer, hline, Except.toOption]

/-- A send is a session of it. -/
theorem Clocked.session (h : Clocked created calls ticks s₀ serial os) {k n : Nat} {response : List Byte}
    (hcalls : ∀ q ∈ responses os,
      callsOf (os ++ [some (.thread (.session k), .call (.send k response))]) q.1 = callsOf os q.1)
    (hcall : ∀ fuel, n ≤ fuel → callback (calls k) fuel serial (chunksOf (callsOf os k)) = .ok (serial', response)) :
    Clocked created calls ticks s₀ serial' (os ++ [some (.thread (.session k), .call (.send k response))]) := by
  obtain ⟨m, hrun⟩ := h
  refine ⟨max m n, fun fuel hfuel => ?_⟩
  have hown : callsOf (os ++ [some (.thread (.session k), .call (.send k response))]) k =
      callsOf os k ++ [.send k response] := callsOf_concat_own os (some (.call (.send k response))) k
  have hchunks : chunksOf (callsOf os k ++ [.send k response]) = chunksOf (callsOf os k) := by
    rw [chunksOf_append]
    simp [chunksOf]
  rw [occurred_concat hcalls, answers_concat]
  change (clockServer σ fuel).run _
    (_ ++ [.session (.complete ((chunksOf (callsOf (os ++ _) k)).map delivered) (calls k))]) =
      some (serial', _ ++ [some response])
  rw [hown, hchunks, (clockServer σ fuel).run_concat (hrun fuel (by omega))]
  have hstep := server_step_eq_some.mpr (hcall fuel (by omega))
  simp only [clockServer]
  rw [hstep]
  rfl

end Clocked

section Ticked
variable {timer : Bool} {created : σ → σ} {calls ticks : Nat → StoreCalls σ} {s₀ : σ} {p p' : Proc} {x x' : Shelf σ}
  {n n' : Nat} {os : Trace} {i : Input} {o : Option (Actor × Act)} {t : Tid} {r : Reply}

theorem ticked_start (created : σ → σ) (calls ticks : Nat → StoreCalls σ) (s₀ : σ) :
    Ticked created calls ticks s₀ .start ⟨s₀, 0⟩ 0 [] := by
  refine ⟨fun t fr hfr => absurd hfr (by simp [Proc.start]), ?_, rfl, ?_⟩
  · rintro ⟨t, ht⟩
    exact absurd rfl ht
  · exact ⟨.initial, ⟨s₀, 0⟩, ⟨created s₀, 0⟩, .free fun t fr hfr => absurd hfr (by simp [Proc.start]), sound_start,
      stands_start created calls s₀, clocked_start created calls ticks s₀⟩

/-- A step after which every thread and every handler is where it was. -/
theorem Ticked.silence (h : Ticked created calls ticks s₀ p x n os) (e : Option Ending) :
    Ticked created calls ticks s₀ { p with ended := e } x n (os ++ [none]) := by
  obtain ⟨g, y, serial, hapart, hsound, hstands, hclocked⟩ := h.apart
  refine ⟨h.timers, h.running, ?_, g, y, serial, hapart.ends e, hsound.silence e, ?_, ?_⟩
  · rw [happenings_concat]
    exact h.count.trans (by simp [happenings])
  · exact hstands.silence e (responses_concat_none os) (callsOf_concat_none os)
  · exact hclocked.silence rfl fun q _ => callsOf_concat_none os q.1

theorem Ticked.delivered {sig : Signal} {fr : Frame} (h : Ticked created calls ticks s₀ p x n os)
    (hfr : registered timer sig = some fr) (halarmed : Alarmed timer p (.signal sig t)) :
    Ticked created calls ticks s₀ { p with frames := Function.update p.frames t (fr :: p.frames t) } x n
      (os ++ [none]) := by
  obtain ⟨rfl, hrunning⟩ := halarmed sig t rfl (by rw [hfr]; rfl)
  obtain rfl : fr = .timer .format := by
    simp only [registered] at hfr
    split at hfr
    · exact (Option.some.inj hfr).symm
    · exact absurd hfr (by simp)
  have hsilence := h.silence p.ended
  obtain ⟨g, y, serial, hapart, hrest⟩ := hsilence.apart
  refine ⟨fun u fr hfr => ?_, fun _ => hrunning, hsilence.count, g, y, serial, hapart.delivered rfl t, hrest⟩
  rcases mem_update.mp hfr with ⟨rfl, hmem⟩ | ⟨_, hmem⟩
  · rcases List.mem_cons.mp hmem with rfl | hmem
    · rfl
    · exact h.timers u fr hmem
  · exact h.timers u fr hmem

theorem Ticked.main {pc : MainPc} {g : Image} {act : Option Act} (h : Ticked created calls ticks s₀ p x n os)
    (hmove : MainMove timer p.sessions.length p.finished p.image p.main pc g act) :
    Ticked created calls ticks s₀ { p with image := g, main := pc, sessions := p.sessions ++ p.main.created }
      (if p.main = .createOpen ∧ pc = .createClose then ⟨created x.store, x.reads⟩ else x) n
      (os ++ [act.map fun a => (.thread .main, a)]) := by
  obtain ⟨h', y, serial, hapart, hsound, hstands, hclocked⟩ := h.apart
  have hnothing : happenings [act.map fun a => (.thread .main, a)] = [] := happenings_thread hmove.silent
  obtain ⟨h₁, hmove₁, hapart₁⟩ := hapart.main h.running hmove (p.sessions ++ p.main.created)
  refine ⟨h.timers, fun hframes => ?_, ?_, h₁, _, serial, hapart₁, hsound.main rfl hmove₁,
    hstands.main hsound rfl hmove₁, hclocked.silence hnothing fun q _ => callsOf_concat_of_ne os act (by simp)⟩
  · by_contra hstart
    have hbefore := (hmove.mutex.2 (by simpa using hstart)).1
    exact absurd ((h.running hframes).symm.trans hbefore) (by simp)
  · rw [happenings_concat, hnothing, List.append_nil]
    exact h.count

private theorem Ticked.timerFrames {pc : TimerPc} {rest : List Frame} {next : Option TimerPc}
    (h : Ticked created calls ticks s₀ p x n os) (hframes : p.frames t = .timer pc :: rest) :
    ∀ u fr, fr ∈ Function.update p.frames t ((next.map Frame.timer).toList ++ rest) u → fr.isTimer = true := by
  intro u fr hfr
  rcases mem_update.mp hfr with ⟨rfl, hmem⟩ | ⟨_, hmem⟩
  · rcases List.mem_append.mp hmem with hmem | hmem
    · cases next with
      | none => exact absurd hmem (by simp)
      | some pc' =>
        rw [List.mem_singleton.mp hmem]
        rfl
    · refine h.timers u fr ?_
      rw [hframes]
      exact List.mem_cons_of_mem _ hmem
  · exact h.timers u fr hmem

/-- A statement of timer_handler is nothing to the threads, or the whole tick. -/
theorem Ticked.handler {pc : TimerPc} {rest : List Frame} {next : Option TimerPc} {g : Image} {act : Option Act}
    (h : Ticked created calls ticks s₀ p x n os) (hframes : p.frames t = .timer pc :: rest)
    (hnext : timerStep t r p.image pc = .ok (.next next g act))
    (hring : x.ring (ticks n) (.timer pc) ((next.map Frame.timer).toList ++ rest) act = some x') :
    Ticked created calls ticks s₀
      { p with image := g, frames := Function.update p.frames t ((next.map Frame.timer).toList ++ rest) } x'
      (n + (happenings [act.map fun a => (.handler t, a)]).length) (os ++ [act.map fun a => (.handler t, a)]) := by
  have hloop := h.running ⟨t, by rw [hframes]; simp⟩
  have hcount : n + (happenings [act.map fun a => (.handler t, a)]).length =
      (happenings (os ++ [act.map fun a => (.handler t, a)])).length := by
    rw [happenings_concat, List.length_append, ← h.count]
  have hcalls : ∀ k, callsOf (os ++ [act.map fun a => (.handler t, a)]) k = callsOf os k :=
    fun k => callsOf_concat_of_ne os act (by simp)
  have hresponses := responses_concat_of_silent os (.handler t) (timerStep_silent hnext)
  obtain ⟨g₀, y, serial, hapart, hsound, hstands, hclocked⟩ := h.apart
  have hstored : (p.without g₀).main.stored = true := stored_of_running hloop
  obtain ⟨hquiet, ⟨hapart', hwrites⟩ | ⟨line, rfl, ⟨s, m, hopen, hwrite⟩, hapart'⟩⟩ :=
    hapart.handler hframes hnext hring
  · have hnothing := happenings_handler (t := t) (timerStep_silent hnext) hwrites
    refine ⟨h.timerFrames hframes, fun _ => hloop, hcount, { g₀ with fptr := g.fptr }, y, serial, ?_, ?_⟩
    · rw [hnothing]
      exact hapart'
    · have hclocked' := hclocked.silence hnothing fun q _ => hcalls q.1
      rcases hquiet with hfree | ⟨rfl, hfptr⟩
      · exact ⟨hsound.aside hfree hcalls g.fptr,
          hstands.aside hsound hfree hstored hresponses hcalls id g.fptr, hclocked'⟩
      · rw [show ({ g₀ with fptr := g.fptr } : Image) = g₀ by rw [hfptr]]
        exact ⟨hsound.silence p.ended, hstands.silence p.ended hresponses hcalls, hclocked'⟩
  -- the write: whoever takes the mutex next finds the line in the store
  · have hfree : g₀.mutexLock = none := hquiet.resolve_right (by simp)
    obtain ⟨hstore, _⟩ := hstands.settled hstored hfree
    have hline : appendLine (ticks (happenings os).length) line serial = .ok ⟨x'.store, serial.readDataLen⟩ := by
      rw [← h.count, appendLine, ← hstore, hopen]
      simp only [hwrite, ok_bind]
      rfl
    refine ⟨h.timerFrames hframes, fun _ => hloop, hcount, { g₀ with fptr := g.fptr }, x',
      ⟨x'.store, serial.readDataLen⟩, hapart' _, hsound.aside hfree hcalls g.fptr, ?_, hclocked.tick hline⟩
    have hsettled : Settled serial (p.without g₀).image y →
        Settled ⟨x'.store, serial.readDataLen⟩ (p.without g₀).image x' := fun hbefore => ⟨rfl, hbefore.2⟩
    exact hstands.aside hsound hfree hstored hresponses hcalls hsettled g.fptr

theorem Ticked.session {k : Nat} {s : SessionThread} {pc : SessionPc} {g : Image} {act : Option Act}
    (h : Ticked created calls ticks s₀ p x n os) (hs : p.sessions[k]? = some s)
    (hnext : sessionStep (.session k) s.node r p.image s.pc = .ok (.next pc g act))
    (hserve : x.serve (calls k) s.pc pc act = some x') :
    Ticked created calls ticks s₀ { p with image := g, sessions := p.sessions.set k ⟨pc, s.node⟩ } x'
      (n + (happenings [act.map fun a => (.thread (.session k), a)]).length)
      (os ++ [act.map fun a => (.thread (.session k), a)]) := by
  obtain ⟨g₀, y, serial, hapart, hsound, hstands, hclocked⟩ := h.apart
  have hcount : n + (happenings [act.map fun a => (.thread (.session k), a)]).length =
      (happenings (os ++ [act.map fun a => (.thread (.session k), a)])).length := by
    rw [happenings_concat, List.length_append, ← h.count]
  obtain ⟨h₁, y₁, hnext₁, hserve₁, hapart₁⟩ := hapart.session (fun hfree _ => hsound.outside hfree hs)
    (hsound.wired k s hs (sessionStep_moves hnext).not_done) hnext hserve (p.sessions.set k ⟨pc, s.node⟩)
  have hmove₁ := sessionStep_moves hnext₁
  have hsound₁ := hsound.session rfl hs hmove₁
  by_cases hsend : s.pc = .send
  · obtain ⟨response, m, rfl, hcall, hothers, hstands₁⟩ := hstands.send hsound rfl hs hsend hnext₁ hserve₁
    have hheld : h₁.mutexLock ≠ none := by
      intro hfree
      rcases hmove₁.mutex with ⟨_, hmine, _⟩ | ⟨_, _, _, hunlock, _⟩ | ⟨hsame, _⟩
      · exact absurd (hmine.symm.trans hfree) (by simp)
      · exact absurd (hsend.symm.trans hunlock) (by simp)
      · have hout := hsound.outside (hsame.symm.trans hfree) hs
        rw [hsend] at hout
        exact absurd hout (by simp [SessionPc.critical])
    exact ⟨h.timers, h.running, hcount, h₁, y₁, _, hapart₁.retick hheld _, hsound₁, hstands₁,
      hclocked.session hothers hcall⟩
  · have hnothing : happenings [act.map fun a => (.thread (.session k), a)] = [] :=
      happenings_thread (hmove₁.silent hsend)
    refine ⟨h.timers, h.running, hcount, h₁, y₁, serial, ?_, hsound₁,
      hstands.inside hsound rfl hs hsend hnext₁ hserve₁,
      hclocked.silence hnothing fun q hq => hstands.spent hsound hs hmove₁ hq⟩
    rw [hnothing]
    exact hapart₁

theorem Ticked.step (h : Ticked created calls ticks s₀ p x n os) (halarmed : Alarmed timer p i)
    (hstep : (ticking timer created calls ticks).step (p, x, n) i = some ((p', x', n'), o)) :
    Ticked created calls ticks s₀ p' x' n' (os ++ [o]) := by
  obtain ⟨hprocess, hmeet, rfl⟩ := ticking_step_eq_some.mp hstep
  have silence : ∀ e, x.meet created calls (ticks n) p { p with ended := e } none i = some x' →
      Ticked created calls ticks s₀ { p with ended := e } x' (n + (happenings [none]).length) (os ++ [none]) := by
    intro e hmeet
    obtain rfl := Option.some.inj ((x.meet_stays created calls (ticks n) p e i).symm.trans hmeet)
    exact h.silence e
  cases step_moves hprocess with
  | stays => exact silence p.ended hmeet
  | delivered hfr _ _ _ =>
    obtain rfl := Option.some.inj hmeet
    exact h.delivered hfr halarmed
  | handlerEnds => exact silence _ hmeet
  | @handler t r fr rest fr' g act _ hframes hnext =>
    have htimer := h.timers t fr (by rw [hframes]; exact List.mem_cons_self)
    cases fr with
    | sighandler pc => exact absurd htimer (by simp [Frame.isTimer])
    | timer pc =>
      obtain ⟨next, htaken, rfl⟩ := frameStep_timer hnext
      simp only [Shelf.meet, hframes, Function.update_self, Option.map_map] at hmeet
      have hring : x.ring (ticks n) (.timer pc) ((next.map Frame.timer).toList ++ rest) act = some x' := by
        rw [← hmeet]
        cases act <;> rfl
      exact h.handler hframes htaken hring
  | mainEnds => exact silence _ hmeet
  | main _ hmain hmove =>
    simp only [Shelf.meet, hmain] at hmeet
    obtain rfl := Option.some.inj hmeet
    rw [happenings_thread hmove.silent]
    exact h.main hmove
  | sessionEnds => exact silence _ hmeet
  | @session k s r _ _ _ hended hframes hs =>
    rcases step_session hended hframes hs hprocess with ⟨pc, g, act, hnext, hp, ho⟩ | ⟨e, _, hp, ho⟩ | ⟨hp, ho⟩
    · rw [hp] at hmeet ⊢
      rw [ho] at hmeet ⊢
      simp only [Shelf.meet, hframes, Shelf.attend, hs,
        List.getElem?_set_self (List.getElem?_eq_some_iff.mp hs).1] at hmeet
      have hserve : x.serve (calls k) s.pc pc act = some x' := by
        rw [← hmeet]
        cases act <;> rfl
      exact h.session hs hnext hserve
    · rw [hp] at hmeet ⊢
      rw [ho] at hmeet ⊢
      exact silence (some e) hmeet
    · rw [hp] at hmeet ⊢
      rw [ho] at hmeet ⊢
      exact silence p.ended hmeet

/-- The threads and the handlers refine the server of whole sessions and whole ticks. -/
theorem ticked_run {is : List Input} (halarmed : (process timer).Along (Alarmed timer) .start is)
    (hrun : (ticking timer created calls ticks).run (.start, ⟨s₀, 0⟩, 0) is = some ((p, x, n), os)) :
    Ticked created calls ticks s₀ p x n os := by
  apply (ticking timer created calls ticks).along_keeps
    (I := fun s os => Ticked created calls ticks s₀ s.1 s.2.1 s.2.2 os) _ [] (ticked_start created calls ticks s₀)
    (ticking_along halarmed) hrun
  rintro ⟨p, x, n⟩ os i ⟨p', x', n'⟩ o h halarmed hstep
  exact h.step halarmed hstep

end Ticked

/-- However the statements of main, of the session threads and of the handlers of SIGALRM on
them interleave, the server does as one that runs thread_callback as one call for one session
after another and timer_handler as one call between them: sessions in the order of their sends,
ticks in that of their writes. -/
theorem responses_serial_with_ticks (timer : Bool) (created : σ → σ) (calls ticks : Nat → StoreCalls σ) (s₀ : σ)
    (is : List Input) {p : Proc} {x : Shelf σ} {n : Nat} {os : Trace}
    (halarmed : (process timer).Along (Alarmed timer) .start is)
    (hrun : (ticking timer created calls ticks).run (.start, ⟨s₀, 0⟩, 0) is = some ((p, x, n), os)) :
    ∃ serial m, (∀ fuel, m ≤ fuel →
        (clockServer σ fuel).run ⟨created s₀, 0⟩ (occurred calls ticks os) = some (serial, answers os)) ∧
      ((responses os).map Prod.fst).Nodup ∧
      (∀ k response, (k, response) ∈ responses os → Call.send k response ∈ callsOf os k) ∧
      (p.main.stored = true → p.image.mutexLock = none →
        x.store = serial.store ∧ p.image.readDataLen = serial.readDataLen) := by
  obtain ⟨g, y, serial, hapart, hsound, hstands, m, hserial⟩ := (ticked_run halarmed hrun).apart
  refine ⟨serial, m, hserial, hstands.once, hstands.sent, fun hstored hfree => ?_⟩
  cases hapart with
  | free => exact hstands.settled hstored hfree
  | held hrings => exact absurd (hrings.mutex.symm.trans hfree) (by simp)

/-- A session up to its recv, and main in accept. -/
def beforeAlarm : List Input :=
  startUp true ++ accepting 4 ++ List.replicate 4 (.ok .main 0) ++ (serving 0 6 [97, 10] [97, 10]).take 5

/-- The handler has to wait for the session; the next session comes after its line. -/
def afterAlarm : List Input :=
  .step .main ⟨true, 0, 0, [116, 46, 10]⟩ :: .ok .main 0 :: (serving 0 6 [97, 10] [97, 10]).drop 5 ++ .ok .main 0 ::
    .ok .main 7 :: List.replicate 3 (.ok .main 0) ++ accepting 5 ++ serving 1 6 [98, 10] [97, 10, 116, 46]

theorem alarmed_in_accept :
    (process true).Along (Alarmed true) .start (beforeAlarm ++ .signal .sigalrm .main :: afterAlarm) := by
  refine (process true).along_append.mpr ⟨?_, fun p os hrun => ⟨?_, fun s o _ => ?_⟩⟩
  · refine (process true).along_of_forall (fun i hi s sig t ht => ?_) _
    simp [beforeAlarm, startUp, accepting, serving, Input.ok, ht] at hi
  · have heval : ((process true).run .start beforeAlarm).map (fun q => q.1.main) = some .accept := by decide +kernel
    rw [hrun] at heval
    have hmain : p.main = .accept := Option.some.inj heval
    rintro _ _ ⟨⟩ _
    exact ⟨rfl, by rw [hmain]; rfl⟩
  · refine (process true).along_of_forall (fun i hi s sig t ht => ?_) _
    simp [afterAlarm, accepting, serving, Input.ok, ht] at hi

/-- On a regular file: the alarm finds main in accept while a session has the mutex. Its line
gets into the file between the packets of the two sessions, and the second one gets the packet
before its own and two bytes of the line. -/
theorem responses_serial_with_ticks_one_alarm :
    let calls : Nat → StoreCalls RegularFile := fun _ => fileCalls (some 8) ⟨fun _ _ => 0, fun _ _ h => h⟩
    ∃ p x n os serial m, (ticking true (fun _ => ⟨[], 0⟩) calls calls).run (.start, ⟨⟨[120], 0⟩, 0⟩, 0)
        (beforeAlarm ++ .signal .sigalrm .main :: afterAlarm) = some ((p, x, n), os) ∧
      happenings os = [.inl (0, [97, 10]), .inr [116, 46, 10], .inl (1, [97, 10, 116, 46])] ∧
      ∀ fuel, m ≤ fuel → (clockServer RegularFile fuel).run ⟨⟨[], 0⟩, 0⟩ (occurred calls calls os) =
        some (serial, [some [97, 10], none, some [97, 10, 116, 46]]) := by
  intro calls
  have heval : ((ticking true (fun _ => ⟨[], 0⟩) calls calls).run (.start, ⟨⟨[120], 0⟩, 0⟩, 0)
      (beforeAlarm ++ .signal .sigalrm .main :: afterAlarm)).map (fun q => happenings q.2) =
        some [.inl (0, [97, 10]), .inr [116, 46, 10], .inl (1, [97, 10, 116, 46])] := by decide +kernel
  obtain ⟨⟨⟨p, x, n⟩, os⟩, hrun, hos⟩ := Option.map_eq_some_iff.mp heval
  obtain ⟨serial, m, hserial, _⟩ := responses_serial_with_ticks true _ calls calls _ _ alarmed_in_accept hrun
  rw [answers, hos] at hserial
  exact ⟨p, x, n, os, serial, m, hrun, hos, hserial⟩

end Aesd.Server
