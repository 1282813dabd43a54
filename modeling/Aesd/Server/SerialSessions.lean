import Aesd.Server.SessionRest
import Aesd.Server.FileSessions
import Aesd.Server.Shutdown

/-! The threads against the server of whole sessions: however their statements interleave,
what the clients get is what thread_callback answers, run as one call for one session after
the other, in the order in which the responses are sent. -/
namespace Aesd.Server
open Aesd.Foundations Aesd.Driver
variable {σ : Type}

/-- A server of whole sessions is where the threads have come to: while the mutex is free it
is what they share, and else what the one that holds it has found. -/
structure Stands (created : σ → σ) (calls : Nat → StoreCalls σ) (s₀ : σ) (serial : ServerState σ) (p : Proc)
    (x : Shelf σ) (os : Trace) : Prop where
  early : p.main.stored = false → x.store = s₀ ∧ serial = ⟨created s₀, 0⟩
  settled : p.main.stored = true → p.image.mutexLock = none → Settled serial p.image x
  partway : ∀ k s, p.sessions[k]? = some s →
    s.pc.critical = true → Partway (calls k) serial (chunksOf (callsOf os k)) p.image x s.pc
  sent : ∀ k response, (k, response) ∈ responses os → Call.send k response ∈ callsOf os k
  once : ((responses os).map Prod.fst).Nodup

structure Refines (created : σ → σ) (calls : Nat → StoreCalls σ) (s₀ : σ) (serial : ServerState σ) (p : Proc)
    (x : Shelf σ) (os : Trace) : Prop extends Stands created calls s₀ serial p x os where
  run : ∃ n, ∀ fuel, n ≤ fuel → (server σ fuel).run ⟨created s₀, 0⟩ (served calls os) =
    some (serial, (responses os).map Prod.snd)

section Calls
variable {k node : Nat} {me : Tid} {base : Int} {g g' : Image} {cs : List Call} {packet : List Byte}
  {reads : List (Int × List Byte)} {pc pc' : SessionPc} {act : Option Act} {c : Nat} {response : List Byte}

private theorem Received.silent (h : Received k cs packet) : Call.send c response ∉ cs := by
  obtain ⟨chunks, rfl, _⟩ := h
  simp

private theorem Stored.silent (h : Stored k cs packet reads) : Call.send c response ∉ cs := by
  obtain ⟨before, hreceived, rfl⟩ := h
  simp [hreceived.silent]

/-- A session that has sent something has sent its response. -/
theorem Holding.answered (h : Holding k base g cs pc) (hsent : Call.send c response ∈ cs) : pc.answered = true := by
  have filling : ∀ {total}, ¬Filling k base g cs total := by
    rintro total ⟨packet, hreceived, _⟩
    exact hreceived.silent hsent
  have uncounted : ∀ {total}, ¬Uncounted k base g cs total := by
    rintro total ⟨packet, hstored, _⟩
    exact hstored.silent hsent
  have counted : ¬Counted k base g cs := by
    rintro ⟨packet, hstored, _⟩
    exact hstored.silent hsent
  have reading : ∀ {status}, ¬Reading k base g cs status := by
    rintro status ⟨packet, reads, i, b, hstored, _⟩
    exact hstored.silent hsent
  cases pc with
  | lock =>
    obtain rfl : cs = [] := h
    exact absurd hsent (by simp)
  | malloc | memset =>
    obtain ⟨rfl, _⟩ := h
    exact absurd hsent (by simp)
  | recv | realloc | openAppend | scan => exact absurd h filling
  | openFailed =>
    obtain ⟨packet, hreceived⟩ := h
    exact absurd hsent hreceived.silent
  | write => exact absurd h.1 filling
  | freeRecv | nullRecv | closeStore | nullRead | addLen => exact absurd h.1 uncounted
  | openRead => exact absurd h counted
  | mallocRead => exact absurd h.1 counted
  | read => exact absurd h.1 reading
  | closeRead => exact absurd h.1 (not_exists.mpr fun _ => reading)
  | send => exact absurd h (not_exists.mpr fun _ => reading)
  | freeRead | nullReadAgain | unlock | complete | closeSocket | done => rfl

/-- After its send a session makes no more calls. -/
theorem SessionMove.spent (h : SessionMove me node g pc pc' g' act) (hpc : pc.answered = true) :
    Act.calls act = [] := by
  cases h with
  | freeRead => cases g.readBuffer <;> rfl
  | nullReadAgain | unlock | complete | closeSocket => rfl
  | _ => exact absurd hpc (by simp [SessionPc.answered])

theorem SessionMove.silent (h : SessionMove me node g pc pc' g' act) (hpc : pc ≠ .send) (c : Nat)
    (response : List Byte) : act ≠ some (.call (.send c response)) := by
  cases h with
  | send => exact absurd rfl hpc
  | write => cases g.fds g.fptr <;> simp
  | freeRecv => cases g.recvData <;> simp
  | freeRead => cases g.readBuffer <;> simp
  | _ => simp

theorem MainMove.silent {timer : Bool} {n : Nat} {finished : Nat → Bool} {pc pc' : MainPc}
    (h : MainMove timer n finished g pc pc' g' act) (c : Nat) (response : List Byte) :
    act ≠ some (.call (.send c response)) := by
  cases h <;> simp

theorem MainMove.readDataLen {timer : Bool} {n : Nat} {finished : Nat → Bool} {pc pc' : MainPc}
    (h : MainMove timer n finished g pc pc' g' act) : g'.readDataLen = g.readDataLen := by
  cases h <;> rfl

/-- main comes to have a store by create_new_file's open alone. -/
theorem MainMove.stored {timer : Bool} {n : Nat} {finished : Nat → Bool} {pc pc' : MainPc}
    (h : MainMove timer n finished g pc pc' g' act) :
    pc'.stored = pc.stored ∧ ¬(pc = .createOpen ∧ pc' = .createClose) ∨ pc = .createOpen ∧ pc' = .createClose := by
  cases h with
  | createOpen => exact .inr ⟨rfl, rfl⟩
  | initMutex | visit => exact .inl ⟨by split <;> rfl, by simp⟩
  | _ => exact .inl ⟨rfl, by simp⟩

/-- The store is touched by a session that holds the mutex only. -/
theorem Shelf.serve_outside {x x' : Shelf σ} {calls : StoreCalls σ} (h : x.serve calls pc pc' act = some x')
    (hpc : pc.critical = false) : x' = x := by
  cases pc with
  | lock | complete | closeSocket | done => exact (Option.some.inj h).symm
  | _ => exact absurd hpc (by simp [SessionPc.critical])

theorem Shelf.serve_stays (x : Shelf σ) (calls : StoreCalls σ) (pc : SessionPc) :
    x.serve calls pc pc none = some x := by
  cases pc <;> rfl

/-- A step after which every thread is where it was leaves the store. -/
theorem Shelf.attend_stays (x : Shelf σ) (created : σ → σ) (calls : Nat → StoreCalls σ) (p : Proc)
    (e : Option Ending) (t : Tid) : x.attend created calls p { p with ended := e } none t = some x := by
  cases t with
  | main =>
    simp only [Shelf.attend]
    rw [if_neg]
    rintro ⟨hopen, hclose⟩
    rw [hopen] at hclose
    exact absurd hclose (by simp)
  | session k =>
    simp only [Shelf.attend]
    cases p.sessions[k]? with
    | none => rfl
    | some s => exact x.serve_stays (calls k) s.pc

theorem Partway.of_not_critical {calls : StoreCalls σ} {serial : ServerState σ} {x : Shelf σ}
    (hpc : pc.critical = false) (chunks : List (List Byte)) : Partway calls serial chunks g x pc := by
  cases pc with
  | lock | complete | closeSocket | done => trivial
  | _ => exact absurd hpc (by simp [SessionPc.critical])

end Calls

section Stands
variable {timer : Bool} {created : σ → σ} {calls : Nat → StoreCalls σ} {s₀ : σ} {serial : ServerState σ}
  {p p' : Proc} {x x' : Shelf σ} {os : Trace} {o : Option (Actor × Act)} {g : Image} {act : Option Act}
  {k : Nat} {s : SessionThread} {pc : SessionPc} {r : Reply}

theorem stands_start (created : σ → σ) (calls : Nat → StoreCalls σ) (s₀ : σ) :
    Stands created calls s₀ ⟨created s₀, 0⟩ .start ⟨s₀, 0⟩ [] := by
  refine ⟨fun _ => ⟨rfl, rfl⟩, ?_, ?_, by simp [responses], List.nodup_nil⟩
  · intro hstored
    exact absurd hstored (by simp [Proc.start, MainPc.stored, MainPc.bound])
  · intro k s hs
    exact absurd hs (by simp [Proc.start])

/-- A step that does nothing that shows of main or a session. -/
theorem Stands.silence (h : Stands created calls s₀ serial p x os) (e : Option Ending)
    (hresponses : responses (os ++ [o]) = responses os) (hcalls : ∀ k, callsOf (os ++ [o]) k = callsOf os k) :
    Stands created calls s₀ serial { p with ended := e } x (os ++ [o]) := by
  refine ⟨h.early, h.settled, fun k s hs hcritical => ?_, fun k response hk => ?_, ?_⟩
  · rw [hcalls]
    exact h.partway k s hs hcritical
  · rw [hresponses] at hk
    rw [hcalls]
    exact h.sent k response hk
  · rw [hresponses]
    exact h.once

theorem Stands.main {pc : MainPc} (h : Stands created calls s₀ serial p x os) (hsound : Sound p os)
    (hmain : p.frames .main = [])
    (hmove : MainMove timer p.sessions.length p.finished p.image p.main pc g act) :
    Stands created calls s₀ serial
      { p with image := g, main := pc, sessions := p.sessions ++ p.main.created }
      (if p.main = .createOpen ∧ pc = .createClose then ⟨created x.store, x.reads⟩ else x)
      (os ++ [act.map fun a => (.thread .main, a)]) := by
  have hresponses := responses_concat_of_silent os (.thread .main) hmove.silent
  have hcalls : ∀ k, callsOf (os ++ [act.map fun a => (.thread .main, a)]) k = callsOf os k :=
    fun k => callsOf_concat_of_ne os act (by simp)
  refine ⟨fun hstored => ?_, fun hstored hfree => ?_, fun k s hs hcritical => ?_, fun k response hk => ?_, ?_⟩
  · rcases hmove.stored with ⟨hsame, hnot⟩ | ⟨_, rfl⟩
    · rw [if_neg hnot]
      exact h.early (hsame.symm.trans hstored)
    · exact absurd hstored (by simp [MainPc.stored, MainPc.bound])
  · have hbefore : p.image.mutexLock = none := by
      rcases hmove.mutex.1 with hsame | ⟨hstart, _⟩
      · exact hsame.symm.trans hfree
      · exact hsound.guarded.free_of_starting hstart hmain
    rcases hmove.stored with ⟨hsame, hnot⟩ | ⟨hopen, hclose⟩
    · rw [if_neg hnot]
      exact (h.settled (hsame.symm.trans hstored) hbefore).readDataLen hmove.readDataLen
    -- the store is new, and no session has counted anything
    · obtain ⟨hstore, hserial⟩ := h.early (by rw [hopen]; rfl)
      rw [if_pos ⟨hopen, hclose⟩, hserial]
      obtain ⟨_, _, hrest⟩ := hsound.resting hbefore
      rw [hsound.guarded.starting (by rw [hopen]; rfl)] at hrest
      exact ⟨congrArg created hstore, hmove.readDataLen.trans hrest⟩
  · rw [hcalls]
    rcases created_cases hs with hs | ⟨_, hnew⟩
    · have hrunning := hsound.guarded.running (List.mem_of_getElem? hs)
      rw [if_neg]
      · exact (h.partway k s hs hcritical).undisturbed (hmove.spares hrunning hsound.pending hsound.fresh).undisturbed
      · rintro ⟨hopen, _⟩
        rw [hopen] at hrunning
        exact absurd hrunning (by simp [MainPc.starting])
    · rw [(hmove.created hsound.pending hnew).1] at hcritical
      exact absurd hcritical (by simp [SessionPc.critical])
  · rw [hresponses] at hk
    rw [hcalls]
    exact h.sent k response hk
  · rw [hresponses]
    exact h.once

/-- Who has been answered keeps what it has received. -/
theorem Stands.spent (h : Stands created calls s₀ serial p x os) (hsound : Sound p os)
    (hs : p.sessions[k]? = some s) (hmove : SessionMove (.session k) s.node p.image s.pc pc g act)
    {q : Nat × List Byte} (hq : q ∈ responses os) :
    callsOf (os ++ [act.map fun a => (.thread (.session k), a)]) q.1 = callsOf os q.1 := by
  by_cases hqk : q.1 = k
  · have hanswered := (hsound.holding k s hs).answered (hqk ▸ h.sent q.1 q.2 hq)
    rw [hqk, callsOf_concat_own, hmove.spent hanswered, List.append_nil]
  · exact callsOf_concat_of_ne os act (by simpa using Ne.symm hqk)

private theorem Stands.running (hsound : Sound p os) (hs : p.sessions[k]? = some s) : p.main.stored = true :=
  stored_of_running (hsound.guarded.running (List.mem_of_getElem? hs))

private theorem Stands.mover (h : Stands created calls s₀ serial p x os) (hsound : Sound p os)
    (hs : p.sessions[k]? = some s) (hsend : s.pc ≠ .send)
    (hnext : sessionStep (.session k) s.node r p.image s.pc = .ok (.next pc g act))
    (hserve : x.serve (calls k) s.pc pc act = some x') :
    Partway (calls k) serial (chunksOf (callsOf (os ++ [act.map fun a => (.thread (.session k), a)]) k)) g x' pc := by
  have hhold := hsound.holding k s hs
  have hpart : Partway (calls k) serial (chunksOf (callsOf os k)) p.image x s.pc := by
    by_cases hcritical : s.pc.critical = true
    · exact h.partway k s hs hcritical
    · exact Partway.of_not_critical (by simpa using hcritical) _
  rw [callsOf_concat_own, chunksOf_append]
  by_cases hrecv : ∃ total, s.pc = .recv total
  · obtain ⟨total, hpc⟩ := hrecv
    rw [hpc] at hpart hnext hserve
    exact hpart.recv hnext hserve
  · have hmove := sessionStep_moves hnext
    have hnot : ∀ total, s.pc ≠ .recv total := fun total hpc => hrecv ⟨total, hpc⟩
    rw [hmove.receives_nothing hnot, List.append_nil]
    refine hpart.step hhold (fun hlock => ?_) hnot hsend hnext hserve
    rw [hlock] at hnext hhold
    obtain ⟨hfree, _⟩ := lockMutex_next hnext
    refine ⟨?_, h.settled (Stands.running hsound hs) hfree⟩
    rw [show callsOf os k = [] from hhold]
    rfl

private theorem Stands.others (h : Stands created calls s₀ serial p x os) (hsound : Sound p os)
    (hframes : p.frames (.session k) = []) (hs : p.sessions[k]? = some s)
    (hmove : SessionMove (.session k) s.node p.image s.pc pc g act)
    (hserve : x.serve (calls k) s.pc pc act = some x') {j : Nat} {u : SessionThread} (hj : j ≠ k)
    (hu : p.sessions[j]? = some u) (hcritical : u.pc.critical = true) :
    Partway (calls j) serial (chunksOf (callsOf (os ++ [act.map fun a => (.thread (.session k), a)]) j)) g x' u.pc := by
  obtain ⟨hout, hout'⟩ := hsound.guarded.others hframes hs hmove hj hu hcritical
  rw [callsOf_concat_of_ne os act (by simpa using Ne.symm hj), Shelf.serve_outside hserve hout]
  exact (h.partway j u hu hcritical).undisturbed
    (hmove.undisturbed (hsound.wired k s hs hmove.not_done) hout hout')

private theorem Stands.rests (h : Stands created calls s₀ serial p x os) (hsound : Sound p os)
    (hs : p.sessions[k]? = some s) (hmove : SessionMove (.session k) s.node p.image s.pc pc g act)
    (hserve : x.serve (calls k) s.pc pc act = some x') (hfree : g.mutexLock = none) : Settled serial g x' := by
  rcases hmove.mutex with ⟨_, hmine, _⟩ | ⟨_, hg, hact, hpc, hpc'⟩ | ⟨hsame, hunlock, hcritical⟩
  · exact absurd (hmine.symm.trans hfree) (by simp)
  · have hpart := h.partway k s hs (by rw [hpc]; rfl)
    rw [hpc] at hpart
    rw [hpc, hpc', hact] at hserve
    obtain rfl := Option.some.inj hserve
    rw [hg]
    exact hpart
  · have hbefore := hsame.symm.trans hfree
    have hout : s.pc.critical = false := by
      by_contra hin
      refine (hsound.guarded.owner.free_iff.mp hbefore) (.session k) (.inr ?_)
      simpa [ownCritical_of_getElem? hs] using hin
    have hquiet := hmove.undisturbed (hsound.wired k s hs hmove.not_done) hout (hcritical.trans hout)
    rw [Shelf.serve_outside hserve hout]
    exact (h.settled (Stands.running hsound hs) hbefore).readDataLen hquiet.readDataLen

/-- A statement of a session that is not its send leaves the server of whole sessions where it is. -/
theorem Stands.inside (h : Stands created calls s₀ serial p x os) (hsound : Sound p os)
    (hframes : p.frames (.session k) = []) (hs : p.sessions[k]? = some s) (hsend : s.pc ≠ .send)
    (hnext : sessionStep (.session k) s.node r p.image s.pc = .ok (.next pc g act))
    (hserve : x.serve (calls k) s.pc pc act = some x') :
    Stands created calls s₀ serial { p with image := g, sessions := p.sessions.set k ⟨pc, s.node⟩ } x'
      (os ++ [act.map fun a => (.thread (.session k), a)]) := by
  have hmove := sessionStep_moves hnext
  have hk := (List.getElem?_eq_some_iff.mp hs).1
  have hresponses := responses_concat_of_silent os (.thread (.session k)) (hmove.silent hsend)
  refine ⟨fun hstored => ?_, fun _ hfree => h.rests hsound hs hmove hserve hfree, fun j u hu hcritical => ?_,
    fun j response hj => ?_, ?_⟩
  · exact absurd ((Stands.running hsound hs).symm.trans hstored) (by simp)
  · by_cases hj : j = k
    · subst hj
      rw [List.getElem?_set_self hk] at hu
      obtain rfl := Option.some.inj hu
      exact h.mover hsound hs hsend hnext hserve
    · rw [List.getElem?_set_ne (Ne.symm hj)] at hu
      exact h.others hsound hframes hs hmove hserve hj hu hcritical
  · rw [hresponses] at hj
    rw [h.spent hsound hs hmove hj]
    exact h.sent j response hj
  · rw [hresponses]
    exact h.once

/-- At its send a session takes effect as one call of thread_callback. -/
theorem Stands.send (h : Stands created calls s₀ serial p x os) (hsound : Sound p os)
    (hframes : p.frames (.session k) = []) (hs : p.sessions[k]? = some s) (hsend : s.pc = .send)
    (hnext : sessionStep (.session k) s.node r p.image s.pc = .ok (.next pc g act))
    (hserve : x.serve (calls k) s.pc pc act = some x') :
    ∃ response n, act = some (.call (.send k response)) ∧
      (∀ fuel, n ≤ fuel → callback (calls k) fuel serial (chunksOf (callsOf os k)) =
        .ok (⟨x.store, p.image.readDataLen⟩, response)) ∧
      (∀ q ∈ responses os, callsOf (os ++ [act.map fun a => (.thread (.session k), a)]) q.1 = callsOf os q.1) ∧
      Stands created calls s₀ ⟨x.store, p.image.readDataLen⟩
        { p with image := g, sessions := p.sessions.set k ⟨pc, s.node⟩ } x'
        (os ++ [act.map fun a => (.thread (.session k), a)]) := by
  have hmove := sessionStep_moves hnext
  have hk := (List.getElem?_eq_some_iff.mp hs).1
  have hcritical : s.pc.critical = true := by rw [hsend]; rfl
  have hpart := h.partway k s hs hcritical
  have hnew : ∀ response, (k, response) ∉ responses os := by
    intro response hmem
    have hanswered := (hsound.holding k s hs).answered (h.sent k response hmem)
    rw [hsend] at hanswered
    exact absurd hanswered (by simp [SessionPc.answered])
  have hwired := hsound.wired k s hs hmove.not_done
  rw [hsend] at hpart hnext hserve
  obtain ⟨response, n, rfl, rfl, rfl, hcall⟩ := hpart.send hwired hnext
  obtain rfl := Option.some.inj hserve
  have hresponses : responses (os ++ [some (.thread (.session k), .call (.send k response))]) =
      responses os ++ [(k, response)] := responses_concat_send os (.thread (.session k)) k response
  have hcalls : callsOf (os ++ [some (.thread (.session k), .call (.send k response))]) k =
      callsOf os k ++ [.send k response] := callsOf_concat_own os (some (.call (.send k response))) k
  have hothers : ∀ q ∈ responses os,
      callsOf (os ++ [some (.thread (.session k), .call (.send k response))]) q.1 = callsOf os q.1 := by
    intro q hq
    refine callsOf_concat_of_ne os (some (.call (.send k response))) (fun he => hnew q.2 ?_)
    obtain rfl := Tid.session.inj (Actor.thread.inj he)
    exact hq
  refine ⟨response, n, rfl, hcall, hothers, fun hstored => ?_, fun _ _ => ⟨rfl, rfl⟩, fun j u hu hin => ?_,
    fun j answer hj => ?_, ?_⟩
  · exact absurd ((Stands.running hsound hs).symm.trans hstored) (by simp)
  · by_cases hj : j = k
    · subst hj
      rw [List.getElem?_set_self hk] at hu
      obtain rfl := Option.some.inj hu
      exact ⟨rfl, rfl⟩
    · rw [List.getElem?_set_ne (Ne.symm hj)] at hu
      obtain ⟨hout, _⟩ := hsound.guarded.others hframes hs hmove hj hu hin
      exact absurd (hcritical.symm.trans hout) (by simp)
  · change (j, answer) ∈ responses (os ++ [some (.thread (.session k), .call (.send k response))]) at hj
    rw [hresponses] at hj
    change _ ∈ callsOf (os ++ [some (.thread (.session k), .call (.send k response))]) j
    rcases List.mem_append.mp hj with hj | hj
    · rw [hothers _ hj]
      exact h.sent j answer hj
    · obtain ⟨rfl, rfl⟩ := Prod.mk.inj (List.mem_singleton.mp hj)
      rw [hcalls]
      simp
  · change ((responses (os ++ [some (.thread (.session k), .call (.send k response))])).map Prod.fst).Nodup
    rw [hresponses, List.map_append, List.map_singleton, ← List.concat_eq_append]
    refine List.Nodup.concat (fun hmem => ?_) h.once
    obtain ⟨q, hq, hqk⟩ := List.mem_map.mp hmem
    obtain rfl : q.1 = k := hqk
    exact hnew q.2 hq

end Stands

section Refines
variable {timer : Bool} {created : σ → σ} {calls : Nat → StoreCalls σ} {s₀ : σ} {serial : ServerState σ}
  {p p' : Proc} {x x' : Shelf σ} {os : Trace} {o : Option (Actor × Act)} {g : Image} {act : Option Act}
  {k : Nat} {s : SessionThread} {pc : SessionPc} {r : Reply}

theorem refines_start (created : σ → σ) (calls : Nat → StoreCalls σ) (s₀ : σ) :
    Refines created calls s₀ ⟨created s₀, 0⟩ .start ⟨s₀, 0⟩ [] :=
  ⟨stands_start created calls s₀, 0, fun _ _ => rfl⟩

/-- What sends nothing adds no session to those that have been served. -/
theorem Refines.unserved (h : Refines created calls s₀ serial p x os)
    (hresponses : responses (os ++ [o]) = responses os)
    (hcalls : ∀ q ∈ responses os, callsOf (os ++ [o]) q.1 = callsOf os q.1)
    (hstands : Stands created calls s₀ serial p' x' (os ++ [o])) :
    Refines created calls s₀ serial p' x' (os ++ [o]) := by
  have hserved : served calls (os ++ [o]) = served calls os := by
    rw [served, served, hresponses]
    apply List.map_congr_left
    intro q hq
    rw [hcalls q hq]
  refine ⟨hstands, ?_⟩
  rw [hserved, hresponses]
  exact h.run

/-- A step that does nothing that shows. -/
theorem Refines.silence (h : Refines created calls s₀ serial p x os) (e : Option Ending) :
    Refines created calls s₀ serial { p with ended := e } x (os ++ [none]) :=
  h.unserved (responses_concat_none os) (fun q _ => callsOf_concat_none os q.1)
    (h.toStands.silence e (responses_concat_none os) (callsOf_concat_none os))

theorem Refines.main {pc : MainPc} (h : Refines created calls s₀ serial p x os) (hsound : Sound p os)
    (hmain : p.frames .main = [])
    (hmove : MainMove timer p.sessions.length p.finished p.image p.main pc g act) :
    Refines created calls s₀ serial
      { p with image := g, main := pc, sessions := p.sessions ++ p.main.created }
      (if p.main = .createOpen ∧ pc = .createClose then ⟨created x.store, x.reads⟩ else x)
      (os ++ [act.map fun a => (.thread .main, a)]) :=
  h.unserved (responses_concat_of_silent os (.thread .main) hmove.silent)
    (fun _ _ => callsOf_concat_of_ne os act (by simp)) (h.toStands.main hsound hmain hmove)

/-- A statement of a session that is not its send leaves the server of whole sessions where it is. -/
theorem Refines.inside (h : Refines created calls s₀ serial p x os) (hsound : Sound p os)
    (hframes : p.frames (.session k) = []) (hs : p.sessions[k]? = some s) (hsend : s.pc ≠ .send)
    (hnext : sessionStep (.session k) s.node r p.image s.pc = .ok (.next pc g act))
    (hserve : x.serve (calls k) s.pc pc act = some x') :
    Refines created calls s₀ serial { p with image := g, sessions := p.sessions.set k ⟨pc, s.node⟩ } x'
      (os ++ [act.map fun a => (.thread (.session k), a)]) := by
  have hmove := sessionStep_moves hnext
  exact h.unserved (responses_concat_of_silent os (.thread (.session k)) (hmove.silent hsend))
    (fun q hq => h.toStands.spent hsound hs hmove hq) (h.toStands.inside hsound hframes hs hsend hnext hserve)

/-- At its send a session is the next one that is served. -/
theorem Refines.send (h : Refines created calls s₀ serial p x os) (hsound : Sound p os)
    (hframes : p.frames (.session k) = []) (hs : p.sessions[k]? = some s) (hsend : s.pc = .send)
    (hnext : sessionStep (.session k) s.node r p.image s.pc = .ok (.next pc g act))
    (hserve : x.serve (calls k) s.pc pc act = some x') :
    Refines created calls s₀ ⟨x.store, p.image.readDataLen⟩
      { p with image := g, sessions := p.sessions.set k ⟨pc, s.node⟩ } x'
      (os ++ [act.map fun a => (.thread (.session k), a)]) := by
  obtain ⟨response, n, rfl, hcall, hothers, hstands⟩ := h.toStands.send hsound hframes hs hsend hnext hserve
  refine ⟨hstands, ?_⟩
  obtain ⟨m, hrun⟩ := h.run
  refine ⟨max m n, fun fuel hfuel => ?_⟩
  have hresponses : responses (os ++ [some (.thread (.session k), .call (.send k response))]) =
      responses os ++ [(k, response)] := responses_concat_send os (.thread (.session k)) k response
  have hcalls : callsOf (os ++ [some (.thread (.session k), .call (.send k response))]) k =
      callsOf os k ++ [.send k response] := callsOf_concat_own os (some (.call (.send k response))) k
  have hserved : served calls (os ++ [some (.thread (.session k), .call (.send k response))]) =
      served calls os ++ [.complete ((chunksOf (callsOf os k)).map delivered) (calls k)] := by
    rw [served, hresponses, List.map_append, List.map_singleton, hcalls, chunksOf_append, served]
    refine congrArg₂ (· ++ ·) (List.map_congr_left fun q hq => by rw [← hothers q hq]; rfl) ?_
    simp [chunksOf]
  have hstep := server_step_eq_some.mpr (hcall fuel (by omega))
  rw [Option.map_some, hserved, hresponses, (server σ fuel).run_concat (hrun fuel (by omega)), hstep, List.map_append]
  rfl

structure Hosts (created : σ → σ) (calls : Nat → StoreCalls σ) (s₀ : σ) (p : Proc) (x : Shelf σ) (os : Trace) :
    Prop where
  sound : Sound p os
  quiet : ∀ t, p.frames t = []
  refines : ∃ serial, Refines created calls s₀ serial p x os

theorem hosts_start (created : σ → σ) (calls : Nat → StoreCalls σ) (s₀ : σ) :
    Hosts created calls s₀ .start ⟨s₀, 0⟩ [] :=
  ⟨sound_start, fun _ => rfl, _, refines_start created calls s₀⟩

private theorem Hosts.silence (h : Hosts created calls s₀ p x os) (e : Option Ending) {t : Tid}
    (hattend : x.attend created calls p { p with ended := e } none t = some x') :
    Hosts created calls s₀ { p with ended := e } x' (os ++ [none]) := by
  obtain ⟨serial, hrefines⟩ := h.refines
  obtain rfl := Option.some.inj ((x.attend_stays created calls p e t).symm.trans hattend)
  exact ⟨h.sound.silence e, h.quiet, serial, hrefines.silence e⟩

/-- A statement of any thread keeps the server of whole sessions where the threads have come to. -/
theorem Hosts.step {t : Tid} (h : Hosts created calls s₀ p x os)
    (hstep : (hosted timer created calls).step (p, x) (t, r) = some ((p', x'), o)) :
    Hosts created calls s₀ p' x' (os ++ [o]) := by
  obtain ⟨hprocess, hattend⟩ := hosted_step_eq_some.mp hstep
  obtain ⟨serial, hrefines⟩ := h.refines
  have hmoves := step_moves hprocess
  have hsound := h.sound.step (calm_step p rfl) hmoves
  cases hmoves with
  | stays => exact h.silence p.ended hattend
  | handlerEnds _ hframes => exact absurd ((h.quiet t).symm.trans hframes) (by simp)
  | handler _ hframes => exact absurd ((h.quiet t).symm.trans hframes) (by simp)
  | mainEnds => exact h.silence _ hattend
  | main _ hmain hmove =>
    obtain rfl := Option.some.inj hattend
    exact ⟨hsound, h.quiet, serial, hrefines.main h.sound hmain hmove⟩
  | sessionEnds => exact h.silence _ hattend
  | @session k s _ _ _ _ hended hframes hs =>
    rcases step_session hended hframes hs hprocess with ⟨pc, g, act, hnext, hp, ho⟩ | ⟨e, _, hp, ho⟩ | ⟨hp, ho⟩
    · rw [hp] at hattend hsound ⊢
      rw [ho] at hattend hsound ⊢
      simp only [Shelf.attend, hs, List.getElem?_set_self (List.getElem?_eq_some_iff.mp hs).1] at hattend
      have hserve : x.serve (calls k) s.pc pc act = some x' := by
        rw [← hattend]
        cases act <;> rfl
      by_cases hsend : s.pc = .send
      · exact ⟨hsound, h.quiet, _, hrefines.send h.sound hframes hs hsend hnext hserve⟩
      · exact ⟨hsound, h.quiet, serial, hrefines.inside h.sound hframes hs hsend hnext hserve⟩
    · rw [hp] at hattend ⊢
      rw [ho] at hattend ⊢
      exact h.silence (some e) hattend
    · rw [hp] at hattend ⊢
      rw [ho] at hattend ⊢
      exact h.silence p.ended hattend

/-- The threads refine the server of whole sessions, over any store and in any order. -/
theorem hosts_run {is : List (Tid × Reply)}
    (hrun : (hosted timer created calls).run (.start, ⟨s₀, 0⟩) is = some ((p, x), os)) :
    Hosts created calls s₀ p x os := by
  apply (hosted timer created calls).run_invariant (I := fun s os => Hosts created calls s₀ s.1 s.2 os)
    _ (hosts_start created calls s₀) hrun
  rintro ⟨p, x⟩ os ⟨t, r⟩ ⟨p', x'⟩ o h hstep
  exact h.step hstep

end Refines

/-- However the statements of main and the session threads interleave, the responses on the
connections, in the order in which they are sent, are those of the server that runs
thread_callback as one call for one session after the other, and while the mutex is free the
store and read_data_len are what that server leaves. -/
theorem responses_serial (timer : Bool) (created : σ → σ) (calls : Nat → StoreCalls σ) (s₀ : σ)
    (is : List (Tid × Reply)) {p : Proc} {x : Shelf σ} {os : Trace}
    (hrun : (hosted timer created calls).run (.start, ⟨s₀, 0⟩) is = some ((p, x), os)) :
    ∃ serial n, (∀ fuel, n ≤ fuel → (server σ fuel).run ⟨created s₀, 0⟩ (served calls os) =
        some (serial, (responses os).map Prod.snd)) ∧
      ((responses os).map Prod.fst).Nodup ∧
      (∀ k response, (k, response) ∈ responses os → Call.send k response ∈ callsOf os k) ∧
      (p.main.stored = true → p.image.mutexLock = none →
        x.store = serial.store ∧ p.image.readDataLen = serial.readDataLen) := by
  obtain ⟨serial, h⟩ := (hosts_run hrun).refines
  obtain ⟨n, hserial⟩ := h.run
  exact ⟨serial, n, hserial, h.once, h.sent, h.settled⟩

/-- On a regular file: the second session takes the mutex and the first has to wait for it. -/
theorem responses_serial_two_sessions :
    let calls : Nat → StoreCalls RegularFile := fun _ => fileCalls (some 2) ⟨fun _ _ => 0, fun _ _ h => h⟩
    ∃ p x os serial n, (hosted false (fun _ => ⟨[], 0⟩) calls).run (.start, ⟨⟨[120], 0⟩, 0⟩)
        (statements (startUp false ++ accepting 4 ++ List.replicate 4 (.ok .main 0) ++ accepting 5 ++
          .ok (.session 1) 0 :: .ok (.session 0) 0 :: (serving 1 6 [98, 10] [98, 10]).tail ++
            serving 0 7 [97, 10] [98, 10, 97, 10])) = some ((p, x), os) ∧
      responses os = [(1, [98, 10]), (0, [98, 10, 97, 10])] ∧
      ∀ fuel, n ≤ fuel → (server RegularFile fuel).run ⟨⟨[], 0⟩, 0⟩ (served calls os) =
        some (serial, [[98, 10], [98, 10, 97, 10]]) := by
  intro calls
  have heval : ((hosted false (fun _ => ⟨[], 0⟩) calls).run (.start, ⟨⟨[120], 0⟩, 0⟩)
      (statements (startUp false ++ accepting 4 ++ List.replicate 4 (.ok .main 0) ++ accepting 5 ++
        .ok (.session 1) 0 :: .ok (.session 0) 0 :: (serving 1 6 [98, 10] [98, 10]).tail ++
          serving 0 7 [97, 10] [98, 10, 97, 10]))).map (fun q => responses q.2) =
        some [(1, [98, 10]), (0, [98, 10, 97, 10])] := by decide +kernel
  obtain ⟨⟨⟨p, x⟩, os⟩, hrun, hos⟩ := Option.map_eq_some_iff.mp heval
  obtain ⟨serial, n, hserial, _⟩ := responses_serial false _ calls _ _ hrun
  rw [hos] at hserial
  exact ⟨p, x, os, serial, n, hrun, hos, hserial⟩

end Aesd.Server
