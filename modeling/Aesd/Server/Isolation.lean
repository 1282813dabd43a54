import Mathlib.Algebra.BigOperators.Group.Finset.Basic
import Aesd.Server.Interference

/-! Session threads do not disturb each other: a session that holds the mutex finds the
globals as its own earlier statements left them, whatever the others do meanwhile. -/
namespace Aesd.Server
open Aesd.Foundations Aesd.Driver

abbrev Trace := List (Option (Actor × Act))

def callsOf (os : Trace) (k : Nat) : List Call :=
  os.flatMap fun
    | some (who, act) => if who = .thread (.session k) then Act.calls (some act) else []
    | none => []

def SessionPc.released : SessionPc → Bool
  | .complete | .closeSocket | .done => true
  | _ => false

def SessionPc.answered : SessionPc → Bool
  | .freeRead | .nullReadAgain | .unlock | .complete | .closeSocket | .done => true
  | _ => false

/-- The length of the packet of session k, once it has released the mutex. -/
def released (sessions : List SessionThread) (os : Trace) (k : Nat) : Nat :=
  match sessions[k]? with
  | some s => if s.pc.released then (packetOf (callsOf os k)).length else 0
  | none => 0

def releasedTotal (sessions : List SessionThread) (os : Trace) : Nat :=
  ∑ k ∈ Finset.range sessions.length, released sessions os k

def Idle (p : Proc) : Prop := (∀ s ∈ p.sessions, s.pc = .done) ∧ p.main.pending = false

/-- What holds of the process and of what it has done, as long as signals find it idle. -/
structure Sound (p : Proc) (os : Trace) : Prop where
  guarded : Guarded p
  fresh : ∀ b, p.image.next ≤ b → p.image.memory b = none
  pending : Pending p.image p.sessions.length p.main
  wired : ∀ k s, p.sessions[k]? = some s → s.pc ≠ .done → Wired p.image k s.node
  holding : ∀ k s, p.sessions[k]? = some s → Holding k (releasedTotal p.sessions os) p.image (callsOf os k) s.pc
  silent : ∀ k, p.sessions.length ≤ k → callsOf os k = []
  resting : p.image.mutexLock = none → Resting (releasedTotal p.sessions os) p.image
  handlers : ∀ t fr, fr ∈ p.frames t → t = .main ∧ (∃ pc, fr = .sighandler pc) ∧ Idle p

section Trace
variable {p : Proc} {os : Trace} {k : Nat} {s : SessionThread} {g : Image} {act : Option Act} {pc : SessionPc}

theorem callsOf_concat (os : Trace) (who : Actor) (act : Option Act) (k : Nat) :
    callsOf (os ++ [act.map fun a => (who, a)]) k =
      callsOf os k ++ if who = .thread (.session k) then Act.calls act else [] := by
  rw [callsOf, List.flatMap_append, List.flatMap_singleton]
  cases act with
  | none => simp [callsOf, Act.calls]
  | some a => rfl

theorem callsOf_concat_own (os : Trace) (act : Option Act) (k : Nat) :
    callsOf (os ++ [act.map fun a => (.thread (.session k), a)]) k = callsOf os k ++ Act.calls act := by
  rw [callsOf_concat, if_pos rfl]

theorem callsOf_concat_of_ne (os : Trace) {who : Actor} (act : Option Act) (h : who ≠ .thread (.session k)) :
    callsOf (os ++ [act.map fun a => (who, a)]) k = callsOf os k := by
  rw [callsOf_concat, if_neg h, List.append_nil]

theorem callsOf_concat_none (os : Trace) (k : Nat) : callsOf (os ++ [none]) k = callsOf os k := by
  simp [callsOf]

theorem SessionPc.answered_of_released {pc : SessionPc} (h : pc.released = true) : pc.answered = true := by
  cases pc with
  | complete | closeSocket | done => rfl
  | _ => exact absurd h (by simp [SessionPc.released])

theorem SessionMove.released {me : Tid} {node : Nat} {g g' : Image} {pc pc' : SessionPc}
    (h : SessionMove me node g pc pc' g' act) (hpc : pc ≠ .unlock) :
    pc'.released = pc.released ∧ (pc.released = true → Act.calls act = []) := by
  cases h with
  | unlock => exact absurd rfl hpc
  | realloc | read | readClosed => exact ⟨by split <;> rfl, by simp [SessionPc.released]⟩
  | complete | closeSocket => exact ⟨rfl, fun _ => rfl⟩
  | _ => exact ⟨rfl, by simp [SessionPc.released]⟩

private theorem released_other {j : Nat} (hj : j ≠ k) :
    released (p.sessions.set k ⟨pc, s.node⟩) (os ++ [act.map fun a => (.thread (.session k), a)]) j =
      released p.sessions os j := by
  simp only [released, List.getElem?_set_ne (Ne.symm hj)]
  rw [callsOf_concat_of_ne]
  simpa using Ne.symm hj

theorem releasedTotal_session (hs : p.sessions[k]? = some s) (hrel : pc.released = s.pc.released)
    (hcalls : s.pc.released = true → Act.calls act = []) :
    releasedTotal (p.sessions.set k ⟨pc, s.node⟩) (os ++ [act.map fun a => (.thread (.session k), a)]) =
        releasedTotal p.sessions os := by
  have hk := (List.getElem?_eq_some_iff.mp hs).1
  rw [releasedTotal, List.length_set]
  refine Finset.sum_congr rfl fun j _ => ?_
  by_cases hj : j = k
  · subst hj
    simp only [released, List.getElem?_set_self hk, hs, hrel]
    split
    · rename_i hout
      rw [callsOf_concat_own, hcalls hout, List.append_nil]
    · rfl
  · exact released_other hj

theorem releasedTotal_unlock (hs : p.sessions[k]? = some s) (hrel : s.pc.released = false)
    (hrel' : pc.released = true) (hcalls : Act.calls act = []) :
    releasedTotal (p.sessions.set k ⟨pc, s.node⟩) (os ++ [act.map fun a => (.thread (.session k), a)]) =
        releasedTotal p.sessions os + (packetOf (callsOf os k)).length := by
  have hk := (List.getElem?_eq_some_iff.mp hs).1
  have hmem : k ∈ Finset.range p.sessions.length := Finset.mem_range.mpr hk
  rw [releasedTotal, releasedTotal, List.length_set, ← Finset.add_sum_erase _ _ hmem,
    ← Finset.add_sum_erase _ (released p.sessions os) hmem]
  have hothers : ∀ j ∈ (Finset.range p.sessions.length).erase k,
      released (p.sessions.set k ⟨pc, s.node⟩) (os ++ [act.map fun a => (.thread (.session k), a)]) j =
        released p.sessions os j :=
    fun j hj => released_other (Finset.ne_of_mem_erase hj)
  rw [Finset.sum_congr rfl hothers]
  have hbefore : released p.sessions os k = 0 := by simp [released, hs, hrel]
  have hafter : released (p.sessions.set k ⟨pc, s.node⟩)
      (os ++ [act.map fun a => (.thread (.session k), a)]) k = (packetOf (callsOf os k)).length := by
    simp only [released, List.getElem?_set_self hk, hrel', if_true]
    rw [callsOf_concat_own, hcalls, List.append_nil]
  rw [hafter, hbefore, Nat.zero_add, Nat.add_comm]

end Trace

section Sound
variable {timer : Bool} {p p' : Proc} {os : Trace} {i : Input} {o : Option (Actor × Act)} {g : Image}
  {act : Option Act}

theorem sound_start : Sound Proc.start [] := by
  refine ⟨guarded_start, fun _ _ => rfl, trivial, ?_, ?_, fun _ _ => rfl, fun _ => ⟨rfl, rfl, rfl⟩, ?_⟩
  · intro k s hs
    exact absurd hs (by simp [Proc.start])
  · intro k s hs
    exact absurd hs (by simp [Proc.start])
  · intro t fr hfr
    exact absurd hfr (by simp [Proc.start])

theorem created_cases {k : Nat} {s : SessionThread}
    (hs : (p.sessions ++ p.main.created)[k]? = some s) :
    p.sessions[k]? = some s ∨ k = p.sessions.length ∧ s ∈ p.main.created := by
  by_cases hk : k < p.sessions.length
  · rw [List.getElem?_append_left hk] at hs
    exact .inl hs
  · rw [List.getElem?_append_right (Nat.not_lt.mp hk)] at hs
    refine .inr ⟨?_, List.mem_of_getElem? hs⟩
    have hlt := (List.getElem?_eq_some_iff.mp hs).1
    have hone : p.main.created.length ≤ 1 := by cases p.main <;> simp [MainPc.created]
    omega

theorem releasedTotal_main (act : Option Act) (hsilent : ∀ k, p.sessions.length ≤ k → callsOf os k = []) :
    releasedTotal (p.sessions ++ p.main.created) (os ++ [act.map fun a => (.thread .main, a)]) =
        releasedTotal p.sessions os := by
  have hold : ∀ k, k < p.sessions.length →
      released (p.sessions ++ p.main.created) (os ++ [act.map fun a => (.thread .main, a)]) k =
        released p.sessions os k := by
    intro k hk
    simp only [released, List.getElem?_append_left hk]
    rw [callsOf_concat_of_ne os act (by simp)]
  rw [releasedTotal, List.length_append, Finset.sum_range_add]
  rw [Finset.sum_congr rfl fun k hk => hold k (Finset.mem_range.mp hk)]
  refine Nat.add_eq_left.mpr (Finset.sum_eq_zero fun j _ => ?_)
  simp only [released, List.getElem?_append_right (Nat.le_add_right ..)]
  rw [callsOf_concat_of_ne os act (by simp), hsilent _ (Nat.le_add_right ..)]
  split
  · split <;> rfl
  · rfl

theorem Sound.main {pc : MainPc} (h : Sound p os) (hmain : p.frames .main = [])
    (hmove : MainMove timer p.sessions.length p.finished p.image p.main pc g act) :
    Sound { p with image := g, main := pc, sessions := p.sessions ++ p.main.created }
      (os ++ [act.map fun a => (.thread .main, a)]) := by
  have hcreated : ∀ s ∈ p.main.created, s.pc = .lock ∧ Wired g p.sessions.length s.node :=
    fun s hs => hmove.created h.pending hs
  have htotal := releasedTotal_main act h.silent
  have hcalls : ∀ k, callsOf (os ++ [act.map fun a => (.thread .main, a)]) k = callsOf os k :=
    fun k => callsOf_concat_of_ne os act (by simp)
  -- before the loop there are no sessions that main could disturb
  have hspares : ∀ (k : Nat) (s : SessionThread), p.sessions[k]? = some s → MainSpares p.image g := by
    intro k s hs
    exact hmove.spares (h.guarded.running (List.mem_of_getElem? hs)) h.pending h.fresh
  refine ⟨h.guarded.main hmain hmove, hmove.fresh h.fresh, ?_, ?_, ?_, ?_, ?_, ?_⟩
  · rw [List.length_append]
    exact hmove.pending h.pending
  · intro k s hs hdone
    rcases created_cases hs with hs | ⟨rfl, hnew⟩
    · obtain ⟨q, hq, hid, hk⟩ := h.wired k s hs hdone
      exact ⟨q, (hspares k s hs).nodes _ q hq (by simp [hid]), hid, (hspares k s hs).fds _ _ hk⟩
    · exact (hcreated s hnew).2
  · intro k s hs
    rw [htotal, hcalls]
    rcases created_cases hs with hs | ⟨rfl, hnew⟩
    · exact (h.holding k s hs).undisturbed (hspares k s hs).undisturbed
    · rw [(hcreated s hnew).1]
      exact h.silent _ le_rfl
  · intro k hk
    rw [List.length_append] at hk
    rw [hcalls]
    exact h.silent k (by omega)
  · intro hfree
    have hbefore : p.image.mutexLock = none := by
      rcases hmove.mutex.1 with hsame | ⟨hstart, _⟩
      · exact hsame.symm.trans hfree
      · exact h.guarded.free_of_starting hstart hmain
    rw [htotal]
    exact hmove.resting (h.resting hbefore)
  · intro t fr hfr
    obtain ⟨rfl, _⟩ := h.handlers t fr hfr
    rw [show p.frames .main = [] from hmain] at hfr
    exact absurd hfr (by simp)

theorem SessionMove.not_done {me : Tid} {node : Nat} {g g' : Image} {pc pc' : SessionPc}
    (h : SessionMove me node g pc pc' g' act) : pc ≠ .done := by
  cases h <;> simp

private theorem Spares.wired_other {j k node node' : Nat} {pc pc' : SessionPc} {g g' : Image}
    (h : Spares k node pc pc' g g') (hwired : Wired g k node) (hj : j ≠ k) (hother : Wired g j node') :
    Wired g' j node' := by
  obtain ⟨q, hq, hid, hk⟩ := hother
  refine ⟨q, (h.nodes node' q (.inl ?_)).mpr hq, hid, (h.fds _ _ (by simp) (.inl (by simpa using hj))).mpr hk⟩
  rintro rfl
  obtain ⟨q', hq', hid', _⟩ := hwired
  obtain rfl := Block.node.inj (Option.some.inj (hq.symm.trans hq'))
  exact hj (Option.some.inj (hid.symm.trans hid'))

private theorem Spares.pending {k node n : Nat} {pc pc' : SessionPc} {g g' : Image} {main : MainPc}
    (h : Spares k node pc pc' g g') (hwired : Wired g k node) (hk : k < n) (hpending : Pending g n main) :
    Pending g' n main := by
  have fds : ∀ {f}, g.fds f = some (.connection n) → g'.fds f = some (.connection n) :=
    (h.fds _ _ (by simp) (.inl (by simpa using Nat.ne_of_gt hk))).mpr
  have nodes : ∀ {a q}, g.memory a = some (.node q) → q.threadId = none → g'.memory a = some (.node q) := by
    intro a q hq hid
    refine (h.nodes a q (.inl ?_)).mpr hq
    rintro rfl
    obtain ⟨q', hq', hid', _⟩ := hwired
    obtain rfl := Block.node.inj (Option.some.inj (hq.symm.trans hq'))
    exact absurd (hid.symm.trans hid') (by simp)
  cases main with
  | mallocNode =>
    change g'.fds g'.acceptedSockfd = _
    rw [h.acceptedSockfd]
    exact fds hpending
  | setSockfd a =>
    obtain ⟨hconnection, q, hq, hid⟩ := hpending
    refine ⟨?_, q, nodes hq hid, hid⟩
    rw [h.acceptedSockfd]
    exact fds hconnection
  | setComplete a | insert a | create a =>
    obtain ⟨q, hq, hid, hconnection⟩ := hpending
    exact ⟨q, nodes hq hid, hid, fds hconnection⟩
  | _ => trivial

private theorem SessionMove.releases_nothing {k : Nat} {s : SessionThread} {pc : SessionPc}
    (hmove : SessionMove (.session k) s.node p.image s.pc pc g act) (hs : p.sessions[k]? = some s)
    (hunlock : s.pc ≠ .unlock) :
    releasedTotal (p.sessions.set k ⟨pc, s.node⟩) (os ++ [act.map fun a => (.thread (.session k), a)]) =
      releasedTotal p.sessions os :=
  releasedTotal_session hs (hmove.released hunlock).1 (hmove.released hunlock).2

private theorem Sound.mover_holds {k : Nat} {s : SessionThread} {pc : SessionPc} (h : Sound p os)
    (hs : p.sessions[k]? = some s) (hmove : SessionMove (.session k) s.node p.image s.pc pc g act) :
    Holding k (releasedTotal (p.sessions.set k ⟨pc, s.node⟩) (os ++ [act.map fun a => (.thread (.session k), a)])) g
      (callsOf (os ++ [act.map fun a => (.thread (.session k), a)]) k) pc := by
  have hwired := h.wired k s hs hmove.not_done
  rw [callsOf_concat_own]
  have hnext := (h.holding k s hs).step hmove (fun _ _ => hwired.own) h.resting
  by_cases hunlock : s.pc = .unlock
  · refine hnext.of_not_critical ?_ _ g
    rcases hmove.mutex with ⟨_, _, hpc, _⟩ | ⟨_, _, _, _, hpc⟩ | ⟨_, hpc, _⟩
    · exact absurd (hunlock.symm.trans hpc) (by simp)
    · rw [hpc]
      rfl
    · exact absurd hunlock hpc
  · rwa [hmove.releases_nothing hs hunlock]

private theorem Sound.others_hold {j k : Nat} {s u : SessionThread} {pc : SessionPc} (h : Sound p os)
    (hframes : p.frames (.session k) = []) (hs : p.sessions[k]? = some s)
    (hmove : SessionMove (.session k) s.node p.image s.pc pc g act) (hj : j ≠ k) (hu : p.sessions[j]? = some u) :
    Holding j (releasedTotal (p.sessions.set k ⟨pc, s.node⟩) (os ++ [act.map fun a => (.thread (.session k), a)])) g
      (callsOf (os ++ [act.map fun a => (.thread (.session k), a)]) j) u.pc := by
  rw [callsOf_concat_of_ne os act (by simpa using Ne.symm hj)]
  have hhold := h.holding j u hu
  by_cases hcritical : u.pc.critical = true
  -- who else holds the mutex is not disturbed, since session k is then outside of it
  · obtain ⟨hout, hout'⟩ := h.guarded.others hframes hs hmove hj hu hcritical
    have hunlock : s.pc ≠ .unlock := by
      intro he
      rw [he] at hout
      exact absurd hout (by simp [SessionPc.critical])
    rw [hmove.releases_nothing hs hunlock]
    exact hhold.undisturbed (hmove.undisturbed (h.wired k s hs hmove.not_done) hout hout')
  · exact hhold.of_not_critical (by simpa using hcritical) _ g

private theorem Sound.session_rests {k : Nat} {s : SessionThread} {pc : SessionPc} (h : Sound p os)
    (hs : p.sessions[k]? = some s) (hmove : SessionMove (.session k) s.node p.image s.pc pc g act)
    (hfree : g.mutexLock = none) :
    Resting (releasedTotal (p.sessions.set k ⟨pc, s.node⟩)
      (os ++ [act.map fun a => (.thread (.session k), a)])) g := by
  rcases hmove.mutex with ⟨_, hmine, _⟩ | ⟨_, hg, hact, hpc, hpc'⟩ | ⟨hsame, hunlock, hcritical⟩
  · exact absurd (hmine.symm.trans hfree) (by simp)
  · have hhold := h.holding k s hs
    rw [hpc] at hhold
    obtain ⟨⟨packet, hanswered, hrecv, hlen⟩, hread⟩ := hhold
    rw [releasedTotal_unlock hs (by rw [hpc]; rfl) (by rw [hpc']; rfl) (by rw [hact]; rfl),
      hanswered.packetOf_eq, Int.natCast_add]
    rw [hg]
    exact ⟨hrecv, hread, hlen⟩
  · have hbefore := hsame.symm.trans hfree
    have hout : s.pc.critical = false := by
      by_contra hin
      refine (h.guarded.owner.free_iff.mp hbefore) (.session k) (.inr ?_)
      simpa [ownCritical_of_getElem? hs] using hin
    have hquiet := hmove.undisturbed (h.wired k s hs hmove.not_done) hout (hcritical.trans hout)
    rw [hmove.releases_nothing hs hunlock]
    obtain ⟨hrecv, hread, hlen⟩ := h.resting hbefore
    exact ⟨hquiet.recvData.trans hrecv, hquiet.readBuffer.trans hread, hquiet.readDataLen.trans hlen⟩

theorem Sound.session {k : Nat} {s : SessionThread} {pc : SessionPc} (h : Sound p os)
    (hframes : p.frames (.session k) = []) (hs : p.sessions[k]? = some s)
    (hmove : SessionMove (.session k) s.node p.image s.pc pc g act) :
    Sound { p with image := g, sessions := p.sessions.set k ⟨pc, s.node⟩ }
      (os ++ [act.map fun a => (.thread (.session k), a)]) := by
  have hk := (List.getElem?_eq_some_iff.mp hs).1
  have hwired := h.wired k s hs hmove.not_done
  have hspares := (h.holding k s hs).spares hmove hwired h.fresh
  refine ⟨h.guarded.session hframes hs hmove, hspares.fresh, ?_, ?_, ?_, ?_, fun hfree => ?_, ?_⟩
  · rw [List.length_set]
    exact hspares.pending hwired hk h.pending
  · intro j u hu hdone
    by_cases hj : j = k
    · subst hj
      rw [List.getElem?_set_self hk] at hu
      obtain rfl := Option.some.inj hu
      exact hspares.wired hmove hwired hdone
    · rw [List.getElem?_set_ne (Ne.symm hj)] at hu
      exact hspares.wired_other hwired hj (h.wired j u hu hdone)
  · intro j u hu
    by_cases hj : j = k
    · subst hj
      rw [List.getElem?_set_self hk] at hu
      obtain rfl := Option.some.inj hu
      exact h.mover_holds hs hmove
    · rw [List.getElem?_set_ne (Ne.symm hj)] at hu
      exact h.others_hold hframes hs hmove hj hu
  · intro j hj
    rw [List.length_set] at hj
    rw [callsOf_concat_of_ne os act (by simpa using Nat.ne_of_lt (hk.trans_le hj))]
    exact h.silent j hj
  · exact h.session_rests hs hmove hfree
  · intro t fr hfr
    obtain ⟨_, _, hidle⟩ := h.handlers t fr hfr
    exact absurd (hidle.1 s (List.mem_of_getElem? hs)) hmove.not_done

private theorem releasedTotal_congr {os' : Trace} (sessions : List SessionThread)
    (hcalls : ∀ k, callsOf os' k = callsOf os k) : releasedTotal sessions os' = releasedTotal sessions os := by
  simp only [releasedTotal, released, hcalls]

private theorem Pending.of_not_pending {pc : MainPc} (h : pc.pending = false) (g : Image) (n : Nat) :
    Pending g n pc := by
  cases pc with
  | mallocNode | setSockfd | setComplete | insert | create => exact absurd h (by simp [MainPc.pending])
  | _ => trivial

/-- sighandler finds nothing of a session to take away while the process is idle. -/
theorem Sound.handler {t : Tid} {r : Reply} {fr : Frame} {rest : List Frame} {fr' : Option Frame}
    (h : Sound p os) (hframes : p.frames t = fr :: rest)
    (hstep : frameStep t r p.image fr = .ok (.next fr' g act)) :
    Sound { p with image := g, frames := Function.update p.frames t (fr'.toList ++ rest) }
      (os ++ [act.map fun a => (.handler t, a)]) := by
  obtain ⟨rfl, ⟨pc, rfl⟩, hidle⟩ := h.handlers t fr (by rw [hframes]; exact List.mem_cons_self)
  obtain ⟨next, hnext, rfl⟩ := frameStep_sighandler hstep
  have hleaves := sighandlerStep_leaves hnext
  have hcalls : ∀ k, callsOf (os ++ [act.map fun a => (.handler .main, a)]) k = callsOf os k :=
    fun k => callsOf_concat_of_ne os act (by simp)
  refine ⟨h.guarded.handler hframes hstep, fun b hb => ?_, ?_, fun k s hs hdone => ?_, fun k s hs => ?_,
    fun k hk => ?_, fun hfree => ?_, fun t fr hfr => ?_⟩
  · exact hleaves.memory b (h.fresh b (by rwa [hleaves.next] at hb))
  · exact Pending.of_not_pending hidle.2 _ _
  · exact absurd (hidle.1 s (List.mem_of_getElem? hs)) hdone
  · have hdone := hidle.1 s (List.mem_of_getElem? hs)
    rw [hcalls]
    exact (h.holding k s hs).of_not_critical (by rw [hdone]; rfl) _ _
  · rw [hcalls]
    exact h.silent k hk
  · obtain ⟨hrecv, hread, hlen⟩ := h.resting (hleaves.mutexLock.symm.trans hfree)
    rw [releasedTotal_congr p.sessions hcalls]
    exact ⟨hleaves.recvData.trans hrecv, hleaves.readBuffer.trans hread, hleaves.readDataLen.trans hlen⟩
  · by_cases ht : t = .main
    · subst ht
      refine ⟨rfl, ?_, hidle⟩
      simp only [Function.update_self] at hfr
      rcases List.mem_append.mp hfr with hfr | hfr
      · cases next with
        | none => exact absurd hfr (by simp)
        | some pc' => exact ⟨pc', List.mem_singleton.mp hfr⟩
      · exact (h.handlers .main fr (by rw [hframes]; exact List.mem_cons_of_mem _ hfr)).2.1
    · simp only [Function.update_of_ne ht] at hfr
      exact absurd (h.handlers t fr hfr).1 ht

/-- Signals that have a handler come only as SIGINT or SIGTERM, and while the process is idle. -/
def Calm (timer : Bool) (p : Proc) (i : Input) : Prop :=
  ∀ sig t, i = .signal sig t → (registered timer sig).isSome → sig ≠ .sigalrm ∧ Idle p

/-- What did nothing that shows keeps everything, also when the process ends by it. -/
theorem Sound.silence (h : Sound p os) (e : Option Ending) : Sound { p with ended := e } (os ++ [none]) := by
  have hguarded := h.guarded
  refine ⟨⟨hguarded.owner, hguarded.layered, hguarded.threads, hguarded.starting⟩, h.fresh, h.pending, h.wired,
    fun k s hs => ?_, fun k hk => ?_, fun hfree => ?_, h.handlers⟩
  · rw [callsOf_concat_none, releasedTotal_congr p.sessions (callsOf_concat_none os)]
    exact h.holding k s hs
  · rw [callsOf_concat_none]
    exact h.silent k hk
  · rw [releasedTotal_congr p.sessions (callsOf_concat_none os)]
    exact h.resting hfree

theorem Sound.delivered {sig : Signal} {t : Tid} {fr : Frame} (h : Sound p os)
    (hfr : registered timer sig = some fr) (halive : p.alive t = true) (hcalm : Calm timer p (.signal sig t)) :
    Sound { p with frames := Function.update p.frames t (fr :: p.frames t) } (os ++ [none]) := by
  obtain ⟨hsig, hidle⟩ := hcalm sig t rfl (by rw [hfr]; rfl)
  have ht : t = .main := by
    cases t with
    | main => rfl
    | session k =>
      simp only [Proc.alive] at halive
      split at halive
      · rename_i s hs
        exact absurd (hidle.1 s (List.mem_of_getElem? hs)) (by simpa using halive)
      · exact absurd halive (by simp)
  have hsilence := h.silence p.ended
  refine ⟨h.guarded.delivered hfr halive fun he => absurd he hsig, hsilence.fresh, hsilence.pending, hsilence.wired,
    hsilence.holding, hsilence.silent, hsilence.resting, fun u fr' hfr' => ?_⟩
  by_cases hu : u = t
  · subst hu
    simp only [Function.update_self] at hfr'
    rcases List.mem_cons.mp hfr' with rfl | hold
    · refine ⟨ht, ?_, hidle⟩
      cases sig with
      | sigalrm => exact absurd rfl hsig
      | sigint | sigterm => exact ⟨_, (Option.some.inj hfr).symm⟩
    · exact h.handlers u fr' hold
  · simp only [Function.update_of_ne hu] at hfr'
    exact h.handlers u fr' hfr'

/-- Any move but an untimely signal keeps the process sound. -/
theorem Sound.step (h : Sound p os) (hcalm : Calm timer p i) (hmove : Moves timer p i p' o) :
    Sound p' (os ++ [o]) := by
  cases hmove with
  | stays => exact h.silence p.ended
  | delivered hfr _ _ halive => exact h.delivered hfr halive hcalm
  | handlerEnds => exact h.silence _
  | handler _ hframes hstep => exact h.handler hframes hstep
  | mainEnds => exact h.silence _
  | main _ hmain hmove => exact h.main hmain hmove
  | sessionEnds => exact h.silence _
  | session _ hframes hs hmove => exact h.session hframes hs hmove

/-- After every calm run the process is sound. -/
theorem sound_run {is : List Input} (hcalm : (process timer).Along (Calm timer) .start is)
    (hrun : (process timer).run .start is = some (p, os)) : Sound p os :=
  (process timer).along_keeps (fun _ _ _ _ _ h hcalm hstep => h.step hcalm (step_moves hstep)) [] sound_start
    hcalm hrun

theorem calm_step (p : Proc) {i : Input} (h : i.isStep = true) : Calm timer p i := by
  rintro sig t rfl
  exact absurd h (by simp [Input.isStep])

theorem calm_of_steps {is : List Input} (h : ∀ i ∈ is, i.isStep = true) :
    (process timer).Along (Calm timer) .start is :=
  (process timer).along_of_forall (fun i hi p => calm_step p (h i hi)) _

end Sound

theorem Filling.inOrder {k : Nat} {base : Int} {g : Image} {cs : List Call} {total : Int}
    (h : Filling k base g cs total) : InOrder k cs := by
  obtain ⟨packet, hreceived, _⟩ := h
  exact ⟨packet, .inl hreceived⟩

theorem Uncounted.inOrder {k : Nat} {base : Int} {g : Image} {cs : List Call} {total : Int}
    (h : Uncounted k base g cs total) : InOrder k cs := by
  obtain ⟨packet, hstored, _⟩ := h
  exact ⟨packet, .inr (.inl ⟨[], hstored⟩)⟩

theorem Counted.inOrder {k : Nat} {base : Int} {g : Image} {cs : List Call} (h : Counted k base g cs) :
    InOrder k cs := by
  obtain ⟨packet, hstored, _⟩ := h
  exact ⟨packet, .inr (.inl ⟨[], hstored⟩)⟩

theorem Reading.inOrder {k : Nat} {base : Int} {g : Image} {cs : List Call} {status : Int}
    (h : Reading k base g cs status) : InOrder k cs := by
  obtain ⟨packet, reads, _, _, hstored, _⟩ := h
  exact ⟨packet, .inr (.inl ⟨reads, hstored⟩)⟩

theorem Sent.inOrder {k : Nat} {base : Int} {g : Image} {cs : List Call} (h : Sent k base g cs) :
    InOrder k cs := by
  obtain ⟨packet, hanswered, _⟩ := h
  exact ⟨packet, .inr (.inr hanswered)⟩

/-- At every statement a session's calls are its own recvs, one write, reads, and one send. -/
theorem Holding.inOrder {k : Nat} {base : Int} {g : Image} {cs : List Call} {pc : SessionPc}
    (h : Holding k base g cs pc) : InOrder k cs := by
  cases pc with
  | lock =>
    obtain rfl : cs = [] := h
    exact ⟨[], .inl (received_nil k)⟩
  | malloc | memset =>
    obtain ⟨rfl, _⟩ := h
    exact ⟨[], .inl (received_nil k)⟩
  | recv | realloc | openAppend | scan => exact Filling.inOrder h
  | openFailed =>
    obtain ⟨packet, hreceived⟩ := h
    exact ⟨packet, .inl hreceived⟩
  | write => exact h.1.inOrder
  | freeRecv | nullRecv | closeStore | nullRead | addLen => exact h.1.inOrder
  | openRead => exact Counted.inOrder h
  | mallocRead => exact h.1.inOrder
  | read => exact h.1.inOrder
  | closeRead =>
    obtain ⟨⟨status, hreading⟩, _⟩ := h
    exact hreading.inOrder
  | send =>
    obtain ⟨status, hreading⟩ := h
    exact hreading.inOrder
  | freeRead | unlock => exact h.1.inOrder
  | nullReadAgain => exact Sent.inOrder h
  | complete | closeSocket | done =>
    obtain ⟨packet, hanswered⟩ := h
    exact ⟨packet, .inr (.inr hanswered)⟩

/-- A session past its send has written what it received and sent what it read. -/
theorem Holding.answer {k : Nat} {base : Int} {g : Image} {cs : List Call} {pc : SessionPc}
    (h : Holding k base g cs pc) (hpc : pc.answered = true) : ∃ packet, Answered k cs packet := by
  cases pc with
  | freeRead | unlock => exact h.1.imp fun _ hsent => hsent.1
  | nullReadAgain => exact h.imp fun _ hsent => hsent.1
  | complete | closeSocket | done => exact h
  | _ => exact absurd hpc (by simp [SessionPc.answered])

/-- Whatever the order of their steps, one thread at a time holds the mutex, each session
stores and answers what it has itself received and read, one that has released the mutex has
done both, and while the mutex is free read_data_len is the sum of the packets of these. -/
theorem session_isolation (timer : Bool) (is : List Input) (hsteps : ∀ i ∈ is, i.isStep = true) (p : Proc)
    (os : Trace) (hrun : (process timer).run .start is = some (p, os)) :
    (∀ t u, p.inside t → p.inside u → t = u) ∧ (∀ k, InOrder k (callsOf os k)) ∧
      (∀ k s, p.sessions[k]? = some s → s.pc.released = true → ∃ packet, Answered k (callsOf os k) packet) ∧
      (p.image.mutexLock = none → p.image.readDataLen = releasedTotal p.sessions os ∧
        p.image.recvData = none ∧ p.image.readBuffer = none) := by
  have h := sound_run (calm_of_steps hsteps) hrun
  refine ⟨fun t u => h.guarded.owner.exclusive, fun k => ?_,
    fun k s hs hpc => (h.holding k s hs).answer (SessionPc.answered_of_released hpc), fun hfree => ?_⟩
  · cases hs : p.sessions[k]? with
    | some s => exact (h.holding k s hs).inOrder
    | none =>
      rw [h.silent k (List.getElem?_eq_none_iff.mp hs)]
      exact ⟨[], .inl (received_nil k)⟩
  · obtain ⟨hrecv, hread, hlen⟩ := h.resting hfree
    exact ⟨hlen, hrecv, hread⟩

/-- One session that sends "a\n" and one that is about to lock the mutex after it. -/
theorem session_isolation_two_sessions :
    ∃ p os, (process false).run .start (startUp false ++ accepting 4 ++ List.replicate 2 (.ok .main 0) ++
        [.ok .main 0] ++ accepting 5 ++ serving 0 6 [97, 10] [97, 10]) = some (p, os) ∧
      (∃ packet, Answered 0 (callsOf os 0) packet) ∧
      p.image.readDataLen = releasedTotal p.sessions os ∧ releasedTotal p.sessions os = 2 := by
  have heval : ((process false).run .start (startUp false ++ accepting 4 ++ List.replicate 2 (.ok .main 0) ++
      [.ok .main 0] ++ accepting 5 ++ serving 0 6 [97, 10] [97, 10])).map
        (fun q => (q.1.image.mutexLock, q.1.image.readDataLen, q.1.sessions[0]?)) =
          some (none, 2, some ⟨.done, 0⟩) := by decide +kernel
  obtain ⟨⟨p, os⟩, hrun, hp⟩ := Option.map_eq_some_iff.mp heval
  obtain ⟨hfree, hp⟩ := Prod.mk.inj hp
  obtain ⟨hlen, hsession⟩ := Prod.mk.inj hp
  obtain ⟨_, _, hanswered, hrest⟩ := session_isolation false _ (by decide) p os hrun
  have htwo : p.image.readDataLen = 2 := hlen
  have htotal := (hrest hfree).1
  exact ⟨p, os, hrun, hanswered 0 _ hsession rfl, htotal, by omega⟩

end Aesd.Server
