import Aesd.Server.Isolation
import Aesd.Server.ReceiveBuffer

/-! recv_data is one global for all sessions. Since a session fills it only while it holds the
mutex, each finds in it what it has itself received, whatever the other threads do meanwhile. -/
namespace Aesd.Server
open Aesd.Foundations Aesd.Driver

/-- Each session that has received no more than the loop can hold finds it in recv_data. -/
def BuffersSound (p : Proc) (os : Trace) : Prop :=
  ∀ (k : Nat) (s : SessionThread), p.sessions[k]? = some s → Receivable (chunksOf (callsOf os k)) →
    Receives p.image (chunksOf (callsOf os k)) s.pc

section Receives
variable {k node : Nat} {me : Tid} {base : Int} {g g' : Image} {cs : List Call} {chunks : List (List Byte)}
  {pc pc' : SessionPc} {act : Option Act}

theorem Gathered.undisturbed {size : Nat} (h : Gathered g size chunks) (hquiet : Undisturbed g g') :
    Gathered g' size chunks := by
  obtain ⟨i, b, hp, hm, hsize, hstarts⟩ := h
  exact ⟨i, b, hquiet.recvData.trans hp, hquiet.buffers i b hm, hsize, hstarts⟩

theorem Receives.undisturbed (h : Receives g chunks pc) (hquiet : Undisturbed g g') : Receives g' chunks pc := by
  cases pc with
  | malloc => exact h
  | memset =>
    obtain ⟨hchunks, hgathered⟩ := h
    exact ⟨hchunks, fun i hi => (hgathered i (hquiet.recvData.symm.trans hi)).undisturbed hquiet⟩
  | recv =>
    obtain ⟨htotal, hgathered, hunended⟩ := h
    exact ⟨htotal, hgathered.undisturbed hquiet, hunended⟩
  | scan =>
    obtain ⟨before, c, hchunks, hunended, htotal, hn, hgathered⟩ := h
    exact ⟨before, c, hchunks, hunended, htotal, hn, hgathered.undisturbed hquiet⟩
  | realloc =>
    obtain ⟨before, c, hchunks, hunended, htotal, hfound, hgathered⟩ := h
    exact ⟨before, c, hchunks, hunended, htotal, hfound, hgathered.undisturbed hquiet⟩
  | openAppend =>
    obtain ⟨before, c, hchunks, hunended, hc, htotal, hgathered⟩ := h
    exact ⟨before, c, hchunks, hunended, hc, htotal, hgathered.undisturbed hquiet⟩
  | _ => trivial

theorem Receives.of_not_critical (hpc : pc.critical = false) (g : Image) (chunks : List (List Byte)) :
    Receives g chunks pc := by
  cases pc with
  | lock | complete | closeSocket | done => trivial
  | _ => exact absurd hpc (by simp [SessionPc.critical])

/-- A session comes into the loop by its lock alone, and then it has received nothing. -/
theorem Holding.receives (h : Holding k base g cs pc) (hmove : SessionMove me node g pc pc' g' act)
    (hpc : pc.buffering = false) : Receives g' (chunksOf (cs ++ Act.calls act)) pc' := by
  cases hmove with
  | lock =>
    obtain rfl : cs = [] := h
    rfl
  | malloc | mallocFailed | memset | recv | scan | realloc => exact absurd hpc (by simp [SessionPc.buffering])
  | read | readClosed =>
    split
    · trivial
    · trivial
  | _ => trivial

end Receives

section BuffersSound
variable {timer : Bool} {p p' : Proc} {os : Trace} {i : Input} {o : Option (Actor × Act)} {g : Image}
  {act : Option Act}

theorem BuffersSound.silence (h : BuffersSound p os) (himage : p'.image = p.image)
    (hsessions : p'.sessions = p.sessions) : BuffersSound p' (os ++ [none]) := by
  intro k s hs hchunks
  rw [callsOf_concat_none] at hchunks ⊢
  rw [hsessions] at hs
  rw [himage]
  exact h k s hs hchunks

theorem BuffersSound.main {pc : MainPc} (h : BuffersSound p os) (hsound : Sound p os)
    (hmove : MainMove timer p.sessions.length p.finished p.image p.main pc g act) :
    BuffersSound { p with image := g, main := pc, sessions := p.sessions ++ p.main.created }
      (os ++ [act.map fun a => (.thread .main, a)]) := by
  intro k s hs hchunks
  rw [callsOf_concat_of_ne os act (by simp)] at hchunks ⊢
  rcases created_cases hs with hs | ⟨_, hnew⟩
  · have hspares := hmove.spares (hsound.guarded.running (List.mem_of_getElem? hs)) hsound.pending hsound.fresh
    exact (h k s hs hchunks).undisturbed hspares.undisturbed
  · rw [(hmove.created hsound.pending hnew).1]
    trivial

theorem BuffersSound.session {k : Nat} {s : SessionThread} {r : Reply} {pc : SessionPc} (h : BuffersSound p os)
    (hsound : Sound p os) (hframes : p.frames (.session k) = []) (hs : p.sessions[k]? = some s)
    (hnext : sessionStep (.session k) s.node r p.image s.pc = .ok (.next pc g act)) :
    BuffersSound { p with image := g, sessions := p.sessions.set k ⟨pc, s.node⟩ }
      (os ++ [act.map fun a => (.thread (.session k), a)]) := by
  have hk := (List.getElem?_eq_some_iff.mp hs).1
  have hmove := sessionStep_moves hnext
  have hwired := hsound.wired k s hs hmove.not_done
  intro j u hu hchunks
  by_cases hj : j = k
  · subst hj
    rw [List.getElem?_set_self hk] at hu
    obtain rfl := Option.some.inj hu
    rw [callsOf_concat_own] at hchunks ⊢
    by_cases hpc : s.pc.buffering = true
    · rw [chunksOf_append] at hchunks ⊢
      exact (h j s hs hchunks.left).step hpc hwired hnext hchunks
    · exact (hsound.holding j s hs).receives hmove (by simpa using hpc)
  · rw [List.getElem?_set_ne (Ne.symm hj)] at hu
    rw [callsOf_concat_of_ne os act (by simpa using Ne.symm hj)] at hchunks ⊢
    by_cases hcritical : u.pc.critical = true
    -- u holds the mutex, so session k is outside of it before and after
    · obtain ⟨hout, hout'⟩ := hsound.guarded.others hframes hs hmove hj hu hcritical
      exact (h j u hu hchunks).undisturbed (hmove.undisturbed hwired hout hout')
    · exact Receives.of_not_critical (by simpa using hcritical) _ _

theorem BuffersSound.handler {t : Tid} {fr : Frame} {fr' : List Frame} (hsound : Sound p os)
    (hfr : fr ∈ p.frames t) :
    BuffersSound { p with image := g, frames := Function.update p.frames t fr' }
      (os ++ [act.map fun a => (.handler t, a)]) := by
  intro k s hs _
  obtain ⟨_, _, hidle⟩ := hsound.handlers t fr hfr
  have hdone := hidle.1 s (List.mem_of_getElem? hs)
  exact Receives.of_not_critical (by rw [hdone]; rfl) _ _

theorem BuffersSound.step (h : BuffersSound p os) (hsound : Sound p os)
    (hstep : (process timer).step p i = some (p', o)) : BuffersSound p' (os ++ [o]) := by
  have hmoves := step_moves hstep
  cases hmoves with
  | stays => exact h.silence rfl rfl
  | delivered => exact h.silence rfl rfl
  | handlerEnds => exact h.silence rfl rfl
  | handler _ hframes => exact BuffersSound.handler hsound (by rw [hframes]; exact List.mem_cons_self)
  | mainEnds => exact h.silence rfl rfl
  | main _ _ hmove => exact h.main hsound hmove
  | sessionEnds => exact h.silence rfl rfl
  | session hended hframes hs =>
    rcases step_session hended hframes hs hstep with ⟨pc, g, act, hnext, hp, ho⟩ | ⟨e, _, hp, ho⟩ | ⟨hp, ho⟩
    · rw [hp, ho]
      exact h.session hsound hframes hs hnext
    · rw [hp, ho]
      exact h.silence rfl rfl
    · rw [hp, ho]
      exact h.silence rfl rfl

/-- In every order of steps each session's recv finds room in recv_data behind what the
session has received, and its loop ends with the first chunk that ends with a newline. -/
theorem buffers_sound_run {is : List Input} (hcalm : (process timer).Along (Calm timer) .start is)
    (hrun : (process timer).run .start is = some (p, os)) : BuffersSound p os := by
  have hstart : Sound Proc.start [] ∧ BuffersSound Proc.start [] :=
    ⟨sound_start, fun k s hs => absurd hs (by simp [Proc.start])⟩
  refine ((process timer).along_keeps (I := fun p os => Sound p os ∧ BuffersSound p os) ?_ [] hstart hcalm hrun).2
  rintro p os i p' o ⟨hsound, h⟩ hcalm hstep
  exact ⟨hsound.step hcalm (step_moves hstep), h.step hsound hstep⟩

end BuffersSound

/-- Before every recv the block of recv_data has room for 100 more bytes behind total, after
every iteration it starts with the chunks received, in order, and the loop ends with the
first chunk whose last byte is a newline and with no other; and so it is for every session
among all threads, in whatever order they take their steps. -/
theorem receive_buffer_sound (x : Receiver) :
    (∀ rs pc g os, x.loop.run (.malloc, x.image) rs = some ((pc, g), os) →
        Receivable (chunksOf (os.flatMap Act.calls)) → Receives g (chunksOf (os.flatMap Act.calls)) pc) ∧
      (∀ chunks, Receivable chunks → Unended chunks → x.Reaches chunks (.recv chunks.flatten.length)) ∧
        (∀ chunks c, Receivable (chunks ++ [c]) → Unended chunks → c.getLast? = some newline →
          x.Reaches (chunks ++ [c]) (.openAppend (chunks ++ [c]).flatten.length)) ∧
          ∀ timer is p os, (∀ i ∈ is, i.isStep = true) → (process timer).run .start is = some (p, os) →
            BuffersSound p os := by
  refine ⟨fun rs pc g os hrun hchunks => ?_, fun chunks hchunks hunended => ?_,
    fun chunks c hchunks hunended hc => ?_, fun timer is p os hsteps hrun => ?_⟩
  · exact (Receiver.run_inLoop hrun hchunks).receives
  · exact x.reaches_recv hchunks hunended
  · exact x.reaches_openAppend hchunks hunended hc
  · exact buffers_sound_run (calm_of_steps hsteps) hrun

/-- "a" and "b\n" in two recv results. -/
theorem receive_buffer_sound_two_chunks :
    ∃ (x : Receiver) (g : Image) (os : List (Option Act)),
      x.loop.run (.malloc, x.image) (.success [] :: .success [] :: [[97], [98, 10]].flatMap iteration) =
        some ((.openAppend 3, g), os) ∧ Gathered g 103 [[97], [98, 10]] := by
  let image : Image := { Image.initial with
    fds := fun fd => if fd = 4 then some (.connection 0) else none
    memory := fun i => if i = 0 then some (.node ⟨some 0, 4, false⟩) else none
    next := 1 }
  have hfresh : ∀ b, 1 ≤ b → image.memory b = none := fun b hb => if_neg (by omega)
  let x : Receiver := ⟨0, 0, image, ⟨_, rfl, rfl, rfl⟩, hfresh⟩
  have hchunks : Receivable [[97], [98, 10]] := ⟨by decide, by decide⟩
  obtain ⟨hsafe, _, hends, _⟩ := receive_buffer_sound x
  obtain ⟨g, os, hrun, hos⟩ := hends [[97]] [98, 10] hchunks (by simp [Unended, newline]) rfl
  have hreceives := hsafe _ _ _ _ hrun (by rw [hos]; exact hchunks)
  rw [hos] at hreceives
  obtain ⟨_, _, _, _, _, _, hgathered⟩ := hreceives
  exact ⟨x, g, os, hrun, hgathered⟩

end Aesd.Server
