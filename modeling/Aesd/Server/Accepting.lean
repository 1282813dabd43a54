import Aesd.Foundations.Variant
import Aesd.Server.Descriptors
import Aesd.Server.Waiting

/-! main comes back to accept whatever its clients do, as long as it joins no thread again:
is_thread_complete keeps it from joining a thread that still has to receive or to send, so all
that a pass over the list can wait for is the last statement of a thread. -/
namespace Aesd.Server
open Aesd.Foundations Aesd.Driver

/-- is_thread_complete is set by its own thread alone, which has then only its connection to
close; main joins no thread before. -/
structure Flagged (p : Proc) : Prop where
  closing : ∀ (k : Nat) (s : SessionThread), p.sessions[k]? = some s → p.image.completeAt s.node = true →
    s.pc = .closeSocket ∨ s.pc = .done
  unset : ∀ a q, p.image.memory a = some (.node q) → q.threadId = none → q.isThreadComplete = false
  joining : ∀ a rest, p.main = .join a rest → p.image.completeAt a = true

/-- At most how many statements main has before its next accept, once it is in its loop. -/
def MainPc.left (g : Image) : MainPc → Nat
  | .accept => 0
  | .listen => 1
  | .pass rest => 2 * rest.length + 2
  | .join _ rest => 2 * rest.length + 3
  | .first => 2 * g.head.length + 3
  | .create _ => 2 * g.head.length + 4
  | .insert _ => 2 * g.head.length + 7
  | .setComplete _ => 2 * g.head.length + 8
  | .setSockfd _ => 2 * g.head.length + 9
  | _ => 2 * g.head.length + 10

def MainPc.toVisit (g : Image) : MainPc → List Nat
  | .mallocNode | .setSockfd _ | .setComplete _ | .insert _ | .create _ | .first => g.head
  | .pass rest => rest
  | .join a rest => a :: rest
  | _ => []

/-- No thread has been joined twice, and none of the nodes that main has still to visit before
its next accept is of a thread that has been joined. -/
def Proc.Afresh (p : Proc) : Prop :=
  p.image.joined.Nodup ∧
    ∀ a ∈ p.main.toVisit p.image, ∀ k, p.image.threadOf a = some k → k ∉ p.image.joined

/-- Threads that have been joined were created, and the flags in their nodes are set. -/
structure Joins (p : Proc) : Prop where
  created : ∀ k ∈ p.image.joined, k < p.sessions.length
  complete : ∀ a ∈ p.image.head, ∀ k ∈ p.image.joined, p.image.threadOf a = some k → p.image.completeAt a = true

structure Serving (p : Proc) (os : Trace) : Prop where
  sound : Sound p os
  listed : Listed p
  numbered : Numbered p
  flagged : Flagged p
  joins : Joins p

section Flagged
variable {timer : Bool} {p p' : Proc} {os : Trace} {t : Tid} {r : Reply} {o : Option (Actor × Act)} {g g' : Image}
  {act : Option Act} {a : Nat} {q : Params}

private theorem completeAt_of_node (hq : g.memory a = some (.node q)) : g.completeAt a = q.isThreadComplete := by
  simp only [Image.completeAt, hq]

private theorem node_set_cases {b : Nat} {q' : Params} (hq : (g.set b (.node q')).memory a = some (.node q)) :
    q = q' ∨ g.memory a = some (.node q) := by
  by_cases ha : a = b
  · subst ha
    rw [show (g.set a (.node q')).memory a = some (.node q') from Function.update_self ..] at hq
    exact .inl (Block.node.inj (Option.some.inj hq)).symm
  · rw [show (g.set b (.node q')).memory a = g.memory a from Function.update_of_ne ha ..] at hq
    exact .inr hq

/-- The node that main prepares is not complete. -/
theorem MainMove.unset {n : Nat} {finished : Nat → Bool} {pc pc' : MainPc}
    (h : MainMove timer n finished g pc pc' g' act)
    (hunset : ∀ a q, g.memory a = some (.node q) → q.threadId = none → q.isThreadComplete = false)
    (hq : g'.memory a = some (.node q)) (hid : q.threadId = none) : q.isThreadComplete = false := by
  cases h with
  | mallocNode | setComplete =>
    rcases node_set_cases hq with rfl | hq
    · rfl
    · exact hunset a q hq hid
  | @setSockfd b q₀ hold =>
    rcases node_set_cases hq with rfl | hq
    · exact hunset b q₀ hold hid
    · exact hunset a q hq hid
  | create =>
    rcases node_set_cases hq with rfl | hq
    · exact absurd hid (by simp)
    · exact hunset a q hq hid
  | _ => exact hunset a q hq hid

theorem MainMove.joining {n : Nat} {finished : Nat → Bool} {pc : MainPc} {rest : List Nat}
    (h : MainMove timer n finished g pc (.join a rest) g' act) : g'.completeAt a = true := by
  generalize hpc' : MainPc.join a rest = pc' at h
  cases h with
  | @visit b rest' q hq =>
    split at hpc'
    · rename_i hset
      obtain ⟨rfl, _⟩ := MainPc.join.inj hpc'
      rw [completeAt_of_node hq, hset]
    · exact absurd hpc' (by simp)
  | initMutex =>
    split at hpc'
    · exact absurd hpc' (by simp)
    · exact absurd hpc' (by simp)
  | _ => exact absurd hpc' (by simp)

theorem Flagged.main {pc : MainPc} (h : Flagged p) (hsound : Sound p os) (hlisted : Listed p)
    (hmove : MainMove timer p.sessions.length p.finished p.image p.main pc g act) :
    Flagged { p with image := g, main := pc, sessions := p.sessions ++ p.main.created } := by
  refine ⟨fun k s hs hcomplete => ?_, fun a q hq hid => hmove.unset h.unset hq hid, fun a rest hpc => ?_⟩
  · rcases created_cases hs with hs | ⟨rfl, hnew⟩
    · obtain ⟨q, hq, hid⟩ := threadOf_eq_some.mp (hlisted.nodes k s hs).2
      have hq' := hmove.node hsound.pending hsound.fresh hq (by simp [hid])
      refine h.closing k s hs ?_
      rw [completeAt_of_node hq]
      rwa [completeAt_of_node hq'] at hcomplete
    · -- the new thread's node was not complete when main created the thread
      cases hmain : p.main with
      | create a =>
        rw [hmain] at hmove hnew
        rw [List.mem_singleton.mp hnew] at hcomplete
        have hpending := hsound.pending
        rw [hmain] at hpending
        obtain ⟨q, hq, hid, _⟩ := hpending
        cases hmove with
        | create hq' =>
          obtain rfl := Block.node.inj (Option.some.inj (hq.symm.trans hq'))
          rw [completeAt_of_node (Function.update_self ..)] at hcomplete
          rw [h.unset a q hq hid] at hcomplete
          exact absurd hcomplete (by simp)
      | _ =>
        rw [hmain] at hnew
        exact absurd hnew (by simp [MainPc.created])
  · obtain rfl : pc = .join a rest := hpc
    exact hmove.joining

/-- What a pass has before it are nodes of threads. -/
theorem Listed.ahead_thread (h : Listed p) (ha : a ∈ p.main.ahead) :
    ∃ (k : Nat) (s : SessionThread), p.sessions[k]? = some s ∧ s.node = a ∧ p.image.threadOf a = some k := by
  rcases h.listed a (h.ahead.subset ha) with ⟨k, s, hs, rfl⟩ | hmain
  · exact ⟨k, s, hs, rfl, (h.nodes k s hs).2⟩
  · rw [hmain] at ha
    exact absurd ha (by simp [MainPc.ahead])

/-- A session leaves every node but its own as it was, and its own up to the flag. -/
theorem SessionMove.completeAt {me : Tid} {k node : Nat} {pc pc' : SessionPc}
    (h : SessionMove me node g pc pc' g' act) (hspares : Spares k node pc pc' g g')
    (hcomplete : g'.completeAt a = true) : g.completeAt a = true ∨ a = node ∧ pc' = .closeSocket := by
  obtain ⟨q, hq, hset⟩ := completeAt_eq_true.mp hcomplete
  by_cases ha : a ≠ node ∨ pc ≠ .complete
  · exact .inl (completeAt_eq_true.mpr ⟨q, (hspares.nodes a q ha).mp hq, hset⟩)
  · obtain ⟨rfl, rfl⟩ : a = node ∧ pc = .complete := by
      simpa only [not_or, not_not] using ha
    cases h with
    | complete => exact .inr ⟨rfl, rfl⟩

theorem Flagged.session {k : Nat} {s : SessionThread} {pc : SessionPc} (h : Flagged p) (hsound : Sound p os)
    (hlisted : Listed p) (hs : p.sessions[k]? = some s)
    (hmove : SessionMove (.session k) s.node p.image s.pc pc g act)
    (hkeeps : ∀ a j, p.image.threadOf a = some j → p.image.completeAt a = true → g.completeAt a = true) :
    Flagged { p with image := g, sessions := p.sessions.set k ⟨pc, s.node⟩ } := by
  have hk := (List.getElem?_eq_some_iff.mp hs).1
  have hwired := hsound.wired k s hs hmove.not_done
  have hspares := (hsound.holding k s hs).spares hmove hwired hsound.fresh
  refine ⟨fun j u hu hcomplete => ?_, fun a q hq hid => ?_, fun a rest hpc => ?_⟩
  · by_cases hj : j = k
    · subst hj
      obtain rfl : (⟨pc, s.node⟩ : SessionThread) = u := by
        simpa only [List.getElem?_set_self hk, Option.some.injEq] using hu
      rcases hmove.completeAt hspares hcomplete with hbefore | ⟨_, hpc⟩
      · rcases h.closing j s hs hbefore with hpc | hpc
        · generalize s.pc = pc₀ at hmove hpc
          subst hpc
          cases hmove with
          | closeSocket => exact .inr rfl
        · exact absurd hpc hmove.not_done
      · exact .inl hpc
    · have hu' : p.sessions[j]? = some u := by
        rwa [List.getElem?_set_ne (Ne.symm hj)] at hu
      rcases hmove.completeAt hspares hcomplete with hbefore | ⟨hnode, _⟩
      · exact h.closing j u hu' hbefore
      · have hids := (hlisted.nodes j u hu').2
        rw [hnode, (hlisted.nodes k s hs).2] at hids
        exact absurd (Option.some.inj hids).symm hj
  · obtain ⟨q₀, hq₀, hid₀, _⟩ := hwired
    by_cases ha : a = s.node
    · subst ha
      obtain ⟨q', hq', hid', _⟩ := hspares.node hmove hq₀
      obtain rfl := Block.node.inj (Option.some.inj (hq.symm.trans hq'))
      rw [hid', hid₀] at hid
      exact absurd hid (by simp)
    · exact h.unset a q ((hspares.nodes a q (.inl ha)).mp hq) hid
  · have hmain : p.main = .join a rest := hpc
    obtain ⟨j, _, _, _, hj⟩ := hlisted.ahead_thread (a := a) (by rw [hmain]; exact List.mem_cons_self)
    exact hkeeps a j hj (h.joining a rest hmain)

theorem Flagged.step (h : Flagged p) (hsound : Sound p os) (hlisted : Listed p)
    (hmove : Moves timer p (.step t r) p' o) : Flagged p' := by
  have hthreads := (hsound.threads hlisted.quiet hmove).2
  cases hmove with
  | stays => exact h
  | mainEnds | sessionEnds => exact ⟨h.closing, h.unset, h.joining⟩
  | handlerEnds _ hframes | handler _ hframes =>
    rw [hlisted.quiet] at hframes
    exact absurd hframes (by simp)
  | main _ _ hmain => exact h.main hsound hlisted hmain
  | session _ _ hs hsession =>
    exact h.session hsound hlisted hs hsession fun a j ha hset => (hthreads a j ha).2 hset

end Flagged

section Joins
variable {timer : Bool} {p p' : Proc} {os : Trace} {t : Tid} {r : Reply} {o : Option (Actor × Act)} {g g' : Image}
  {act : Option Act} {a k n : Nat} {finished : Nat → Bool} {pc pc' : MainPc}

theorem SessionMove.joins {me : Tid} {node : Nat} {pc pc' : SessionPc} (h : SessionMove me node g pc pc' g' act) :
    g'.joined = g.joined := by
  cases h with
  | freeRecv hfree | freeRead hfree => rw [Image.free_frame hfree]
  | _ => rfl

theorem MainMove.joins (h : MainMove timer n finished g pc pc' g' act) :
    g'.joined = g.joined ∨ ∃ a rest k, pc = .join a rest ∧ pc' = .pass rest ∧
      g' = { g with joined := k :: g.joined } ∧ g.threadOf a = some k ∧ finished k = true := by
  cases h with
  | join hq hk hfinished => exact .inr ⟨_, _, _, rfl, rfl, rfl, threadOf_eq_some.mpr ⟨_, hq, hk⟩, hfinished⟩
  | _ => exact .inl rfl

/-- Nothing comes before main to visit but the node that it inserts. -/
theorem MainMove.toVisit (h : MainMove timer n finished g pc pc' g' act) (haccept : pc ≠ .accept)
    (ha : a ∈ pc'.toVisit g') : a ∈ pc.toVisit g ∨ pc = .insert a := by
  cases h with
  | accept => exact absurd rfl haccept
  | initMutex =>
    split at ha
    · exact absurd ha (by simp [MainPc.toVisit])
    · exact absurd ha (by simp [MainPc.toVisit])
  | insert => exact (List.mem_cons.mp ha).symm.imp_right fun he => by rw [he]
  | visit =>
    split at ha
    · exact .inl ha
    · exact .inl (List.mem_cons_of_mem _ ha)
  | join => exact .inl (List.mem_cons_of_mem _ ha)
  | _ => exact .inl ha

theorem lt_of_finished (h : p.finished k = true) : k < p.sessions.length := by
  by_contra hlt
  rw [Proc.finished, List.getElem?_eq_none (Nat.le_of_not_lt hlt)] at h
  exact absurd h (by simp)

theorem Listed.toVisit (h : Listed p) (ha : a ∈ p.main.toVisit p.image) : a ∈ p.image.head := by
  have hahead := h.ahead
  cases hpc : p.main with
  | pass | join =>
    rw [hpc] at ha hahead
    exact hahead.subset ha
  | mallocNode | setSockfd | setComplete | insert | create | first =>
    rw [hpc] at ha
    exact ha
  | _ =>
    rw [hpc] at ha
    exact absurd ha (by simp [MainPc.toVisit])

theorem Joins.main (h : Joins p) (hsound : Sound p os) (hlisted : Listed p) (hflagged : Flagged p)
    (hmove : MainMove timer p.sessions.length p.finished p.image p.main pc g act)
    (hkeeps : ∀ a j, p.image.threadOf a = some j → p.image.completeAt a = true → g.completeAt a = true) :
    Joins { p with image := g, main := pc, sessions := p.sessions ++ p.main.created } := by
  refine ⟨fun k hk => ?_, fun a ha k hk hid => ?_⟩
  · rw [List.length_append]
    apply Nat.lt_add_right
    rcases hmove.joins with hsame | ⟨_, _, j, _, _, rfl, _, hfinished⟩
    · exact h.created k (hsame ▸ hk)
    · rcases List.mem_cons.mp hk with rfl | hk
      · exact lt_of_finished hfinished
      · exact h.created k hk
  · rcases hmove.threadOf hid with hold | ⟨rfl, hcreated⟩
    · refine hkeeps a k hold ?_
      have hhead : a ∈ p.image.head := by
        rcases hmove.list with ⟨hhead, _⟩ | ⟨b, hpc, _, rfl⟩ | ⟨_, _, _, hhead, _⟩ | ⟨_, hhead, _⟩
        · exact hhead ▸ ha
        · refine (List.mem_cons.mp ha).resolve_left ?_
          rintro rfl
          rw [hsound.pending.threadOf (.inl hpc)] at hold
          exact absurd hold (by simp)
        · exact hhead ▸ ha
        · exact absurd (hhead ▸ ha) (by simp)
      rcases hmove.joins with hsame | ⟨b, rest, j, hpc, _, rfl, hj, _⟩
      · exact h.complete a hhead k (hsame ▸ hk) hold
      · rcases List.mem_cons.mp hk with rfl | hk
        · have hb : b ∈ p.image.head := hlisted.ahead.subset (by rw [hpc]; exact List.mem_cons_self)
          obtain rfl := hlisted.injective hsound hhead hb hold hj
          exact hflagged.joining a rest hpc
        · exact h.complete a hhead k hk hold
    · -- the thread that main creates has not been joined
      rcases hmove.joins with hsame | ⟨_, _, _, hpc, _⟩
      · exact absurd (h.created _ (hsame ▸ hk)) (lt_irrefl _)
      · rw [hpc] at hcreated
        exact absurd rfl hcreated

theorem Joins.step (h : Joins p) (hsound : Sound p os) (hlisted : Listed p) (hflagged : Flagged p)
    (hmove : Moves timer p (.step t r) p' o) : Joins p' := by
  have hthreads := (hsound.threads hlisted.quiet hmove).2
  cases hmove with
  | stays => exact h
  | mainEnds | sessionEnds => exact ⟨h.created, h.complete⟩
  | handlerEnds _ hframes | handler _ hframes =>
    rw [hlisted.quiet] at hframes
    exact absurd hframes (by simp)
  | main _ _ hmain => exact h.main hsound hlisted hflagged hmain fun a j ha => (hthreads a j ha).2
  | @session k s _ _ g _ _ _ hs hsession =>
    have hspares := (hsound.holding k s hs).spares hsession (hsound.wired k s hs hsession.not_done) hsound.fresh
    refine ⟨fun j hj => ?_, fun a ha j hj hid => ?_⟩
    · rw [List.length_set]
      exact h.created j (hsession.joins ▸ hj)
    · have hold := hsession.threadOf hid
      exact (hthreads a j hold).2 (h.complete a (hspares.head ▸ ha) j (hsession.joins ▸ hj) hold)

end Joins

section Serving
variable {timer : Bool} {p p' : Proc} {os : Trace} {i : Input} {r : Reply} {o : Option (Actor × Act)} {u : Tid}
  {k : Nat} {s : SessionThread}

theorem Serving.step (h : Serving p os) (hi : i.isStep = true) (hstep : (process timer).step p i = some (p', o)) :
    Serving p' (os ++ [o]) := by
  have hmove := step_moves hstep
  obtain ⟨t, r, rfl⟩ := step_of_isStep hi
  exact ⟨h.sound.step (calm_step p hi) hmove, h.listed.step h.sound hmove,
    h.numbered.step h.sound h.listed.quiet hmove, h.flagged.step h.sound h.listed hmove,
    h.joins.step h.sound h.listed h.flagged hmove⟩

/-- Whom main waits for has one statement left, the close of its connection. -/
theorem Serving.closing (h : Serving p os) (hended : p.ended = none) (hwaits : p.awaits .main = some u) :
    ∃ k s, u = .session k ∧ p.sessions[k]? = some s ∧ s.pc = .closeSocket := by
  rcases awaits_eq_some hended hwaits with ⟨⟨_, hlock⟩, _⟩ | ⟨_, _, a, rest, k, hmain, hk, hrunning, rfl⟩
  · rw [h.listed.quiet] at hlock
    obtain ⟨k, s, hne, _⟩ := hlock
    exact absurd hne (by simp)
  · obtain ⟨j, s, hs, rfl, hj⟩ := h.listed.ahead_thread (a := a) (by rw [hmain]; exact List.mem_cons_self)
    obtain rfl := Option.some.inj (hj.symm.trans hk)
    refine ⟨j, s, rfl, hs, (h.flagged.closing j s hs (h.flagged.joining s.node rest hmain)).resolve_right ?_⟩
    intro hdone
    simp only [Proc.finished, hs, hdone] at hrunning
    exact absurd hrunning (by simp)

end Serving

section Afresh
variable {timer : Bool} {p p' : Proc} {os : Trace} {i : Input} {o : Option (Actor × Act)} {g : Image} {pc : MainPc}
  {act : Option Act}

private theorem Proc.Afresh.main (h : p.Afresh) (hserving : Serving p os) (haccept : p.main ≠ .accept)
    (hmove : MainMove timer p.sessions.length p.finished p.image p.main pc g act) :
    ({ p with image := g, main := pc, sessions := p.sessions ++ p.main.created } : Proc).Afresh := by
  have hlisted := hserving.listed
  rcases hmove.joins with hsame | ⟨b, rest, j, hpc, rfl, rfl, hj, _⟩
  · refine ⟨by rw [hsame]; exact h.1, fun a ha k hk => ?_⟩
    rw [hsame]
    rcases hmove.threadOf hk with hold | ⟨rfl, _⟩
    · refine h.2 a ((hmove.toVisit haccept ha).resolve_right fun hpc => ?_) k hold
      rw [hserving.sound.pending.threadOf (.inl hpc)] at hold
      exact absurd hold (by simp)
    · exact fun hjoined => absurd (hserving.joins.created _ hjoined) (lt_irrefl _)
  · have hvisit : ∀ a ∈ b :: rest, a ∈ p.main.toVisit p.image := fun a ha => by rwa [hpc]
    have hsuffix : b :: rest <:+ p.image.head := by
      have hahead := hlisted.ahead
      rwa [hpc] at hahead
    have hbj := h.2 b (hvisit b List.mem_cons_self) j hj
    refine ⟨List.nodup_cons.mpr ⟨hbj, h.1⟩, fun a ha k hk => ?_⟩
    have hrest : a ∈ rest := ha
    intro hmem
    rcases List.mem_cons.mp hmem with rfl | hmem
    · -- another node is another thread's
      obtain rfl := hlisted.injective hserving.sound (hsuffix.subset (List.mem_cons_of_mem _ hrest))
        (hsuffix.subset List.mem_cons_self) hk hj
      exact (List.nodup_cons.mp (hlisted.nodup.sublist hsuffix.sublist)).1 hrest
    · exact h.2 a (hvisit a (List.mem_cons_of_mem _ hrest)) k hk hmem

end Afresh

section Progress
variable {timer : Bool} {p : Proc} {os : Trace} {r : Reply} {g g' : Image} {pc pc' : MainPc} {act : Option Act}

theorem MainPc.left_le (h : pc.ahead <:+ g.head) : pc.left g ≤ 2 * g.head.length + 10 := by
  have hlen := h.length_le
  cases pc with
  | pass rest =>
    simp only [MainPc.ahead] at hlen
    simp only [MainPc.left]
    omega
  | join a rest =>
    simp only [MainPc.ahead, List.length_cons] at hlen
    simp only [MainPc.left]
    omega
  | _ => simp [MainPc.left]

/-- Each statement of the loop brings main closer to accept. -/
theorem MainMove.left {n : Nat} {finished : Nat → Bool} (h : MainMove timer n finished g pc pc' g' act)
    (hloop : pc.starting = false) (haccept : pc ≠ .accept) :
    pc'.left g' + 1 ≤ pc.left g ∧ pc'.starting = false := by
  cases h with
  | accept => exact absurd rfl haccept
  | visit =>
    split
    · exact ⟨by simp only [MainPc.left, List.length_cons]; omega, rfl⟩
    · exact ⟨by simp only [MainPc.left, List.length_cons]; omega, rfl⟩
  | insert => exact ⟨by simp only [MainPc.left, List.length_cons]; omega, rfl⟩
  | listen | passed | first | join | mallocNode | setSockfd | setComplete | create => exact ⟨le_rfl, rfl⟩
  | _ => exact absurd hloop (by simp [MainPc.starting])

variable {is : List Input} {p' : Proc} {ws : Trace}

end Progress

end Aesd.Server
