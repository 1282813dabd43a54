import Aesd.Foundations.Custody
import Aesd.Server.Reaping

/-! Which blocks of the server's own malloc and realloc calls are allocated, and who has them:
what a library function allocates for itself (the list of addresses behind serveinfo) is not
among them. A session frees the buffers that it allocates; the node that main allocates for a
connection is never freed while the server runs, also when its thread has been joined. -/
namespace Aesd.Server
open Aesd.Foundations Aesd.Driver

def MainPc.prepared : MainPc → List Nat
  | .setSockfd a | .setComplete a | .insert a => [a]
  | _ => []

/-- The block that a session has allocated and not freed. -/
def SessionPc.block (g : Image) : SessionPc → Option Nat
  | .memset | .recv _ | .scan _ _ | .realloc _ _ | .openAppend _ | .openFailed _ | .write _ | .freeRecv _ =>
    g.recvData
  | .read _ _ _ | .closeRead _ | .send | .freeRead => g.readBuffer
  | _ => none

def Proc.blocks (p : Proc) : Tid → Set Nat
  | .main => {b | b ∈ p.image.head ∨ b ∈ p.main.prepared}
  | .session k => {b | ∃ s, p.sessions[k]? = some s ∧ s.pc.block p.image = some b}

section Moves
variable {me : Tid} {node : Nat} {g g' : Image} {act : Option Act}

theorem SessionPc.block_of_not_critical {pc : SessionPc} (h : pc.critical = false ∨ pc = .malloc) (g : Image) :
    pc.block g = none := by
  cases pc <;> first | rfl | exact absurd h (by simp [SessionPc.critical])

/-- A session takes what it allocates and gives up what it frees. -/
theorem SessionMove.exchange {pc pc' : SessionPc} (h : SessionMove me node g pc pc' g' act)
    (hfresh : g.memory g.next = none) (hmine : {b | pc.block g = some b} ⊆ domain g.memory) :
    Exchange (domain g.memory) (domain g'.memory) {b | pc.block g = some b} {b | pc'.block g' = some b} := by
  have keeps : domain g'.memory = domain g.memory → pc'.block g' = pc.block g →
      Exchange (domain g.memory) (domain g'.memory) {b | pc.block g = some b} {b | pc'.block g' = some b} := by
    intro hdomain hblock
    rw [hdomain, hblock]
    exact .nothing hmine
  have takes : ∀ v, pc.block g = none → pc'.block g' = some g.next →
      g'.memory = Function.update g.memory g.next (some v) →
        Exchange (domain g.memory) (domain g'.memory) {b | pc.block g = some b} {b | pc'.block g' = some b} := by
    intro v hnone hsome hmemory
    have htake := Exchange.take hmine (a := g.next) (by simpa [domain] using hfresh)
    rw [hmemory, domain_put, hsome]
    simpa [hnone, Set.insert_def, eq_comm] using htake
  have drops : pc'.block g' = none → g.free (pc.block g) = .ok g' →
      Exchange (domain g.memory) (domain g'.memory) {b | pc.block g = some b} {b | pc'.block g' = some b} := by
    intro hnone hfree
    rcases Image.free_eq_ok hfree with ⟨hnull, rfl⟩ | ⟨i, b, hi, hb, rfl⟩
    · exact keeps rfl (hnone.trans hnull.symm)
    · have hdrop := Exchange.drop hmine (a := i) hi
      rw [domain_remove, hnone]
      simpa [hi, Set.sdiff_eq_empty] using hdrop
  cases h with
  | malloc => exact takes _ rfl rfl rfl
  | mallocRead => exact takes _ rfl rfl rfl
  | memset hp hm | recv _ _ hp hm => exact keeps (domain_overwrite (by simp [hm])) rfl
  | read hp hm => exact keeps (domain_overwrite (by simp [hm])) (by split <;> rfl)
  | complete hm => exact keeps (domain_overwrite (by simp [hm])) rfl
  | readClosed => exact keeps rfl (by split <;> rfl)
  | freeRecv hfree => exact drops rfl hfree
  | freeRead hfree => exact drops rfl hfree
  | mallocFailed | lock | scan | openAppend | openFailed | write | nullRecv | closeStore | nullRead | addLen | openRead
    | closeRead | send | nullReadAgain | unlock | closeSocket => exact keeps rfl rfl
  | @realloc total found i b hp hm =>
    have hdrop := Exchange.drop hmine (a := i) hp
    have htake := Exchange.take (a := g.next) (Set.sdiff_subset_sdiff_left (t := {i}) hmine) (by simp [domain, hfresh])
    have hboth := hdrop.trans htake
    have hblock : {x | (if found then SessionPc.openAppend total else .recv total).block
        { g with
          memory := Function.update (Function.update g.memory i none) g.next
            (some (.buffer (resize b (total + recvLen))))
          next := g.next + 1
          recvData := some g.next } = some x} =
          Insert.insert g.next ({x | (SessionPc.realloc total found).block g = some x} \ {i}) := by
      have hall : {x | (SessionPc.realloc total found).block g = some x} \ {i} = ∅ := by
        ext x
        simp [SessionPc.block, hp]
      rw [hall]
      ext x
      cases found <;> simp [SessionPc.block, eq_comm]
    rw [domain_put, domain_remove, hblock]
    exact hboth

/-- A statement of main takes the node it allocates. -/
theorem MainMove.exchange {timer : Bool} {n : Nat} {finished : Nat → Bool} {pc pc' : MainPc}
    (h : MainMove timer n finished g pc pc' g' act) (hfresh : g.memory g.next = none)
    (hinit : pc.starting = true → g.head = [])
    (hmine : {b | b ∈ g.head ∨ b ∈ pc.prepared} ⊆ domain g.memory) :
    Exchange (domain g.memory) (domain g'.memory) {b | b ∈ g.head ∨ b ∈ pc.prepared}
      {b | b ∈ g'.head ∨ b ∈ pc'.prepared} := by
  have keeps : domain g'.memory = domain g.memory → g'.head = g.head → pc'.prepared = pc.prepared →
      Exchange (domain g.memory) (domain g'.memory) {b | b ∈ g.head ∨ b ∈ pc.prepared}
        {b | b ∈ g'.head ∨ b ∈ pc'.prepared} := by
    intro hdomain hhead hprepared
    rw [hdomain, hhead, hprepared]
    exact .nothing hmine
  cases h with
  | mallocNode =>
    have htake := Exchange.take hmine (a := g.next) (by simpa [domain] using hfresh)
    have hall : {b | b ∈ g.head ∨ b ∈ (MainPc.setSockfd g.next).prepared} =
        Insert.insert g.next {b | b ∈ g.head ∨ b ∈ MainPc.mallocNode.prepared} := by
      ext b
      simp [MainPc.prepared, or_comm]
    rw [show domain (g.alloc (.node ⟨none, 0, false⟩)).memory = Insert.insert g.next (domain g.memory) from domain_put]
    exact hall ▸ htake
  | setSockfd hq | setComplete hq | create hq => exact keeps (domain_overwrite (by simp [hq])) rfl rfl
  | @insert a =>
    have hall : {b | b ∈ a :: g.head ∨ b ∈ (MainPc.create a).prepared} =
        {b | b ∈ g.head ∨ b ∈ (MainPc.insert a).prepared} := by
      ext b
      simp [MainPc.prepared, or_comm]
    rw [hall]
    exact .nothing hmine
  | initList => exact keeps rfl (hinit rfl).symm rfl
  | initMutex => exact keeps rfl rfl (by split <;> rfl)
  | visit => exact keeps rfl rfl (by split <;> rfl)
  | _ => exact keeps rfl rfl rfl

/-- main leaves the globals of the buffers alone. -/
theorem MainMove.block {timer : Bool} {n : Nat} {finished : Nat → Bool} {pc pc' : MainPc}
    (h : MainMove timer n finished g pc pc' g' act) (s : SessionPc) : s.block g' = s.block g := by
  have hglobals : g'.recvData = g.recvData ∧ g'.readBuffer = g.readBuffer := by
    cases h <;> exact ⟨rfl, rfl⟩
  cases s <;> simp only [SessionPc.block, hglobals]

end Moves

section Custody
variable {timer : Bool} {p p' : Proc} {os : Trace} {t : Tid} {r : Reply} {o : Option (Actor × Act)} {g : Image}
  {act : Option Act} {k : Nat} {s : SessionThread}

def Proc.HeapCustody (p : Proc) : Prop := Custody (domain p.image.memory) p.blocks

theorem heapCustody_start : Proc.start.HeapCustody := by
  refine ⟨fun b => iff_of_false (by simp [domain, Proc.start, Image.initial]) ?_, fun b t u hb _ => ?_⟩
  · rintro ⟨t, hb⟩
    cases t <;> simp [Proc.blocks, Proc.start, Image.initial, MainPc.prepared] at hb
  · cases t <;> simp [Proc.blocks, Proc.start, Image.initial, MainPc.prepared] at hb

theorem Proc.HeapCustody.main {pc : MainPc} (h : p.HeapCustody) (hsound : Sound p os) (hlisted : Listed p)
    (hmove : MainMove timer p.sessions.length p.finished p.image p.main pc g act) :
    ({ p with image := g, main := pc, sessions := p.sessions ++ p.main.created } : Proc).HeapCustody := by
  have hinit : p.main.starting = true → p.image.head = [] := by
    intro hstart
    rw [List.eq_nil_iff_forall_not_mem]
    intro a ha
    rcases hlisted.listed a ha with ⟨k, s, hs, _⟩ | hmain
    · rw [hsound.guarded.starting hstart] at hs
      exact absurd hs (by simp)
    · rw [hmain] at hstart
      exact absurd hstart (by simp [MainPc.starting])
  refine Custody.exchange h (i := .main) (fun t ht => ?_)
    (hmove.exchange (hsound.fresh _ le_rfl) hinit (h.subset .main))
  cases t with
  | main => exact absurd rfl ht
  | session k =>
    ext b
    constructor
    · rintro ⟨s, hs, hb⟩
      rcases created_cases hs with hs | ⟨_, hnew⟩
      · exact ⟨s, hs, by rwa [hmove.block] at hb⟩
      · rw [(hmove.created hsound.pending hnew).1] at hb
        exact absurd hb (by simp [SessionPc.block])
    · rintro ⟨s, hs, hb⟩
      exact ⟨s, by rw [List.getElem?_append_left (List.getElem?_eq_some_iff.mp hs).1, hs], by rwa [hmove.block]⟩

theorem Proc.HeapCustody.session {pc : SessionPc} (h : p.HeapCustody) (hsound : Sound p os)
    (hframes : p.frames (.session k) = []) (hs : p.sessions[k]? = some s)
    (hmove : SessionMove (.session k) s.node p.image s.pc pc g act) :
    ({ p with image := g, sessions := p.sessions.set k ⟨pc, s.node⟩ } : Proc).HeapCustody := by
  have hk := (List.getElem?_eq_some_iff.mp hs).1
  have hwired := hsound.wired k s hs hmove.not_done
  have hspares := (hsound.holding k s hs).spares hmove hwired hsound.fresh
  have hmine : p.blocks (.session k) = {b | s.pc.block p.image = some b} := by
    ext b
    simp [Proc.blocks, hs]
  have hmine' : ({ p with image := g, sessions := p.sessions.set k ⟨pc, s.node⟩ } : Proc).blocks (.session k) =
      {b | pc.block g = some b} := by
    ext b
    simp [Proc.blocks, hk]
  refine Custody.exchange h (i := .session k) (fun t ht => ?_) ?_
  · cases t with
    | main => simp only [Proc.blocks, hspares.head]
    | session j =>
      have hj : j ≠ k := by simpa using ht
      ext b
      simp only [Proc.blocks, List.getElem?_set_ne (Ne.symm hj), Set.mem_ofPred_eq]
      refine exists_congr fun u => and_congr_right fun hu => ?_
      by_cases hcritical : u.pc.critical = true
      · -- session j has the mutex, so session k leaves recv_data and read_buffer as they are
        obtain ⟨hout, hout'⟩ := hsound.guarded.others hframes hs hmove hj hu hcritical
        have hkeeps := hmove.undisturbed hwired hout hout'
        have hsame : u.pc.block g = u.pc.block p.image := by
          cases u.pc <;> simp only [SessionPc.block, hkeeps.recvData, hkeeps.readBuffer]
        rw [hsame]
      · have hnone : ∀ g, u.pc.block g = none := SessionPc.block_of_not_critical (.inl (by simpa using hcritical))
        rw [hnone, hnone]
  · rw [hmine, hmine']
    exact hmove.exchange (hsound.fresh _ le_rfl) (hmine ▸ h.subset (.session k))

theorem Proc.HeapCustody.step (h : p.HeapCustody) (hsound : Sound p os) (hlisted : Listed p)
    (hmove : Moves timer p (.step t r) p' o) : p'.HeapCustody := by
  cases hmove with
  | stays | mainEnds | sessionEnds => exact h
  | handlerEnds _ hframes | handler _ hframes =>
    rw [hlisted.quiet] at hframes
    exact absurd hframes (by simp)
  | main _ _ hmain => exact h.main hsound hlisted hmain
  | session _ hframes hs hsession => exact h.session hsound hframes hs hsession

theorem heapCustody_run {is : List Input} (hsteps : ∀ i ∈ is, i.isStep = true)
    (hrun : (process timer).run .start is = some (p, os)) : Sound p os ∧ Listed p ∧ p.HeapCustody := by
  refine (process timer).along_keeps (I := fun p os => Sound p os ∧ Listed p ∧ p.HeapCustody)
    (fun p os i p' o h hi hs => ?_) [] ⟨sound_start, listed_start, heapCustody_start⟩ (along_steps hsteps _) hrun
  obtain ⟨hsound, hlisted, hcustody⟩ := h
  have hmove := step_moves hs
  obtain ⟨t, r, rfl⟩ := step_of_isStep hi
  exact ⟨hsound.step (calm_step p hi) hmove, hlisted.step hsound hmove, hcustody.step hsound hlisted hmove⟩

/-- No two threads have one node. -/
theorem Listed.nodes_nodup (h : Listed p) : (p.sessions.map SessionThread.node).Nodup := by
  apply List.pairwise_iff_getElem.mpr
  intro i j hi hj hij hsame
  rw [List.length_map] at hi hj
  rw [List.getElem_map, List.getElem_map] at hsame
  have hidi := (h.nodes i _ (List.getElem?_eq_getElem hi)).2
  have hidj := (h.nodes j _ (List.getElem?_eq_getElem hj)).2
  rw [hsame, hidj] at hidi
  exact absurd (Option.some.inj hidi) (by omega)

/-- While nobody has the mutex and no connection is on its way, only nodes are allocated. -/
theorem Proc.HeapCustody.resting (h : p.HeapCustody) (hsound : Sound p os) (hlisted : Listed p)
    (hfree : p.image.mutexLock = none) (hpending : p.main.pending = false) (b : Nat) :
    p.image.memory b ≠ none ↔ b ∈ p.sessions.map SessionThread.node := by
  have hmain : p.main.prepared = [] ∧ ∀ a, p.main ≠ .create a := by
    cases hpc : p.main with
    | setSockfd | setComplete | insert | create =>
      rw [hpc] at hpending
      exact absurd hpending (by simp [MainPc.pending])
    | _ => exact ⟨rfl, by simp⟩
  have hsessions : ∀ k, b ∉ p.blocks (.session k) := by
    rintro k ⟨s, hs, hb⟩
    have hcritical : s.pc.critical = false := by
      have hout := hsound.guarded.owner.free_iff.mp hfree (.session k)
      rw [Proc.inside, ownCritical_of_getElem? hs] at hout
      simpa using fun hin => hout (.inr hin)
    rw [SessionPc.block_of_not_critical (.inl hcritical)] at hb
    exact absurd hb (by simp)
  refine (h.used_iff b).trans ⟨?_, fun hb => ⟨.main, .inl ?_⟩⟩
  · rintro ⟨t, hb⟩
    cases t with
    | session k => exact absurd hb (hsessions k)
    | main =>
      rcases hb with hb | hb
      · obtain ⟨k, s, hs, rfl⟩ := (hlisted.listed b hb).resolve_right (hmain.2 b)
        exact List.mem_map_of_mem (List.mem_of_getElem? hs)
      · rw [hmain.1] at hb
        exact absurd hb (by simp)
  · obtain ⟨s, hs, rfl⟩ := List.mem_map.mp hb
    obtain ⟨k, hk⟩ := List.mem_iff_getElem?.mp hs
    exact (hlisted.nodes k s hk).1

end Custody

/-- However the threads interleave, every block that the server's malloc and realloc have
given out and that is not freed is with exactly one thread. The node of each thread that was
ever created stays in the list under its id, joined or not; while nobody has the mutex and no
connection is on its way to its thread, these nodes are all that is allocated. -/
theorem heap_in_custody (timer : Bool) (is : List Input) (hsteps : ∀ i ∈ is, i.isStep = true) {p : Proc} {os : Trace}
    (hrun : (process timer).run .start is = some (p, os)) :
    Custody (domain p.image.memory) p.blocks ∧
    (∀ (k : Nat) (s : SessionThread), p.sessions[k]? = some s →
      s.node ∈ p.image.head ∧ p.image.threadOf s.node = some k) ∧
    (p.image.mutexLock = none → p.main.pending = false →
      (p.sessions.map SessionThread.node).Nodup ∧
      ∀ b, p.image.memory b ≠ none ↔ b ∈ p.sessions.map SessionThread.node) := by
  obtain ⟨hsound, hlisted, hcustody⟩ := heapCustody_run hsteps hrun
  exact ⟨hcustody, hlisted.nodes, fun hfree hpending =>
    ⟨hlisted.nodes_nodup, hcustody.resting hsound hlisted hfree hpending⟩⟩

set_option maxRecDepth 100000 in
/-- One client, whose thread has been joined. -/
theorem heap_in_custody_after_join :
    ∃ p os, (process false).run .start (startUp false ++ accepting 4 ++ serving 0 5 [10] [10] ++
        List.replicate 3 (.ok .main 0)) = some (p, os) ∧ joined os = [0] ∧ p.image.head = [0] ∧
      ∀ b, p.image.memory b ≠ none ↔ b ∈ [0] := by
  have heval : ((process false).run .start (startUp false ++ accepting 4 ++ serving 0 5 [10] [10] ++
      List.replicate 3 (.ok .main 0))).map
        (fun q => (joined q.2, q.1.image.head, q.1.image.mutexLock, q.1.main, q.1.sessions)) =
          some ([0], [0], none, .pass [], [⟨.done, 0⟩]) := by decide +kernel
  obtain ⟨⟨p, os⟩, hrun, hp⟩ := Option.map_eq_some_iff.mp heval
  obtain ⟨hjoined, hp⟩ := Prod.mk.inj hp
  obtain ⟨hhead, hp⟩ := Prod.mk.inj hp
  obtain ⟨hfree, hp⟩ := Prod.mk.inj hp
  obtain ⟨hmain, hsessions⟩ := Prod.mk.inj hp
  dsimp only at hjoined hhead hfree hmain hsessions
  obtain ⟨_, _, hresting⟩ := heap_in_custody false _ (by decide) hrun
  obtain ⟨_, hnodes⟩ := hresting hfree (by rw [hmain]; rfl)
  rw [hsessions] at hnodes
  exact ⟨p, os, hrun, hjoined, hhead, hnodes⟩

end Aesd.Server
