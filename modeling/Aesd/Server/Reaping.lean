import Aesd.Server.Isolation

/-! The passes of main over its list of threads. A pass joins every thread that has set
is_thread_complete, but takes no node out of the list, so the next pass joins it again. -/
namespace Aesd.Server
open Aesd.Foundations Aesd.Driver

def joined (os : Trace) : List Nat :=
  os.filterMap fun
    | some (_, .join k) => some k
    | _ => none

def MainPc.inPass : MainPc → Bool
  | .pass _ | .join _ _ => true
  | _ => false

def Image.threadOf (g : Image) (a : Nat) : Option Nat :=
  match g.memory a with
  | some (.node q) => q.threadId
  | _ => none

def Image.completeAt (g : Image) (a : Nat) : Bool :=
  match g.memory a with
  | some (.node q) => q.isThreadComplete
  | _ => false

/-- At every point no thread has been joined twice, and outside of the passes no node in
the list belongs to a thread that has been joined. -/
def Reaped (timer : Bool) (is : List Input) : Prop :=
  ∀ js, js <+: is → ∀ p os, (process timer).run .start js = some (p, os) →
    (joined os).Nodup ∧
      (p.main.inPass = false → ∀ a ∈ p.image.head, ∀ k, p.image.threadOf a = some k → k ∉ joined os)

def Proc.meetsComplete (p : Proc) : Prop := ∃ a rest, p.main = .pass (a :: rest) ∧ p.image.completeAt a = true

/-- No pass that main has come to the end of has met a node with is_thread_complete set. -/
def NoneMet (timer : Bool) (is : List Input) : Prop :=
  ∀ js ks, js ++ ks <+: is → ∀ p os q ws, (process timer).run .start js = some (p, os) → p.meetsComplete →
    (process timer).run p ks = some (q, ws) → q.main.inPass = true

def MainPc.ahead : MainPc → List Nat
  | .pass rest => rest
  | .join a rest => a :: rest
  | _ => []

/-- The nodes in the list are those of the threads created, and the one that main has
inserted for the next. -/
structure Listed (p : Proc) : Prop where
  quiet : ∀ t, p.frames t = []
  nodes : ∀ (k : Nat) (s : SessionThread), p.sessions[k]? = some s →
    s.node ∈ p.image.head ∧ p.image.threadOf s.node = some k
  listed : ∀ a ∈ p.image.head,
    (∃ (k : Nat) (s : SessionThread), p.sessions[k]? = some s ∧ s.node = a) ∨ p.main = .create a
  inserted : ∀ a, p.main = .create a → a ∈ p.image.head
  nodup : p.image.head.Nodup
  ahead : p.main.ahead <:+ p.image.head

section Nodes
variable {timer : Bool} {n k a : Nat} {finished : Nat → Bool} {g g' : Image} {act : Option Act}

theorem threadOf_eq_some : g.threadOf a = some k ↔ ∃ q, g.memory a = some (.node q) ∧ q.threadId = some k := by
  unfold Image.threadOf
  split
  · rename_i q hq
    simp [hq]
  · rename_i hq
    refine iff_of_false (by simp) ?_
    rintro ⟨q, hm, _⟩
    exact hq q hm

theorem completeAt_eq_true :
    g.completeAt a = true ↔ ∃ q, g.memory a = some (.node q) ∧ q.isThreadComplete = true := by
  unfold Image.completeAt
  split
  · rename_i q hq
    simp [hq]
  · rename_i hq
    refine iff_of_false (by simp) ?_
    rintro ⟨q, hm, _⟩
    exact hq q hm

/-- main does not touch the nodes of the threads it has created. -/
theorem MainMove.node {pc pc' : MainPc} (h : MainMove timer n finished g pc pc' g' act)
    (hpending : Pending g n pc) (hfresh : ∀ b, g.next ≤ b → g.memory b = none) {q : Params}
    (hq : g.memory a = some (.node q)) (hid : q.threadId ≠ none) : g'.memory a = some (.node q) := by
  by_cases hstart : pc.starting = true
  · cases h with
    | mallocNode | setSockfd | setComplete | create => exact absurd hstart (by simp [MainPc.starting])
    | _ => exact hq
  · exact (h.spares (by simpa using hstart) hpending hfresh).nodes a q hq hid

/-- A session changes in the nodes only is_thread_complete, and sets it. -/
theorem Spares.node {node : Nat} {me : Tid} {pc pc' : SessionPc} {q : Params} (h : Spares k node pc pc' g g')
    (hmove : SessionMove me node g pc pc' g' act) (hq : g.memory a = some (.node q)) :
    ∃ q', g'.memory a = some (.node q') ∧ q'.threadId = q.threadId ∧
      (q.isThreadComplete = true → q'.isThreadComplete = true) := by
  by_cases ha : a ≠ node ∨ pc ≠ .complete
  · exact ⟨q, (h.nodes a q ha).mpr hq, rfl, id⟩
  · obtain ⟨rfl, rfl⟩ : a = node ∧ pc = .complete := by
      simpa only [not_or, not_not] using ha
    cases hmove with
    | complete hq' =>
      obtain rfl := Block.node.inj (Option.some.inj (hq.symm.trans hq'))
      exact ⟨_, Function.update_self .., rfl, fun _ => rfl⟩

end Nodes

section Listed
variable {timer : Bool} {p p' : Proc} {os : Trace} {t : Tid} {r : Reply} {o : Option (Actor × Act)} {k a : Nat}

theorem listed_start : Listed Proc.start := by
  refine ⟨fun _ => rfl, ?_, ?_, ?_, List.nodup_nil, List.suffix_rfl⟩
  · intro k s hs
    exact absurd hs (by simp [Proc.start])
  · intro a ha
    exact absurd ha (by simp [Proc.start, Image.initial])
  · intro a ha
    exact absurd ha (by simp [Proc.start])

/-- A step keeps the threads, the ids in their nodes and which of them are complete. -/
theorem Sound.threads (h : Sound p os) (hquiet : ∀ t, p.frames t = []) (hmove : Moves timer p (.step t r) p' o) :
    p.sessions.length ≤ p'.sessions.length ∧
      ∀ a k, p.image.threadOf a = some k → p'.image.threadOf a = some k ∧
        (p.image.completeAt a = true → p'.image.completeAt a = true) := by
  cases hmove with
  | stays | mainEnds | sessionEnds => exact ⟨le_rfl, fun a k ha => ⟨ha, id⟩⟩
  | handlerEnds _ hframes | handler _ hframes =>
    rw [hquiet] at hframes
    exact absurd hframes (by simp)
  | main _ _ hmain =>
    refine ⟨by simp, fun a k ha => ?_⟩
    obtain ⟨q, hq, hid⟩ := threadOf_eq_some.mp ha
    have hq' := hmain.node h.pending h.fresh hq (by simp [hid])
    refine ⟨threadOf_eq_some.mpr ⟨q, hq', hid⟩, fun hcomplete => ?_⟩
    obtain ⟨q₁, hq₁, hset⟩ := completeAt_eq_true.mp hcomplete
    obtain rfl := Block.node.inj (Option.some.inj (hq.symm.trans hq₁))
    exact completeAt_eq_true.mpr ⟨q, hq', hset⟩
  | @session k s _ _ _ _ _ _ hs hsession =>
    have hspares := (h.holding k s hs).spares hsession (h.wired k s hs hsession.not_done) h.fresh
    refine ⟨by simp, fun a k ha => ?_⟩
    obtain ⟨q, hq, hid⟩ := threadOf_eq_some.mp ha
    obtain ⟨q', hq', hid', hset⟩ := hspares.node hsession hq
    refine ⟨threadOf_eq_some.mpr ⟨q', hq', hid'.trans hid⟩, fun hcomplete => ?_⟩
    obtain ⟨q₁, hq₁, hset₁⟩ := completeAt_eq_true.mp hcomplete
    obtain rfl := Block.node.inj (Option.some.inj (hq.symm.trans hq₁))
    exact completeAt_eq_true.mpr ⟨q', hq', hset hset₁⟩

theorem Pending.threadOf {n : Nat} {g : Image} {pc : MainPc} (h : Pending g n pc)
    (hpc : pc = .insert a ∨ pc = .create a) : g.threadOf a = none := by
  rcases hpc with rfl | rfl
  · obtain ⟨q, hq, hid, _⟩ := h
    simp only [Image.threadOf, hq, hid]
  · obtain ⟨q, hq, hid, _⟩ := h
    simp only [Image.threadOf, hq, hid]

theorem Listed.threadAt (h : Listed p) (hsound : Sound p os) (ha : a ∈ p.image.head)
    (hk : p.image.threadOf a = some k) : ∃ s, p.sessions[k]? = some s ∧ s.node = a := by
  rcases h.listed a ha with ⟨j, s, hs, rfl⟩ | hcreate
  · obtain rfl := Option.some.inj ((h.nodes j s hs).2.symm.trans hk)
    exact ⟨s, hs, rfl⟩
  · rw [hsound.pending.threadOf (.inr hcreate)] at hk
    exact absurd hk (by simp)

/-- Two nodes in the list are not of one thread. -/
theorem Listed.injective (h : Listed p) (hsound : Sound p os) {b : Nat} (ha : a ∈ p.image.head)
    (hb : b ∈ p.image.head) (hak : p.image.threadOf a = some k) (hbk : p.image.threadOf b = some k) : a = b := by
  obtain ⟨s, hs, rfl⟩ := h.threadAt hsound ha hak
  obtain ⟨u, hu, rfl⟩ := h.threadAt hsound hb hbk
  rw [Option.some.inj (hs.symm.trans hu)]

/-- What main does to the list and to the threads. -/
theorem MainMove.list {n : Nat} {finished : Nat → Bool} {g g' : Image} {pc pc' : MainPc} {act : Option Act}
    (h : MainMove timer n finished g pc pc' g' act) :
    (g'.head = g.head ∧ pc.created = [] ∧ (∀ a, pc ≠ .create a) ∧ ∀ a, pc' ≠ .create a) ∨
      (∃ a, pc = .insert a ∧ pc' = .create a ∧ g' = { g with head := a :: g.head }) ∨
      (∃ a, pc = .create a ∧ pc' = .first ∧ g'.head = g.head ∧ g'.threadOf a = some n) ∨
      (pc.starting = true ∧ g'.head = [] ∧ pc.created = [] ∧ ∀ a, pc' ≠ .create a) := by
  cases h with
  | insert => exact .inr (.inl ⟨_, rfl, rfl, rfl⟩)
  | create =>
    refine .inr (.inr (.inl ⟨_, rfl, rfl, rfl, ?_⟩))
    simp [Image.threadOf, Image.set]
  | initList => exact .inr (.inr (.inr ⟨rfl, rfl, rfl, by simp⟩))
  | initMutex | visit => exact .inl ⟨rfl, rfl, by simp, by intro a; split <;> simp⟩
  | _ => exact .inl ⟨rfl, rfl, by simp, by simp⟩

theorem MainMove.ahead {n : Nat} {finished : Nat → Bool} {g g' : Image} {pc pc' : MainPc} {act : Option Act}
    (h : MainMove timer n finished g pc pc' g' act) :
    pc'.ahead <:+ pc.ahead ∨ pc = .first ∧ pc'.ahead = g.head := by
  cases h with
  | first => exact .inr ⟨rfl, rfl⟩
  | @visit a rest q _ =>
    cases q.isThreadComplete with
    | true => exact .inl List.suffix_rfl
    | false => exact .inl (List.suffix_cons a rest)
  | @join a _ rest => exact .inl (List.suffix_cons a rest)
  | initMutex => exact .inl (by split <;> exact List.suffix_rfl)
  | _ => exact .inl List.suffix_rfl

theorem Listed.session {s : SessionThread} {pc : SessionPc} {g : Image} {act : Option Act} (h : Listed p)
    (hsound : Sound p os) (hs : p.sessions[k]? = some s)
    (hmove : SessionMove (.session k) s.node p.image s.pc pc g act)
    (hthreads : ∀ a j, p.image.threadOf a = some j → g.threadOf a = some j) :
    Listed { p with image := g, sessions := p.sessions.set k ⟨pc, s.node⟩ } := by
  have hk := (List.getElem?_eq_some_iff.mp hs).1
  have hhead := ((hsound.holding k s hs).spares hmove (hsound.wired k s hs hmove.not_done) hsound.fresh).head
  refine ⟨h.quiet, fun j u hu => ?_, fun a ha => ?_, fun a ha => ?_, ?_, ?_⟩
  · obtain ⟨v, hv, hvu⟩ : ∃ v, p.sessions[j]? = some v ∧ v.node = u.node := by
      by_cases hj : j = k
      · subst hj
        rw [List.getElem?_set_self hk] at hu
        exact ⟨s, hs, by rw [← Option.some.inj hu]⟩
      · rw [List.getElem?_set_ne (Ne.symm hj)] at hu
        exact ⟨u, hu, rfl⟩
    obtain ⟨hmem, hid⟩ := h.nodes j v hv
    rw [hhead, ← hvu]
    exact ⟨hmem, hthreads _ _ hid⟩
  · rw [hhead] at ha
    refine (h.listed a ha).imp_left ?_
    rintro ⟨j, u, hu, rfl⟩
    by_cases hj : j = k
    · subst hj
      obtain rfl := Option.some.inj (hs.symm.trans hu)
      exact ⟨j, _, List.getElem?_set_self hk, rfl⟩
    · exact ⟨j, u, (List.getElem?_set_ne (Ne.symm hj)).trans hu, rfl⟩
  · rw [hhead]
    exact h.inserted a ha
  · rw [hhead]
    exact h.nodup
  · rw [hhead]
    exact h.ahead

section Main
variable {n : Nat} {finished : Nat → Bool} {g : Image} {pc : MainPc} {act : Option Act}

private theorem getElem?_created {j : Nat} {u : SessionThread} (hu : p.sessions[j]? = some u) :
    (p.sessions ++ p.main.created)[j]? = some u := by
  rw [List.getElem?_append_left (List.getElem?_eq_some_iff.mp hu).1, hu]

private theorem Listed.stays (h : Listed p) (hhead : g.head = p.image.head) (hcreated : p.main.created = [])
    (hpc : ∀ a, p.main ≠ .create a) (hpc' : ∀ a, pc ≠ .create a)
    (hahead : pc.ahead <:+ p.main.ahead ∨ p.main = .first ∧ pc.ahead = p.image.head)
    (hthreads : ∀ a j, p.image.threadOf a = some j → g.threadOf a = some j) :
    Listed { p with image := g, main := pc, sessions := p.sessions ++ p.main.created } := by
  refine ⟨h.quiet, fun j u hu => ?_, fun a ha => ?_, fun a ha => absurd ha (hpc' a), ?_, ?_⟩
  · rw [hcreated, List.append_nil] at hu
    rw [hhead]
    exact ⟨(h.nodes j u hu).1, hthreads _ _ (h.nodes j u hu).2⟩
  · rw [hhead] at ha
    obtain ⟨j, u, hu, hua⟩ := (h.listed a ha).resolve_right (hpc a)
    exact .inl ⟨j, u, getElem?_created hu, hua⟩
  · rw [hhead]
    exact h.nodup
  · rw [hhead]
    rcases hahead with hless | ⟨_, hall⟩
    · exact hless.trans h.ahead
    · exact hall ▸ List.suffix_rfl

private theorem Listed.insert (h : Listed p) (hpending : Pending p.image p.sessions.length p.main)
    (hpc : p.main = .insert a) :
    Listed { p with
      image := { p.image with head := a :: p.image.head }
      main := .create a
      sessions := p.sessions ++ p.main.created } := by
  have hcreated : p.main.created = [] := by rw [hpc]; rfl
  refine ⟨h.quiet, fun j u hu => ?_, fun b hb => ?_, fun b hb => ?_, ?_, List.nil_suffix⟩
  · rw [hcreated, List.append_nil] at hu
    exact ⟨List.mem_cons_of_mem _ (h.nodes j u hu).1, (h.nodes j u hu).2⟩
  · rcases List.mem_cons.mp hb with rfl | hb
    · exact .inr rfl
    · obtain ⟨j, u, hu, hub⟩ := (h.listed b hb).resolve_right (by simp [hpc])
      exact .inl ⟨j, u, getElem?_created hu, hub⟩
  · obtain rfl := MainPc.create.inj hb
    exact List.mem_cons_self
  · refine List.nodup_cons.mpr ⟨fun ha => ?_, h.nodup⟩
    obtain ⟨j, u, hu, rfl⟩ := (h.listed a ha).resolve_right (by simp [hpc])
    have hnone := hpending.threadOf (.inl hpc)
    rw [(h.nodes j u hu).2] at hnone
    exact absurd hnone (by simp)

private theorem Listed.create (h : Listed p) (hpc : p.main = .create a) (hhead : g.head = p.image.head)
    (hid : g.threadOf a = some p.sessions.length)
    (hthreads : ∀ a j, p.image.threadOf a = some j → g.threadOf a = some j) :
    Listed { p with image := g, main := .first, sessions := p.sessions ++ p.main.created } := by
  have hcreated : p.main.created = [⟨.lock, a⟩] := by rw [hpc]; rfl
  refine ⟨h.quiet, fun j u hu => ?_, fun b hb => ?_, fun b hb => absurd hb (by simp), ?_, List.nil_suffix⟩
  · rw [hhead]
    rcases created_cases hu with hu | ⟨rfl, hnew⟩
    · exact ⟨(h.nodes j u hu).1, hthreads _ _ (h.nodes j u hu).2⟩
    · rw [hcreated] at hnew
      rw [List.mem_singleton.mp hnew]
      exact ⟨h.inserted a hpc, hid⟩
  · rw [hhead] at hb
    rcases h.listed b hb with ⟨j, u, hu, hub⟩ | hcreate
    · exact .inl ⟨j, u, getElem?_created hu, hub⟩
    · obtain rfl := MainPc.create.inj (hpc.symm.trans hcreate)
      refine .inl ⟨p.sessions.length, ⟨.lock, a⟩, ?_, rfl⟩
      rw [List.getElem?_append_right le_rfl, hcreated, Nat.sub_self]
      rfl
  · rw [hhead]
    exact h.nodup

private theorem ahead_of_starting (hstart : pc.starting = true) : pc.ahead = [] := by
  cases pc with
  | pass | join => exact absurd hstart (by simp [MainPc.starting])
  | _ => rfl

private theorem Listed.initList (h : Listed p) (hstart : p.main.starting = true) (hnone : p.sessions = [])
    (hhead : g.head = []) (hcreated : p.main.created = []) (hpc' : ∀ a, pc ≠ .create a)
    (hahead : pc.ahead <:+ p.main.ahead ∨ p.main = .first ∧ pc.ahead = p.image.head) :
    Listed { p with image := g, main := pc, sessions := p.sessions ++ p.main.created } := by
  refine ⟨h.quiet, fun j u hu => ?_, fun a ha => ?_, fun a ha => absurd ha (hpc' a), ?_, ?_⟩
  · rw [hcreated, List.append_nil, hnone] at hu
    exact absurd hu (by simp)
  · rw [hhead] at ha
    exact absurd ha (by simp)
  · rw [hhead]
    exact List.nodup_nil
  · rcases hahead with hless | ⟨hfirst, _⟩
    · rw [ahead_of_starting hstart] at hless
      exact hless.trans List.nil_suffix
    · rw [hfirst] at hstart
      exact absurd hstart (by simp [MainPc.starting])

theorem Listed.main (h : Listed p) (hsound : Sound p os)
    (hmove : MainMove timer p.sessions.length p.finished p.image p.main pc g act)
    (hthreads : ∀ a j, p.image.threadOf a = some j → g.threadOf a = some j) :
    Listed { p with image := g, main := pc, sessions := p.sessions ++ p.main.created } := by
  rcases hmove.list with ⟨hhead, hcreated, hpc, hpc'⟩ | ⟨a, hpc, rfl, rfl⟩ | ⟨a, hpc, rfl, hhead, hid⟩ |
    ⟨hstart, hhead, hcreated, hpc'⟩
  · exact h.stays hhead hcreated hpc hpc' hmove.ahead hthreads
  · exact h.insert hsound.pending hpc
  · exact h.create hpc hhead hid hthreads
  · exact h.initList hstart (hsound.guarded.starting hstart) hhead hcreated hpc' hmove.ahead

end Main

theorem Listed.step (h : Listed p) (hsound : Sound p os) (hmove : Moves timer p (.step t r) p' o) : Listed p' := by
  have hthreads := (hsound.threads h.quiet hmove).2
  cases hmove with
  | stays => exact h
  | mainEnds | sessionEnds => exact ⟨h.quiet, h.nodes, h.listed, h.inserted, h.nodup, h.ahead⟩
  | handlerEnds _ hframes | handler _ hframes =>
    rw [h.quiet] at hframes
    exact absurd hframes (by simp)
  | session _ _ hs hsession => exact h.session hsound hs hsession fun a j ha => (hthreads a j ha).1
  | main _ _ hmain => exact h.main hsound hmain fun a j ha => (hthreads a j ha).1

end Listed

section Pass
variable {timer : Bool} {p p' : Proc} {os : Trace} {t : Tid} {r : Reply} {o : Option (Actor × Act)} {k : Nat}

theorem joined_append (os ws : Trace) : joined (os ++ ws) = joined os ++ joined ws := List.filterMap_append ..

/-- What main does within a pass, into it and out of it. -/
theorem MainMove.pass {n : Nat} {finished : Nat → Bool} {g g' : Image} {pc pc' : MainPc} {act : Option Act}
    (h : MainMove timer n finished g pc pc' g' act) :
    (pc.inPass = false ∧ pc'.inPass = false ∧ joined [act.map fun a => (.thread .main, a)] = []) ∨
      (pc = .first ∧ pc' = .pass g.head ∧ g' = g ∧ act = none) ∨
      (pc = .pass [] ∧ pc' = .listen ∧ g' = g ∧ act = none) ∨
      (∃ a rest, pc = .pass (a :: rest) ∧ g' = g ∧ act = none ∧
        (g.completeAt a = true ∧ pc' = .join a rest ∨ g.completeAt a = false ∧ pc' = .pass rest)) ∨
      ∃ a rest j, pc = .join a rest ∧ pc' = .pass rest ∧ g' = { g with joined := j :: g.joined } ∧
        act = some (.join j) ∧ g.threadOf a = some j := by
  cases h with
  | first => exact .inr (.inl ⟨rfl, rfl, rfl, rfl⟩)
  | passed => exact .inr (.inr (.inl ⟨rfl, rfl, rfl, rfl⟩))
  | @visit a rest q hq =>
    refine .inr (.inr (.inr (.inl ⟨a, rest, rfl, rfl, rfl, ?_⟩)))
    simp only [Image.completeAt, hq]
    cases q.isThreadComplete with
    | true => exact .inl ⟨rfl, rfl⟩
    | false => exact .inr ⟨rfl, rfl⟩
  | join hq hk => exact .inr (.inr (.inr (.inr ⟨_, _, _, rfl, rfl, rfl, rfl, threadOf_eq_some.mpr ⟨_, hq, hk⟩⟩)))
  | initMutex => exact .inl ⟨rfl, by split <;> rfl, rfl⟩
  | _ => exact .inl ⟨rfl, rfl, rfl⟩

theorem SessionMove.joined {me : Tid} {node : Nat} {who : Actor} {g g' : Image} {pc pc' : SessionPc}
    {act : Option Act} (h : SessionMove me node g pc pc' g' act) :
    joined [act.map fun a => (who, a)] = [] := by
  cases h with
  | write => cases g.fds g.fptr <;> rfl
  | freeRecv => cases g.recvData <;> rfl
  | freeRead => cases g.readBuffer <;> rfl
  | _ => rfl

/-- Either main makes the step, or neither its place, the list nor the joins change. -/
theorem Sound.pass_step (h : Sound p os) (hquiet : ∀ t, p.frames t = []) (hmove : Moves timer p (.step t r) p' o) :
    (p'.main = p.main ∧ p'.image.head = p.image.head ∧ joined [o] = []) ∨
      ∃ n finished act, MainMove timer n finished p.image p.main p'.main p'.image act ∧
        o = act.map fun a => (.thread .main, a) := by
  cases hmove with
  | stays | mainEnds | sessionEnds => exact .inl ⟨rfl, rfl, rfl⟩
  | handlerEnds _ hframes | handler _ hframes =>
    rw [hquiet] at hframes
    exact absurd hframes (by simp)
  | main _ _ hmain => exact .inr ⟨_, _, _, hmain, rfl⟩
  | @session k s _ _ _ _ _ _ hs hsession =>
    have hspares := (h.holding k s hs).spares hsession (h.wired k s hs hsession.not_done) h.fresh
    exact .inl ⟨rfl, hspares.head, hsession.joined⟩

/-- A node ahead of the pass whose thread is complete is still ahead after a step, or
its thread has been joined by it. -/
theorem Sound.due_step (h : Sound p os) (hquiet : ∀ t, p.frames t = []) (hmove : Moves timer p (.step t r) p' o)
    {a : Nat} (ha : a ∈ p.main.ahead) (hk : p.image.threadOf a = some k) (hset : p.image.completeAt a = true) :
    a ∈ p'.main.ahead ∨ k ∈ joined [o] := by
  rcases h.pass_step hquiet hmove with ⟨hmain, _, _⟩ | ⟨n, finished, act, hmain, rfl⟩
  · rw [hmain]
    exact .inl ha
  · rcases hmain.pass with ⟨hpc, _, _⟩ | ⟨hpc, _⟩ | ⟨hpc, _⟩ | ⟨b, rest, hpc, _, _, hvisit⟩ |
      ⟨b, rest, j, hpc, hpc', _, rfl, hj⟩
    · cases hm : p.main with
      | pass | join =>
        rw [hm] at hpc
        exact absurd hpc (by simp [MainPc.inPass])
      | _ =>
        rw [hm] at ha
        exact absurd ha (by simp [MainPc.ahead])
    · rw [hpc] at ha
      exact absurd ha (by simp [MainPc.ahead])
    · rw [hpc] at ha
      exact absurd ha (by simp [MainPc.ahead])
    · rw [hpc] at ha
      rcases hvisit with ⟨_, hpc'⟩ | ⟨hunset, hpc'⟩
      · rw [hpc']
        exact .inl ha
      · rw [hpc']
        rcases List.mem_cons.mp ha with rfl | ha
        · exact absurd (hset.symm.trans hunset) (by simp)
        · exact .inl ha
    · rw [hpc] at ha
      rw [hpc']
      rcases List.mem_cons.mp ha with rfl | ha
      · obtain rfl := Option.some.inj (hj.symm.trans hk)
        exact .inr List.mem_cons_self
      · exact .inl ha

/-- Before the first join, and before main comes to it, the pass meets a complete thread. -/
theorem Sound.meets_step (h : Sound p os) (hquiet : ∀ t, p.frames t = []) (hmove : Moves timer p (.step t r) p' o)
    (hjoin : joined (os ++ [o]) ≠ [] ∨ ∃ a rest, p'.main = .join a rest) :
    p.meetsComplete ∨ joined os ≠ [] ∨ ∃ a rest, p.main = .join a rest := by
  by_cases hbefore : joined os = []
  · rw [joined_append, hbefore, List.nil_append] at hjoin
    rcases h.pass_step hquiet hmove with ⟨hmain, _, hsilent⟩ | ⟨n, finished, act, hmain, rfl⟩
    · rw [hmain] at hjoin
      exact .inr (.inr (hjoin.resolve_left fun hne => hne hsilent))
    · rcases hmain.pass with ⟨_, hout, hsilent⟩ | ⟨_, hpc', _, rfl⟩ | ⟨_, hpc', _, rfl⟩ |
        ⟨a, rest, hpc, _, rfl, ⟨hset, _⟩ | ⟨_, hpc'⟩⟩ | ⟨a, rest, j, hpc, _⟩
      · obtain ⟨a, rest, hm⟩ := hjoin.resolve_left fun hne => hne hsilent
        rw [hm] at hout
        exact absurd hout (by simp [MainPc.inPass])
      · obtain ⟨a, rest, hm⟩ := hjoin.resolve_left fun hne => hne rfl
        exact absurd (hpc'.symm.trans hm) (by simp)
      · obtain ⟨a, rest, hm⟩ := hjoin.resolve_left fun hne => hne rfl
        exact absurd (hpc'.symm.trans hm) (by simp)
      · exact .inl ⟨a, rest, hpc, hset⟩
      · obtain ⟨b, rest', hm⟩ := hjoin.resolve_left fun hne => hne rfl
        exact absurd (hpc'.symm.trans hm) (by simp)
      · exact .inr (.inr ⟨a, rest, hpc⟩)
  · exact .inr (.inl hbefore)

end Pass

/-- What holds during the passes as long as none has been finished that met a complete thread. -/
structure Passing (p : Proc) (os : Trace) : Prop where
  inside : p.main.inPass = true → ∃ before, p.image.head = before ++ p.main.ahead ∧
    ∀ k ∈ joined os, ∃ a ∈ before, p.image.threadOf a = some k
  outside : p.main.inPass = false → joined os = []
  nodup : (joined os).Nodup

section Passing
variable {timer : Bool} {p p' : Proc} {os : Trace} {t : Tid} {r : Reply} {o : Option (Actor × Act)}

private theorem Passing.fresh {a k : Nat} {rest : List Nat} (h : Passing p os) (hsound : Sound p os)
    (hlisted : Listed p) (hpc : p.main = .join a rest) (hk : p.image.threadOf a = some k) : k ∉ joined os := by
  intro hmem
  obtain ⟨before, hsplit, hjoined⟩ := h.inside (by rw [hpc]; rfl)
  rw [hpc] at hsplit
  obtain ⟨b, hb, hbk⟩ := hjoined k hmem
  have hnodup := hlisted.nodup
  rw [hsplit] at hnodup
  have hab : b = a := hlisted.injective hsound (by rw [hsplit]; exact List.mem_append_left _ hb)
    (by rw [hsplit]; simp [MainPc.ahead]) hbk hk
  exact (List.disjoint_of_nodup_append hnodup) hb (by rw [hab]; exact List.mem_cons_self)

/-- A step keeps this if nothing has been joined whenever it leads out of a pass. -/
theorem Passing.step (h : Passing p os) (hsound : Sound p os) (hlisted : Listed p)
    (hmove : Moves timer p (.step t r) p' o) (houtside : p'.main.inPass = false → joined (os ++ [o]) = []) :
    Passing p' (os ++ [o]) := by
  have hthreads := (hsound.threads hlisted.quiet hmove).2
  rcases hsound.pass_step hlisted.quiet hmove with ⟨hmain, hhead, hsilent⟩ | ⟨n, finished, act, hmain, rfl⟩
  · have hsame : joined (os ++ [o]) = joined os := by rw [joined_append, hsilent, List.append_nil]
    refine ⟨fun hin => ?_, houtside, hsame ▸ h.nodup⟩
    rw [hmain] at hin
    obtain ⟨before, hsplit, hjoined⟩ := h.inside hin
    refine ⟨before, by rw [hhead, hmain, hsplit], fun k hk => ?_⟩
    obtain ⟨a, ha, hak⟩ := hjoined k (hsame ▸ hk)
    exact ⟨a, ha, (hthreads a k hak).1⟩
  · rcases hmain.pass with ⟨_, hout, hsilent⟩ | ⟨hpc, hpc', hg, rfl⟩ | ⟨_, hpc', _, rfl⟩ |
      ⟨a, rest, hpc, hg, rfl, hvisit⟩ | ⟨a, rest, j, hpc, hpc', hg, rfl, hj⟩
    · refine ⟨fun hin => absurd hin (by simp [hout]), houtside, ?_⟩
      rw [joined_append, hsilent, List.append_nil]
      exact h.nodup
    · have hnil : joined (os ++ [none]) = [] := by
        rw [joined_append, h.outside (by rw [hpc]; rfl)]
        rfl
      refine ⟨fun _ => ⟨[], by rw [hg, hpc']; rfl, fun k hk => ?_⟩, houtside, hnil ▸ List.nodup_nil⟩
      exact absurd (hnil ▸ hk) (by simp)
    · refine ⟨fun hin => absurd hin (by simp [hpc', MainPc.inPass]), houtside, ?_⟩
      rw [houtside (by rw [hpc']; rfl)]
      exact List.nodup_nil
    · obtain ⟨before, hsplit, hjoined⟩ := h.inside (by rw [hpc]; rfl)
      have hsame : joined (os ++ [none]) = joined os := by
        rw [joined_append]
        exact List.append_nil _
      refine ⟨fun _ => ?_, houtside, hsame ▸ h.nodup⟩
      rw [hpc] at hsplit
      rw [hg]
      rcases hvisit with ⟨_, hpc'⟩ | ⟨_, hpc'⟩
      · rw [hpc']
        exact ⟨before, hsplit, fun k hk => hjoined k (hsame ▸ hk)⟩
      · rw [hpc']
        refine ⟨before ++ [a], by rw [hsplit]; simp [MainPc.ahead], fun k hk => ?_⟩
        obtain ⟨b, hb, hbk⟩ := hjoined k (hsame ▸ hk)
        exact ⟨b, List.mem_append_left _ hb, hbk⟩
    · obtain ⟨before, hsplit, hjoined⟩ := h.inside (by rw [hpc]; rfl)
      rw [hpc] at hsplit
      have hone : joined (os ++ [some (.thread .main, .join j)]) = joined os ++ [j] := joined_append ..
      refine ⟨fun _ => ?_, houtside, ?_⟩
      · rw [hg, hpc']
        refine ⟨before ++ [a], by rw [hsplit]; simp [MainPc.ahead], fun k hk => ?_⟩
        rcases List.mem_append.mp (hone ▸ hk) with hk | hk
        · obtain ⟨b, hb, hbk⟩ := hjoined k hk
          exact ⟨b, List.mem_append_left _ hb, hbk⟩
        · rw [List.mem_singleton.mp hk]
          exact ⟨a, by simp, hj⟩
      · change (joined (os ++ [some (.thread .main, .join j)])).Nodup
        rw [hone]
        exact h.nodup.append (by simp) (by simpa using h.fresh hsound hlisted hpc hj)

end Passing

section Runs
variable {timer : Bool} {p q : Proc} {is js ks : List Input} {os ws : Trace} {k a : Nat}

theorem step_of_isStep {i : Input} (h : i.isStep = true) : ∃ t r, i = .step t r := by
  cases i with
  | step t r => exact ⟨t, r, rfl⟩
  | signal => exact absurd h (by simp [Input.isStep])

theorem along_steps (h : ∀ i ∈ is, i.isStep = true) (p : Proc) :
    (process timer).Along (fun _ i => i.isStep = true) p is :=
  (process timer).along_of_forall (fun i hi _ => h i hi) p

/-- In every run without signals the nodes in the list are those of the threads created. -/
theorem listed_run (hsteps : ∀ i ∈ is, i.isStep = true) (hrun : (process timer).run .start is = some (p, os)) :
    Sound p os ∧ Listed p := by
  refine (process timer).along_keeps (I := fun p os => Sound p os ∧ Listed p) (fun p os i p' o h hi hs => ?_) []
    ⟨sound_start, listed_start⟩ (along_steps hsteps _) hrun
  have hmove := step_moves hs
  obtain ⟨t, r, rfl⟩ := step_of_isStep hi
  exact ⟨h.1.step (calm_step p hi) hmove, h.2.step h.1 hmove⟩

/-- A complete thread whose node is ahead of the pass has been joined when the pass is over. -/
theorem due_run (hsound : Sound p os) (hlisted : Listed p) (hsteps : ∀ i ∈ ks, i.isStep = true)
    (hrun : (process timer).run p ks = some (q, ws)) (ha : a ∈ p.main.ahead)
    (hk : p.image.threadOf a = some k) (hset : p.image.completeAt a = true) (hlt : k < p.sessions.length) :
    Listed q ∧ k < q.sessions.length ∧ (q.main.ahead = [] → k ∈ joined (os ++ ws)) := by
  have hkept := (process timer).along_keeps (I := fun p os => (Sound p os ∧ Listed p) ∧ k < p.sessions.length ∧
      ((a ∈ p.main.ahead ∧ p.image.threadOf a = some k ∧ p.image.completeAt a = true) ∨ k ∈ joined os))
    (fun p os i p' o h hi hs => ?_) os ⟨⟨hsound, hlisted⟩, hlt, .inl ⟨ha, hk, hset⟩⟩ (along_steps hsteps _) hrun
  · obtain ⟨⟨_, hlisted'⟩, hlt', hdue⟩ := hkept
    refine ⟨hlisted', hlt', fun hnil => hdue.resolve_left ?_⟩
    rw [hnil]
    simp
  · have hmove := step_moves hs
    obtain ⟨t, r, rfl⟩ := step_of_isStep hi
    obtain ⟨⟨hsound, hlisted⟩, hlt, hdue⟩ := h
    obtain ⟨hle, hthreads⟩ := hsound.threads hlisted.quiet hmove
    refine ⟨⟨hsound.step (calm_step p hi) hmove, hlisted.step hsound hmove⟩, hlt.trans_le hle, ?_⟩
    rw [joined_append, List.mem_append]
    rcases hdue with ⟨ha, hk, hset⟩ | hjoined
    · rcases hsound.due_step hlisted.quiet hmove ha hk hset with hahead | hjoined
      · exact .inl ⟨hahead, (hthreads a k hk).1, (hthreads a k hk).2 hset⟩
      · exact .inr (.inr hjoined)
    · exact .inr (.inl hjoined)

/-- A join comes after a pass has met a complete thread. -/
theorem met_of_joined (hsteps : ∀ i ∈ is, i.isStep = true) (hrun : (process timer).run .start is = some (p, os))
    (hjoin : joined os ≠ [] ∨ ∃ a rest, p.main = .join a rest) :
    ∃ js ks p₁ os₁ ws, is = js ++ ks ∧ (process timer).run .start js = some (p₁, os₁) ∧ p₁.meetsComplete ∧
      (process timer).run p₁ ks = some (p, ws) := by
  induction is using List.reverseRecOn generalizing p os with
  | nil =>
    obtain ⟨rfl, rfl⟩ := Prod.mk.inj (Option.some.inj hrun)
    rcases hjoin with hjoin | ⟨a, rest, hm⟩
    · exact absurd rfl hjoin
    · exact absurd hm (by simp [Proc.start])
  | append_singleton is i ih =>
    obtain ⟨p₀, os₀, o, hrun₀, hs, rfl⟩ := Machine.run_concat_eq_some _ hrun
    have hsteps₀ : ∀ i ∈ is, i.isStep = true := fun j hj => hsteps j (List.mem_append_left _ hj)
    obtain ⟨t, r, rfl⟩ := step_of_isStep (hsteps i (by simp))
    obtain ⟨hsound, hlisted⟩ := listed_run hsteps₀ hrun₀
    rcases hsound.meets_step hlisted.quiet (step_moves hs) hjoin with hmeets | hbefore
    · refine ⟨is, [.step t r], p₀, os₀, [o], rfl, hrun₀, hmeets, ?_⟩
      rw [Machine.run_cons_of_step _ hs]
      rfl
    · obtain ⟨js, ks, p₁, os₁, ws, rfl, hjs, hmeets, hks⟩ := ih hsteps₀ hrun₀ hbefore
      refine ⟨js, ks ++ [.step t r], p₁, os₁, ws ++ [o], by simp, hjs, hmeets, ?_⟩
      rw [Machine.run_concat _ hks, hs]
      rfl

theorem NoneMet.left (h : NoneMet timer (js ++ ks)) : NoneMet timer js :=
  fun js' ks' hpre => h js' ks' (hpre.trans (List.prefix_append js ks))

theorem NoneMet.outside (h : NoneMet timer is) (hsteps : ∀ i ∈ is, i.isStep = true)
    (hrun : (process timer).run .start is = some (p, os)) (hout : p.main.inPass = false) : joined os = [] := by
  by_contra hjoin
  obtain ⟨js, ks, p₁, os₁, ws, rfl, hjs, hmeets, hks⟩ := met_of_joined hsteps hrun (.inl hjoin)
  exact absurd (h js ks List.prefix_rfl p₁ os₁ p ws hjs hmeets hks) (by simp [hout])

/-- While no finished pass has met a complete thread, only the pass under way has joined any. -/
theorem NoneMet.passing (hnone : NoneMet timer is) (hsteps : ∀ i ∈ is, i.isStep = true)
    (hrun : (process timer).run .start is = some (p, os)) : Passing p os := by
  induction is using List.reverseRecOn generalizing p os with
  | nil =>
    obtain ⟨rfl, rfl⟩ := Prod.mk.inj (Option.some.inj hrun)
    exact ⟨fun hin => absurd hin (by simp [Proc.start, MainPc.inPass]), fun _ => rfl, List.nodup_nil⟩
  | append_singleton is i ih =>
    obtain ⟨p₀, os₀, o, hrun₀, hs, rfl⟩ := Machine.run_concat_eq_some _ hrun
    have hsteps₀ : ∀ i ∈ is, i.isStep = true := fun j hj => hsteps j (List.mem_append_left _ hj)
    obtain ⟨t, r, rfl⟩ := step_of_isStep (hsteps i (by simp))
    obtain ⟨hsound, hlisted⟩ := listed_run hsteps₀ hrun₀
    exact (ih hnone.left hsteps₀ hrun₀).step hsound hlisted (step_moves hs) (hnone.outside hsteps hrun)

end Runs

/-- Each thread is joined at most once, and no joined thread stays in the list after a
pass, exactly as long as no finished pass has met a thread that is complete. -/
theorem reaped_iff (timer : Bool) (is : List Input) (hsteps : ∀ i ∈ is, i.isStep = true) :
    Reaped timer is ↔ NoneMet timer is := by
  constructor
  · intro h js ks hpre p os q ws hjs hmeets hks
    by_contra hout
    obtain ⟨later, rfl⟩ := hpre
    obtain ⟨a, rest, hpc, hset⟩ := hmeets
    have hrun : (process timer).run .start (js ++ ks) = some (q, os ++ ws) := by
      rw [Machine.run_append, hjs, Option.bind_some, hks]
      rfl
    obtain ⟨hsound, hlisted⟩ := listed_run (fun i hi => hsteps i (by simp [hi])) hjs
    have hahead : a ∈ p.main.ahead := by simp [hpc, MainPc.ahead]
    obtain ⟨k, s, hs, hsa⟩ := (hlisted.listed a (hlisted.ahead.subset hahead)).resolve_right (by simp [hpc])
    obtain ⟨_, hk⟩ := hlisted.nodes k s hs
    rw [hsa] at hk
    have hlt := (List.getElem?_eq_some_iff.mp hs).1
    obtain ⟨hlisted', hlt', hjoined⟩ := due_run hsound hlisted (fun i hi => hsteps i (by simp [hi])) hks hahead hk
      hset hlt
    have hnil : q.main.ahead = [] := by
      cases hm : q.main with
      | pass | join =>
        rw [hm] at hout
        exact absurd rfl hout
      | _ => rfl
    obtain ⟨u, hu⟩ : ∃ u, q.sessions[k]? = some u := ⟨_, List.getElem?_eq_getElem hlt'⟩
    obtain ⟨hmem, hid⟩ := hlisted'.nodes k u hu
    obtain ⟨_, hclean⟩ := h (js ++ ks) (List.prefix_append _ _) q (os ++ ws) hrun
    exact hclean (by simpa using hout) u.node hmem k hid (hjoined hnil)
  · rintro h js ⟨later, rfl⟩ p os hrun
    have hpassing := h.left.passing (fun i hi => hsteps i (by simp [hi])) hrun
    refine ⟨hpassing.nodup, fun hout a _ k _ => ?_⟩
    rw [hpassing.outside hout]
    simp

private def completeAhead (p : Proc) : Bool :=
  match p.main with
  | .pass (a :: _) => p.image.completeAt a
  | _ => false

private theorem noneMet_of_inits {timer : Bool} {is : List Input} (h : is.inits.all fun js =>
    ((process timer).run .start js).all fun q => !completeAhead q.1) : NoneMet timer is := by
  intro js ks hpre p os q ws hjs hmeets _
  obtain ⟨a, rest, hpc, hset⟩ := hmeets
  have hcheck := List.all_eq_true.mp h js ((List.mem_inits _ _).mpr ((List.prefix_append js ks).trans hpre))
  rw [hjs, Option.all_some, completeAhead, hpc] at hcheck
  exact absurd hset (by simpa using hcheck)

set_option maxRecDepth 100000 in
/-- A session that locks the mutex when the pass has left it behind is not joined. -/
theorem reaped_before_completion :
    Reaped false (startUp false ++ accepting 4 ++ List.replicate 3 (.ok .main 0) ++
      serving 0 5 [97, 10] [97, 10]) :=
  (reaped_iff false _ (by decide)).mpr (noneMet_of_inits (by decide +kernel))

/-- A session that is complete before the second connection comes: the pass joins it and
leaves its node, and the pass after the third connection joins it again. -/
theorem session_joined_twice :
    ¬Reaped false (startUp false ++ accepting 4 ++ List.replicate 4 (.ok .main 0) ++ serving 0 5 [97, 10] [97, 10] ++
      accepting 4 ++ List.replicate 6 (.ok .main 0) ++ accepting 5 ++ List.replicate 6 (.ok .main 0)) := by
  intro h
  have heval : ((process false).run .start (startUp false ++ accepting 4 ++ List.replicate 4 (.ok .main 0) ++
      serving 0 5 [97, 10] [97, 10] ++ accepting 4 ++ List.replicate 6 (.ok .main 0) ++ accepting 5 ++
        List.replicate 6 (.ok .main 0))).map (fun q => joined q.2) = some [0, 0] := by decide +kernel
  obtain ⟨⟨p, os⟩, hrun, hjoined⟩ := Option.map_eq_some_iff.mp heval
  have htwice : joined os = [0, 0] := hjoined
  obtain ⟨hnodup, _⟩ := h _ List.prefix_rfl p os hrun
  rw [htwice] at hnodup
  exact absurd hnodup (by decide)

end Aesd.Server
