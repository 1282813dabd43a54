import Aesd.Server.SessionCalls
import Aesd.Server.TimerDeadlock

/-! What a statement of one thread leaves as it is for the others: a session's for main and
the other sessions, and main's for the sessions it has created. -/
namespace Aesd.Server
open Aesd.Foundations Aesd.Driver

section Update
variable {α β : Type} [DecidableEq α] {f : α → Option β} {i : α} {v : Option β} {x : β}

/-- An update between values other than x is not seen by who looks for x. -/
theorem update_eq_some_iff (hold : f i ≠ some x) (hnew : v ≠ some x) (a : α) :
    Function.update f i v a = some x ↔ f a = some x := by
  by_cases ha : a = i
  · subst ha
    rw [Function.update_self]
    exact iff_of_false hnew hold
  · rw [Function.update_of_ne ha]

/-- What is gone stays so unless something is put in its place. -/
theorem update_gone {a : α} (ha : f a = none) (hi : f i ≠ none ∨ v = none) : Function.update f i v a = none := by
  by_cases hai : a = i
  · subst hai
    rw [Function.update_self]
    exact hi.resolve_left (by simp [ha])
  · rw [Function.update_of_ne hai, ha]

theorem fresh_update {f : Nat → Option β} {i n : Nat} (hfresh : ∀ b, n ≤ b → f b = none) (hi : f i ≠ none) :
    ∀ b, n ≤ b → Function.update f i v b = none :=
  fun b hb => update_gone (hfresh b hb) (.inl hi)

theorem fresh_alloc {f : Nat → Option β} {n : Nat} (hfresh : ∀ b, n ≤ b → f b = none) :
    ∀ b, n + 1 ≤ b → Function.update f n v b = none := by
  intro b hb
  rw [Function.update_of_ne (by omega), hfresh b (by omega)]

end Update

/-- What a statement of session k, whose thread_params lie in node, leaves as it is: every
node, but for the statement that sets is_thread_complete in its own, and every descriptor
but those of the store, and its own where it closes that. -/
structure Spares (k node : Nat) (pc pc' : SessionPc) (g g' : Image) : Prop where
  sockfd : g'.sockfd = g.sockfd
  acceptedSockfd : g'.acceptedSockfd = g.acceptedSockfd
  head : g'.head = g.head
  removed : g'.removed = g.removed
  fresh : ∀ b, g'.next ≤ b → g'.memory b = none
  nodes : ∀ a q, a ≠ node ∨ pc ≠ .complete → (g'.memory a = some (.node q) ↔ g.memory a = some (.node q))
  fds : ∀ f d, d ≠ .store → d ≠ .connection k ∨ pc' ≠ .done → (g'.fds f = some d ↔ g.fds f = some d)

def SessionPc.buffering : SessionPc → Bool
  | .malloc | .memset | .recv _ | .scan _ _ | .realloc _ _ => true
  | _ => false

/-- What a session that holds the mutex needs of the statements of the others. -/
structure Undisturbed (g g' : Image) : Prop where
  readBuffer : g'.readBuffer = g.readBuffer
  recvData : g'.recvData = g.recvData
  fptr : g'.fptr = g.fptr
  readDataLen : g'.readDataLen = g.readDataLen
  buffers : ∀ i b, g.memory i = some (.buffer b) → g'.memory i = some (.buffer b)
  store : ∀ f, g.fds f = some .store → g'.fds f = some .store

/-- The node of session k is there, and the descriptor in it is the session's connection. -/
def Wired (g : Image) (k node : Nat) : Prop :=
  ∃ q, g.memory node = some (.node q) ∧ q.threadId = some k ∧ g.fds q.acceptedSockfd = some (.connection k)

section Session
variable {k node : Nat} {me : Tid} {base : Int} {g g' : Image} {cs : List Call} {pc pc' : SessionPc}
  {act : Option Act}

theorem Wired.own (h : Wired g k node) {q : Params} {c : Nat} (hq : g.memory node = some (.node q))
    (hc : g.fds q.acceptedSockfd = some (.connection c)) : c = k := by
  obtain ⟨q', hq', _, hk⟩ := h
  obtain rfl := Block.node.inj (Option.some.inj (hq'.symm.trans hq))
  exact Desc.connection.inj (Option.some.inj (hc.symm.trans hk))

private theorem nodes_update {i : Nat} {b : Buffer} {v : Option Block} (hi : g.memory i = some (.buffer b))
    (hnew : ∀ q, v ≠ some (.node q)) (a : Nat) (q : Params) :
    Function.update g.memory i v a = some (.node q) ↔ g.memory a = some (.node q) :=
  update_eq_some_iff (by simp [hi]) (hnew q) a

private theorem nodes_alloc {b : Buffer} (hfresh : ∀ b, g.next ≤ b → g.memory b = none) (a : Nat) (q : Params) :
    Function.update g.memory g.next (some (.buffer b)) a = some (.node q) ↔ g.memory a = some (.node q) :=
  update_eq_some_iff (by simp [hfresh g.next le_rfl]) (by simp) a

private theorem fds_open {fd f : Int} {d : Desc} (hfree : g.fds fd = none) (hd : d ≠ .store) :
    Function.update g.fds fd (some .store) f = some d ↔ g.fds f = some d :=
  update_eq_some_iff (by simp [hfree]) (fun he => hd (Option.some.inj he).symm) f

private theorem fds_close {fd f : Int} {d e : Desc} (he : g.fds fd = some e) (hd : d ≠ e) :
    Function.update g.fds fd none f = some d ↔ g.fds f = some d :=
  update_eq_some_iff (fun hsame => hd (Option.some.inj (hsame.symm.trans he))) (by simp) f

private theorem spares_free {p : Option Nat} {i : Nat} {b : Buffer} (hp : p = some i)
    (hm : g.memory i = some (.buffer b)) (hfree : g.free p = .ok g')
    (hfresh : ∀ b, g.next ≤ b → g.memory b = none) : Spares k node pc pc' g g' := by
  subst hp
  obtain ⟨hi, rfl⟩ := Image.free_some hfree
  exact ⟨rfl, rfl, rfl, rfl, fresh_update hfresh hi, fun a q _ => nodes_update hm (by simp) a q,
    fun _ _ _ _ => Iff.rfl⟩

/-- The receive loop writes to nothing but recv_data and its block. -/
theorem SessionMove.spares (hmove : SessionMove me node g pc pc' g' act) (hpc : pc.buffering = true)
    (hfresh : ∀ b, g.next ≤ b → g.memory b = none) : Spares k node pc pc' g g' := by
  cases hmove with
  | malloc =>
    exact ⟨rfl, rfl, rfl, rfl, fresh_alloc hfresh, fun a q _ => nodes_alloc hfresh a q, fun _ _ _ _ => Iff.rfl⟩
  | memset _ hm | recv _ _ _ hm =>
    exact ⟨rfl, rfl, rfl, rfl, fresh_update hfresh (by simp [hm]), fun a q _ => nodes_update hm (by simp) a q,
      fun _ _ _ _ => Iff.rfl⟩
  | @realloc _ _ i _ _ hm =>
    have hfreed := fresh_update (i := i) (v := none) hfresh (by simp [hm])
    refine ⟨rfl, rfl, rfl, rfl, fresh_alloc hfreed, fun a q _ => ?_, fun _ _ _ _ => Iff.rfl⟩
    rw [← nodes_update hm (v := none) (by simp) a q]
    exact update_eq_some_iff (by simp [hfreed g.next le_rfl]) (by simp) a
  | mallocFailed | scan => exact ⟨rfl, rfl, rfl, rfl, hfresh, fun _ _ _ => Iff.rfl, fun _ _ _ _ => Iff.rfl⟩
  | _ => exact absurd hpc (by simp [SessionPc.buffering])

theorem Holding.spares (h : Holding k base g cs pc) (hmove : SessionMove me node g pc pc' g' act)
    (hwired : Wired g k node) (hfresh : ∀ b, g.next ≤ b → g.memory b = none) :
    Spares k node pc pc' g g' := by
  by_cases hpc : pc.buffering = true
  · exact hmove.spares hpc hfresh
  cases hmove with
  | malloc | mallocFailed | memset | recv | scan | realloc => exact absurd rfl hpc
  | mallocRead =>
    exact ⟨rfl, rfl, rfl, rfl, fresh_alloc hfresh, fun a q _ => nodes_alloc hfresh a q, fun _ _ _ _ => Iff.rfl⟩
  | read _ hm =>
    exact ⟨rfl, rfl, rfl, rfl, fresh_update hfresh (by simp [hm]), fun a q _ => nodes_update hm (by simp) a q,
      fun _ _ _ _ => Iff.rfl⟩
  | openAppend _ hfree | openRead _ hfree =>
    exact ⟨rfl, rfl, rfl, rfl, hfresh, fun _ _ _ => Iff.rfl, fun f d hd _ => fds_open hfree hd⟩
  | closeStore =>
    obtain ⟨_, hstore, _⟩ := h
    exact ⟨rfl, rfl, rfl, rfl, hfresh, fun _ _ _ => Iff.rfl, fun f d hd _ => fds_close hstore hd⟩
  | closeRead =>
    obtain ⟨_, hstore⟩ := h
    exact ⟨rfl, rfl, rfl, rfl, hfresh, fun _ _ _ => Iff.rfl, fun f d hd _ => fds_close hstore hd⟩
  | freeRecv hfree =>
    obtain ⟨_, _, i, b, hp, hm, _⟩ := h
    exact spares_free hp hm hfree hfresh
  | freeRead hfree =>
    obtain ⟨_, i, b, hp, hm, _⟩ := h
    exact spares_free hp hm hfree hfresh
  | complete hq =>
    refine ⟨rfl, rfl, rfl, rfl, fresh_update hfresh (by simp [hq]), fun a q ha => ?_, fun _ _ _ _ => Iff.rfl⟩
    simp only [Image.set, Function.update_of_ne (ha.resolve_right (by simp))]
  | closeSocket hq =>
    obtain ⟨q', hq', _, hk⟩ := hwired
    obtain rfl := Block.node.inj (Option.some.inj (hq'.symm.trans hq))
    exact ⟨rfl, rfl, rfl, rfl, hfresh, fun _ _ _ => Iff.rfl,
      fun f d _ hd => fds_close hk (hd.resolve_right (by simp))⟩
  | _ => exact ⟨rfl, rfl, rfl, rfl, hfresh, fun _ _ _ => Iff.rfl, fun _ _ _ _ => Iff.rfl⟩

/-- Until it closes its socket a session stays wired. -/
theorem Spares.wired (h : Spares k node pc pc' g g') (hmove : SessionMove me node g pc pc' g' act)
    (hwired : Wired g k node) (hdone : pc' ≠ .done) : Wired g' k node := by
  obtain ⟨q, hq, hid, hk⟩ := hwired
  have hk' := (h.fds q.acceptedSockfd (.connection k) (by simp) (.inr hdone)).mpr hk
  by_cases hpc : pc = .complete
  · subst hpc
    cases hmove with
    | complete hq' =>
      obtain rfl := Block.node.inj (Option.some.inj (hq.symm.trans hq'))
      exact ⟨_, Function.update_self .., hid, hk'⟩
  · exact ⟨q, (h.nodes node q (.inr hpc)).mpr hq, hid, hk'⟩

/-- Outside of the mutex a session does not disturb who holds it. -/
theorem SessionMove.undisturbed (hmove : SessionMove me node g pc pc' g' act) (hwired : Wired g k node)
    (hpc : pc.critical = false) (hpc' : pc'.critical = false) : Undisturbed g g' := by
  cases hmove with
  | complete hq =>
    refine ⟨rfl, rfl, rfl, rfl, fun i b hi => ?_, fun _ h => h⟩
    exact (update_eq_some_iff (by simp [hq]) (by simp) i).mpr hi
  | closeSocket hq =>
    obtain ⟨q', hq', _, hk⟩ := hwired
    obtain rfl := Block.node.inj (Option.some.inj (hq'.symm.trans hq))
    exact ⟨rfl, rfl, rfl, rfl, fun _ _ h => h, fun f hf => (fds_close hk (by simp)).mpr hf⟩
  | lock => exact absurd hpc' (by simp [SessionPc.critical])
  | _ => exact absurd hpc (by simp [SessionPc.critical])

theorem Undisturbed.points (h : Undisturbed g g') {p : Option Nat} {data : List Byte} (hp : Points g p data) :
    Points g' p data := by
  obtain ⟨i, b, hi, hm, hstarts⟩ := hp
  exact ⟨i, b, hi, h.buffers i b hm, hstarts⟩

/-- A session finds its own state unchanged by what the others do. -/
theorem Holding.undisturbed (hold : Holding k base g cs pc) (h : Undisturbed g g') : Holding k base g' cs pc := by
  have filling : ∀ {total}, Filling k base g cs total → Filling k base g' cs total := by
    rintro total ⟨packet, hreceived, htotal, hpoints, hread, hlen⟩
    exact ⟨packet, hreceived, htotal, h.recvData ▸ h.points hpoints, h.readBuffer.trans hread,
      h.readDataLen.trans hlen⟩
  have uncounted : ∀ {total}, Uncounted k base g cs total → Uncounted k base g' cs total := by
    rintro total ⟨packet, hstored, htotal, hread, hlen⟩
    exact ⟨packet, hstored, htotal, h.readBuffer.trans hread, h.readDataLen.trans hlen⟩
  have counted : Counted k base g cs → Counted k base g' cs := by
    rintro ⟨packet, hstored, hrecv, hread, hlen⟩
    exact ⟨packet, hstored, h.recvData.trans hrecv, h.readBuffer.trans hread, h.readDataLen.trans hlen⟩
  have reading : ∀ {status}, Reading k base g cs status → Reading k base g' cs status := by
    rintro status ⟨packet, reads, i, b, hstored, hrecv, hp, hm, hlen, hpos, hreads⟩
    refine ⟨packet, reads, i, b, hstored, h.recvData.trans hrecv, h.readBuffer.trans hp, h.buffers i b hm,
      h.readDataLen.trans hlen, ?_, ?_⟩
    · rwa [h.readDataLen]
    · rwa [h.readDataLen]
  have sent : Sent k base g cs → Sent k base g' cs := by
    rintro ⟨packet, hanswered, hrecv, hlen⟩
    exact ⟨packet, hanswered, h.recvData.trans hrecv, h.readDataLen.trans hlen⟩
  have store : g.fds g.fptr = some .store → g'.fds g'.fptr = some .store := by
    intro hstore
    rw [h.fptr]
    exact h.store _ hstore
  cases pc with
  | malloc =>
    obtain ⟨hcs, hrecv, hread, hlen⟩ := hold
    exact ⟨hcs, h.recvData.trans hrecv, h.readBuffer.trans hread, h.readDataLen.trans hlen⟩
  | memset =>
    obtain ⟨hcs, hrecv, hread, hlen⟩ := hold
    refine ⟨hcs, ?_, h.readBuffer.trans hread, h.readDataLen.trans hlen⟩
    rw [h.recvData]
    exact hrecv.imp id h.points
  | recv | realloc | openAppend | scan => exact filling hold
  | write => exact ⟨filling hold.1, store hold.2⟩
  | freeRecv =>
    refine ⟨uncounted hold.1, store hold.2.1, ?_⟩
    rw [h.recvData]
    exact h.points hold.2.2
  | nullRecv => exact ⟨uncounted hold.1, store hold.2⟩
  | closeStore => exact ⟨uncounted hold.1, store hold.2.1, h.recvData.trans hold.2.2⟩
  | nullRead | addLen => exact ⟨uncounted hold.1, h.recvData.trans hold.2⟩
  | openRead => exact counted hold
  | mallocRead => exact ⟨counted hold.1, h.store _ hold.2⟩
  | read =>
    refine ⟨reading hold.1, h.store _ hold.2.1, ?_⟩
    rw [h.readDataLen]
    exact hold.2.2
  | closeRead => exact ⟨hold.1.imp fun _ => reading, h.store _ hold.2⟩
  | send => exact hold.imp fun _ => reading
  | freeRead =>
    refine ⟨sent hold.1, ?_⟩
    rw [h.readBuffer]
    exact h.points hold.2
  | nullReadAgain => exact sent hold
  | unlock => exact ⟨sent hold.1, h.readBuffer.trans hold.2⟩
  | lock | openFailed | complete | closeSocket | done => exact hold

/-- Outside of the mutex nothing depends on the globals. -/
theorem Holding.of_not_critical (hold : Holding k base g cs pc) (hpc : pc.critical = false) (base' : Int)
    (g' : Image) : Holding k base' g' cs pc := by
  cases pc with
  | lock | complete | closeSocket | done => exact hold
  | _ => exact absurd hpc (by simp [SessionPc.critical])

end Session

def MainPc.pending : MainPc → Bool
  | .mallocNode | .setSockfd _ | .setComplete _ | .insert _ | .create _ => true
  | _ => false

/-- The connection with number n on its way from accept to its thread. -/
def Pending (g : Image) (n : Nat) : MainPc → Prop
  | .mallocNode => g.fds g.acceptedSockfd = some (.connection n)
  | .setSockfd a =>
    g.fds g.acceptedSockfd = some (.connection n) ∧ ∃ q, g.memory a = some (.node q) ∧ q.threadId = none
  | .setComplete a | .insert a | .create a =>
    ∃ q, g.memory a = some (.node q) ∧ q.threadId = none ∧ g.fds q.acceptedSockfd = some (.connection n)
  | _ => True

/-- What a statement of main's loop leaves as it is for the threads it has created. -/
structure MainSpares (g g' : Image) : Prop where
  undisturbed : Undisturbed g g'
  nodes : ∀ a q, g.memory a = some (.node q) → q.threadId ≠ none → g'.memory a = some (.node q)
  fds : ∀ f d, g.fds f = some d → g'.fds f = some d

section Main
variable {timer : Bool} {n : Nat} {finished : Nat → Bool} {g g' : Image} {pc pc' : MainPc} {act : Option Act}

private theorem update_of_some {α β : Type} [DecidableEq α] {f : α → Option β} {i a : α} {v : Option β} {x : β}
    (ha : f a = some x) (hi : f i ≠ some x) : Function.update f i v a = some x := by
  rw [Function.update_of_ne, ha]
  rintro rfl
  exact hi ha

private theorem spares_set {a : Nat} {q q' : Params} (ha : g.memory a = some (.node q)) (hq : q.threadId = none) :
    MainSpares g (g.set a (.node q')) := by
  refine ⟨⟨rfl, rfl, rfl, rfl, fun i b hi => ?_, fun _ h => h⟩, fun i q₁ hi hid => ?_, fun _ _ h => h⟩
  · exact update_of_some hi (by simp [ha])
  · refine update_of_some hi (fun he => hid ?_)
    rw [ha] at he
    rw [← Block.node.inj (Option.some.inj he), hq]

theorem MainMove.spares (h : MainMove timer n finished g pc pc' g' act) (hloop : pc.starting = false)
    (hpending : Pending g n pc) (hfresh : ∀ b, g.next ≤ b → g.memory b = none) : MainSpares g g' := by
  cases h with
  | @accept fd _ _ hfree =>
    have hkeep : ∀ f d, g.fds f = some d → Function.update g.fds fd (some (.connection n)) f = some d :=
      fun f d hf => update_of_some hf (by simp [hfree])
    exact ⟨⟨rfl, rfl, rfl, rfl, fun _ _ h => h, fun f hf => hkeep f _ hf⟩, fun _ _ h _ => h, hkeep⟩
  | mallocNode =>
    have hnext := hfresh g.next le_rfl
    exact ⟨⟨rfl, rfl, rfl, rfl, fun i b hi => update_of_some hi (by simp [hnext]), fun _ h => h⟩,
      fun a q ha _ => update_of_some ha (by simp [hnext]), fun _ _ h => h⟩
  | setSockfd hq =>
    obtain ⟨_, q', hq', hid⟩ := hpending
    exact spares_set hq' hid
  | setComplete hq =>
    obtain ⟨q', hq', hid, _⟩ := hpending
    exact spares_set hq' hid
  | create hq =>
    obtain ⟨q', hq', hid, _⟩ := hpending
    exact spares_set hq' hid
  | listen | insert | first | passed | visit | join =>
    exact ⟨⟨rfl, rfl, rfl, rfl, fun _ _ h => h, fun _ h => h⟩, fun _ _ h _ => h, fun _ _ h => h⟩
  | _ => exact absurd hloop (by simp [MainPc.starting])

theorem MainMove.fresh (h : MainMove timer n finished g pc pc' g' act)
    (hfresh : ∀ b, g.next ≤ b → g.memory b = none) : ∀ b, g'.next ≤ b → g'.memory b = none := by
  cases h with
  | mallocNode => exact fresh_alloc hfresh
  | setSockfd hq | setComplete hq | create hq => exact fresh_update hfresh (by simp [hq])
  | _ => exact hfresh

theorem MainMove.resting {base : Int} (h : MainMove timer n finished g pc pc' g' act) (hrest : Resting base g) :
    Resting base g' := by
  cases h <;> exact hrest

/-- The connection is passed on from accept to its thread. -/
theorem MainMove.pending (h : MainMove timer n finished g pc pc' g' act) (hpending : Pending g n pc) :
    Pending g' (n + pc.created.length) pc' := by
  cases h with
  | accept _ _ hfree => exact Function.update_self ..
  | mallocNode => exact ⟨hpending, _, Function.update_self .., rfl⟩
  | setSockfd hq =>
    obtain ⟨hconnection, q', hq', hid⟩ := hpending
    obtain rfl := Block.node.inj (Option.some.inj (hq'.symm.trans hq))
    exact ⟨_, Function.update_self .., hid, hconnection⟩
  | setComplete hq =>
    obtain ⟨q', hq', hid, hconnection⟩ := hpending
    obtain rfl := Block.node.inj (Option.some.inj (hq'.symm.trans hq))
    exact ⟨_, Function.update_self .., hid, hconnection⟩
  | insert => exact hpending
  | initMutex => split <;> trivial
  | visit => split <;> trivial
  | _ => trivial

theorem MainMove.created (h : MainMove timer n finished g pc pc' g' act) (hpending : Pending g n pc)
    {s : SessionThread} (hs : s ∈ pc.created) : s.pc = .lock ∧ Wired g' n s.node := by
  cases h with
  | create hq =>
    obtain ⟨q', hq', hid, hconnection⟩ := hpending
    obtain rfl := Block.node.inj (Option.some.inj (hq'.symm.trans hq))
    rw [List.mem_singleton.mp hs]
    exact ⟨rfl, _, Function.update_self .., rfl, hconnection⟩
  | _ => exact absurd hs (by simp [MainPc.created])

end Main

end Aesd.Server
