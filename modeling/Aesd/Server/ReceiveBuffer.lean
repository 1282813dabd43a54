import Aesd.Server.Interference

/-! The buffer of the receive loop, statement by statement, in a thread that has the globals to
itself: recv puts its bytes behind those before it, total counts them at the next statement,
and realloc then moves all of them to a block that has room for another recv. -/
namespace Aesd.Server
open Aesd.Foundations Aesd.Driver

def chunksOf (cs : List Call) : List (List Byte) :=
  cs.flatMap fun
    | .recv _ data => [data]
    | _ => []

/-- recv results of 1 to 100 bytes each, of total length below INT_MAX - 100. -/
def Receivable (chunks : List (List Byte)) : Prop :=
  (∀ c ∈ chunks, c ≠ [] ∧ c.length ≤ recvLen) ∧ chunks.flatten.length < intMax - recvLen

/-- recv_data leads to a block of at least this size, which starts with the chunks in order. -/
def Gathered (g : Image) (size : Nat) (chunks : List (List Byte)) : Prop :=
  ∃ i b, g.recvData = some i ∧ g.memory i = some (.buffer b) ∧ size ≤ b.length ∧ StartsWith b chunks.flatten

/-- What holds at each statement of the loop when recv has brought these chunks. -/
def Receives (g : Image) (chunks : List (List Byte)) : SessionPc → Prop
  | .malloc => chunks = []
  | .memset => chunks = [] ∧ ∀ i, g.recvData = some i → Gathered g recvLen []
  | .recv total =>
    total = chunks.flatten.length ∧ Gathered g (chunks.flatten.length + recvLen) chunks ∧ Unended chunks
  | .scan total n => ∃ before c, chunks = before ++ [c] ∧ Unended before ∧ total = before.flatten.length ∧
    n = c.length ∧ Gathered g (before.flatten.length + recvLen) chunks
  | .realloc total found => ∃ before c, chunks = before ++ [c] ∧ Unended before ∧
    total = chunks.flatten.length ∧ (found = true ↔ c.getLast? = some newline) ∧
      Gathered g chunks.flatten.length chunks
  | .openAppend total => ∃ before c, chunks = before ++ [c] ∧ Unended before ∧ c.getLast? = some newline ∧
    total = chunks.flatten.length ∧ Gathered g (chunks.flatten.length + recvLen) chunks
  | _ => True

structure Receiver where
  k : Nat
  node : Nat
  image : Image
  wired : Wired image k node
  fresh : ∀ b, image.next ≤ b → image.memory b = none

/-- Its statements from there to the end of the loop, whatever the calls in them answer. -/
def Receiver.loop (x : Receiver) : Machine (SessionPc × Image) Reply (Option Act) where
  step s r :=
    if s.1.buffering then
      match sessionStep (.session x.k) x.node r s.2 s.1 with
      | .ok (.next pc g act) => some ((pc, g), act)
      | _ => none
    else none

def Reply.success (data : List Byte) : Reply := ⟨true, 0, data.length, data⟩

def iteration (c : List Byte) : List Reply := [.success c, .success [], .success []]

/-- When the allocations succeed and recv brings these chunks, the thread comes to this
statement and has received them all. -/
def Receiver.Reaches (x : Receiver) (chunks : List (List Byte)) (pc : SessionPc) : Prop :=
  ∃ g os, x.loop.run (.malloc, x.image) (.success [] :: .success [] :: chunks.flatMap iteration) =
      some ((pc, g), os) ∧ chunksOf (os.flatMap Act.calls) = chunks

section Chunks
variable {chunks : List (List Byte)} {c : List Byte}

theorem chunksOf_append (cs cs' : List Call) : chunksOf (cs ++ cs') = chunksOf cs ++ chunksOf cs' :=
  List.flatMap_append

theorem Receivable.left {chunks' : List (List Byte)} (h : Receivable (chunks ++ chunks')) : Receivable chunks := by
  refine ⟨fun c hc => h.1 c (List.mem_append_left _ hc), ?_⟩
  have hmax := h.2
  rw [List.flatten_append, List.length_append] at hmax
  omega

theorem Unended.concat (h : Unended chunks) (hc : c.getLast? ≠ some newline) : Unended (chunks ++ [c]) := by
  intro d hd
  rcases List.mem_append.mp hd with hd | hd
  · exact h d hd
  · rwa [List.mem_singleton.mp hd]

end Chunks

section Statements
variable {k node : Nat} {me : Tid} {r : Reply} {g g' : Image} {chunks : List (List Byte)} {pc pc' : SessionPc}
  {act : Option Act}

/-- memset fills the 100 bytes of a block that malloc has given. -/
theorem Receives.memset (h : Receives g chunks .memset) {i : Nat} (hp : g.recvData = some i) (me : Tid)
    (node : Nat) (r : Reply) :
    ∃ g', sessionStep me node r g .memset = .ok (.next (.recv 0) g' none) ∧ Receives g' chunks (.recv 0) := by
  obtain ⟨rfl, hgathered⟩ := h
  obtain ⟨j, b, hj, hm, hsize, hstarts⟩ := hgathered i hp
  obtain ⟨b', hplace, _, hlen⟩ := (startsWith_nil b).place (List.replicate recvLen 0) (by simpa using hsize)
  refine ⟨g.set j (.buffer b'), ?_, rfl, ?_, by simp [Unended]⟩
  · simp only [sessionStep, Image.buffer_eq_ok.mpr ⟨hj, hm⟩, ok_bind]
    rw [show place b 0 _ = _ from hplace]
    rfl
  · exact ⟨j, b', hj, Function.update_self .., by simpa [hlen] using hsize, startsWith_nil b'⟩

/-- A recv finds room for what it brings. -/
theorem Receives.recv {total : Int} (h : Receives g chunks (.recv total)) (hwired : Wired g k node)
    (hr : r.ok = true) (me : Tid) :
    ∃ g', sessionStep me node r g (.recv total) =
        .ok (.next (.scan total (r.data.take recvLen).length) g' (some (.call (.recv k (r.data.take recvLen))))) ∧
      Receives g' (chunks ++ [r.data.take recvLen]) (.scan total (r.data.take recvLen).length) := by
  obtain ⟨rfl, ⟨i, b, hp, hm, hsize, hstarts⟩, hunended⟩ := h
  obtain ⟨q, hq, _, hk⟩ := hwired
  have hroom : chunks.flatten.length + (r.data.take recvLen).length ≤ b.length := by
    rw [List.length_take]
    omega
  obtain ⟨b', hplace, hstarts', hlen⟩ := hstarts.place (r.data.take recvLen) hroom
  refine ⟨g.set i (.buffer b'), ?_, chunks, _, rfl, hunended, rfl, rfl, i, b', hp, Function.update_self .., ?_, ?_⟩
  · simp only [sessionStep, Image.params_eq_ok.mpr hq, ok_bind, hk, hr, if_true,
      Image.buffer_eq_ok.mpr ⟨hp, hm⟩, hplace]
    rfl
  · rwa [hlen]
  · rwa [List.flatten_concat]

/-- The byte that is looked at is the last one received. -/
theorem Receives.scan {total n : Int} (h : Receives g chunks (.scan total n)) (hchunks : Receivable chunks)
    (me : Tid) (node : Nat) (r : Reply) :
    ∃ found, sessionStep me node r g (.scan total n) = .ok (.next (.realloc (total + n) found) g none) ∧
      Receives g chunks (.realloc (total + n) found) := by
  obtain ⟨before, c, rfl, hunended, rfl, rfl, i, b, hp, hm, hsize, hstarts⟩ := h
  have hc := (hchunks.1 c (by simp)).1
  have hmax := hchunks.2
  rw [List.flatten_concat] at hmax hstarts
  rw [List.length_append] at hmax
  have hadd : addInt before.flatten.length c.length = .ok ((before.flatten.length : Int) + c.length) :=
    addInt_natCast (by omega)
  have hbyte := hstarts.byteAt_concat hc
  refine ⟨c.getLast hc == newline, ?_, before, c, rfl, hunended, by simp, ?_, i, b, hp, hm, ?_, ?_⟩
  · simp only [sessionStep, hadd, ok_bind, Image.buffer_eq_ok.mpr ⟨hp, hm⟩, hbyte]
    rfl
  · rw [List.getLast?_eq_some_getLast hc]
    simp
  · rw [List.flatten_concat]
    exact hstarts.length_le
  · rwa [List.flatten_concat]

/-- realloc keeps the bytes, makes room for another recv, and is followed by one unless
the chunk ended with a newline. -/
theorem Receives.realloc {total : Int} {found : Bool} (h : Receives g chunks (.realloc total found))
    (hchunks : Receivable chunks) (hr : r.ok = true) (me : Tid) (node : Nat) :
    ∃ g', sessionStep me node r g (.realloc total found) =
        .ok (.next (if found then .openAppend total else .recv total) g' none) ∧
      Receives g' chunks (if found then .openAppend total else .recv total) := by
  obtain ⟨before, c, rfl, hunended, rfl, hfound, i, b, hp, hm, hsize, hstarts⟩ := h
  have hmax := hchunks.2
  have hadd : addInt (before ++ [c]).flatten.length recvLen =
      .ok (((before ++ [c]).flatten.length : Int) + recvLen) := addInt_natCast (by omega)
  let freed : Image := { g with memory := Function.update g.memory i none }
  have hfree : g.free (some i) = .ok freed := by simp [Image.free, hm, freed]
  let moved : Buffer := resize b ((before ++ [c]).flatten.length + recvLen)
  refine ⟨{ freed.alloc (.buffer moved) with recvData := some freed.next }, ?_, ?_⟩
  · simp only [sessionStep, hadd, ok_bind, Image.buffer_eq_ok.mpr ⟨hp, hm⟩, hr, if_true, hfree]
    rfl
  · have hlen : (moved.length : Int) = _ := length_resize b (by omega)
    have hgathered : Gathered { freed.alloc (.buffer moved) with recvData := some freed.next }
        ((before ++ [c]).flatten.length + recvLen) (before ++ [c]) :=
      ⟨freed.next, moved, rfl, Function.update_self .., by omega, hstarts.resize (by omega)⟩
    cases found with
    | true => exact ⟨before, c, rfl, hunended, hfound.mp rfl, rfl, hgathered⟩
    | false => exact ⟨rfl, hgathered, hunended.concat (mt hfound.mpr (by simp))⟩

/-- Only recv among the statements of the loop brings bytes. -/
theorem SessionMove.quiet (h : SessionMove me node g pc pc' g' act) (hpc : pc.buffering = true)
    (hrecv : ∀ total, pc ≠ .recv total) : act = none := by
  cases h with
  | recv => exact absurd rfl (hrecv _)
  | malloc | mallocFailed | memset | scan | realloc => rfl
  | _ => exact absurd hpc (by simp [SessionPc.buffering])

/-- Each statement of the loop leads from what holds before it to what holds after it. -/
theorem Receives.step (h : Receives g chunks pc) (hpc : pc.buffering = true) (hwired : Wired g k node)
    (hstep : sessionStep me node r g pc = .ok (.next pc' g' act))
    (hchunks : Receivable (chunks ++ chunksOf (Act.calls act))) :
    Receives g' (chunks ++ chunksOf (Act.calls act)) pc' := by
  have hquiet := (sessionStep_moves hstep).quiet hpc
  have hsame : chunks ++ chunksOf (Act.calls none) = chunks := List.append_nil chunks
  cases pc with
  | malloc =>
    obtain rfl : chunks = [] := h
    simp only [sessionStep] at hstep
    split at hstep
    · obtain ⟨rfl, rfl, rfl⟩ := Outcome.next.inj (Except.ok.inj hstep)
      exact ⟨rfl, fun _ _ => ⟨_, _, rfl, Function.update_self .., by simp, startsWith_nil _⟩⟩
    · obtain ⟨rfl, rfl, rfl⟩ := Outcome.next.inj (Except.ok.inj hstep)
      exact ⟨rfl, fun _ hnull => absurd hnull (by simp)⟩
  | memset =>
    cases hp : g.recvData with
    | none => exact absurd hstep (by simp [sessionStep, Image.buffer, hp])
    | some i =>
      obtain ⟨g₁, hnext, hreceives⟩ := h.memset hp me node r
      obtain ⟨rfl, rfl, rfl⟩ := Outcome.next.inj (Except.ok.inj (hnext.symm.trans hstep))
      rwa [hsame]
  | recv total =>
    cases hr : r.ok with
    | false =>
      obtain ⟨q, hq, _, hk⟩ := hwired
      simp only [sessionStep, Image.params_eq_ok.mpr hq, ok_bind, hk, hr] at hstep
      exact absurd (Except.ok.inj hstep) (by simp)
    | true =>
      obtain ⟨g₁, hnext, hreceives⟩ := h.recv hwired hr me
      obtain ⟨rfl, rfl, rfl⟩ := Outcome.next.inj (Except.ok.inj (hnext.symm.trans hstep))
      exact hreceives
  | scan total n =>
    obtain rfl := hquiet (by simp)
    rw [hsame] at hchunks ⊢
    obtain ⟨found, hnext, hreceives⟩ := h.scan hchunks me node r
    obtain ⟨rfl, rfl, _⟩ := Outcome.next.inj (Except.ok.inj (hnext.symm.trans hstep))
    exact hreceives
  | realloc total found =>
    obtain rfl := hquiet (by simp)
    rw [hsame] at hchunks ⊢
    cases hr : r.ok with
    | false =>
      obtain ⟨_, _, hstep⟩ := bind_eq_ok.mp hstep
      obtain ⟨_, _, hstep⟩ := bind_eq_ok.mp hstep
      simp only [hr] at hstep
      exact absurd (Except.ok.inj hstep) (by simp)
    | true =>
      obtain ⟨g₁, hnext, hreceives⟩ := h.realloc hchunks hr me node
      obtain ⟨rfl, rfl, _⟩ := Outcome.next.inj (Except.ok.inj (hnext.symm.trans hstep))
      exact hreceives
  | _ => exact absurd hpc (by simp [SessionPc.buffering])

end Statements

section Receiver
variable {x : Receiver} {r : Reply} {g g' : Image} {chunks : List (List Byte)} {pc pc' : SessionPc}
  {s s' : SessionPc × Image} {act : Option Act} {os : List (Option Act)}

theorem Receiver.step_eq_some : x.loop.step (pc, g) r = some ((pc', g'), act) ↔
    pc.buffering = true ∧ sessionStep (.session x.k) x.node r g pc = .ok (.next pc' g' act) := by
  simp only [Receiver.loop]
  constructor
  · intro h
    split at h
    · rename_i hpc
      split at h
      · rename_i pc₁ g₁ act₁ hstep
        obtain ⟨hs, rfl⟩ := Prod.mk.inj (Option.some.inj h)
        obtain ⟨rfl, rfl⟩ := Prod.mk.inj hs
        exact ⟨hpc, hstep⟩
      · exact absurd h (by simp)
    · exact absurd h (by simp)
  · rintro ⟨hpc, hstep⟩
    rw [if_pos hpc, hstep]

structure Receiver.InLoop (x : Receiver) (s : SessionPc × Image) (chunks : List (List Byte)) : Prop where
  wired : Wired s.2 x.k x.node
  fresh : ∀ b, s.2.next ≤ b → s.2.memory b = none
  receives : Receives s.2 chunks s.1

theorem Receiver.InLoop.step (h : x.InLoop s chunks) (hstep : x.loop.step s r = some (s', act))
    (hchunks : Receivable (chunks ++ chunksOf (Act.calls act))) :
    x.InLoop s' (chunks ++ chunksOf (Act.calls act)) := by
  obtain ⟨pc, g⟩ := s
  obtain ⟨pc', g'⟩ := s'
  obtain ⟨hpc, hnext⟩ := Receiver.step_eq_some.mp hstep
  have hmove := sessionStep_moves hnext
  have hspares := hmove.spares (k := x.k) hpc h.fresh
  have hdone : pc' ≠ .done := by
    intro hdone
    cases hmove with
    | realloc =>
      split at hdone
      · exact absurd hdone (by simp)
      · exact absurd hdone (by simp)
    | malloc | mallocFailed | memset | recv | scan => exact absurd hdone (by simp)
    | _ => exact absurd hpc (by simp [SessionPc.buffering])
  exact ⟨hspares.wired hmove h.wired hdone, hspares.fresh, h.receives.step hpc h.wired hnext hchunks⟩

/-- What holds at each statement of the loop holds after every run of it. -/
theorem Receiver.run_inLoop {rs : List Reply} (hrun : x.loop.run (.malloc, x.image) rs = some (s, os))
    (hchunks : Receivable (chunksOf (os.flatMap Act.calls))) :
    x.InLoop s (chunksOf (os.flatMap Act.calls)) := by
  have hcalls : ∀ (os : List (Option Act)) act, chunksOf ((os ++ [act]).flatMap Act.calls) =
      chunksOf (os.flatMap Act.calls) ++ chunksOf (Act.calls act) := by
    intro os act
    rw [List.flatMap_append, List.flatMap_singleton, chunksOf_append]
  have hstart : Receivable [] → x.InLoop (.malloc, x.image) [] := fun _ => ⟨x.wired, x.fresh, rfl⟩
  refine x.loop.run_invariant
    (I := fun s os => Receivable (chunksOf (os.flatMap Act.calls)) → x.InLoop s (chunksOf (os.flatMap Act.calls)))
    ?_ hstart hrun hchunks
  intro s os r s' act h hstep hchunks
  rw [hcalls] at hchunks ⊢
  exact (h hchunks.left).step hstep hchunks

/-- With recv results of 1 to 100 bytes an iteration leaves the loop exactly if the chunk
ends with a newline. -/
theorem Receiver.InLoop.iterate {total : Int} {c : List Byte} (h : x.InLoop (.recv total, g) chunks)
    (hchunks : Receivable (chunks ++ [c])) :
    ∃ g', x.loop.run (.recv total, g) (iteration c) =
      some ((if c.getLast? = some newline then .openAppend (chunks ++ [c]).flatten.length
        else .recv (chunks ++ [c]).flatten.length, g'), [some (.call (.recv x.k c)), none, none]) := by
  have htake : (Reply.success c).data.take recvLen = c := List.take_of_length_le (hchunks.1 c (by simp)).2
  obtain ⟨g₁, hrecv, h₁⟩ := h.receives.recv (r := .success c) h.wired rfl (.session x.k)
  rw [htake] at hrecv h₁
  obtain ⟨found, hscan, h₂⟩ := h₁.scan hchunks (.session x.k) x.node (.success [])
  obtain ⟨g₂, hrealloc, _⟩ := h₂.realloc (r := .success []) hchunks rfl (.session x.k) x.node
  obtain ⟨before, d, hsplit, _, htotal, hfound, _⟩ := h₂
  obtain ⟨rfl, hd⟩ := List.append_inj' hsplit rfl
  obtain rfl := List.singleton_inj.mp hd
  refine ⟨g₂, ?_⟩
  rw [iteration, x.loop.run_cons_of_step (Receiver.step_eq_some.mpr ⟨rfl, hrecv⟩),
    x.loop.run_cons_of_step (Receiver.step_eq_some.mpr ⟨rfl, hscan⟩),
    x.loop.run_cons_of_step (Receiver.step_eq_some.mpr ⟨rfl, hrealloc⟩), Machine.run_nil, htotal]
  simp only [hfound, Option.map_some]

theorem Receiver.reaches_nil (x : Receiver) : x.Reaches [] (.recv 0) := by
  have hmalloc : x.loop.step (.malloc, x.image) (.success []) = some ((.memset, _), none) :=
    Receiver.step_eq_some.mpr ⟨rfl, rfl⟩
  have h : x.InLoop (.malloc, x.image) [] := ⟨x.wired, x.fresh, rfl⟩
  have hnone : Receivable ([] ++ chunksOf (Act.calls none)) := ⟨by simp [chunksOf, Act.calls], by decide⟩
  have h₁ := h.step hmalloc hnone
  obtain ⟨g₂, hmemset, _⟩ := h₁.receives.memset rfl (.session x.k) x.node (.success [])
  refine ⟨g₂, [none, none], ?_, rfl⟩
  rw [List.flatMap_nil, x.loop.run_cons_of_step hmalloc,
    x.loop.run_cons_of_step (Receiver.step_eq_some.mpr ⟨rfl, hmemset⟩)]
  rfl

theorem Receiver.Reaches.concat {total : Int} {c : List Byte} (h : x.Reaches chunks (.recv total))
    (hchunks : Receivable (chunks ++ [c])) :
    x.Reaches (chunks ++ [c]) (if c.getLast? = some newline then .openAppend (chunks ++ [c]).flatten.length
      else .recv (chunks ++ [c]).flatten.length) := by
  obtain ⟨g, os, hrun, hos⟩ := h
  have hloop := Receiver.run_inLoop hrun (by rw [hos]; exact hchunks.left)
  rw [hos] at hloop
  obtain ⟨g', hiterate⟩ := hloop.iterate hchunks
  refine ⟨g', os ++ [some (.call (.recv x.k c)), none, none], ?_, ?_⟩
  · rw [List.flatMap_append, List.flatMap_singleton, ← List.cons_append, ← List.cons_append, Machine.run_append,
      hrun, Option.bind_some, hiterate]
    rfl
  · rw [List.flatMap_append, chunksOf_append, hos]
    rfl

/-- The loop goes on as long as no chunk ends with a newline. -/
theorem Receiver.reaches_recv (x : Receiver) (hchunks : Receivable chunks) (hunended : Unended chunks) :
    x.Reaches chunks (.recv chunks.flatten.length) := by
  induction chunks using List.reverseRecOn with
  | nil => exact x.reaches_nil
  | append_singleton chunks c ih =>
    have hbefore := ih hchunks.left fun d hd => hunended d (List.mem_append_left _ hd)
    have hafter := hbefore.concat hchunks
    rwa [if_neg (hunended c (by simp))] at hafter

/-- And it ends with the first chunk that does. -/
theorem Receiver.reaches_openAppend (x : Receiver) {c : List Byte} (hchunks : Receivable (chunks ++ [c]))
    (hunended : Unended chunks) (hc : c.getLast? = some newline) :
    x.Reaches (chunks ++ [c]) (.openAppend (chunks ++ [c]).flatten.length) := by
  have hafter := (x.reaches_recv hchunks.left hunended).concat hchunks
  rwa [if_pos hc] at hafter

end Receiver

section Packet
variable {chunks ds : List (List Byte)}

/-- The loop taken as one call and its statements receive the same packets. -/
theorem receivePacket_iff_reaches (x : Receiver) (hchunks : Receivable chunks) (p : List Byte) :
    receivePacket true (chunks.map delivered) = .ok p ↔
      ∃ ds, ds <+: chunks ∧ x.Reaches ds (.openAppend p.length) ∧ ds.flatten = p := by
  rw [receivePacket_eq_iff hchunks.1]
  constructor
  · rintro ⟨ds, hds, rfl, _⟩
    obtain ⟨before, c, after, rfl, rfl, hunended, hc⟩ := untilNewline_eq_some_iff.mp hds
    have hsplit : before ++ c :: after = before ++ [c] ++ after := by simp
    rw [hsplit] at hchunks ⊢
    exact ⟨_, List.prefix_append _ _, x.reaches_openAppend hchunks.left hunended hc, rfl⟩
  · rintro ⟨ds, ⟨rest, rfl⟩, ⟨g, os, hrun, hos⟩, rfl⟩
    have hreceives := (Receiver.run_inLoop hrun (by rw [hos]; exact hchunks.left)).receives
    rw [hos] at hreceives
    obtain ⟨before, c, rfl, hunended, hc, _⟩ := hreceives
    refine ⟨_, untilNewline_eq_some_iff.mpr ⟨before, c, rest, by simp, rfl, hunended, hc⟩, rfl, ?_⟩
    have hmax := hchunks.left.2
    omega

end Packet
end Aesd.Server
