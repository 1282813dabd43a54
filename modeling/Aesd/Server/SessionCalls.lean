import Aesd.Server.Moves

/-! The calls of one session thread: what it has received, stored, read back and sent at
each of its statements, and what the globals hold for it while it has the mutex. -/
namespace Aesd.Server
open Aesd.Foundations Aesd.Driver

/-- The loop of read_file places the bytes of each read where the counts so far lead. -/
def assemble (b : Buffer) (status : Int) : List (Int × List Byte) → Except Stop (Buffer × Int)
  | [] => .ok (b, status)
  | x :: reads => do
    let b ← place b status x.2
    assemble b (toInt (status + x.1)) reads

/-- Only recv calls on the session's own connection, which brought these bytes. -/
def Received (k : Nat) (cs : List Call) (packet : List Byte) : Prop :=
  ∃ chunks : List (List Byte), cs = chunks.map (.recv k) ∧ packet = chunks.flatten

/-- The received bytes in a single write to the store, and after it only reads of the store. -/
def Stored (k : Nat) (cs : List Call) (packet : List Byte) (reads : List (Int × List Byte)) : Prop :=
  ∃ before, Received k before packet ∧
    cs = before ++ .write .store packet :: reads.map fun x => .read .store x.1 x.2

/-- And at last one send on the session's own connection, of what its reads brought. -/
def Answered (k : Nat) (cs : List Call) (packet : List Byte) : Prop :=
  ∃ before reads response b status, Stored k before packet reads ∧
    assemble (List.replicate response.length none) 0 reads = .ok (b, status) ∧
      firstBytes b response.length = .ok response ∧ cs = before ++ [.send k response]

/-- What a session's calls look like at any point of its life. -/
def InOrder (k : Nat) (cs : List Call) : Prop :=
  ∃ packet, Received k cs packet ∨ (∃ reads, Stored k cs packet reads) ∨ Answered k cs packet

def packetOf (cs : List Call) : List Byte :=
  cs.flatMap fun
    | .write _ data => data
    | _ => []

section Calls
variable {k : Nat} {cs : List Call} {packet data : List Byte} {reads : List (Int × List Byte)}

theorem assemble_concat {b b₁ b₂ : Buffer} {status status₁ n : Int}
    (h : assemble b status reads = .ok (b₁, status₁)) (hplace : place b₁ status₁ data = .ok b₂) :
    assemble b status (reads ++ [(n, data)]) = .ok (b₂, toInt (status₁ + n)) := by
  induction reads generalizing b status with
  | nil =>
    obtain ⟨rfl, rfl⟩ := Prod.mk.inj (Except.ok.inj h)
    rw [List.nil_append, assemble, hplace]
    rfl
  | cons x reads ih =>
    obtain ⟨b', hb', h⟩ := bind_eq_ok.mp h
    rw [List.cons_append, assemble, hb', ok_bind]
    exact ih h

theorem received_nil (k : Nat) : Received k [] [] := ⟨[], rfl, rfl⟩

theorem Received.concat (h : Received k cs packet) (data : List Byte) :
    Received k (cs ++ [.recv k data]) (packet ++ data) := by
  obtain ⟨chunks, rfl, rfl⟩ := h
  exact ⟨chunks ++ [data], by simp, by simp⟩

theorem Received.stored (h : Received k cs packet) : Stored k (cs ++ [.write .store packet]) packet [] :=
  ⟨cs, h, rfl⟩

theorem Stored.concat (h : Stored k cs packet reads) (n : Int) (data : List Byte) :
    Stored k (cs ++ [.read .store n data]) packet (reads ++ [(n, data)]) := by
  obtain ⟨before, hreceived, rfl⟩ := h
  exact ⟨before, hreceived, by simp⟩

theorem Stored.packetOf_eq (h : Stored k cs packet reads) : packetOf cs = packet := by
  obtain ⟨before, ⟨chunks, rfl, rfl⟩, rfl⟩ := h
  have hrecv : packetOf (chunks.map (.recv k)) = [] := by simp [packetOf, List.flatMap_map]
  have hreads : packetOf (reads.map fun x => Call.read .store x.1 x.2) = [] := by
    simp [packetOf, List.flatMap_map]
  rw [packetOf, List.flatMap_append, List.flatMap_cons]
  change packetOf _ ++ (chunks.flatten ++ packetOf _) = _
  rw [hrecv, hreads, List.nil_append, List.append_nil]

theorem Answered.packetOf_eq (h : Answered k cs packet) : packetOf cs = packet := by
  obtain ⟨before, reads, response, b, status, hstored, _, _, rfl⟩ := h
  rw [packetOf, List.flatMap_append, List.flatMap_singleton]
  change packetOf before ++ [] = packet
  rw [List.append_nil, hstored.packetOf_eq]

end Calls

def Points (g : Image) (p : Option Nat) (data : List Byte) : Prop :=
  ∃ i b, p = some i ∧ g.memory i = some (.buffer b) ∧ StartsWith b data

/-- Between the recv loop and the write, total counts what is in recv_data. -/
def Filling (k : Nat) (base : Int) (g : Image) (cs : List Call) (total : Int) : Prop :=
  ∃ packet, Received k cs packet ∧ total = packet.length ∧ Points g g.recvData packet ∧
    g.readBuffer = none ∧ g.readDataLen = base

/-- The packet is stored, but not yet counted in read_data_len. -/
def Uncounted (k : Nat) (base : Int) (g : Image) (cs : List Call) (total : Int) : Prop :=
  ∃ packet, Stored k cs packet [] ∧ total = packet.length ∧ g.readBuffer = none ∧ g.readDataLen = base

/-- In read_file: read_data_len has the packet's length added to it. -/
def Counted (k : Nat) (base : Int) (g : Image) (cs : List Call) : Prop :=
  ∃ packet, Stored k cs packet [] ∧ g.recvData = none ∧ g.readBuffer = none ∧
    g.readDataLen = base + packet.length

/-- read_buffer holds what the reads so far have brought. -/
def Reading (k : Nat) (base : Int) (g : Image) (cs : List Call) (status : Int) : Prop :=
  ∃ packet reads i b, Stored k cs packet reads ∧ g.recvData = none ∧ g.readBuffer = some i ∧
    g.memory i = some (.buffer b) ∧ g.readDataLen = base + packet.length ∧ 0 ≤ g.readDataLen ∧
      assemble (List.replicate g.readDataLen.toNat none) 0 reads = .ok (b, status)

def Sent (k : Nat) (base : Int) (g : Image) (cs : List Call) : Prop :=
  ∃ packet, Answered k cs packet ∧ g.recvData = none ∧ g.readDataLen = base + packet.length

/-- What the calls so far and the globals are at each statement of a session that took the
mutex with read_data_len at base. -/
def Holding (k : Nat) (base : Int) (g : Image) (cs : List Call) : SessionPc → Prop
  | .lock => cs = []
  | .malloc => cs = [] ∧ g.recvData = none ∧ g.readBuffer = none ∧ g.readDataLen = base
  | .memset =>
    cs = [] ∧ (g.recvData = none ∨ Points g g.recvData []) ∧ g.readBuffer = none ∧ g.readDataLen = base
  | .recv total | .realloc total _ | .openAppend total => Filling k base g cs total
  | .scan total n => Filling k base g cs (total + n)
  | .openFailed _ => ∃ packet, Received k cs packet
  | .write total => Filling k base g cs total ∧ g.fds g.fptr = some .store
  | .freeRecv total => Uncounted k base g cs total ∧ g.fds g.fptr = some .store ∧ Points g g.recvData []
  | .nullRecv total => Uncounted k base g cs total ∧ g.fds g.fptr = some .store
  | .closeStore total => Uncounted k base g cs total ∧ g.fds g.fptr = some .store ∧ g.recvData = none
  | .nullRead total | .addLen total => Uncounted k base g cs total ∧ g.recvData = none
  | .openRead => Counted k base g cs
  | .mallocRead fd => Counted k base g cs ∧ g.fds fd = some .store
  | .read fd length status =>
    Reading k base g cs status ∧ g.fds fd = some .store ∧ length = g.readDataLen
  | .closeRead fd => (∃ status, Reading k base g cs status) ∧ g.fds fd = some .store
  | .send => ∃ status, Reading k base g cs status
  | .freeRead => Sent k base g cs ∧ Points g g.readBuffer []
  | .nullReadAgain => Sent k base g cs
  | .unlock => Sent k base g cs ∧ g.readBuffer = none
  | .complete | .closeSocket | .done => ∃ packet, Answered k cs packet

def Act.calls : Option Act → List Call
  | some (.call c) => [c]
  | some (.close _) | some (.free _) | some (.join _) | none => []

/-- Between sessions: both buffers are gone and read_data_len is the base of the next one. -/
def Resting (base : Int) (g : Image) : Prop := g.recvData = none ∧ g.readBuffer = none ∧ g.readDataLen = base

section Holding
variable {k node : Nat} {me : Tid} {base : Int} {g g' : Image} {cs : List Call} {pc pc' : SessionPc}
  {act : Option Act}

/-- Each statement of the session leads from what holds before it to what holds after it. -/
theorem Holding.step (h : Holding k base g cs pc) (hmove : SessionMove me node g pc pc' g' act)
    (hown : ∀ q c, g.memory node = some (.node q) → g.fds q.acceptedSockfd = some (.connection c) → c = k)
    (hrest : g.mutexLock = none → Resting base g) :
    Holding k base g' (cs ++ Act.calls act) pc' := by
  cases hmove with
  | lock hfree =>
    obtain rfl : cs = [] := h
    exact ⟨rfl, hrest hfree⟩
  | malloc =>
    obtain ⟨rfl, _, hread, hlen⟩ := h
    exact ⟨rfl, .inr ⟨_, _, rfl, Function.update_self .., startsWith_nil _⟩, hread, hlen⟩
  | mallocFailed =>
    obtain ⟨rfl, _, hread, hlen⟩ := h
    exact ⟨rfl, .inl rfl, hread, hlen⟩
  | memset hp hm =>
    obtain ⟨rfl, _, hread, hlen⟩ := h
    exact ⟨[], received_nil k, rfl, ⟨_, _, hp, Function.update_self .., startsWith_nil _⟩, hread, hlen⟩
  | recv hq hc hp hm hplace =>
    obtain ⟨packet, hreceived, rfl, ⟨i, b, hp', hm', hstarts⟩, hread, hlen⟩ := h
    obtain rfl := hown _ _ hq hc
    obtain rfl := Option.some.inj (hp'.symm.trans hp)
    obtain rfl := Block.buffer.inj (Option.some.inj (hm'.symm.trans hm))
    refine ⟨packet ++ _, hreceived.concat _, by simp, ⟨_, _, hp, Function.update_self .., ?_⟩, hread, hlen⟩
    exact hstarts.of_place hplace
  | scan =>
    rw [Act.calls, List.append_nil]
    exact h
  | realloc hp hm =>
    rw [Act.calls, List.append_nil]
    obtain ⟨packet, hreceived, rfl, ⟨i, b, hp', hm', hstarts⟩, hread, hlen⟩ := h
    obtain rfl := Option.some.inj (hp'.symm.trans hp)
    obtain rfl := Block.buffer.inj (Option.some.inj (hm'.symm.trans hm))
    have hfilling : Filling k base
        { g with
          memory := Function.update (Function.update g.memory i none) g.next
            (some (.buffer (resize b (packet.length + recvLen))))
          next := g.next + 1
          recvData := some g.next } cs packet.length :=
      ⟨packet, hreceived, rfl, ⟨_, _, rfl, Function.update_self .., hstarts.resize (by simp)⟩, hread, hlen⟩
    split
    · exact hfilling
    · exact hfilling
  | openAppend hfd hfree =>
    rw [Act.calls, List.append_nil]
    exact ⟨h, Function.update_self ..⟩
  | openFailed =>
    rw [Act.calls, List.append_nil]
    obtain ⟨packet, hreceived, _⟩ := h
    exact ⟨packet, hreceived⟩
  | write hp hm hdata =>
    obtain ⟨⟨packet, hreceived, rfl, hpoints, hread, hlen⟩, hstore⟩ := h
    obtain ⟨i, b, hp', hm', hstarts⟩ := hpoints
    obtain rfl := Option.some.inj (hp'.symm.trans hp)
    obtain rfl := Block.buffer.inj (Option.some.inj (hm'.symm.trans hm))
    obtain rfl := Except.ok.inj (hstarts.firstBytes.symm.trans hdata)
    rw [hstore]
    exact ⟨⟨_, hreceived.stored, rfl, hread, hlen⟩, hstore, i, b, hp, hm, startsWith_nil b⟩
  | freeRecv hfree =>
    obtain ⟨⟨packet, hstored, htotal, hread, hlen⟩, hstore, hpoints⟩ := h
    have hcalls : Act.calls (g.recvData.map .free) = [] := by cases g.recvData <;> rfl
    rw [hcalls, List.append_nil]
    rw [Image.free_frame hfree]
    exact ⟨⟨packet, hstored, htotal, hread, hlen⟩, hstore⟩
  | nullRecv =>
    rw [Act.calls, List.append_nil]
    exact ⟨h.1, h.2, rfl⟩
  | closeStore =>
    rw [Act.calls, List.append_nil]
    exact ⟨h.1, h.2.2⟩
  | nullRead =>
    rw [Act.calls, List.append_nil]
    obtain ⟨⟨packet, hstored, htotal, _, hlen⟩, hrecv⟩ := h
    exact ⟨⟨packet, hstored, htotal, rfl, hlen⟩, hrecv⟩
  | addLen =>
    rw [Act.calls, List.append_nil]
    obtain ⟨⟨packet, hstored, rfl, hread, hlen⟩, hrecv⟩ := h
    exact ⟨packet, hstored, hrecv, hread, by rw [← hlen]⟩
  | openRead hfd hfree =>
    rw [Act.calls, List.append_nil]
    exact ⟨h, Function.update_self ..⟩
  | mallocRead hpos =>
    rw [Act.calls, List.append_nil]
    obtain ⟨⟨packet, hstored, hrecv, _, hlen⟩, hstore⟩ := h
    exact ⟨⟨packet, [], _, _, hstored, hrecv, rfl, Function.update_self .., hlen, hpos, rfl⟩, hstore, rfl⟩
  | @read fd length status n _ _ b' _ data hp hm hd hplace =>
    obtain ⟨⟨packet, reads, i, b, hstored, hrecv, hp', hm', hlen, hpos, hreads⟩, hstore, hlength⟩ := h
    obtain rfl := Option.some.inj (hp'.symm.trans hp)
    obtain rfl := Block.buffer.inj (Option.some.inj (hm'.symm.trans hm))
    obtain rfl := Option.some.inj (hstore.symm.trans hd)
    have hreading : Reading k base (g.set i (.buffer b')) (cs ++ [.read .store n data]) (toInt (status + n)) :=
      ⟨packet, _, i, _, hstored.concat _ _, hrecv, hp, Function.update_self .., hlen, hpos,
        assemble_concat hreads hplace⟩
    split
    · exact ⟨hreading, hstore, hlength⟩
    · exact ⟨⟨_, hreading⟩, hstore⟩
  | readClosed hd =>
    obtain ⟨_, hstore, _⟩ := h
    rw [hd] at hstore
    exact absurd hstore (by simp)
  | closeRead =>
    rw [Act.calls, List.append_nil]
    exact h.1
  | send hq hp hm hc hdata =>
    obtain ⟨status, packet, reads, i, b, hstored, hrecv, hp', hm', hlen, hpos, hreads⟩ := h
    obtain rfl := hown _ _ hq hc
    obtain rfl := Option.some.inj (hp'.symm.trans hp)
    obtain rfl := Block.buffer.inj (Option.some.inj (hm'.symm.trans hm))
    have hresponse := length_of_firstBytes hdata
    rw [← hresponse] at hdata hreads
    rw [Int.toNat_natCast] at hreads
    refine ⟨⟨packet, ⟨cs, reads, _, b, status, hstored, hreads, hdata, rfl⟩, hrecv, hlen⟩, ?_⟩
    exact ⟨i, b, hp, hm, startsWith_nil b⟩
  | freeRead hfree =>
    obtain ⟨⟨packet, hanswered, hrecv, hlen⟩, hpoints⟩ := h
    have hcalls : Act.calls (g.readBuffer.map .free) = [] := by cases g.readBuffer <;> rfl
    rw [hcalls, List.append_nil]
    rw [Image.free_frame hfree]
    exact ⟨packet, hanswered, hrecv, hlen⟩
  | nullReadAgain =>
    rw [Act.calls, List.append_nil]
    exact ⟨h, rfl⟩
  | unlock =>
    rw [Act.calls, List.append_nil]
    obtain ⟨⟨packet, hanswered, _⟩, _⟩ := h
    exact ⟨packet, hanswered⟩
  | complete =>
    rw [Act.calls, List.append_nil]
    exact h
  | closeSocket =>
    rw [Act.calls, List.append_nil]
    exact h

end Holding
end Aesd.Server
