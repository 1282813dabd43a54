import Aesd.Server.Hosting

/-! thread_callback cut at its statements: what a session has still to do at each of them,
written as the rest of the function, and how a statement leads from one rest to the next. -/
namespace Aesd.Server
open Aesd.Foundations Aesd.Driver
variable {σ : Type}

section Rest
variable (calls : StoreCalls σ) (fuel : Nat)

def sendRest (readDataLen : Int) : σ × Option Buffer → Except Stop (ServerState σ × List Byte)
  | (_, none) => .error .exited
  | (store, some readBuffer) => do
    let response ← firstBytes readBuffer readDataLen
    return (⟨store, readDataLen⟩, response)

def loopRest (readDataLen : Int) (i : Nat) (store : σ) (buffer : Buffer) (status : Int) :
    Except Stop (ServerState σ × List Byte) := do
  let (store, buffer, status) ← readLoop calls.read readDataLen fuel i store buffer status
  sendRest readDataLen (store, if status ≠ readDataLen then none else some buffer)

def readRest (store : σ) (readDataLen : Int) : Except Stop (ServerState σ × List Byte) := do
  let file ← readFile calls true fuel store readDataLen
  sendRest readDataLen file

def countRest (store : σ) (readDataLen total : Int) : Except Stop (ServerState σ × List Byte) := do
  let readDataLen ← addInt readDataLen total
  readRest calls fuel store readDataLen

def writeRest (store : σ) (readDataLen : Int) (packet : List Byte) : Except Stop (ServerState σ × List Byte) := do
  let (store, _) ← calls.write store packet
  countRest calls fuel store readDataLen packet.length

def appendRest (server : ServerState σ) (packet : List Byte) : Except Stop (ServerState σ × List Byte) :=
  match calls.openAppend server.store with
  | none => .error .exited
  | some store => writeRest calls fuel store server.readDataLen packet

/-- The whole session, of which recv brings these chunks. -/
def callback (server : ServerState σ) (chunks : List (List Byte)) : Except Stop (ServerState σ × List Byte) :=
  threadCallback (.complete (chunks.map delivered) calls) fuel server

end Rest

def Receiving.cleared : Receiving := ⟨List.replicate recvLen (some 0), 0⟩

def Settled (server : ServerState σ) (g : Image) (x : Shelf σ) : Prop :=
  x.store = server.store ∧ g.readDataLen = server.readDataLen

def Leads (g : Image) (p : Option Nat) (b : Buffer) : Prop := ∃ i, p = some i ∧ g.memory i = some (.buffer b)

/-- What a session that found the server like this has done at each of its statements: the
whole of thread_callback on what it has received is what is left of it there. After the send
nothing is left, and the server is as the session leaves it. -/
def Partway (calls : StoreCalls σ) (server : ServerState σ) (chunks : List (List Byte)) (g : Image) (x : Shelf σ) :
    SessionPc → Prop
  | .malloc => chunks = [] ∧ Settled server g x
  | .memset => chunks = [] ∧ Settled server g x ∧
    ∀ i, g.recvData = some i → g.memory i = some (.buffer (List.replicate recvLen none))
  | .recv total => Settled server g x ∧ ∃ b, Leads g g.recvData b ∧
    ∀ ds, receiveLoop .cleared (chunks.map delivered ++ ds) = receiveLoop ⟨b, total⟩ ds
  | .scan total n => Settled server g x ∧ ∃ before c b b', chunks = before ++ [c] ∧ n = c.length ∧
    Leads g g.recvData b' ∧ place b total c = .ok b' ∧
      ∀ ds, receiveLoop .cleared (before.map delivered ++ ds) = receiveLoop ⟨b, total⟩ ds
  | .realloc total found => Settled server g x ∧ ∃ b, Leads g g.recvData b ∧
    ∀ size ds, addInt total recvLen = .ok size → receiveLoop .cleared (chunks.map delivered ++ ds) =
      if found then .ok ⟨resize b size, total⟩ else receiveLoop ⟨resize b size, total⟩ ds
  | .openAppend total => Settled server g x ∧ ∃ b, Leads g g.recvData b ∧
    receiveLoop .cleared (chunks.map delivered) = .ok ⟨b, total⟩
  | .write total => g.readDataLen = server.readDataLen ∧ calls.openAppend server.store = some x.store ∧
    ∃ b, Leads g g.recvData b ∧ receiveLoop .cleared (chunks.map delivered) = .ok ⟨b, total⟩
  | .freeRecv total | .nullRecv total | .closeStore total | .nullRead total | .addLen total =>
    ∀ fuel, callback calls fuel server chunks = countRest calls fuel x.store g.readDataLen total
  | .openRead => ∀ fuel, callback calls fuel server chunks = readRest calls fuel x.store g.readDataLen
  | .mallocRead _ => x.reads = 0 ∧ ∃ store, calls.openRead store = some x.store ∧
    ∀ fuel, callback calls fuel server chunks = readRest calls fuel store g.readDataLen
  | .read _ length status => length = g.readDataLen ∧ ∃ b, Leads g g.readBuffer b ∧
    ∀ fuel, callback calls (fuel + x.reads) server chunks =
      loopRest calls fuel length x.reads x.store b status
  | .closeRead _ | .send => ∃ b n, Leads g g.readBuffer b ∧
    ∀ fuel, n ≤ fuel → callback calls fuel server chunks = sendRest g.readDataLen (x.store, some b)
  | .freeRead | .nullReadAgain | .unlock => Settled server g x
  | _ => True

section Partway
variable {calls : StoreCalls σ} {server : ServerState σ} {chunks : List (List Byte)} {g g' : Image}
  {x x' : Shelf σ} {pc pc' : SessionPc} {act : Option Act} {me : Tid} {node : Nat} {r : Reply}
  {k : Nat} {base : Int} {cs : List Call}

/-- The whole session is its receive loop and what follows it. -/
theorem callback_eq (fuel : Nat) :
    callback calls fuel server chunks = (do
      let packet ← receivePacket true (chunks.map delivered)
      appendRest calls fuel server packet) := by
  rw [callback, threadCallback, if_neg (by simp [Session.complete])]
  apply congrArg (receivePacket true (chunks.map delivered) >>= ·)
  funext packet
  rw [appendRest]
  simp only [Session.complete]
  cases calls.openAppend server.store with
  | none => rfl
  | some store =>
    apply congrArg (calls.write store packet >>= ·)
    funext q
    apply congrArg (addInt server.readDataLen packet.length >>= ·)
    funext readDataLen
    apply congrArg (readFile calls true fuel q.1 readDataLen >>= ·)
    funext file
    obtain ⟨store, _ | buffer⟩ := file <;> rfl

theorem Leads.buffer {p : Option Nat} {b : Buffer} {q : Nat × Buffer} (h : Leads g p b)
    (hq : g.buffer p = .ok q) : q.2 = b := by
  obtain ⟨i, rfl, hm⟩ := h
  rw [Image.buffer_eq_ok.mpr ⟨rfl, hm⟩] at hq
  rw [← Except.ok.inj hq]

theorem leads_set {p : Option Nat} {q : Nat × Buffer} (hq : g.buffer p = .ok q) (b : Buffer) :
    Leads (g.set q.1 (.buffer b)) p b :=
  ⟨q.1, (Image.buffer_eq_ok.mp hq).1, Function.update_self ..⟩

private theorem place_cleared :
    place (List.replicate recvLen none) 0 (List.replicate recvLen 0) = .ok Receiving.cleared.recvData := by
  rw [place, if_neg (by decide), if_pos (by decide)]
  simp [overwrite, Receiving.cleared]

/-- A recv puts what it brings behind what is there. -/
theorem Partway.recv {total : Int} (h : Partway calls server chunks g x (.recv total))
    (hstep : sessionStep me node r g (.recv total) = .ok (.next pc' g' act))
    (hserve : x.serve calls (.recv total) pc' act = some x') :
    Partway calls server (chunks ++ chunksOf (Act.calls act)) g' x' pc' := by
  obtain ⟨hsettled, b, hleads, hloop⟩ := h
  obtain ⟨q, _, hstep⟩ := bind_eq_ok.mp hstep
  split at hstep
  · split at hstep
    · obtain ⟨at', hat, hstep⟩ := bind_eq_ok.mp hstep
      obtain ⟨b', hplace, hstep⟩ := bind_eq_ok.mp hstep
      obtain ⟨rfl, rfl, rfl⟩ := Outcome.next.inj (Except.ok.inj hstep)
      obtain rfl := Option.some.inj hserve
      rw [hleads.buffer hat] at hplace
      exact ⟨hsettled, chunks, _, b, b', rfl, rfl, leads_set hat b', hplace, hloop⟩
    · exact absurd (Except.ok.inj hstep) (by simp)
  · exact absurd (Except.ok.inj hstep) (by simp)

/-- The look at the last byte settles whether the loop goes on. -/
theorem Partway.scan {total n : Int} (h : Partway calls server chunks g x (.scan total n))
    (hstep : sessionStep me node r g (.scan total n) = .ok (.next pc' g' act)) :
    Partway calls server chunks g' x pc' := by
  obtain ⟨hsettled, before, c, b, b', rfl, rfl, hleads, hplace, hloop⟩ := h
  obtain ⟨sum, hsum, hstep⟩ := bind_eq_ok.mp hstep
  obtain ⟨q, hq, hstep⟩ := bind_eq_ok.mp hstep
  obtain ⟨last, hlast, hstep⟩ := bind_eq_ok.mp hstep
  obtain ⟨rfl, rfl, rfl⟩ := Outcome.next.inj (Except.ok.inj hstep)
  rw [hleads.buffer hq] at hlast
  refine ⟨hsettled, b', hleads, fun size ds hsize => ?_⟩
  rw [List.map_append, List.append_assoc, hloop]
  change receiveLoop ⟨b, total⟩ (delivered c :: ds) = _
  rw [receiveLoop, receiveOnce_delivered hplace]
  simp only [hsum, ok_bind, hlast, hsize]
  rfl

/-- realloc gives the room for the next recv, or for none where the loop has ended. -/
theorem Partway.realloc {total : Int} {found : Bool} (h : Partway calls server chunks g x (.realloc total found))
    (hstep : sessionStep me node r g (.realloc total found) = .ok (.next pc' g' act)) :
    Partway calls server chunks g' x pc' := by
  obtain ⟨hsettled, b, hleads, hloop⟩ := h
  obtain ⟨size, hsize, hstep⟩ := bind_eq_ok.mp hstep
  obtain ⟨q, hq, hstep⟩ := bind_eq_ok.mp hstep
  have hb := hleads.buffer hq
  dsimp only at hstep
  split at hstep
  · obtain ⟨g₁, hfree, hstep⟩ := bind_eq_ok.mp hstep
    obtain ⟨rfl, rfl, rfl⟩ := Outcome.next.inj (Except.ok.inj hstep)
    obtain ⟨_, rfl⟩ := Image.free_some hfree
    rw [hb]
    cases found with
    | true =>
      refine ⟨hsettled, resize b size, ⟨_, rfl, Function.update_self ..⟩, ?_⟩
      rw [← List.append_nil (chunks.map delivered), hloop size [] hsize]
      rfl
    | false => exact ⟨hsettled, resize b size, ⟨_, rfl, Function.update_self ..⟩, fun ds => hloop size ds hsize⟩
  · exact absurd (Except.ok.inj hstep) (by simp)

/-- The write gives the store the packet that the session taken as one call has received. -/
theorem Partway.write {total : Int} (h : Partway calls server chunks g x (.write total))
    (hstore : g.fds g.fptr = some .store)
    (hstep : sessionStep me node r g (.write total) = .ok (.next pc' g' act))
    (hserve : x.serve calls (.write total) pc' act = some x') : Partway calls server chunks g' x' pc' := by
  obtain ⟨hlen, hopen, b, hleads, hloop⟩ := h
  obtain ⟨q, hq, hstep⟩ := bind_eq_ok.mp hstep
  obtain ⟨data, hdata, hstep⟩ := bind_eq_ok.mp hstep
  obtain ⟨rfl, rfl, rfl⟩ := Outcome.next.inj (Except.ok.inj hstep)
  rw [hstore] at hserve
  obtain ⟨⟨store, n⟩, hwrite, rfl⟩ := Option.map_eq_some_iff.mp hserve
  rw [hleads.buffer hq] at hdata
  have hpacket : receivePacket true (chunks.map delivered) = .ok data := by
    change (receiveLoop .cleared (chunks.map delivered) >>= fun r => firstBytes r.recvData r.total) = _
    rw [hloop, ok_bind, hdata]
  intro fuel
  rw [callback_eq, hpacket, ok_bind, appendRest, hopen]
  simp only [writeRest, toOption_eq_some.mp hwrite, ok_bind, length_of_firstBytes hdata, hlen]

theorem loopRest_read {length n : Int} {i : Nat} {store store' : σ} {b b' : Buffer} {status : Int}
    {data : List Byte} (hread : calls.read i store length.toNat = .ok (store', n, data))
    (hplace : place b status data = .ok b') (fuel : Nat) :
    loopRest calls (fuel + 1) length i store b status =
      if toInt (status + n) ≠ length then loopRest calls fuel length (i + 1) store' b' (toInt (status + n))
      else sendRest length (store', some b') := by
  rw [loopRest, readLoop, hread]
  simp only [ok_bind, hplace]
  split
  · rfl
  · rename_i hdone
    simp [not_not.mp hdone]

/-- A read is the next one of the loop, which ends with the one that completes the length. -/
theorem Partway.read {fd length status : Int} (h : Partway calls server chunks g x (.read fd length status))
    (hstore : g.fds fd = some .store)
    (hstep : sessionStep me node r g (.read fd length status) = .ok (.next pc' g' act))
    (hserve : x.serve calls (.read fd length status) pc' act = some x') :
    Partway calls server chunks g' x' pc' := by
  obtain ⟨hlength, b, hleads, hrest⟩ := h
  obtain ⟨q, hq, hstep⟩ := bind_eq_ok.mp hstep
  simp only [hstore] at hstep
  obtain ⟨b', hplace, hstep⟩ := bind_eq_ok.mp hstep
  obtain ⟨rfl, rfl, rfl⟩ := Outcome.next.inj (Except.ok.inj hstep)
  generalize hn : (if r.ok = true then r.count else -1) = n at *
  generalize hdata : (if r.ok = true then r.data.take length.toNat else []) = data at *
  obtain ⟨⟨store, answer⟩, hread, hserve⟩ := Option.bind_eq_some_iff.mp hserve
  split at hserve
  · rename_i hanswer
    obtain rfl : answer = (n, data) := hanswer
    obtain rfl := Option.some.inj hserve
    rw [hleads.buffer hq] at hplace
    have hnext := loopRest_read (toOption_eq_some.mp hread) hplace
    split
    · rename_i hmore
      refine ⟨hlength, b', leads_set hq b', fun fuel => ?_⟩
      rw [show fuel + (x.reads + 1) = fuel + 1 + x.reads by omega, hrest, hnext]
      exact if_pos hmore
    · rename_i hdone
      refine ⟨b', x.reads + 1, leads_set hq b', fun fuel hfuel => ?_⟩
      rw [show fuel = fuel - (x.reads + 1) + 1 + x.reads by omega, hrest, hnext]
      exact (if_neg hdone).trans (congrArg (fun len => sendRest len (store, some b')) hlength)
  · exact absurd hserve (by simp)

/-- The malloc of read_buffer starts the loop of reads. -/
theorem Partway.mallocRead {fd : Int} (h : Partway calls server chunks g x (.mallocRead fd))
    (hstep : sessionStep me node r g (.mallocRead fd) = .ok (.next pc' g' act)) :
    Partway calls server chunks g' x pc' := by
  obtain ⟨hreads, store, hopen, hrest⟩ := h
  simp only [sessionStep] at hstep
  split at hstep
  · rename_i b hb
    obtain ⟨rfl, rfl, rfl⟩ := Outcome.next.inj (Except.ok.inj hstep)
    refine ⟨rfl, b, ⟨_, rfl, Function.update_self ..⟩, fun fuel => ?_⟩
    obtain ⟨hlen, rfl⟩ := malloc_eq_some hb
    have hmalloc : malloc true g.readDataLen = some (List.replicate g.readDataLen.toNat none) :=
      if_pos ⟨rfl, hlen⟩
    rw [hreads, Nat.add_zero, hrest, readRest, loopRest, readFile, hopen]
    simp only [hmalloc]
    cases readLoop calls.read g.readDataLen fuel 0 x.store (List.replicate g.readDataLen.toNat none) 0 with
    | error e => rfl
    | ok q =>
      simp only [ok_bind]
      split <;> rfl
  · exact absurd hstep (by simp)

/-- The response is what the session taken as one call answers. -/
theorem Partway.send (h : Partway calls server chunks g x .send) (hwired : Wired g k node)
    (hstep : sessionStep me node r g .send = .ok (.next pc' g' act)) :
    ∃ response n, pc' = .freeRead ∧ g' = g ∧ act = some (.call (.send k response)) ∧
      ∀ fuel, n ≤ fuel → callback calls fuel server chunks = .ok (⟨x.store, g.readDataLen⟩, response) := by
  obtain ⟨b, n, hleads, hrest⟩ := h
  obtain ⟨own, hown, hstep⟩ := bind_eq_ok.mp hstep
  obtain ⟨q, hq, hstep⟩ := bind_eq_ok.mp hstep
  dsimp only at hstep
  split at hstep
  · rename_i c hc
    obtain rfl := hwired.own (Image.params_eq_ok.mp hown) hc
    split at hstep
    · obtain ⟨data, hdata, hstep⟩ := bind_eq_ok.mp hstep
      obtain ⟨rfl, rfl, rfl⟩ := Outcome.next.inj (Except.ok.inj hstep)
      rw [hleads.buffer hq] at hdata
      refine ⟨data, n, rfl, rfl, rfl, fun fuel hfuel => ?_⟩
      rw [hrest fuel hfuel, sendRest, hdata]
      rfl
    · exact absurd (Except.ok.inj hstep) (by simp)
  · exact absurd (Except.ok.inj hstep) (by simp)

theorem Settled.readDataLen (h : Settled server g x) (hlen : g'.readDataLen = g.readDataLen) :
    Settled server g' x := ⟨h.1, hlen.trans h.2⟩

/-- Each statement but the recv and the send leaves the session partway through the same call. -/
theorem Partway.step (h : Partway calls server chunks g x pc) (hhold : Holding k base g cs pc)
    (hrest : pc = .lock → chunks = [] ∧ Settled server g x)
    (hrecv : ∀ total, pc ≠ .recv total) (hsend : pc ≠ .send)
    (hstep : sessionStep me node r g pc = .ok (.next pc' g' act))
    (hserve : x.serve calls pc pc' act = some x') : Partway calls server chunks g' x' pc' := by
  cases pc with
  | lock =>
    obtain ⟨_, rfl, rfl, rfl⟩ := lockMutex_next hstep
    obtain rfl := Option.some.inj hserve
    exact hrest rfl
  | malloc =>
    simp only [sessionStep] at hstep
    split at hstep
    · obtain ⟨rfl, rfl, rfl⟩ := Outcome.next.inj (Except.ok.inj hstep)
      obtain rfl := Option.some.inj hserve
      refine ⟨h.1, h.2, fun i hi => ?_⟩
      obtain rfl := Option.some.inj hi
      exact Function.update_self ..
    · obtain ⟨rfl, rfl, rfl⟩ := Outcome.next.inj (Except.ok.inj hstep)
      obtain rfl := Option.some.inj hserve
      exact ⟨h.1, h.2, fun i hi => absurd hi (by simp)⟩
  | memset =>
    obtain ⟨rfl, hsettled, hcells⟩ := h
    obtain ⟨q, hq, hstep⟩ := bind_eq_ok.mp hstep
    obtain ⟨b, hplace, hstep⟩ := bind_eq_ok.mp hstep
    obtain ⟨rfl, rfl, rfl⟩ := Outcome.next.inj (Except.ok.inj hstep)
    obtain rfl := Option.some.inj hserve
    have hleads : Leads g g.recvData (List.replicate recvLen none) :=
      ⟨q.1, (Image.buffer_eq_ok.mp hq).1, hcells _ (Image.buffer_eq_ok.mp hq).1⟩
    rw [hleads.buffer hq, place_cleared] at hplace
    obtain rfl := Except.ok.inj hplace
    exact ⟨hsettled, _, leads_set hq _, fun ds => rfl⟩
  | recv total => exact absurd rfl (hrecv total)
  | scan total n =>
    obtain rfl := Option.some.inj hserve
    exact h.scan hstep
  | realloc total found =>
    obtain rfl := Option.some.inj hserve
    exact h.realloc hstep
  | openAppend total =>
    simp only [sessionStep] at hstep
    split at hstep
    · obtain ⟨_, _, rfl, rfl, rfl⟩ := openFd_next hstep
      obtain ⟨store, hopen, rfl⟩ := Option.map_eq_some_iff.mp hserve
      rw [h.1.1] at hopen
      exact ⟨h.1.2, hopen, h.2⟩
    · obtain ⟨rfl, rfl, rfl⟩ := Outcome.next.inj (Except.ok.inj hstep)
      trivial
  | openFailed e => exact absurd hstep (by simp [sessionStep])
  | write total => exact h.write hhold.2 hstep hserve
  | freeRecv total =>
    obtain ⟨g₁, hfree, hstep⟩ := bind_eq_ok.mp hstep
    obtain ⟨rfl, rfl, rfl⟩ := Outcome.next.inj (Except.ok.inj hstep)
    obtain rfl := Option.some.inj hserve
    intro fuel
    rw [congrArg Image.readDataLen (Image.free_frame hfree)]
    exact h fuel
  | nullRecv total | closeStore total | nullRead total =>
    obtain ⟨rfl, rfl, rfl⟩ := Outcome.next.inj (Except.ok.inj hstep)
    obtain rfl := Option.some.inj hserve
    exact h
  | addLen total =>
    obtain ⟨len, hlen, hstep⟩ := bind_eq_ok.mp hstep
    obtain ⟨rfl, rfl, rfl⟩ := Outcome.next.inj (Except.ok.inj hstep)
    obtain rfl := Option.some.inj hserve
    intro fuel
    rw [h fuel, countRest, hlen, ok_bind]
  | openRead =>
    simp only [sessionStep] at hstep
    split at hstep
    · obtain ⟨_, _, rfl, rfl, rfl⟩ := openFd_next hstep
      obtain ⟨store, hopen, rfl⟩ := Option.map_eq_some_iff.mp hserve
      exact ⟨rfl, x.store, hopen, h⟩
    · exact absurd hstep (by simp)
  | mallocRead fd =>
    have hnext := h.mallocRead hstep
    simp only [sessionStep] at hstep
    split at hstep
    · obtain ⟨rfl, rfl, rfl⟩ := Outcome.next.inj (Except.ok.inj hstep)
      obtain rfl := Option.some.inj hserve
      exact hnext
    · exact absurd hstep (by simp)
  | read fd length status => exact h.read hhold.2.1 hstep hserve
  | closeRead fd =>
    obtain ⟨rfl, rfl, rfl⟩ := Outcome.next.inj (Except.ok.inj hstep)
    obtain rfl := Option.some.inj hserve
    exact h
  | send => exact absurd rfl hsend
  | freeRead =>
    obtain ⟨g₁, hfree, hstep⟩ := bind_eq_ok.mp hstep
    obtain ⟨rfl, rfl, rfl⟩ := Outcome.next.inj (Except.ok.inj hstep)
    obtain rfl := Option.some.inj hserve
    have hlen := congrArg Image.readDataLen (Image.free_frame hfree)
    exact h.readDataLen hlen
  | nullReadAgain =>
    obtain ⟨rfl, rfl, rfl⟩ := Outcome.next.inj (Except.ok.inj hstep)
    obtain rfl := Option.some.inj hserve
    exact h
  | unlock =>
    obtain ⟨_, rfl, rfl, rfl⟩ := unlockMutex_next hstep
    trivial
  | complete | closeSocket =>
    obtain ⟨_, _, hstep⟩ := bind_eq_ok.mp hstep
    obtain ⟨rfl, rfl, rfl⟩ := Outcome.next.inj (Except.ok.inj hstep)
    trivial
  | done => exact absurd hstep (by simp [sessionStep])

/-- What the other threads do leaves a session partway where it is. -/
theorem Partway.undisturbed (h : Partway calls server chunks g x pc) (hquiet : Undisturbed g g') :
    Partway calls server chunks g' x pc := by
  have recvData : ∀ {b}, Leads g g.recvData b → Leads g' g'.recvData b := by
    rintro b ⟨i, hi, hm⟩
    exact ⟨i, hquiet.recvData.trans hi, hquiet.buffers i b hm⟩
  have readBuffer : ∀ {b}, Leads g g.readBuffer b → Leads g' g'.readBuffer b := by
    rintro b ⟨i, hi, hm⟩
    exact ⟨i, hquiet.readBuffer.trans hi, hquiet.buffers i b hm⟩
  have settled : Settled server g x → Settled server g' x := fun hs => hs.readDataLen hquiet.readDataLen
  cases pc with
  | malloc => exact ⟨h.1, settled h.2⟩
  | memset =>
    refine ⟨h.1, settled h.2.1, fun i hi => ?_⟩
    exact hquiet.buffers i _ (h.2.2 i (hquiet.recvData.symm.trans hi))
  | recv total => exact ⟨settled h.1, h.2.imp fun b hb => ⟨recvData hb.1, hb.2⟩⟩
  | scan total n =>
    obtain ⟨hsettled, before, c, b, b', hchunks, hn, hleads, hplace, hloop⟩ := h
    exact ⟨settled hsettled, before, c, b, b', hchunks, hn, recvData hleads, hplace, hloop⟩
  | realloc total found => exact ⟨settled h.1, h.2.imp fun b hb => ⟨recvData hb.1, hb.2⟩⟩
  | openAppend total => exact ⟨settled h.1, h.2.imp fun b hb => ⟨recvData hb.1, hb.2⟩⟩
  | write total =>
    exact ⟨hquiet.readDataLen.trans h.1, h.2.1, h.2.2.imp fun b hb => ⟨recvData hb.1, hb.2⟩⟩
  | freeRecv total | nullRecv total | closeStore total | nullRead total | addLen total | openRead =>
    intro fuel
    rw [hquiet.readDataLen]
    exact h fuel
  | mallocRead fd =>
    obtain ⟨hreads, store, hopen, hcall⟩ := h
    refine ⟨hreads, store, hopen, fun fuel => ?_⟩
    rw [hquiet.readDataLen]
    exact hcall fuel
  | read fd length status =>
    exact ⟨h.1.trans hquiet.readDataLen.symm, h.2.imp fun b hb => ⟨readBuffer hb.1, hb.2⟩⟩
  | closeRead fd | send =>
    obtain ⟨b, n, hleads, hcall⟩ := h
    refine ⟨b, n, readBuffer hleads, fun fuel hfuel => ?_⟩
    rw [hquiet.readDataLen]
    exact hcall fuel hfuel
  | freeRead | nullReadAgain | unlock => exact settled h
  | lock | openFailed | complete | closeSocket | done => trivial

end Partway
end Aesd.Server
