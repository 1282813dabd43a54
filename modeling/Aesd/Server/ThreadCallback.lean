import Aesd.Server.ReadFile
import Aesd.Server.ReceiveLoop
import Aesd.Foundations.Machine

/-! thread_callback: one client session under the mutex, and the server as a machine
whose inputs are sessions in the order in which they hold the mutex. -/
namespace Aesd.Server
open Aesd.Foundations Aesd.Driver

/-- What the server keeps between sessions: the store behind RECV_FILE_NAME and the
global read_data_len. -/
structure ServerState (σ : Type) where
  store : σ
  readDataLen : Int

/-- A session and what its environment decides: whether the mutex calls, the two mallocs
and send succeed, what recv delivers, and how the store serves it. -/
structure Session (σ : Type) where
  mutexLock : Bool
  malloc : Bool
  deliveries : List Delivery
  calls : StoreCalls σ
  mallocRead : Bool
  send : Bool
  mutexUnlock : Bool

variable {σ : Type}

/-- The state after the session and the bytes it sent. The status of write is not looked at. -/
def threadCallback (x : Session σ) (fuel : Nat) (server : ServerState σ) :
    Except Stop (ServerState σ × List Byte) :=
  if x.mutexLock = false then .error .exited
  else do
    let packet ← receivePacket x.malloc x.deliveries
    match x.calls.openAppend server.store with
    | none => throw .exited
    | some store =>
      let (store, _) ← x.calls.write store packet
      let readDataLen ← addInt server.readDataLen packet.length
      match ← readFile x.calls x.mallocRead fuel store readDataLen with
      | (_, none) => throw .exited
      | (store, some readBuffer) =>
        let response ← firstBytes readBuffer readDataLen
        if x.send = true ∧ x.mutexUnlock = true then return (⟨store, readDataLen⟩, response)
        else throw .exited

/-- The server: each input is a session, each answer the response it sends. -/
def server (σ : Type) (fuel : Nat) : Machine (ServerState σ) (Session σ) (List Byte) :=
  ⟨fun s x => (threadCallback x fuel s).toOption⟩

theorem server_step_eq_some {x : Session σ} {fuel : Nat} {s s' : ServerState σ} {r : List Byte} :
    (server σ fuel).step s x = some (s', r) ↔ threadCallback x fuel s = .ok (s', r) := toOption_eq_some

def Session.complete (deliveries : List Delivery) (calls : StoreCalls σ) : Session σ :=
  ⟨true, true, deliveries, calls, true, true, true⟩

/-- A packet as it arrives: recv results of 1 to 100 bytes, of which the last ends with
a newline and no other does. -/
structure Arrival where
  chunks : List (List Byte)
  sized : ∀ c ∈ chunks, c ≠ [] ∧ c.length ≤ recvLen
  whole : untilNewline chunks = some chunks

namespace Arrival

def packet (a : Arrival) : List Byte := a.chunks.flatten

theorem newline_mem (a : Arrival) : newline ∈ a.packet := by
  obtain ⟨before, c, after, hchunks, _⟩ := untilNewline_eq_some a.whole
  rw [packet, hchunks]
  simp

theorem packet_ne_nil (a : Arrival) : a.packet ≠ [] := List.ne_nil_of_mem a.newline_mem

theorem receivePacket_iff (a : Arrival) (p : List Byte) :
    receivePacket true (a.chunks.map delivered) = .ok p ↔
      p = a.packet ∧ a.packet.length + recvLen ≤ intMax := by
  rw [receivePacket_eq_iff a.sized, a.whole]
  constructor
  · rintro ⟨ds, hds, rfl, hmax⟩
    obtain rfl := Option.some.inj hds
    exact ⟨rfl, hmax⟩
  · rintro ⟨rfl, hmax⟩
    exact ⟨_, rfl, rfl, hmax⟩

def FitsOn (a : Arrival) (readDataLen : Int) : Prop :=
  a.packet.length + recvLen ≤ intMax ∧ readDataLen + a.packet.length ≤ intMax

end Arrival

/-- How many of m bytes the i-th read of a session leaves undelivered: never all of them. -/
structure ReadSchedule where
  uncopied : Nat → Nat → Nat
  progress : ∀ i m, 0 < m → uncopied i m < m

def Fits (ps : List (List Byte)) : Prop :=
  (∀ p ∈ ps, p.length + recvLen ≤ intMax) ∧ ps.flatten.length ≤ intMax

section Fits
variable {ps qs : List (List Byte)} {p : List Byte}

theorem length_flatten_concat (ps : List (List Byte)) (p : List Byte) :
    (ps ++ [p]).flatten.length = ps.flatten.length + p.length := by simp

theorem fits_concat :
    Fits (ps ++ [p]) ↔ (∀ q ∈ ps, q.length + recvLen ≤ intMax) ∧ p.length + recvLen ≤ intMax ∧
      ps.flatten.length + p.length ≤ intMax := by
  rw [Fits, length_flatten_concat]
  constructor
  · rintro ⟨hall, hmax⟩
    exact ⟨fun q hq => hall q (List.mem_append_left _ hq), hall p (by simp), hmax⟩
  · rintro ⟨hall, hp, hmax⟩
    refine ⟨fun q hq => ?_, hmax⟩
    rcases List.mem_append.mp hq with hq | hq
    · exact hall q hq
    · rwa [List.mem_singleton.mp hq]

theorem Fits.left (h : Fits (ps ++ qs)) : Fits ps := by
  refine ⟨fun p hp => h.1 p (List.mem_append_left _ hp), ?_⟩
  have hmax := h.2
  rw [List.flatten_append, List.length_append] at hmax
  omega

end Fits

/-- After the packet has been appended the store reads back as a content. -/
def ReadsBack (calls : StoreCalls σ) (s : σ) (packet content : List Byte) (At : σ → Nat → Prop) : Prop :=
  ∃ s₁ s₂ n s₃, calls.openAppend s = some s₁ ∧ calls.write s₁ packet = .ok (s₂, n) ∧
    calls.openRead s₂ = some s₃ ∧ At s₃ 0 ∧ Serves calls.read At content

section Session
variable {calls : StoreCalls σ} {At : σ → Nat → Prop} {content : List Byte} {s : σ} {len fuel : Nat}

/-- A session finishes with the whole content if that is as long as read_data_len says. -/
theorem threadCallback_whole (a : Arrival) (hstore : ReadsBack calls s a.packet content At)
    (hpacket : a.packet.length + recvLen ≤ intMax) (hlen : content.length = len + a.packet.length)
    (hmax : content.length ≤ intMax) (hfuel : content.length < fuel) :
    ∃ s', threadCallback (.complete (a.chunks.map delivered) calls) fuel ⟨s, len⟩ =
        .ok (⟨s', content.length⟩, content) ∧ ∃ q, At s' q := by
  obtain ⟨s₁, s₂, n, s₃, hopen, hwrite, hread, hat, hserves⟩ := hstore
  obtain ⟨s', buffer, hfile, hstarts, hq⟩ := readFile_whole hread hat hserves hmax hfuel
  have hreceive := (a.receivePacket_iff a.packet).mpr ⟨rfl, hpacket⟩
  have hadd : addInt len a.packet.length = .ok (content.length : Int) := by
    rw [addInt_natCast (by omega), hlen, Int.natCast_add]
  refine ⟨s', ?_, hq⟩
  rw [threadCallback, if_neg (by simp [Session.complete])]
  simp only [Session.complete, hreceive, ok_bind, hopen, hwrite, hadd, hfile, hstarts.firstBytes, and_self,
    if_true]
  rfl

/-- A session that finishes has had read_file fill a buffer of read_data_len bytes. -/
theorem threadCallback_reads (a : Arrival) {s₁ s₂ : σ} {n : Int} (hopen : calls.openAppend s = some s₁)
    (hwrite : calls.write s₁ a.packet = .ok (s₂, n)) {server : ServerState σ} {response : List Byte}
    (h : threadCallback (.complete (a.chunks.map delivered) calls) fuel ⟨s, len⟩ = .ok (server, response)) :
    a.packet.length + recvLen ≤ intMax ∧ len + a.packet.length ≤ intMax ∧
      server.readDataLen = (len + a.packet.length : Nat) ∧ ∃ buffer,
        readFile calls true fuel s₂ (len + a.packet.length : Nat) = .ok (server.store, some buffer) ∧
          firstBytes buffer (len + a.packet.length : Nat) = .ok response := by
  rw [threadCallback, if_neg (by simp [Session.complete])] at h
  obtain ⟨packet, hreceive, h⟩ := bind_eq_ok.mp h
  obtain ⟨rfl, hpacket⟩ := (a.receivePacket_iff packet).mp hreceive
  simp only [Session.complete, hopen, hwrite, ok_bind] at h
  obtain ⟨readDataLen, hadd, h⟩ := bind_eq_ok.mp h
  obtain ⟨hlen, hmax⟩ := addInt_eq_ok hadd
  obtain rfl : readDataLen = ((len + a.packet.length : Nat) : Int) := by rw [hlen, Int.natCast_add]
  obtain ⟨⟨store, readBuffer⟩, hfile, h⟩ := bind_eq_ok.mp h
  cases readBuffer with
  | none => exact absurd h (by simp)
  | some buffer =>
    obtain ⟨data, hdata, h⟩ := bind_eq_ok.mp h
    simp only [and_self, if_true] at h
    obtain ⟨rfl, rfl⟩ : _ ∧ data = response := by simpa using Except.ok.inj h
    exact ⟨hpacket, by omega, rfl, buffer, hfile, hdata⟩

/-- Whenever a session finishes, it has sent as many bytes as read_data_len now says. -/
theorem threadCallback_ok (a : Arrival) (hstore : ReadsBack calls s a.packet content At)
    {server : ServerState σ} {response : List Byte}
    (h : threadCallback (.complete (a.chunks.map delivered) calls) fuel ⟨s, len⟩ = .ok (server, response)) :
    a.packet.length + recvLen ≤ intMax ∧ len + a.packet.length ≤ intMax ∧
      server.readDataLen = (len + a.packet.length : Nat) ∧ response.length = len + a.packet.length ∧
      ∃ q, At server.store q := by
  obtain ⟨s₁, s₂, n, s₃, hopen, hwrite, hread, hat, hserves⟩ := hstore
  obtain ⟨hpacket, hmax, hlen, buffer, hfile, hdata⟩ := threadCallback_reads a hopen hwrite h
  have hlength := length_of_firstBytes hdata
  exact ⟨hpacket, hmax, hlen, by omega, (readFile_ok hread hat hserves hfile).2⟩

/-- It has found as many bytes in the store. -/
theorem threadCallback_asked (a : Arrival) (hstore : ReadsBack calls s a.packet content At)
    {server : ServerState σ} {response : List Byte}
    (h : threadCallback (.complete (a.chunks.map delivered) calls) fuel ⟨s, len⟩ = .ok (server, response)) :
    len + a.packet.length ≤ content.length := by
  obtain ⟨s₁, s₂, n, s₃, hopen, hwrite, hread, hat, hserves⟩ := hstore
  obtain ⟨_, hmax, _, buffer, hfile, _⟩ := threadCallback_reads a hopen hwrite h
  exact (readFile_takes hmax hread hat hserves hfile).1

end Session
end Aesd.Server
