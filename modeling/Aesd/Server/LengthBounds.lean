import Aesd.Server.ByteAccounting
import Aesd.Server.FileSessions

/-! The sums of lengths that the server keeps in ints. Nothing bounds them: a connection
may send any number of bytes before a newline, and read_data_len adds up all packets. -/
namespace Aesd.Server
open Aesd.Foundations Aesd.Driver

variable {σ : Type}

/-- A store that never holds more than the packets it was given: which states hold which
packets, in a store that is otherwise unknown. -/
structure PacketStore (σ : Type) where
  start : σ
  Holds : σ → List (List Byte) → Prop
  holds_start : Holds start []

/-- A client of such a store, whose packet the store takes. -/
structure Visit (store : PacketStore σ) extends Arrival where
  calls : StoreCalls σ
  serves : ∀ s ps, store.Holds s ps → ∃ content At,
    ReadsBack calls s toArrival.packet content At ∧
      content.length ≤ ps.flatten.length + toArrival.packet.length ∧
      ∀ s' q, At s' q → store.Holds s' (ps ++ [toArrival.packet])

def Visit.session {store : PacketStore σ} (c : Visit store) : Session σ :=
  .complete (c.chunks.map delivered) c.calls

def visitServer (store : PacketStore σ) (fuel : Nat) : Machine (ServerState σ) (Visit store) (List Byte) :=
  ⟨fun s c => (server σ fuel).step s c.session⟩

section Sums
variable {r : Receiving} {b : List Byte} {cs ds : List (List Byte)}

end Sums

structure Kept (store : PacketStore σ) (s : ServerState σ) (ps : List (List Byte)) : Prop where
  holds : store.Holds s.store ps
  readDataLen : s.readDataLen = ps.flatten.length

section Visits
variable {store : PacketStore σ} {s s' : ServerState σ} {ps : List (List Byte)} {c : Visit store} {fuel : Nat}
  {r : List Byte}

theorem Kept.step (h : Kept store s ps) (hstep : (visitServer store fuel).step s c = some (s', r)) :
    Kept store s' (ps ++ [c.packet]) := by
  obtain ⟨content, At, hback, _, hkeeps⟩ := c.serves s.store ps h.holds
  have hok : threadCallback c.session fuel ⟨s.store, (ps.flatten.length : Nat)⟩ = .ok (s', r) := by
    rw [← h.readDataLen]
    exact server_step_eq_some.mp hstep
  obtain ⟨_, _, hlen, _, q, hat⟩ := threadCallback_ok c.toArrival hback hok
  exact ⟨hkeeps s'.store q hat, by rw [hlen, length_flatten_concat]⟩

end Visits

/-- The device, whatever becomes of the writes: it has no more bytes than it was given. -/
def PacketStore.device : PacketStore Sys :=
  ⟨Sys.loaded, fun s ps => ∃ v, SysShows s v ∧ v.size ≤ ps.flatten.length, ⟨.loaded, sysShows_loaded, le_rfl⟩⟩

def WritingClient.visit (c : WritingClient) : Visit .device where
  toArrival := c.toArrival
  calls := deviceCalls c.fd c.alloc c.uncopied c.reads
  serves s ps h := by
    obtain ⟨v, hs, hsize⟩ := h
    have hadded := v.size_write_le c.packet c.alloc c.uncopied
    have hcopied : (if c.alloc.isSome then (accepted c.packet c.uncopied).length else 0) ≤ c.packet.length := by
      rw [length_accepted]
      split <;> omega
    have hheld : (v.write c.packet c.alloc c.uncopied).stored.flatten.length ≤
      (v.write c.packet c.alloc c.uncopied).size := Nat.le_add_right ..
    refine ⟨_, _, device_readsBack_view hs c.fd c.alloc c.uncopied c.reads c.packet, by omega, fun s' q hat => ?_⟩
    exact ⟨_, hat.1, by rw [length_flatten_concat]; omega⟩

/-- The regular file, before its first tick. -/
def PacketStore.file : PacketStore RegularFile :=
  ⟨⟨[], 0⟩, fun s ps => s.content.length ≤ ps.flatten.length, le_rfl⟩

def FileSetting.visit (e : FileSetting) (a : Arrival) : Visit .file where
  toArrival := a
  calls := e.calls
  serves s ps h := by
    have hcontent : s.content.length ≤ ps.flatten.length := h
    have hkept : (e.kept a.packet).length ≤ a.packet.length := by
      unfold FileSetting.kept
      split
      · exact Nat.zero_le _
      · exact (List.take_sublist ..).length_le
    refine ⟨_, _, kept_readsBack e s a.packet, by rw [List.length_append]; omega, fun s' q hat => ?_⟩
    change s'.content.length ≤ _
    rw [hat.1, length_flatten_concat, List.length_append]
    omega

end Aesd.Server
