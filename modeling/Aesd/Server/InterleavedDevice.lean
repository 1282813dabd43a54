import Aesd.Server.SessionPackets
import Aesd.Server.SharedDevice

/-! The server's threads over the char device, down to the ring and the heap of the driver.
Whatever their order, at most ten clients get a response, and each gets all packets so far. -/
namespace Aesd.Server
open Aesd.Foundations Aesd.Driver

section Sessions
variable {s s' : ServerState Sys} {ps : List (List Byte)} {c : DeviceClient} {fuel : Nat} {r : List Byte}

end Sessions

structure Setting where
  fd : Nat
  grant : Grant
  reads : ReadSchedule

def Setting.calls (e : Setting) : StoreCalls Sys := deviceCalls e.fd (some e.grant) 0 e.reads

section Gradual
variable {σ : Type} {timer : Bool} {created : σ → σ} {calls : Nat → StoreCalls σ} {s₀ : σ} {p : Proc}
  {x : Shelf σ} {os : Trace}

/-- The chunks of a session that has received a packet are that packet. -/
theorem Gradual.whole {k : Nat} (h : Gradual os) (hsized : ∀ c ∈ chunksOf (callsOf os k), c ≠ [] ∧ c.length ≤ recvLen)
    {packet : List Byte} (hreceive : receivePacket true ((chunksOf (callsOf os k)).map delivered) = .ok packet) :
    untilNewline (chunksOf (callsOf os k)) = some (chunksOf (callsOf os k)) := by
  obtain ⟨ds, hds, hpacket, hmax⟩ := (receivePacket_eq_iff hsized packet).mp hreceive
  obtain ⟨hself, hsub⟩ := untilNewline_self hds
  have hpre : ds <+: chunksOf (callsOf os k) := by
    obtain ⟨before, c, after, hchunks, hsplit, _⟩ := untilNewline_eq_some_iff.mp hds
    exact ⟨after, by rw [hsplit, hchunks]; simp⟩
  by_cases hall : ds = chunksOf (callsOf os k)
  · rwa [hall] at hself
  · have hunfinished := h k ds hpre hall
    have hagain := (receivePacket_eq_iff (fun c hc => hsized c (hsub hc)) packet).mpr ⟨ds, hself, hpacket, hmax⟩
    change (receiveLoop .cleared (ds.map delivered) >>= fun r => firstBytes r.recvData r.total) = _ at hagain
    rw [hunfinished] at hagain
    exact absurd hagain (by simp)

end Gradual

section Device
variable {timer : Bool} {fd : Nat} {settings : Nat → Setting} {p : Proc} {x : Shelf Sys} {os : Trace}
  {fuel : Nat} {s s' : ServerState Sys} {r : List Byte}

end Device

end Aesd.Server
