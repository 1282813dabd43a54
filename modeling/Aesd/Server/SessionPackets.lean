import Aesd.Server.SerialSessions

/-! What a session has received is what it writes, and what it sends is as much of the
beginning of the store as read_data_len says, whatever else there is in the store. -/
namespace Aesd.Server
open Aesd.Foundations Aesd.Driver
variable {σ : Type}

def packetBy (os : Trace) (k : Nat) : List Byte := packetOf (callsOf os k)

/-- What a session has received before its last recv is no packet yet. -/
def Gradual (os : Trace) : Prop :=
  ∀ k ds, ds <+: chunksOf (callsOf os k) → ds ≠ chunksOf (callsOf os k) →
    receiveLoop .cleared (ds.map delivered) = .error .unfinished

section Receive
variable {r r' : Receiving} {b : List Byte} {ds : List (List Byte)}

/-- A loop that no earlier recv has ended has received everything that was delivered. -/
theorem receiveLoop_received (htotal : r.total = b.length) (hstarts : StartsWith r.recvData b)
    (hearly : ∀ pre, pre <+: ds → pre ≠ ds → receiveLoop r (pre.map delivered) = .error .unfinished)
    (hok : receiveLoop r (ds.map delivered) = .ok r') :
    r'.total = (b ++ ds.flatten).length ∧ StartsWith r'.recvData (b ++ ds.flatten) := by
  induction ds generalizing r b with
  | nil => exact absurd hok (by simp [receiveLoop])
  | cons c ds ih =>
    obtain ⟨⟨r₁, found⟩, honce, hok⟩ := bind_eq_ok.mp hok
    have hstep : r₁.total = (b ++ c).length ∧ StartsWith r₁.recvData (b ++ c) := by
      obtain ⟨recvData, hplace, hrest⟩ := bind_eq_ok.mp honce
      obtain ⟨total, hadd, hrest⟩ := bind_eq_ok.mp hrest
      obtain ⟨_, _, hrest⟩ := bind_eq_ok.mp hrest
      obtain ⟨size, hgrow, hrest⟩ := bind_eq_ok.mp hrest
      obtain ⟨rfl, _⟩ := Prod.mk.inj (Except.ok.inj hrest)
      obtain ⟨rfl, _⟩ := addInt_eq_ok hadd
      obtain ⟨rfl, _⟩ := addInt_eq_ok hgrow
      have hlen : r.total + c.length = ((b ++ c).length : Int) := by
        rw [htotal, List.length_append, Int.natCast_add]
      refine ⟨hlen, StartsWith.resize (hstarts.of_place (htotal ▸ hplace)) ?_⟩
      omega
    have hnext : ∀ pre, receiveLoop r ((c :: pre).map delivered) =
        if found = true then .ok r₁ else receiveLoop r₁ (pre.map delivered) := by
      intro pre
      rw [List.map_cons, receiveLoop, honce, ok_bind]
      rfl
    cases found with
    | true =>
      obtain rfl : r₁ = r' := Except.ok.inj hok
      obtain rfl : ds = [] := by
        by_contra hmore
        have hended := hearly [c] ⟨ds, rfl⟩ (by simpa using Ne.symm hmore)
        rw [hnext] at hended
        exact absurd hended (by simp)
      simpa using hstep
    | false =>
      have hearly₁ : ∀ pre, pre <+: ds → pre ≠ ds → receiveLoop r₁ (pre.map delivered) = .error .unfinished := by
        intro pre hpre hne
        have hlater := hearly (c :: pre) (List.cons_prefix_cons.mpr ⟨rfl, hpre⟩) (by simpa using hne)
        rw [hnext] at hlater
        exact hlater
      rw [List.flatten_cons, ← List.append_assoc]
      exact ih hstep.1 hstep.2 hearly₁ hok

/-- The packet is everything that was delivered. -/
theorem receivePacket_received {packet : List Byte}
    (hearly : ∀ pre, pre <+: ds → pre ≠ ds → receiveLoop .cleared (pre.map delivered) = .error .unfinished)
    (hok : receivePacket true (ds.map delivered) = .ok packet) : packet = ds.flatten := by
  obtain ⟨r, hloop, hpacket⟩ := bind_eq_ok.mp (show (receiveLoop .cleared (ds.map delivered) >>= fun r =>
    firstBytes r.recvData r.total) = .ok packet from hok)
  obtain ⟨htotal, hstarts⟩ := receiveLoop_received (b := []) rfl (startsWith_nil _) hearly hloop
  rw [List.nil_append] at htotal hstarts
  rw [htotal, hstarts.firstBytes] at hpacket
  exact (Except.ok.inj hpacket).symm

end Receive

section Callback
variable {calls : StoreCalls σ} {At : σ → Nat → Prop} {content packet response : List Byte}
  {server server' : ServerState σ} {chunks : List (List Byte)} {fuel : Nat}

/-- A session that finishes sends the first read_data_len bytes of the content. -/
theorem callback_sends (hreceive : receivePacket true (chunks.map delivered) = .ok packet)
    (hback : ReadsBack calls server.store packet content At)
    (hok : callback calls fuel server chunks = .ok (server', response)) :
    server'.readDataLen = server.readDataLen + packet.length ∧ (∃ q, At server'.store q) ∧
      ∃ n : Nat, server'.readDataLen = n ∧ n ≤ content.length ∧ response = content.take n := by
  obtain ⟨s₁, s₂, n, s₃, hopen, hwrite, hread, hat, hserves⟩ := hback
  rw [callback_eq, hreceive, ok_bind] at hok
  simp only [appendRest, hopen, writeRest, hwrite, ok_bind] at hok
  obtain ⟨len, hadd, hok⟩ := bind_eq_ok.mp hok
  obtain ⟨rfl, hmax⟩ := addInt_eq_ok hadd
  obtain ⟨⟨store, readBuffer⟩, hfile, hok⟩ := bind_eq_ok.mp hok
  cases readBuffer with
  | none => exact absurd hok (by simp [sendRest])
  | some buffer =>
    obtain ⟨data, hdata, hok⟩ := bind_eq_ok.mp hok
    obtain ⟨rfl, rfl⟩ := Prod.mk.inj (Except.ok.inj hok)
    obtain ⟨hlen, hq⟩ := readFile_ok hread hat hserves hfile
    rw [← hlen] at hfile hdata hmax
    obtain ⟨hle, hstarts⟩ := readFile_takes (Int.ofNat_le.mp hmax) hread hat hserves hfile
    have htake : (content.take buffer.length).length = buffer.length := List.length_take_of_le hle
    have hsent := hstarts.firstBytes
    rw [htake, hdata] at hsent
    exact ⟨rfl, hq, buffer.length, hlen.symm, hle, Except.ok.inj hsent⟩

end Callback

section Gradual
variable {timer : Bool} {p p' : Proc} {os : Trace} {i : Input} {o : Option (Actor × Act)}

theorem gradual_start : Gradual [] := by
  intro k ds hpre hne
  exact absurd (List.prefix_nil.mp hpre) hne

/-- A session at its recv has not received a packet. -/
theorem Partway.unfinished {calls : StoreCalls σ} {server : ServerState σ} {chunks : List (List Byte)} {g : Image}
    {x : Shelf σ} {total : Int} (h : Partway calls server chunks g x (.recv total)) :
    receiveLoop .cleared (chunks.map delivered) = .error .unfinished := by
  obtain ⟨_, b, _, hloop⟩ := h
  rw [← List.append_nil (chunks.map delivered), hloop]
  rfl

theorem Gradual.step (h : Gradual os)
    (hrecv : ∀ k s total, p.sessions[k]? = some s → s.pc = .recv total →
      receiveLoop .cleared ((chunksOf (callsOf os k)).map delivered) = .error .unfinished)
    (hstep : (process timer).step p i = some (p', o)) : Gradual (os ++ [o]) := by
  intro k ds hpre hne
  rcases step_chunks hstep os k with hsame | ⟨s, total, c, hs, hpc, _, hmore⟩
  · rw [hsame] at hpre hne
    exact h k ds hpre hne
  · rw [hmore] at hpre hne
    rcases List.prefix_concat_iff.mp hpre with heq | hpre
    · exact absurd heq hne
    · by_cases hall : ds = chunksOf (callsOf os k)
      · rw [hall]
        exact hrecv k s total hs hpc
      · exact h k ds hpre hall

end Gradual

section Packets
variable {k : Nat} {cs : List Call} {packet : List Byte}

theorem Answered.packetOf_chunks (h : Answered k cs packet) : packetOf cs = (chunksOf cs).flatten := by
  rw [h.packetOf_eq]
  obtain ⟨_, reads, response, _, _, ⟨before, ⟨chunks, rfl, rfl⟩, rfl⟩, _, _, rfl⟩ := h
  have hrecv : chunksOf (chunks.map (.recv k)) = chunks := by simp [chunksOf, List.flatMap_map]
  have hreads : chunksOf (reads.map fun x : Int × List Byte => Call.read .store x.1 x.2) = [] := by
    simp [chunksOf, List.flatMap_map]
  rw [chunksOf_append, chunksOf_append, hrecv]
  change _ = (chunks ++ chunksOf (reads.map fun x : Int × List Byte => Call.read .store x.1 x.2) ++ []).flatten
  rw [hreads, List.append_nil, List.append_nil]

/-- What an answered session has written is what it has received. -/
theorem Sound.packetBy_eq {p : Proc} {os : Trace} {response : List Byte} (h : Sound p os)
    (hsent : Call.send k response ∈ callsOf os k) : packetBy os k = (chunksOf (callsOf os k)).flatten := by
  cases hs : p.sessions[k]? with
  | none =>
    rw [h.silent k (List.getElem?_eq_none_iff.mp hs)] at hsent
    exact absurd hsent (by simp)
  | some s =>
    have hhold := h.holding k s hs
    obtain ⟨packet, hanswered⟩ := hhold.answer (hhold.answered hsent)
    exact hanswered.packetOf_chunks

end Packets
end Aesd.Server
