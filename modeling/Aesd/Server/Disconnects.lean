import Aesd.Server.ByteAccounting

/-! Clients that close their side. recv then returns 0 for ever, which the receive loop
takes for one more chunk: it looks at the same last byte again, or at the byte before
recv_data, and so leaves the mutex locked unless a newline has ended the loop before. -/
namespace Aesd.Server
open Aesd.Foundations Aesd.Driver

/-- A client that closes its side after recv results that make up nothing or what does
not end with a newline. -/
structure Departure where
  chunks : List (List Byte)
  sized : ∀ c ∈ chunks, c ≠ [] ∧ c.length ≤ recvLen
  unended : chunks.flatten.getLast? ≠ some newline

def Departure.deliveries (d : Departure) (closed : Nat) : List Delivery :=
  d.chunks.map delivered ++ List.replicate closed (delivered [])

/-- Such a client, and what its session is given for the write and the reads of the device. -/
structure DepartingClient extends Departure where
  fd : Nat
  alloc : Option Grant
  uncopied : Nat
  reads : ReadSchedule

def DepartingClient.session (d : DepartingClient) (closed : Nat) : Session Sys :=
  .complete (d.deliveries closed) (deviceCalls d.fd d.alloc d.uncopied d.reads)

/-- The thread ends, and with it its hold of the mutex, after finitely many recvs. -/
def DepartingClient.Released (d : DepartingClient) (s : ServerState Sys) : Prop :=
  ∃ closed fuel server response, threadCallback (d.session closed) fuel s = .ok (server, response)

/-- Some recv result before the close ends with a newline, and what has come by then
leaves room for a recv and for read_data_len within INT_MAX. -/
def Departure.EndsInTime (d : Departure) (readDataLen : Int) : Prop :=
  ∃ ds, untilNewline d.chunks = some ds ∧ ds.flatten.length + recvLen ≤ intMax ∧
    readDataLen + ds.flatten.length ≤ intMax

section Loop
variable {r r' : Receiving} {b : List Byte}

/-- A recv of no bytes looks at the last byte again, or at the one before the buffer. -/
theorem receiveOnce_closed (h : r.Holds b) (hlast : b.getLast? ≠ some newline) :
    receiveOnce r (delivered []) = .error .undefined ∨
      ∃ r', receiveOnce r (delivered []) = .ok (r', false) ∧ r'.Holds b := by
  have hplace : place r.recvData r.total [] = .ok r.recvData := if_pos rfl
  have honce : receiveOnce r (delivered []) = (do
      let total ← addInt b.length 0
      let last ← byteAt r.recvData (total - 1)
      let size ← addInt total recvLen
      return (⟨resize r.recvData size, total⟩, last == newline)) := by
    rw [receiveOnce_delivered hplace, h.total]
    rfl
  rw [honce]
  rcases addInt_cases b.length 0 with hadd | hadd
  · rw [Int.add_zero] at hadd
    rw [hadd, ok_bind]
    by_cases hb : b = []
    · subst hb
      exact .inl rfl
    · have hbyte := h.starts.byteAt_last hb
      have hnot : (b.getLast hb == newline) = false := by
        rw [List.getLast?_eq_some_getLast hb] at hlast
        simpa using fun he => hlast (congrArg some he)
      rw [hbyte, ok_bind, hnot]
      rcases addInt_cases b.length recvLen with hgrow | hgrow
      · right
        rw [hgrow, ok_bind]
        refine ⟨_, rfl, rfl, h.starts.resize (by omega), ?_⟩
        have hlen := length_resize r.recvData (n := (b.length : Int) + recvLen) (by omega)
        simp only
        omega
      · left
        rw [hgrow]
        rfl
  · left
    rw [hadd]
    rfl

/-- However often recv returns no bytes, the loop does not end by it. -/
theorem receiveLoop_closed (h : r.Holds b) (hlast : b.getLast? ≠ some newline) (closed : Nat) :
    receiveLoop r (List.replicate closed (delivered [])) ≠ .ok r' := by
  induction closed generalizing r with
  | zero => simp [receiveLoop]
  | succ closed ih =>
    rw [List.replicate_succ, receiveLoop]
    rcases receiveOnce_closed h hlast with herror | ⟨r₁, honce, hr₁⟩
    · simp [herror]
    · rw [honce, ok_bind]
      exact ih hr₁

end Loop

/-- The receive loop ends, after some number of recvs, exactly with the chunks up to one
that ends with a newline. -/
theorem Departure.receives_iff (d : Departure) (p : List Byte) :
    (∃ closed, receivePacket true (d.deliveries closed) = .ok p) ↔
      ∃ ds, untilNewline d.chunks = some ds ∧ ds.flatten = p ∧ p.length + recvLen ≤ intMax := by
  constructor
  · rintro ⟨closed, hreceive⟩
    obtain ⟨r, hstart, hr⟩ := receiveStart_holds
    rw [receivePacket, hstart, ok_bind] at hreceive
    obtain ⟨r', hloop, hfirst⟩ := bind_eq_ok.mp hreceive
    rcases receiveLoop_chunks hr d.sized hloop with ⟨ds, hds, hroom, hr'⟩ | ⟨r₁, hr₁, hclosed⟩
    · rw [hr'.firstBytes, List.nil_append] at hfirst
      obtain rfl := Except.ok.inj hfirst
      exact ⟨ds, hds, rfl, by simpa using hroom⟩
    · exact absurd hclosed (receiveLoop_closed hr₁ d.unended closed)
  · intro hds
    refine ⟨0, ?_⟩
    rw [Departure.deliveries, List.replicate_zero, List.append_nil]
    exact (receivePacket_eq_iff d.sized p).mpr hds

section Session
variable {σ : Type} {xs ys : List Delivery} {p : List Byte}

/-- A session looks at what recv delivers only for its packet. -/
theorem threadCallback_packet (hxs : receivePacket true xs = .ok p) (hys : receivePacket true ys = .ok p)
    (calls : StoreCalls σ) (fuel : Nat) (server : ServerState σ) :
    threadCallback (.complete xs calls) fuel server = threadCallback (.complete ys calls) fuel server := by
  simp only [threadCallback, Session.complete, hxs, hys]

theorem threadCallback_received {calls : StoreCalls σ} {fuel : Nat} {server server' : ServerState σ}
    {response : List Byte} (h : threadCallback (.complete xs calls) fuel server = .ok (server', response)) :
    ∃ p, receivePacket true xs = .ok p := by
  rw [threadCallback, if_neg (by simp [Session.complete])] at h
  obtain ⟨p, hreceive, _⟩ := bind_eq_ok.mp h
  exact ⟨p, hreceive⟩

end Session

section Departing
variable {d : DepartingClient} {s : ServerState Sys} {ds : List (List Byte)}

def DepartingClient.ending (d : DepartingClient) (hds : untilNewline d.chunks = some ds) : WritingClient where
  chunks := ds
  sized c hc := d.sized c ((untilNewline_self hds).2 hc)
  whole := (untilNewline_self hds).1
  fd := d.fd
  alloc := d.alloc
  uncopied := d.uncopied
  reads := d.reads

/-- A departing client is released exactly if the one that sends up to the newline is served. -/
theorem DepartingClient.released_iff :
    d.Released s ↔ ∃ ds, ∃ hds : untilNewline d.chunks = some ds, ∃ fuel s' r,
      (writingServer fuel).step s (d.ending hds) = some (s', r) := by
  have hsame (ds : List (List Byte)) (hds : untilNewline d.chunks = some ds) (closed : Nat)
      (hreceive : receivePacket true (d.deliveries closed) = .ok ds.flatten)
      (hroom : ds.flatten.length + recvLen ≤ intMax) (fuel : Nat) :
      threadCallback (d.session closed) fuel s = threadCallback (d.ending hds).session fuel s :=
    threadCallback_packet hreceive (((d.ending hds).receivePacket_iff _).mpr ⟨rfl, hroom⟩) _ _ _
  constructor
  · rintro ⟨closed, fuel, s', r, hok⟩
    obtain ⟨p, hreceive⟩ := threadCallback_received hok
    obtain ⟨ds, hds, rfl, hroom⟩ := (d.receives_iff p).mp ⟨closed, hreceive⟩
    rw [hsame ds hds closed hreceive hroom] at hok
    exact ⟨ds, hds, fuel, s', r, server_step_eq_some.mpr hok⟩
  · rintro ⟨ds, hds, fuel, s', r, hstep⟩
    have hok : threadCallback (d.ending hds).session fuel s = .ok (s', r) := server_step_eq_some.mp hstep
    obtain ⟨p, hreceive⟩ := threadCallback_received hok
    obtain ⟨rfl, hroom⟩ := ((d.ending hds).receivePacket_iff p).mp hreceive
    obtain ⟨closed, hclosed⟩ := (d.receives_iff _).mpr ⟨ds, hds, rfl, hroom⟩
    exact ⟨closed, fuel, s', r, (hsame ds hds closed hclosed hroom fuel).trans hok⟩

end Departing

/-- In whatever state earlier sessions have left the server: a client that disconnects lets
its thread release the mutex exactly when one of its chunks has ended the receive loop
before, the device still has a place for its packet, and the packet is written whole. -/
theorem disconnect_releases_iff (fuel : Nat) (cs : List WritingClient) {s : ServerState Sys} {rs : List (List Byte)}
    (hrun : (writingServer fuel).run deviceStart cs = some (s, rs)) (d : DepartingClient) :
    d.Released s ↔ d.EndsInTime s.readDataLen ∧ cs.length < maxWriteOperationsSupported ∧
      d.alloc.isSome = true ∧ d.uncopied = 0 := by
  have hserved := run_written hrun
  have hcount : (cs.map fun c => c.packet).length = cs.length := List.length_map _
  rw [DepartingClient.released_iff]
  constructor
  · rintro ⟨ds, hds, fuel', s', r, hstep⟩
    obtain ⟨hsome, hzero⟩ := written_of_finishes hserved hstep
    obtain ⟨g, hsame⟩ := session_whole hsome hzero
    rw [hsame] at hstep
    obtain ⟨_, hroom, hmax, _⟩ := session_sends hserved hstep
    have hten := session_within_ten hserved (fun p hp => by
      obtain ⟨c, _, rfl⟩ := List.mem_map.mp hp
      exact c.packet_ne_nil) hstep
    refine ⟨⟨ds, hds, hroom, ?_⟩, hcount ▸ hten, hsome, hzero⟩
    rw [hserved.readDataLen]
    exact Int.ofNat_le.mpr hmax
  · rintro ⟨⟨ds, hds, hroom, hmax⟩, hten, hsome, hzero⟩
    obtain ⟨g, hsame⟩ := session_whole (c := d.ending hds) hsome hzero
    rw [hserved.readDataLen] at hmax
    obtain ⟨s', hstep, _⟩ := session_answers (c := ⟨(d.ending hds).toArrival, d.fd, g, d.reads⟩) hserved
      (hcount.symm ▸ hten) hroom (Int.ofNat_le.mp hmax) (Nat.lt_succ_self _)
    exact ⟨ds, hds, _, s', _, (hsame _ s).trans hstep⟩

/-- One session before, and a client that sends "b\n", then "c", and closes. -/
theorem disconnect_releases_second_session :
    let reads : ReadSchedule := ⟨fun _ _ => 0, fun _ _ h => h⟩
    ∃ s rs, (writingServer 3).run deviceStart [⟨⟨[[97, 10]], by decide, by decide⟩, 0, some (.above 0), 0, reads⟩] =
        some (s, rs) ∧
      DepartingClient.Released ⟨⟨[[98, 10], [99]], by decide, by decide⟩, 0, some (.above 0), 0, reads⟩ s := by
  intro reads
  have heval : ((writingServer 3).run deviceStart
      [⟨⟨[[97, 10]], by decide, by decide⟩, 0, some (.above 0), 0, reads⟩]).map (fun q => q.1.readDataLen) =
        some 2 := by decide
  obtain ⟨⟨s, rs⟩, hrun, hlen⟩ := Option.map_eq_some_iff.mp heval
  refine ⟨s, rs, hrun, (disconnect_releases_iff 3 _ hrun _).mpr ⟨⟨[[98, 10]], by decide, by decide, ?_⟩, by decide,
    rfl, rfl⟩⟩
  rw [show s.readDataLen = 2 from hlen]
  decide

/-- A client of a freshly started server that sends "a" and closes: every further recv
finds the "a" again, and the mutex stays locked. -/
theorem closed_after_a_not_released :
    ¬DepartingClient.Released
      ⟨⟨[[97]], by decide, by decide⟩, 0, some (.above 0), 0, ⟨fun _ _ => 0, fun _ _ h => h⟩⟩ deviceStart := by
  rw [DepartingClient.released_iff]
  rintro ⟨ds, hds, _⟩
  have hnone : untilNewline [[97]] = none := by decide
  exact absurd (hnone.symm.trans hds) (by simp)

end Aesd.Server
