import Aesd.Server.DeviceSessions

/-! Sessions whose write the device takes in part or not at all. The status of write is
not looked at, and read_data_len grows by the whole packet in any case. -/
namespace Aesd.Server
open Aesd.Foundations Aesd.Driver

/-- A client, and what its session is given: a file number, the allocation for the write
and how many bytes copy_from_user leaves, and how much each read copies. -/
structure WritingClient extends Arrival where
  fd : Nat
  alloc : Option Grant
  uncopied : Nat
  reads : ReadSchedule

def WritingClient.session (c : WritingClient) : Session Sys :=
  .complete (c.chunks.map delivered) (deviceCalls c.fd c.alloc c.uncopied c.reads)

/-- thread_callback up to its call of read_file: the store, the status of write, and the
length that read_file is asked for. -/
def beforeReadFile {σ : Type} (x : Session σ) (server : ServerState σ) : Except Stop (σ × Int × Int) :=
  if x.mutexLock = false then .error .exited
  else do
    let packet ← receivePacket x.malloc x.deliveries
    match x.calls.openAppend server.store with
    | none => throw .exited
    | some store =>
      let (store, status) ← x.calls.write store packet
      let readDataLen ← addInt server.readDataLen packet.length
      return (store, status, readDataLen)

def writingServer (fuel : Nat) : Machine (ServerState Sys) WritingClient (List Byte) :=
  ⟨fun s c => (server Sys fuel).step s c.session⟩

def acceptedBytes (status : Int) : Int := max status 0

def EvictsNothing (s : ServerState Sys) (c : WritingClient) : Prop :=
  ∀ s' r, driver.step (reopen s.store c.fd)
    (.write c.fd ⟨some c.packet, true, c.alloc, c.uncopied⟩) = some (s', r) → r.freed = []

def GrowsByAccepted (s : ServerState Sys) (c : WritingClient) : Prop :=
  ∀ store status len, beforeReadFile c.session s = .ok (store, status, len) →
    len = s.readDataLen + acceptedBytes status

/-- In every session that gets to read_file, read_data_len has grown by what the store
accepted, and is no more than the store holds if nothing has been evicted. -/
def BytesAccounted (fuel : Nat) (cs : List WritingClient) : Prop :=
  ∀ done c, done ++ [c] <+: cs → ∀ s rs, (writingServer fuel).run deviceStart done = some (s, rs) →
    ∀ store status len, beforeReadFile c.session s = .ok (store, status, len) →
      len = s.readDataLen + acceptedBytes status ∧
        ((writingServer fuel).Along EvictsNothing deviceStart (done ++ [c]) →
          ∃ held, content store.kernel = some held ∧ len ≤ held.length)

def WritesWhole (s : ServerState Sys) (c : WritingClient) : Prop :=
  c.FitsOn s.readDataLen → c.alloc.isSome = true ∧ c.uncopied = 0

/-- A session goes on from there with read_file. -/
theorem threadCallback_beforeReadFile {σ : Type} (x : Session σ) (fuel : Nat) (server : ServerState σ) :
    threadCallback x fuel server = (do
      let (store, _, readDataLen) ← beforeReadFile x server
      match ← readFile x.calls x.mallocRead fuel store readDataLen with
      | (_, none) => throw .exited
      | (store, some readBuffer) =>
        let response ← firstBytes readBuffer readDataLen
        if x.send = true ∧ x.mutexUnlock = true then return (⟨store, readDataLen⟩, response)
        else throw .exited) := by
  rw [threadCallback, beforeReadFile]
  split
  · rfl
  · cases receivePacket x.malloc x.deliveries with
    | error e => rfl
    | ok packet =>
      simp only [ok_bind]
      cases x.calls.openAppend server.store with
      | none => rfl
      | some store =>
        cases hwrite : x.calls.write store packet with
        | error e => simp only [hwrite, error_bind]
        | ok q =>
          simp only [hwrite, ok_bind]
          cases addInt server.readDataLen packet.length <;> rfl

section Sessions
variable {s s' : ServerState Sys} {ps : List (List Byte)} {c : WritingClient} {fuel : Nat} {r : List Byte}
  {store : Sys} {status len : Int}

theorem beforeReadFile_ok (h : beforeReadFile c.session s = .ok (store, status, len)) :
    c.FitsOn s.readDataLen ∧ len = s.readDataLen + c.packet.length ∧
      ∃ r, driver.step (reopen s.store c.fd) (.write c.fd ⟨some c.packet, true, c.alloc, c.uncopied⟩) =
        some (store, r) ∧ status = syscallRet r.ret := by
  rw [beforeReadFile, if_neg (by simp [WritingClient.session, Session.complete])] at h
  obtain ⟨packet, hreceive, h⟩ := bind_eq_ok.mp h
  obtain ⟨rfl, hpacket⟩ := (c.receivePacket_iff packet).mp hreceive
  obtain ⟨⟨store₁, status₁⟩, hwrite, h⟩ := bind_eq_ok.mp h
  obtain ⟨len₁, hadd, h⟩ := bind_eq_ok.mp h
  obtain ⟨rfl, rfl, rfl⟩ : store₁ = store ∧ status₁ = status ∧ len₁ = len := by simpa using Except.ok.inj h
  obtain ⟨rfl, hmax⟩ := addInt_eq_ok hadd
  refine ⟨⟨hpacket, hmax⟩, rfl, ?_⟩
  simp only [WritingClient.session, Session.complete, deviceCalls] at hwrite
  split at hwrite
  · rename_i s' r hstep
    obtain ⟨rfl, rfl⟩ : s' = store₁ ∧ syscallRet r.ret = status₁ := by simpa using Except.ok.inj hwrite
    exact ⟨r, hstep, rfl⟩
  · exact absurd hwrite (by simp)

/-- Between its receive loop and read_file a session is stopped by overflow only. -/
theorem reaches_readFile (h : Served s ps) (hfits : c.FitsOn s.readDataLen) :
    ∃ store status len, beforeReadFile c.session s = .ok (store, status, len) := by
  obtain ⟨v, hs, _⟩ := reopen_mirrors h.mirrors c.fd
  obtain ⟨k', r, hstep, _⟩ := step_write_shows hs c.fd c.packet c.alloc c.uncopied
  have hreceive := (c.receivePacket_iff c.packet).mpr ⟨rfl, hfits.1⟩
  have hadd : addInt s.readDataLen c.packet.length = .ok (s.readDataLen + c.packet.length) :=
    addInt_of_le (by rw [h.readDataLen]; omega) (by omega) hfits.2
  refine ⟨⟨k', (reopen s.store c.fd).files⟩, syscallRet r.ret, s.readDataLen + c.packet.length, ?_⟩
  rw [beforeReadFile, if_neg (by simp [WritingClient.session, Session.complete])]
  simp only [WritingClient.session, Session.complete, deviceCalls, hreceive, ok_bind, hstep, hadd]
  rfl

/-- What the device accepts of a packet. -/
theorem acceptedBytes_eq (h : Served s ps) (hq : beforeReadFile c.session s = .ok (store, status, len)) :
    acceptedBytes status =
      if c.alloc.isSome then ((c.packet.length - min c.uncopied c.packet.length : Nat) : Int) else 0 := by
  obtain ⟨_, _, r, hstep, rfl⟩ := beforeReadFile_ok hq
  obtain ⟨v, hs, _⟩ := reopen_mirrors h.mirrors c.fd
  obtain ⟨_, r', hstep', _, hret, _⟩ := step_write_shows hs c.fd c.packet c.alloc c.uncopied
  obtain ⟨_, rfl⟩ := Prod.mk.inj (Option.some.inj (hstep.symm.trans hstep'))
  rw [hret, writeRet]
  cases c.alloc with
  | none => rfl
  | some g =>
    simp only [Option.isSome_some, if_true]
    rw [length_accepted, syscallRet_of_nonneg, acceptedBytes]
    exact max_eq_left (by omega)

/-- read_data_len grows by what the device accepts exactly if that is the whole packet. -/
theorem grows_by_accepted_iff (h : Served s ps) :
    GrowsByAccepted s c ↔ WritesWhole s c := by
  have hpos := List.length_pos_of_ne_nil c.packet_ne_nil
  constructor
  · intro hgrows hfits
    obtain ⟨store, status, len, hq⟩ := reaches_readFile h hfits
    have hlen := hgrows store status len hq
    rw [(beforeReadFile_ok hq).2.1, acceptedBytes_eq h hq] at hlen
    cases hc : c.alloc with
    | none =>
      simp only [hc, Option.isSome_none, Bool.false_eq_true, if_false] at hlen
      omega
    | some g =>
      simp only [hc, Option.isSome_some, if_true] at hlen
      exact ⟨rfl, by omega⟩
  · intro hwhole store status len hq
    obtain ⟨hfits, hlen, _⟩ := beforeReadFile_ok hq
    obtain ⟨hsome, hzero⟩ := hwhole hfits
    rw [hlen, acceptedBytes_eq h hq, if_pos hsome, hzero, Nat.zero_min, Nat.sub_zero]

/-- A session that writes its whole packet is one of a client whose write is granted. -/
theorem session_whole (hsome : c.alloc.isSome = true) (hzero : c.uncopied = 0) :
    ∃ g, ∀ fuel s, (writingServer fuel).step s c =
      (deviceServer fuel).step s ⟨c.toArrival, c.fd, g, c.reads⟩ := by
  obtain ⟨g, hg⟩ := Option.isSome_iff_exists.mp hsome
  have hsession : c.session = DeviceClient.session ⟨c.toArrival, c.fd, g, c.reads⟩ := by
    rw [WritingClient.session, hg, hzero, DeviceClient.session]
  exact ⟨g, fun fuel s => congrArg ((server Sys fuel).step s) hsession⟩

theorem session_serves (h : Served s ps) (hwhole : WritesWhole s c)
    (hstep : (writingServer fuel).step s c = some (s', r)) : Served s' (ps ++ [c.packet]) := by
  have hok : threadCallback c.session fuel s = .ok (s', r) := server_step_eq_some.mp hstep
  rw [threadCallback_beforeReadFile] at hok
  obtain ⟨q, hq, _⟩ := bind_eq_ok.mp hok
  obtain ⟨hsome, hzero⟩ := hwhole (beforeReadFile_ok hq).1
  obtain ⟨g, hsame⟩ := session_whole hsome hzero
  exact (session_sends h ((hsame fuel s).symm.trans hstep)).1

/-- A session that finishes has had its whole packet written, or the device would hold
fewer bytes than it asks for. -/
theorem written_of_finishes (h : Served s ps) (hstep : (writingServer fuel).step s c = some (s', r)) :
    c.alloc.isSome = true ∧ c.uncopied = 0 := by
  have hok : threadCallback c.session fuel ⟨s.store, (ps.flatten.length : Nat)⟩ = .ok (s', r) := by
    rw [← h.readDataLen]
    exact server_step_eq_some.mp hstep
  obtain ⟨v, hs, hst, hp⟩ := h.mirrors
  have hback := device_readsBack_view hs c.fd c.alloc c.uncopied c.reads c.packet
  have hasked := threadCallback_asked c.toArrival hback hok
  have hadded := v.size_write_le c.packet c.alloc c.uncopied
  have hsize : v.size ≤ ps.flatten.length := by
    have hkept := (rtake_suffix ps maxWriteOperationsSupported).sublist.flatten.length_le
    rw [DeviceView.size, show v.stored = ps.rtake maxWriteOperationsSupported from hst, hp.sized.size_eq]
    exact hkept
  have hheld : (v.write c.packet c.alloc c.uncopied).stored.flatten.length ≤
      (v.write c.packet c.alloc c.uncopied).size := Nat.le_add_right ..
  have hpos := List.length_pos_of_ne_nil c.packet_ne_nil
  cases hc : c.alloc with
  | none =>
    simp only [hc, Option.isSome_none, Bool.false_eq_true, if_false] at hadded hheld hasked
    omega
  | some g =>
    simp only [hc, Option.isSome_some, if_true, length_accepted] at hadded hheld hasked
    exact ⟨rfl, by omega⟩

/-- So a run serves the packets of all its sessions. -/
theorem run_written {cs : List WritingClient} {rs : List (List Byte)}
    (h : (writingServer fuel).run deviceStart cs = some (s, rs)) : Served s (cs.map fun c => c.packet) := by
  have hkeep := (writingServer fuel).run_keeps (R := fun s ps => Served s ps) (F := fun ps c => ps ++ [c.packet])
    (fun s ps c s' r hserved hstep =>
      session_serves hserved (fun _ => written_of_finishes hserved hstep) hstep) (t := []) served_start h
  rwa [List.foldl_append_eq_append, List.nil_append, ← List.flatMap_def, ← List.map_eq_flatMap] at hkeep

/-- After a whole write that evicts nothing, the device holds as much as read_data_len says. -/
theorem asked_le_held (h : Served s ps) (hwhole : WritesWhole s c)
    (hq : beforeReadFile c.session s = .ok (store, status, len)) (hkeeps : EvictsNothing s c) :
    ∃ held, content store.kernel = some held ∧ len ≤ held.length := by
  obtain ⟨hfits, hlen, r, hstep, _⟩ := beforeReadFile_ok hq
  obtain ⟨hsome, hzero⟩ := hwhole hfits
  obtain ⟨g, hg⟩ := Option.isSome_iff_exists.mp hsome
  have hfreed := hkeeps store r hstep
  rw [hg, hzero] at hstep
  have hm := reopen_mirrors h.mirrors c.fd
  obtain ⟨store', _, hstep', hm', _⟩ := step_write_mirrors hm c.fd c.packet g 0
  obtain ⟨rfl, _⟩ := Prod.mk.inj (Option.some.inj (hstep.symm.trans hstep'))
  rw [accepted_zero, Journal.accept_of_mem (List.mem_append_right _ c.newline_mem), List.nil_append] at hm'
  have hroom : (ps ++ [c.packet]).length ≤ maxWriteOperationsSupported := by
    by_contra hfull
    obtain ⟨v, hs, hst, _⟩ := hm
    apply step_write_evicts hs _ _ hstep hfreed
    · exact List.mem_append_right _ (by rw [accepted_zero]; exact c.newline_mem)
    · rw [show v.stored = ps.rtake maxWriteOperationsSupported from hst, length_rtake]
      rw [List.length_append, List.length_singleton] at hfull
      omega
  refine ⟨(ps ++ [c.packet]).flatten, ?_, ?_⟩
  · rw [content, hm'.storedTexts_eq, Option.map_some, rtake_of_length_le hroom]
  · rw [hlen, h.readDataLen, length_flatten_concat]
    omega

theorem along_grows_iff (fuel : Nat) (cs : List WritingClient) :
    (writingServer fuel).Along GrowsByAccepted deviceStart cs ↔
      (writingServer fuel).Along WritesWhole deviceStart cs := by
  apply (writingServer fuel).along_congr (R := fun s => ∃ ps, Served s ps) _ _ ⟨[], served_start⟩
  · rintro s c ⟨ps, h⟩
    exact grows_by_accepted_iff h
  · rintro s c s' r ⟨ps, h⟩ hwhole hstep
    exact ⟨ps ++ [c.packet], session_serves h hwhole hstep⟩

end Sessions

/-- read_data_len counts what the store accepts exactly as long as every session whose
lengths fit an int has its whole packet written. -/
theorem bytes_accounted_iff (fuel : Nat) (cs : List WritingClient) :
    BytesAccounted fuel cs ↔ (writingServer fuel).Along WritesWhole deviceStart cs := by
  constructor
  · intro hacc
    apply (along_grows_iff fuel cs).mp
    apply (writingServer fuel).along_iff_forall_concat.mpr
    intro done c hpre s rs hrun store status len hq
    exact (hacc done c hpre s rs hrun store status len hq).1
  · intro hall done c hpre s rs hrun store status len hq
    obtain ⟨later, rfl⟩ := hpre
    have hdone := ((writingServer fuel).along_append.mp hall).1
    have hwhole := ((writingServer fuel).along_iff_forall_concat.mp hdone done c List.prefix_rfl s rs hrun)
    obtain ⟨ps, h⟩ := (writingServer fuel).along_keeps (I := fun s _ => ∃ ps, Served s ps)
      (fun s _ c s' r ⟨ps, h⟩ hwhole hstep => ⟨ps ++ [c.packet], session_serves h hwhole hstep⟩)
      [] ⟨[], served_start⟩ ((writingServer fuel).along_append.mp hdone).1 hrun
    refine ⟨(grows_by_accepted_iff h).mpr hwhole store status len hq, fun hkeeps => ?_⟩
    apply asked_le_held h hwhole hq
    exact (writingServer fuel).along_iff_forall_concat.mp hkeeps done c List.prefix_rfl s rs hrun

/-- A client that sends "\n", and a write that fails with -ENOMEM: read_file is asked for a
byte that the device does not hold. -/
theorem failed_write_counted :
    ¬BytesAccounted 1 [⟨⟨[[10]], by decide, by decide⟩, 0, none, 0, ⟨fun _ _ => 0, fun _ _ h => h⟩⟩] := by
  intro h
  obtain ⟨hlen, _⟩ := h [] _ List.prefix_rfl _ _ rfl _ _ _ rfl
  exact absurd hlen (by decide)

end Aesd.Server
