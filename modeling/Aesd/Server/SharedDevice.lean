import Aesd.Server.DeviceSessions

/-! The server over a device that others write to, before it starts and between its
sessions. Starting empties nothing, and read_data_len counts the server's own packets
from zero, so it is the length of the device only while nobody else has written a byte. -/
namespace Aesd.Server
open Aesd.Foundations Aesd.Driver

/-- create_new_file opens the device and closes it again; the driver's open truncates nothing. -/
def createNewFile (s : Sys) (fd : Nat) : Sys := reopen s fd

def sharedStart (earlier : List DeviceWrite) (fd : Nat) : Option (ServerState Sys) :=
  (driver.run Sys.loaded (earlier.map DeviceWrite.op)).map fun p => ⟨createNewFile p.1 fd, 0⟩

/-- A session of the server, or a write by another process. -/
inductive SharedEvent where
  | session : DeviceClient → SharedEvent
  | other : DeviceWrite → SharedEvent

def sharedServer (fuel : Nat) : Machine (ServerState Sys) SharedEvent (Option (List Byte)) where
  step s
    | .session c => ((deviceServer fuel).step s c).map fun q => (q.1, some q.2)
    | .other w => (driver.step s.store w.op).map fun q => ({ s with store := q.1 }, none)

def SharedEvent.chunk : SharedEvent → List Byte
  | .session c => c.packet
  | .other w => w.chunk

def ownPackets (es : List SharedEvent) : List (List Byte) :=
  es.filterMap fun
    | .session c => some c.packet
    | .other _ => none

def otherChunks (es : List SharedEvent) : List (List Byte) :=
  es.filterMap fun
    | .session _ => none
    | .other w => some w.chunk

/-- What the device has accepted after the earlier writes and these events. -/
def sharedJournal (earlier : List DeviceWrite) (es : List SharedEvent) : Journal Byte :=
  (earlier.map DeviceWrite.chunk ++ es.map SharedEvent.chunk).foldl (Journal.accept newline) .empty

/-- Every session answers with the whole content of the device, its own packet last. -/
def SharedAnswers (earlier : List DeviceWrite) (fd : Nat) (es : List SharedEvent) : Prop :=
  ∀ done c, done ++ [.session c] <+: es → ∃ fuel s₀ s rs r, sharedStart earlier fd = some s₀ ∧
    (sharedServer fuel).run s₀ (done ++ [.session c]) = some (s, rs ++ [some r]) ∧
      content s.store.kernel = some r ∧ c.packet <:+ r

/-- Before a session nobody but the server has written a byte, and the packets up to it fit. -/
def OnlyServerWrites (earlier : List DeviceWrite) (es : List SharedEvent) : Prop :=
  ∀ done c, done ++ [.session c] <+: es →
    (earlier.map DeviceWrite.chunk ++ otherChunks done).flatten = [] ∧ Fits (ownPackets done ++ [c.packet])

structure Shared (s : ServerState Sys) (j : Journal Byte) (ps : List (List Byte)) : Prop where
  mirrors : Mirrors s.store j
  readDataLen : s.readDataLen = ps.flatten.length

section Journal
variable {earlier : List DeviceWrite} {es done : List SharedEvent} {c : DeviceClient}

theorem sharedJournal_concat (earlier : List DeviceWrite) (es : List SharedEvent) (e : SharedEvent) :
    sharedJournal earlier (es ++ [e]) = (sharedJournal earlier es).accept newline e.chunk := by
  simp [sharedJournal, ← List.append_assoc]

theorem sharedJournal_session (earlier : List DeviceWrite) (es : List SharedEvent) (c : DeviceClient) :
    sharedJournal earlier (es ++ [.session c]) =
      ⟨(sharedJournal earlier es).committed ++ [(sharedJournal earlier es).pending ++ c.packet], []⟩ := by
  rw [sharedJournal_concat, SharedEvent.chunk, Journal.accept_of_mem (List.mem_append_right _ c.newline_mem)]

theorem committed_initial (earlier : List DeviceWrite) (h : done <+: es) :
    (sharedJournal earlier done).committed <+: (sharedJournal earlier es).committed := by
  obtain ⟨later, rfl⟩ := h
  have hsplit : sharedJournal earlier (done ++ later) =
      (later.map SharedEvent.chunk).foldl (Journal.accept newline) (sharedJournal earlier done) := by
    simp [sharedJournal]
  rw [hsplit]
  exact Journal.committed_prefix_foldl newline _ _

theorem ownPackets_session (es : List SharedEvent) (c : DeviceClient) :
    ownPackets (es ++ [.session c]) = ownPackets es ++ [c.packet] := by simp [ownPackets]

theorem ownPackets_other (es : List SharedEvent) (w : DeviceWrite) :
    ownPackets (es ++ [.other w]) = ownPackets es := by simp [ownPackets]

/-- The stream of the device is what the others wrote and what the sessions sent. -/
theorem length_sharedJournal_stream (earlier : List DeviceWrite) (es : List SharedEvent) :
    (sharedJournal earlier es).stream.length =
      (earlier.map DeviceWrite.chunk ++ otherChunks es).flatten.length + (ownPackets es).flatten.length := by
  have hparts : (es.map SharedEvent.chunk).flatten.length =
      (otherChunks es).flatten.length + (ownPackets es).flatten.length := by
    induction es with
    | nil => rfl
    | cons e es ih =>
      rw [List.map_cons, List.flatten_cons, List.length_append, ih]
      cases e with
      | session c => simp [SharedEvent.chunk, otherChunks, ownPackets, Nat.add_left_comm]
      | other w => simp [SharedEvent.chunk, otherChunks, ownPackets, Nat.add_assoc]
  rw [sharedJournal, Journal.stream_foldl, Journal.stream, Journal.empty, List.flatten_nil, List.nil_append,
    List.nil_append, List.flatten_append, List.flatten_append, List.length_append, List.length_append, hparts,
    Nat.add_assoc]

end Journal

section Step
variable {s s' : ServerState Sys} {j : Journal Byte} {ps : List (List Byte)} {c : DeviceClient} {fuel : Nat}

theorem other_writes (fuel : Nat) (h : Shared s j ps) (w : DeviceWrite) :
    ∃ s', (sharedServer fuel).step s (.other w) = some (s', none) ∧ Shared s' (j.accept newline w.chunk) ps := by
  obtain ⟨st, r, hstep, hm, _⟩ := step_write_mirrors h.mirrors w.file w.buf w.grant w.uncopied
  refine ⟨{ s with store := st }, ?_, hm, h.readDataLen⟩
  simp only [sharedServer, DeviceWrite.op, hstep, Option.map_some]

/-- A session that finishes has sent as many bytes as the packets have, not the device. -/
theorem shared_session_sends (h : Shared s j ps) {o : Option (List Byte)}
    (hstep : (sharedServer fuel).step s (.session c) = some (s', o)) :
    Shared s' ⟨j.committed ++ [j.pending ++ c.packet], []⟩ (ps ++ [c.packet]) ∧
      c.packet.length + recvLen ≤ intMax ∧ ps.flatten.length + c.packet.length ≤ intMax ∧
      ∃ r, o = some r ∧ r.length = ps.flatten.length + c.packet.length := by
  have hback := device_readsBack_journal h.mirrors c.newline_mem c.fd c.grant c.reads
  obtain ⟨⟨s₁, r⟩, hserver, ho⟩ := Option.map_eq_some_iff.mp hstep
  obtain ⟨rfl, rfl⟩ := Prod.mk.inj ho
  have hok : threadCallback c.session fuel ⟨s.store, (ps.flatten.length : Nat)⟩ = .ok (s₁, r) := by
    rw [← h.readDataLen]
    exact server_step_eq_some.mp hserver
  obtain ⟨hpacket, hmax, hlen, hr, q, hm, _⟩ := threadCallback_ok c.toArrival hback hok
  exact ⟨⟨hm, by rw [hlen, length_flatten_concat]⟩, hpacket, hmax, r, rfl, hr⟩

/-- A session finishes with the whole device when its stream is as long as the packets. -/
theorem shared_session_answers (h : Shared s j ps) (hstream : j.stream.length = ps.flatten.length)
    (hten : j.committed.length < maxWriteOperationsSupported) (hpacket : c.packet.length + recvLen ≤ intMax)
    (hmax : ps.flatten.length + c.packet.length ≤ intMax)
    (hfuel : ps.flatten.length + c.packet.length < fuel) :
    ∃ s', (sharedServer fuel).step s (.session c) = some (s', some (j.stream ++ c.packet)) ∧
      Shared s' ⟨j.committed ++ [j.pending ++ c.packet], []⟩ (ps ++ [c.packet]) := by
  have hback := device_readsBack_journal h.mirrors c.newline_mem c.fd c.grant c.reads
  rw [rtake_of_length_le (by rw [List.length_append]; exact hten), List.flatten_append, List.flatten_singleton,
    ← List.append_assoc, ← Journal.stream] at hback
  have hlen : (j.stream ++ c.packet).length = ps.flatten.length + c.packet.length := by
    rw [List.length_append, hstream]
  obtain ⟨st, hcall, q, hm, _⟩ := threadCallback_whole c.toArrival hback hpacket hlen (by omega)
    (show _ < fuel by omega)
  rw [← h.readDataLen] at hcall
  refine ⟨⟨st, ((j.stream ++ c.packet).length : Nat)⟩, ?_, hm, ?_⟩
  · exact Option.map_eq_some_iff.mpr ⟨_, server_step_eq_some.mpr hcall, rfl⟩
  · rw [length_flatten_concat]
    exact congrArg Nat.cast hlen

theorem Shared.content_eq (h : Shared s j ps) (hten : j.committed.length ≤ maxWriteOperationsSupported) :
    content s.store.kernel = some j.committed.flatten := by
  rw [content, h.mirrors.storedTexts_eq, Option.map_some, rtake_of_length_le hten]

end Step

section Runs
variable {earlier : List DeviceWrite} {es done : List SharedEvent} {c : DeviceClient} {fuel : Nat}

theorem sharedStart_shared (earlier : List DeviceWrite) (fd : Nat) :
    ∃ s₀, sharedStart earlier fd = some s₀ ∧ Shared s₀ (sharedJournal earlier []) [] := by
  obtain ⟨s, rs, hrun, hm, _⟩ := run_writes_mirror mirrors_loaded earlier
  refine ⟨⟨createNewFile s fd, 0⟩, by rw [sharedStart, hrun, Option.map_some], reopen_mirrors ?_ fd, rfl⟩
  rwa [sharedJournal, List.map_nil, List.append_nil]

/-- The device has what all writers gave it, and read_data_len counts the server's packets. -/
theorem run_shared {s₀ s : ServerState Sys} {rs : List (Option (List Byte))}
    (h₀ : Shared s₀ (sharedJournal earlier []) []) (h : (sharedServer fuel).run s₀ es = some (s, rs)) :
    Shared s (sharedJournal earlier es) (ownPackets es) ∧ Fits (ownPackets es) := by
  induction es using List.reverseRecOn generalizing s rs with
  | nil =>
    obtain ⟨rfl, _⟩ := Prod.mk.inj (Option.some.inj h)
    exact ⟨h₀, by simp [Fits, ownPackets]⟩
  | append_singleton es e ih =>
    obtain ⟨s₁, rs₁, o, hrun, hstep, _⟩ := Machine.run_concat_eq_some _ h
    obtain ⟨hshared, hfits⟩ := ih hrun
    cases e with
    | session c =>
      rw [sharedJournal_session, ownPackets_session]
      obtain ⟨hshared', hpacket, hmax, _⟩ := shared_session_sends hshared hstep
      exact ⟨hshared', fits_concat.mpr ⟨hfits.1, hpacket, hmax⟩⟩
    | other w =>
      obtain ⟨s', hstep', hshared'⟩ := other_writes fuel hshared w
      obtain ⟨rfl, _⟩ := Prod.mk.inj (Option.some.inj (hstep.symm.trans hstep'))
      rw [sharedJournal_concat, ownPackets_other]
      exact ⟨hshared', hfits⟩

theorem OnlyServerWrites.left (h : OnlyServerWrites earlier es) (hpre : done <+: es) :
    OnlyServerWrites earlier done := fun before c hc => h before c (hc.trans hpre)

/-- Events of which the sessions are undisturbed all happen. -/
theorem run_undisturbed (fuel : Nat) {s₀ : ServerState Sys} (h₀ : Shared s₀ (sharedJournal earlier []) [])
    (halone : OnlyServerWrites earlier es)
    (hten : (sharedJournal earlier es).committed.length ≤ maxWriteOperationsSupported)
    (hfuel : (ownPackets es).flatten.length < fuel) :
    ∃ s rs, (sharedServer fuel).run s₀ es = some (s, rs) := by
  induction es using List.reverseRecOn with
  | nil => exact ⟨s₀, [], rfl⟩
  | append_singleton es e ih =>
    have hpre : es <+: es ++ [e] := List.prefix_append es [e]
    have hcommitted := (committed_initial earlier hpre).length_le
    cases e with
    | session c =>
      obtain ⟨hothers, hfits⟩ := halone es c List.prefix_rfl
      obtain ⟨_, hpacket, hmax⟩ := fits_concat.mp hfits
      rw [ownPackets_session, length_flatten_concat] at hfuel
      obtain ⟨s, rs, hrun⟩ := ih (halone.left hpre) (by omega) (by omega)
      obtain ⟨hshared, _⟩ := run_shared h₀ hrun
      have hstream := length_sharedJournal_stream earlier es
      rw [hothers, List.length_nil, Nat.zero_add] at hstream
      rw [sharedJournal_session, List.length_append, List.length_singleton] at hten
      obtain ⟨s', hstep, _⟩ := shared_session_answers hshared hstream hten hpacket hmax hfuel
      exact ⟨s', rs ++ [_], by rw [Machine.run_concat _ hrun, hstep]; rfl⟩
    | other w =>
      rw [ownPackets_other] at hfuel
      obtain ⟨s, rs, hrun⟩ := ih (halone.left hpre) (by omega) hfuel
      obtain ⟨s', hstep, _⟩ := other_writes fuel (run_shared h₀ hrun).1 w
      exact ⟨s', rs ++ [_], by rw [Machine.run_concat _ hrun, hstep]; rfl⟩

/-- An answer with the whole device is as long as the packets, so nobody else has written. -/
theorem SharedAnswers.onlyServerWrites {fd : Nat} (h : SharedAnswers earlier fd es)
    (hten : (sharedJournal earlier es).committed.length ≤ maxWriteOperationsSupported) :
    OnlyServerWrites earlier es := by
  intro done c hpre
  obtain ⟨fuel, s₀, s, rs, r, hstart, hrun, hcontent, _⟩ := h done c hpre
  obtain ⟨s₀', hstart', h₀⟩ := sharedStart_shared earlier fd
  obtain rfl : s₀ = s₀' := Option.some.inj (hstart.symm.trans hstart')
  obtain ⟨s₁, rs₁, o, hdone, hstep, hrs⟩ := Machine.run_concat_eq_some _ hrun
  obtain ⟨_, ho⟩ := List.append_singleton_inj.mp hrs
  obtain ⟨hshared, hfits⟩ := run_shared h₀ hdone
  obtain ⟨hshared', hpacket, hmax, r', hr', hlen⟩ := shared_session_sends hshared hstep
  obtain rfl : r = r' := Option.some.inj (ho.trans hr')
  have hcount := (committed_initial earlier hpre).length_le.trans hten
  rw [sharedJournal_session] at hcount
  rw [hshared'.content_eq hcount, List.flatten_append, List.flatten_singleton, ← List.append_assoc,
    ← Journal.stream] at hcontent
  have hlength := congrArg List.length (Option.some.inj hcontent)
  have hstream := length_sharedJournal_stream earlier done
  rw [List.length_append] at hlength
  exact ⟨List.eq_nil_of_length_eq_zero (by omega), fits_concat.mpr ⟨hfits.1, hpacket, hmax⟩⟩

end Runs

/-- Sessions answer with the whole device exactly when nobody else has written a byte
before any of them, as long as no more than ten entries are stored in all. -/
theorem shared_device_answers_iff (earlier : List DeviceWrite) (fd : Nat) (es : List SharedEvent)
    (hten : (sharedJournal earlier es).committed.length ≤ maxWriteOperationsSupported) :
    SharedAnswers earlier fd es ↔ OnlyServerWrites earlier es := by
  refine ⟨fun h => h.onlyServerWrites hten, ?_⟩
  intro halone done c hpre
  have hbefore : done <+: es := (List.prefix_append done [.session c]).trans hpre
  have hcount := (committed_initial earlier hpre).length_le.trans hten
  rw [sharedJournal_session] at hcount
  obtain ⟨hothers, hfits⟩ := halone done c hpre
  obtain ⟨_, hpacket, hmax⟩ := fits_concat.mp hfits
  have hstream := length_sharedJournal_stream earlier done
  rw [hothers, List.length_nil, Nat.zero_add] at hstream
  obtain ⟨s₀, hstart, h₀⟩ := sharedStart_shared earlier fd
  obtain ⟨s, rs, hrun⟩ := run_undisturbed ((ownPackets done).flatten.length + c.packet.length + 1) h₀
    (halone.left hbefore) ((committed_initial earlier hbefore).length_le.trans hten) (by omega)
  rw [List.length_append, List.length_singleton] at hcount
  obtain ⟨s', hstep, hshared⟩ := shared_session_answers (run_shared h₀ hrun).1 hstream hcount hpacket hmax
    (Nat.lt_succ_self _)
  refine ⟨_, s₀, s', rs, _, hstart, by rw [Machine.run_concat _ hrun, hstep]; rfl, ?_, List.suffix_append _ _⟩
  rw [hshared.content_eq (by rwa [List.length_append, List.length_singleton]), List.flatten_append,
    List.flatten_singleton, ← List.append_assoc, Journal.stream]

/-- A session and then another writer's command, on a device that was empty. -/
theorem shared_device_session_first :
    SharedAnswers [] 0 [.session ⟨⟨[[97, 10]], by decide, by decide⟩, 0, .above 0, ⟨fun _ _ => 0, fun _ _ h => h⟩⟩,
      .other ⟨1, [98, 10], .above 0, 0⟩] := by
  refine (shared_device_answers_iff _ _ _ (by decide)).mpr fun done c hpre => ?_
  obtain ⟨later, h⟩ := hpre
  cases done with
  | nil =>
    obtain ⟨hc, _⟩ := List.cons.inj h
    obtain rfl := SharedEvent.session.inj hc
    exact ⟨rfl, by unfold Fits; decide⟩
  | cons e done =>
    obtain ⟨_, h⟩ := List.cons.inj h
    cases done with
    | nil => exact absurd (List.cons.inj h).1 (by simp)
    | cons e' done =>
      obtain ⟨_, h⟩ := List.cons.inj h
      exact absurd h (by simp)

/-- The device holds "x\n" when the server starts, and a client sends "a\n": two of the
four bytes come back. -/
theorem shared_device_content_unanswered :
    ¬SharedAnswers [⟨0, [120, 10], .above 0, 0⟩] 0
      [.session ⟨⟨[[97, 10]], by decide, by decide⟩, 0, .above 0, ⟨fun _ _ => 0, fun _ _ h => h⟩⟩] := by
  intro h
  obtain ⟨hothers, _⟩ := h.onlyServerWrites (by decide) [] _ List.prefix_rfl
  exact absurd hothers (by decide)

end Aesd.Server
