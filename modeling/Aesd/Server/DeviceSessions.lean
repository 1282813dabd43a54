import Aesd.Server.ThreadCallback
import Aesd.Driver.StreamLaw

/-! The server over the char device. read_data_len adds up every packet of every session
while the driver keeps ten entries, so the two agree for the first ten sessions only. -/
namespace Aesd.Server
open Aesd.Foundations Aesd.Driver

/-- A system call returns -1 for every error of the driver. -/
def syscallRet (ret : Int) : Int := if ret < 0 then -1 else ret

def reopen (s : Sys) (fd : Nat) : Sys := { s with files := Function.update s.files fd aesdOpen }

/-- The calls on /dev/aesdchar, through the driver. Closing a file touches nothing else. -/
def deviceCalls (fd : Nat) (alloc : Option Grant) (uncopied : Nat) (reads : ReadSchedule) :
    StoreCalls Sys where
  openAppend s := some (reopen s fd)
  write s packet :=
    match driver.step s (.write fd ⟨some packet, true, alloc, uncopied⟩) with
    | some (s, r) => .ok (s, syscallRet r.ret)
    | none => .error .undefined
  openRead s := some (reopen s fd)
  read i s n :=
    match driver.step s (.read fd ⟨true, n, true, reads.uncopied i⟩) with
    | some (s, r) => .ok (s, syscallRet r.ret, r.data)
    | none => .error .undefined

structure DeviceClient extends Arrival where
  fd : Nat
  grant : Grant
  reads : ReadSchedule

def DeviceClient.session (c : DeviceClient) : Session Sys :=
  .complete (c.chunks.map delivered) (deviceCalls c.fd (some c.grant) 0 c.reads)

def packets (cs : List DeviceClient) : List (List Byte) := cs.map fun c => c.packet

def deviceServer (fuel : Nat) : Machine (ServerState Sys) DeviceClient (List Byte) :=
  ⟨fun s c => (server Sys fuel).step s c.session⟩

def deviceStart : ServerState Sys := ⟨Sys.loaded, 0⟩

def content (k : Kernel) : Option (List Byte) := k.storedTexts.map List.flatten

/-- Every session finishes, within some number of reads, and has then sent exactly what
the device holds, its own packet at the end. -/
def DeviceAnswers (cs : List DeviceClient) : Prop :=
  ∀ done c, done ++ [c] <+: cs → ∃ fuel s rs r,
    (deviceServer fuel).run deviceStart (done ++ [c]) = some (s, rs ++ [r]) ∧
      content s.store.kernel = some r ∧ c.packet <:+ r

section Device
variable {s : Sys} {v : DeviceView} {ps : List (List Byte)} {p : List Byte}

theorem syscallRet_of_nonneg (n : Nat) : syscallRet (n : Int) = n := if_neg (by omega)

theorem reopen_mirrors {j : Journal Byte} (h : Mirrors s j) (fd : Nat) : Mirrors (reopen s fd) j :=
  read_mirrors h fd 0

theorem reopen_shows (h : SysShows s v) (fd : Nat) : SysShows (reopen s fd) v := ⟨h.kernel, update_opened h fd 0⟩

def ShowsAt (fd : Nat) (v : DeviceView) (s : Sys) (q : Nat) : Prop := SysShows s v ∧ (s.files fd).fPos = q

/-- The driver's reads deliver what the view stores, in order. -/
theorem view_serves (fd : Nat) (alloc : Option Grant) (uncopied : Nat) (reads : ReadSchedule) (v : DeviceView) :
    Serves (deviceCalls fd alloc uncopied reads).read (ShowsAt fd v) v.stored.flatten := by
  rintro i s n q ⟨hs, rfl⟩ hq
  have hle := transferred_le v.stored (s.files fd).fPos n (reads.uncopied i)
  have hleft := add_leftAt_le v.stored (s.files fd).fPos hq
  have hs' : SysShows ⟨s.kernel, Function.update s.files fd
      ⟨true, (s.files fd).fPos + transferred v.stored (s.files fd).fPos n (reads.uncopied i)⟩⟩ v :=
    ⟨hs.kernel, update_opened hs fd _⟩
  refine ⟨_, transferred v.stored (s.files fd).fPos n (reads.uncopied i), ?_, ⟨hs', ?_⟩, by omega, by omega,
    fun hn hlt => ?_⟩
  · simp only [deviceCalls, step_read_shows hs fd n (reads.uncopied i)]
    rw [syscallRet_of_nonneg]
  · simp only [Function.update_self]
  · have hzero := leftAt_eq_zero_iff v.stored (s.files fd).fPos
    have hprogress := reads.progress i (min n (leftAt v.stored (s.files fd).fPos)) (by omega)
    simp only [transferred]
    omega

/-- Whatever becomes of its write, a session reads the device back. -/
theorem device_readsBack_view (h : SysShows s v) (fd : Nat) (alloc : Option Grant) (uncopied : Nat)
    (reads : ReadSchedule) (p : List Byte) :
    ReadsBack (deviceCalls fd alloc uncopied reads) s p (v.write p alloc uncopied).stored.flatten
      (ShowsAt fd (v.write p alloc uncopied)) := by
  have hs := reopen_shows h fd
  obtain ⟨k', r, hstep, hv', _⟩ := step_write_shows hs fd p alloc uncopied
  have hs' : SysShows ⟨k', (reopen s fd).files⟩ (v.write p alloc uncopied) := ⟨hv', hs.opened⟩
  refine ⟨reopen s fd, ⟨k', (reopen s fd).files⟩, syscallRet r.ret, reopen ⟨k', (reopen s fd).files⟩ fd, rfl, ?_, rfl,
    ⟨reopen_shows hs' fd, ?_⟩, view_serves fd alloc uncopied reads _⟩
  · simp only [deviceCalls, hstep]
  · simp [reopen, aesdOpen]

def StandsAt (fd : Nat) (ps : List (List Byte)) (s : Sys) (q : Nat) : Prop :=
  Mirrors s ⟨ps, []⟩ ∧ (s.files fd).fPos = q

theorem device_serves (fd : Nat) (alloc : Option Grant) (uncopied : Nat) (reads : ReadSchedule)
    (ps : List (List Byte)) : Serves (deviceCalls fd alloc uncopied reads).read (StandsAt fd ps)
      (ps.rtake maxWriteOperationsSupported).flatten := by
  rintro i s n q ⟨⟨v, hs, hst, hp⟩, hpos⟩ hq
  rw [← show v.stored = ps.rtake maxWriteOperationsSupported from hst] at hq ⊢
  obtain ⟨s', k, hread, ⟨hs', hpos'⟩, hrest⟩ := view_serves fd alloc uncopied reads v i s n q ⟨hs, hpos⟩ hq
  exact ⟨s', k, hread, ⟨⟨v, hs', hst, hp⟩, hpos'⟩, hrest⟩

/-- A session's packet ends what is pending, and the device reads back as the last ten entries. -/
theorem device_readsBack_journal {j : Journal Byte} (h : Mirrors s j) (hp : newline ∈ p) (fd : Nat)
    (grant : Grant) (reads : ReadSchedule) :
    ReadsBack (deviceCalls fd (some grant) 0 reads) s p
      ((j.committed ++ [j.pending ++ p]).rtake maxWriteOperationsSupported).flatten
      (StandsAt fd (j.committed ++ [j.pending ++ p])) := by
  obtain ⟨s', r, hstep, hm, _⟩ := step_write_mirrors (reopen_mirrors h fd) fd p grant 0
  rw [accepted_zero, Journal.accept_of_mem (List.mem_append_right _ hp)] at hm
  refine ⟨reopen s fd, s', syscallRet r.ret, reopen s' fd, rfl, ?_, rfl, ⟨reopen_mirrors hm fd, ?_⟩,
    device_serves fd _ _ reads _⟩
  · simp only [deviceCalls, hstep]
  · simp [reopen, aesdOpen]

/-- A session's packet becomes the newest entry, and the device reads back as the last ten. -/
theorem device_readsBack (h : Mirrors s ⟨ps, []⟩) (hp : newline ∈ p) (fd : Nat) (grant : Grant)
    (reads : ReadSchedule) :
    ReadsBack (deviceCalls fd (some grant) 0 reads) s p
      ((ps ++ [p]).rtake maxWriteOperationsSupported).flatten (StandsAt fd (ps ++ [p])) :=
  device_readsBack_journal h hp fd grant reads

end Device

structure Served (s : ServerState Sys) (ps : List (List Byte)) : Prop where
  mirrors : Mirrors s.store ⟨ps, []⟩
  readDataLen : s.readDataLen = ps.flatten.length

section Sessions
variable {s s' : ServerState Sys} {ps : List (List Byte)} {c : DeviceClient} {fuel : Nat} {r : List Byte}

private theorem packets_append (cs ds : List DeviceClient) : packets (cs ++ ds) = packets cs ++ packets ds :=
  List.map_append

private theorem packets_concat (cs : List DeviceClient) (c : DeviceClient) :
    packets (cs ++ [c]) = packets cs ++ [c.packet] := packets_append cs [c]

private theorem length_packets (cs : List DeviceClient) : (packets cs).length = cs.length := List.length_map _

theorem served_start : Served deviceStart [] := ⟨mirrors_loaded, rfl⟩

theorem Served.content_eq (h : Served s ps) :
    content s.store.kernel = some (ps.rtake maxWriteOperationsSupported).flatten := by
  rw [content, h.mirrors.storedTexts_eq, Option.map_some]

private theorem Served.callback_ok (h : Served s ps) (hstep : (deviceServer fuel).step s c = some (s', r)) :
    threadCallback c.session fuel ⟨s.store, (ps.flatten.length : Nat)⟩ = .ok (s', r) := by
  rw [← h.readDataLen]
  exact server_step_eq_some.mp hstep

/-- A session that finishes has sent as many bytes as all packets have. -/
theorem session_sends (h : Served s ps) (hstep : (deviceServer fuel).step s c = some (s', r)) :
    Served s' (ps ++ [c.packet]) ∧ c.packet.length + recvLen ≤ intMax ∧
      ps.flatten.length + c.packet.length ≤ intMax ∧ r.length = ps.flatten.length + c.packet.length := by
  have hback := device_readsBack h.mirrors c.newline_mem c.fd c.grant c.reads
  obtain ⟨hpacket, hmax, hlen, hr, q, hm, _⟩ := threadCallback_ok c.toArrival hback (h.callback_ok hstep)
  exact ⟨⟨hm, by rw [hlen, length_flatten_concat]⟩, hpacket, hmax, hr⟩

/-- If none of the packets has been evicted there are at most ten. -/
theorem packets_le_ten {ps : List (List Byte)} (hne : ∀ p ∈ ps, p ≠ [])
    (h : (ps.rtake maxWriteOperationsSupported).flatten.length = ps.flatten.length) :
    ps.length ≤ maxWriteOperationsSupported := by
  have hsplit := congrArg (fun l => l.flatten.length) (rdrop_append_rtake ps maxWriteOperationsSupported)
  simp only [List.flatten_append, List.length_append] at hsplit
  have hold : (ps.rdrop maxWriteOperationsSupported).flatten = [] :=
    List.eq_nil_of_length_eq_zero (by omega)
  have hnone : ps.rdrop maxWriteOperationsSupported = [] := by
    apply List.eq_nil_iff_forall_not_mem.mpr
    intro p hp
    exact hne p ((List.take_prefix _ _).subset hp) (List.flatten_eq_nil_iff.mp hold p hp)
  have hlen := length_rdrop ps maxWriteOperationsSupported
  rw [hnone, List.length_nil] at hlen
  omega

/-- A session that finishes is one of the first ten: the device holds no more entries. -/
theorem session_within_ten (h : Served s ps) (hne : ∀ p ∈ ps, p ≠ [])
    (hstep : (deviceServer fuel).step s c = some (s', r)) : ps.length < maxWriteOperationsSupported := by
  have hback := device_readsBack h.mirrors c.newline_mem c.fd c.grant c.reads
  have hasked := threadCallback_asked c.toArrival hback (h.callback_ok hstep)
  have hten : (ps ++ [c.packet]).length ≤ maxWriteOperationsSupported := by
    apply packets_le_ten
    · intro p hp
      rcases List.mem_append.mp hp with hp | hp
      · exact hne p hp
      · rw [List.mem_singleton.mp hp]
        exact c.packet_ne_nil
    · apply Nat.le_antisymm
      · exact ((rtake_suffix _ _).flatten).length_le
      · rwa [length_flatten_concat]
  rwa [List.length_append, List.length_singleton] at hten

/-- Up to the tenth packet a session finishes with all packets so far. -/
theorem session_answers (h : Served s ps) (hten : ps.length < maxWriteOperationsSupported)
    (hpacket : c.packet.length + recvLen ≤ intMax) (hmax : ps.flatten.length + c.packet.length ≤ intMax)
    (hfuel : ps.flatten.length + c.packet.length < fuel) :
    ∃ s', (deviceServer fuel).step s c = some (s', (ps ++ [c.packet]).flatten) ∧
      Served s' (ps ++ [c.packet]) := by
  have hback := device_readsBack h.mirrors c.newline_mem c.fd c.grant c.reads
  have hlen := length_flatten_concat ps c.packet
  rw [rtake_of_length_le (by rw [List.length_append]; exact hten)] at hback
  obtain ⟨st, hcall, q, hm, _⟩ := threadCallback_whole c.toArrival hback hpacket hlen (by omega)
    (show _ < fuel by omega)
  rw [← h.readDataLen] at hcall
  exact ⟨⟨st, ((ps ++ [c.packet]).flatten.length : Nat)⟩, server_step_eq_some.mpr hcall, hm, rfl⟩

end Sessions

section Runs
variable {cs : List DeviceClient} {fuel : Nat}

/-- Sessions that have all finished have had packets that fit, and the device has committed them. -/
theorem run_sends {s : ServerState Sys} {rs : List (List Byte)}
    (h : (deviceServer fuel).run deviceStart cs = some (s, rs)) :
    Served s (packets cs) ∧ Fits (packets cs) := by
  have hkeep := (deviceServer fuel).run_keeps
    (R := fun s ps => Served s ps ∧ Fits ps) (F := fun ps c => ps ++ [c.packet])
    (fun s ps c s' r hR hstep => by
      obtain ⟨hserved, hpacket, hmax, _⟩ := session_sends hR.1 hstep
      exact ⟨hserved, fits_concat.mpr ⟨hR.2.1, hpacket, hmax⟩⟩)
    (t := []) ⟨served_start, by simp [Fits]⟩ h
  rwa [List.foldl_append_eq_append, List.nil_append, ← List.flatMap_def, ← List.map_eq_flatMap] at hkeep

/-- Up to ten sessions finish as long as their packets fit. -/
theorem run_answers (cs : List DeviceClient) (fuel : Nat) (hten : cs.length ≤ maxWriteOperationsSupported)
    (hfits : Fits (packets cs)) (hfuel : (packets cs).flatten.length < fuel) :
    ∃ s rs, (deviceServer fuel).run deviceStart cs = some (s, rs) ∧ Served s (packets cs) := by
  induction cs using List.reverseRecOn with
  | nil => exact ⟨_, [], rfl, served_start⟩
  | append_singleton cs c ih =>
    rw [packets_concat] at hfits hfuel ⊢
    rw [List.length_append, List.length_singleton] at hten
    rw [length_flatten_concat] at hfuel
    obtain ⟨hall, hpacket, hmax⟩ := fits_concat.mp hfits
    obtain ⟨s, rs, hrun, hserved⟩ := ih (by omega) ⟨hall, by omega⟩ (by omega)
    obtain ⟨s', hstep, hserved'⟩ := session_answers hserved (by rw [length_packets]; omega) hpacket hmax hfuel
    exact ⟨s', rs ++ [_], by rw [Machine.run_concat _ hrun, hstep]; rfl, hserved'⟩

/-- Where every session answers with the whole device there are at most ten, with packets
that fit. -/
theorem DeviceAnswers.bounds (h : DeviceAnswers cs) :
    cs.length ≤ maxWriteOperationsSupported ∧ Fits (packets cs) := by
  rcases List.eq_nil_or_concat cs with rfl | ⟨done, c, rfl⟩
  · exact ⟨Nat.zero_le _, by simp [Fits, packets]⟩
  · rw [List.concat_eq_append] at h ⊢
    obtain ⟨fuel, s, rs, r, hrun, hcontent, _⟩ := h done c List.prefix_rfl
    obtain ⟨hserved, hfits⟩ := run_sends hrun
    obtain ⟨s₁, rs₁, r₁, hdone, hstep, hrs⟩ := Machine.run_concat_eq_some _ hrun
    obtain ⟨_, rfl⟩ := List.append_singleton_inj.mp hrs
    obtain ⟨_, _, _, hr⟩ := session_sends (run_sends hdone).1 hstep
    refine ⟨?_, hfits⟩
    rw [hserved.content_eq] at hcontent
    rw [← length_packets]
    apply packets_le_ten
    · intro p hp
      obtain ⟨d, _, rfl⟩ := List.mem_map.mp hp
      exact d.packet_ne_nil
    · rw [Option.some.inj hcontent, hr, packets_concat, length_flatten_concat]

end Runs

/-- Every session answers with the content of the device exactly as long as there are no
more than ten of them and no length exceeds what an int holds. -/
theorem device_sessions_answer_iff (cs : List DeviceClient) :
    DeviceAnswers cs ↔ cs.length ≤ maxWriteOperationsSupported ∧ Fits (packets cs) := by
  refine ⟨DeviceAnswers.bounds, ?_⟩
  rintro ⟨hten, hfits⟩ done c ⟨later, rfl⟩
  rw [List.length_append, List.length_append, List.length_singleton] at hten
  rw [packets_append, packets_concat] at hfits
  obtain ⟨hall, hpacket, hmax⟩ := fits_concat.mp hfits.left
  obtain ⟨s, rs, hrun, hserved⟩ := run_answers done
    ((packets done).flatten.length + c.packet.length + 1) (by omega) ⟨hall, by omega⟩ (by omega)
  obtain ⟨s', hstep, hserved'⟩ := session_answers hserved (by rw [length_packets]; omega) hpacket hmax
    (Nat.lt_succ_self _)
  refine ⟨_, s', rs, _, by rw [Machine.run_concat _ hrun, hstep]; rfl, ?_, ?_⟩
  · have hkept : (packets done ++ [c.packet]).length ≤ maxWriteOperationsSupported := by
      rw [List.length_append, length_packets, List.length_singleton]
      omega
    rw [hserved'.content_eq, rtake_of_length_le hkept]
  · rw [List.flatten_append, List.flatten_singleton]
    exact List.suffix_append _ _

/-- Eleven clients that send "\n" each: the device holds ten bytes, read_file waits for eleven. -/
theorem device_eleventh_session_unanswered :
    ¬DeviceAnswers (List.replicate 11
      ⟨⟨[[10]], by decide, by decide⟩, 0, .above 0, ⟨fun _ _ => 0, fun _ _ h => h⟩⟩) := by
  intro h
  have hten := h.bounds.1
  rw [List.length_replicate] at hten
  exact absurd hten (by decide)

end Aesd.Server
