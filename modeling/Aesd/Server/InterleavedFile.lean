import Aesd.Server.SessionPackets
import Aesd.Server.TickedSessions

/-! The server that is built with the timer: its threads and its handlers share a regular file.
In any order of theirs, a client gets as many bytes of the file as the packets so far have;
what the ticks have added, as much is missing at the end. -/
namespace Aesd.Server
open Aesd.Foundations Aesd.Driver

/-- The server's threads and handlers over a file that create_new_file empties. -/
def threadsOnFile (timer : Bool) (settings alarms : Nat → FileSetting) :
    Machine (Proc × Shelf RegularFile × Nat) Input (Option (Actor × Act)) :=
  ticking timer (fun _ => ⟨[], 0⟩) (fun k => (settings k).calls) fun n => (alarms n).calls

/-- Everything that the writes of these sessions and ticks have appended. -/
def fileLog (settings alarms : Nat → FileSetting) (os : Trace) (hs : List ((Nat × List Byte) ⊕ List Byte)) :
    List Byte :=
  (hs.mapIdx fun n =>
    Sum.elim (fun r => (settings r.1).kept (packetBy os r.1)) fun line => (alarms n).kept line).flatten

def packetBytes (os : Trace) (hs : List ((Nat × List Byte) ⊕ List Byte)) : Nat :=
  (hs.map (Sum.elim (fun r => (packetBy os r.1).length) fun _ => 0)).sum

section File
variable {settings alarms : Nat → FileSetting} {os : Trace} {hs : List ((Nat × List Byte) ⊕ List Byte)}
  {fuel : Nat} {server serial : ServerState RegularFile}

theorem appendLine_keeps (e : FileSetting) (line : List Byte) :
    ∃ s, appendLine e.calls line server = .ok ⟨s, server.readDataLen⟩ ∧
      s.content = server.store.content ++ e.kept line := by
  obtain ⟨accepts, reads⟩ := e
  cases accepts with
  | none => exact ⟨server.store, rfl, by simp [FileSetting.kept]⟩
  | some n => exact ⟨_, rfl, rfl⟩

theorem fileLog_concat (settings alarms : Nat → FileSetting) (os : Trace) (hs : List ((Nat × List Byte) ⊕ List Byte))
    (e : (Nat × List Byte) ⊕ List Byte) : fileLog settings alarms os (hs ++ [e]) = fileLog settings alarms os hs ++
      Sum.elim (fun r => (settings r.1).kept (packetBy os r.1)) (fun line => (alarms hs.length).kept line) e := by
  rw [fileLog, List.mapIdx_concat, List.flatten_append, List.flatten_singleton]
  rfl

theorem packetBytes_concat (os : Trace) (hs : List ((Nat × List Byte) ⊕ List Byte))
    (e : (Nat × List Byte) ⊕ List Byte) : packetBytes os (hs ++ [e]) =
      packetBytes os hs + Sum.elim (fun r => (packetBy os r.1).length) (fun _ => 0) e := by
  simp [packetBytes]

/-- A session that finishes sends the file as far as the packets, its own included, count. -/
theorem clock_session {q : Nat × List Byte} {chunks : List (List Byte)} {packet : List Byte}
    (hreceived : ∀ p, receivePacket true (chunks.map delivered) = .ok p → p = packet)
    (hstep : (clockServer RegularFile fuel).step server
      (.session (.complete (chunks.map delivered) (settings q.1).calls)) = some (serial, some q.2)) :
    serial.store.content = server.store.content ++ (settings q.1).kept packet ∧
      serial.readDataLen = server.readDataLen + packet.length ∧ ∃ n : Nat, serial.readDataLen = n ∧
        n ≤ serial.store.content.length ∧ q.2 = serial.store.content.take n := by
  obtain ⟨⟨s, response⟩, hserver, ho⟩ := Option.map_eq_some_iff.mp hstep
  obtain ⟨rfl, hresponse⟩ := Prod.mk.inj ho
  obtain rfl := Option.some.inj hresponse
  have hok : callback (settings q.1).calls fuel server chunks = .ok (s, q.2) := server_step_eq_some.mp hserver
  have hfinishes := hok
  rw [callback_eq] at hfinishes
  obtain ⟨p, hreceive, _⟩ := bind_eq_ok.mp hfinishes
  obtain rfl := hreceived p hreceive
  obtain ⟨hlen, ⟨_, hcontent, _⟩, hsends⟩ := callback_sends hreceive (kept_readsBack _ _ _) hok
  rw [hcontent]
  exact ⟨rfl, hlen, hsends⟩

/-- The server that does one thing at a time, on the file. -/
theorem clock_log (hreceived : ∀ q, .inl q ∈ hs → ∀ packet,
      receivePacket true ((chunksOf (callsOf os q.1)).map delivered) = .ok packet → packet = packetBy os q.1)
    (hrun : (clockServer RegularFile fuel).run ⟨⟨[], 0⟩, 0⟩
      (hs.mapIdx (occurrence (fun k => (settings k).calls) (fun n => (alarms n).calls) os)) =
        some (serial, hs.map answer)) :
    serial.store.content = fileLog settings alarms os hs ∧ serial.readDataLen = packetBytes os hs ∧
      ∀ done q, done ++ [.inl q] <+: hs →
        packetBytes os (done ++ [.inl q]) ≤ (fileLog settings alarms os (done ++ [.inl q])).length ∧
        q.2 = (fileLog settings alarms os (done ++ [.inl q])).take (packetBytes os (done ++ [.inl q])) := by
  induction hs using List.reverseRecOn generalizing serial with
  | nil =>
    obtain ⟨rfl, _⟩ := Prod.mk.inj (Option.some.inj hrun)
    exact ⟨rfl, rfl, by simp⟩
  | append_singleton hs e ih =>
    rw [List.mapIdx_concat, List.map_append] at hrun
    obtain ⟨before, rs, r, hbefore, hstep, hrs⟩ := Machine.run_concat_eq_some _ hrun
    obtain ⟨rfl, rfl⟩ := List.append_singleton_inj.mp hrs
    obtain ⟨hcontent, hlen, hall⟩ := ih (fun q hq => hreceived q (List.mem_append_left _ hq)) hbefore
    cases e with
    | inl q =>
      obtain ⟨hkept, hcounted, n, hn, hle, hsent⟩ := clock_session (hreceived q (by simp)) hstep
      have hlog : serial.store.content = fileLog settings alarms os (hs ++ [.inl q]) := by
        rw [hkept, hcontent, fileLog_concat]
        rfl
      have hbytes : serial.readDataLen = packetBytes os (hs ++ [.inl q]) := by
        rw [hcounted, hlen, packetBytes_concat]
        rfl
      obtain rfl : n = packetBytes os (hs ++ [.inl q]) := Int.ofNat_inj.mp (hn.symm.trans hbytes)
      refine ⟨hlog, hbytes, fun done q' hpre => ?_⟩
      rcases List.prefix_concat_iff.mp hpre with heq | hpre
      · obtain ⟨rfl, hq⟩ := List.append_inj' heq rfl
        obtain rfl := Sum.inl.inj (List.singleton_inj.mp hq)
        rw [← hlog]
        exact ⟨hle, hsent⟩
      · exact hall done q' hpre
    | inr line =>
      obtain ⟨s, hline, hkept⟩ := appendLine_keeps (alarms hs.length) line
      obtain ⟨s', hticked, ho⟩ := Option.map_eq_some_iff.mp hstep
      obtain rfl := Except.ok.inj (hline.symm.trans (toOption_eq_some.mp hticked))
      obtain ⟨rfl, _⟩ := Prod.mk.inj ho
      refine ⟨?_, ?_, fun done q hpre => ?_⟩
      · rw [hkept, hcontent, fileLog_concat]
        rfl
      · rw [hlen, packetBytes_concat]
        rfl
      · rcases List.prefix_concat_iff.mp hpre with heq | hpre
        · obtain ⟨_, hq⟩ := List.append_inj' heq rfl
          exact absurd (List.singleton_inj.mp hq) (by simp)
        · exact hall done q hpre

end File

section Gradual
variable {σ : Type} {timer : Bool} {created : σ → σ} {calls ticks : Nat → StoreCalls σ} {s₀ : σ} {p : Proc}
  {x : Shelf σ} {n : Nat} {os : Trace}

theorem gradual_run_with_ticks {is : List Input} (halarmed : (process timer).Along (Alarmed timer) .start is)
    (hrun : (ticking timer created calls ticks).run (.start, ⟨s₀, 0⟩, 0) is = some ((p, x, n), os)) :
    Ticked created calls ticks s₀ p x n os ∧ Gradual os := by
  apply (ticking timer created calls ticks).along_keeps
    (I := fun s os => Ticked created calls ticks s₀ s.1 s.2.1 s.2.2 os ∧ Gradual os) _ []
    ⟨ticked_start created calls ticks s₀, gradual_start⟩ (ticking_along halarmed) hrun
  rintro ⟨p, x, n⟩ os i ⟨p', x', n'⟩ o ⟨hticked, h⟩ halarmed hstep
  refine ⟨hticked.step halarmed hstep, h.step (fun k s total hs hpc => ?_) (ticking_step_eq_some.mp hstep).1⟩
  obtain ⟨g, y, serial, _, _, hstands, _⟩ := hticked.apart
  have hpart := hstands.partway k s hs (by rw [hpc]; rfl)
  rw [hpc] at hpart
  exact hpart.unfinished

end Gradual

/-- The server's threads and handlers over the file, in any order of their statements and
alarms: while the mutex is free the file is what the writes of the packets and of the lines
have appended, in their order, and read_data_len counts the packets only; a response is the
first that many bytes of the file as it was then. -/
theorem interleaved_file_responses (timer : Bool) (settings alarms : Nat → FileSetting) (s₀ : RegularFile)
    (is : List Input) {p : Proc} {x : Shelf RegularFile} {n : Nat} {os : Trace}
    (halarmed : (process timer).Along (Alarmed timer) .start is)
    (hrun : (threadsOnFile timer settings alarms).run (.start, ⟨s₀, 0⟩, 0) is = some ((p, x, n), os)) :
    (∀ done q, done ++ [.inl q] <+: happenings os →
        packetBytes os (done ++ [.inl q]) ≤ (fileLog settings alarms os (done ++ [.inl q])).length ∧
        q.2 = (fileLog settings alarms os (done ++ [.inl q])).take (packetBytes os (done ++ [.inl q]))) ∧
      (p.main.stored = true → p.image.mutexLock = none →
        x.store.content = fileLog settings alarms os (happenings os) ∧
          p.image.readDataLen = packetBytes os (happenings os)) := by
  obtain ⟨hticked, hgradual⟩ := gradual_run_with_ticks halarmed hrun
  obtain ⟨g, y, serial, hapart, hsound, hstands, m, hserial⟩ := hticked.apart
  have hreceived : ∀ q, .inl q ∈ happenings os → ∀ packet,
      receivePacket true ((chunksOf (callsOf os q.1)).map delivered) = .ok packet → packet = packetBy os q.1 := by
    intro q hq packet hpacket
    rw [hsound.packetBy_eq (hstands.sent q.1 q.2 (mem_responses_of_happenings hq))]
    exact receivePacket_received (hgradual q.1) hpacket
  obtain ⟨hcontent, hlen, hall⟩ := clock_log hreceived (hserial m le_rfl)
  refine ⟨hall, fun hstored hfree => ?_⟩
  cases hapart with
  | free =>
    obtain ⟨hstore, hcount⟩ := hstands.settled hstored hfree
    exact ⟨hstore ▸ hcontent, hcount.trans hlen⟩
  | held hrings => exact absurd (hrings.mutex.symm.trans hfree) (by simp)

/-- The alarm between two sessions that send two bytes each: the second one finds five bytes in
the file and appends its own, of which none is among the four that it gets. -/
theorem interleaved_file_responses_one_alarm :
    let settings : Nat → FileSetting := fun _ => ⟨some 8, fun _ _ => 0, fun _ _ h => h⟩
    ∃ p x n os, (threadsOnFile true settings settings).run (.start, ⟨⟨[120], 0⟩, 0⟩, 0)
        (beforeAlarm ++ .signal .sigalrm .main :: afterAlarm) = some ((p, x, n), os) ∧
      x.store.content = [97, 10, 116, 46, 10, 98, 10] ∧
      ([97, 10, 116, 46] : List Byte) = x.store.content.take (packetBytes os (happenings os)) := by
  intro settings
  have heval : ((threadsOnFile true settings settings).run (.start, ⟨⟨[120], 0⟩, 0⟩, 0)
      (beforeAlarm ++ .signal .sigalrm .main :: afterAlarm)).map (fun q => happenings q.2) =
        some [.inl (0, [97, 10]), .inr [116, 46, 10], .inl (1, [97, 10, 116, 46])] := by decide +kernel
  have hstate : ((threadsOnFile true settings settings).run (.start, ⟨⟨[120], 0⟩, 0⟩, 0)
      (beforeAlarm ++ .signal .sigalrm .main :: afterAlarm)).map
        (fun q => (q.1.2.1.store.content, q.1.1.main.stored, q.1.1.image.mutexLock)) =
      some ([97, 10, 116, 46, 10, 98, 10], true, none) := by decide +kernel
  obtain ⟨⟨⟨p, x, n⟩, os⟩, hrun, hhappenings⟩ := Option.map_eq_some_iff.mp heval
  rw [hrun] at hstate
  obtain ⟨hcontent, hrest⟩ := Prod.mk.inj (Option.some.inj hstate)
  obtain ⟨hstored, hfree⟩ := Prod.mk.inj hrest
  obtain ⟨hall, hfile⟩ := interleaved_file_responses true settings settings _ _ alarmed_in_accept hrun
  have hlast := hall [.inl (0, [97, 10]), .inr [116, 46, 10]] (1, [97, 10, 116, 46]) ⟨[], by rw [hhappenings]; rfl⟩
  refine ⟨p, x, n, os, hrun, hcontent, ?_⟩
  rw [(hfile hstored hfree).1, hhappenings]
  exact hlast.2

end Aesd.Server
