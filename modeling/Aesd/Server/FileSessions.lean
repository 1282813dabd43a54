import Aesd.Server.ThreadCallback

/-! The server over a regular file, with the timer that appends a line of its own under
the same mutex. The timer leaves read_data_len alone, so once it has fired the count is
short of the file. -/
namespace Aesd.Server
open Aesd.Foundations Aesd.Driver

structure RegularFile where
  content : List Byte
  fPos : Nat

/-- The calls on /var/tmp/aesdsocketdata. A write appends as many bytes as it accepts,
none at all where it returns -1. -/
def fileCalls (accepts : Option Nat) (reads : ReadSchedule) : StoreCalls RegularFile where
  openAppend s := some s
  write s packet :=
    match accepts with
    | none => .ok (s, -1)
    | some n => .ok ({ s with content := s.content ++ packet.take n }, (packet.take n).length)
  openRead s := some { s with fPos := 0 }
  read i s n :=
    let m := min n (s.content.length - s.fPos)
    let k := m - min (reads.uncopied i m) m
    .ok ({ s with fPos := s.fPos + k }, k, (s.content.drop s.fPos).take k)

/-- How much a write accepts (none is -1) and each read delivers. -/
structure FileSetting where
  accepts : Option Nat
  reads : ReadSchedule

def FileSetting.calls (e : FileSetting) : StoreCalls RegularFile := fileCalls e.accepts e.reads

def FileSetting.kept (e : FileSetting) (data : List Byte) : List Byte :=
  match e.accepts with
  | none => []
  | some n => data.take n

structure FileClient extends Arrival where
  reads : ReadSchedule

def FileClient.session (c : FileClient) : Session RegularFile :=
  .complete (c.chunks.map delivered) (fileCalls (some c.packet.length) c.reads)

section Timer

/-- What the timer's format prints of a struct tm. -/
structure Tm where
  mday : Nat
  mon : Fin 12
  year : Nat
  hour : Nat
  min : Nat
  sec : Nat

def ascii (s : String) : List Byte := s.toList.map fun c => c.toNat.toUInt8

def digit (n : Nat) : Byte := 48 + (n % 10).toUInt8

/-- Two digits, padded with a zero or, as %k is, with a space. -/
def twoDigits (n : Nat) : List Byte := [digit (n / 10), digit n]
def spacePadded (n : Nat) : List Byte := [if n < 10 then 32 else digit (n / 10), digit n]

def monthName : Fin 12 → List Byte
  | 0 => ascii "Jan" | 1 => ascii "Feb" | 2 => ascii "Mar" | 3 => ascii "Apr"
  | 4 => ascii "May" | 5 => ascii "Jun" | 6 => ascii "Jul" | 7 => ascii "Aug"
  | 8 => ascii "Sep" | 9 => ascii "Oct" | 10 => ascii "Nov" | 11 => ascii "Dec"

/-- The bytes strftime stores for "timestamp:%d.%b.%y - %k:%M:%S\n". -/
def timestamp (t : Tm) : List Byte :=
  ascii "timestamp:" ++ twoDigits t.mday ++ ascii "." ++ monthName t.mon ++ ascii "." ++ twoDigits t.year ++
    ascii " - " ++ spacePadded t.hour ++ ascii ":" ++ twoDigits t.min ++ ascii ":" ++ twoDigits t.sec ++ [newline]

/-- strftime counts nothing when the text and its terminator exceed the buffer. -/
def strftime (max : Nat) (text : List Byte) : List Byte := if text.length < max then text else []

def formattedTime (t : Tm) : List Byte := strftime 50 (timestamp t)

private theorem length_monthName (m : Fin 12) : (monthName m).length = 3 := by
  revert m
  decide

theorem length_formattedTime (t : Tm) : (formattedTime t).length = 31 := by
  have hlen : (timestamp t).length = 31 := by
    simp [timestamp, length_monthName, twoDigits, spacePadded, ascii]
  rw [formattedTime, strftime, if_pos (by omega), hlen]

end Timer

/-- A SIGALRM, and what its environment decides: the time, the mutex calls, and how the
store serves the handler's open and write. -/
structure Tick (σ : Type) where
  time : Tm
  mutexLock : Bool
  calls : StoreCalls σ
  mutexUnlock : Bool

def timerHandler {σ : Type} (x : Tick σ) (server : ServerState σ) : Except Stop (ServerState σ) :=
  if x.mutexLock = false then .error .exited
  else match x.calls.openAppend server.store with
    | none => .error .exited
    | some store => do
      let (store, _) ← x.calls.write store (formattedTime x.time)
      if x.mutexUnlock = true then return { server with store } else throw .exited

/-- What happens to the file, in mutex order. -/
inductive Event where
  | session : FileClient → Event
  | tick : Tm → Event

def completeTick (t : Tm) : Tick RegularFile :=
  ⟨t, true, fileCalls (some (formattedTime t).length) ⟨fun _ _ => 0, fun _ _ h => h⟩, true⟩

def fileServer (fuel : Nat) : Machine (ServerState RegularFile) Event (Option (List Byte)) where
  step s
    | .session c => ((server RegularFile fuel).step s c.session).map fun q => (q.1, some q.2)
    | .tick t => (timerHandler (completeTick t) s).toOption.map fun s => (s, none)

def fileStart : ServerState RegularFile := ⟨⟨[], 0⟩, 0⟩

def appended (es : List Event) : List Byte :=
  es.flatMap fun
    | .session c => c.packet
    | .tick t => formattedTime t

/-- Every session finishes and sends the whole file as it then is, its own packet last. -/
def FileAnswers (es : List Event) : Prop :=
  ∀ done c, done ++ [.session c] <+: es → ∃ fuel s rs r,
    (fileServer fuel).run fileStart (done ++ [.session c]) = some (s, rs ++ [some r]) ∧
      s.store.content = r ∧ r = appended (done ++ [.session c]) ∧ c.packet <:+ r

def sentPackets (es : List Event) : List (List Byte) :=
  es.filterMap fun
    | .session c => some c.packet
    | .tick _ => none

structure Logged (s : ServerState RegularFile) (es : List Event) : Prop where
  content : s.store.content = appended es
  readDataLen : s.readDataLen = (sentPackets es).flatten.length

section File
variable {s s' : ServerState RegularFile} {es : List Event} {c : FileClient} {t : Tm} {fuel : Nat}

def StandsIn (content : List Byte) (s : RegularFile) (q : Nat) : Prop := s.content = content ∧ s.fPos = q

theorem file_serves (accepts : Option Nat) (reads : ReadSchedule) (content : List Byte) :
    Serves (fileCalls accepts reads).read (StandsIn content) content := by
  rintro i s n q ⟨rfl, rfl⟩ hq
  refine ⟨_, _, rfl, ⟨rfl, rfl⟩, by omega, by omega, fun hn hlt => ?_⟩
  have hprogress := reads.progress i (min n (s.content.length - s.fPos)) (by omega)
  omega

theorem kept_readsBack (e : FileSetting) (s : RegularFile) (p : List Byte) :
    ReadsBack e.calls s p (s.content ++ e.kept p) (StandsIn (s.content ++ e.kept p)) := by
  obtain ⟨accepts, reads⟩ := e
  cases accepts with
  | none =>
    refine ⟨s, s, -1, ⟨s.content, 0⟩, rfl, rfl, rfl, ⟨by simp [FileSetting.kept], rfl⟩, file_serves none reads _⟩
  | some n =>
    exact ⟨s, ⟨s.content ++ p.take n, s.fPos⟩, _, ⟨s.content ++ p.take n, 0⟩, rfl, rfl, rfl, ⟨rfl, rfl⟩,
      file_serves (some n) reads _⟩

theorem file_readsBack (s : RegularFile) (p : List Byte) (reads : ReadSchedule) :
    ReadsBack (fileCalls (some p.length) reads) s p (s.content ++ p) (StandsIn (s.content ++ p)) := by
  have hback := kept_readsBack ⟨some p.length, reads⟩ s p
  rwa [show FileSetting.kept ⟨some p.length, reads⟩ p = p from List.take_length] at hback

theorem appended_concat (es : List Event) (e : Event) : appended (es ++ [e]) = appended es ++ appended [e] :=
  List.flatMap_append

theorem appended_session (c : FileClient) : appended [.session c] = c.packet := by simp [appended]

theorem appended_tick (t : Tm) : appended [.tick t] = formattedTime t := by simp [appended]

theorem sentPackets_session (es : List Event) (c : FileClient) :
    sentPackets (es ++ [.session c]) = sentPackets es ++ [c.packet] := by simp [sentPackets]

theorem sentPackets_tick (es : List Event) (t : Tm) : sentPackets (es ++ [.tick t]) = sentPackets es := by
  simp [sentPackets]

theorem logged_start : Logged fileStart [] := ⟨rfl, rfl⟩

/-- A session that finishes has sent as many bytes as the packets have, not the file. -/
theorem file_session_sends (h : Logged s es) {o : Option (List Byte)}
    (hstep : (fileServer fuel).step s (.session c) = some (s', o)) :
    Logged s' (es ++ [.session c]) ∧ c.packet.length + recvLen ≤ intMax ∧
      (sentPackets es).flatten.length + c.packet.length ≤ intMax ∧
      ∃ r, o = some r ∧ r.length = (sentPackets es).flatten.length + c.packet.length := by
  have hback := file_readsBack s.store c.packet c.reads
  obtain ⟨⟨s₁, r⟩, hserver, ho⟩ := Option.map_eq_some_iff.mp hstep
  obtain ⟨rfl, rfl⟩ := Prod.mk.inj ho
  have hok : threadCallback c.session fuel ⟨s.store, ((sentPackets es).flatten.length : Nat)⟩ = .ok (s₁, r) := by
    rw [← h.readDataLen]
    exact server_step_eq_some.mp hserver
  obtain ⟨hpacket, hmax, hlen, hr, q, hcontent, _⟩ := threadCallback_ok c.toArrival hback hok
  refine ⟨⟨?_, ?_⟩, hpacket, hmax, r, rfl, hr⟩
  · rw [hcontent, h.content, appended_concat, appended_session]
  · rw [hlen, sentPackets_session, length_flatten_concat]

theorem tick_appends (fuel : Nat) (h : Logged s es) (t : Tm) :
    ∃ s', (fileServer fuel).step s (.tick t) = some (s', none) ∧ Logged s' (es ++ [.tick t]) := by
  refine ⟨⟨⟨s.store.content ++ formattedTime t, s.store.fPos⟩, s.readDataLen⟩, ?_, ?_, ?_⟩
  · have hcall : timerHandler (completeTick t) s =
        .ok ⟨⟨s.store.content ++ formattedTime t, s.store.fPos⟩, s.readDataLen⟩ := by
      simp only [timerHandler, completeTick]
      rw [if_neg (by decide)]
      generalize formattedTime t = line
      simp only [fileCalls, List.take_length, ok_bind, if_true]
      rfl
    simp only [fileServer, toOption_eq_some.mpr hcall, Option.map_some]
  · rw [h.content, appended_concat, appended_tick]
  · rw [h.readDataLen, sentPackets_tick]

/-- As long as no tick has come, a session finishes with the whole file. -/
theorem file_session_answers (h : Logged s es) (hticks : (appended es).length = (sentPackets es).flatten.length)
    (hpacket : c.packet.length + recvLen ≤ intMax)
    (hmax : (sentPackets es).flatten.length + c.packet.length ≤ intMax)
    (hfuel : (sentPackets es).flatten.length + c.packet.length < fuel) :
    ∃ s', (fileServer fuel).step s (.session c) = some (s', some (appended (es ++ [.session c]))) ∧
      Logged s' (es ++ [.session c]) := by
  have hback := file_readsBack s.store c.packet c.reads
  have hlen : (s.store.content ++ c.packet).length = (sentPackets es).flatten.length + c.packet.length := by
    rw [List.length_append, h.content, hticks]
  obtain ⟨st, hcall, q, hcontent, _⟩ := threadCallback_whole c.toArrival hback hpacket hlen (by omega)
    (show _ < fuel by omega)
  rw [← h.readDataLen] at hcall
  refine ⟨⟨st, ((s.store.content ++ c.packet).length : Nat)⟩, ?_, ?_, ?_⟩
  · rw [appended_concat, appended_session, ← h.content]
    exact Option.map_eq_some_iff.mpr ⟨_, server_step_eq_some.mpr hcall, rfl⟩
  · rw [hcontent, h.content, appended_concat, appended_session]
  · rw [sentPackets_session, length_flatten_concat]
    exact congrArg Nat.cast hlen

end File

section Runs
variable {es : List Event} {cs : List FileClient} {ts : List Tm} {fuel : Nat}

/-- After sessions and ticks the file has everything that they appended. -/
theorem file_run_logged {s : ServerState RegularFile} {rs : List (Option (List Byte))}
    (h : (fileServer fuel).run fileStart es = some (s, rs)) : Logged s es ∧ Fits (sentPackets es) := by
  induction es using List.reverseRecOn generalizing s rs with
  | nil =>
    obtain ⟨rfl, _⟩ := Prod.mk.inj (Option.some.inj h)
    exact ⟨logged_start, by simp [Fits, sentPackets]⟩
  | append_singleton es e ih =>
    obtain ⟨s₁, rs₁, o, hrun, hstep, _⟩ := Machine.run_concat_eq_some _ h
    obtain ⟨hlogged, hfits⟩ := ih hrun
    cases e with
    | session c =>
      obtain ⟨hlogged', hpacket, hmax, _⟩ := file_session_sends hlogged hstep
      rw [sentPackets_session]
      exact ⟨hlogged', fits_concat.mpr ⟨hfits.1, hpacket, hmax⟩⟩
    | tick t =>
      obtain ⟨s', hstep', hlogged'⟩ := tick_appends fuel hlogged t
      obtain ⟨rfl, _⟩ := Prod.mk.inj (Option.some.inj (hstep.symm.trans hstep'))
      rw [sentPackets_tick]
      exact ⟨hlogged', hfits⟩

theorem sentPackets_sessions (cs : List FileClient) :
    sentPackets (cs.map .session) = cs.map fun c => c.packet := by
  simp [sentPackets, List.filterMap_map]

theorem appended_sessions (cs : List FileClient) :
    appended (cs.map .session) = (sentPackets (cs.map .session)).flatten := by
  rw [sentPackets_sessions, appended, List.flatMap_def, List.map_map]
  rfl

/-- Sessions before any tick all run. -/
theorem file_run_answers (cs : List FileClient) (fuel : Nat) (hfits : Fits (cs.map fun c => c.packet))
    (hfuel : (cs.map fun c => c.packet).flatten.length < fuel) :
    ∃ s rs, (fileServer fuel).run fileStart (cs.map .session) = some (s, rs) ∧ Logged s (cs.map .session) := by
  induction cs using List.reverseRecOn with
  | nil => exact ⟨_, [], rfl, logged_start⟩
  | append_singleton cs c ih =>
    rw [List.map_append, List.map_singleton] at hfits hfuel ⊢
    rw [length_flatten_concat] at hfuel
    obtain ⟨hall, hpacket, hmax⟩ := fits_concat.mp hfits
    obtain ⟨s, rs, hrun, hlogged⟩ := ih ⟨hall, by omega⟩ (by omega)
    obtain ⟨s', hstep, hlogged'⟩ := file_session_answers hlogged (by rw [appended_sessions]) hpacket
      (by rwa [sentPackets_sessions]) (by rwa [sentPackets_sessions])
    exact ⟨s', rs ++ [_], by rw [Machine.run_concat _ hrun, hstep]; rfl, hlogged'⟩

private theorem length_ticks (ts : List Tm) : (appended (ts.map .tick)).length = 31 * ts.length := by
  induction ts with
  | nil => rfl
  | cons t ts ih =>
    rw [List.map_cons, ← List.singleton_append, appended, List.flatMap_append, List.length_append,
      List.length_cons]
    have hhead := length_formattedTime t
    rw [← appended_tick] at hhead
    rw [appended] at hhead ih
    omega

/-- If every session answers, no tick comes before one and no length is too large. -/
theorem FileAnswers.bounds (h : FileAnswers es) :
    ∃ (cs : List FileClient) (ts : List Tm), es = cs.map .session ++ ts.map .tick ∧
      Fits (cs.map fun c => c.packet) := by
  induction es using List.reverseRecOn with
  | nil => exact ⟨[], [], rfl, by simp [Fits]⟩
  | append_singleton es e ih =>
    obtain ⟨cs, ts, rfl, hfits⟩ := ih fun done c hpre => h done c (hpre.trans (List.prefix_append _ _))
    cases e with
    | tick t => exact ⟨cs, ts ++ [t], by simp, hfits⟩
    | session c =>
      obtain ⟨fuel, s, rs, r, hrun, hcontent, happended, _⟩ := h _ c List.prefix_rfl
      obtain ⟨s₁, rs₁, o, hdone, hstep, hrs⟩ := Machine.run_concat_eq_some _ hrun
      obtain ⟨_, ho⟩ := List.append_singleton_inj.mp hrs
      obtain ⟨_, _, _, r', hr', hlen⟩ := file_session_sends (file_run_logged hdone).1 hstep
      obtain rfl : r = r' := Option.some.inj (ho.trans hr')
      have hts : ts = [] := by
        have hlen' := congrArg List.length happended
        have hsplit : appended (cs.map .session ++ ts.map .tick) =
            appended (cs.map .session) ++ appended (ts.map .tick) := List.flatMap_append
        have hpackets : sentPackets (cs.map .session ++ ts.map .tick) = sentPackets (cs.map .session) := by
          simp [sentPackets, List.filterMap_append, List.filterMap_map]
        rw [appended_concat, appended_session, List.length_append, hsplit, List.length_append, length_ticks,
          appended_sessions] at hlen'
        rw [hpackets] at hlen
        exact List.eq_nil_of_length_eq_zero (by omega)
      subst hts
      obtain ⟨_, hfits'⟩ := file_run_logged hrun
      refine ⟨cs ++ [c], [], by simp, ?_⟩
      simpa [sentPackets_session, sentPackets_sessions] using hfits'

end Runs

/-- Every session answers with the whole file exactly when all sessions come before the
first tick and no length exceeds what an int holds. -/
theorem file_sessions_answer_iff (es : List Event) :
    FileAnswers es ↔ ∃ (cs : List FileClient) (ts : List Tm), es = cs.map .session ++ ts.map .tick ∧
      Fits (cs.map fun c => c.packet) := by
  refine ⟨FileAnswers.bounds, ?_⟩
  rintro ⟨cs, ts, rfl, hfits⟩ done c hpre
  have hsessions : done ++ [.session c] <+: cs.map Event.session := by
    rcases List.prefix_or_prefix_of_prefix hpre (List.prefix_append _ _) with hle | ⟨later, hlater⟩
    · exact hle
    · cases later using List.reverseRecOn with
      | nil => rw [← hlater, List.append_nil]
      | append_singleton later e =>
        -- the last of these events would be a session and come after the sessions
        rw [← List.append_assoc] at hlater
        obtain ⟨_, rfl⟩ := List.append_singleton_inj.mp hlater
        obtain ⟨rest, hrest⟩ := hpre
        rw [← hlater, List.append_assoc, List.append_assoc, List.append_cancel_left_eq] at hrest
        have hmem : Event.session c ∈ ts.map Event.tick := by
          rw [← hrest]
          simp
        simp at hmem
  obtain ⟨cs', ⟨later, rfl⟩, hcs'⟩ := List.prefix_map_iff.mp hsessions
  obtain ⟨ds, d, rfl⟩ : ∃ ds d, cs' = ds ++ [d] := by
    rcases List.eq_nil_or_concat cs' with rfl | ⟨ds, d, rfl⟩
    · simp at hcs'
    · exact ⟨ds, d, List.concat_eq_append⟩
  rw [List.map_append, List.map_singleton] at hcs'
  obtain ⟨rfl, hd⟩ := List.append_singleton_inj.mp hcs'
  obtain rfl := Event.session.inj hd
  rw [List.map_append, List.map_append, List.map_singleton] at hfits
  obtain ⟨hall, hpacket, hmax⟩ := fits_concat.mp hfits.left
  obtain ⟨s, rs, hrun, hlogged⟩ := file_run_answers ds
    ((ds.map fun c => c.packet).flatten.length + c.packet.length + 1) ⟨hall, by omega⟩ (by omega)
  obtain ⟨s', hstep, hlogged'⟩ := file_session_answers hlogged (by rw [appended_sessions]) hpacket
    (by rwa [sentPackets_sessions]) (by rw [sentPackets_sessions]; exact Nat.lt_succ_self _)
  refine ⟨_, s', rs, _, by rw [Machine.run_concat _ hrun, hstep]; rfl, hlogged'.content, rfl, ?_⟩
  rw [appended_concat, appended_session]
  exact List.suffix_append _ _

/-- A tick and then a client that sends "a\n": two bytes of the 33 in the file come back. -/
theorem file_session_after_tick_unanswered :
    ¬FileAnswers [.tick ⟨1, 0, 21, 0, 0, 0⟩,
      .session ⟨⟨[[97, 10]], by decide, by decide⟩, ⟨fun _ _ => 0, fun _ _ h => h⟩⟩] := by
  intro h
  obtain ⟨cs, ts, hes, _⟩ := h.bounds
  cases cs with
  | nil =>
    have hmem : Event.session ⟨⟨[[97, 10]], by decide, by decide⟩, ⟨fun _ _ => 0, fun _ _ h => h⟩⟩ ∈
        ts.map Event.tick := by
      rw [List.map_nil, List.nil_append] at hes
      rw [← hes]
      simp
    simp at hmem
  | cons c cs => exact absurd (List.cons.inj hes).1 (by simp)

end Aesd.Server
