import Aesd.Server.FileSessions

/-! read_file under every schedule of reads. Each read asks for the whole length again and
the loop ends at that length only, so reads that do not add up to it either overrun the
buffer or are waited for without end; the test after the loop is never true. -/
namespace Aesd.Server
open Aesd.Foundations Aesd.Driver

structure ReadRequest where
  content : List Byte
  length : Nat
  pos : 0 < length
  fits : length ≤ intMax

namespace ReadRequest
variable (r : ReadRequest) (reads : ReadSchedule)

def count (i p : Nat) : Nat :=
  min r.length (r.content.length - p) -
    min (reads.uncopied i (min r.length (r.content.length - p))) (min r.length (r.content.length - p))

def position : Nat → Nat
  | 0 => 0
  | i + 1 => position i + r.count reads i (position i)

/-- read_file returns 0 with exactly the first bytes of the content, after some number of
reads of which none has gone beyond the buffer. -/
def Answered : Prop :=
  ∃ n s', readFile (fileCalls none reads) true n ⟨r.content, 0⟩ r.length =
      .ok (s', some ((r.content.take r.length).map some)) ∧
    ∀ j ≤ n, r.position reads j ≤ r.length

section Position
variable {r} {reads} {i n fuel : Nat} {buffer buffer' : Buffer} {s' : RegularFile} {status' : Int}

theorem count_le (r : ReadRequest) (reads : ReadSchedule) (i p : Nat) : r.count reads i p ≤ r.content.length - p :=
  (Nat.sub_le _ _).trans (Nat.min_le_right _ _)

theorem position_le (i : Nat) : r.position reads i ≤ r.content.length := by
  induction i with
  | zero => exact Nat.zero_le _
  | succ i ih =>
    have hcount := r.count_le reads i (r.position reads i)
    rw [position]
    omega

theorem position_mono : Monotone (r.position reads) :=
  monotone_nat_of_le_succ fun _ => Nat.le_add_right _ _

/-- The i-th read, as the store answers it. -/
theorem read_eq (i p : Nat) : (fileCalls none reads).read i ⟨r.content, p⟩ (r.length : Int).toNat =
    .ok (⟨r.content, p + r.count reads i p⟩, (r.count reads i p : Int),
      (r.content.drop p).take (r.count reads i p)) := rfl

private theorem length_data (r : ReadRequest) (reads : ReadSchedule) (i p : Nat) :
    ((r.content.drop p).take (r.count reads i p)).length = r.count reads i p := by
  have hcount := r.count_le reads i p
  rw [List.length_take, List.length_drop]
  omega

/-- A read that stays within the length puts the next bytes of the content in the buffer. -/
theorem readLoop_fits (fuel : Nat) (hfit : r.position reads (i + 1) ≤ r.length)
    (hstarts : StartsWith buffer (r.content.take (r.position reads i))) (hlen : buffer.length = r.length) :
    ∃ buffer₁, StartsWith buffer₁ (r.content.take (r.position reads (i + 1))) ∧ buffer₁.length = r.length ∧
      readLoop (fileCalls none reads).read r.length (fuel + 1) i ⟨r.content, r.position reads i⟩ buffer
          (r.position reads i) =
        if r.position reads (i + 1) ≠ r.length then
          readLoop (fileCalls none reads).read r.length fuel (i + 1) ⟨r.content, r.position reads (i + 1)⟩ buffer₁
            (r.position reads (i + 1))
        else .ok (⟨r.content, r.position reads (i + 1)⟩, buffer₁, (r.position reads (i + 1) : Int)) := by
  have hfits := r.fits
  have htake : (r.content.take (r.position reads i)).length = r.position reads i := by
    rw [List.length_take, Nat.min_eq_left (position_le i)]
  have hdata := length_data r reads i (r.position reads i)
  obtain ⟨buffer₁, hplace, hstarts₁, hlen₁⟩ := hstarts.place
    ((r.content.drop (r.position reads i)).take (r.count reads i (r.position reads i))) (by
      rw [htake, hdata, hlen]
      exact hfit)
  rw [htake] at hplace
  rw [← List.take_add] at hstarts₁
  have hstatus : toInt ((r.position reads i : Int) + r.count reads i (r.position reads i)) =
      (r.position reads (i + 1) : Int) := by
    rw [position, Int.natCast_add]
    refine toInt_of_le (by omega) ?_
    rw [position] at hfit
    omega
  refine ⟨buffer₁, hstarts₁, hlen₁.trans hlen, ?_⟩
  rw [readLoop, read_eq, ok_bind]
  simp only [hplace, ok_bind, hstatus, ne_eq, Int.natCast_inj]
  rfl

/-- A read that goes beyond the length is placed outside of the buffer. -/
theorem readLoop_overruns (fuel : Nat) (hbefore : r.position reads i < r.length)
    (hover : r.length < r.position reads (i + 1)) (hlen : buffer.length = r.length) :
    readLoop (fileCalls none reads).read r.length (fuel + 1) i ⟨r.content, r.position reads i⟩ buffer
      (r.position reads i) = .error .undefined := by
  have hdata := length_data r reads i (r.position reads i)
  rw [position] at hover
  have hplace : place buffer (r.position reads i) ((r.content.drop (r.position reads i)).take
      (r.count reads i (r.position reads i))) = .error .undefined := by
    unfold place
    rw [if_neg, if_neg]
    · omega
    · intro hnil
      rw [hnil, List.length_nil] at hdata
      omega
  rw [readLoop, read_eq, ok_bind]
  simp only [hplace, error_bind]

/-- The loop ends with the read that makes up the length, if none before it does. -/
theorem readLoop_reaches (hend : r.position reads (i + (n + 1)) = r.length)
    (hbefore : ∀ j ≤ n, r.position reads (i + j) < r.length)
    (hstarts : StartsWith buffer (r.content.take (r.position reads i))) (hlen : buffer.length = r.length) :
    ∃ buffer', readLoop (fileCalls none reads).read r.length (n + 1) i ⟨r.content, r.position reads i⟩ buffer
        (r.position reads i) = .ok (⟨r.content, r.length⟩, buffer', (r.length : Int)) ∧
      StartsWith buffer' (r.content.take r.length) ∧ buffer'.length = r.length := by
  induction n generalizing i buffer with
  | zero =>
    obtain ⟨buffer₁, hstarts₁, hlen₁, hloop⟩ := readLoop_fits 0 hend.le hstarts hlen
    rw [hend, if_neg (by simp)] at hloop
    rw [hend] at hstarts₁
    exact ⟨buffer₁, hloop, hstarts₁, hlen₁⟩
  | succ n ih =>
    have hnext : r.position reads (i + 1) < r.length := hbefore 1 (by omega)
    obtain ⟨buffer₁, hstarts₁, hlen₁, hloop⟩ := readLoop_fits (n + 1) hnext.le hstarts hlen
    rw [if_pos hnext.ne] at hloop
    obtain ⟨buffer', hrest, hstarts', hlen'⟩ := ih (i := i + 1)
      (by rw [← hend]; congr 1; omega)
      (fun j hj => by
        have hj' := hbefore (j + 1) (by omega)
        rwa [Nat.add_assoc, Nat.add_comm 1 j])
      hstarts₁ hlen₁
    exact ⟨buffer', hloop.trans hrest, hstarts', hlen'⟩

/-- The loop ends only where the reads have made up the length. -/
theorem readLoop_ok_reaches (hbefore : r.position reads i < r.length)
    (hstarts : StartsWith buffer (r.content.take (r.position reads i))) (hlen : buffer.length = r.length)
    (h : readLoop (fileCalls none reads).read r.length fuel i ⟨r.content, r.position reads i⟩ buffer
      (r.position reads i) = .ok (s', buffer', status')) : ∃ j, r.position reads j = r.length := by
  induction fuel generalizing i buffer with
  | zero => exact absurd h (by simp [readLoop])
  | succ fuel ih =>
    by_cases hfit : r.position reads (i + 1) ≤ r.length
    · obtain ⟨buffer₁, hstarts₁, hlen₁, hloop⟩ := readLoop_fits fuel hfit hstarts hlen
      by_cases hdone : r.position reads (i + 1) = r.length
      · exact ⟨i + 1, hdone⟩
      · rw [hloop, if_pos hdone] at h
        exact ih (by omega) hstarts₁ hlen₁ h
    · rw [readLoop_overruns fuel hbefore (by omega) hlen] at h
      exact absurd h (by simp)

end Position

end ReadRequest

/-- read_file answers with the first bytes of the store, within its buffer, exactly when
the counts of some first reads add up to the length it was asked for. -/
theorem read_file_exact_iff (r : ReadRequest) (reads : ReadSchedule) :
    r.Answered reads ↔ ∃ j, r.position reads j = r.length := by
  have hpos := r.pos
  have hfile : ∀ n, readFile (fileCalls none reads) true n ⟨r.content, 0⟩ r.length = _ :=
    fun n => readFile_granted rfl r.length
  constructor
  · rintro ⟨n, s', hok, _⟩
    rw [hfile] at hok
    obtain ⟨⟨s₁, buffer, status⟩, hloop, _⟩ := bind_eq_ok.mp hok
    exact ReadRequest.readLoop_ok_reaches (i := 0) hpos (startsWith_nil _) (by simp) hloop
  · intro hreach
    classical
    obtain ⟨n, hn⟩ : ∃ n, Nat.find hreach = n + 1 := by
      refine Nat.exists_eq_succ_of_ne_zero fun hzero => ?_
      have h := Nat.find_spec hreach
      rw [hzero] at h
      exact hpos.ne h
    have hend : r.position reads (n + 1) = r.length := hn ▸ Nat.find_spec hreach
    have hbefore : ∀ j ≤ n, r.position reads j < r.length := by
      intro j hj
      have hle : r.position reads j ≤ r.position reads (n + 1) := ReadRequest.position_mono (by omega)
      exact lt_of_le_of_ne (hle.trans hend.le) (Nat.find_min hreach (by omega))
    obtain ⟨buffer, hloop, hstarts, hlen⟩ := ReadRequest.readLoop_reaches (i := 0) (by rwa [Nat.zero_add])
      (by simpa using hbefore) (startsWith_nil (List.replicate r.length none)) (by simp)
    have hwhole : buffer = (r.content.take r.length).map some := by
      have hle : r.length ≤ r.content.length := hend ▸ ReadRequest.position_le (n + 1)
      refine (hstarts.eq_of_length ?_).symm
      rw [List.length_map, List.length_take, Nat.min_eq_left hle, hlen]
    refine ⟨n + 1, ⟨r.content, r.length⟩, ?_, fun j hj => hend ▸ ReadRequest.position_mono hj⟩
    rw [hfile, ← hwhole]
    rw [show r.position reads 0 = 0 from rfl, Int.natCast_zero] at hloop
    rw [hloop, ok_bind]
    exact if_neg (by simp)

/-- The store holds the entries "a\n" and "b\n", each read gives one of them, and three
bytes are asked for: the second read goes beyond the buffer. -/
theorem read_past_buffer_at_entry :
    ¬(⟨[97, 10, 98, 10], 3, by decide, by decide⟩ : ReadRequest).Answered
      ⟨fun _ m => m - 2, fun _ _ h => Nat.sub_lt h (by decide)⟩ := by
  rintro ⟨n, s', hfile, _⟩
  have hends : ∀ e : Stop, (.error e : Except Stop (RegularFile × Option Buffer)) ≠
      .ok (s', some ([97, 10, 98].map some)) := by simp
  match n with
  | 0 => exact hends .unfinished hfile
  | 1 => exact hends .unfinished hfile
  | n + 2 => exact hends .undefined hfile

structure FaultyReads extends ReadSchedule where
  fails : Nat → Bool

def faultyCalls (x : FaultyReads) : StoreCalls RegularFile :=
  { fileCalls none x.toReadSchedule with
    read := fun i s n =>
      if x.fails i then .ok (s, -1, []) else (fileCalls none x.toReadSchedule).read i s n }

private theorem faultyCalls_openRead (r : ReadRequest) (x : FaultyReads) :
    (faultyCalls x).openRead ⟨r.content, 0⟩ = some ⟨r.content, 0⟩ := rfl

/-- read_file returns -1 after some number of reads, none of which went outside the buffer. -/
def ReadRequest.ReportsShort (r : ReadRequest) (x : FaultyReads) : Prop :=
  ∃ n s', readFile (faultyCalls x) true n ⟨r.content, 0⟩ r.length = .ok (s', none)

/-- While no read fails, read_file reads on and on from a store that is too short. -/
theorem short_store_unfinished (r : ReadRequest) (x : FaultyReads) (hshort : r.content.length < r.length)
    (hfails : ∀ i, x.fails i = false) (n : Nat) :
    readFile (faultyCalls x) true n ⟨r.content, 0⟩ r.length = .error .unfinished := by
  have hread : (faultyCalls x).read = (fileCalls none x.toReadSchedule).read := by
    funext i s m
    simp [faultyCalls, hfails i]
  have hposition : ∀ i, r.position x.toReadSchedule i < r.length :=
    fun i => (ReadRequest.position_le i).trans_lt hshort
  have hloop : ∀ (n i : Nat) (buffer : Buffer),
      StartsWith buffer (r.content.take (r.position x.toReadSchedule i)) → buffer.length = r.length →
      readLoop (fileCalls none x.toReadSchedule).read r.length n i ⟨r.content, r.position x.toReadSchedule i⟩
        buffer (r.position x.toReadSchedule i) = .error .unfinished := by
    intro n
    induction n with
    | zero => exact fun _ _ _ _ => rfl
    | succ n ih =>
      intro i buffer hstarts hlen
      obtain ⟨buffer₁, hstarts₁, hlen₁, hloop⟩ := ReadRequest.readLoop_fits n (hposition (i + 1)).le hstarts hlen
      rw [hloop, if_pos (hposition (i + 1)).ne]
      exact ih (i + 1) buffer₁ hstarts₁ hlen₁
  have hnever := hloop n 0 (List.replicate r.length none) (startsWith_nil _) (by simp)
  rw [show r.position x.toReadSchedule 0 = 0 from rfl, Int.natCast_zero] at hnever
  rw [readFile_granted (faultyCalls_openRead r x), hread, hnever]
  rfl

/-- read_file never reports a store that is too short, nor anything else about its reads:
where the loop ends, its test has nothing left to find. -/
theorem short_store_never_reported (r : ReadRequest) (x : FaultyReads) : ¬r.ReportsShort x := by
  rintro ⟨n, s', hfile⟩
  rw [readFile_granted (faultyCalls_openRead r x)] at hfile
  obtain ⟨⟨s₁, buffer, status⟩, hloop, hfile⟩ := bind_eq_ok.mp hfile
  obtain rfl := readLoop_status hloop
  simp only [ne_eq, not_true_eq_false, if_false] at hfile
  exact absurd (congrArg Prod.snd (Except.ok.inj hfile)) (by simp)

/-- One byte where two are asked for: read_file never returns. -/
theorem one_byte_of_two_unreported :
    ¬(⟨[97], 2, by decide, by decide⟩ : ReadRequest).ReportsShort
      ⟨⟨fun _ _ => 0, fun _ _ h => h⟩, fun _ => false⟩ := by
  rintro ⟨n, s', hfile⟩
  rw [short_store_unfinished _ _ (by decide) (fun _ => rfl)] at hfile
  exact absurd hfile (by simp)

end Aesd.Server
