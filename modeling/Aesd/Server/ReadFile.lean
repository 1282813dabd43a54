import Aesd.Server.Process

/-! read_file of the server: one open, one malloc of the expected length, and a loop of
reads that each ask for that whole length again, until exactly so much has arrived. -/
namespace Aesd.Server
open Aesd.Foundations Aesd.Driver

/-- How a store serves one session: the opens for appending and for reading (none is -1),
the write, and the session's i-th read; the two calls answer their return value, and a
read also the bytes it delivers. -/
structure StoreCalls (σ : Type) where
  openAppend : σ → Option σ
  write : σ → List Byte → Except Stop (σ × Int)
  openRead : σ → Option σ
  read : Nat → σ → Nat → Except Stop (σ × Int × List Byte)

variable {σ : Type}

def readLoop (read : Nat → σ → Nat → Except Stop (σ × Int × List Byte)) (length : Int) :
    Nat → Nat → σ → Buffer → Int → Except Stop (σ × Buffer × Int)
  | 0, _, _, _, _ => .error .unfinished
  | fuel + 1, i, s, buffer, status => do
    let (s, n, data) ← read i s length.toNat
    let buffer ← place buffer status data
    let status := toInt (status + n)
    if status ≠ length then readLoop read length fuel (i + 1) s buffer status
    else return (s, buffer, status)

/-- The store afterwards and the filled buffer, which is missing where read_file returns -1. -/
def readFile (store : StoreCalls σ) (granted : Bool) (fuel : Nat) (s : σ) (readDataLen : Int) :
    Except Stop (σ × Option Buffer) :=
  match store.openRead s with
  | none => .ok (s, none)
  | some s =>
    match malloc granted readDataLen with
    | none => .ok (s, none)
    | some buffer => do
      let (s, buffer, status) ← readLoop store.read readDataLen fuel 0 s buffer 0
      if status ≠ readDataLen then return (s, none) else return (s, some buffer)

/-- Reads deliver a content in order: at a position they return what follows it, at most
what is asked for, and something if something is asked for and left. -/
def Serves (read : Nat → σ → Nat → Except Stop (σ × Int × List Byte)) (At : σ → Nat → Prop)
    (content : List Byte) : Prop :=
  ∀ i s n p, At s p → p ≤ content.length →
    ∃ s', ∃ k : Nat, read i s n = .ok (s', (k : Int), (content.drop p).take k) ∧ At s' (p + k) ∧
      k ≤ n ∧ p + k ≤ content.length ∧ (0 < n → p < content.length → 0 < k)

section Loop
variable {read : Nat → σ → Nat → Except Stop (σ × Int × List Byte)} {At : σ → Nat → Prop}
  {content : List Byte} {s s' : σ} {buffer buffer' : Buffer} {length status status' : Int} {i p fuel : Nat}

private theorem take_append_take_drop (content : List Byte) (p k : Nat) :
    content.take p ++ (content.drop p).take k = content.take (p + k) := (List.take_add ..).symm

/-- When the length asked for is that of the content, the loop ends within as many more
reads as bytes are left, with the content in the buffer. -/
theorem readLoop_whole (hserves : Serves read At content) (hmax : content.length ≤ intMax)
    (hat : At s p) (hp : p ≤ content.length) (hfuel : content.length - p < fuel)
    (hstarts : StartsWith buffer (content.take p)) (hlen : buffer.length = content.length) :
    ∃ s' buffer', readLoop read content.length fuel i s buffer p = .ok (s', buffer', (content.length : Int)) ∧
      StartsWith buffer' content ∧ ∃ q, At s' q := by
  induction fuel generalizing i s buffer p with
  | zero => exact absurd hfuel (Nat.not_lt_zero _)
  | succ fuel ih =>
    obtain ⟨s₁, k, hread, hat₁, hk, hle, hprogress⟩ := hserves i s content.length p hat hp
    have hdata : ((content.drop p).take k).length = k := by
      rw [List.length_take, List.length_drop]
      omega
    have htake : (content.take p).length = p := by simp [hp]
    obtain ⟨buffer₁, hplace, hstarts₁, hlen₁⟩ := hstarts.place ((content.drop p).take k) (by omega)
    rw [htake] at hplace
    rw [take_append_take_drop] at hstarts₁
    have hstatus : toInt ((p : Int) + k) = ((p + k : Nat) : Int) := toInt_of_le (by omega) (by omega)
    have hn : (content.length : Int).toNat = content.length := Int.toNat_natCast _
    rw [readLoop, hn, hread, ok_bind]
    simp only [hplace, ok_bind, hstatus]
    by_cases hdone : p + k = content.length
    · refine ⟨s₁, buffer₁, ?_, ?_, _, hat₁⟩
      · rw [hdone, if_neg (by simp)]
        rfl
      · rwa [hdone, List.take_length] at hstarts₁
    · rw [if_pos (by omega)]
      have hpos : 0 < k := hprogress (by omega) (by omega)
      exact ih hat₁ hle (by omega) hstarts₁ (hlen₁.trans hlen)

/-- The loop ends with the length asked for and with no other status, whatever reads answer. -/
theorem readLoop_status (h : readLoop read length fuel i s buffer status = .ok (s', buffer', status')) :
    status' = length := by
  induction fuel generalizing i s buffer status with
  | zero => exact absurd h (by simp [readLoop])
  | succ fuel ih =>
    rw [readLoop] at h
    obtain ⟨⟨s₁, n, data⟩, _, h⟩ := bind_eq_ok.mp h
    obtain ⟨buffer₁, _, h⟩ := bind_eq_ok.mp h
    simp only at h
    split at h
    · exact ih h
    · rename_i hdone
      obtain ⟨_, _, rfl⟩ : s₁ = s' ∧ buffer₁ = buffer' ∧ toInt (status + n) = status' := by
        simpa using Except.ok.inj h
      exact not_not.mp hdone

/-- However the loop ends, exactly the length asked for has been counted, the buffer is
as long as it was, and the reader still stands within the content. -/
theorem readLoop_ok (hserves : Serves read At content) (hat : At s p) (hp : p ≤ content.length)
    (h : readLoop read length fuel i s buffer status = .ok (s', buffer', status')) :
    status' = length ∧ buffer'.length = buffer.length ∧ ∃ q, At s' q := by
  refine ⟨readLoop_status h, ?_⟩
  induction fuel generalizing i s buffer status p with
  | zero => exact absurd h (by simp [readLoop])
  | succ fuel ih =>
    obtain ⟨s₁, k, hread, hat₁, _, hle, _⟩ := hserves i s length.toNat p hat hp
    rw [readLoop, hread, ok_bind] at h
    obtain ⟨buffer₁, hplace, h⟩ := bind_eq_ok.mp h
    have hlen := length_place hplace
    simp only at h
    split at h
    · obtain ⟨hlen', hq⟩ := ih hat₁ hle h
      exact ⟨hlen'.trans hlen, hq⟩
    · obtain ⟨rfl, rfl, _⟩ : s₁ = s' ∧ buffer₁ = buffer' ∧ toInt (status + k) = status' := by
        simpa using Except.ok.inj h
      exact ⟨hlen, _, hat₁⟩

/-- The loop of read_file ends only with as much of the content in the buffer as it asks for. -/
theorem readLoop_takes (hserves : Serves read At content) (hmax : buffer.length ≤ intMax) (hat : At s p)
    (hp : p ≤ content.length) (hstarts : StartsWith buffer (content.take p))
    (h : readLoop read buffer.length fuel i s buffer p = .ok (s', buffer', status)) :
    buffer.length ≤ content.length ∧ StartsWith buffer' (content.take buffer.length) := by
  induction fuel generalizing i s buffer p with
  | zero => exact absurd h (by simp [readLoop])
  | succ fuel ih =>
    obtain ⟨s₁, k, hread, hat₁, _, hle, _⟩ := hserves i s (buffer.length : Int).toNat p hat hp
    rw [readLoop, hread, ok_bind] at h
    obtain ⟨buffer₁, hplace, h⟩ := bind_eq_ok.mp h
    have hlen := length_place hplace
    have htake : (content.take p).length = p := by simp [hp]
    have hstarts₁ : StartsWith buffer₁ (content.take (p + k)) := by
      rw [List.take_add]
      exact hstarts.of_place (by rwa [htake])
    have hroom : p + k ≤ buffer.length := by
      rw [← hlen]
      simpa [hle] using hstarts₁.length_le
    have hstatus : toInt ((p : Int) + k) = ((p + k : Nat) : Int) := toInt_of_le (by omega) (by omega)
    simp only [hstatus] at h
    split at h
    · rw [← hlen] at h hmax ⊢
      exact ih hmax hat₁ hle hstarts₁ h
    · rename_i hdone
      have hall : p + k = buffer.length := Int.ofNat_inj.mp (not_not.mp hdone)
      obtain ⟨_, rfl, _⟩ : s₁ = s' ∧ buffer₁ = buffer' ∧ ((p + k : Nat) : Int) = status := by
        simpa using Except.ok.inj h
      rw [← hall]
      exact ⟨hle, hstarts₁⟩

end Loop

section ReadFile
variable {store : StoreCalls σ} {At : σ → Nat → Prop} {content : List Byte} {s s₁ s' : σ} {fuel : Nat}

/-- read_file once the store has been opened and the buffer allocated. -/
theorem readFile_granted (hopen : store.openRead s = some s₁) (n : Nat) :
    readFile store true fuel s n = (do
      let (s, buffer, status) ← readLoop store.read n fuel 0 s₁ (List.replicate n none) 0
      if status ≠ (n : Int) then return (s, none) else return (s, some buffer)) := by
  have hmalloc : malloc true n = some (List.replicate n none) := by simp [malloc]
  simp only [readFile, hopen, hmalloc]

/-- read_file on a store of exactly the expected length returns its content. -/
theorem readFile_whole (hopen : store.openRead s = some s₁) (hat : At s₁ 0)
    (hserves : Serves store.read At content) (hmax : content.length ≤ intMax) (hfuel : content.length < fuel) :
    ∃ s' buffer, readFile store true fuel s content.length = .ok (s', some buffer) ∧
      StartsWith buffer content ∧ ∃ q, At s' q := by
  obtain ⟨s', buffer, hloop, hstarts, hq⟩ := readLoop_whole (i := 0) hserves hmax hat (Nat.zero_le _)
    (show content.length - 0 < fuel by omega) (startsWith_nil (List.replicate content.length none)) (by simp)
  rw [Int.natCast_zero] at hloop
  refine ⟨s', buffer, ?_, hstarts, hq⟩
  rw [readFile_granted hopen, hloop, ok_bind]
  exact if_neg (by simp)

/-- A buffer that read_file fills is as long as it was asked for. -/
theorem readFile_ok {readDataLen : Int} {granted : Bool} {buffer : Buffer}
    (hopen : store.openRead s = some s₁) (hat : At s₁ 0) (hserves : Serves store.read At content)
    (h : readFile store granted fuel s readDataLen = .ok (s', some buffer)) :
    (buffer.length : Int) = readDataLen ∧ ∃ q, At s' q := by
  simp only [readFile, hopen] at h
  cases hm : malloc granted readDataLen with
  | none => simp [hm] at h
  | some block =>
    have hblock : (block.length : Int) = readDataLen := by
      unfold malloc at hm
      split at hm
      · rename_i hn
        rw [← Option.some.inj hm, List.length_replicate]
        omega
      · exact absurd hm (by simp)
    simp only [hm] at h
    obtain ⟨⟨s₂, buffer₂, status⟩, hloop, h⟩ := bind_eq_ok.mp h
    obtain ⟨rfl, hlen, hq⟩ := readLoop_ok hserves hat (Nat.zero_le _) hloop
    simp only [ne_eq, not_true_eq_false, if_false] at h
    obtain ⟨rfl, rfl⟩ : s₂ = s' ∧ buffer₂ = buffer := by simpa using Except.ok.inj h
    exact ⟨by rw [hlen, hblock], hq⟩

/-- It holds the beginning of the content, which is at least as long. -/
theorem readFile_takes {n : Nat} {buffer : Buffer} (hmax : n ≤ intMax) (hopen : store.openRead s = some s₁)
    (hat : At s₁ 0) (hserves : Serves store.read At content)
    (h : readFile store true fuel s n = .ok (s', some buffer)) :
    n ≤ content.length ∧ StartsWith buffer (content.take n) := by
  rw [readFile_granted hopen] at h
  obtain ⟨⟨s₂, buffer', status⟩, hloop, h⟩ := bind_eq_ok.mp h
  obtain rfl := readLoop_status hloop
  simp only [ne_eq, not_true_eq_false, if_false] at h
  obtain ⟨rfl, rfl⟩ : s₂ = s' ∧ buffer' = buffer := by simpa using Except.ok.inj h
  generalize hblock : List.replicate n (none : Cell) = block at hloop
  obtain rfl : block.length = n := by rw [← hblock, List.length_replicate]
  exact readLoop_takes (p := 0) hserves hmax hat (Nat.zero_le _) (startsWith_nil _) hloop

end ReadFile
end Aesd.Server
