import Aesd.Server.Process

/-! The receive loop of thread_callback. It grows recv_data as chunks arrive and ends
at the first chunk whose last byte is a newline; a newline inside a chunk is not seen. -/
namespace Aesd.Server
open Aesd.Foundations Aesd.Driver

/-- const int recv_len = 100 -/
def recvLen : Nat := 100

/-- What one iteration is given: the bytes recv delivers (none is -1, no bytes is a
closed connection) and whether realloc succeeds. -/
structure Delivery where
  bytes : Option (List Byte)
  realloc : Bool

structure Receiving where
  recvData : Buffer
  total : Int

/-- The malloc and memset before the loop; memset of NULL is undefined. -/
def receiveStart (malloc : Bool) : Except Stop Receiving :=
  if malloc then .ok ⟨List.replicate recvLen (some 0), 0⟩ else .error .undefined

/-- One iteration of the loop, with the value it gives to found. -/
def receiveOnce (r : Receiving) (d : Delivery) : Except Stop (Receiving × Bool) :=
  match d.bytes with
  | none => .error .exited
  | some bytes => do
    let recvData ← place r.recvData r.total bytes
    let total ← addInt r.total bytes.length
    let last ← byteAt recvData (total - 1)
    let size ← addInt total recvLen
    if d.realloc then return (⟨resize recvData size, total⟩, last == newline)
    else throw .exited

def receiveLoop : Receiving → List Delivery → Except Stop Receiving
  | _, [] => .error .unfinished
  | r, d :: ds => do
    let (r, found) ← receiveOnce r d
    if found then return r else receiveLoop r ds

/-- The bytes that the loop leaves for write, given a malloc and deliveries that may fail. -/
def receivePacket (malloc : Bool) (ds : List Delivery) : Except Stop (List Byte) := do
  let r ← receiveStart malloc
  let r ← receiveLoop r ds
  firstBytes r.recvData r.total

def delivered (c : List Byte) : Delivery := ⟨some c, true⟩

/-- A way in which a stream can be delivered: recv results of 1 to 100 bytes. -/
structure Segmentation (s : List Byte) where
  chunks : List (List Byte)
  flatten_eq : chunks.flatten = s
  sized : ∀ c ∈ chunks, c ≠ [] ∧ c.length ≤ recvLen

def untilNewline : List (List Byte) → Option (List (List Byte))
  | [] => none
  | c :: cs => if c.getLast? = some newline then some [c] else (untilNewline cs).map (c :: ·)

def Unended (cs : List (List Byte)) : Prop := ∀ c ∈ cs, c.getLast? ≠ some newline

/-- The loop has received these bytes and has room for another recv. -/
structure Receiving.Holds (r : Receiving) (b : List Byte) : Prop where
  total : r.total = b.length
  starts : StartsWith r.recvData b
  room : r.recvData.length = b.length + recvLen

section Loop
variable {r r' : Receiving} {b c : List Byte} {cs ds : List (List Byte)}

theorem receiveStart_holds : ∃ r, receiveStart true = .ok r ∧ r.Holds [] :=
  ⟨_, rfl, rfl, startsWith_nil _, rfl⟩

theorem Receiving.Holds.firstBytes (h : r.Holds b) : firstBytes r.recvData r.total = .ok b := by
  rw [h.total]
  exact h.starts.firstBytes

theorem receiveOnce_delivered {recvData : Buffer} (h : place r.recvData r.total c = .ok recvData) :
    receiveOnce r (delivered c) = (do
      let total ← addInt r.total c.length
      let last ← byteAt recvData (total - 1)
      let size ← addInt total recvLen
      return (⟨resize recvData size, total⟩, last == newline)) := by
  rw [receiveOnce, delivered]
  simp only [h, ok_bind, if_true]

/-- Up to overflow, an iteration appends its chunk, makes room for the next and finds a
newline exactly at the chunk's end. -/
theorem receiveOnce_eq (h : r.Holds b) (hc : c ≠ []) (hsize : c.length ≤ recvLen) :
    ∃ recvData found, StartsWith recvData (b ++ c) ∧ (found = true ↔ c.getLast? = some newline) ∧
      receiveOnce r (delivered c) = (do
        let total ← addInt b.length c.length
        let size ← addInt total recvLen
        return (⟨resize recvData size, total⟩, found)) := by
  have hroom := h.room
  have hpos := List.length_pos_of_ne_nil hc
  obtain ⟨recvData, hplace, hstarts, _⟩ := h.starts.place c (by omega)
  have hbyte := hstarts.byteAt_concat hc
  refine ⟨recvData, c.getLast hc == newline, hstarts, ?_, ?_⟩
  · rw [List.getLast?_eq_some_getLast hc]
    simp
  · rw [receiveOnce_delivered (by rw [h.total]; exact hplace), h.total]
    rcases addInt_cases b.length c.length with htotal | htotal
    · simp only [htotal, ok_bind, hbyte]
    · simp only [htotal, error_bind]

theorem receiveOnce_holds (h : r.Holds b) (hc : c ≠ []) (hsize : c.length ≤ recvLen)
    (hmax : b.length + c.length + recvLen ≤ intMax) :
    ∃ r' found, receiveOnce r (delivered c) = .ok (r', found) ∧
      (found = true ↔ c.getLast? = some newline) ∧ r'.Holds (b ++ c) := by
  obtain ⟨recvData, found, hstarts, hfound, heq⟩ := receiveOnce_eq h hc hsize
  have htotal : addInt b.length c.length = .ok ((b.length : Int) + c.length) := addInt_natCast (by omega)
  have hgrow : addInt ((b.length : Int) + c.length) recvLen = .ok ((b.length : Int) + c.length + recvLen) :=
    addInt_of_le (by omega) (by omega) (by omega)
  simp only [htotal, ok_bind, hgrow] at heq
  refine ⟨_, found, heq, hfound, by simp, hstarts.resize (by simp), ?_⟩
  have hlen := length_resize recvData (n := (b.length : Int) + c.length + recvLen) (by omega)
  simp only [List.length_append]
  omega

theorem receiveOnce_overflow (h : r.Holds b) (hc : c ≠ []) (hsize : c.length ≤ recvLen)
    (hmax : intMax < b.length + c.length + recvLen) :
    receiveOnce r (delivered c) = .error .undefined := by
  obtain ⟨recvData, found, _, _, heq⟩ := receiveOnce_eq h hc hsize
  rcases addInt_cases b.length c.length with htotal | htotal
  · rw [heq, htotal, ok_bind, addInt_of_lt (by omega), error_bind]
  · rw [heq, htotal, error_bind]

/-- The loop ends at the first chunk that ends with a newline. -/
theorem receiveLoop_holds (h : r.Holds b) (hcs : ∀ c ∈ cs, c ≠ [] ∧ c.length ≤ recvLen)
    (hds : untilNewline cs = some ds) (hmax : b.length + ds.flatten.length + recvLen ≤ intMax) :
    ∃ r', receiveLoop r (cs.map delivered) = .ok r' ∧ r'.Holds (b ++ ds.flatten) := by
  induction cs generalizing r b ds with
  | nil => simp [untilNewline] at hds
  | cons c cs ih =>
    obtain ⟨hc, hsize⟩ := hcs c List.mem_cons_self
    rw [untilNewline] at hds
    split at hds
    · rename_i hlast
      obtain rfl : [c] = ds := Option.some.inj hds
      rw [List.flatten_singleton] at hmax ⊢
      obtain ⟨r', found, honce, hfound, hr'⟩ := receiveOnce_holds h hc hsize hmax
      refine ⟨r', ?_, hr'⟩
      rw [List.map_cons, receiveLoop, honce, ok_bind]
      exact if_pos (hfound.mpr hlast)
    · rename_i hlast
      obtain ⟨ds, hrest, rfl⟩ := Option.map_eq_some_iff.mp hds
      rw [List.flatten_cons, List.length_append] at hmax
      obtain ⟨r₁, found, honce, hfound, hr₁⟩ := receiveOnce_holds h hc hsize (by omega)
      obtain ⟨r', hloop, hr'⟩ := ih hr₁ (fun d hd => hcs d (List.mem_cons_of_mem c hd)) hrest
        (by rw [List.length_append]; omega)
      refine ⟨r', ?_, by rwa [List.flatten_cons, ← List.append_assoc]⟩
      rw [List.map_cons, receiveLoop, honce, ok_bind]
      exact (if_neg (mt hfound.mp hlast)).trans hloop

/-- It ends nowhere else, and only when no int overflows on the way: else it goes on with
what is delivered after these chunks. -/
theorem receiveLoop_chunks (h : r.Holds b) (hcs : ∀ c ∈ cs, c ≠ [] ∧ c.length ≤ recvLen)
    {rest : List Delivery} (hok : receiveLoop r (cs.map delivered ++ rest) = .ok r') :
    (∃ ds, untilNewline cs = some ds ∧ b.length + ds.flatten.length + recvLen ≤ intMax ∧
      r'.Holds (b ++ ds.flatten)) ∨
      ∃ r₁, r₁.Holds (b ++ cs.flatten) ∧ receiveLoop r₁ rest = .ok r' := by
  induction cs generalizing r b with
  | nil => exact .inr ⟨r, by simpa using h, hok⟩
  | cons c cs ih =>
    obtain ⟨hc, hsize⟩ := hcs c List.mem_cons_self
    rw [List.map_cons, List.cons_append, receiveLoop] at hok
    by_cases hmax : intMax < b.length + c.length + recvLen
    · rw [receiveOnce_overflow h hc hsize hmax, error_bind] at hok
      exact absurd hok (by simp)
    · obtain ⟨r₁, found, honce, hfound, hr₁⟩ := receiveOnce_holds h hc hsize (Nat.not_lt.mp hmax)
      rw [honce, ok_bind] at hok
      by_cases hlast : c.getLast? = some newline
      · left
        simp only [hfound.mpr hlast, if_true] at hok
        obtain rfl : r₁ = r' := Except.ok.inj hok
        refine ⟨[c], by simp [untilNewline, hlast], ?_, by simpa using hr₁⟩
        rw [List.flatten_singleton]
        exact Nat.not_lt.mp hmax
      · simp only [mt hfound.mp hlast] at hok
        have hlater := ih hr₁ (fun d hd => hcs d (List.mem_cons_of_mem c hd)) hok
        rw [List.flatten_cons, ← List.append_assoc]
        refine hlater.imp ?_ id
        rintro ⟨ds, hds, hle, hr'⟩
        rw [List.length_append] at hle
        refine ⟨c :: ds, by simp [untilNewline, hlast, hds], ?_, ?_⟩
        · rw [List.flatten_cons, List.length_append]
          omega
        · rwa [List.flatten_cons, ← List.append_assoc]

theorem receiveLoop_ok (h : r.Holds b) (hcs : ∀ c ∈ cs, c ≠ [] ∧ c.length ≤ recvLen)
    (hok : receiveLoop r (cs.map delivered) = .ok r') :
    ∃ ds, untilNewline cs = some ds ∧ b.length + ds.flatten.length + recvLen ≤ intMax ∧
      r'.Holds (b ++ ds.flatten) := by
  rw [← List.append_nil (cs.map delivered)] at hok
  rcases receiveLoop_chunks h hcs hok with hends | ⟨r₁, _, hrest⟩
  · exact hends
  · exact absurd hrest (by simp [receiveLoop])

/-- The packet is the chunks up to the first that ends with a newline. -/
theorem receivePacket_eq_iff (hcs : ∀ c ∈ cs, c ≠ [] ∧ c.length ≤ recvLen) (p : List Byte) :
    receivePacket true (cs.map delivered) = .ok p ↔
      ∃ ds, untilNewline cs = some ds ∧ ds.flatten = p ∧ p.length + recvLen ≤ intMax := by
  obtain ⟨r, hstart, hr⟩ := receiveStart_holds
  rw [receivePacket, hstart, ok_bind]
  constructor
  · intro hok
    cases hloop : receiveLoop r (cs.map delivered) with
    | error e => simp [hloop] at hok
    | ok r' =>
      obtain ⟨ds, hds, hle, hr'⟩ := receiveLoop_ok hr hcs hloop
      rw [hloop, ok_bind, hr'.firstBytes, List.nil_append] at hok
      obtain rfl := Except.ok.inj hok
      exact ⟨ds, hds, rfl, by simpa using hle⟩
  · rintro ⟨ds, hds, rfl, hle⟩
    obtain ⟨r', hloop, hr'⟩ := receiveLoop_holds hr hcs hds (by simpa using hle)
    rw [hloop, ok_bind, hr'.firstBytes, List.nil_append]

end Loop

def firstLine (s : List Byte) : List Byte := (s.takeWhile fun b => b ≠ newline) ++ [newline]

def EndsWithFirstNewline (cs : List (List Byte)) : Prop :=
  ∃ before c after, cs = before ++ (c ++ [newline]) :: after ∧ newline ∉ before.flatten ∧ newline ∉ c

section FirstLine
variable {cs : List (List Byte)}

private theorem takeWhile_line {b t : List Byte} (hb : newline ∉ b) :
    ((b ++ newline :: t).takeWhile fun x => x ≠ newline) = b := by
  rw [List.takeWhile_append_of_pos (fun x hx => by simpa using ne_of_mem_of_not_mem hx hb)]
  simp

/-- The first chunk that ends with a newline, and those before it. -/
theorem untilNewline_eq_some_iff {ds : List (List Byte)} : untilNewline cs = some ds ↔
    ∃ before c after, cs = before ++ c :: after ∧ ds = before ++ [c] ∧ Unended before ∧
      c.getLast? = some newline := by
  constructor
  · intro h
    induction cs generalizing ds with
    | nil => exact absurd h (by simp [untilNewline])
    | cons c cs ih =>
      rw [untilNewline] at h
      split at h
      · rename_i hlast
        exact ⟨[], c, cs, rfl, (Option.some.inj h).symm, by simp [Unended], hlast⟩
      · rename_i hlast
        obtain ⟨ds, hds, rfl⟩ := Option.map_eq_some_iff.mp h
        obtain ⟨before, d, after, rfl, rfl, hunended, hd⟩ := ih hds
        exact ⟨c :: before, d, after, rfl, rfl, List.forall_mem_cons.mpr ⟨hlast, hunended⟩, hd⟩
  · rintro ⟨before, c, after, rfl, rfl, hunended, hc⟩
    induction before with
    | nil => simp [untilNewline, hc]
    | cons d before ih =>
      obtain ⟨hd, hunended⟩ := List.forall_mem_cons.mp hunended
      rw [List.cons_append, untilNewline, if_neg hd, ih hunended]
      rfl

theorem untilNewline_eq_some {ds : List (List Byte)} (h : untilNewline cs = some ds) :
    ∃ before c after, cs = before ++ (c ++ [newline]) :: after ∧ ds = before ++ [c ++ [newline]] := by
  obtain ⟨before, c, after, hcs, hds, _, hc⟩ := untilNewline_eq_some_iff.mp h
  obtain ⟨d, rfl⟩ := List.getLast?_eq_some_iff.mp hc
  exact ⟨before, d, after, hcs, hds⟩

theorem untilNewline_append {before after : List (List Byte)} {c : List Byte}
    (hb : newline ∉ before.flatten) :
    untilNewline (before ++ (c ++ [newline]) :: after) = some (before ++ [c ++ [newline]]) := by
  refine untilNewline_eq_some_iff.mpr ⟨before, _, after, rfl, rfl, fun d hd hlast => hb ?_, by simp⟩
  exact List.mem_flatten_of_mem hd (List.mem_of_getLast? hlast)

theorem untilNewline_self {ds : List (List Byte)} (h : untilNewline cs = some ds) :
    untilNewline ds = some ds ∧ ds ⊆ cs := by
  obtain ⟨before, c, after, rfl, rfl, hunended, hc⟩ := untilNewline_eq_some_iff.mp h
  refine ⟨untilNewline_eq_some_iff.mpr ⟨before, c, [], rfl, rfl, hunended, hc⟩, ?_⟩
  rw [List.append_cons before c after]
  exact List.subset_append_left _ _

/-- The chunks received are the first line exactly when no newline stands inside a chunk
before the loop ends. -/
theorem flatten_eq_firstLine_iff :
    (∃ ds, untilNewline cs = some ds ∧ ds.flatten = firstLine cs.flatten) ↔ EndsWithFirstNewline cs := by
  constructor
  · rintro ⟨ds, hds, hline⟩
    obtain ⟨before, c, after, rfl, rfl⟩ := untilNewline_eq_some hds
    have hbody : before.flatten ++ c = (before ++ (c ++ [newline]) :: after).flatten.takeWhile
        fun b => b ≠ newline := by
      refine List.append_cancel_right (?_ : _ ++ [newline] = _ ++ [newline])
      simpa [firstLine] using hline
    have hnot : newline ∉ before.flatten ++ c := by
      rw [hbody]
      intro hm
      simpa using List.mem_takeWhile_imp hm
    rw [List.mem_append, not_or] at hnot
    exact ⟨before, c, after, rfl, hnot.1, hnot.2⟩
  · rintro ⟨before, c, after, rfl, hb, hc⟩
    refine ⟨_, untilNewline_append hb, ?_⟩
    have hflat : (before ++ (c ++ [newline]) :: after).flatten =
        (before.flatten ++ c) ++ newline :: after.flatten := by simp
    rw [firstLine, hflat, takeWhile_line (by simp [hb, hc])]
    simp

end FirstLine

namespace Segmentation
variable {s : List Byte}

/-- The packet that thread_callback writes to the store. -/
def packet (a : Segmentation s) : Except Stop (List Byte) := receivePacket true (a.chunks.map delivered)

theorem packet_eq_firstLine_iff (a : Segmentation s) :
    a.packet = .ok (firstLine s) ↔
      EndsWithFirstNewline a.chunks ∧ (firstLine s).length + recvLen ≤ intMax := by
  rw [packet, receivePacket_eq_iff a.sized, ← flatten_eq_firstLine_iff, a.flatten_eq]
  constructor
  · rintro ⟨ds, hds, hline, hmax⟩
    exact ⟨⟨ds, hds, hline⟩, hmax⟩
  · rintro ⟨⟨ds, hds, hline⟩, hmax⟩
    exact ⟨ds, hds, hline, hmax⟩

end Segmentation

/-- Two deliveries of a stream both give its first line exactly when in each the chunk
with the first newline ends there, and the line leaves room for a recv within INT_MAX. -/
theorem segmentation_invisible_iff (s : List Byte) (a a' : Segmentation s) :
    a.packet = .ok (firstLine s) ∧ a'.packet = .ok (firstLine s) ↔
      EndsWithFirstNewline a.chunks ∧ EndsWithFirstNewline a'.chunks ∧
        (firstLine s).length + recvLen ≤ intMax := by
  rw [a.packet_eq_firstLine_iff, a'.packet_eq_firstLine_iff]
  tauto

/-- "a\nb\n" in one recv result is one packet, where two results give "a\n". -/
theorem segmentation_visible_inside_chunk :
    ∃ a a' : Segmentation [97, 10, 98, 10], a.packet = .ok (firstLine [97, 10, 98, 10]) ∧
      a'.packet = .ok [97, 10, 98, 10] ∧ a'.packet ≠ .ok (firstLine [97, 10, 98, 10]) := by
  refine ⟨⟨[[97, 10], [98, 10]], rfl, by decide⟩, ⟨[[97, 10, 98, 10]], rfl, by decide⟩, ?_, ?_, ?_⟩
  · decide
  · decide
  · decide

end Aesd.Server
