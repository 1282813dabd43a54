import Aesd.Driver.CharDevice

/-! What the C code of the server computes with: ints, malloc'd buffers whose cells may
be uninitialised, and the ways in which a thread stops short of its next statement. -/
namespace Aesd.Server
open Aesd.Foundations Aesd.Driver

def intMax : Nat := 2147483647

def FitsInt (n : Int) : Prop := n.toNat ≤ intMax ∧ (-n).toNat ≤ intMax + 1

instance (n : Int) : Decidable (FitsInt n) := inferInstanceAs (Decidable (_ ∧ _))

/-- Why a thread gets no further: exit(1), undefined behaviour, or a call that has not
returned or a loop that has not ended within the steps considered. -/
inductive Stop where
  | exited : Stop
  | undefined : Stop
  | unfinished : Stop
  deriving DecidableEq, Repr

@[simp] theorem ok_bind {α β : Type} (a : α) (f : α → Except Stop β) : (Except.ok a >>= f) = f a := rfl

@[simp] theorem error_bind {α β : Type} (e : Stop) (f : α → Except Stop β) :
    (Except.error e >>= f) = .error e := rfl

theorem bind_eq_ok {α β : Type} {x : Except Stop α} {f : α → Except Stop β} {b : β} :
    (x >>= f) = .ok b ↔ ∃ a, x = .ok a ∧ f a = .ok b := by
  cases x <;> simp

theorem toOption_eq_some {α : Type} {x : Except Stop α} {a : α} : x.toOption = some a ↔ x = .ok a := by
  cases x <;> simp [Except.toOption]

/-- The sum of two ints; on overflow it is undefined. -/
def addInt (a b : Int) : Except Stop Int :=
  if FitsInt (a + b) then .ok (a + b) else .error .undefined

/-- The conversion of a long to int, modulo 2^32. -/
def toInt (n : Int) : Int := if FitsInt n then n else n.bmod 4294967296

theorem addInt_of_le {a b : Int} (ha : 0 ≤ a) (hb : 0 ≤ b) (h : a + b ≤ intMax) : addInt a b = .ok (a + b) := by
  apply if_pos
  unfold FitsInt
  omega

theorem addInt_natCast {a b : Nat} (h : a + b ≤ intMax) : addInt a b = .ok ((a : Int) + b) :=
  addInt_of_le (Int.natCast_nonneg a) (Int.natCast_nonneg b) (by omega)

theorem addInt_of_lt {a b : Int} (h : intMax < a + b) : addInt a b = .error .undefined := by
  apply if_neg
  unfold FitsInt
  omega

theorem addInt_eq_ok {a b c : Int} (h : addInt a b = .ok c) : c = a + b ∧ c ≤ intMax := by
  unfold addInt at h
  split at h
  · rename_i hfits
    obtain rfl := Except.ok.inj h
    unfold FitsInt at hfits
    omega
  · exact absurd h (by simp)

theorem addInt_cases (a b : Int) : addInt a b = .ok (a + b) ∨ addInt a b = .error .undefined := by
  unfold addInt
  split
  · exact .inl rfl
  · exact .inr rfl

theorem toInt_of_le {n : Int} (h₀ : 0 ≤ n) (h : n ≤ intMax) : toInt n = n := by
  apply if_pos
  unfold FitsInt
  omega

abbrev Cell := Option Byte

abbrev Buffer := List Cell

/-- Stores bytes from an index on, as recv and read do; outside the block it is undefined. -/
def place (b : Buffer) (i : Int) (data : List Byte) : Except Stop Buffer :=
  if data = [] then .ok b
  else if 0 ≤ i ∧ i + data.length ≤ b.length then .ok (overwrite b i.toNat (data.map some))
  else .error .undefined

theorem length_place {b b' : Buffer} {i : Int} {data : List Byte} (h : place b i data = .ok b') :
    b'.length = b.length := by
  unfold place at h
  split at h
  · rw [Except.ok.inj h]
  · split at h
    · rename_i hfit
      rw [← Except.ok.inj h]
      apply length_overwrite
      rw [List.length_map]
      omega
    · exact absurd h (by simp)

/-- The byte at an index; outside the block or uninitialised it is undefined. -/
def byteAt (b : Buffer) (i : Int) : Except Stop Byte :=
  if i < 0 then .error .undefined
  else match b[i.toNat]? with
    | some (some x) => .ok x
    | _ => .error .undefined

/-- The first n bytes of a block, as write and send read them. -/
def firstBytes (b : Buffer) (n : Int) : Except Stop (List Byte) :=
  if 0 ≤ n ∧ n ≤ b.length then
    match (b.take n.toNat).mapM id with
    | some data => .ok data
    | none => .error .undefined
  else .error .undefined

/-- malloc of an int size; no allocator serves the size_t that a negative int becomes. -/
def malloc (granted : Bool) (n : Int) : Option Buffer :=
  if granted = true ∧ 0 ≤ n then some (List.replicate n.toNat none) else none

/-- A successful realloc keeps the common prefix; what it adds is not initialised. -/
def resize (b : Buffer) (n : Int) : Buffer := b.take n.toNat ++ List.replicate (n.toNat - b.length) none

def StartsWith (b : Buffer) (data : List Byte) : Prop := data.map some <+: b

section StartsWith
variable {b : Buffer} {data : List Byte}

theorem StartsWith.length_le (h : StartsWith b data) : data.length ≤ b.length := by
  simpa using List.IsPrefix.length_le h

theorem startsWith_nil (b : Buffer) : StartsWith b [] := List.nil_prefix

theorem StartsWith.getElem? (h : StartsWith b data) {i : Nat} {x : Byte} (hx : data[i]? = some x) :
    b[i]? = some (some x) := by
  obtain ⟨t, rfl⟩ := h
  obtain ⟨hi, _⟩ := List.getElem?_eq_some_iff.mp hx
  rw [List.getElem?_append_left (by simpa using hi), List.getElem?_map, hx, Option.map_some]

/-- Bytes placed after a known beginning extend it. -/
theorem StartsWith.place (h : StartsWith b data) (more : List Byte)
    (hfit : data.length + more.length ≤ b.length) :
    ∃ b', place b data.length more = .ok b' ∧ StartsWith b' (data ++ more) ∧ b'.length = b.length := by
  by_cases hm : more = []
  · subst hm
    exact ⟨b, if_pos rfl, by rwa [List.append_nil], rfl⟩
  · have hlen : data.length + (more.map some).length ≤ b.length := by simpa using hfit
    refine ⟨overwrite b data.length (more.map some), ?_, ?_, length_overwrite hlen⟩
    · simp only [Server.place, if_neg hm]
      rw [if_pos ⟨by omega, by omega⟩, Int.toNat_natCast]
    · have ht : (overwrite b data.length (more.map some)).take (data.length + more.length) =
          b.take data.length ++ (more.map some).take more.length := take_overwrite h.length_le (by simp)
      have hb : b.take data.length = data.map some := by
        rw [List.prefix_iff_eq_take.mp h, List.length_map]
      have hmore : (more.map some).take more.length = more.map some := List.take_of_length_le (by simp)
      rw [hb, hmore] at ht
      rw [StartsWith, List.map_append, ← ht]
      exact List.take_prefix _ _

theorem StartsWith.of_place {b' : Buffer} {more : List Byte} (h : StartsWith b data)
    (hplace : Server.place b data.length more = .ok b') : StartsWith b' (data ++ more) := by
  have hfit : data.length + more.length ≤ b.length := by
    have hle := h.length_le
    unfold Server.place at hplace
    split at hplace
    · rename_i hnil
      rw [hnil]
      exact hle
    · split at hplace
      · omega
      · exact absurd hplace (by simp)
  obtain ⟨b₁, hb₁, hstarts, _⟩ := h.place more hfit
  obtain rfl : b₁ = b' := Except.ok.inj (hb₁.symm.trans hplace)
  exact hstarts

theorem StartsWith.byteAt (h : StartsWith b data) {i : Nat} {x : Byte} (hx : data[i]? = some x) :
    byteAt b i = .ok x := by
  simp [Server.byteAt, h.getElem? hx]

/-- The byte at total - 1 is the last one received. -/
theorem StartsWith.byteAt_last (h : StartsWith b data) (hd : data ≠ []) :
    Server.byteAt b ((data.length : Int) - 1) = .ok (data.getLast hd) := by
  have hpos := List.length_pos_of_ne_nil hd
  rw [show (data.length : Int) - 1 = ((data.length - 1 : Nat) : Int) by omega]
  apply h.byteAt
  rw [List.getLast_eq_getElem, List.getElem?_eq_getElem (by omega)]

theorem StartsWith.byteAt_concat {more : List Byte} (h : StartsWith b (data ++ more)) (hmore : more ≠ []) :
    Server.byteAt b ((data.length : Int) + more.length - 1) = .ok (more.getLast hmore) := by
  have hlast := h.byteAt_last (List.append_ne_nil_of_right_ne_nil data hmore)
  rwa [List.length_append, Int.natCast_add, List.getLast_append_of_ne_nil _ hmore] at hlast

private theorem mapM_id_some (data : List Byte) : (data.map some).mapM id = some data := by
  induction data with
  | nil => rfl
  | cons x data ih =>
    rw [List.map_cons, List.mapM_cons, ih]
    rfl

theorem StartsWith.firstBytes (h : StartsWith b data) : firstBytes b data.length = .ok data := by
  have hb : b.take data.length = data.map some := by
    rw [List.prefix_iff_eq_take.mp h, List.length_map]
  have hle := h.length_le
  rw [Server.firstBytes, if_pos (by omega), Int.toNat_natCast, hb, mapM_id_some]

private theorem length_of_mapM_id {b : Buffer} {data : List Byte} (h : b.mapM id = some data) :
    data.length = b.length := by
  induction b generalizing data with
  | nil =>
    obtain rfl : [] = data := Option.some.inj h
    rfl
  | cons x b ih =>
    rw [List.mapM_cons] at h
    obtain ⟨y, _, h⟩ := Option.bind_eq_some_iff.mp h
    obtain ⟨ys, hys, h⟩ := Option.bind_eq_some_iff.mp h
    obtain rfl : y :: ys = data := Option.some.inj h
    rw [List.length_cons, List.length_cons, ih hys]

theorem length_of_firstBytes {n : Int} (h : Server.firstBytes b n = .ok data) : (data.length : Int) = n := by
  unfold Server.firstBytes at h
  split at h
  · rename_i hn
    split at h
    · rename_i data' hdata
      obtain rfl := Except.ok.inj h
      rw [length_of_mapM_id hdata, List.length_take]
      omega
    · exact absurd h (by simp)
  · exact absurd h (by simp)

theorem StartsWith.resize (h : StartsWith b data) {n : Int} (hn : data.length ≤ n) :
    StartsWith (resize b n) data := by
  obtain ⟨t, rfl⟩ := h
  rw [StartsWith, Server.resize, List.take_append, List.take_of_length_le (by simp; omega), List.append_assoc]
  exact List.prefix_append _ _

theorem length_resize (b : Buffer) {n : Int} (hn : 0 ≤ n) : ((resize b n).length : Int) = n := by
  simp only [resize, List.length_append, List.length_take, List.length_replicate]
  omega

end StartsWith
end Aesd.Server
