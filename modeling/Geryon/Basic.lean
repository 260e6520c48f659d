import Mathlib.Tactic.Common
import Mathlib.Data.UInt

/-!
# Error codes, octets and wire integers

The error codes of `core/error.h`, the byte strings every layer works on and the big-endian
integers of `core/encode.c`.

A byte string is a list over an octet type `β`. The compiled library has `β = UInt8`; nothing in
the model looks inside an octet except through `Octet.toByte`, and nothing makes one except through
`Octet.ofByte`, so the same definitions also run over larger alphabets. This matters for the
idealised primitives: a key derivation with 32-octet outputs that never collides exists over an
infinite alphabet of symbols, and over no finite one.
-/

namespace Geryon

/-- The negative return codes of `core/error.h`; `GY_OK` is `Except.ok`. -/
inductive GyErr where
  | arg | crypto | verify | toolong | weakKey | state | unsupported | keyChanged | expired
  | notFound | noSpace
  deriving DecidableEq, Repr

/-- An alphabet that contains the bytes. -/
class Octet (β : Type) where
  /-- The octet that stands for a byte. -/
  ofByte : UInt8 → β
  /-- The byte an integer read sees in an octet. -/
  toByte : β → UInt8
  /-- Reading a byte back gives the byte. -/
  toByte_ofByte : ∀ b, toByte (ofByte b) = b

attribute [simp] Octet.toByte_ofByte

instance : Octet UInt8 := ⟨id, id, fun _ => rfl⟩

/-- Byte strings over an octet type. -/
abbrev Bytes (β : Type) := List β

variable {β : Type} [Octet β]

open Octet

/-- Write bytes given as numbers. -/
def octets (l : List Nat) : Bytes β := l.map fun v => ofByte (UInt8.ofNat v)

/-- `n` zero bytes. -/
def zeros (n : Nat) : Bytes β := List.replicate n (ofByte 0)

/-- The bytes of an ASCII string, without a terminator. -/
def ascii (s : String) : Bytes β := s.toList.map fun c => ofByte (UInt8.ofNat c.toNat)

/-- The value of the octet at a position, as an integer; a read past the end gives `0`. -/
def byteAt (b : Bytes β) (i : Nat) : Nat := (b[i]?.map fun x => (toByte x).toNat).getD 0

/-- `gy_be16_put`. -/
def be16Put (v : UInt16) : Bytes β := octets [v.toNat / 2 ^ 8, v.toNat]

/-- `gy_be32_put`. -/
def be32Put (v : UInt32) : Bytes β :=
  octets [v.toNat / 2 ^ 24, v.toNat / 2 ^ 16, v.toNat / 2 ^ 8, v.toNat]

/-- `gy_be64_put`. -/
def be64Put (v : UInt64) : Bytes β :=
  octets [v.toNat / 2 ^ 56, v.toNat / 2 ^ 48, v.toNat / 2 ^ 40, v.toNat / 2 ^ 32,
    v.toNat / 2 ^ 24, v.toNat / 2 ^ 16, v.toNat / 2 ^ 8, v.toNat]

/-- `gy_be16_get`. -/
def be16Get (b : Bytes β) : UInt16 := UInt16.ofNat (byteAt b 0 * 2 ^ 8 + byteAt b 1)

/-- `gy_be32_get`. -/
def be32Get (b : Bytes β) : UInt32 :=
  UInt32.ofNat (byteAt b 0 * 2 ^ 24 + byteAt b 1 * 2 ^ 16 + byteAt b 2 * 2 ^ 8 + byteAt b 3)

/-- `gy_be64_get`. -/
def be64Get (b : Bytes β) : UInt64 :=
  UInt64.ofNat (byteAt b 0 * 2 ^ 56 + byteAt b 1 * 2 ^ 48 + byteAt b 2 * 2 ^ 40 +
    byteAt b 3 * 2 ^ 32 + byteAt b 4 * 2 ^ 24 + byteAt b 5 * 2 ^ 16 + byteAt b 6 * 2 ^ 8 +
    byteAt b 7)

@[simp] theorem length_octets (l : List Nat) : (octets l : Bytes β).length = l.length := by
  simp [octets]

@[simp] theorem length_zeros (n : Nat) : (zeros n : Bytes β).length = n := by simp [zeros]

@[simp] theorem length_ascii (s : String) : (ascii s : Bytes β).length = s.length := by
  simp [ascii, String.length_toList]

@[simp] theorem length_be16Put (v : UInt16) : (be16Put v : Bytes β).length = 2 := rfl

@[simp] theorem length_be32Put (v : UInt32) : (be32Put v : Bytes β).length = 4 := rfl

@[simp] theorem length_be64Put (v : UInt64) : (be64Put v : Bytes β).length = 8 := rfl

/-- A 16-bit integer is read back from its encoding, whatever follows it. -/
@[simp] theorem be16Get_be16Put (v : UInt16) (rest : Bytes β) :
    be16Get (be16Put v ++ rest) = v := by
  have hv := v.toNat_lt
  apply UInt16.toNat_inj.mp
  simp only [be16Get, be16Put, octets, byteAt, List.map_cons, List.map_nil, List.cons_append,
    List.nil_append, List.getElem?_cons_zero, List.getElem?_cons_succ, Option.map_some,
    Option.getD_some, toByte_ofByte, UInt8.toNat_ofNat', UInt16.toNat_ofNat']
  omega

/-- A 32-bit integer is read back from its encoding, whatever follows it. -/
@[simp] theorem be32Get_be32Put (v : UInt32) (rest : Bytes β) :
    be32Get (be32Put v ++ rest) = v := by
  have hv := v.toNat_lt
  apply UInt32.toNat_inj.mp
  simp only [be32Get, be32Put, octets, byteAt, List.map_cons, List.map_nil, List.cons_append,
    List.nil_append, List.getElem?_cons_zero, List.getElem?_cons_succ, Option.map_some,
    Option.getD_some, toByte_ofByte, UInt8.toNat_ofNat', UInt32.toNat_ofNat']
  omega

/-- A 64-bit integer is read back from its encoding, whatever follows it. -/
@[simp] theorem be64Get_be64Put (v : UInt64) (rest : Bytes β) :
    be64Get (be64Put v ++ rest) = v := by
  have hv := v.toNat_lt
  apply UInt64.toNat_inj.mp
  simp only [be64Get, be64Put, octets, byteAt, List.map_cons, List.map_nil, List.cons_append,
    List.nil_append, List.getElem?_cons_zero, List.getElem?_cons_succ, Option.map_some,
    Option.getD_some, toByte_ofByte, UInt8.toNat_ofNat', UInt64.toNat_ofNat']
  omega

/-- The field that stands between `pre` and `post` in a record is what a reader finds there. -/
theorem take_drop_field {γ : Type} {b x : List γ} {off len : Nat} (pre post : List γ)
    (hb : b = pre ++ (x ++ post)) (hpre : pre.length = off) (hx : x.length = len) :
    (b.drop off).take len = x := by
  subst hb hpre hx
  simp

/-- The tail of a record after a part of known length. -/
theorem drop_field {γ : Type} {b post : List γ} {off : Nat} (pre : List γ) (hb : b = pre ++ post)
    (hpre : pre.length = off) : b.drop off = post := by
  subst hb hpre
  simp

/-- What stands after a field, once the field itself has been reached. -/
theorem drop_next {γ : Type} {b x post : List γ} {off off' : Nat} (h : b.drop off = x ++ post)
    (hoff : off' = off + x.length) : b.drop off' = post := by
  rw [hoff, ← List.drop_drop, h, List.drop_left']
  rfl

/-- A 32-bit field that stands after `pre` in a record is read back. -/
theorem be32Get_drop_field {b : Bytes β} {v : UInt32} {off : Nat} (pre post : Bytes β)
    (hb : b = pre ++ (be32Put v ++ post)) (hpre : pre.length = off) :
    be32Get (b.drop off) = v := by
  rw [drop_field pre hb hpre, be32Get_be32Put]

/-- Octets that stand for bytes stand for one byte each. -/
theorem ofByte_inj {b b' : UInt8} (h : (ofByte b : β) = ofByte b') : b = b' := by
  have h' := congrArg toByte h
  rwa [toByte_ofByte, toByte_ofByte] at h'

theorem be16Put_injective : Function.Injective (be16Put : UInt16 → Bytes β) := by
  intro v w h
  have h' : be16Get (be16Put v ++ ([] : Bytes β)) = be16Get (be16Put w ++ ([] : Bytes β)) := by
    rw [h]
  rwa [be16Get_be16Put, be16Get_be16Put] at h'

/-- Equal encodings come from equal integers. -/
theorem be32Put_injective : Function.Injective (be32Put : UInt32 → Bytes β) := by
  intro v w h
  have h' : be32Get (be32Put v ++ ([] : Bytes β)) = be32Get (be32Put w ++ ([] : Bytes β)) := by
    rw [h]
  rwa [be32Get_be32Put, be32Get_be32Put] at h'

theorem be64Put_injective : Function.Injective (be64Put : UInt64 → Bytes β) := by
  intro v w h
  have h' : be64Get (be64Put v ++ ([] : Bytes β)) = be64Get (be64Put w ++ ([] : Bytes β)) := by
    rw [h]
  rwa [be64Get_be64Put, be64Get_be64Put] at h'

/-- A 16-bit integer in front is read off with what follows it. -/
theorem be16Put_append_inj {v w : UInt16} {r s : Bytes β} (h : be16Put v ++ r = be16Put w ++ s) :
    v = w ∧ r = s := by
  obtain ⟨hv, hr⟩ := List.append_inj h rfl
  exact ⟨be16Put_injective hv, hr⟩

theorem be32Put_append_inj {v w : UInt32} {r s : Bytes β} (h : be32Put v ++ r = be32Put w ++ s) :
    v = w ∧ r = s := by
  obtain ⟨hv, hr⟩ := List.append_inj h rfl
  exact ⟨be32Put_injective hv, hr⟩

theorem be64Put_append_inj {v w : UInt64} {r s : Bytes β} (h : be64Put v ++ r = be64Put w ++ s) :
    v = w ∧ r = s := by
  obtain ⟨hv, hr⟩ := List.append_inj h rfl
  exact ⟨be64Put_injective hv, hr⟩

end Geryon
