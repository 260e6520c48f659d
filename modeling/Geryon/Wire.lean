import Geryon.Basic
import Geryon.Lib.Codec

/-!
# Codecs of the wire integers

Over bytes, an octet string holds exactly what the integer reads see of it: the writers and readers
of `core/encode.c` are codecs.
-/

namespace Geryon

/-- A list of more than `n` elements has a first one and `n` after it. -/
theorem exists_cons_of_le_length {γ : Type} {n : Nat} {b : List γ} (h : n + 1 ≤ b.length) :
    ∃ x rest, b = x :: rest ∧ n ≤ rest.length := by
  cases b with
  | nil => simp at h
  | cons x rest => exact ⟨x, rest, rfl, by simpa using h⟩

/-- One byte. -/
def byteCodec : Codec UInt8 UInt8 where
  width := 1
  Fits _ := True
  put v := [Octet.ofByte v]
  get b := UInt8.ofNat (byteAt b 0)
  length_put _ := rfl
  get_put rest _ := by simp [byteAt]
  fits_get _ := trivial
  put_get h := by
    obtain ⟨x, rest, rfl, -⟩ := exists_cons_of_le_length h
    simp [byteAt, Octet.ofByte, Octet.toByte]

/-- Writing back what was read gives the two octets that were read. -/
theorem be16Put_get {b : Bytes UInt8} (h : 2 ≤ b.length) :
    (be16Put (be16Get b) : Bytes UInt8) = b.take 2 := by
  obtain ⟨x0, b, rfl, h₁⟩ := exists_cons_of_le_length h
  obtain ⟨x1, b, rfl, -⟩ := exists_cons_of_le_length h₁
  have h0 := x0.toNat_lt
  have h1 := x1.toNat_lt
  simp [be16Put, be16Get, octets, byteAt, Octet.ofByte, Octet.toByte, ← UInt8.toNat_inj]
  omega

/-- `gy_be16_put` and `gy_be16_get`. -/
def be16Codec : Codec UInt8 UInt16 where
  width := 2
  Fits _ := True
  put := be16Put
  get := be16Get
  length_put _ := rfl
  get_put rest _ := be16Get_be16Put _ rest
  fits_get _ := trivial
  put_get h := be16Put_get h

/-- Writing back what was read gives the four octets that were read. -/
theorem be32Put_get {b : Bytes UInt8} (h : 4 ≤ b.length) :
    (be32Put (be32Get b) : Bytes UInt8) = b.take 4 := by
  obtain ⟨x0, b, rfl, h₁⟩ := exists_cons_of_le_length h
  obtain ⟨x1, b, rfl, h₂⟩ := exists_cons_of_le_length h₁
  obtain ⟨x2, b, rfl, h₃⟩ := exists_cons_of_le_length h₂
  obtain ⟨x3, b, rfl, -⟩ := exists_cons_of_le_length h₃
  have h0 := x0.toNat_lt
  have h1 := x1.toNat_lt
  have h2 := x2.toNat_lt
  have h3 := x3.toNat_lt
  simp [be32Put, be32Get, octets, byteAt, Octet.ofByte, Octet.toByte, ← UInt8.toNat_inj]
  omega

/-- `gy_be32_put` and `gy_be32_get`. -/
def be32Codec : Codec UInt8 UInt32 where
  width := 4
  Fits _ := True
  put := be32Put
  get := be32Get
  length_put _ := rfl
  get_put rest _ := be32Get_be32Put _ rest
  fits_get _ := trivial
  put_get h := be32Put_get h

/-- Writing back what was read gives the eight octets that were read. -/
theorem be64Put_get {b : Bytes UInt8} (h : 8 ≤ b.length) :
    (be64Put (be64Get b) : Bytes UInt8) = b.take 8 := by
  obtain ⟨x0, b, rfl, h₁⟩ := exists_cons_of_le_length h
  obtain ⟨x1, b, rfl, h₂⟩ := exists_cons_of_le_length h₁
  obtain ⟨x2, b, rfl, h₃⟩ := exists_cons_of_le_length h₂
  obtain ⟨x3, b, rfl, h₄⟩ := exists_cons_of_le_length h₃
  obtain ⟨x4, b, rfl, h₅⟩ := exists_cons_of_le_length h₄
  obtain ⟨x5, b, rfl, h₆⟩ := exists_cons_of_le_length h₅
  obtain ⟨x6, b, rfl, h₇⟩ := exists_cons_of_le_length h₆
  obtain ⟨x7, b, rfl, -⟩ := exists_cons_of_le_length h₇
  have h0 := x0.toNat_lt
  have h1 := x1.toNat_lt
  have h2 := x2.toNat_lt
  have h3 := x3.toNat_lt
  have h4 := x4.toNat_lt
  have h5 := x5.toNat_lt
  have h6 := x6.toNat_lt
  have h7 := x7.toNat_lt
  simp [be64Put, be64Get, octets, byteAt, Octet.ofByte, Octet.toByte, ← UInt8.toNat_inj]
  omega

/-- `gy_be64_put` and `gy_be64_get`. -/
def be64Codec : Codec UInt8 UInt64 where
  width := 8
  Fits _ := True
  put := be64Put
  get := be64Get
  length_put _ := rfl
  get_put rest _ := be64Get_be64Put _ rest
  fits_get _ := trivial
  put_get h := be64Put_get h

end Geryon
