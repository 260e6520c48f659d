import Geryon.Lib.CounterMode
import Geryon.Ratchet.Ideal
import Mathlib.Data.List.Basic

/-!
# Key streams

What `gy_kdf_ctr` hands to the HMAC of a suite, for every output length it admits: block number `i`
is the HMAC of the counter `i + 1`, the label, a zero byte, the context and the length of the output
in bits. The counter and the length are never truncated, the output is the concatenation of the
blocks cut to the requested length (`gyKdfCtr_eq`), and the inputs are pairwise different over all
block numbers, purposes, contexts and lengths (`kdfCtrInput_inj`).
-/

namespace Geryon

/-! ## C strings -/

/-- The strings that stand for C strings: each character is a byte other than the terminator. -/
def NulFree (s : String) : Prop := ∀ c ∈ s.toList, 0 < c.toNat ∧ c.toNat < 256

instance (s : String) : Decidable (NulFree s) :=
  List.decidableBAll (fun c : Char => 0 < c.toNat ∧ c.toNat < 256) s.toList

section Strings

variable {β : Type} [Octet β]

theorem NulFree.zero_notMem {s : String} (h : NulFree s) :
    Octet.ofByte 0 ∉ (ascii s : Bytes β) := by
  rw [ascii, List.mem_map]
  rintro ⟨c, hc, hzero⟩
  obtain ⟨hpos, hlt⟩ := h c hc
  have hnat := congrArg UInt8.toNat (ofByte_inj hzero)
  rw [UInt8.toNat_ofNat_of_lt' hlt] at hnat
  exact absurd hnat (Nat.ne_of_gt hpos)

/-- The characters of a C string, read back from its bytes. -/
theorem NulFree.read_ascii {s : String} (h : NulFree s) :
    (ascii s : Bytes β).map (fun b => Char.ofNat (Octet.toByte b).toNat) = s.toList := by
  rw [ascii, List.map_map]
  conv_rhs => rw [← List.map_id s.toList]
  apply List.map_congr_left
  intro c hc
  rw [Function.comp_apply, Octet.toByte_ofByte, UInt8.toNat_ofNat_of_lt' (h c hc).2,
    Char.ofNat_toNat]
  rfl

/-- Different C strings have different bytes. -/
theorem ascii_inj {s t : String} (hs : NulFree s) (ht : NulFree t)
    (h : (ascii s : Bytes β) = ascii t) : s = t := by
  apply String.toList_injective
  rw [← hs.read_ascii (β := β), ← ht.read_ascii (β := β), h]

end Strings

variable {β : Type} [Octet β] (desc : SuiteDesc β)

/-! ## The blocks of an output -/

/-- What the rows of the suite table have in common for `gy_kdf_ctr`: SHA-256 or SHA-512, with an
HMAC that fills a block. -/
structure HmacSuite : Prop where
  hashLen_row : desc.hashLen = 32 ∨ desc.hashLen = 64
  length_hmac : ∀ {key msg block}, desc.hmac key msg = .ok block → block.length = desc.hashLen

/-- The output lengths `gy_kdf_ctr` admits. -/
def Admitted (outlen : Nat) : Prop := outlen ≠ 0 ∧ outlen ≤ 255 * desc.hashLen

instance (outlen : Nat) : Decidable (Admitted desc outlen) :=
  inferInstanceAs (Decidable (_ ∧ _))

/-- The blocks of an output of `outlen` bytes. -/
def kdfCtrBlockCount (outlen : Nat) : Nat := CounterMode.count desc.hashLen outlen

/-- The HMAC input of block number `i`, counted from 0. -/
def kdfCtrInput (label context : Bytes β) (outlen i : Nat) : Bytes β :=
  be32Put (UInt32.ofNat (i + 1)) ++
    (label ++ [Octet.ofByte 0] ++ context ++ be32Put (UInt32.ofNat (outlen * 8)))

variable {desc}

/-- The loop of `gy_kdf_ctr_raw` produces the stream of its blocks. -/
theorem kdfCtrBlocks_eq_stream (S : HmacSuite desc) (key fixed : Bytes β) :
    ∀ (fuel start need : Nat), need ≤ fuel →
      kdfCtrBlocks desc key fixed fuel (UInt32.ofNat (start + 1)) need =
        CounterMode.stream
          (fun i => desc.hmac key (be32Put (UInt32.ofNat (i + 1)) ++ fixed)) desc.hashLen start
          need := by
  have hw : 0 < desc.hashLen := Nat.lt_of_lt_of_le (by decide) desc.hashLen_ge
  intro fuel
  induction fuel with
  | zero =>
    intro start need hneed
    obtain rfl := Nat.le_zero.mp hneed
    rw [CounterMode.stream_zero hw]
    rfl
  | succ fuel ih =>
    intro start need hneed
    by_cases h0 : need = 0
    · rw [h0, CounterMode.stream_zero hw, kdfCtrBlocks, if_pos rfl]
    · rw [kdfCtrBlocks, if_neg h0, CounterMode.stream_step (fun _ _ => S.length_hmac) hw start
        (Nat.pos_of_ne_zero h0)]
      -- the counter of the next pass numbers the next block
      have hcounter : UInt32.ofNat (start + 1) + 1 = UInt32.ofNat (start + 1 + 1) :=
        (UInt32.ofNat_add (start + 1) 1).symm
      rw [hcounter, ih (start + 1) _ (by omega)]

/-- `gy_kdf_ctr`: the concatenation of the HMAC blocks, cut to the requested length. -/
theorem gyKdfCtr_eq (S : HmacSuite desc) (outlen : Nat) (key label context : Bytes β) :
    gyKdfCtr desc outlen key label context =
      if Admitted desc outlen then do
        let blocks ← (List.range (kdfCtrBlockCount desc outlen)).mapM fun i =>
          desc.hmac key (kdfCtrInput label context outlen i)
        return blocks.flatten.take outlen
      else .error .arg := by
  unfold gyKdfCtr
  by_cases hadm : Admitted desc outlen
  · rw [if_pos hadm, if_neg (by unfold Admitted at hadm; omega), List.range_eq_range']
    exact kdfCtrBlocks_eq_stream S key _ outlen 0 outlen le_rfl
  · rw [if_neg hadm, if_pos (by unfold Admitted at hadm; omega)]

namespace HmacSuite

variable (S : HmacSuite desc)
include S

omit [Octet β] S in
/-- At most 255 blocks are asked for. -/
theorem blockCount_le {outlen : Nat} (h : Admitted desc outlen) :
    kdfCtrBlockCount desc outlen ≤ 255 := by
  have hw : 0 < desc.hashLen := Nat.lt_of_lt_of_le (by decide) desc.hashLen_ge
  exact (CounterMode.count_le_iff hw).mpr h.2

omit [Octet β] in
/-- The counter of a block is its number, and the length field is the length. -/
theorem counters_exact {outlen i : Nat} (h : Admitted desc outlen)
    (hi : i < kdfCtrBlockCount desc outlen) :
    (UInt32.ofNat (i + 1)).toNat = i + 1 ∧
      (UInt32.ofNat (outlen * 8)).toNat = outlen * 8 := by
  have hcount := blockCount_le h
  have hlen := h.2
  have hrow := S.hashLen_row
  constructor
  · exact UInt32.toNat_ofNat_of_lt' (by simp only [UInt32.size]; omega)
  · exact UInt32.toNat_ofNat_of_lt' (by simp only [UInt32.size]; omega)

end HmacSuite

/-! ## The inputs are pairwise different -/

/-- A label that was produced is the info string of its purpose. -/
theorem gyInfo_eq_infoOf {cap : Nat} {purpose : String} {label : Bytes β}
    (h : gyInfo desc cap purpose = .ok label) : label = infoOf desc purpose := by
  unfold gyInfo at h
  split_ifs at h
  exact (Except.ok.inj h).symm

/-- The zero byte after the purpose and the four bytes at the end separate purpose, context and
length. -/
theorem kdfCtrFixed_inj {purpose purpose' : String} (hp : NulFree purpose) (hp' : NulFree purpose')
    {context context' : Bytes β} {bits bits' : UInt32}
    (h : infoOf desc purpose ++ [Octet.ofByte 0] ++ context ++ be32Put bits =
      infoOf desc purpose' ++ [Octet.ofByte 0] ++ context' ++ be32Put bits') :
    purpose = purpose' ∧ context = context' ∧ bits = bits' := by
  -- the two labels share everything up to the purpose
  have hfront : ascii purpose ++ [Octet.ofByte 0] ++ context ++ be32Put bits =
      ascii purpose' ++ [Octet.ofByte 0] ++ context' ++ be32Put bits' := by
    simpa only [infoOf, List.append_assoc, List.append_cancel_left_eq] using h
  obtain ⟨hpurpose, hcontext, hbits⟩ := CounterMode.fixedInput_inj hp.zero_notMem hp'.zero_notMem
    (by rw [length_be32Put, length_be32Put]) hfront
  exact ⟨ascii_inj hp hp' hpurpose, hcontext, be32Put_injective hbits⟩

/-- Two HMAC inputs are equal only for one block number, purpose, context and output length. -/
theorem kdfCtrInput_inj (S : HmacSuite desc) {cap cap' : Nat} {purpose purpose' : String}
    {label label' context context' : Bytes β} {outlen outlen' i i' : Nat}
    (hp : NulFree purpose) (hp' : NulFree purpose') (hl : gyInfo desc cap purpose = .ok label)
    (hl' : gyInfo desc cap' purpose' = .ok label') (ho : Admitted desc outlen)
    (ho' : Admitted desc outlen') (hi : i < kdfCtrBlockCount desc outlen)
    (hi' : i' < kdfCtrBlockCount desc outlen')
    (h : kdfCtrInput label context outlen i = kdfCtrInput label' context' outlen' i') :
    i = i' ∧ purpose = purpose' ∧ context = context' ∧ outlen = outlen' := by
  obtain rfl := gyInfo_eq_infoOf hl
  obtain rfl := gyInfo_eq_infoOf hl'
  obtain ⟨hcounter, hfixed⟩ := be32Put_append_inj h
  obtain ⟨hpurpose, hcontext, hbits⟩ := kdfCtrFixed_inj hp hp' hfixed
  obtain ⟨hc, hb⟩ := S.counters_exact ho hi
  obtain ⟨hc', hb'⟩ := S.counters_exact ho' hi'
  have hnum := congrArg UInt32.toNat hcounter
  have hlen := congrArg UInt32.toNat hbits
  rw [hc, hc'] at hnum
  rw [hb, hb'] at hlen
  exact ⟨by omega, hpurpose, hcontext, by omega⟩

/-! ## The keys of the ratchet -/

/-- What the ratchet derives with `gy_kdf_ctr`: the message key and the next chain key of a chain
key, and the AEAD key and nonce of a message number. -/
inductive RatchetKey where
  | message
  | chain
  | aead (aeadId : UInt8) (n : UInt32)

namespace RatchetKey

/-- The purpose in the label. -/
def purpose : RatchetKey → String
  | message => "dr.msg"
  | chain => "dr.chain"
  | aead _ _ => "dr.aead"

/-- The context. -/
def context : RatchetKey → Bytes β
  | message => []
  | chain => []
  | aead aeadId n => Octet.ofByte aeadId :: be32Put n

/-- The bytes asked for. -/
def outlen : RatchetKey → Nat
  | message => 32
  | chain => 32
  | aead aeadId _ => 32 + aeadNonceLen aeadId

variable (desc)

/-- The HMAC input of block `i` of a key. -/
def input (u : RatchetKey) (i : Nat) : Bytes β :=
  kdfCtrInput (infoOf desc u.purpose) u.context u.outlen i

/-- An output under `key`: the HMAC blocks of the key's own inputs, cut to its length. -/
def Output (key : Bytes β) (u : RatchetKey) (out : Bytes β) : Prop :=
  ∃ blocks, (List.range (kdfCtrBlockCount desc u.outlen)).mapM
      (fun i => desc.hmac key (u.input desc i)) = .ok blocks ∧
    out = blocks.flatten.take u.outlen

variable {desc}

theorem nulFree_purpose (u : RatchetKey) : NulFree u.purpose := by
  cases u with
  | message => decide
  | chain => decide
  | aead aeadId n => exact (by decide : NulFree "dr.aead")

omit [Octet β] in
theorem admitted (u : RatchetKey) : Admitted desc u.outlen := by
  have hlen := desc.hashLen_ge
  cases u with
  | message => exact ⟨by decide, by simp only [outlen]; omega⟩
  | chain => exact ⟨by decide, by simp only [outlen]; omega⟩
  | aead aeadId n =>
    have hnonce : aeadNonceLen aeadId ≤ 32 := by
      unfold aeadNonceLen
      cases aeadAlg aeadId with
      | none => exact Nat.zero_le _
      | some a => cases a <;> decide
    exact ⟨by simp only [outlen]; omega, by simp only [outlen]; omega⟩

/-- Purpose and context determine the key. -/
theorem eq_of_purpose_context {u u' : RatchetKey} (hp : u.purpose = u'.purpose)
    (hc : (u.context : Bytes β) = u'.context) : u = u' := by
  cases u with
  | message => cases u' with
    | message => rfl
    | chain => exact absurd hp (by decide)
    | aead => exact absurd hp (by decide : "dr.msg" ≠ "dr.aead")
  | chain => cases u' with
    | message => exact absurd hp (by decide)
    | chain => rfl
    | aead => exact absurd hp (by decide : "dr.chain" ≠ "dr.aead")
  | aead aeadId n => cases u' with
    | message => exact absurd hp (by decide : "dr.aead" ≠ "dr.msg")
    | chain => exact absurd hp (by decide : "dr.aead" ≠ "dr.chain")
    | aead aeadId' n' =>
      obtain ⟨hid, hn⟩ := List.cons.inj hc
      rw [ofByte_inj hid, be32Put_injective hn]

/-- Blocks of the ratchet's keys with one input are the same block of the same key. -/
theorem input_inj (S : HmacSuite desc) {u u' : RatchetKey} {i i' : Nat}
    (hi : i < kdfCtrBlockCount desc u.outlen) (hi' : i' < kdfCtrBlockCount desc u'.outlen)
    (h : u.input desc i = u'.input desc i') : u = u' ∧ i = i' := by
  obtain ⟨hcounter, hfixed⟩ := be32Put_append_inj h
  obtain ⟨hpurpose, hcontext, -⟩ := kdfCtrFixed_inj u.nulFree_purpose u'.nulFree_purpose hfixed
  have hnum := congrArg UInt32.toNat hcounter
  rw [(S.counters_exact u.admitted hi).1, (S.counters_exact u'.admitted hi').1] at hnum
  exact ⟨eq_of_purpose_context hpurpose hcontext, by omega⟩

/-- What `gy_kdf_ctr` returns for a key's label and context is an output of the key. -/
theorem output_of_ok (S : HmacSuite desc) {u : RatchetKey} {cap : Nat} {key label out : Bytes β}
    (hl : gyInfo desc cap u.purpose = .ok label)
    (h : gyKdfCtr desc u.outlen key label u.context = .ok out) : u.Output desc key out := by
  obtain rfl := gyInfo_eq_infoOf hl
  rw [gyKdfCtr_eq S, if_pos u.admitted] at h
  obtain ⟨blocks, hblocks, hout⟩ := Except.bind_eq_ok_iff.mp h
  exact ⟨blocks, hblocks, (Except.ok.inj hout).symm⟩

theorem output_of_kdfCkOne (S : HmacSuite desc) {u : RatchetKey} (hlen : u.outlen = 32)
    (hctx : (u.context : Bytes β) = []) {ck out : Bytes β}
    (h : kdfCkOne desc ck u.purpose = .ok out) : u.Output desc ck out := by
  obtain ⟨label, hl, h⟩ := Except.bind_eq_ok_iff.mp h
  rw [← hlen, ← hctx] at h
  exact output_of_ok S hl h

end RatchetKey

/-- The two keys of a chain step are the outputs of the chain key on the inputs of their own
purposes. -/
theorem gyDrcKdfCk_outputs (S : HmacSuite desc) {ck mk ckNext : Bytes β}
    (h : gyDrcKdfCk desc ck = .ok (mk, ckNext)) :
    RatchetKey.message.Output desc ck mk ∧ RatchetKey.chain.Output desc ck ckNext := by
  obtain ⟨mk', hmk, h⟩ := Except.bind_eq_ok_iff.mp h
  obtain ⟨ckNext', hck, h⟩ := Except.bind_eq_ok_iff.mp h
  obtain ⟨rfl, rfl⟩ := Prod.mk.inj (Except.ok.inj h)
  exact ⟨RatchetKey.output_of_kdfCkOne S rfl rfl hmk, RatchetKey.output_of_kdfCkOne S rfl rfl hck⟩

/-- The AEAD key and nonce of a message are one output of its message key. -/
theorem gyDrcDeriveAead_output (S : HmacSuite desc) {mk key nonce : Bytes β} {aeadId : UInt8}
    {n : UInt32} (h : gyDrcDeriveAead desc mk aeadId n = .ok (key, nonce)) :
    (RatchetKey.aead aeadId n).Output desc mk (key ++ nonce) := by
  unfold gyDrcDeriveAead deriveKeyNonce at h
  split_ifs at h
  obtain ⟨label, hl, h⟩ := Except.bind_eq_ok_iff.mp h
  obtain ⟨buf, hbuf, h⟩ := Except.bind_eq_ok_iff.mp h
  obtain ⟨rfl, rfl⟩ := Prod.mk.inj (Except.ok.inj h)
  rw [List.take_append_drop]
  exact RatchetKey.output_of_ok S hl hbuf

/-- The inputs of `gy_kdf_ctr` never collide under one key: equal HMAC inputs have one block number,
purpose, context and output length. Within the admitted lengths neither the counter nor the bit
length is truncated, and the output is the concatenation of the blocks cut to the requested length.
The message, chain and AEAD keys of the ratchet are outputs on pairwise different inputs. -/
theorem kdfCtr_separates (S : HmacSuite desc) :
    (∀ {cap cap' : Nat} {purpose purpose' : String} {label label' context context' : Bytes β}
      {outlen outlen' i i' : Nat}, NulFree purpose → NulFree purpose' →
      gyInfo desc cap purpose = .ok label → gyInfo desc cap' purpose' = .ok label' →
      Admitted desc outlen → Admitted desc outlen' → i < kdfCtrBlockCount desc outlen →
      i' < kdfCtrBlockCount desc outlen' →
      (kdfCtrInput label context outlen i = kdfCtrInput label' context' outlen' i' ↔
        i = i' ∧ purpose = purpose' ∧ context = context' ∧ outlen = outlen')) ∧
    (∀ {outlen i : Nat}, Admitted desc outlen → i < kdfCtrBlockCount desc outlen →
      i < 255 ∧ (UInt32.ofNat (i + 1)).toNat = i + 1 ∧
        (UInt32.ofNat (outlen * 8)).toNat = outlen * 8) ∧
    (∀ (outlen : Nat) (key label context : Bytes β), gyKdfCtr desc outlen key label context =
      if Admitted desc outlen then do
        let blocks ← (List.range (kdfCtrBlockCount desc outlen)).mapM fun i =>
          desc.hmac key (kdfCtrInput label context outlen i)
        return blocks.flatten.take outlen
      else .error .arg) ∧
    (∀ {ck mk ckNext : Bytes β}, gyDrcKdfCk desc ck = .ok (mk, ckNext) →
      RatchetKey.message.Output desc ck mk ∧ RatchetKey.chain.Output desc ck ckNext) ∧
    (∀ {mk key nonce : Bytes β} {aeadId : UInt8} {n : UInt32},
      gyDrcDeriveAead desc mk aeadId n = .ok (key, nonce) →
      (RatchetKey.aead aeadId n).Output desc mk (key ++ nonce)) ∧
    (∀ (u u' : RatchetKey) (i i' : Nat), i < kdfCtrBlockCount desc u.outlen →
      i' < kdfCtrBlockCount desc u'.outlen → u.input desc i = u'.input desc i' →
      u = u' ∧ i = i') := by
  refine ⟨?_, ?_, gyKdfCtr_eq S, gyDrcKdfCk_outputs S, gyDrcDeriveAead_output S,
    fun _ _ _ _ => RatchetKey.input_inj S⟩
  -- the input of a block determines its purpose, its context, its length and its counter
  · intro cap cap' purpose purpose' label label' context context' outlen outlen' i i' hp hp' hl hl'
      ho ho' hi hi'
    constructor
    · exact kdfCtrInput_inj S hp hp' hl hl' ho ho' hi hi'
    · rintro ⟨rfl, rfl, rfl, rfl⟩
      rw [gyInfo_eq_infoOf hl, gyInfo_eq_infoOf hl']
  -- the counter and the bit length both fit their 32-bit fields
  · intro outlen i ho hi
    exact ⟨Nat.lt_of_lt_of_le hi (HmacSuite.blockCount_le ho), S.counters_exact ho hi⟩

theorem symSuite_hmac (isHybrid : Bool) : HmacSuite (symSuite isHybrid) where
  hashLen_row := Or.inr rfl
  length_hmac h := by
    obtain rfl := Except.ok.inj h
    exact Sym.length_prim _ _ _

section Sample

open Geryon.Sym

/-- The symbolic label of an AEAD key. -/
def aeadLabel : Bytes Sym := infoOf (symSuite false) "dr.aead"

theorem gyInfo_aeadLabel : gyInfo (symSuite false) 64 "dr.aead" = .ok aeadLabel := by rfl

/-- The four blocks of a symbolic output of 200 bytes have different inputs, which are not those of
a longer context or of a shorter output; the output is the four blocks cut to its length; and the
two keys of a chain key, and the AEAD keys of two messages, come from different inputs. -/
theorem symSuite_blocks_differ :
    (∀ i < 4, ∀ i' < 4,
      kdfCtrInput aeadLabel [byte 1] 200 i = kdfCtrInput aeadLabel [byte 1] 200 i' → i = i') ∧
    (∀ i < 4, ∀ i' < 4,
      kdfCtrInput aeadLabel [byte 1] 200 i ≠ kdfCtrInput aeadLabel [byte 1, byte 0] 200 i') ∧
    (∀ i < 4, ∀ i' < 2,
      kdfCtrInput aeadLabel [byte 1] 200 i ≠ kdfCtrInput aeadLabel [byte 1] 100 i') ∧
    (∃ blocks, (List.range 4).mapM (fun i =>
        (symSuite false).hmac [byte 7] (kdfCtrInput aeadLabel [byte 1] 200 i)) = .ok blocks ∧
      gyKdfCtr (symSuite false) 200 [byte 7] aeadLabel [byte 1] = .ok (blocks.flatten.take 200)) ∧
    RatchetKey.message.input (symSuite false) 0 ≠ RatchetKey.chain.input (symSuite false) 0 ∧
    (RatchetKey.aead 1 7).input (symSuite false) 0 ≠
      (RatchetKey.aead 1 8).input (symSuite false) 0 := by
  obtain ⟨hinput, -, hstream, -, -, hkeys⟩ := kdfCtr_separates (symSuite_hmac false)
  have hpurpose : NulFree "dr.aead" := by decide
  have hlong : Admitted (symSuite false) 200 := by decide
  have hshort : Admitted (symSuite false) 100 := by decide
  refine ⟨fun i hi i' hi' h => ?_, fun i hi i' hi' h => ?_, fun i hi i' hi' h => ?_,
    ⟨_, rfl, ?_⟩, fun h => ?_, fun h => ?_⟩
  · exact ((hinput hpurpose hpurpose gyInfo_aeadLabel gyInfo_aeadLabel hlong hlong hi hi').1 h).1
  -- a context that extends the other
  · obtain ⟨-, -, hcontext, -⟩ :=
      (hinput hpurpose hpurpose gyInfo_aeadLabel gyInfo_aeadLabel hlong hlong hi hi').1 h
    cases hcontext
  -- a shorter output under the same context
  · obtain ⟨-, -, -, hlen⟩ :=
      (hinput hpurpose hpurpose gyInfo_aeadLabel gyInfo_aeadLabel hlong hshort hi hi').1 h
    cases hlen
  · rw [hstream, if_pos hlong]
    rfl
  · cases (hkeys .message .chain 0 0 (by decide) (by decide) h).1
  · cases (hkeys (.aead 1 7) (.aead 1 8) 0 0 (by decide) (by decide) h).1

end Sample

end Geryon
