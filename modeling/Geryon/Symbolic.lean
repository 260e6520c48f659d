import Geryon.Suite

/-!
# Symbolic primitives

Primitives that run without a cryptographic library: octets are terms, and every output octet of a
primitive is the term that names the primitive, its inputs and the position. They meet the idealised
assumptions made elsewhere, and concrete runs are taken over them.
-/

namespace Geryon

/-- Symbolic octets: bytes, and the octets of primitives' outputs. -/
inductive Sym where
  | byte (b : UInt8)
  | num (n : Nat)
  | nil
  | cons (a b : Sym)
  | out (op : Nat) (input : Sym) (i : Nat)
  deriving DecidableEq

namespace Sym

instance : Octet Sym where
  ofByte := byte
  toByte
    | byte b => b
    | _ => 0
  toByte_ofByte _ := rfl

/-- A list as one symbol. -/
def ofList : List Sym → Sym
  | [] => nil
  | a :: l => cons a (ofList l)

/-- Terms of lists are told apart by the lists. -/
@[simp] theorem ofList_inj {l l' : List Sym} : ofList l = ofList l' ↔ l = l' := by
  induction l generalizing l' with
  | nil => cases l' <;> simp [ofList]
  | cons a l ih => cases l' <;> simp [ofList, ih]

/-- The output of a primitive. -/
def prim (op : Nat) (input : List Sym) (len : Nat) : Bytes Sym :=
  (List.range len).map fun i => out op (ofList input) i

/-- The output of a symbolic primitive has the length that was asked for. -/
@[simp] theorem length_prim (op : Nat) (input : List Sym) (len : Nat) :
    (prim op input len).length = len := by
  simp [prim]

/-- Its first byte names the primitive and its input. -/
theorem head?_prim (op : Nat) (input : List Sym) {len : Nat} (h : 0 < len) :
    (prim op input len).head? = some (out op (ofList input) 0) := by
  rw [List.head?_eq_getElem?, prim, List.getElem?_map, List.getElem?_range h]
  rfl

/-- Outputs that agree on some octet come from the same input, at the same position. -/
theorem prim_inj {op op' : Nat} {input input' : List Sym} {len len' i j m : Nat} (hm : 0 < m)
    (hi : i < len) (hj : j < len')
    (h : ((prim op input len).drop i).take m = ((prim op' input' len').drop j).take m) :
    op = op' ∧ input = input' ∧ i = j := by
  have h0 := congrArg List.head? h
  rw [List.head?_take, List.head?_take, if_neg (by omega), if_neg (by omega), List.head?_drop,
    List.head?_drop, prim, prim, List.getElem?_map, List.getElem?_map, List.getElem?_range hi,
    List.getElem?_range hj] at h0
  simpa using h0

/-- The number in the output of a key generator, if it is one. -/
def keyNum (op : Nat) (b : Bytes Sym) : Option Nat :=
  match b.head? with
  | some (out op' (cons (num n) nil) 0) => if op' = op then some n else none
  | _ => none

/-- The number of a symbolic key is read back from it. -/
@[simp] theorem keyNum_prim (op n : Nat) {len : Nat} (h : 0 < len) :
    keyNum op (prim op [num n] len) = some n := by
  simp [keyNum, head?_prim op [num n] h, ofList]

/-! ## The primitives -/

/-- The curve pair number `n`. -/
def curvePair (n : Nat) : Keypair Sym := ⟨prim 1 [num n] 32, prim 2 [num n] 32⟩

/-- The encapsulation key number `n`. -/
def kemEk (n : Nat) : Bytes Sym := prim 3 [num n] 1184

/-- The decapsulation key number `n`. -/
def kemDk (n : Nat) : Bytes Sym := prim 4 [num n] 2400

/-- The signature key number `n`. -/
def dsaPk (n : Nat) : Bytes Sym := prim 13 [num n] 1952

theorem length_kemEk (n : Nat) : (kemEk n).length = 1184 := length_prim _ _ _

theorem length_dsaPk (n : Nat) : (dsaPk n).length = 1952 := length_prim _ _ _

theorem keyNum_kemEk (n : Nat) : keyNum 3 (kemEk n) = some n := keyNum_prim 3 n (by decide)

theorem keyNum_kemDk (n : Nat) : keyNum 4 (kemDk n) = some n := keyNum_prim 4 n (by decide)

-- the long keys are never looked into: unfolding one builds a list of a thousand octets
attribute [irreducible] kemEk kemDk dsaPk

/-- A shared secret is named by the two numbers, in order. -/
def dh (sk pk : Bytes Sym) : Except GyErr (Bytes Sym) :=
  match keyNum 2 sk, keyNum 1 pk with
  | some n, some m => .ok (prim 5 [num (min n m), num (max n m)] 32)
  | _, _ => .error .weakKey

def kemEncap (ek coins : Bytes Sym) : Except GyErr (Bytes Sym × Bytes Sym) :=
  match keyNum 3 ek with
  | some n => .ok (prim 6 (num n :: coins) 1088, prim 7 (num n :: coins) 32)
  | none => .error .crypto

def kemDecap (ct dk : Bytes Sym) : Except GyErr (Bytes Sym) :=
  match ct.head?, keyNum 4 dk with
  | some (out 6 (cons (num m) coins) 0), some n =>
    if m = n then .ok ((List.range 32).map fun i => out 7 (cons (num m) coins) i)
    else .error .crypto
  | _, _ => .error .crypto

/-- The tag of a sealed text. -/
def tag (key nonce ad pt : Bytes Sym) (len : Nat) : Bytes Sym :=
  prim 8 [ofList key, ofList nonce, ofList ad, ofList pt] len

instance : Sodium Sym where
  aes256gcmAvailable := true
  aeadEncrypt a key nonce ad pt := some (pt ++ tag key nonce ad pt a.tagLen)
  aeadDecrypt a key nonce ad ct :=
    let pt := ct.take (ct.length - a.tagLen)
    if ct = pt ++ tag key nonce ad pt a.tagLen then some pt else none
  sha512 b := prim 9 b 64
  length_sha512 _ := length_prim _ _ _

/-- Also when something follows the key. -/
@[simp] theorem keyNum_append {op n : Nat} {b : Bytes Sym} (h : keyNum op b = some n)
    (rest : Bytes Sym) : keyNum op (b ++ rest) = some n := by
  cases b with
  | nil => cases h
  | cons a b => exact h

/-- The leading number of a digest: that of an encoded curve key is its number plus one, that of a
session's base is half the number of its ephemeral key, and that of any other input is zero. -/
def digestNum (b : Bytes Sym) : UInt32 :=
  match keyNum 1 (b.drop 1) with
  | some n => UInt32.ofNat (n + 1)
  | none =>
    match keyNum 1 (b.drop 35) with
    | some n => UInt32.ofNat (n / 2)
    | none => 0

/-- A hash whose first four octets may collide and whose other octets do not. -/
def digest (b : Bytes Sym) : Bytes Sym := be32Put (digestNum b) ++ prim 9 b 60

end Sym

open Geryon.Sym

/-- A suite over symbolic primitives. -/
def symSuite (isHybrid : Bool) : SuiteDesc Sym where
  suiteId := if isHybrid then 3 else 1
  curveType := 32
  isHybrid := isHybrid
  name := "x25519.sha512"
  curvePkLen := 32
  curveSkLen := 32
  dhLen := 32
  sigLen := 64
  hashLen := 64
  fLen := 32
  dh := Sym.dh
  verify _ _ _ := .ok ()
  hash b := .ok (digest b)
  hmac k m := .ok (prim 10 [ofList k, ofList m] 64)
  hkdfExtract s m := .ok (prim 11 [ofList s, ofList m] 64)
  hkdfExpand len prk info := .ok (prim 12 [ofList prk, ofList info] len)
  kemPkLen := 1184
  kemSkLen := 2400
  kemCtLen := 1088
  kemSsLen := 32
  dsaPkLen := 1952
  dsaSigLen := 3309
  kemEncap := Sym.kemEncap
  kemDecap := Sym.kemDecap
  dsaVerify _ _ _ _ := .ok ()
  hashLen_ge := by decide
  length_hash h := by
    obtain rfl := Except.ok.inj h
    simp [digest]

end Geryon
