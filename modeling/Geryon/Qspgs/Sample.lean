import Geryon.Qspgs.Emit
import Geryon.Qspgs.Sealed
import Geryon.Qspgs.Symbolic

/-!
# A group over symbolic primitives

Groups whose users, keys and entries are named by numbers, and a client that is acquainted with
every user. A core signed by the holder of a line opens for that client, and a fetch of a core
signed by an admin line returns its roster.
-/

namespace Geryon

open Geryon.Sym

instance : JoinKem Sym where
  keypairDerand _ seed := .ok (prim 65 seed 800, prim 66 seed 1632)
  curveKeypair _ coins := .ok ⟨prim 64 coins 32, prim 63 coins 32⟩

instance : KrKeygen Sym where
  keygenBase _ coins :=
    match keyNum 50 coins with
    | some n => .ok (vkb (n + 1000), skb (n + 1000))
    | none => .error .crypto

namespace Sample

/-- The user number `n`. -/
def uid (n : Nat) : Bytes Sym := prim 40 [num n] 16

/-- The user key of a user. -/
def uk (n : Nat) : Bytes Sym := prim 41 [num n] 32

/-- The opening of a user's commitment. -/
def rcOpen (n : Nat) : Bytes Sym := prim 42 [num n] 32

/-- The group. -/
def gid : Bytes Sym := prim 43 [] 16

/-- The group key number `k`. -/
def gk (k : Nat) : Bytes Sym := prim 44 [num k] 32

@[simp] theorem length_uid (n : Nat) : (uid n).length = 16 := length_prim _ _ _

@[simp] theorem length_uk (n : Nat) : (uk n).length = 32 := length_prim _ _ _

@[simp] theorem length_rcOpen (n : Nat) : (rcOpen n).length = 32 := length_prim _ _ _

@[simp] theorem length_gid : gid.length = 16 := length_prim _ _ _

@[simp] theorem length_gk (k : Nat) : (gk k).length = 32 := length_prim _ _ _

/-- The number of a user is read back from the id. -/
theorem keyNum_uid (n : Nat) : keyNum 40 (uid n) = some n := keyNum_prim 40 n (by decide)

/-- Different users have different ids. -/
@[simp] theorem uid_inj {n m : Nat} : uid n = uid m ↔ n = m := by
  constructor
  · intro h
    have hnum := congrArg (keyNum 40) h
    rw [keyNum_uid, keyNum_uid] at hnum
    exact Option.some.inj hnum
  · rintro rfl
    rfl

/-- The domain string of a purpose. -/
def domain (purpose : String) : Bytes Sym :=
  ascii "geryon" ++ ascii "." ++ ascii "1" ++ ascii "." ++ ascii "geryon_h25519_512" ++
    ascii "." ++ ascii purpose

/-- The key derived from a key for a purpose. -/
def kdf (domain key info : Bytes Sym) (len : Nat) : Bytes Sym :=
  prim 12 [ofList (prim 11 [ofList domain, ofList key] 64), ofList info] len

/-- The sub-key of a group key. -/
def sub (gk : Bytes Sym) : SubKey Sym :=
  ⟨(kdf (domain "qspgs-sub") gk (domain "qspgs-sub") 64).take 32,
    (kdf (domain "qspgs-sub") gk (domain "qspgs-sub") 64).drop 32⟩

/-- The sub-keys of a group key. -/
theorem gyQspgsDeriveSubKey_eq (gk : Bytes Sym) :
    gyQspgsDeriveSubKey qsSuite gk = .ok (sub gk) := rfl

/-- The randomizer of a user. -/
def rho (rrs uid : Bytes Sym) : Bytes Sym :=
  kdf (domain "qspgs-rerand") rrs (domain "qspgs-rerand" ++ byte (UInt8.ofNat uid.length) :: uid) 64

/-- The rerandomiser of a user under a group key. -/
theorem gyQspgsDeriveRho_eq (rrs : Bytes Sym) (n : Nat) :
    gyQspgsDeriveRho qsSuite rrs (uid n) = .ok (rho rrs (uid n)) := rfl

/-- The pseudonym key of a user in a group. -/
def vkr (gk : Bytes Sym) (n : Nat) : Bytes Sym :=
  psdnVk qsSuite (ofList (vkb n)) (ofList (rho (sub gk).rrs (uid n)))

/-- The verifying key a base key becomes in a group. -/
theorem randVk_eq (gk : Bytes Sym) (n : Nat) :
    KrMlDsa.randVk qsSuite (vkb n) (rho (sub gk).rrs (uid n)) = .ok (vkr gk n) := rfl

/-- The number of a user is read back from the base verifying key. -/
theorem keyNum_vkb (n : Nat) : keyNum 30 (vkb n) = some n := by
  unfold vkb
  exact keyNum_prim 30 n (by decide)

/-- And from the base signing key. -/
theorem keyNum_skb (n : Nat) : keyNum 31 (skb n) = some n := by
  unfold skb
  exact keyNum_prim 31 n (by decide)

/-- The pseudonym secret key of a user in a group. -/
def rsk (gk : Bytes Sym) (n : Nat) : Bytes Sym :=
  prim 34 [ofList (vkb n), ofList (rho (sub gk).rrs (uid n))] 1

/-- The signing key a base key becomes in a group. -/
theorem randSk_eq (gk : Bytes Sym) (n : Nat) :
    KrMlDsa.randSk qsSuite (skb n) (vkb n) (rho (sub gk).rrs (uid n)) = .ok (rsk gk n) := by
  simp only [KrMlDsa.randSk, keyNum_vkb, keyNum_skb, if_true]
  rfl

/-- A signature under a rerandomised key. -/
theorem sign_eq (gk : Bytes Sym) (n : Nat) (msg ctx coins : Bytes Sym) :
    KrMlDsa.sign qsSuite (rsk gk n) msg ctx coins = .ok (krSig qsSuite (vkr gk n) msg ctx) := rfl

attribute [irreducible] vkr rsk

/-- What a member signs with. -/
theorem gyQspgsMemberCtxOpen_eq (gk : Bytes Sym) (n : Nat) :
    gyQspgsMemberCtxOpen qsSuite gk (skb n) (vkb n) (uid n) =
      .ok ⟨sub gk, vkr gk n, rsk gk n⟩ := by
  rw [gyQspgsMemberCtxOpen, if_neg (by decide), gyQspgsDeriveSubKey_eq, Except.ok_bind,
    gyQspgsDeriveRho_eq, Except.ok_bind, randVk_eq, Except.ok_bind, randSk_eq]
  rfl

/-- The hash a member is listed under. -/
theorem gyQspgsAttributeHash_eq (gk : Bytes Sym) (n : Nat) :
    gyQspgsAttributeHash qsSuite (sub gk).rrs (vkb n) (uid n) = .ok (symVkHash (vkr gk n)) := by
  rw [gyQspgsAttributeHash, gyQspgsDeriveRho_eq, Except.ok_bind, randVk_eq, Except.ok_bind,
    gyQspgsVkpsdnHash_sym]

/-- The commitment to a user. -/
def cuid (n : Nat) : Bytes Sym := digest (domain "qspgs-cuid" ++ rcOpen n ++ uid n)

/-- The commitment to a user id. -/
theorem gyQspgsCuidCommit_eq (n : Nat) :
    gyQspgsCuidCommit qsSuite (uid n) (rcOpen n) = .ok (cuid n) := rfl

@[simp] theorem length_cuid (n : Nat) : (cuid n).length = 64 := by simp [cuid, digest]

/-- The associated data of a field. -/
def aad (tag : FieldTag) : Bytes Sym := domain "qspgs-field" ++ byte tag.byte :: gid

/-- A field sealed under the nonce number `k`. -/
def field (ek : Bytes Sym) (tag : FieldTag) (pt : Bytes Sym) (k : Nat) : Bytes Sym :=
  prim 45 [num k] 12 ++ (pt ++ Sym.tag ek (prim 45 [num k] 12) (aad tag) pt 16)

/-- The associated data of a sealed field. -/
theorem fieldAad_eq (tag : FieldTag) : fieldAad qsSuite tag gid = .ok (aad tag) := rfl

attribute [irreducible] domain aad sub rho

/-- The symbolic AEAD opens what it sealed. -/
theorem aeadOpens_sym : AeadOpens Sym := by
  rintro a key nonce ad pt ct h
  obtain rfl := Option.some.inj h
  have hlen : (tag key nonce ad pt a.tagLen).length = a.tagLen := length_prim _ _ _
  constructor
  · rw [List.length_append, hlen]
  · simp [Sodium.aeadDecrypt, hlen]

/-- A text is sealed under a key in a buffer that is long enough. -/
theorem gyAeadEncrypt_eq (key ad : Bytes Sym) {nonce pt : Bytes Sym} {cap : Nat}
    (hnonce : nonce.length = 12) (hcap : pt.length + 16 ≤ cap) :
    gyAeadEncrypt 1 cap key nonce ad pt = .ok (pt ++ Sym.tag key nonce ad pt 16) := by
  have hlen : ¬ nonce.length ≠ AeadAlg.chacha20poly1305.nonceLen := not_not.2 hnonce
  have hroom : ¬ cap < pt.length + AeadAlg.chacha20poly1305.tagLen := not_lt.2 hcap
  rw [gyAeadEncrypt]
  dsimp only [aeadAlg]
  rw [if_pos rfl]
  dsimp only
  rw [if_neg hlen, if_neg (by decide), if_neg hroom]
  rfl

/-- What a sealed field is made of. -/
theorem seals_field (ek : Bytes Sym) (tag : FieldTag) (pt : Bytes Sym) (k : Nat) :
    Seals qsSuite 1 ek tag gid pt (field ek tag pt k) where
  length := by
    simp only [field, List.length_append, length_prim, Sym.tag]
    rfl
  opens cap hcap := by
    have hnonce : (prim 45 [num k] 12 : Bytes Sym).length = aeadNonceLen 1 := length_prim _ _ _
    have henc := gyAeadEncrypt_eq ek (aad tag) (length_prim 45 [num k] 12)
      (le_refl (pt.length + 16))
    have hlen : (field ek tag pt k).length = 12 + pt.length + 16 := by
      simp only [field, List.length_append, length_prim, Sym.tag]
      omega
    rw [gyQspgsFieldOpen, if_neg (by omega), if_neg (by decide), fieldAad_eq, Except.ok_bind,
      if_neg (by rw [hlen]; show ¬ _ < 12 + 16; omega), field, List.take_left' hnonce,
      List.drop_left' hnonce]
    exact (gyAeadDecrypt_of_encrypt aeadOpens_sym henc hcap).1

attribute [irreducible] field

/-! ## Cores -/

/-- A line of a roster; the key is that of the user, and the zero key for a pending user. -/
structure Line where
  user : Nat
  admn : Bool
  pending : Bool

/-- The tuple of a line. -/
def Line.tuple (l : Line) : MemberTuple Sym :=
  ⟨l.pending, uid l.user, rcOpen l.user, if l.pending then zeros 32 else uk l.user⟩

/-- The tuple of a roster line has the widths of the code. -/
theorem Line.tuple_wf (l : Line) : l.tuple.Wf qsSuite where
  uid := length_uid _
  rcOpen := length_rcOpen _
  key := by
    unfold Line.tuple
    dsimp only
    split
    · exact length_zeros 32
    · exact length_uk _

/-- The entry of a line under a group key. -/
def Line.member (gk : Bytes Sym) (l : Line) : QspgsMember Sym :=
  ⟨cuid l.user, l.admn, field (sub gk).ek .member l.tuple.pt l.user⟩

/-- The entry of a line holds its tuple. -/
theorem Line.holds (gk : Bytes Sym) (l : Line) :
    Holds qsSuite 1 (sub gk).ek gid (l.member gk) l.tuple where
  opens := gyQspgsMemberCtOpen_of_seals (by decide) l.tuple_wf (seals_field _ _ _ _)
  commits := gyQspgsCuidCommit_eq _

/-- What a client sees of a line. -/
def Line.view (l : Line) : MemberView Sym :=
  ⟨uid l.user, l.admn, l.pending, if l.pending then zeros 32 else uk l.user⟩

/-- A line as a fetch reports it. -/
def Line.report (l : Line) : RosterView Sym :=
  ⟨uid l.user, l.admn, if l.pending then [] else uk l.user⟩

/-- The entry of a line decrypts to its view. -/
theorem Line.memberDecrypt (gk : Bytes Sym) (l : Line) :
    gyQspgsMemberDecrypt qsSuite 1 (sub gk).ek gid (l.member gk) = .ok l.view := by
  refine gyQspgsMemberDecrypt_eq_ok_iff.2 ⟨l.tuple, l.holds gk, ?_⟩
  cases l with
  | mk user admn pending => cases pending <;> rfl

/-- The hash of a line under a group key. -/
def Line.hash (gk : Bytes Sym) (l : Line) : Bytes Sym := symVkHash (vkr gk l.user)

/-- A core with the given header text, join slot and roster. -/
def core (gk : Bytes Sym) (vmaj lastVmin : UInt32) (hdrpt slot : Bytes Sym) (roster : List Line) :
    QspgsCore Sym where
  gid := gid
  formatVersion := qspgsFormatVersion
  aeadId := 1
  vmaj := vmaj
  saCt := field (sub gk).ek .header hdrpt 0
  joinCt := slot
  members := roster.map (Line.member gk)
  vkhash := roster.map (Line.hash gk)
  lastVmin := lastVmin

/-- The size of a sealed field. -/
theorem length_field (ek : Bytes Sym) (tag : FieldTag) (pt : Bytes Sym) (k : Nat) :
    (field ek tag pt k).length = 12 + pt.length + 16 := (seals_field ek tag pt k).length

section Core

variable {gk : Bytes Sym} {vmaj lastVmin : UInt32} {hdrpt slot : Bytes Sym} {roster : List Line}

/-- The core of a roster is well formed as long as its fields fit. -/
theorem core_wf (hhdr : hdrpt.length ≤ 2000) (hslot : slot.length ≤ 2000)
    (hroster : roster.length ≤ qspgsMaxEntries) :
    (core gk vmaj lastVmin hdrpt slot roster).Wf qsSuite where
  gid := length_gid
  format := rfl
  saCt := by
    show (field (sub gk).ek .header hdrpt 0).length < 2 ^ 32
    rw [length_field]
    omega
  joinCt := by
    show slot.length < 2 ^ 32
    omega
  members_le := by simpa [core] using hroster
  cuid := by
    intro m hm
    obtain ⟨l, -, rfl⟩ := List.mem_map.1 hm
    exact length_cuid _
  mct := by
    intro m hm
    obtain ⟨l, -, rfl⟩ := List.mem_map.1 hm
    show (field (sub gk).ek .member l.tuple.pt l.user).length ≤ 0xffff
    rw [length_field, l.tuple_wf.length_pt]
    decide
  vkhash_le := by simpa [core] using hroster
  vkhash := by
    intro h hh
    obtain ⟨l, -, rfl⟩ := List.mem_map.1 hh
    exact length_symVkHash _

/-- The objects of a core signed by the user number `signer` as the line at `i`. -/
def bundle (core : QspgsCore Sym) (gk : Bytes Sym) (i : UInt32) (signer : Nat) : CoreBundle Sym :=
  ⟨headerBytes qsSuite core, memberListBytes qsSuite core, vkLstBytes qsSuite core,
    coreSigBytes qsSuite (symSign core i (vkr gk signer))⟩

end Core

/-! ## The client -/

/-- The record of an acquaintance with a user. -/
def acquaintance (n : Nat) : Bytes Sym :=
  putHdr ++ (be64Put 0 ++ vkb n ++ zeros 32 ++ uk n)

/-- The records of the user number `me`: its base pair, the group key and an acquaintance with
every other user. -/
def recs (me : Nat) (gk : Bytes Sym) : QsRecords Sym := fun kind id =>
  match kind with
  | .baseKey => if id = uid me then putHdr ++ (skb me ++ vkb me) else []
  | .groupKey => if id = gid then putHdr ++ gk else []
  | .acquaintance =>
    match keyNum 40 id with
    | some n => acquaintance n
    | none => []
  | _ => []

/-- Random bytes that never fail and never repeat. -/
def coins : Coins Sym := fun k n => some ⟨prim 50 [num k] n, length_prim _ _ _⟩

/-- The state of a client with the given records. -/
def world (recs : QsRecords Sym) : QsWorld Sym := ⟨⟨recs, []⟩, coins, 0⟩

/-- The custodian of a user. -/
def custodian (me : Nat) : QsCustodian Sym := ⟨true, qsSuite, uid me⟩

@[simp] theorem custodian_desc (me : Nat) : (custodian me).desc = qsSuite := rfl

@[simp] theorem custodian_selfUid (me : Nat) : (custodian me).selfUid = uid me := rfl

/-- A client of the user number `me` that holds the group key and knows every user. -/
structure Knows (me : Nat) (gk : Bytes Sym) (w : QsWorld Sym) : Prop where
  quiet : w.Quiet
  base : w.store.recs .baseKey (uid me) = putHdr ++ (skb me ++ vkb me)
  staged : w.store.recs .groupKeyPending gid = []
  current : w.store.recs .groupKey gid = putHdr ++ gk
  known : ∀ n, w.store.recs .acquaintance (uid n) = acquaintance n

/-- A world with the records of a member knows the group key. -/
theorem knows_world (me : Nat) (gk : Bytes Sym) : Knows me gk (world (recs me gk)) where
  quiet := rfl
  base := by simp [world, recs]
  staged := rfl
  current := by simp [world, recs]
  known n := by simp [world, recs, keyNum_uid]

/-- A draw is the next coin. -/
theorem gyRandomBytes_eq {w : QsWorld Sym} (h : w.rnd = coins) (n : Nat) :
    gyRandomBytes n w = (.ok (prim 50 [num w.drawn] n), { w with drawn := w.drawn + 1 }) := by
  rw [gyRandomBytes, h]
  rfl

/-- A signature takes one coin. -/
theorem ctxSign_eq {w : QsWorld Sym} (h : w.rnd = coins) (gk : Bytes Sym) (n : Nat)
    (msg ctx : Bytes Sym) :
    ctxSign qsSuite ⟨sub gk, vkr gk n, rsk gk n⟩ msg ctx w =
      (.ok (krSig qsSuite (vkr gk n) msg ctx), { w with drawn := w.drawn + 1 }) := by
  rw [ctxSign, Cmd.bind_apply_of_ok (gyRandomBytes_eq h 32), sign_eq]
  rfl

theorem length_vkb (n : Nat) : (vkb n).length = 2976 := by
  unfold vkb
  exact length_prim _ _ _

theorem length_skb (n : Nat) : (skb n).length = 800 := by
  unfold skb
  exact length_prim _ _ _

section Client

variable {me : Nat} {gk : Bytes Sym} {w : QsWorld Sym}

/-- The group key is loaded, and no record changes. -/
theorem Knows.groupKeyLoad (h : Knows me gk w) (hgk : gk.length = 32) :
    onStore (gyQspgsGroupKeyLoad qsSuite gid qspgsMasterKeyMax) w = (.ok gk, w) := by
  have hstill : Cmd.Still (onStore (gyQspgsGroupKeyLoad qsSuite gid qspgsMasterKeyMax)) w :=
    still_groupKeyLoad h.quiet gid qspgsMasterKeyMax
  have hpend := loadKeyed_of_absent h.quiet h.staged (gyQspgsMasterKeyLen qsSuite)
  have hcur := loadKeyed_of_record h.quiet h.current hgk (by decide)
  refine Prod.ext ?_ hstill
  show (gyQspgsGroupKeyLoad qsSuite gid qspgsMasterKeyMax w.store).1 = .ok gk
  rw [gyQspgsGroupKeyLoad, if_neg (by decide), if_neg (by decide), Cmd.attempt_bind_apply, hpend]
  exact congrArg Prod.fst hcur

/-- The own base key is loaded. -/
theorem Knows.baseKeyLoad (h : Knows me gk w) :
    onStore (gyQspgsBaseKeyLoad qsSuite (uid me)) w = (.ok (skb me, vkb me), w) := by
  refine baseKeyLoad_of_record h.quiet (length_uid me) (length_skb me) (length_vkb me) ?_ ?_ h.base
  · rw [length_skb, length_vkb]
    decide
  · rw [length_skb, length_vkb]
    decide

/-- Every user is an acquaintance, with the base key of the user's number. -/
theorem Knows.acquaintanceLoad (h : Knows me gk w) (n : Nat) :
    onStore (gyQspgsAcquaintanceLoad qsSuite (uid n)) w = (.ok ⟨0, vkb n, zeros 32, uk n⟩, w) := by
  refine acquaintanceLoad_of_record h.quiet (length_uid n) (length_vkb n) (length_zeros 32)
    (length_uk n) ?_ ?_ (h.known n)
  · rw [length_vkb, length_uk]
    decide
  · rw [length_vkb, length_uk]
    decide

/-- Every user's base key is known to the client. -/
theorem Knows.resolveMemberVkb (h : Knows me gk w) (n : Nat) (accts : List (AcctRef Sym)) :
    resolveMemberVkb (custodian me) (uid n) accts w = (.ok (vkb n), w) := by
  have hload : onStore (gyQspgsAcquaintanceLoad (custodian me).desc (uid n)) w =
      (.ok (⟨0, vkb n, zeros 32, uk n⟩ : Acquaintance Sym), w) := h.acquaintanceLoad n
  by_cases hself : n = me
  · subst hself
    have hbase : onStore (gyQspgsBaseKeyLoad (custodian n).desc (uid n)) w =
        (.ok (skb n, vkb n), w) := h.baseKeyLoad
    exact resolveMemberVkb_self accts rfl hbase
  · exact resolveMemberVkb_known accts (fun heq => hself (uid_inj.1 heq)) hload

/-- Every user's key is attested to the client. -/
theorem Knows.checkUserKey (h : Knows me gk w) (n : Nat) (accts : List (AcctRef Sym)) :
    checkUserKey (custodian me) (uid n) (uk n) accts w = (.ok (), w) := by
  have hload : onStore (gyQspgsAcquaintanceLoad (custodian me).desc (uid n)) w =
      (.ok (⟨0, vkb n, zeros 32, uk n⟩ : Acquaintance Sym), w) := h.acquaintanceLoad n
  have hkey := checkUserKey_known accts (length_uk n) hload
  exact hkey

/-! ## Opening a core -/

variable {vmaj lastVmin : UInt32} {hdrpt slot : Bytes Sym} {roster : List Line} {i : UInt32}
  {l : Line}

/-- The signature of a core verifies under the line that made it. -/
theorem core_resolveVerify {core : QspgsCore Sym} (hwf : core.Wf qsSuite)
    (hhash : core.vkhash[i.toNat]? = some (l.hash gk)) :
    gyQspgsCoreResolveVerify qsSuite core i (sub gk).rrs (vkb l.user) (uid l.user)
      (symSign core i (vkr gk l.user)).sig
      ((headerBytes qsSuite core).length + (memberListBytes qsSuite core).length +
        (vkLstBytes qsSuite core).length + 64) = .ok () := by
  have hcap : (coreTbsBytes qsSuite core i).length ≤ (headerBytes qsSuite core).length +
      (memberListBytes qsSuite core).length + (vkLstBytes qsSuite core).length + 64 := by
    simp only [coreTbsBytes, List.length_append, length_be32Put]
    omega
  unfold gyQspgsCoreResolveVerify
  rw [hhash]
  dsimp only
  rw [gyQspgsDeriveRho_eq, Except.ok_bind, randVk_eq, Except.ok_bind, gyQspgsVkpsdnHashCheck,
    gyQspgsVkpsdnHash_sym, Except.ok_bind, if_pos (show symVkHash (vkr gk l.user) = l.hash gk from
      rfl), Except.ok_bind]
  exact gyQspgsCoreVerify_symSign i _ hwf hcap

/-- A bundle is read back as its core and signature. -/
theorem decodeBundle_bundle {core : QspgsCore Sym} (hwf : core.Wf qsSuite) (gk : Bytes Sym)
    (i : UInt32) (signer : Nat) :
    decodeBundle qsSuite (bundle core gk i signer) =
      .ok (core, symSign core i (vkr gk signer)) := by
  rw [decodeBundle, bundle, decodeCore_bytes qsSuite hwf, Except.ok_bind,
    gyQspgsCoreSigDecode_symSign, Except.ok_bind]
  rfl

/-- `open_current` takes a core that any line of the roster has signed. -/
theorem Knows.openCurrent (h : Knows me gk w) (hgk : gk.length = 32)
    (hwf : (core gk vmaj lastVmin hdrpt slot roster).Wf qsSuite)
    (hl : roster[i.toNat]? = some l) :
    openCurrent (custodian me) (bundle (core gk vmaj lastVmin hdrpt slot roster) gk i l.user) w =
      (.ok ⟨core gk vmaj lastVmin hdrpt slot roster,
        symSign (core gk vmaj lastVmin hdrpt slot roster) i (vkr gk l.user), gk, sub gk⟩, w) := by
  have hmem : (core gk vmaj lastVmin hdrpt slot roster).members[i.toNat]? = some (l.member gk) := by
    simp [core, hl]
  have hhash : (core gk vmaj lastVmin hdrpt slot roster).vkhash[i.toNat]? = some (l.hash gk) := by
    simp [core, hl]
  exact openCurrent_of_signed (decodeBundle_bundle hwf gk i l.user) hmem (h.groupKeyLoad hgk)
    (gyQspgsDeriveSubKey_eq gk) (l.memberDecrypt gk) (h.resolveMemberVkb _ _)
    (core_resolveVerify hwf hhash)

/-! ## Fetching -/

/-- The key list of a core is right. -/
theorem Knows.checkVklst (h : Knows me gk w) (cor : QspgsCore Sym) (hgid : cor.gid = gid)
    (haead : cor.aeadId = 1) (hmem : cor.members = roster.map (Line.member gk))
    (hvk : cor.vkhash = roster.map (Line.hash gk)) (accts : List (AcctRef Sym)) :
    checkVklstRecompute (custodian me) cor (sub gk) accts w = (.ok (), w) := by
  have hentry : ∀ l : Line, checkVkEntry (custodian me) cor (sub gk) accts
      (l.member gk, l.hash gk) w = (.ok (), w) := by
    intro l
    have hv : gyQspgsMemberDecrypt (custodian me).desc cor.aeadId (sub gk).ek cor.gid
        (l.member gk) = .ok l.view := by
      rw [hgid, haead]
      exact l.memberDecrypt gk
    exact checkVkEntry_of_hash hv (h.resolveMemberVkb l.user accts)
      (gyQspgsAttributeHash_eq gk l.user)
  rw [checkVklstRecompute, if_neg (by simp [hmem, hvk]), hmem, hvk]
  clear hmem hvk
  induction roster with
  | nil => rfl
  | cons l rest ih =>
    show (checkVkEntry (custodian me) cor (sub gk) accts (l.member gk, l.hash gk) >>= fun _ =>
      ((rest.map (Line.member gk)).zip (rest.map (Line.hash gk))).forM
        (checkVkEntry (custodian me) cor (sub gk) accts)) w = _
    rw [Cmd.bind_apply_of_ok (hentry l)]
    exact ih

/-- The answer with a core and nothing else. -/
def answer (b : CoreBundle Sym) : GroupAnswer Sym := ⟨b.hdr, b.memberList, b.vkLst, b.sig, [], []⟩

/-- A fetch of a core that an admin line of it has signed. -/
def opened (cor : QspgsCore Sym) (gk : Bytes Sym) (i : UInt32) (l : Line) : OpenedCore Sym :=
  ⟨cor, ⟨zeros qspgsGidLen, 0, 0, []⟩, symSign cor i (vkr gk l.user), l.view, sub gk⟩

/-- The user keys of a roster are the ones that are stored. -/
theorem Knows.userKeys (h : Knows me gk w) (roster : List Line) (accts : List (AcctRef Sym)) :
    ((roster.map Line.view).map FetchWork.ofView).forM (fetchUserKey (custodian me) accts) w =
      (.ok (), w) := by
  have hentry : ∀ l : Line, fetchUserKey (custodian me) accts (FetchWork.ofView l.view) w =
      (.ok (), w) := by
    rintro ⟨user, admn, pending⟩
    cases pending with
    | true => rfl
    | false =>
      have hkey := h.checkUserKey user accts
      show (if _ then _ else Geryon.checkUserKey (custodian me) (uid user) (uk user) accts) w = _
      split
      · rfl
      · exact hkey
  induction roster with
  | nil => rfl
  | cons l rest ih =>
    show (fetchUserKey (custodian me) accts (FetchWork.ofView l.view) >>= fun _ =>
      ((rest.map Line.view).map FetchWork.ofView).forM (fetchUserKey (custodian me) accts)) w = _
    rw [Cmd.bind_apply_of_ok (hentry l)]
    exact ih

/-- The entries of a roster decrypt to its views. -/
theorem mapM'_memberDecrypt (roster : List Line) :
    (roster.map (Line.member gk)).mapM' (gyQspgsMemberDecrypt qsSuite 1 (sub gk).ek gid) =
      .ok (roster.map Line.view) := by
  refine Except.mapM'_eq_ok_iff.2 ?_
  induction roster with
  | nil => exact .nil
  | cons l rest ih => exact .cons (l.memberDecrypt gk) ih

/-- The first half of a fetch takes every core that an admin line of it has signed and that passes
the lineage check, with any appendix of it. -/
theorem Knows.fetchOpen (h : Knows me gk w) (hgk : gk.length = 32)
    (hwf : (core gk vmaj lastVmin hdrpt slot roster).Wf qsSuite) (hl : roster[i.toNat]? = some l)
    (hadmn : l.admn = true) {prior : PriorView Sym}
    (hlin : lineageCheck (core gk vmaj lastVmin hdrpt slot roster) (uid l.user) true prior =
      .ok ()) (accts : List (AcctRef Sym)) {apx queue : Bytes Sym} {a : Appendix Sym}
    (hapx : apxOfCore qsSuite (core gk vmaj lastVmin hdrpt slot roster) apx = .ok a)
    {caps : FetchCaps} (hcaps : caps.reports = none) :
    fetchOpen (custodian me)
        { answer (bundle (core gk vmaj lastVmin hdrpt slot roster) gk i l.user) with
          apx := apx
          inviteQueue := queue } prior accts caps w =
      (.ok { opened (core gk vmaj lastVmin hdrpt slot roster) gk i l with apx := a }, w) := by
  have hmem : (core gk vmaj lastVmin hdrpt slot roster).members[i.toNat]? = some (l.member gk) := by
    simp [core, hl]
  have hhash : (core gk vmaj lastVmin hdrpt slot roster).vkhash[i.toNat]? = some (l.hash gk) := by
    simp [core, hl]
  have hlin' : lineageCheck (core gk vmaj lastVmin hdrpt slot roster) l.view.uid
      (l.member gk).admn prior = .ok () := by
    rw [show (l.member gk).admn = true from hadmn]
    exact hlin
  have hreports : ∀ cap ∈ caps.reports, a.lines.length ≤ cap := by
    intro cap hcap
    rw [hcaps] at hcap
    cases hcap
  exact fetchOpen_of_signed rfl (decodeBundle_bundle hwf gk i l.user) hapx hreports hmem
    (h.groupKeyLoad hgk) (gyQspgsDeriveSubKey_eq gk) (l.memberDecrypt gk)
    (h.resolveMemberVkb _ _) (core_resolveVerify hwf hhash) hlin'
    (h.checkVklst _ rfl rfl rfl rfl accts)

/-- The sealed header field of a core opens to the header text. -/
theorem openHeaderField_core (hhdr : 1 ≤ hdrpt.length) (hmax : hdrpt.length ≤ 1 + qsgroupAttrMax) :
    openHeaderField qsSuite (core gk vmaj lastVmin hdrpt slot roster) (sub gk).ek = .ok hdrpt := by
  unfold openHeaderField
  show (gyQspgsFieldOpen qsSuite 1 (sub gk).ek .header gid (field (sub gk).ek .header hdrpt 0)
    (1 + qsgroupAttrMax) >>= _) = _
  rw [(seals_field _ _ _ _).opens _ hmax, Except.ok_bind, if_neg (by omega)]

/-- A fetch that has no line to apply reports the roster of the core. -/
theorem Knows.fetchFold (h : Knows me gk w) (hhdr : 1 ≤ hdrpt.length)
    (hmax : hdrpt.length ≤ 1 + qsgroupAttrMax) (accts : List (AcctRef Sym)) {ans : GroupAnswer Sym}
    (hqueue : ans.inviteQueue = []) {a : Appendix Sym} (ha : a.lines = []) :
    fetchFold (custodian me) ans accts ⟨roster.length, none, none⟩
        { opened (core gk vmaj lastVmin hdrpt slot roster) gk i l with apx := a } w =
      (.ok ⟨roster.map Line.report, [], hdrpt.drop 1⟩, w) := by
  have hviews : roster.map Line.report =
      (roster.map Line.view).map fun v => (FetchWork.ofView v).view := by
    rw [List.map_map]
    refine List.map_congr_left fun x _ => ?_
    rcases x with ⟨user, admn, pending⟩
    cases pending <;> rfl
  rw [hviews]
  exact fetchFold_of_plain ha (by rw [hqueue]; rfl) (mapM'_memberDecrypt roster)
    (openHeaderField_core hhdr hmax) (h.userKeys roster accts) (by simp) rfl

/-- A fetch accepts every core that an admin line of it has signed and that passes the lineage
check, and reports its roster. -/
theorem Knows.fetch (h : Knows me gk w) (hgk : gk.length = 32)
    (hwf : (core gk vmaj lastVmin hdrpt slot roster).Wf qsSuite) (hhdr : 1 ≤ hdrpt.length)
    (hmax : hdrpt.length ≤ 1 + qsgroupAttrMax) (hl : roster[i.toNat]? = some l)
    (hadmn : l.admn = true) {prior : PriorView Sym}
    (hlin : lineageCheck (core gk vmaj lastVmin hdrpt slot roster) (uid l.user) true prior =
      .ok ()) (accts : List (AcctRef Sym)) :
    gyCustodianQsgroupFetch (custodian me)
        (answer (bundle (core gk vmaj lastVmin hdrpt slot roster) gk i l.user)) prior accts
        ⟨roster.length, none, none⟩ w =
      (.ok (opened (core gk vmaj lastVmin hdrpt slot roster) gk i l,
        ⟨roster.map Line.report, [], hdrpt.drop 1⟩), w) := by
  have hopen : Geryon.fetchOpen (custodian me)
      (answer (bundle (core gk vmaj lastVmin hdrpt slot roster) gk i l.user)) prior accts
      ⟨roster.length, none, none⟩ w =
      (.ok (opened (core gk vmaj lastVmin hdrpt slot roster) gk i l), w) :=
    h.fetchOpen hgk hwf hl hadmn hlin accts rfl rfl
  exact gyCustodianQsgroupFetch_of_opened hopen (h.fetchFold hhdr hmax accts rfl rfl)

/-! ## Lines -/

/-- A framed line of a user. -/
def line (gk : Bytes Sym) (n : Nat) (vmaj vmin : UInt32) (kind : ApxKind) (author : UInt32)
    (payload : Bytes Sym) : ApxLine Sym :=
  ⟨kind, author, payload, krSig qsSuite (vkr gk n)
    (gid ++ be32Put vmaj ++ be32Put vmin ++ [byte kind.byte] ++ be32Put author ++ payload)
    (ascii "qspgs-appendix")⟩

/-- A framed appendix line: the line and its signature in an appendix of one line. -/
theorem frameLine_eq (h : w.rnd = coins) (gk : Bytes Sym) (n : Nat) (vmaj vmin : UInt32)
    (kind : ApxKind) (author : UInt32) (payload : Bytes Sym) {cap : Nat}
    (hpay : payload.length ≤ 0xffff) (hcap : payload.length + 3000 ≤ cap) :
    frameLine qsSuite ⟨sub gk, vkr gk n, rsk gk n⟩ gid vmaj vmin kind author payload cap w =
      (.ok (appendixBytes qsSuite ⟨gid, vmaj, vmin, [line gk n vmaj vmin kind author payload]⟩),
        { w with drawn := w.drawn + 1 }) := by
  have hsig : (line gk n vmaj vmin kind author payload).sig.length = 2420 := length_krSig _ _ _ _
  have hlen : (appendixBytes qsSuite ⟨gid, vmaj, vmin,
      [line gk n vmaj vmin kind author payload]⟩).length = payload.length + 2458 := by
    simp only [appendixBytes, ApxLine.encode, List.length_append, List.flatMap_cons,
      List.flatMap_nil, List.length_cons, List.length_nil, hsig, length_be32Put, length_be16Put,
      length_gid, length_objPutHeader]
    simp only [line]
    omega
  rw [frameLine, gyQspgsApxLineTbs, if_neg (by simp only [qspgsGidLen]; omega),
    Cmd.lift_ok_bind_apply, Cmd.bind_apply_of_ok (ctxSign_eq h gk n _ _)]
  show (gyQspgsAppendixEncode qsSuite ⟨gid, vmaj, vmin,
    [line gk n vmaj vmin kind author payload]⟩ cap, _) = _
  rw [gyQspgsAppendixEncode, if_neg (by simp [qspgsMaxEntries]),
    if_neg (by
      simp only [List.any_cons, List.any_nil, Bool.or_false, decide_eq_true_eq, hsig]
      simp only [line]
      omega), if_neg (by omega)]

/-- The signature of a line verifies under its author's key, against the key list or without. -/
theorem line_resolveVerify (gk : Bytes Sym) (n : Nat) (vmaj vmin : UInt32) (kind : ApxKind)
    (author : UInt32) (payload : Bytes Sym) {stored : Option (Bytes Sym)}
    (hstored : ∀ h ∈ stored, h = symVkHash (vkr gk n)) {cap : Nat}
    (hcap : payload.length + 29 ≤ cap) :
    gyQspgsApxLineResolveVerify qsSuite gid vmaj vmin (line gk n vmaj vmin kind author payload)
      (sub gk).rrs (vkb n) (uid n) stored cap = .ok () := by
  have hverify : gyQspgsApxLineVerify qsSuite gid vmaj vmin
      (line gk n vmaj vmin kind author payload) (vkr gk n) cap = .ok () := by
    have hsig : (line gk n vmaj vmin kind author payload).sig.length = qsSuite.dsaSigLen :=
      length_krSig _ _ _ _
    rw [gyQspgsApxLineVerify, gyQspgsApxLineTbs,
      if_neg (by simp only [qspgsGidLen, line]; omega), Except.ok_bind, if_neg (not_not.2 hsig)]
    simp [KrMlDsa.verify, line]
    rfl
  rw [gyQspgsApxLineResolveVerify, gyQspgsDeriveRho_eq, Except.ok_bind, randVk_eq, Except.ok_bind]
  cases stored with
  | none => exact hverify
  | some h =>
    dsimp only
    rw [gyQspgsVkpsdnHashCheck, gyQspgsVkpsdnHash_sym, Except.ok_bind, if_pos (hstored h rfl).symm]
    exact hverify

/-- The caller's line is found where it stands first. -/
theorem findMember_eq (hd : Line) (tl : List Line) {cor : QspgsCore Sym} (hgid : cor.gid = gid)
    (haead : cor.aeadId = 1) :
    findMember qsSuite cor (sub gk).ek (uid hd.user) 0 ((hd :: tl).map (Line.member gk)) =
      .ok (some (0, hd.view)) := by
  rw [List.map_cons, findMember, hgid, haead, hd.memberDecrypt, Except.ok_bind,
    if_pos (show hd.view.uid = uid hd.user from rfl)]
  rfl

/-- A member whose line stands first begins an appendix operation on a core of its group, whichever
line has signed it. -/
theorem Knows.appendixPrepare (hd : Line) {tl : List Line} (h : Knows hd.user gk w)
    (hgk : gk.length = 32) (hwf : (core gk vmaj lastVmin hdrpt slot (hd :: tl)).Wf qsSuite)
    (hl : (hd :: tl)[i.toNat]? = some l) :
    appendixPrepare (custodian hd.user)
        (bundle (core gk vmaj lastVmin hdrpt slot (hd :: tl)) gk i l.user) w =
      (.ok ⟨⟨core gk vmaj lastVmin hdrpt slot (hd :: tl),
        symSign (core gk vmaj lastVmin hdrpt slot (hd :: tl)) i (vkr gk l.user), gk, sub gk⟩,
        ⟨sub gk, vkr gk hd.user, rsk gk hd.user⟩, 0⟩, w) := by
  have hself : findSelfIndex (custodian hd.user) (core gk vmaj lastVmin hdrpt slot (hd :: tl))
      (sub gk).ek = .ok 0 := by
    show (findMember qsSuite (core gk vmaj lastVmin hdrpt slot (hd :: tl)) (sub gk).ek
      (uid hd.user) 0 ((hd :: tl).map (Line.member gk)) >>= _) = _
    rw [findMember_eq hd tl rfl rfl, Except.ok_bind]
    rfl
  exact appendixPrepare_of_opened rfl (h.openCurrent hgk hwf hl) hself h.baseKeyLoad
    (gyQspgsMemberCtxOpen_eq gk hd.user)

/-- An admin whose line stands first begins an edit on a core of its group, whichever line has
signed it. -/
theorem Knows.editBegin (hd : Line) {tl : List Line} (h : Knows hd.user gk w)
    (hgk : gk.length = 32) (hwf : (core gk vmaj lastVmin hdrpt slot (hd :: tl)).Wf qsSuite)
    (hadmn : hd.admn = true) (hl : (hd :: tl)[i.toNat]? = some l) :
    editBegin (custodian hd.user)
        (bundle (core gk vmaj lastVmin hdrpt slot (hd :: tl)) gk i l.user) w =
      (.ok ⟨⟨core gk vmaj lastVmin hdrpt slot (hd :: tl),
        symSign (core gk vmaj lastVmin hdrpt slot (hd :: tl)) i (vkr gk l.user), gk, sub gk⟩, 0,
        skb hd.user, vkb hd.user⟩, w) := by
  have hself : selfAdminIndex (custodian hd.user) (core gk vmaj lastVmin hdrpt slot (hd :: tl))
      (sub gk).ek = .ok 0 := by
    show (findMember qsSuite (core gk vmaj lastVmin hdrpt slot (hd :: tl)) (sub gk).ek
      (uid hd.user) 0 ((hd :: tl).map (Line.member gk)) >>= _) = _
    rw [findMember_eq hd tl rfl rfl, Except.ok_bind]
    show (if hd.admn = true then Except.ok (UInt32.ofNat 0) else .error GyErr.state) = _
    rw [if_pos hadmn]
    rfl
  exact editBegin_of_opened rfl (h.openCurrent hgk hwf hl) hself h.baseKeyLoad

/-! ## Emitting -/

/-- The fetch token of a group key. -/
def fet (gk : Bytes Sym) : Bytes Sym := kdf (domain "qspgs-fet") gk (domain "qspgs-fet") 32

/-- The fetch token of a group key. -/
theorem gyQspgsDeriveFet_eq (gk : Bytes Sym) : gyQspgsDeriveFet qsSuite gk = .ok (fet gk) := by
  with_unfolding_all rfl

/-- Buffers that hold every core of fewer than a thousand entries. -/
def roomy : CoreCaps := ⟨100000, 1000000, 1000000, 10000⟩

/-- The roomy buffers of the sample take every core of the sample. -/
theorem roomy_hold {cor : QspgsCore Sym} (hwf : cor.Wf qsSuite)
    (hmct : ∀ m ∈ cor.members, m.mct.length ≤ 512)
    (hn : cor.vkhash.length ≤ cor.members.length) (hsa : cor.saCt.length ≤ 5000)
    (hjoin : cor.joinCt.length ≤ 5000) (hmem : cor.members.length ≤ 1000) :
    roomy.Hold qsSuite cor 2420 := by
  have hh := @length_headerBytes_le _ _ qsSuite _ hwf.gid
  have hm := length_memberListBytes_le (show qsSuite.hashLen ≤ 64 by decide) hwf hmct
  have hv := length_vkLstBytes_le (show qsSuite.hashLen ≤ 64 by decide) hwf hn
  constructor
  · show _ ≤ 100000
    omega
  · show _ ≤ 1000000
    omega
  · show _ ≤ 1000000
    omega
  · decide

/-- A core is emitted with the signature of the client that edits it. -/
theorem emitEdited_eq (h : w.rnd = coins) {cor : QspgsCore Sym} (hwf : cor.Wf qsSuite)
    (hmct : ∀ m ∈ cor.members, m.mct.length ≤ 512)
    (hn : cor.vkhash.length ≤ cor.members.length) (gk : Bytes Sym) (n : Nat) (i : UInt32)
    {caps : CoreCaps} (hcaps : caps.Hold qsSuite cor 2420) :
    emitEdited (custodian n) cor gk (skb n) (vkb n) i caps w =
      (.ok (bundle cor gk i n, fet gk), { w with drawn := w.drawn + 1 }) := by
  have hlen : (krSig qsSuite (vkr gk n) (coreTbsBytes qsSuite cor i)
      (ascii "qspgs-core")).length = 2420 := length_krSig _ _ _ _
  have hsig : (krSig qsSuite (vkr gk n) (coreTbsBytes qsSuite cor i)
      (ascii "qspgs-core")).length ≠ 0 ∧ (krSig qsSuite (vkr gk n) (coreTbsBytes qsSuite cor i)
      (ascii "qspgs-core")).length ≤ 8000 := by
    rw [hlen]
    decide
  have hhold : caps.Hold qsSuite cor (krSig qsSuite (vkr gk n) (coreTbsBytes qsSuite cor i)
      (ascii "qspgs-core")).length := by
    rw [hlen]
    exact hcaps
  exact emitEdited_of_wf (c := custodian n) (show qsSuite.hashLen ≤ 64 by decide) hwf hmct hn
    (gyQspgsMemberCtxOpen_eq gk n) (ctxSign_eq h gk n _ _) hsig (gyQspgsDeriveFet_eq gk) hhold

/-- The sealed tuple of a line stays below 512 bytes. -/
theorem Line.length_mct (gk : Bytes Sym) (l : Line) : (l.member gk).mct.length ≤ 512 := by
  show (field (sub gk).ek .member l.tuple.pt l.user).length ≤ 512
  rw [length_field, l.tuple_wf.length_pt]
  decide

end Client

/-- The first version of a group of an admin, user 0, and an ordinary member, user 1. -/
def pairCore : QspgsCore Sym :=
  core (gk 0) 1 0 [Sym.byte 0] [] [⟨0, true, false⟩, ⟨1, false, false⟩]

/-- The core of two members is well formed. -/
theorem pairCore_wf : pairCore.Wf qsSuite := core_wf (by decide) (by decide) (by decide)

/-! ## Removing a member -/

section Remove

variable {w : QsWorld Sym}

/-- A field is sealed with one draw, in a buffer that is long enough. -/
theorem fieldSeal_eq (h : w.rnd = coins) (ek : Bytes Sym) (tag : FieldTag) {pt : Bytes Sym}
    {cap : Nat} (hcap : 12 + pt.length + 16 ≤ cap) :
    ∃ ct, ct.length = 12 + pt.length + 16 ∧ gyQspgsFieldSeal qsSuite 1 ek tag gid pt cap w =
      (.ok ct, { w with drawn := w.drawn + 1 }) := by
  have henc := gyAeadEncrypt_eq ek (aad tag) (length_prim 50 [num w.drawn] 12)
    (show pt.length + 16 ≤ cap - 12 by omega)
  have hlen : ¬ cap < aeadNonceLen 1 + pt.length + aeadTagLen 1 := by
    show ¬ cap < 12 + pt.length + 16
    omega
  refine ⟨prim 50 [num w.drawn] 12 ++ (pt ++ Sym.tag ek (prim 50 [num w.drawn] 12) (aad tag) pt 16),
    ?_, ?_⟩
  · rw [List.length_append, List.length_append, Sym.tag, length_prim, length_prim]
    omega
  rw [gyQspgsFieldSeal, if_neg (by decide), fieldAad_eq, Cmd.lift_ok_bind_apply, if_neg hlen,
    Cmd.bind_apply_of_ok (gyRandomBytes_eq h _)]
  show (Cmd.lift
      (gyAeadEncrypt 1 (cap - 12) ek (prim 50 [num w.drawn] 12) (aad tag) pt) >>= _) _ = _
  rw [henc, Cmd.lift_ok_bind_apply]
  rfl

/-- An entry for a user is built, with the widths of an entry. -/
theorem memberBuild_eq (h : w.rnd = coins) (gk : Bytes Sym) (n : Nat) (admn : Bool) :
    ∃ m : QspgsMember Sym,
      gyQspgsMemberBuild qsSuite 1 (sub gk) gid (uid n) (uk n) (vkb n) admn w =
        (.ok (m, symVkHash (vkr gk n)), { w with drawn := w.drawn + 2 }) ∧
      m.cuid.length = 64 ∧ m.mct.length ≤ 512 := by
  have hwf : (⟨false, uid n, prim 50 [num w.drawn] qspgsRcLen, uk n⟩ : MemberTuple Sym).Wf
      qsSuite := ⟨length_uid n, length_prim _ _ _, length_uk n⟩
  have hpt := hwf.length_pt
  have hcap : 12 + (⟨false, uid n, prim 50 [num w.drawn] qspgsRcLen, uk n⟩ :
      MemberTuple Sym).pt.length + 16 ≤ mctCap := by
    rw [hpt]
    decide
  obtain ⟨cuid, hcuid, hlen⟩ : ∃ cuid, gyQspgsCuidCommit qsSuite (uid n)
      (prim 50 [num w.drawn] qspgsRcLen) = .ok cuid ∧ cuid.length = 64 :=
    ⟨_, rfl, by simp [digest]⟩
  obtain ⟨mct, hmct, hfield⟩ := fieldSeal_eq (w := { w with drawn := w.drawn + 1 }) h (sub gk).ek
    .member hcap
  have hseal : memberCtSealForm qsSuite 1 (sub gk).ek gid
      ⟨false, uid n, prim 50 [num w.drawn] qspgsRcLen, uk n⟩ mctCap
      { w with drawn := w.drawn + 1 } = (.ok mct, { w with drawn := w.drawn + 2 }) := by
    rw [memberCtSealForm, if_neg (by decide), if_neg (not_not.2 hwf.uid)]
    exact hfield
  refine ⟨⟨cuid, admn, mct⟩, ?_, hlen, ?_⟩
  · rw [gyQspgsMemberBuild, memberBuildForm, if_neg (by decide),
      Cmd.bind_apply_of_ok (gyRandomBytes_eq h qspgsRcLen), Cmd.bind_apply_of_ok hseal, hcuid,
      Cmd.lift_ok_bind_apply, gyQspgsAttributeHash_eq, Cmd.lift_ok_bind_apply]
    rfl
  · dsimp only
    rw [hmct, hpt]
    decide

variable {roster : List Line}

/-- A member who stays gets a new entry. -/
theorem rebuildMember_stays (hk : Knows 0 (gk 0) w) (h : w.rnd = coins) (new : Bytes Sym)
    (l : Line) (hl : l.pending = false) {remove : Option (Bytes Sym)}
    (hstays : remove ≠ some (uid l.user)) (r : Rebuilt Sym) :
    ∃ m : QspgsMember Sym,
      rebuildMember (custodian 0) (core (gk 0) 1 0 [Sym.byte 0] [] roster) (sub (gk 0)).ek (sub new)
        remove r (l.member (gk 0)) w =
        (.ok ⟨r.members ++ [m], r.vkhash ++ [symVkHash (vkr new l.user)],
          if uid l.user = uid 0 then some r.members.length else r.self, r.target⟩,
          { w with drawn := w.drawn + 2 }) ∧
      m.cuid.length = 64 ∧ m.mct.length ≤ 512 := by
  obtain ⟨m, hbuild, hcuid, hmct⟩ := memberBuild_eq h new l.user l.admn
  refine ⟨m, ?_, hcuid, hmct⟩
  have hv : gyQspgsMemberDecrypt qsSuite 1 (sub (gk 0)).ek gid (l.member (gk 0)) =
      .ok ⟨uid l.user, l.admn, false, uk l.user⟩ := by
    have hview := l.memberDecrypt (gk 0)
    rwa [Line.view, hl, if_neg (by decide)] at hview
  show (Cmd.lift (gyQspgsMemberDecrypt qsSuite 1 (sub (gk 0)).ek gid (l.member (gk 0))) >>= _) _ = _
  rw [hv, Cmd.lift_ok_bind_apply, if_neg hstays, Cmd.bind_apply_of_ok (hk.resolveMemberVkb _ [])]
  dsimp only
  rw [if_neg (by decide)]
  exact Cmd.bind_apply_of_ok hbuild

/-- A member who is removed is passed over. -/
theorem rebuildMember_leaves (new : Bytes Sym) (l : Line) (r : Rebuilt Sym) :
    rebuildMember (custodian 0) (core (gk 0) 1 0 [Sym.byte 0] [] roster) (sub (gk 0)).ek (sub new)
      (some (uid l.user)) r (l.member (gk 0)) w = (.ok { r with target := true }, w) := by
  show (Cmd.lift (gyQspgsMemberDecrypt qsSuite 1 (sub (gk 0)).ek gid (l.member (gk 0))) >>= _) _ = _
  rw [l.memberDecrypt, Cmd.lift_ok_bind_apply,
    if_pos (show some (uid l.user) = some l.view.uid from rfl)]
  rfl

/-- A key is staged where none is. -/
theorem stage_succeeds {me : Nat} {cur : Bytes Sym} (hk : Knows me cur w) (new : Bytes Sym) :
    ∃ w', onStore (gyQspgsGroupKeyStage qsSuite gid new) w = (.ok (), w') ∧
      w'.store.recs .groupKeyPending gid ≠ [] := by
  have hstore : ∃ st, gyQspgsGroupKeyStage qsSuite gid new w.store = (.ok (), st) ∧
      st.recs .groupKeyPending gid = putHdr ++ new := by
    rw [gyQspgsGroupKeyStage, if_neg (by decide), Cmd.attempt_bind_apply,
      loadKeyed_of_absent hk.quiet hk.staged]
    dsimp only
    unfold storeKeyed storeCb callback
    rw [hk.quiet]
    refine ⟨_, rfl, ?_⟩
    dsimp only [QsRecords.set]
    exact if_pos ⟨rfl, rfl⟩
  obtain ⟨st, hst, hrec⟩ := hstore
  refine ⟨{ w with store := st }, by rw [onStore, Cmd.zoom_apply, hst], fun hempty => ?_⟩
  cases hrec.symm.trans hempty

/-- The version after the first, with new entries. -/
def keptCore (members : List (QspgsMember Sym)) (vkhash : List (Bytes Sym)) (sa : Bytes Sym)
    (lastVmin : UInt32) : QspgsCore Sym :=
  { pairCore with
    vmaj := pairCore.vmaj + 1
    saCt := sa
    joinCt := []
    members := members
    vkhash := vkhash
    lastVmin := lastVmin }

section Kept

variable {members : List (QspgsMember Sym)} {vkhash : List (Bytes Sym)} {sa : Bytes Sym}
  (hmem : ∀ m ∈ members, m.cuid.length = 64 ∧ m.mct.length ≤ 512) (hn : members.length ≤ 1000)
  (hhash : ∀ h ∈ vkhash, ∃ vkr, symVkHash vkr = h) (hvk : vkhash.length ≤ members.length)
  (hsa : sa.length = 29)
include hmem hn hhash hvk hsa

/-- The core an edit keeps the fields of is well formed. -/
theorem keptCore_wf (lastVmin : UInt32) : (keptCore members vkhash sa lastVmin).Wf qsSuite where
  gid := length_gid
  format := rfl
  saCt := by
    show sa.length < 2 ^ 32
    omega
  joinCt := show 0 < 2 ^ 32 by decide
  members_le := hn.trans (by decide)
  cuid m hm := (hmem m hm).1
  mct m hm := (hmem m hm).2.trans (by decide)
  vkhash_le := hvk.trans (hn.trans (by decide))
  vkhash h hh := by
    obtain ⟨vkr, rfl⟩ := hhash h hh
    exact length_symVkHash vkr

/-- The admin signs and emits the next version, under any key. -/
theorem emitEdited_keptCore (h : w.rnd = coins) (new : Bytes Sym) (lastVmin : UInt32) :
    emitEdited (custodian 0) (keptCore members vkhash sa lastVmin) new (skb 0) (vkb 0) 0 roomy w =
      (.ok (bundle (keptCore members vkhash sa lastVmin) new 0 0, fet new),
        { w with drawn := w.drawn + 1 }) := by
  have hwf := keptCore_wf hmem hn hhash hvk hsa lastVmin
  have hmct : ∀ m ∈ members, m.mct.length ≤ 512 := fun m hm => (hmem m hm).2
  exact emitEdited_eq h hwf hmct hvk new 0 0
    (roomy_hold hwf hmct hvk (show sa.length ≤ 5000 by omega) (show 0 ≤ 5000 by decide) hn)

end Kept

/-- The admin of a group of two rebuilds it without the other, and has the new key staged. -/
theorem rebuildAndEmit_alone {l : Line} (hl : l.user ≠ 0) (sig : CoreSig Sym) :
    ∃ next w', rebuildAndEmit (custodian 0)
      ⟨⟨core (gk 0) 1 0 [Sym.byte 0] [] [⟨0, true, false⟩, l], sig, gk 0, sub (gk 0)⟩, 0, skb 0,
        vkb 0⟩ (some (uid l.user)) roomy (world (recs 0 (gk 0))) = (.ok next, w') ∧
      w'.store.recs .groupKeyPending gid ≠ [] := by
  have hk (n : Nat) : Knows 0 (gk 0) { world (recs 0 (gk 0)) with drawn := n } :=
    let h := knows_world 0 (gk 0)
    ⟨h.quiet, h.base, h.staged, h.current, h.known⟩
  -- the new key is drawn first
  have hkey : gyQspgsGroupKeyGen qsSuite (world (recs 0 (gk 0))) =
      (.ok (prim 50 [num 0] 32), { world (recs 0 (gk 0)) with drawn := 1 }) := by
    rw [gyQspgsGroupKeyGen, if_neg (by decide)]
    exact gyRandomBytes_eq rfl _
  generalize (prim 50 [num 0] 32 : Bytes Sym) = new at hkey
  have hstays : some (uid l.user) ≠ some (uid 0) := fun h => hl (uid_inj.1 (Option.some.inj h))
  obtain ⟨m, hfirst, hcuid, hmct⟩ := @rebuildMember_stays _ [⟨0, true, false⟩, l] (hk 1)
    rfl new ⟨0, true, false⟩ rfl _ hstays ⟨[], [], none, false⟩
  have hfold : ([⟨0, true, false⟩, l].map (Line.member (gk 0))).foldlM (rebuildMember (custodian 0)
      (core (gk 0) 1 0 [Sym.byte 0] [] [⟨0, true, false⟩, l]) (sub (gk 0)).ek (sub new)
      (some (uid l.user))) ⟨[], [], none, false⟩ { world (recs 0 (gk 0)) with drawn := 1 } =
      (.ok ⟨[m], [symVkHash (vkr new 0)], some 0, true⟩,
        { world (recs 0 (gk 0)) with drawn := 3 }) := by
    rw [List.map_cons, List.map_cons, List.map_nil, List.foldlM_cons, Cmd.bind_apply_of_ok hfirst,
      List.foldlM_cons, Cmd.bind_apply_of_ok (rebuildMember_leaves new l _), if_pos rfl]
    rfl
  have hopen : gyQspgsFieldOpen qsSuite 1 (sub (gk 0)).ek .header gid
      (field (sub (gk 0)).ek .header [Sym.byte 0] 0) (1 + qsgroupAttrMax) = .ok [Sym.byte 0] :=
    (seals_field _ _ _ _).opens _ (by decide)
  obtain ⟨saNew, hsa, hseal⟩ := @fieldSeal_eq { world (recs 0 (gk 0)) with drawn := 3 } rfl
    (sub new).ek .header [Sym.byte 0] (1 + qsgroupAttrMax + 64) (by decide)
  have hemit := @emitEdited_keptCore { world (recs 0 (gk 0)) with drawn := 4 } [m]
    [symVkHash (vkr new 0)] saNew (by simp [hcuid, hmct]) (by simp) (by simp) (by simp) hsa rfl
    new 0
  obtain ⟨w', hstage, hstaged⟩ := stage_succeeds (hk 5) new
  exact ⟨⟨bundle (keptCore [m] [symVkHash (vkr new 0)] saNew 0) new 0 0, fet new, false⟩, w',
    rebuildAndEmit_of_closed (r := ⟨[m], [symVkHash (vkr new 0)], some 0, true⟩) (n := 0)
      (p := (bundle (keptCore [m] [symVkHash (vkr new 0)] saNew 0) new 0 0, fet new))
      hkey (gyQspgsDeriveSubKey_eq new) hfold (by simp) rfl (gyQspgsDeriveFet_eq new) hopen hseal
      rfl hemit hstage, hstaged⟩

/-- The admin of the pair removes user 1. -/
theorem removeMember_pair : ∃ next w', gyCustodianQsgroupRemoveMember (custodian 0)
    (bundle pairCore (gk 0) 0 0) (uid 1) roomy (world (recs 0 (gk 0))) = (.ok next, w') ∧
      w'.store.recs .groupKeyPending gid ≠ [] := by
  have hbegin : editBegin (custodian 0) (bundle pairCore (gk 0) 0 0) (world (recs 0 (gk 0))) = _ :=
    (knows_world 0 (gk 0)).editBegin (i := 0) (l := ⟨0, true, false⟩) ⟨0, true, false⟩
      (length_gk 0) pairCore_wf rfl rfl
  obtain ⟨next, w', hrun, hstaged⟩ := rebuildAndEmit_alone (l := ⟨1, false, false⟩) (by decide)
    (symSign pairCore 0 (vkr (gk 0) 0))
  refine ⟨next, w', ?_, hstaged⟩
  rw [gyCustodianQsgroupRemoveMember, Cmd.bind_apply_of_ok hbegin, if_neg (by simp [qspgsUidLen]),
    if_neg (by simp)]
  exact hrun

end Remove

end Sample

end Geryon
