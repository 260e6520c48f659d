import Geryon.Qspgs.Canonical

/-!
# Appending to a stored appendix

The server's `gy_qsgroups_server_appendix_append`: it decodes the stored appendix and the submitted
lines into one array and encodes them together. The header of a stored appendix without lines is
not compared with the header of the submission; it is replaced by it.

## Main results

- `gyQsgroupsServerAppendixAppend_ok_iff`: what the call accepts and what it stores.
- `appendixAppend_faithful_iff`: when nothing is lost, invented or moved to another version.
-/

namespace Geryon

section

variable {β : Type} [Octet β] [DecidableEq β] (desc : SuiteDesc β)

/-- Two appendices name the same group and version. -/
def Appendix.SameHeader (a b : Appendix β) : Prop :=
  a.gid = b.gid ∧ a.vmaj = b.vmaj ∧ a.vmin = b.vmin

instance (a b : Appendix β) : Decidable (a.SameHeader b) := by
  unfold Appendix.SameHeader
  infer_instance

/-- `memset(&amerged, 0, sizeof(amerged))`, when nothing is stored. -/
def Appendix.zero : Appendix β := ⟨zeros qspgsGidLen, 0, 0, []⟩

/-- `gy_qsgroups_server_appendix_append` into a buffer of `cap` bytes. -/
def gyQsgroupsServerAppendixAppend (curApx lineObj : Bytes β) (cap : Nat) :
    Except GyErr (Bytes β) := do
  let acur ←
    if curApx.length = 0 then pure Appendix.zero
    else gyQspgsAppendixDecodeInto desc qspgsMaxEntries curApx
  let aline ← gyQspgsAppendixDecodeInto desc (qspgsMaxEntries - acur.lines.length) lineObj
  -- with no line stored the header is taken from the object that came in
  if acur.lines.length = 0 then
    gyQspgsAppendixEncode desc { aline with lines := acur.lines ++ aline.lines } cap
  else if aline.vmaj ≠ acur.vmaj ∨ aline.vmin ≠ acur.vmin ∨ aline.gid ≠ acur.gid then
    .error .verify
  else gyQspgsAppendixEncode desc { acur with lines := acur.lines ++ aline.lines } cap

end

variable (desc : SuiteDesc UInt8)

/-- The call keeps what is stored and adds what is submitted, and refuses another header. -/
structure AppendFaithful (stored : Appendix UInt8) (curApx lineObj : Bytes UInt8) (cap : Nat) :
    Prop where
  stores : ∀ {out}, gyQsgroupsServerAppendixAppend desc curApx lineObj cap = .ok out →
    ∃ submitted, gyQspgsAppendixDecode desc lineObj = .ok submitted ∧
      gyQspgsAppendixDecode desc out =
        .ok { stored with lines := stored.lines ++ submitted.lines }
  refuses : ∀ {submitted}, gyQspgsAppendixDecode desc lineObj = .ok submitted →
    ¬stored.SameHeader submitted →
    ∃ e, gyQsgroupsServerAppendixAppend desc curApx lineObj cap = .error e

/-- Two well-formed appendices that fit together are well formed. -/
theorem Appendix.Wf.append {a b : Appendix UInt8} (ha : a.Wf desc) (hb : b.Wf desc)
    (hmax : a.lines.length + b.lines.length ≤ qspgsMaxEntries) :
    ({ a with lines := a.lines ++ b.lines } : Appendix UInt8).Wf desc where
  gid := ha.gid
  lines_le := by rwa [List.length_append]
  payload l hl := (List.mem_append.1 hl).elim (ha.payload l) (hb.payload l)
  sig l hl := (List.mem_append.1 hl).elim (ha.sig l) (hb.sig l)

/-- Nothing is encoded into a buffer that is too short. -/
theorem gyQspgsAppendixEncode_of_short {apx : Appendix UInt8} {cap : Nat}
    (h : cap < (appendixBytes desc apx).length) {out : Bytes UInt8} :
    gyQspgsAppendixEncode desc apx cap ≠ .ok out := by
  rw [gyQspgsAppendixEncode, if_pos h]
  split_ifs <;> · intro h; cases h

/-- What is encoded from a well-formed appendix decodes to it. -/
theorem gyQspgsAppendixDecode_of_encode {apx : Appendix UInt8} (hwf : apx.Wf desc)
    (hsigMax : desc.dsaSigLen ≤ 0xffff) {cap : Nat} {out : Bytes UInt8}
    (h : gyQspgsAppendixEncode desc apx cap = .ok out) :
    gyQspgsAppendixDecode desc out = .ok apx := by
  rw [gyQspgsAppendixEncode] at h
  split_ifs at h
  obtain rfl := Except.ok.inj h
  exact gyQspgsAppendixDecode_appendixBytes desc hwf hsigMax

/-- Under one header it does not matter whose is kept. -/
theorem merged_of_sameHeader {stored submitted : Appendix UInt8}
    (h : stored.SameHeader submitted) (ls : List (ApxLine UInt8)) :
    ({ (if stored.lines = [] then submitted else stored) with lines := ls } : Appendix UInt8) =
      { stored with lines := ls } := by
  obtain ⟨hgid, hmaj, hmin⟩ := h
  split_ifs
  · rw [hgid, hmaj, hmin]
  · rfl

/-- What the call accepts over a stored appendix, and what it stores. -/
theorem gyQsgroupsServerAppendixAppend_ok_iff {stored : Appendix UInt8}
    {curApx lineObj out : Bytes UInt8} {cap : Nat}
    (hcur : gyQspgsAppendixDecode desc curApx = .ok stored) :
    gyQsgroupsServerAppendixAppend desc curApx lineObj cap = .ok out ↔
      ∃ submitted, gyQspgsAppendixDecode desc lineObj = .ok submitted ∧
        stored.lines.length + submitted.lines.length ≤ qspgsMaxEntries ∧
        (stored.lines = [] ∨ stored.SameHeader submitted) ∧
        gyQspgsAppendixEncode desc
          { (if stored.lines = [] then submitted else stored) with
            lines := stored.lines ++ submitted.lines } cap = .ok out := by
  have hne : curApx.length ≠ 0 := by
    intro h0
    rw [List.eq_nil_of_length_eq_zero h0] at hcur
    cases hcur
  have hmax := (gyQspgsAppendixDecode_ok desc hcur).1.lines_le
  have hinto : gyQspgsAppendixDecodeInto desc qspgsMaxEntries curApx = .ok stored :=
    (gyQspgsAppendixDecodeInto_ok_iff desc).2 ⟨hcur, hmax⟩
  unfold gyQsgroupsServerAppendixAppend
  rw [if_neg hne, hinto, Except.ok_bind, Except.bind_eq_ok_iff]
  refine exists_congr fun submitted => ?_
  rw [gyQspgsAppendixDecodeInto_ok_iff, and_assoc]
  refine and_congr_right fun _ => and_congr (by omega) ?_
  by_cases hnil : stored.lines = []
  · simp [hnil]
  · have hlen : stored.lines.length ≠ 0 := fun h0 => hnil (List.eq_nil_of_length_eq_zero h0)
    rw [if_neg hlen, if_neg hnil]
    by_cases hsame : stored.SameHeader submitted
    · obtain ⟨hgid, hmaj, hmin⟩ := hsame
      rw [if_neg (by simp [hgid, hmaj, hmin])]
      exact (and_iff_right (Or.inr ⟨hgid, hmaj, hmin⟩)).symm
    · have hbad : submitted.vmaj ≠ stored.vmaj ∨ submitted.vmin ≠ stored.vmin ∨
          submitted.gid ≠ stored.gid := by
        by_contra hall
        simp only [not_or, not_not] at hall
        exact hsame ⟨hall.2.2.symm, hall.1.symm, hall.2.1.symm⟩
      rw [if_pos hbad]
      simp [hnil, hsame]

/-- Over a stored appendix the call is faithful exactly if the appendix has a line, or the
submission names the same group and version, or is too long for the buffer. -/
theorem appendixAppend_faithful_iff (hsig : desc.dsaSigLen ≠ 0) (hsigMax : desc.dsaSigLen ≤ 0xffff)
    {stored : Appendix UInt8} {curApx : Bytes UInt8}
    (hcur : gyQspgsAppendixDecode desc curApx = .ok stored) (lineObj : Bytes UInt8) (cap : Nat) :
    AppendFaithful desc stored curApx lineObj cap ↔
      ∀ submitted, gyQspgsAppendixDecode desc lineObj = .ok submitted →
        stored.lines ≠ [] ∨ stored.SameHeader submitted ∨ cap < lineObj.length := by
  have hwf := (gyQspgsAppendixDecode_ok desc hcur).1
  constructor
  · intro hf submitted hdec
    by_contra hcon
    simp only [not_or, not_not, Nat.not_lt] at hcon
    obtain ⟨hnil, hother, hcap⟩ := hcon
    -- the submission takes the place of the stored header
    have hsub := (gyQspgsAppendixDecode_ok desc hdec).1
    have hobj := gyQspgsAppendixDecode_exact desc hdec
    have henc : gyQspgsAppendixEncode desc submitted cap = .ok (appendixBytes desc submitted) :=
      gyQspgsAppendixEncode_eq desc hsub hsig hsigMax (by rwa [hobj])
    have hok : gyQsgroupsServerAppendixAppend desc curApx lineObj cap =
        .ok (appendixBytes desc submitted) := by
      refine (gyQsgroupsServerAppendixAppend_ok_iff desc hcur).2
        ⟨submitted, hdec, ?_, Or.inl hnil, ?_⟩
      · rw [hnil, List.length_nil, Nat.zero_add]
        exact hsub.lines_le
      · rw [if_pos hnil, hnil]
        exact henc
    obtain ⟨e, herr⟩ := hf.refuses hdec hother
    rw [hok] at herr
    cases herr
  · intro hcond
    constructor
    · intro out hout
      obtain ⟨submitted, hdec, hmax, hhdr, henc⟩ :=
        (gyQsgroupsServerAppendixAppend_ok_iff desc hcur).1 hout
      have hsub := (gyQspgsAppendixDecode_ok desc hdec).1
      have hsame : stored.SameHeader submitted := by
        rcases hcond submitted hdec with hne | hsame | hcap
        · exact hhdr.resolve_left hne
        · exact hsame
        · refine hhdr.resolve_left fun hnil => ?_
          -- the submission alone would have to fit
          rw [if_pos hnil, hnil] at henc
          have hlong : cap < (appendixBytes desc submitted).length := by
            rwa [gyQspgsAppendixDecode_exact desc hdec]
          exact absurd henc (gyQspgsAppendixEncode_of_short desc hlong)
      refine ⟨submitted, hdec, ?_⟩
      rw [merged_of_sameHeader hsame] at henc
      exact gyQspgsAppendixDecode_of_encode desc (hwf.append desc hsub hmax) hsigMax henc
    · intro submitted hdec hother
      cases hres : gyQsgroupsServerAppendixAppend desc curApx lineObj cap with
      | error e => exact ⟨e, rfl⟩
      | ok out =>
        obtain ⟨submitted', hdec', -, hhdr, henc⟩ :=
          (gyQsgroupsServerAppendixAppend_ok_iff desc hcur).1 hres
        obtain rfl := Except.ok.inj (hdec.symm.trans hdec')
        have hnil := hhdr.resolve_right hother
        rcases hcond submitted hdec with hne | hsame | hcap
        · exact absurd hnil hne
        · exact absurd hsame hother
        · rw [if_pos hnil, hnil] at henc
          have hlong : cap < (appendixBytes desc submitted).length := by
            rwa [gyQspgsAppendixDecode_exact desc hdec]
          exact absurd henc (gyQspgsAppendixEncode_of_short desc hlong)

/-! ## A stored appendix without lines -/

/-- An empty appendix at a major version. -/
def emptyAppendix (vmaj : UInt32) : Appendix UInt8 := ⟨zeros qspgsGidLen, vmaj, 0, []⟩

/-- One leave line at a major version. -/
def leaveAppendix (vmaj : UInt32) : Appendix UInt8 :=
  ⟨zeros qspgsGidLen, vmaj, 0, [⟨.leave, 0, [], zeros 2420⟩]⟩

theorem wf_emptyAppendix (vmaj : UInt32) : (emptyAppendix vmaj).Wf qspgsWireSuite where
  gid := length_zeros _
  lines_le := Nat.zero_le _
  payload _ hl := nomatch hl
  sig _ hl := nomatch hl

theorem wf_leaveAppendix (vmaj : UInt32) : (leaveAppendix vmaj).Wf qspgsWireSuite where
  gid := length_zeros _
  lines_le := Nat.le_add_left 1 1023
  payload l hl := by
    obtain rfl := List.mem_singleton.1 hl
    exact Nat.zero_le _
  sig l hl := by
    obtain rfl := List.mem_singleton.1 hl
    exact length_zeros _

theorem appendixAppend_faithful_leave :
    AppendFaithful qspgsWireSuite (leaveAppendix 1) (appendixBytes qspgsWireSuite (leaveAppendix 1))
      (appendixBytes qspgsWireSuite (leaveAppendix 1)) 8192 :=
  (appendixAppend_faithful_iff qspgsWireSuite (by decide) (by decide)
    (gyQspgsAppendixDecode_appendixBytes qspgsWireSuite (wf_leaveAppendix 1) (by decide)) _ _).2
    fun _ _ => Or.inl (by simp [leaveAppendix])

/-- A line of version 2 is appended to the empty appendix of version 1, which it replaces. -/
theorem foreign_line_replaces_header :
    gyQspgsAppendixDecode qspgsWireSuite (appendixBytes qspgsWireSuite (emptyAppendix 1)) =
      .ok (emptyAppendix 1) ∧
    gyQspgsAppendixDecode qspgsWireSuite (appendixBytes qspgsWireSuite (leaveAppendix 2)) =
      .ok (leaveAppendix 2) ∧
    ¬(emptyAppendix 1).SameHeader (leaveAppendix 2) ∧
    gyQsgroupsServerAppendixAppend qspgsWireSuite (appendixBytes qspgsWireSuite (emptyAppendix 1))
      (appendixBytes qspgsWireSuite (leaveAppendix 2)) 8192 =
      .ok (appendixBytes qspgsWireSuite (leaveAppendix 2)) := by
  have hempty := gyQspgsAppendixDecode_appendixBytes qspgsWireSuite (wf_emptyAppendix 1) (by decide)
  have hleave := gyQspgsAppendixDecode_appendixBytes qspgsWireSuite (wf_leaveAppendix 2) (by decide)
  refine ⟨hempty, hleave, by decide, ?_⟩
  refine (gyQsgroupsServerAppendixAppend_ok_iff qspgsWireSuite hempty).2
    ⟨leaveAppendix 2, hleave, by decide, Or.inl rfl, ?_⟩
  exact gyQspgsAppendixEncode_eq qspgsWireSuite (wf_leaveAppendix 2) (by decide) (by decide)
    (by simp [appendixBytes, leaveAppendix, ApxLine.encode, qspgsGidLen])

end Geryon
