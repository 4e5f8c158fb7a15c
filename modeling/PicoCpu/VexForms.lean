import PicoCpu.Aes

/-!
The forms of one vector operation: the legacy handler, the VEX-encoded one and the EVEX-encoded
ones compute the same low sixteen bytes.
-/

namespace PicoCpu

open H Proc Handlers

/-! ### The steps of `phase10.cpp` are those of `sse4_aes.cpp` -/

namespace Aes

theorem phase10_shiftRows (s : Buf) : Agree (Phase10.shiftRows s) (shiftRows s) := by
  have hfrom : ∀ i < 16, Phase10.rowsFrom.getD i 0 = (i + 4 * (i % 4)) % 16 := by decide
  exact fun i hi => congrArg s (hfrom i hi)

theorem phase10_invShiftRows (s : Buf) : Agree (Phase10.invShiftRows s) (invShiftRows s) := by
  have hfrom : ∀ i < 16, Phase10.invRowsFrom.getD i 0 = (i + 12 * (i % 4)) % 16 := by decide
  exact fun i hi => congrArg s (hfrom i hi)

theorem onColumns_eq (f : U8 → U8 → U8 → U8 → U8) (s : Buf) (i : Nat) :
    Phase10.onColumns f s i =
      f (s i) (column s i (i + 1)) (column s i (i + 2)) (column s i (i + 3)) := by
  have hplace (r : Nat) : column s i (i + r) = s (4 * (i / 4) + (i % 4 + r) % 4) := by
    rw [column, Nat.mod_add_mod]
  have hself : s i = s (4 * (i / 4) + i % 4) := by rw [Nat.div_add_mod]
  rw [hplace, hplace, hplace, hself]
  unfold Phase10.onColumns
  rcases (by omega : i % 4 = 0 ∨ i % 4 = 1 ∨ i % 4 = 2 ∨ i % 4 = 3) with h | h | h | h
  · simp only [h]
  · simp only [h]
  · simp only [h]
  · simp only [h]

theorem phase10_mixColumns (s : Buf) : Phase10.mixColumns s = mixColumns s := by
  have hxt : Phase10.xt = xtime := rfl
  funext i
  rw [Phase10.mixColumns, onColumns_eq, mixColumns, columnSum_eq, Phase10.mixByte, hxt]
  ac_rfl

theorem phase10_invMixColumns (s : Buf) : Phase10.invMixColumns s = invMixColumns s := by
  have hxt : Phase10.xt = xtime := rfl
  funext i
  have hsum : s i ^^^ column s i (i + 1) ^^^ column s i (i + 2) ^^^ column s i (i + 3) =
      columnSum s i := by
    rw [columnSum_eq]
    ac_rfl
  rw [Phase10.invMixColumns, onColumns_eq, Phase10.invMixByte, hxt, hsum]
  rfl

theorem phase10_substitute (s : Buf) :
    Agree (Phase10.subBytes (Phase10.shiftRows s)) (substitute s) :=
  fun i hi => congrArg sbox (phase10_shiftRows s i hi)

theorem phase10_invSubstitute (s : Buf) :
    Agree (Phase10.invSubBytes (Phase10.invShiftRows s)) (invSubstitute s) :=
  fun i hi => congrArg invSbox (phase10_invShiftRows s i hi)

end Aes

/-! ### The forms of an operation -/

/-- A VEX.128 instruction whose first source is its destination. -/
structure Insn.Vex128 (insn : Insn) (d s : Nat) : Prop extends insn.OnRegisters d s where
  first : insn.dst.index = d
  width : insn.opSize = 16
  vex : insn.flags.vex = true

/-- An unmasked EVEX.128 instruction whose first source is its destination. -/
structure Insn.Evex128 (insn : Insn) (d s : Nat) : Prop extends insn.OnRegisters d s where
  first : insn.dst.index = d
  width : insn.opSize = 16
  unmasked : opmask insn = 0

/-- The handlers of one operation. -/
structure Forms where
  sse : Handler
  vex : Handler
  evex : List Handler

def forms : List Forms :=
  [⟨.opPxor, .opVpxor, [.opVpxord, .opVpxorq]⟩, ⟨.opPand, .opVpand, [.opVpandd, .opVpandq]⟩,
   ⟨.opPor, .opVpor, [.opVpord, .opVporq]⟩, ⟨.opPaddb, .opVpaddb, [.opVpaddbEvex]⟩,
   ⟨.opPaddw, .opVpaddw, [.opVpaddwEvex]⟩, ⟨.opPaddd, .opVpaddd, [.opVpadddEvex]⟩,
   ⟨.opPaddq, .opVpaddq, [.opVpaddqEvex]⟩, ⟨.opPsubb, .opVpsubb, [.opVpsubbEvex]⟩,
   ⟨.opPsubw, .opVpsubw, [.opVpsubwEvex]⟩, ⟨.opPsubd, .opVpsubd, [.opVpsubdEvex]⟩,
   ⟨.opPsubq, .opVpsubq, [.opVpsubqEvex]⟩, ⟨.opPshufb, .opVpshufb, []⟩,
   ⟨.opPcmpgtq, .opVpcmpgtq, []⟩, ⟨.opAesenc, .opVaesenc, []⟩,
   ⟨.opAesenclast, .opVaesenclast, []⟩, ⟨.opAesdec, .opVaesdec, []⟩,
   ⟨.opAesdeclast, .opVaesdeclast, []⟩, ⟨.opPclmulqdq, .opVpclmulqdq, []⟩]

/-- Runs of the programs from one CPU end with the same low sixteen bytes in the register. -/
def SameLow (d : Nat) (p q : H Unit) : Prop :=
  ∀ (σ : Type) (at_ : Attached σ) (c : Cpu) (w : World σ),
    Aes.Agree ((p.runOn at_ c w).value.2.zmm d) ((q.runOn at_ c w).value.2.zmm d)

theorem SameLow.of_updates {d : Nat} {p q : H Unit} {g h : Cpu → Cpu} (hp : p.Updates g)
    (hq : q.Updates h) (hagree : ∀ c, Aes.Agree ((g c).zmm d) ((h c).zmm d)) : SameLow d p q := by
  intro σ at_ c w
  rw [hp.runOn, hq.runOn]
  exact hagree c

section Forms

variable {d s : Nat} {x v e : Insn}

/-- The low bytes of a VEX.128 write. -/
theorem zmm_zeroYmmUpper_low (c : Cpu) (reg : Nat) {i : Nat} (hi : i < 16) :
    (c.zeroYmmUpper reg).zmm reg i = c.zmm reg i :=
  c.zmm_setZmmBytes_below reg 16 48 _ hi

theorem sameLow_vexBinop (hx : x.OnRegisters d s) (hv : v.Vex128 d s) {f : Buf → Buf → Buf} :
    SameLow d (binaryXmm f x) (vexBinop f v) := by
  refine .of_updates (hx.xmmBinary sseIo fun _ => f) (hv.vexBinop f) fun c i hi => ?_
  simp only [hv.width, if_true, hv.first]
  rw [zmm_zeroYmmUpper_low _ _ hi, Cpu.zmm_setZmmBytes_low _ _ _ _ hi]

/-- Without a mask every lane is written. -/
theorem sameLow_maskedBinop (hx : x.OnRegisters d s) (he : e.Evex128 d s) {f : Buf → Buf → Buf}
    {size : Nat} : SameLow d (binaryXmm f x) (maskedBinop size f e) := by
  refine .of_updates (hx.xmmBinary sseIo fun _ => f) (he.maskedBinop size f) fun c i hi => ?_
  have hlane : i / size < 64 := (Nat.div_le_self ..).trans_lt (by omega)
  have hbit : bitAt (maskBits e c) (i / size) = true := by
    have hall : ∀ n < 64, bitAt (~~~0#64) n = true := by decide
    rw [maskBits, if_pos he.unmasked]
    exact hall _ hlane
  simp only [he.width, he.first]
  rw [Cpu.zeroZmmUpper, Cpu.zmm_setZmmBytes_below _ _ _ _ _ hi, Cpu.zmm_setZmmBytes_low _ _ _ _ hi,
    Cpu.zmm_setZmmBytes_low _ _ _ _ hi, maskLanes, if_pos hbit]

theorem sameLow_vexBinopXmm (hx : x.OnRegisters d s) (hv : v.Vex128 d s) {io : VecIo}
    {f f' : Insn → Buf → Buf → Buf} (hf : ∀ a b, Aes.Agree (f x a b) (f' v a b)) :
    SameLow d (xmmBinary io f x) (vexBinopXmm f' v) := by
  refine .of_updates (hx.xmmBinary io f) (hv.vexBinopXmm f' hv.vex) fun c i hi => ?_
  rw [zmm_zeroYmmUpper_low _ _ hi, Cpu.zmm_setZmmBytes_low _ _ _ _ hi,
    Cpu.zmm_setZmmBytes_low _ _ _ _ hi, hv.first]
  exact hf _ _ i hi

variable {fp : HostFp}

/-- The forms over one operation on lanes. -/
theorem lanes_agree (hx : x.OnRegisters d s) (hv : v.Vex128 d s) (he : e.Evex128 d s)
    {f : Buf → Buf → Buf} {sse vex : Handler} {evex : List Handler}
    (hsse : callHandler fp sse = binaryXmm f) (hvex : callHandler fp vex = vexBinop f)
    (hevex : ∀ g ∈ evex, ∃ size, callHandler fp g = maskedBinop size f) :
    SameLow d (callHandler fp sse x) (callHandler fp vex v) ∧
      ∀ g ∈ evex, SameLow d (callHandler fp sse x) (callHandler fp g e) := by
  rw [hsse, hvex]
  refine ⟨sameLow_vexBinop hx hv, fun g hg => ?_⟩
  obtain ⟨size, hsize⟩ := hevex g hg
  rw [hsize]
  exact sameLow_maskedBinop hx he

/-- The two forms over one operation on sixteen bytes. -/
theorem bytes_agree (hx : x.OnRegisters d s) (hv : v.Vex128 d s) {io : VecIo}
    {f f' : Insn → Buf → Buf → Buf} {sse vex : Handler}
    (hsse : callHandler fp sse = xmmBinary io f) (hvex : callHandler fp vex = vexBinopXmm f')
    (hf : ∀ a b, Aes.Agree (f x a b) (f' v a b)) :
    SameLow d (callHandler fp sse x) (callHandler fp vex v) ∧
      ∀ g ∈ ([] : List Handler), SameLow d (callHandler fp sse x) (callHandler fp g e) := by
  rw [hsse, hvex]
  exact ⟨sameLow_vexBinopXmm hx hv hf, fun _ hg => nomatch hg⟩

end Forms

open Aes in
/-- All forms of an operation, on the same registers, leave the same low sixteen bytes in the
destination, whether or not it is also the source. -/
theorem forms_agree (fp : HostFp) (d s : Nat) (x v e : Insn) (hx : x.OnRegisters d s)
    (hv : v.Vex128 d s) (he : e.Evex128 d s) (himm : v.immExtra = x.immExtra) :
    ∀ f ∈ forms, SameLow d (callHandler fp f.sse x) (callHandler fp f.vex v) ∧
      ∀ g ∈ f.evex, SameLow d (callHandler fp f.sse x) (callHandler fp g e) := by
  have himm8 : imm8 v = imm8 x := congrArg (BitVec.setWidth 8) himm
  have hmix (s : Buf) : Agree (mixColumns (substitute s))
      (Phase10.mixColumns (Phase10.subBytes (Phase10.shiftRows s))) := by
    rw [phase10_mixColumns]
    exact (phase10_substitute s).symm.mixColumns
  have hinvMix (s : Buf) : Agree (invMixColumns (invSubstitute s))
      (Phase10.invMixColumns (Phase10.invSubBytes (Phase10.invShiftRows s))) := by
    rw [phase10_invMixColumns]
    exact (phase10_invSubstitute s).symm.invMixColumns
  have hsingle {g : Handler} {f : Buf → Buf → Buf} (size : Nat)
      (hg : callHandler fp g = maskedBinop size f) :
      ∀ g' ∈ [g], ∃ size, callHandler fp g' = maskedBinop size f :=
    List.forall_mem_singleton.mpr ⟨size, hg⟩
  have hpair {g g' : Handler} {f : Buf → Buf → Buf} (hg : callHandler fp g = maskedBinop 4 f)
      (hg' : callHandler fp g' = maskedBinop 8 f) :
      ∀ h ∈ [g, g'], ∃ size, callHandler fp h = maskedBinop size f :=
    List.forall_mem_cons.mpr ⟨⟨4, hg⟩, hsingle 8 hg'⟩
  intro f hf
  simp only [forms, List.mem_cons, List.not_mem_nil, or_false] at hf
  rcases hf with rfl | rfl | rfl | rfl | rfl | rfl | rfl | rfl | rfl | rfl | rfl | rfl | rfl | rfl |
    rfl | rfl | rfl | rfl
  · exact lanes_agree (f := map8 fun a b => a ^^^ b) hx hv he rfl rfl (hpair rfl rfl)
  · exact lanes_agree (f := map8 fun a b => a &&& b) hx hv he rfl rfl (hpair rfl rfl)
  · exact lanes_agree (f := map8 fun a b => a ||| b) hx hv he rfl rfl (hpair rfl rfl)
  · exact lanes_agree (f := map8 fun a b => a + b) hx hv he rfl rfl (hsingle 1 rfl)
  · exact lanes_agree (f := map16 fun a b => a + b) hx hv he rfl rfl (hsingle 2 rfl)
  · exact lanes_agree (f := map32 fun a b => a + b) hx hv he rfl rfl (hsingle 4 rfl)
  · exact lanes_agree (f := map64 fun a b => a + b) hx hv he rfl rfl (hsingle 8 rfl)
  · exact lanes_agree (f := map8 fun a b => a - b) hx hv he rfl rfl (hsingle 1 rfl)
  · exact lanes_agree (f := map16 fun a b => a - b) hx hv he rfl rfl (hsingle 2 rfl)
  · exact lanes_agree (f := map32 fun a b => a - b) hx hv he rfl rfl (hsingle 4 rfl)
  · exact lanes_agree (f := map64 fun a b => a - b) hx hv he rfl rfl (hsingle 8 rfl)
  · exact @bytes_agree d s x v e fp hx hv miscIo (fun _ => shuffleBytes) (fun _ => shuffleBytes)
      _ _ rfl rfl fun _ _ => .refl _
  · exact @bytes_agree d s x v e fp hx hv sse4Io _ (fun _ => map64 fun a b => ones (b.slt a))
      _ _ rfl rfl fun _ _ => .refl _
  · exact @bytes_agree d s x v e fp hx hv sse4Io
      (fun _ s k => addRoundKey (mixColumns (subBytes (shiftRows s))) k)
      (fun _ s k => Phase10.xorKey
        (Phase10.mixColumns (Phase10.subBytes (Phase10.shiftRows s))) k)
      _ _ rfl rfl fun a b => (hmix a).addRoundKey (.refl b)
  · exact @bytes_agree d s x v e fp hx hv sse4Io
      (fun _ s k => addRoundKey (subBytes (shiftRows s)) k)
      (fun _ s k => Phase10.xorKey (Phase10.subBytes (Phase10.shiftRows s)) k)
      _ _ rfl rfl fun a b => (phase10_substitute a).symm.addRoundKey (.refl b)
  · exact @bytes_agree d s x v e fp hx hv sse4Io
      (fun _ s k => addRoundKey (invMixColumns (invSubBytes (invShiftRows s))) k)
      (fun _ s k => Phase10.xorKey
        (Phase10.invMixColumns (Phase10.invSubBytes (Phase10.invShiftRows s))) k)
      _ _ rfl rfl fun a b => (hinvMix a).addRoundKey (.refl b)
  · exact @bytes_agree d s x v e fp hx hv sse4Io
      (fun _ s k => addRoundKey (invSubBytes (invShiftRows s)) k)
      (fun _ s k => Phase10.xorKey (Phase10.invSubBytes (Phase10.invShiftRows s)) k)
      _ _ rfl rfl fun a b => (phase10_invSubstitute a).symm.addRoundKey (.refl b)
  · refine @bytes_agree d s x v e fp hx hv sse4Io (fun insn => clmulSelected (imm8 insn))
      (fun insn => clmulSelected (imm8 insn)) _ _ rfl rfl fun a b => ?_
    rw [himm8]
    exact .refl _

/-- `VPXOR xmm1, xmm1, xmm2` and its like. -/
def vex12 : Insn :=
  { opSize := 16, flags := { vex := true }
    dst := { kind := .xmm, reg := 1, index := 1 }, src := { kind := .xmm, reg := 2 } }

theorem forms_agree_xmm1_xmm2 :
    SameLow 1 (callHandler default .opPxor Aes.onRegisters12)
      (callHandler default .opVpxor vex12) :=
  (forms_agree default 1 2 Aes.onRegisters12 vex12 vex12 ⟨⟨rfl, rfl⟩, ⟨rfl, rfl⟩⟩
    ⟨⟨⟨rfl, rfl⟩, ⟨rfl, rfl⟩⟩, rfl, rfl, rfl⟩ ⟨⟨⟨rfl, rfl⟩, ⟨rfl, rfl⟩⟩, rfl, rfl, rfl⟩ rfl
    ⟨.opPxor, .opVpxor, [.opVpxord, .opVpxorq]⟩ (List.mem_cons_self ..)).1

end PicoCpu
