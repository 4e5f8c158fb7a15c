import PicoCpu.Lib.BinaryFormat
import PicoCpu.EvexMasking
import PicoCpu.Registers
import PicoCpu.VectorRuns

/-!
The truncating conversions of a scalar to a signed integer. The host's cast is a parameter: where the
truncated value is one of an `i64` it is that value, elsewhere the language promises nothing.
-/

namespace PicoCpu

open H Proc Handlers BinaryFormat

/-- The handlers with the formats and sizes of their sources. -/
def truncations : List (Handler × Format × Nat) :=
  [(.opCvttss2si, binary32, 4), (.opCvttsd2si, binary64, 8)]

/-- The integer part of a finite pattern. -/
def BinaryFormat.Format.truncated (F : Format) (n : Nat) : Int := truncate (F.value n)

/-- The pattern has an integer part, and it is a signed number of so many bits. -/
def BinaryFormat.Format.Representable (F : Format) (bits n : Nat) : Prop :=
  F.IsFinite n ∧ InSigned bits (F.truncated n)

instance (F : Format) (bits n : Nat) : Decidable (F.Representable bits n) :=
  inferInstanceAs (Decidable (_ ∧ _))

/-- The result in a register: the integer part where it can be represented, else the integer
indefinite value. -/
def BinaryFormat.Format.converted (F : Format) (n size : Nat) : U64 :=
  (if F.Representable (8 * size) n then BitVec.ofInt 64 (F.truncated n)
    else BitVec.ofNat 64 (2 ^ (8 * size - 1))) &&& maskFor size

/-- The host's casts to `i64`, where the language defines them. -/
structure HostFp.Casts (fp : HostFp) : Prop where
  single : ∀ x : U32, binary32.Representable 64 x.toNat →
    (fp.f32 .current).toI64 x = BitVec.ofInt 64 (binary32.truncated x.toNat)
  double : ∀ x : U64, binary64.Representable 64 x.toNat →
    (fp.f64 .current).toI64 x = BitVec.ofInt 64 (binary64.truncated x.toNat)

/-! ### The law -/

/-- The register receives the conversion, and the host's cast has a value. -/
structure TruncationLaw (F : Format) (n : Nat) (i : Insn) (c c' : Cpu) : Prop where
  stored : c' = c.setR i.dst.reg (F.converted n i.opSize)
  defined : F.Representable 64 n

/-- The 64-bit conversion needs no more than a defined cast. At 32 bits the integer part has to be
one of 32 bits, or to end in the integer indefinite value. -/
def BinaryFormat.Format.Converts (F : Format) (n size : Nat) : Prop :=
  F.Representable 64 n ∧
    (size = 8 ∨ InSigned 32 (F.truncated n) ∨ F.truncated n % 2 ^ 32 = 2 ^ 31)

instance (F : Format) (n size : Nat) : Decidable (F.Converts n size) :=
  inferInstanceAs (Decidable (_ ∧ _))

theorem writeGpr_wide (c : Cpu) (reg : Nat) {size : Nat} (hsize : size = 4 ∨ size = 8) (v : U64) :
    c.writeGpr reg size v = c.setR reg (v &&& maskFor size) := by
  rcases hsize with rfl | rfl
  · rfl
  · have hmask : maskFor 8 = BitVec.allOnes 64 := rfl
    rw [hmask, BitVec.and_allOnes]
    rfl

/-- The low half of an integer part is the integer indefinite value. -/
theorem ofInt_masked_eq_indefinite {t : Int} :
    BitVec.ofInt 64 t &&& maskFor 4 = BitVec.ofNat 64 (2 ^ 31) &&& maskFor 4 ↔ t % 2 ^ 32 = 2 ^ 31 := by
  rw [← BitVec.toNat_inj, toNat_and_maskFor 4 (by decide), toNat_and_maskFor 4 (by decide),
    BitVec.toNat_ofInt, BitVec.toNat_ofNat]
  omega

theorem converted_eq_iff {F : Format} {n size : Nat} (hsize : size = 4 ∨ size = 8)
    (h : F.Representable 64 n) :
    BitVec.ofInt 64 (F.truncated n) &&& maskFor size = F.converted n size ↔ F.Converts n size := by
  rw [Format.converted, Format.Converts]
  rcases hsize with rfl | rfl
  · by_cases h32 : F.Representable (8 * 4) n
    · rw [if_pos h32]
      exact ⟨fun _ => ⟨h, .inr (.inl h32.2)⟩, fun _ => rfl⟩
    · rw [if_neg h32]
      refine ofInt_masked_eq_indefinite.trans ⟨fun hlow => ⟨h, .inr (.inr hlow)⟩, ?_⟩
      rintro ⟨_, hfour | hsigned | hlow⟩
      · cases hfour
      · exact absurd ⟨h.1, hsigned⟩ h32
      · exact hlow
  · rw [if_pos h]
    exact ⟨fun _ => ⟨h, .inl rfl⟩, fun _ => rfl⟩

/-! ### The handlers -/

section Runs

variable {σ : Type} {at_ : Attached σ} {c : Cpu} {w w' : World σ} {i : Insn} {b : Buf}

theorem readScalar_ends {op : Operand} {size : Nat} (h : i.ReadsVec op size at_ c w b w') :
    (readScalar i op size).EndsIn at_ c w (some b) c w' := by
  rcases h with ⟨hkind, rfl, rfl⟩ | ⟨hmem, hread⟩
  · rw [readScalar, hkind]
    exact endsIn_gets _
  · have hload : (load (ea c i op) size pageFault "fp scalar read" >>= pure).EndsIn at_ c w
        (some b) c w' :=
      load_bind_iff.mpr ⟨b, w', hread, endsIn_pure b⟩
    rw [bind_pure] at hload
    have hrun : H.EndsIn (do
        let rip ← gets Cpu.rip
        requireAttached false rip "fp scalar read"
        let addr ← gets fun c => ea c i op
        load addr size pageFault "fp scalar read") at_ c w (some b) c w' := by
      rw [(endsIn_gets _).bind_iff, requireAttached_bind_iff, (endsIn_gets _).bind_iff]
      exact ⟨Attached.memRead_isSome hread, hload⟩
    rw [Operand.isMem, Bool.or_eq_true, beq_iff_eq, beq_iff_eq] at hmem
    rw [readScalar]
    rcases hmem with h | h
    · rw [h]
      exact hrun
    · rw [h]
      exact hrun

theorem truncateTo_ends (hdst : i.dst.kind = .reg) (hsize : i.opSize = 4 ∨ i.opSize = 8) {size : Nat}
    (hread : i.ReadsVec i.src size at_ c w b w') (f : Buf → U64) :
    (truncateTo size f i).EndsIn at_ c w (some ())
      (c.setR i.dst.reg (f b &&& maskFor i.opSize)) w' := by
  rw [truncateTo, (readScalar_ends hread).bind_iff, ← writeGpr_wide c _ hsize]
  refine writeOperand_of_reg hdst ?_ _
  rcases hsize with h | h <;> rw [h] <;> decide

end Runs

/-- A truncating conversion is right, with a defined cast, about exactly the finite patterns whose
integer part is an `i64` and at 32 bits either fits or ends in the integer indefinite value. -/
theorem truncation_iff {fp : HostFp} (hfp : fp.Casts) {i : Insn} {F : Format} {size : Nat}
    (hop : (i.handler, F, size) ∈ truncations) (hdst : i.dst.kind = .reg)
    (hsize : i.opSize = 4 ∨ i.opSize = 8) {σ : Type} {at_ : Attached σ} {c : Cpu} {w w' : World σ}
    {b : Buf} (hread : i.ReadsVec i.src size at_ c w b w') :
    ∃ c', (i.run fp).EndsIn at_ c w (some ()) c' w' ∧
      (TruncationLaw F (Buf.element size b 0).toNat i c c' ↔
        F.Converts (Buf.element size b 0).toNat i.opSize) := by
  have hlaw (v : U64) (hv : F.Representable 64 (Buf.element size b 0).toNat →
      v = BitVec.ofInt 64 (F.truncated (Buf.element size b 0).toNat)) :
      TruncationLaw F (Buf.element size b 0).toNat i c
          (c.setR i.dst.reg (v &&& maskFor i.opSize)) ↔
        F.Converts (Buf.element size b 0).toNat i.opSize := by
    constructor
    · rintro ⟨hstored, hdefined⟩
      rw [hv hdefined, Cpu.setR_eq_setR_iff] at hstored
      exact (converted_eq_iff hsize hdefined).mp hstored
    · intro hconverts
      refine ⟨?_, hconverts.1⟩
      rw [hv hconverts.1, (converted_eq_iff hsize hconverts.1).mpr hconverts]
  simp only [truncations, List.mem_cons, List.not_mem_nil, or_false, Prod.mk.injEq] at hop
  rcases hop with ⟨hop, rfl, rfl⟩ | ⟨hop, rfl, rfl⟩
  · have hrun : i.run fp = opCvttss2si fp i := by rw [Insn.run, hop]; rfl
    rw [hrun]
    refine ⟨_, truncateTo_ends hdst hsize hread _, hlaw _ fun h => ?_⟩
    rw [element_four] at h ⊢
    exact hfp.single _ h
  · have hrun : i.run fp = opCvttsd2si fp i := by rw [Insn.run, hop]; rfl
    rw [hrun]
    refine ⟨_, truncateTo_ends hdst hsize hread _, hlaw _ fun h => ?_⟩
    rw [element_eight] at h ⊢
    exact hfp.double _ h

/-- A host whose casts give the least `i64` for what they cannot represent. -/
def truncatingHost : HostFp where
  f32 := fun _ => { (default : FpOps 32) with
    toI64 := fun x => binary32.converted x.toNat 8 }
  f64 := fun _ => { (default : FpOps 64) with
    toI64 := fun x => binary64.converted x.toNat 8 }
  toDouble := default
  toFloat := default
  ofU64 := default
  ldexp := default
  toInt := default
  sin := default
  cos := default
  atan2 := default
  log2 := default
  pow := default

theorem converted_eight {F : Format} {n : Nat} (h : F.Representable 64 n) :
    F.converted n 8 = BitVec.ofInt 64 (F.truncated n) := by
  have hmask : maskFor 8 = BitVec.allOnes 64 := rfl
  rw [Format.converted, if_pos h, hmask, BitVec.and_allOnes]

theorem truncatingHost_casts : truncatingHost.Casts where
  single _ h := converted_eight h
  double _ h := converted_eight h

/-- `cvttsd2si eax, xmm1`. -/
def cvttsd2siInsn : Insn :=
  { handler := .opCvttsd2si, opSize := 4, dst := makeReg Reg.rax, src := makeXmm 1 }

/-- The double 2^32 in `xmm1`. -/
def wideDouble : Cpu := { zmm := fun _ j => storeLE 0x41F0000000000000 j }

theorem cvttsd2si_reads : cvttsd2siInsn.ReadsVec cvttsd2siInsn.src 8
    (⟨none, none, [], []⟩ : Attached Unit) wideDouble { mem := () } (wideDouble.zmm 1)
    { mem := () } :=
  .inl ⟨rfl, rfl, rfl⟩

theorem truncation_iff_cvttsd2si : ∃ c',
    (cvttsd2siInsn.run truncatingHost).EndsIn (⟨none, none, [], []⟩ : Attached Unit) wideDouble
      { mem := () } (some ()) c' { mem := () } ∧
    (TruncationLaw binary64 (Buf.element 8 (wideDouble.zmm 1) 0).toNat cvttsd2siInsn wideDouble c' ↔
      binary64.Converts (Buf.element 8 (wideDouble.zmm 1) 0).toNat 4) :=
  truncation_iff truncatingHost_casts (by decide) rfl (.inl rfl) cvttsd2si_reads

/-- The low half of 2^32 is stored, which is zero and not the integer indefinite value. -/
theorem cvttsd2si_wide : ∃ c',
    (cvttsd2siInsn.run truncatingHost).EndsIn (⟨none, none, [], []⟩ : Attached Unit) wideDouble
      { mem := () } (some ()) c' { mem := () } ∧
    ¬ TruncationLaw binary64 0x41F0000000000000 cvttsd2siInsn wideDouble c' := by
  have hpart : binary64.truncated 0x41F0000000000000 = 2 ^ 32 := by decide +kernel
  have hrep : binary64.Representable 64 0x41F0000000000000 := by decide +kernel
  have hends : (cvttsd2siInsn.run truncatingHost).EndsIn (⟨none, none, [], []⟩ : Attached Unit)
      wideDouble { mem := () } (some ())
      (wideDouble.setR Reg.rax (binary64.converted 0x41F0000000000000 8 &&& maskFor 4))
      { mem := () } :=
    truncateTo_ends rfl (.inl rfl) cvttsd2si_reads fun s =>
      (truncatingHost.f64 .current).toI64 (laneU64 s 0)
  refine ⟨_, hends, fun hlaw => ?_⟩
  have hstored := Cpu.setR_eq_setR_iff.mp hlaw.stored
  rw [converted_eight hrep] at hstored
  have hconverts := (converted_eq_iff (.inl rfl) hrep).mp hstored
  rw [Format.Converts, hpart] at hconverts
  exact absurd hconverts.2 (by decide)

end PicoCpu
