import PicoCpu.EvexMasking
import PicoCpu.VectorRuns
import PicoCpu.Decoder.EntryPoints

/-!
The rows 20 and 37 to 3F of the map 66 0F 38: which handler the decoder takes for each, and when
that handler computes the row's function.
-/

namespace PicoCpu

open H Proc Handlers Decode

/-! ### The rows -/

/-- The smaller or larger of two elements. -/
structure PackedOrder where
  size : Nat
  signed : Bool
  max : Bool
  deriving DecidableEq, Repr

namespace PackedOrder

/-- The first operand's element is taken; of equal ones it does not matter which. -/
def takes (o : PackedOrder) {n : Nat} (a b : BitVec n) : Bool :=
  match o.signed, o.max with
  | false, false => a.ult b
  | false, true => b.ult a
  | true, false => a.slt b
  | true, true => b.slt a

/-- Element `e` of the first operand is taken. -/
def takesAt (o : PackedOrder) (a b : Buf) (e : Nat) : Bool :=
  o.takes (a.element o.size e) (b.element o.size e)

/-- The result, byte by byte. -/
def select (o : PackedOrder) (a b : Buf) : Buf := fun j =>
  if o.takesAt a b (j / o.size) then a j else b j

/-- The order of the handler that the decoder takes: words for signed elements, bytes for unsigned
ones. -/
def approx (o : PackedOrder) : PackedOrder := { o with size := if o.signed then 2 else 1 }

end PackedOrder

/-- The functions of the rows. -/
inductive Packed38 where
  /-- Words from the sign-extended low bytes of the source. -/
  | extend
  /-- Quadwords of ones where the destination is greater. -/
  | greater
  | select (o : PackedOrder)
  deriving DecidableEq, Repr

namespace Packed38

def size : Packed38 → Nat
  | .extend => 2
  | .greater => 8
  | .select o => o.size

/-- Element `e` of the result. -/
def value (f : Packed38) (a b : Buf) (e : Nat) : BitVec (8 * f.size) :=
  match f with
  | .extend => (b e).signExtend (8 * 2)
  | .greater => if (b.element 8 e).slt (a.element 8 e) then BitVec.allOnes (8 * 8) else 0
  | .select o => if o.takesAt a b e then a.element o.size e else b.element o.size e

end Packed38

/-- The rows with their functions. -/
def packed38 : List (U8 × Packed38) :=
  [(0x20, .extend), (0x37, .greater), (0x38, .select ⟨1, true, false⟩),
   (0x39, .select ⟨4, true, false⟩), (0x3A, .select ⟨2, false, false⟩),
   (0x3B, .select ⟨4, false, false⟩), (0x3C, .select ⟨1, true, true⟩),
   (0x3D, .select ⟨4, true, true⟩), (0x3E, .select ⟨2, false, true⟩),
   (0x3F, .select ⟨4, false, true⟩)]

/-- The handler of a row. -/
def Packed38.handler : Packed38 → Handler
  | .extend => .opPmovmskb
  | .greater => .opPcmpgtq
  | .select o =>
    match o.signed, o.max with
    | false, false => .opPminub
    | false, true => .opPmaxub
    | true, false => .opPminsw
    | true, true => .opPmaxsw

/-! ### Decoding -/

section Decoding

variable {px : Prefixes} {out i : Insn} {op : U8} {rest : List U8} {f : Packed38}

theorem decodeXmmRm_yields (px : Prefixes) (out : Insn) {kind : OpKind} {h : Handler}
    (hyields : (decodeXmmRm px out kind h).Yields rest i) :
    i.handler = h ∧ i.dst.kind = .xmm := by
  obtain ⟨_, _, m, _, _, hrest⟩ := Parse.yields_bind.mp hyields
  obtain ⟨_, _, src, _, _, hret⟩ := Parse.yields_bind.mp hrest
  cases hret
  exact ⟨rfl, rfl⟩

/-- A row of the map behind a 66. -/
theorem decode0F38_yields (hpx : px.opsizePfx = true) (hop : (op, f) ∈ packed38)
    (hyields : (decode0F38 px out).Yields (op :: rest) i) :
    i.handler = f.handler ∧ i.dst.kind = .xmm := by
  rw [decode0F38, readByte, Parse.symbol_bind] at hyields
  cases hyields with
  | next hyields =>
      have hmandatory := Prefixes.noMandatory_of_opsizePfx hpx
      rw [hpx, hmandatory] at hyields
      simp only [packed38, List.mem_cons, List.not_mem_nil, or_false, Prod.mk.injEq] at hop
      rcases hop with ⟨rfl, rfl⟩ | ⟨rfl, rfl⟩ | ⟨rfl, rfl⟩ | ⟨rfl, rfl⟩ | ⟨rfl, rfl⟩ | ⟨rfl, rfl⟩ |
        ⟨rfl, rfl⟩ | ⟨rfl, rfl⟩ | ⟨rfl, rfl⟩ | ⟨rfl, rfl⟩
      all_goals exact decodeXmmRm_yields px out hyields

/-- The escape to the map. -/
theorem decodePrimary_0F38 {fetch : Fetch} {p : U8} {bs : List U8}
    (hyields : (decodePrimary px out).Yields bs i) (hholds : Parse.Holds fetch p bs)
    (hbytes : Parse.Holds fetch p [0x0F, 0x38, op]) :
    ∃ rest, (decode0F38 px out).Yields (op :: rest) i := by
  obtain ⟨h0F, h38, hop, _⟩ := hbytes
  have same {x y : U8} {a : U8} (hx : fetch a = .ok x) (hy : fetch a = .ok y) : x = y :=
    Except.ok.inj (hx.symm.trans hy)
  rw [decodePrimary, readByte, Parse.symbol_bind] at hyields
  cases hyields with
  | next htwo =>
      obtain ⟨hfirst, hholds⟩ := hholds
      obtain rfl := same hfirst h0F
      change (decodeTwoByte px out).Yields _ i at htwo
      rw [decodeTwoByte, readByte, Parse.symbol_bind] at htwo
      cases htwo with
      | next hmap =>
          obtain ⟨hsecond, hholds⟩ := hholds
          obtain rfl := same hsecond h38
          change (decode0F38 px out).Yields _ i at hmap
          have hthird := hmap
          rw [decode0F38, readByte, Parse.symbol_bind] at hthird
          cases hthird with
          | next _ =>
              obtain rfl := same hholds.1 hop
              exact ⟨_, hmap⟩

/-- What the decoder makes of an accepted string with one of the opcodes. -/
theorem packed38_decoded {fetch : Fetch} {rip : GuestAddr} {fuel : Nat} {p : U8}
    (hdecoded : decodeWithSource fetch rip fuel = some (.ok i))
    (hscan : scanPrefixes fetch fuel 0 {} = some (.ok (px, p))) (hvex : px.isVex = false)
    (hpx : px.opsizePfx = true) (hbytes : Parse.Holds fetch p [0x0F, 0x38, op])
    (hop : (op, f) ∈ packed38) : i.handler = f.handler ∧ i.dst.kind = .xmm := by
  rw [decodeWithSource, hscan] at hdecoded
  simp only at hdecoded
  rw [decodeAfterPrefixes, hvex, if_neg Bool.false_ne_true] at hdecoded
  cases hrun : (decodePrimary px (px.insn rip)).run fetch p with
  | error s =>
      rw [hrun] at hdecoded
      cases hdecoded
  | ok r =>
      obtain ⟨i', c'⟩ := r
      rw [hrun] at hdecoded
      cases hdecoded
      obtain ⟨bs, hyields, hholds, _⟩ := Parse.run_eq_ok.mp hrun
      obtain ⟨rest, hrow⟩ := decodePrimary_0F38 hyields hholds hbytes
      obtain ⟨hhandler, hdst⟩ := decode0F38_yields hpx hop hrow
      exact ⟨hhandler, hdst⟩

end Decoding

/-! ### The results -/

/-- Elements agree when their bytes do. -/
theorem elements_eq_iff {size : Nat} (hpos : 0 < size) (hsize : size ≤ 8) {v u : Buf} (m : Nat) :
    (∀ e < m, v.element size e = u.element size e) ↔ ∀ j < size * m, v j = u j := by
  constructor
  · intro h j hj
    have hlane : j / size < m := Nat.div_lt_of_lt_mul hj
    have hoff : j % size < size := Nat.mod_lt j hpos
    apply BitVec.eq_of_getLsbD_eq
    intro n hn
    have hbit : 8 * (j % size) + n < 8 * size := by omega
    have hbyte (v : Buf) : (v.element size (j / size)).getLsbD (8 * (j % size) + n) =
        (v j).getLsbD n := by
      have hindex : size * (j / size) + (8 * (j % size) + n) / 8 = j := by
        rw [Nat.mul_add_div (by decide), Nat.div_eq_of_lt hn, Nat.add_zero, Nat.div_add_mod]
      rw [getLsbD_element hsize hbit, hindex, Nat.mul_add_mod, Nat.mod_eq_of_lt hn]
    rw [← hbyte v, ← hbyte u, h _ hlane]
  · intro h e he
    apply element_congr hsize
    intro j hj
    have hend : size * (e + 1) ≤ size * m := Nat.mul_le_mul_left size he
    rw [Nat.mul_succ] at hend
    exact h _ (by omega)

namespace PackedOrder

variable (o : PackedOrder) (a b : Buf)

theorem element_select (hpos : 0 < o.size) (hsize : o.size ≤ 8) (e : Nat) :
    (o.select a b).element o.size e =
      if o.takesAt a b e then a.element o.size e else b.element o.size e := by
  have hbyte (j : Nat) (hj : j < o.size) : o.select a b (o.size * e + j) =
      if o.takesAt a b e then a (o.size * e + j) else b (o.size * e + j) := by
    have hlane : (o.size * e + j) / o.size = e := by
      rw [Nat.mul_add_div hpos, Nat.div_eq_of_lt hj, Nat.add_zero]
    rw [select, hlane]
  split
  next htakes =>
    apply element_congr hsize
    intro j hj
    rw [hbyte j hj, if_pos htakes]
  next htakes =>
    apply element_congr hsize
    intro j hj
    rw [hbyte j hj, if_neg htakes]

/-- The loops over words. -/
theorem map16_eq_select {o : PackedOrder} (ho : o.size = 2) {g : U16 → U16 → U16}
    (hg : ∀ x y, g x y = if o.takes x y then x else y) : map16 g a b = o.select a b := by
  obtain ⟨size, signed, max⟩ := o
  obtain rfl : size = 2 := ho
  funext j
  refine (elements_eq_iff Nat.two_pos (by decide) (j + 1)).mp (fun e _ => ?_) j ?_
  · have hpos : 0 < 2 := by decide
    have hle : 2 ≤ 8 := by decide
    rw [element_map16, hg]
    exact (element_select ⟨2, signed, max⟩ a b hpos hle e).symm
  · omega

/-- The loops over bytes. -/
theorem map8_eq_select {o : PackedOrder} (ho : o.size = 1) {g : U8 → U8 → U8}
    (hg : ∀ x y, g x y = if o.takes x y then x else y) : map8 g a b = o.select a b := by
  obtain ⟨size, signed, max⟩ := o
  obtain rfl : size = 1 := ho
  funext j
  have htakes : PackedOrder.takesAt ⟨1, signed, max⟩ a b j =
      PackedOrder.takes ⟨1, signed, max⟩ (a j) (b j) := by
    have ha : Buf.element 1 a j = a j := element_one a j
    have hb : Buf.element 1 b j = b j := element_one b j
    rw [takesAt, ha, hb]
  rw [map8, hg, select, Nat.div_one, htakes]

end PackedOrder

/-- The mask of the sign bits. -/
theorem getLsbD_signMaskOf (s : Buf) (n j : Nat) (hj : j < 64) :
    (signMaskOf s (List.range n)).getLsbD j = (decide (j < n) && (s j).msb) := by
  induction n with
  | zero => exact BitVec.getLsbD_zero
  | succ n ih =>
      have hstep : signMaskOf s (List.range (n + 1)) =
          if (s n).msb then signMaskOf s (List.range n) ||| (1#64 <<< n)
          else signMaskOf s (List.range n) := by
        rw [signMaskOf, List.range_succ, List.zipIdx_append, List.foldl_append, List.length_range,
          Nat.zero_add]
        rfl
      have hbit : (1#64 <<< n).getLsbD j = decide (n = j) := by
        have htwo : (BitVec.twoPow 64 n).getLsbD j = (decide (n < 64) && decide (n = j)) :=
          BitVec.getLsbD_twoPow n j
        by_cases hlast : n = j
        · rw [decide_eq_true (hlast ▸ hj : n < 64), Bool.true_and] at htwo
          exact htwo
        · rw [decide_eq_false hlast, Bool.and_false] at htwo
          rw [decide_eq_false hlast]
          exact htwo
      have hor : (if (s n).msb then signMaskOf s (List.range n) ||| (1#64 <<< n)
          else signMaskOf s (List.range n)).getLsbD j =
            ((signMaskOf s (List.range n)).getLsbD j || ((s n).msb && decide (n = j))) := by
        cases (s n).msb with
        | true => rw [if_pos rfl, BitVec.getLsbD_or, hbit, Bool.true_and]
        | false => rw [if_neg Bool.false_ne_true, Bool.false_and, Bool.or_false]
      rw [hstep, hor, ih]
      by_cases hlast : n = j
      · rw [hlast, decide_eq_false (Nat.lt_irrefl j), decide_eq_true (Nat.lt_succ_self j),
          decide_eq_true rfl, Bool.false_and, Bool.true_and, Bool.and_true, Bool.false_or]
      · have hlt : decide (j < n + 1) = decide (j < n) := by
          rw [decide_eq_decide]
          omega
        rw [hlt, decide_eq_false hlast, Bool.and_false, Bool.or_false]

/-! ### The law -/

/-- The elements of the destination are those of the row's function, and no general register has
changed. -/
structure Packed38Law (f : Packed38) (i : Insn) (b : Buf) (c c' : Cpu) : Prop where
  elements : ∀ e < 16 / f.size,
    c'.element f.size i.dst.reg e = f.value (c.zmm i.dst.reg) b e
  registers : c'.gpr = c.gpr

/-- The handler's comparison takes the operand that the row's comparison does wherever the two
differ. For the extension, which writes a mask of the signs to the general register with the
destination's number, both registers hold the right value already. -/
def Packed38.Right (f : Packed38) (a b : Buf) (gpr : U64) : Prop :=
  match f with
  | .extend => (∀ e < 8, a.element 2 e = (b e).signExtend 16) ∧
      ∀ j < 64, gpr.getLsbD j = (decide (j < 16) && (b j).msb)
  | .greater => True
  | .select o => ∀ j < 16,
      a j = b j ∨ o.approx.takesAt a b (j / o.approx.size) = o.takesAt a b (j / o.size)

section Runs

variable {f : Packed38} {i : Insn} {b : Buf} {c : Cpu}

/-- A result in the destination. -/
theorem packed38Law_iff (hsize : f.size ≤ 8) (r : Buf) (hpos : 0 < f.size)
    (hwhole : f.size * (16 / f.size) = 16) :
    Packed38Law f i b c (c.setZmmBytes i.dst.reg 0 16 r) ↔
      ∀ e < 16 / f.size, r.element f.size e = f.value (c.zmm i.dst.reg) b e := by
  have helement (e : Nat) (he : e < 16 / f.size) :
      (c.setZmmBytes i.dst.reg 0 16 r).element f.size i.dst.reg e = r.element f.size e := by
    apply (elements_eq_iff hpos hsize (16 / f.size)).mpr
    · intro j hj
      rw [hwhole] at hj
      exact Cpu.zmm_setZmmBytes_low _ _ _ _ hj
    · exact he
  constructor
  · intro hlaw e he
    rw [← helement e he]
    exact hlaw.elements e he
  · intro h
    refine ⟨fun e he => ?_, rfl⟩
    rw [helement e he]
    exact h e he

/-- A result that an order selects. -/
theorem select_right_iff {o : PackedOrder} (hpos : 0 < o.size) (hsize : o.size ≤ 8)
    (hwhole : o.size * (16 / o.size) = 16) :
    Packed38Law (.select o) i b c
        (c.setZmmBytes i.dst.reg 0 16 (o.approx.select (c.zmm i.dst.reg) b)) ↔
      (Packed38.select o).Right (c.zmm i.dst.reg) b (c.r i.dst.reg) := by
  have hvalue (e : Nat) : (Packed38.select o).value (c.zmm i.dst.reg) b e =
      (o.select (c.zmm i.dst.reg) b).element o.size e :=
    (o.element_select _ b hpos hsize e).symm
  rw [packed38Law_iff (f := .select o) hsize _ hpos hwhole]
  simp only [hvalue, Packed38.size]
  rw [elements_eq_iff hpos hsize, hwhole, Packed38.Right]
  generalize c.zmm i.dst.reg = a
  have hbyte (j : Nat) : o.approx.select a b j = o.select a b j ↔
      a j = b j ∨ o.approx.takesAt a b (j / o.approx.size) = o.takesAt a b (j / o.size) := by
    rw [PackedOrder.select, PackedOrder.select]
    cases o.approx.takesAt a b (j / o.approx.size) with
    | true =>
        cases o.takesAt a b (j / o.size) with
        | true => exact ⟨fun _ => .inr rfl, fun _ => rfl⟩
        | false => exact ⟨.inl, fun h => h.resolve_right Bool.noConfusion⟩
    | false =>
        cases o.takesAt a b (j / o.size) with
        | true => exact ⟨fun h => .inl h.symm, fun h => (h.resolve_right Bool.noConfusion).symm⟩
        | false => exact ⟨fun _ => .inr rfl, fun _ => rfl⟩
  simp only [hbyte]

/-- The comparison of quadwords. -/
theorem greater_right :
    Packed38Law .greater i b c (c.setZmmBytes i.dst.reg 0 16
      (map64 (fun a b => ones (b.slt a)) (c.zmm i.dst.reg) b)) := by
  rw [packed38Law_iff (f := .greater) (by decide) _ (by decide) (by decide)]
  intro e _
  exact element_map64 _ _ e _

/-- The stub writes the mask of the signs to the general register. -/
theorem extend_right_iff :
    Packed38Law .extend i b c (c.setR64 i.dst.reg (signMaskOf b (List.range 16))) ↔
      Packed38.extend.Right (c.zmm i.dst.reg) b (c.r i.dst.reg) := by
  have hmask : (c.setR64 i.dst.reg (signMaskOf b (List.range 16))).gpr = c.gpr ↔
      ∀ j < 64, (c.r i.dst.reg).getLsbD j = (decide (j < 16) && (b j).msb) := by
    have hself : (c.setR64 i.dst.reg (signMaskOf b (List.range 16))).gpr = c.gpr ↔
        signMaskOf b (List.range 16) = c.r i.dst.reg :=
      Function.update_eq_self_iff
    rw [hself]
    constructor
    · intro h j hj
      rw [← h, getLsbD_signMaskOf b 16 j hj]
    · intro h
      apply BitVec.eq_of_getLsbD_eq
      intro j hj
      rw [getLsbD_signMaskOf b 16 j hj, h j hj]
  constructor
  · intro hlaw
    exact ⟨hlaw.elements, hmask.mp hlaw.registers⟩
  · rintro ⟨helements, hgpr⟩
    exact ⟨helements, hmask.mpr hgpr⟩

end Runs

/-! ### The instructions -/

section Instructions

variable {σ : Type} {at_ : Attached σ} {c : Cpu} {w w' : World σ} {i : Insn} {b : Buf}
  (hdst : i.dst.kind = .xmm) (hread : i.ReadsVec i.src 16 at_ c w b w') (fp : HostFp)
include hdst hread

/-- A handler that selects by an order of its own. -/
theorem select_ends {o : PackedOrder} (hsize : o.size = 1 ∨ o.size = 2 ∨ o.size = 4)
    {f : Buf → Buf → Buf} (hf : ∀ a b, f a b = o.approx.select a b)
    (hrun : i.run fp = packed4 f i) :
    ∃ c', (i.run fp).EndsIn at_ c w (some ()) c' w' ∧
      (Packed38Law (.select o) i b c c' ↔
        (Packed38.select o).Right (c.zmm i.dst.reg) b (c.r i.dst.reg)) := by
  refine ⟨_, ?_, select_right_iff ?_ ?_ ?_⟩
  · rw [hrun, ← hf]
    exact xmmBinary_ends hdst hread sse4Io fun _ => f
  · omega
  · omega
  · rcases hsize with h | h | h
    · rw [h]
    · rw [h]
    · rw [h]

/-- A row ends with its law exactly when the handler is right for it. -/
theorem packed38_ends {op : U8} {f : Packed38} (hop : (op, f) ∈ packed38)
    (hhandler : i.handler = f.handler) :
    ∃ c', (i.run fp).EndsIn at_ c w (some ()) c' w' ∧
      (Packed38Law f i b c c' ↔ f.Right (c.zmm i.dst.reg) b (c.r i.dst.reg)) := by
  have words {o : PackedOrder} (ho : o.approx.size = 2) {g : U16 → U16 → U16}
      (hg : ∀ x y, g x y = if o.approx.takes x y then x else y) (x y : Buf) :
      map16 g x y = o.approx.select x y := PackedOrder.map16_eq_select x y ho hg
  have bytes {o : PackedOrder} (ho : o.approx.size = 1) {g : U8 → U8 → U8}
      (hg : ∀ x y, g x y = if o.approx.takes x y then x else y) (x y : Buf) :
      map8 g x y = o.approx.select x y := PackedOrder.map8_eq_select x y ho hg
  simp only [packed38, List.mem_cons, List.not_mem_nil, or_false, Prod.mk.injEq] at hop
  rcases hop with ⟨_, rfl⟩ | ⟨_, rfl⟩ | ⟨_, rfl⟩ | ⟨_, rfl⟩ | ⟨_, rfl⟩ | ⟨_, rfl⟩ | ⟨_, rfl⟩ |
    ⟨_, rfl⟩ | ⟨_, rfl⟩ | ⟨_, rfl⟩
  · have hrun : i.run fp = opPmovmskb i := by
      rw [Insn.run, hhandler]
      rfl
    refine ⟨_, ?_, extend_right_iff⟩
    rw [hrun, opPmovmskb, moveMask, (miscIo.read_ends hread).bind_iff]
    exact endsIn_modify _
  · have hrun : i.run fp = opPcmpgtq i := by
      rw [Insn.run, hhandler]
      rfl
    refine ⟨_, ?_, fun _ => trivial, fun _ => greater_right⟩
    rw [hrun]
    exact xmmBinary_ends hdst hread sse4Io fun _ => map64 fun a b => ones (b.slt a)
  · exact select_ends hdst hread fp (by decide) (words rfl fun _ _ => rfl)
      (by rw [Insn.run, hhandler]; rfl)
  · exact select_ends hdst hread fp (by decide) (words rfl fun _ _ => rfl)
      (by rw [Insn.run, hhandler]; rfl)
  · exact select_ends hdst hread fp (by decide) (bytes rfl fun _ _ => rfl)
      (by rw [Insn.run, hhandler]; rfl)
  · exact select_ends hdst hread fp (by decide) (bytes rfl fun _ _ => rfl)
      (by rw [Insn.run, hhandler]; rfl)
  · exact select_ends hdst hread fp (by decide) (words rfl fun _ _ => rfl)
      (by rw [Insn.run, hhandler]; rfl)
  · exact select_ends hdst hread fp (by decide) (words rfl fun _ _ => rfl)
      (by rw [Insn.run, hhandler]; rfl)
  · exact select_ends hdst hread fp (by decide) (bytes rfl fun _ _ => rfl)
      (by rw [Insn.run, hhandler]; rfl)
  · exact select_ends hdst hread fp (by decide) (bytes rfl fun _ _ => rfl)
      (by rw [Insn.run, hhandler]; rfl)

end Instructions

/-- An accepted string with one of the opcodes behind a 66 computes the opcode's function, and
changes no general register, exactly when the handler that the decoder takes is right for its
operands. -/
theorem packed_38_right_iff (fp : HostFp) {fetch : Fetch} {rip : GuestAddr} {fuel : Nat} {i : Insn}
    {px : Prefixes} {p op : U8} {f : Packed38}
    (hdecoded : decodeWithSource fetch rip fuel = some (.ok i))
    (hscan : scanPrefixes fetch fuel 0 {} = some (.ok (px, p))) (hvex : px.isVex = false)
    (hpx : px.opsizePfx = true) (hbytes : Parse.Holds fetch p [0x0F, 0x38, op])
    (hop : (op, f) ∈ packed38) {σ : Type} {at_ : Attached σ} {c : Cpu} {w w' : World σ} {b : Buf}
    (hread : i.ReadsVec i.src 16 at_ c w b w') :
    ∃ c', (i.run fp).EndsIn at_ c w (some ()) c' w' ∧
      (Packed38Law f i b c c' ↔ f.Right (c.zmm i.dst.reg) b (c.r i.dst.reg)) := by
  obtain ⟨hhandler, hdst⟩ := packed38_decoded hdecoded hscan hvex hpx hbytes hop
  exact packed38_ends hdst hread fp hop hhandler

/-- `pminsb xmm1, xmm2`. -/
def pminsbBytes : List U8 := [0x66, 0x0F, 0x38, 0x38, 0xCA]

/-- The instruction that the decoder makes of it. -/
def pminsbInsn : Insn :=
  { handler := .opPminsw, kind := .pminsb, opSize := 16, len := 5, cond := .none
    flags := { opsizePfx := true }, dst := makeXmm 1, src := makeXmm 2 }

/-- The lowest bytes are 1 and -1, all others are zero. -/
def signedBytes : Cpu :=
  { zmm := fun r j => if j = 0 then (if r = 1 then 1 else if r = 2 then 0xFF else 0) else 0 }

theorem pminsbBytes_decoded :
    decodeWithSource (bufFetch (bufOf pminsbBytes) 5) 0 8 = some (.ok pminsbInsn) := rfl

theorem packed_38_right_iff_pminsb : ∃ c',
    (pminsbInsn.run default).EndsIn (⟨none, none, [], []⟩ : Attached Unit) signedBytes
      { mem := () } (some ()) c' { mem := () } ∧
    (Packed38Law (.select ⟨1, true, false⟩) pminsbInsn (signedBytes.zmm 2) signedBytes c' ↔
      (Packed38.select ⟨1, true, false⟩).Right (signedBytes.zmm 1) (signedBytes.zmm 2) 0) := by
  have hread : pminsbInsn.ReadsVec pminsbInsn.src 16 (⟨none, none, [], []⟩ : Attached Unit)
      signedBytes { mem := () } (signedBytes.zmm 2) { mem := () } := .inl ⟨rfl, rfl, rfl⟩
  have hscan : scanPrefixes (bufFetch (bufOf pminsbBytes) 5) 8 0 {} =
      some (.ok ({ opsizePfx := true }, 1)) := rfl
  have hop : (0x38, Packed38.select ⟨1, true, false⟩) ∈ packed38 := by decide
  exact packed_38_right_iff default pminsbBytes_decoded hscan rfl rfl ⟨rfl, rfl, rfl, trivial⟩ hop
    hread

/-- The decoder takes the minimum of words for PMINSB, which leaves 1 where -1 is the smaller
byte. -/
theorem pminsb_takes_words :
    decodeWithSource (bufFetch (bufOf pminsbBytes) 5) 0 8 = some (.ok pminsbInsn) ∧
    ∃ c', (pminsbInsn.run default).EndsIn (⟨none, none, [], []⟩ : Attached Unit) signedBytes
      { mem := () } (some ()) c' { mem := () } ∧
    c'.element 1 1 0 = 1 ∧
    ¬ Packed38Law (.select ⟨1, true, false⟩) pminsbInsn (signedBytes.zmm 2) signedBytes c' := by
  have hresult : (signedBytes.setZmmBytes 1 0 16 (map16 (fun a b => if a.slt b then a else b)
      (signedBytes.zmm 1) (signedBytes.zmm 2))).element 1 1 0 = 1 := by decide
  refine ⟨rfl, _, ⟨_, rfl⟩, hresult, fun hlaw => ?_⟩
  have hfirst : (255 : BitVec 8) = 1 := (hlaw.elements 0 (by decide)).symm.trans hresult
  exact absurd hfirst (by decide)

end PicoCpu
