import PicoCpu.Host.Served
import PicoCpu.Lib.Bisection

/-!
`pdata_lookup` on images whose exception directory is in order: it finds the record that the low
32 bits of the distance from the base lie in.
-/

namespace PicoCpu

namespace Host

/-! ### Images in memory -/

def RuntimeFunction.bytes (f : RuntimeFunction) : List U8 :=
  le32 f.beginRva ++ le32 f.endRva ++ le32 f.unwindRva

/-- The memory holds an image at `base` whose exception directory has these functions, in order
and apart from each other. -/
structure ImageAt (m : ByteMap) (base : GuestAddr) (lfanew : U32) (dir : DataDirectory)
    (fns : List RuntimeFunction) : Prop where
  mz : HoldsAt m base [0x4D, 0x5A]
  header : HoldsAt m (base + 0x3C) (le32 lfanew)
  signature : HoldsAt m (base + lfanew.setWidth 64) [0x50, 0x45, 0, 0]
  machine : HoldsAt m (base + lfanew.setWidth 64 + 4) (le16 0x8664)
  directory : HoldsAt m (base + lfanew.setWidth 64 + 24 + 112 + 3 * 8)
    (le32 dir.rva ++ le32 dir.size)
  count : dir.size.toNat / 12 = fns.length
  records : ∀ k (h : k < fns.length),
    HoldsAt m (base + dir.rva.setWidth 64 + 12 * BitVec.ofNat 64 k) fns[k].bytes
  ordered : ∀ f ∈ fns, f.beginRva.toNat ≤ f.endRva.toNat
  apart : fns.Pairwise fun f g => f.endRva.toNat ≤ g.beginRva.toNat

section Image

variable {σ : Type} {P : MemoryProvider σ} {Inv : σ → Prop} {m : ByteMap}
  {base : GuestAddr} {lfanew : U32} {dir : DataDirectory} {fns : List RuntimeFunction}

theorem returns_readPdataDir (hP : Serves P Inv m) (himage : ImageAt m base lfanew dir fns) :
    Returns Inv (readPdataDir P base) fun d => d = dir := by
  unfold readPdataDir
  refine returns_bind (returns_readBytes hP himage.mz rfl) fun mz hmz => ?_
  have hmz0 : mz 0 = 0x4D := hmz 0 (by decide)
  have hmz1 : mz 1 = 0x5A := hmz 1 (by decide)
  rw [if_neg (by rw [hmz0, hmz1]; decide)]
  refine returns_bind (returns_readBytes hP himage.header rfl) fun l hl => ?_
  simp only [u32At_le32 hl]
  refine returns_bind (returns_readBytes hP himage.signature rfl) fun sig hsig => ?_
  have hsig0 : sig 0 = 0x50 := hsig 0 (by decide)
  have hsig1 : sig 1 = 0x45 := hsig 1 (by decide)
  have hsig2 : sig 2 = 0 := hsig 2 (by decide)
  have hsig3 : sig 3 = 0 := hsig 3 (by decide)
  rw [if_neg (by rw [hsig0, hsig1, hsig2, hsig3]; decide)]
  refine returns_bind (returns_readBytes hP himage.machine rfl) fun machine hmachine => ?_
  rw [u16At_le16 hmachine, if_neg (by decide)]
  refine returns_bind (returns_readBytes hP himage.directory rfl) fun d hd => ?_
  obtain ⟨hrva, hsize⟩ := starts_append hd
  rw [le32_length] at hsize
  rw [u32At_le32 hrva, u32At_le32 hsize]
  exact returns_pure rfl

/-- Where a target lies relative to a function. -/
def RuntimeFunction.side (f : RuntimeFunction) (target : U32) : Ordering :=
  if target.ult f.beginRva then .lt else if f.endRva.ule target then .gt else .eq

theorem side_eq_lt (f : RuntimeFunction) (target : U32) :
    f.side target = .lt ↔ target.toNat < f.beginRva.toNat := by
  rw [RuntimeFunction.side, BitVec.ult, BitVec.ule]
  grind

theorem side_eq_eq (f : RuntimeFunction) (target : U32) :
    f.side target = .eq ↔ f.beginRva.toNat ≤ target.toNat ∧ target.toNat < f.endRva.toNat := by
  rw [RuntimeFunction.side, BitVec.ult, BitVec.ule]
  grind

theorem side_eq_gt (f : RuntimeFunction) (target : U32) :
    f.side target = .gt ↔ f.beginRva.toNat ≤ target.toNat ∧ f.endRva.toNat ≤ target.toNat := by
  rw [RuntimeFunction.side, BitVec.ult, BitVec.ule]
  grind

/-- The comparison that the search makes with record `k`. -/
def probeAt (fns : List RuntimeFunction) (target : U32) (k : Nat) : Ordering :=
  fns[k]?.elim .gt fun f => f.side target

theorem probeAt_of_lt {target : U32} {k : Nat} (hk : k < fns.length) :
    probeAt fns target k = fns[k].side target := by
  rw [probeAt, List.getElem?_eq_getElem hk]
  rfl

/-- Records in order and apart are an ordered sequence for the search. -/
theorem ImageAt.probeOrdered (himage : ImageAt m base lfanew dir fns) (target : U32) :
    Bisection.Ordered (probeAt fns target) fns.length := by
  constructor
  · intro i j hij hj hbefore
    have hi : i < fns.length := hij.trans hj
    have hapart := List.pairwise_iff_getElem.mp himage.apart i j hi hj hij
    have hord := himage.ordered fns[i] (List.getElem_mem hi)
    rw [probeAt_of_lt hi, side_eq_lt] at hbefore
    rw [probeAt_of_lt hj, side_eq_lt]
    omega
  · intro i j hij hj hafter
    have hi : i < fns.length := hij.trans hj
    have hapart := List.pairwise_iff_getElem.mp himage.apart i j hi hj hij
    have hord := himage.ordered fns[i] (List.getElem_mem hi)
    rw [probeAt_of_lt hj, side_eq_gt] at hafter
    rw [probeAt_of_lt hi, side_eq_gt]
    omega

/-- What the search makes of the record it ends at. -/
def recordAt (fns : List RuntimeFunction) (k : Option Nat) : Except Status RuntimeFunction :=
  (k.bind fun k => fns[k]?).elim (.error .functionNotFound) .ok

/-- One step reads the middle record and goes on by the side its target is on. -/
theorem gives_searchStep (hP : Serves P Inv m) (himage : ImageAt m base lfanew dir fns)
    {target : U32} {lo hi mid : Nat} (hlt : lo < hi) (hmid : mid = lo + (hi - lo) / 2)
    (hle : hi ≤ fns.length) {r : Except Status RuntimeFunction}
    (hbefore : probeAt fns target mid = .lt →
      Gives Inv (searchPdata P (base + dir.rva.setWidth 64) target lo mid) r)
    (hhit : probeAt fns target mid = .eq → Gives Inv (pure (fns.getD mid ⟨0, 0, 0⟩)) r)
    (hafter : probeAt fns target mid = .gt →
      Gives Inv (searchPdata P (base + dir.rva.setWidth 64) target (mid + 1) hi) r) :
    Gives Inv (searchPdata P (base + dir.rva.setWidth 64) target lo hi) r := by
  have hmidlt : mid < fns.length := by omega
  rw [searchPdata, dif_pos hlt]
  simp only [← hmid]
  refine gives_bind (returns_readBytes hP (himage.records mid hmidlt) rfl) fun rec hrec => ?_
  obtain ⟨hbe, hunwind⟩ := starts_append hrec
  obtain ⟨hbegin, hend⟩ := starts_append hbe
  rw [List.length_append, le32_length, le32_length] at hunwind
  rw [le32_length] at hend
  rw [u32At_le32 hbegin, u32At_le32 hend, u32At_le32 hunwind]
  rw [probeAt_of_lt hmidlt, RuntimeFunction.side] at hbefore hhit hafter
  rw [List.getD_eq_getElem _ _ hmidlt] at hhit
  split
  next hbelow => exact hbefore (if_pos hbelow)
  next hbelow =>
    rw [if_neg hbelow] at hhit hafter
    split
    next habove => exact hafter (if_pos habove)
    next habove => exact hhit (if_neg habove)

/-- The loop over the records in memory is the search by their sides. -/
theorem gives_searchPdata (hP : Serves P Inv m) (himage : ImageAt m base lfanew dir fns)
    (target : U32) (lo hi : Nat) (hbound : hi ≤ fns.length) :
    Gives Inv (searchPdata P (base + dir.rva.setWidth 64) target lo hi)
      (recordAt fns (Bisection.find (probeAt fns target) lo hi)) := by
  fun_induction Bisection.find (probeAt fns target) lo hi with
  | case1 lo hi hlt mid hprobe ih =>
      have hmid : mid = lo + (hi - lo) / 2 := rfl
      exact gives_searchStep hP himage hlt hmid hbound (fun _ => ih (by omega))
        (fun h => absurd (hprobe.symm.trans h) (by decide))
        fun h => absurd (hprobe.symm.trans h) (by decide)
  | case2 lo hi hlt mid hprobe =>
      have hmid : mid = lo + (hi - lo) / 2 := rfl
      have hmidlt : mid < fns.length := by omega
      refine gives_searchStep hP himage hlt hmid hbound
        (fun h => absurd (hprobe.symm.trans h) (by decide)) (fun _ => ?_)
        fun h => absurd (hprobe.symm.trans h) (by decide)
      rw [List.getD_eq_getElem _ _ hmidlt, recordAt, Option.bind_some,
        List.getElem?_eq_getElem hmidlt]
      exact gives_pure _
  | case3 lo hi hlt mid hprobe ih =>
      have hmid : mid = lo + (hi - lo) / 2 := rfl
      exact gives_searchStep hP himage hlt hmid hbound
        (fun h => absurd (hprobe.symm.trans h) (by decide))
        (fun h => absurd (hprobe.symm.trans h) (by decide)) fun _ => ih hbound
  | case4 lo hi hge =>
      rw [searchPdata, dif_neg hge]
      exact gives_stop _

/-- What the lookup returns: it searches for the low 32 bits of the distance from the base. -/
def lookupResult (fns : List RuntimeFunction) (base rip : GuestAddr) :
    Except Status RuntimeFunction :=
  if rip.ult base then .error .functionNotFound
  else recordAt fns
    (Bisection.find (probeAt fns ((rip - base).setWidth 32)) 0 fns.length)

theorem gives_pdataLookup (hP : Serves P Inv m) (himage : ImageAt m base lfanew dir fns)
    (rip : GuestAddr) : Gives Inv (pdataLookup P base rip) (lookupResult fns base rip) := by
  rw [pdataLookup, lookupResult]
  split
  next => exact gives_stop _
  next =>
    refine gives_bind (returns_readPdataDir hP himage) fun d hd => ?_
    subst hd
    split
    next hnone =>
      have hcount := himage.count
      rw [hnone] at hcount
      have hempty : fns.length = 0 := hcount.symm
      rw [hempty, Bisection.find]
      exact gives_stop _
    next =>
      rw [himage.count]
      exact gives_searchPdata hP himage _ 0 _ le_rfl

/-- The record that the distance, taken modulo 2^32, lies in is found. -/
theorem lookupResult_found (himage : ImageAt m base lfanew dir fns) {rip : GuestAddr}
    (hbase : base.toNat ≤ rip.toNat) {f : RuntimeFunction} (hf : f ∈ fns)
    (hlow : f.beginRva.toNat ≤ (rip.toNat - base.toNat) % 2 ^ 32)
    (hhigh : (rip.toNat - base.toNat) % 2 ^ 32 < f.endRva.toNat) :
    lookupResult fns base rip = .ok f := by
  have htarget : ((rip - base).setWidth 32).toNat = (rip.toNat - base.toNat) % 2 ^ 32 := by
    have hrip := rip.isLt
    rw [BitVec.toNat_setWidth, BitVec.toNat_sub]
    omega
  have hafter : ¬ rip.ult base = true := by
    rw [BitVec.ult, decide_eq_true_eq]
    omega
  obtain ⟨k, hk, rfl⟩ := List.getElem_of_mem hf
  have hinside : probeAt fns ((rip - base).setWidth 32) k = .eq := by
    rw [probeAt_of_lt hk, side_eq_eq, htarget]
    exact ⟨hlow, hhigh⟩
  rw [lookupResult, if_neg hafter]
  cases hfind : Bisection.find (probeAt fns ((rip - base).setWidth 32)) 0 fns.length with
  | none =>
      have hnot := Bisection.find_complete (himage.probeOrdered _) le_rfl hfind k (Nat.zero_le k) hk
      exact absurd hinside hnot
  | some j =>
      obtain ⟨_, hj, heq⟩ := Bisection.find_sound hfind
      have hsame : j = k := by
        rw [probeAt_of_lt hj, side_eq_eq] at heq
        rw [probeAt_of_lt hk, side_eq_eq] at hinside
        rcases Nat.lt_trichotomy j k with hjk | hjk | hkj
        · have hapart := List.pairwise_iff_getElem.mp himage.apart j k hj hk hjk
          omega
        · exact hjk
        · have hapart := List.pairwise_iff_getElem.mp himage.apart k j hk hj hkj
          omega
      subst hsame
      rw [recordAt, Option.bind_some, List.getElem?_eq_getElem hk]
      rfl

/-- Without such a record there is none to find. -/
theorem lookupResult_missing {rip : GuestAddr}
    (hnone : base.toNat ≤ rip.toNat → ∀ f ∈ fns,
      ¬ (f.beginRva.toNat ≤ (rip.toNat - base.toNat) % 2 ^ 32 ∧
        (rip.toNat - base.toNat) % 2 ^ 32 < f.endRva.toNat)) :
    lookupResult fns base rip = .error .functionNotFound := by
  have hrip := rip.isLt
  rw [lookupResult]
  split
  next => rfl
  next hafter =>
    rw [BitVec.ult, decide_eq_true_eq, Nat.not_lt] at hafter
    have htarget : ((rip - base).setWidth 32).toNat = (rip.toNat - base.toNat) % 2 ^ 32 := by
      rw [BitVec.toNat_setWidth, BitVec.toNat_sub]
      omega
    cases hfind : Bisection.find (probeAt fns ((rip - base).setWidth 32)) 0 fns.length with
    | none => rfl
    | some j =>
        obtain ⟨_, hj, heq⟩ := Bisection.find_sound hfind
        rw [probeAt_of_lt hj, side_eq_eq, htarget] at heq
        exact absurd heq (hnone hafter fns[j] (List.getElem_mem hj))

theorem returns_pdataLookup (hP : Serves P Inv m) (himage : ImageAt m base lfanew dir fns)
    {rip : GuestAddr} {k : Nat} (hk : k < fns.length) (hbase : base.toNat ≤ rip.toNat)
    (hlow : fns[k].beginRva.toNat ≤ rip.toNat - base.toNat)
    (hhigh : rip.toNat - base.toNat < fns[k].endRva.toNat) :
    Returns Inv (pdataLookup P base rip) fun f => f = fns[k] := by
  have hend := fns[k].endRva.isLt
  have hgives := gives_pdataLookup hP himage rip
  rw [lookupResult_found himage hbase (List.getElem_mem hk) (by omega) (by omega)] at hgives
  exact hgives.returns

end Image

/-! ### The law -/

/-- The address lies in the function of the image at `base`. -/
def RuntimeFunction.Contains (f : RuntimeFunction) (base rip : GuestAddr) : Prop :=
  base.toNat + f.beginRva.toNat ≤ rip.toNat ∧ rip.toNat < base.toNat + f.endRva.toNat

instance (f : RuntimeFunction) (base rip : GuestAddr) : Decidable (f.Contains base rip) :=
  inferInstanceAs (Decidable (_ ∧ _))

/-- From the state `s`, the lookup returns the function that contains `rip`, and the status for
none when no function does. -/
structure LookupLaw {σ : Type} (P : MemoryProvider σ) (s : σ) (base rip : GuestAddr)
    (fns : List RuntimeFunction) : Prop where
  found : ∀ f ∈ fns, f.Contains base rip → ∃ s', pdataLookup P base rip s = some (.ok (f, s'))
  missing : (∀ f ∈ fns, ¬ f.Contains base rip) →
    pdataLookup P base rip s = some (.error .functionNotFound)

/-- `rip` is 4 GiB or more above the base and its distance modulo 2^32 falls into a function. -/
def Aliases (fns : List RuntimeFunction) (base rip : GuestAddr) : Prop :=
  2 ^ 32 ≤ rip.toNat - base.toNat ∧
    ∃ f ∈ fns, f.beginRva.toNat ≤ (rip.toNat - base.toNat) % 2 ^ 32 ∧
      (rip.toNat - base.toNat) % 2 ^ 32 < f.endRva.toNat

/-- On every image with its records in order and apart, the lookup is right about exactly the
addresses that do not alias into a function from 4 GiB or more above. -/
theorem pdata_lookup_iff {σ : Type} {P : MemoryProvider σ} {Inv : σ → Prop} {m : ByteMap}
    (hP : Serves P Inv m) {base : GuestAddr} {lfanew : U32} {dir : DataDirectory}
    {fns : List RuntimeFunction} (himage : ImageAt m base lfanew dir fns) (rip : GuestAddr) {s : σ}
    (hs : Inv s) : LookupLaw P s base rip fns ↔ ¬ Aliases fns base rip := by
  have hgives := gives_pdataLookup hP himage rip s hs
  constructor
  · rintro hlaw ⟨hfar, f, hf, hlow, hhigh⟩
    rw [lookupResult_found himage (by omega) hf hlow hhigh] at hgives
    obtain ⟨s', hrun, _⟩ := hgives
    have hnone : ∀ g ∈ fns, ¬ g.Contains base rip := by
      intro g _ hcontains
      have hend := g.endRva.isLt
      have hhigh' := hcontains.2
      omega
    cases hrun.symm.trans (hlaw.missing hnone)
  · intro hnear
    have hexact (f : RuntimeFunction) (hf : f ∈ fns) (hbase : base.toNat ≤ rip.toNat) :
        f.Contains base rip ↔ f.beginRva.toNat ≤ (rip.toNat - base.toNat) % 2 ^ 32 ∧
          (rip.toNat - base.toNat) % 2 ^ 32 < f.endRva.toNat := by
      have hend := f.endRva.isLt
      rw [RuntimeFunction.Contains]
      by_cases hfar : 2 ^ 32 ≤ rip.toNat - base.toNat
      · exact ⟨fun h => by omega, fun h => absurd ⟨hfar, f, hf, h⟩ hnear⟩
      · rw [Nat.mod_eq_of_lt (Nat.lt_of_not_le hfar)]
        omega
    constructor
    · intro f hf hcontains
      have hlow := hcontains.1
      have hbase : base.toNat ≤ rip.toNat := by omega
      obtain ⟨hbegin, hend⟩ := (hexact f hf hbase).mp hcontains
      rw [lookupResult_found himage hbase hf hbegin hend] at hgives
      obtain ⟨s', hrun, _⟩ := hgives
      exact ⟨s', hrun⟩
    · intro hnone
      rw [lookupResult_missing fun hbase f hf h => hnone f hf ((hexact f hf hbase).mpr h)] at hgives
      exact hgives

/-- An image at 140000000 with the functions 2000 to 2100 and 2200 to 2300. -/
def twoFunctions : List RuntimeFunction := [⟨0x2000, 0x2100, 0x3000⟩, ⟨0x2200, 0x2300, 0x3010⟩]

def twoFunctionImage : ByteMap :=
  let parts : List (GuestAddr × List U8) :=
    [(0x140000000, [0x4D, 0x5A]), (0x14000003C, le32 0x80),
     (0x140000080, [0x50, 0x45, 0, 0] ++ le16 0x8664), (0x140000120, le32 0x1000 ++ le32 24),
     (0x140001000, twoFunctions.flatMap RuntimeFunction.bytes)]
  parts.foldl (fun m part => store m part.1 part.2) fun _ => none

theorem imageAt_twoFunctionImage :
    ImageAt twoFunctionImage 0x140000000 0x80 ⟨0x1000, 24⟩ twoFunctions where
  mz := by decide +kernel
  header := by decide +kernel
  signature := by decide +kernel
  machine := by decide +kernel
  directory := by decide +kernel
  count := by decide
  records := by decide +kernel
  ordered := by decide
  apart := by decide

theorem pdata_lookup_iff_gap :
    LookupLaw (staticProvider twoFunctionImage) () 0x140000000 0x140002180 twoFunctions ↔
      ¬ Aliases twoFunctions 0x140000000 0x140002180 :=
  pdata_lookup_iff (serves_staticProvider _) imageAt_twoFunctionImage 0x140002180 trivial

/-- An address 4 GiB above the second function is taken for one in it. -/
theorem pdata_lookup_far_address :
    pdataLookup (staticProvider twoFunctionImage) 0x140000000 0x240002210 () =
      some (.ok (⟨0x2200, 0x2300, 0x3010⟩, ())) ∧
    ¬ LookupLaw (staticProvider twoFunctionImage) () 0x140000000 0x240002210 twoFunctions := by
  have hrun : pdataLookup (staticProvider twoFunctionImage) 0x140000000 0x240002210 () =
      some (.ok (⟨0x2200, 0x2300, 0x3010⟩, ())) := by
    have hgives := gives_pdataLookup (serves_staticProvider _) imageAt_twoFunctionImage
      0x240002210 () trivial
    have hresult : lookupResult twoFunctions 0x140000000 0x240002210 =
        .ok ⟨0x2200, 0x2300, 0x3010⟩ :=
      lookupResult_found imageAt_twoFunctionImage (by decide) (by decide) (by decide) (by decide)
    rw [hresult] at hgives
    obtain ⟨_, hrun, _⟩ := hgives
    exact hrun
  refine ⟨hrun, fun hlaw => ?_⟩
  have hnone : ∀ f ∈ twoFunctions, ¬ f.Contains 0x140000000 0x240002210 := by decide
  cases hrun.symm.trans (hlaw.missing hnone)

end Host

end PicoCpu
