import PicoCpu.Memory.Chain

/-!
`Process::read`, the backing of the shadow pages over a live process. It asks the system for one
page at a time, so as a backing it maps whole pages and fails in one way.
-/

namespace PicoCpu

open Granule

namespace Host

/-- `ReadProcessMemory`, for one target: whether it says it has succeeded, how many bytes it has
read, and the buffer it leaves. -/
abbrev ReadProcessMemory := GuestAddr → Nat → Buf → Bool × Nat × Buf

structure Process where
  isOpen : Bool := false
  readProcessMemory : ReadProcessMemory

namespace Process

/-- One iteration of the loop of `read`. -/
def readChunk (p : Process) (cur : GuestAddr) (n done : Nat) (out : Buf) :
    Except Status Unit × Buf :=
  let (ok, got, d) := p.readProcessMemory cur n fun i => out (done + i)
  let out' : Buf := fun i => if i < done then out i else d (i - done)
  if ok = false ∨ got ≠ n then (.error .hostReadFailed, out') else (.ok (), out')

/-- `read`, for an `out` that is not null. -/
def read (p : Process) (addr : GuestAddr) (size : Nat) (out : Buf) : Except Status Unit × Buf :=
  if p.isOpen = false then (.error .hostOpenFailed, out)
  else if size = 0 then (.error .invalidArgument, out)
  else walkRange ShadowPages.pageShift p.readChunk addr size out

end Process

/-- `WinProcessMemoryProvider::read`, as the backing of shadow pages. -/
def winProcessBacking (p : Process) : Backing := fun addr size out =>
  if p.isOpen = false then (.error .hostOpenFailed, out) else p.read addr size out

/-- The system reads the committed pages of the target, which hold `image`: what is asked for
inside one page is read whole, or not at all where the page is not readable. -/
structure ReadsPages (rpm : ReadProcessMemory) (image : ByteMap) : Prop where
  whole : ∀ a, (image a).isSome = (image (base ShadowPages.pageShift a)).isSome
  frame : ∀ cur n out i, n ≤ i → (rpm cur n out).2.2 i = out i
  readable : ∀ cur n out, 0 < n →
    off ShadowPages.pageShift cur + n ≤ 2 ^ ShadowPages.pageShift → (image cur).isSome = true →
      (rpm cur n out).1 = true ∧ (rpm cur n out).2.1 = n ∧
        ∀ i < n, image (cur + BitVec.ofNat 64 i) = some ((rpm cur n out).2.2 i)
  unreadable : ∀ cur n out, 0 < n →
    off ShadowPages.pageShift cur + n ≤ 2 ^ ShadowPages.pageShift → image cur = none →
      (rpm cur n out).1 = false

variable {p : Process} {image : ByteMap}

/-- Inside one page there is one iteration. -/
theorem read_chunk (hopen : p.isOpen = true) (cur : GuestAddr) {n : Nat} (hn : 0 < n)
    (hfit : off ShadowPages.pageShift cur + n ≤ 2 ^ ShadowPages.pageShift) (out : Buf) :
    winProcessBacking p cur n out = p.readChunk cur n 0 out := by
  have hchunk : (if 2 ^ ShadowPages.pageShift - off ShadowPages.pageShift cur < n then
      2 ^ ShadowPages.pageShift - off ShadowPages.pageShift cur else n) = n := by
    split <;> omega
  have hne : n ≠ 0 := by omega
  obtain ⟨m, rfl⟩ := Nat.exists_eq_succ_of_ne_zero hne
  rw [winProcessBacking, if_neg (by simp [hopen]), Process.read, if_neg (by simp [hopen]),
    if_neg hne, walkRange, walk, if_neg hne]
  simp only [hchunk]
  cases p.readChunk cur m.succ 0 out with
  | mk r out' =>
      cases r with
      | error e => rfl
      | ok u =>
          simp only [Nat.sub_self]
          cases m with
          | zero => rfl
          | succ m => rfl

/-- A walk of the process touches only what was asked for. -/
theorem read_frame (h : ReadsPages p.readProcessMemory image) (cur : GuestAddr) (n : Nat)
    (out : Buf) (i : Nat) (hi : n ≤ i) : (winProcessBacking p cur n out).2 i = out i := by
  rw [winProcessBacking, Process.read]
  split
  · rfl
  · split
    · rfl
    · have hleaves : Leaves n (fun _ out' => out' i = out i) (fun _ out' => out' i = out i)
          (walkRange ShadowPages.pageShift p.readChunk cur n out) := by
        refine walkRange_rule _ _ cur n (fun _ (out' : Buf) => out' i = out i)
          (fun _ out' => out' i = out i) ?_ out rfl
        intro done k out' hout hpos hle _
        have hframe := h.frame (cur + BitVec.ofNat 64 done) k (fun j => out' (done + j)) (i - done)
          (by omega)
        have hplace : done + (i - done) = i := by omega
        have hnot : ¬ i < done := by omega
        simp only [Process.readChunk]
        split
        · simp only [Leaves, if_neg hnot, hframe, hplace, hout]
        · simp only [Leaves, if_neg hnot, hframe, hplace, hout]
      revert hleaves
      cases walkRange ShadowPages.pageShift p.readChunk cur n out with
      | mk r out' => cases r <;> exact id

theorem pageGranular (hopen : p.isOpen = true) (h : ReadsPages p.readProcessMemory image) :
    PageGranular (winProcessBacking p) image where
  whole := h.whole
  frame := read_frame h
  mapped cur n out hn hfit hsome := by
    obtain ⟨hok, hgot, hbytes⟩ := h.readable cur n (fun i => out (0 + i)) hn hfit hsome
    rw [read_chunk hopen cur hn hfit, Process.readChunk]
    simp only [hok, hgot]
    exact ⟨by simp, by simpa using hbytes⟩
  unmapped cur n out hn hfit hnone := by
    have hfails := h.unreadable cur n (fun i => out (0 + i)) hn hfit hnone
    rw [read_chunk hopen cur hn hfit, Process.readChunk]
    simp only [hfails]
    exact fun h => nomatch h

theorem status_of_fails (hopen : p.isOpen = true) {cur : GuestAddr} {n : Nat} {out : Buf}
    {e : Status} (hn : 0 < n) (h : (winProcessBacking p cur n out).1 = .error e) :
    e = .hostReadFailed := by
  have hleaves : Leaves n (fun _ _ => True) (fun e _ => e = Status.hostReadFailed)
      (walkRange ShadowPages.pageShift p.readChunk cur n out) := by
    refine walkRange_rule _ _ cur n (fun _ (_ : Buf) => True) (fun e _ => e = Status.hostReadFailed) ?_
      out trivial
    intro done k out' _ _ _ _
    simp only [Process.readChunk]
    split
    · rfl
    · trivial
  rw [winProcessBacking, if_neg (by simp [hopen]), Process.read, if_neg (by simp [hopen]),
    if_neg (by omega)] at h
  revert hleaves h
  cases walkRange ShadowPages.pageShift p.readChunk cur n out with
  | mk r out' =>
      rintro ⟨⟩ hleaves
      exact hleaves

end Host

end PicoCpu
