import PicoCpu.Word

/-!
Results of the integer ALU operations, as the handlers compute them before they
write a destination or stash a flag operation.
-/

namespace PicoCpu

/-- The count mask of a shift or rotate: six bits at 64-bit size, five below it. -/
def shiftCountMask (size : Nat) : Nat := if size = 8 then 0x3F else 0x1F

def maskedCount (size : Nat) (count : U8) : Nat := count.toNat &&& shiftCountMask size

def addResult (size : Nat) (a b : U64) : U64 := (a + b) &&& maskFor size
def adcResult (size : Nat) (a b : U64) (cin : Bool) : U64 :=
  (a + b + (if cin then 1 else 0)) &&& maskFor size
def subResult (size : Nat) (a b : U64) : U64 := (a - b) &&& maskFor size
def sbbResult (size : Nat) (a b : U64) (bin : Bool) : U64 :=
  (a - b - (if bin then 1 else 0)) &&& maskFor size
def incResult (size : Nat) (a : U64) : U64 := (a + 1) &&& maskFor size
def decResult (size : Nat) (a : U64) : U64 := (a - 1) &&& maskFor size
def negResult (size : Nat) (a : U64) : U64 := (~~~a + 1) &&& maskFor size

def shlResult (size : Nat) (a : U64) (c : Nat) : U64 :=
  if size * 8 ≤ c then 0 else (a <<< c) &&& maskFor size

def shrResult (size : Nat) (a : U64) (c : Nat) : U64 :=
  if size * 8 ≤ c then 0 else (a &&& maskFor size) >>> c

def sarResult (size : Nat) (a : U64) (c : Nat) : U64 :=
  let sa := signExtend a size
  (if size * 8 ≤ c then (if sa.msb then ~~~0#64 else 0) else sa.sshiftRight c) &&& maskFor size

def rolResult (size : Nat) (a : U64) (c : Nat) : U64 :=
  let w := size * 8
  let mod := c &&& (w - 1)
  let av := a &&& maskFor size
  if mod = 0 then av else ((av <<< mod) ||| (av >>> (w - mod))) &&& maskFor size

def rorResult (size : Nat) (a : U64) (c : Nat) : U64 :=
  let w := size * 8
  let mod := c &&& (w - 1)
  let av := a &&& maskFor size
  if mod = 0 then av else ((av >>> mod) ||| (av <<< (w - mod))) &&& maskFor size

end PicoCpu
