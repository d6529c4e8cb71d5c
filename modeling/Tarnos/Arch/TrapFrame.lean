import Mathlib.Algebra.Ring.Nat

namespace Tarnos.Arch

/-- The registers an entry stub saves and its `iretq` tail restores. -/
structure TrapFrame where
  r15 : UInt64 := 0
  r14 : UInt64 := 0
  r13 : UInt64 := 0
  r12 : UInt64 := 0
  r11 : UInt64 := 0
  r10 : UInt64 := 0
  r9 : UInt64 := 0
  r8 : UInt64 := 0
  rbp : UInt64 := 0
  rdi : UInt64 := 0
  rsi : UInt64 := 0
  rdx : UInt64 := 0
  rcx : UInt64 := 0
  rbx : UInt64 := 0
  rax : UInt64 := 0
  rip : UInt64 := 0
  cs : UInt64 := 0
  rflags : UInt64 := 0
  rsp : UInt64 := 0
  ss : UInt64 := 0
  deriving DecidableEq, Repr

/-- The GDT holds null, kernel code, kernel data, user data and user code in this order. -/
def userDataSelector : UInt64 := 0x1b

def userCodeSelector : UInt64 := 0x23

def rflagsIfAndReserved : UInt64 := 0x202

/-- `VirtAddr::new` panics on any other address. -/
def canonical (address : ℕ) : Bool := address < 2 ^ 47 || 2 ^ 64 - 2 ^ 47 ≤ address

namespace TrapFrame

def initialUserFrame (entry userStackTop : UInt64) : TrapFrame :=
  { rip := entry
    cs := userCodeSelector
    rflags := rflagsIfAndReserved
    rsp := userStackTop
    ss := userDataSelector }

def withRax (f : TrapFrame) (value : UInt64) : TrapFrame := { f with rax := value }

end TrapFrame

end Tarnos.Arch
