import Mathlib.Algebra.GroupWithZero.Nat
import Mathlib.Tactic.Common

namespace Tarnos.Abi

def sysYield : UInt64 := 0
def sysSend : UInt64 := 1
def sysRecv : UInt64 := 2
def sysExit : UInt64 := 3
def sysSpawn : UInt64 := 4
def sysGrant : UInt64 := 5
def sysProcessStart : UInt64 := 6
def sysWait : UInt64 := 7
def sysKill : UInt64 := 8
def sysSbrk : UInt64 := 9
def sysBlockRead : UInt64 := 10
def sysFileRead : UInt64 := 11

def shortNameMax : ℕ := 16

/-- `u64::to_le_bytes`. -/
def toLeBytes (n : UInt64) : List UInt8 :=
  (List.range 8).map fun i ↦ (n >>> UInt64.ofNat (8 * i)).toUInt8

def invalidUtf8 : List UInt8 := "<invalid utf-8>".toUTF8.toList

/-- `str::from_utf8`, or the text that stands for bytes that are none. -/
def lossy (bytes : List UInt8) : List UInt8 :=
  if (ByteArray.mk bytes.toArray).validateUTF8 then bytes else invalidUtf8

/-- `&buf[..len]`, which panics if the buffer has fewer bytes. -/
def sliceTo (buf : List UInt8) (len : ℕ) : Option (List UInt8) :=
  if len ≤ buf.length then some (buf.take len) else none

/-- The text at the start of a buffer, as long as a register says, and no longer than the buffer. -/
def decode (buf : List UInt8) (len : UInt64) : Option (List UInt8) :=
  (sliceTo buf (min len.toNat buf.length)).map lossy

theorem decode_eq (buf : List UInt8) (len : UInt64) :
    decode buf len = some (lossy (buf.take (min len.toNat buf.length))) := by
  rw [decode, sliceTo, if_pos (Nat.min_le_right _ _), Option.map_some]

def unpackShortName (lo hi len : UInt64) : Option (List UInt8) :=
  decode (toLeBytes lo ++ toLeBytes hi) len

theorem exists_unpackShortName (lo hi len : UInt64) : ∃ name, unpackShortName lo hi len = some name :=
  ⟨_, decode_eq _ len⟩

structure CapIndex where
  index : UInt32
  deriving DecidableEq, Repr

abbrev messageInlineWords : ℕ := 4

instance : NeZero messageInlineWords := ⟨by decide⟩

structure Message where
  tag : UInt64
  words : Vector UInt64 messageInlineWords
  deriving DecidableEq, Repr

def Message.word (m : Message) (i : Fin messageInlineWords) : UInt64 := m.words[i]

@[ext] theorem Message.ext_words {m n : Message} (htag : m.tag = n.tag)
    (hwords : ∀ i, m.word i = n.word i) : m = n := by
  obtain ⟨tag, words⟩ := m
  obtain ⟨tag', words'⟩ := n
  have hvec : words = words' := Vector.ext fun i hi ↦ hwords ⟨i, hi⟩
  cases htag
  rw [hvec]

inductive ExitStatus
  | exited (code : Int32)
  | faulted
  | killed
  deriving DecidableEq, Repr

def ExitStatus.toRegs : ExitStatus → UInt64 × UInt64
  | .exited code => (0, code.toUInt32.toUInt64)
  | .faulted => (1, 0)
  | .killed => (2, 0)

def ExitStatus.fromRegs (kind code : UInt64) : ExitStatus :=
  if kind = 0 then .exited code.toUInt32.toInt32
  else if kind = 1 then .faulted
  else .killed

theorem ExitStatus.fromRegs_toRegs (status : ExitStatus) :
    fromRegs status.toRegs.1 status.toRegs.2 = status := by
  cases status with
  | exited code => simp [fromRegs, toRegs]
  | faulted | killed => rfl

/-- The three flags a capability can carry; `fromBitsTruncate` drops every other bit. -/
structure Rights where
  bits : BitVec 3
  deriving DecidableEq, Repr

namespace Rights

def send : Rights := ⟨0b001⟩
def recv : Rights := ⟨0b010⟩
def read : Rights := ⟨0b100⟩

def union (r r' : Rights) : Rights := ⟨r.bits ||| r'.bits⟩

def contains (r other : Rights) : Bool := r.bits &&& other.bits == other.bits

def fromBitsTruncate (bits : UInt8) : Rights := ⟨bits.toBitVec.truncate 3⟩

theorem contains_refl (r : Rights) : r.contains r = true := by
  simp [contains]

theorem contains_trans {a b c : Rights} (hab : a.contains b = true) (hbc : b.contains c = true) :
    a.contains c = true := by
  simp only [contains, beq_iff_eq] at hab hbc ⊢
  calc a.bits &&& c.bits = a.bits &&& (b.bits &&& c.bits) := by rw [hbc]
    _ = a.bits &&& b.bits &&& c.bits := (BitVec.and_assoc _ _ _).symm
    _ = c.bits := by rw [hab, hbc]

end Rights

inductive SyscallError
  | noSuchSyscall
  | badCapability
  | permissionDenied
  | resourceExhausted
  | noSuchProgram
  | invalidTarget
  | spawnFailed
  | invalidArgument
  | peerClosed
  | ioOutOfRange
  | ioError
  | noSuchFile
  deriving DecidableEq, Repr

namespace SyscallError

def code : SyscallError → Int64
  | noSuchSyscall => 1
  | badCapability => 2
  | permissionDenied => 3
  | resourceExhausted => 4
  | noSuchProgram => 5
  | invalidTarget => 6
  | spawnFailed => 7
  | invalidArgument => 8
  | peerClosed => 9
  | ioOutOfRange => 10
  | ioError => 11
  | noSuchFile => 12

def asRetval (e : SyscallError) : Int64 := -e.code

def toRax (e : SyscallError) : UInt64 := e.asRetval.toUInt64

/-- The error a negative return value stands for; unknown codes are `noSuchSyscall`. -/
def fromRetval (retval : Int64) : SyscallError :=
  match retval.toInt.natAbs with
  | 2 => badCapability
  | 3 => permissionDenied
  | 4 => resourceExhausted
  | 5 => noSuchProgram
  | 6 => invalidTarget
  | 7 => spawnFailed
  | 8 => invalidArgument
  | 9 => peerClosed
  | 10 => ioOutOfRange
  | 11 => ioError
  | 12 => noSuchFile
  | _ => noSuchSyscall

theorem toRax_ne_zero (e : SyscallError) : e.toRax ≠ 0 := by
  cases e <;> decide

end SyscallError

end Tarnos.Abi
