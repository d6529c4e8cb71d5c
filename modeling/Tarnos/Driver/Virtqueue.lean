import Mathlib.Logic.Function.Basic
import Tarnos.Driver.Block
import Tarnos.Foundation.ByteMemory
import Tarnos.Foundation.Transition

namespace Tarnos.Driver

open Foundation

/-- The driver's DMA frames. -/
inductive Part
  | desc
  | avail
  | used
  | header
  | data
  | status
  deriving DecidableEq, Repr

/-- The fields of `VirtioBlk` that a request uses. -/
structure VirtioBlk where
  frame : Part → ℕ
  frame_injective : Function.Injective frame
  frame_lt : ∀ part, frame part < 2 ^ 52
  queueSize : UInt16
  queueSize_ge : 3 ≤ queueSize.toNat
  queueSize_le : queueSize.toNat ≤ 8
  capacitySectors : UInt64

def virtqDescFNext : UInt16 := 1
def virtqDescFWrite : UInt16 := 2
def virtqAvailFNoInterrupt : UInt16 := 1
def virtioBlkTIn : ℕ := 0
def virtioBlkSOk : UInt8 := 0
def statusPending : UInt8 := 0xFF
def dataBufferSize : ℕ := maxSectorsPerRequest * sectorSize

/-- A call of `read_sectors`: the first sector and the length of the buffer. -/
structure Request where
  lba : UInt64
  len : ℕ
  deriving DecidableEq, Repr

structure Store where
  part : Part
  offset : ℕ
  bytes : List UInt8
  fits : offset + bytes.length ≤ 4096 := by simp [length_leBytes]; try omega
  deriving DecidableEq

namespace VirtioBlk

variable (blk : VirtioBlk)

@[irreducible]
def addr (part : Part) : ℕ := blk.frame part * 4096

/-- The checks of `read_sectors`. -/
def check (req : Request) : Except BlockError Unit :=
  if req.len = 0 ∨ req.len % sectorSize ≠ 0 then .error .bufferNotSectorAligned
  else if dataBufferSize < req.len then .error .requestTooLarge
  else if 2 ^ 64 ≤ req.lba.toNat + req.len / sectorSize then .error .outOfRange
  else if blk.capacitySectors.toNat < req.lba.toNat + req.len / sectorSize then .error .outOfRange
  else .ok ()

def writeDesc (index : Fin 3) (addr len : ℕ) (flags next : UInt16) : List Store :=
  [.mk .desc (index * 16) (leBytes 8 addr), .mk .desc (index * 16 + 8) (leBytes 4 len),
    .mk .desc (index * 16 + 12) (leBytes 2 flags.toNat),
    .mk .desc (index * 16 + 14) (leBytes 2 next.toNat)]

/-- The stores of `read_sectors` before it looks at the available ring. -/
def requestStores (req : Request) : List Store :=
  [.mk .header 0 (leBytes 4 virtioBlkTIn), .mk .header 4 (leBytes 4 0),
    .mk .header 8 (leBytes 8 req.lba.toNat), .mk .status 0 [statusPending]] ++
  writeDesc 0 (blk.addr .header) 16 virtqDescFNext 1 ++
  writeDesc 1 (blk.addr .data) req.len (virtqDescFNext ||| virtqDescFWrite) 2 ++
  writeDesc 2 (blk.addr .status) 1 virtqDescFWrite 0

def put (ram : ByteMemory) (store : Store) : ByteMemory :=
  ram.store (blk.addr store.part + store.offset) store.bytes

def readAvailIdx (ram : ByteMemory) : UInt16 := UInt16.ofNat (ram.load (blk.addr .avail + 2) 2)

def readUsedIdx (ram : ByteMemory) : UInt16 := UInt16.ofNat (ram.load (blk.addr .used + 2) 2)

def writeAvailIdx (value : UInt16) : Store := .mk .avail 2 (leBytes 2 value.toNat)

def slot (index : UInt16) : ℕ := (index % blk.queueSize).toNat

theorem slot_lt (index : UInt16) : blk.slot index < 8 := by
  have hmod := Nat.mod_lt index.toNat (Nat.lt_of_lt_of_le (by decide : 0 < 3) blk.queueSize_ge)
  rw [slot, UInt16.toNat_mod]
  exact Nat.lt_of_lt_of_le hmod blk.queueSize_le

def writeAvailRingEntry (index descIndex : UInt16) : Store where
  part := .avail
  offset := 4 + blk.slot index * 2
  bytes := leBytes 2 descIndex.toNat
  fits := by
    have hslot := blk.slot_lt index
    rw [length_leBytes]
    omega

end VirtioBlk

/-- Where a call of `read_sectors` is. -/
inductive Phase
  | idle
  | writing (req : Request) (rest : List Store)
  | readingIdx (req : Request)
  | writingEntry (req : Request) (availIdx : UInt16)
  | writingIdx (req : Request) (availIdx : UInt16)
  | notifying (req : Request) (target : UInt16)
  | waiting (req : Request) (target : UInt16)
  | readingStatus (req : Request)
  | copying (req : Request)
  deriving DecidableEq

structure Descriptor where
  addr : ℕ
  len : ℕ
  flags : UInt16
  next : UInt16
  deriving DecidableEq, Repr

/-- Where the device is with the request it has taken. -/
inductive DevicePhase
  | idle
  | walking (head index : UInt16) (chain : List Descriptor)
  | serving (head : UInt16) (chain : List Descriptor)
  | answered (head : UInt16)
  | posted
  deriving DecidableEq, Repr

/-- Driver, device and the memory between them. `counter` is the device's own count of the requests
it has taken. `results` are the calls that returned and `served` the requests the device answered,
oldest first; neither party reads them. -/
structure Exchange where
  ram : ByteMemory
  driver : Phase
  device : DevicePhase
  counter : UInt16
  results : List (Request × Except BlockError (List UInt8))
  served : List (Request × UInt8)

inductive Move
  | call (req : Request)
  | driver
  | fetch
  | walk
  | write (addr : ℕ) (value : UInt8)
  | answer (status : UInt8)
  | post (len : ℕ)
  | complete
  deriving DecidableEq, Repr

namespace Descriptor

def read (ram : ByteMemory) (addr : ℕ) : Descriptor where
  addr := ram.load addr 8
  len := ram.load (addr + 8) 4
  flags := UInt16.ofNat (ram.load (addr + 12) 2)
  next := UInt16.ofNat (ram.load (addr + 14) 2)

def isWritable (d : Descriptor) : Bool := d.flags &&& virtqDescFWrite ≠ 0

def hasNext (d : Descriptor) : Bool := d.flags &&& virtqDescFNext ≠ 0

def addrs (d : Descriptor) : List ℕ := (List.range d.len).map fun i ↦ d.addr + i

end Descriptor

def readable (chain : List Descriptor) : List ℕ :=
  (chain.filter fun d ↦ !d.isWritable).flatMap Descriptor.addrs

def writable (chain : List Descriptor) : List ℕ :=
  (chain.filter Descriptor.isWritable).flatMap Descriptor.addrs

/-- The request a chain asks for: its header, and room for so many bytes of data and the status. -/
def chainRequest (ram : ByteMemory) (chain : List Descriptor) : Request where
  lba := UInt64.ofNat (leNat ((((readable chain).map ram).drop 8).take 8))
  len := (writable chain).length - 1

def chainType (ram : ByteMemory) (chain : List Descriptor) : ℕ :=
  leNat (((readable chain).map ram).take 4)

/-- A device reports success only for a read whose sectors it has put in the buffer. -/
def mayAnswer (sector : ℕ → List UInt8) (ram : ByteMemory) (chain : List Descriptor)
    (status : UInt8) : Bool :=
  status ≠ virtioBlkSOk || (chainType ram chain = virtioBlkTIn &&
    (writable chain).dropLast.map ram = stored sector (chainRequest ram chain).lba.toNat
      ((chainRequest ram chain).len / sectorSize))

namespace VirtioBlk

/-- The memory `new` leaves: zeroed frames, and the device told not to raise interrupts. -/
def start (blk : VirtioBlk) (ram : ByteMemory) : ByteMemory :=
  let zeroed := [Part.desc, .avail, .used, .header, .data, .status].foldl
    (fun ram part ↦ blk.put ram ⟨part, 0, List.replicate 4096 0, by rw [List.length_replicate]⟩) ram
  blk.put zeroed (.mk .avail 0 (leBytes 2 virtqAvailFNoInterrupt.toNat))

end VirtioBlk

namespace Exchange

def init (blk : VirtioBlk) (ram : ByteMemory) : Exchange :=
  ⟨blk.start ram, .idle, .idle, 0, [], []⟩

variable (blk : VirtioBlk)

def finish (s : Exchange) (req : Request) (result : Except BlockError (List UInt8)) : Exchange :=
  { s with driver := .idle, results := s.results ++ [(req, result)] }

def call (s : Exchange) (req : Request) : Option Exchange :=
  match s.driver with
  | .idle =>
    match blk.check req with
    | .error e => some (s.finish req (.error e))
    | .ok () => some { s with driver := .writing req (blk.requestStores req) }
  | _ => none

def driverStep (s : Exchange) : Option Exchange :=
  match s.driver with
  | .idle => none
  | .writing req [] => some { s with driver := .readingIdx req }
  | .writing req (store :: rest) =>
    some { s with ram := blk.put s.ram store, driver := .writing req rest }
  | .readingIdx req => some { s with driver := .writingEntry req (blk.readAvailIdx s.ram) }
  | .writingEntry req availIdx =>
    some { s with
      ram := blk.put s.ram (blk.writeAvailRingEntry availIdx 0)
      driver := .writingIdx req availIdx }
  | .writingIdx req availIdx =>
    some { s with
      ram := blk.put s.ram (VirtioBlk.writeAvailIdx (availIdx + 1))
      driver := .notifying req (availIdx + 1) }
  | .notifying req target => some { s with driver := .waiting req target }
  | .waiting req target =>
    if blk.readUsedIdx s.ram ≠ target then some s else some { s with driver := .readingStatus req }
  | .readingStatus req =>
    if s.ram (blk.addr .status) ≠ virtioBlkSOk then some (s.finish req (.error .deviceError))
    else some { s with driver := .copying req }
  | .copying req => some (s.finish req (.ok (s.ram.slice (blk.addr .data) req.len)))

def deviceStore (s : Exchange) (move : Move) : Option (ℕ × List UInt8) :=
  match move, s.device with
  | .write addr value, _ => some (addr, [value])
  | .answer status, .serving _ chain => (writable chain).getLast?.map fun addr ↦ (addr, [status])
  | .post len, .answered head =>
    some (blk.addr .used + (4 + blk.slot s.counter * 8), leBytes 4 head.toNat ++ leBytes 4 len)
  | .complete, _ => some (blk.addr .used + 2, leBytes 2 (s.counter + 1).toNat)
  | _, _ => none

def deviceRam (s : Exchange) (move : Move) : ByteMemory :=
  match s.deviceStore blk move with
  | some (addr, bytes) => s.ram.store addr bytes
  | none => s.ram

/-- The moves of a device that follows the rules: it takes the entry of the available ring its
counter names once the driver has published one, walks the chain, writes to buffers it may write
to, puts a status in the last byte of them, and then posts the chain in the used ring. -/
def deviceStep (sector : ℕ → List UInt8) (s : Exchange) (move : Move) : Option Exchange :=
  match move, s.device with
  | .fetch, .idle =>
    if blk.readAvailIdx s.ram ≠ s.counter then
      let head := UInt16.ofNat (s.ram.load (blk.addr .avail + (4 + blk.slot s.counter * 2)) 2)
      some { s with device := .walking head head [] }
    else none
  | .walk, .walking head index chain =>
    let d := Descriptor.read s.ram (blk.addr .desc + index.toNat * 16)
    if d.hasNext then some { s with device := .walking head d.next (chain ++ [d]) }
    else some { s with device := .serving head (chain ++ [d]) }
  | .write addr _, .serving _ chain =>
    if addr ∈ writable chain then some { s with ram := s.deviceRam blk move } else none
  | .answer status, .serving head chain =>
    if (writable chain).isEmpty then none
    else if mayAnswer sector s.ram chain status then
      some { s with
        ram := s.deviceRam blk move
        device := .answered head
        served := s.served ++ [(chainRequest s.ram chain, status)] }
    else none
  | .post _, .answered _ => some { s with ram := s.deviceRam blk move, device := .posted }
  | .complete, .posted =>
    some { s with ram := s.deviceRam blk move, device := .idle, counter := s.counter + 1 }
  | _, _ => none

def next (sector : ℕ → List UInt8) (s : Exchange) (move : Move) : Option Exchange :=
  match move with
  | .call req => s.call blk req
  | .driver => s.driverStep blk
  | move => s.deviceStep blk sector move

end Exchange

end Tarnos.Driver
