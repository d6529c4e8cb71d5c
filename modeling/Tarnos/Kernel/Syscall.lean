import Tarnos.Kernel.State

namespace Tarnos.Kernel

open Abi Arch Kcore Tarnos.Task

variable {E : Type}

def maxSectorsPerRequest : UInt64 := 8

def userHeapMaxSize : UInt64 := 64 * 1024 * 1024

def sendMessage (f : TrapFrame) : Message := ⟨f.rsi, #v[f.rdx, f.r10, f.r8, f.r9]⟩

def recvRegisters (f : TrapFrame) (m : Message) : TrapFrame :=
  { f with rax := 0, rdi := m.tag, rsi := m.word 0, rdx := m.word 1, r10 := m.word 2 }

def recvCompleted (m : Message) : WakeResult :=
  .recvCompleted m.tag #v[m.word 0, m.word 1, m.word 2]

def syscallDispatch (f : TrapFrame) : Main E :=
  if f.rax = sysYield then .onTimerTick f
  else if f.rax = sysSend then .withCurrent .send f
  else if f.rax = sysRecv then .withCurrent .recv f
  else if f.rax = sysExit then .exitCurrent (.exited f.rdi.toUInt32.toInt32)
  else if f.rax = sysSpawn then .withCurrent .spawn f
  else if f.rax = sysGrant then .withCurrent .grant f
  else if f.rax = sysProcessStart then .withCurrent .processStart f
  else if f.rax = sysWait then .withCurrent .wait f
  else if f.rax = sysKill then .withCurrent .kill f
  else if f.rax = sysSbrk then .withCurrent .sbrk f
  else if f.rax = sysBlockRead then
    if f.r10 = 0 ∨ maxSectorsPerRequest < f.r10 then
      .leave (f.withRax SyscallError.invalidArgument.toRax)
    else .withCurrent .blockRead f
  else if f.rax = sysFileRead then .withCurrent .fileRead f
  else .leave (f.withRax SyscallError.noSuchSyscall.toRax)

theorem syscallDispatch_induction {motive : Main E → Prop} (f : TrapFrame)
    (yield : motive (.onTimerTick f)) (call : ∀ call, motive (.withCurrent call f))
    (exit : ∀ status, motive (.exitCurrent status)) (leave : ∀ g, motive (.leave g)) :
    motive (syscallDispatch f) := by
  have pick : ∀ {q : Prop} [Decidable q] {m m' : Main E}, motive m → motive m' →
      motive (if q then m else m') := by
    intro q _ m m' hm hm'
    by_cases hq : q
    · rwa [if_pos hq]
    · rwa [if_neg hq]
  unfold syscallDispatch
  refine pick yield (pick (call _) (pick (call _) (pick (exit _) (pick (call _) (pick (call _)
    (pick (call _) (pick (call _) (pick (call _) (pick (call _) (pick (pick (leave _) (call _))
      (pick (call _) (leave _))))))))))))

def Call.withoutProcess : Call → SyscallError
  | .send | .recv | .grant | .blockRead | .fileRead => .badCapability
  | .spawn | .processStart | .wait | .kill | .sbrk | .setHeapEnd _ _ => .invalidTarget

def resolveEndpoint (process : Process E) (cap : CapIndex) (required : Rights) :
    Except SyscallError E :=
  match process.capTable.lookup cap required with
  | .error e => .error e
  | .ok slot =>
    match slot.object with
    | .endpoint e => .ok e
    | _ => .error .badCapability

/-- The check `sys_block_read` and `sys_file_read` make on the capability they are given. -/
def resolveDevice [DecidableEq E] (process : Process E) (cap : CapIndex)
    (device : KernelObjectRef E) : Except SyscallError Unit :=
  match process.capTable.lookup cap .read with
  | .error e => .error e
  | .ok slot => if slot.object = device then .ok () else .error .badCapability

/-- The source slot of a `sys_grant` whose requested rights it covers. -/
def resolveGrant (process : Process E) (f : TrapFrame) :
    Except SyscallError (CapabilitySlot (KernelObjectRef E)) :=
  match process.capTable.get ⟨f.rsi.toUInt32⟩ with
  | .error e => .error e
  | .ok slot =>
    if slot.rights.contains (Rights.fromBitsTruncate f.r10.toUInt8) then .ok slot
    else .error .permissionDenied

/-- The old and the new heap end of a `sys_sbrk`. -/
def heapEnds (process : Process E) (f : TrapFrame) : Except SyscallError (UInt64 × UInt64) :=
  if f.rdi.toInt64 < 0 then .error .invalidArgument
  else if 2 ^ 64 ≤ process.heapEnd.toNat + f.rdi.toNat then .error .invalidArgument
  else if userHeapMaxSize < process.heapEnd + f.rdi - userHeapStart then .error .invalidArgument
  else .ok (process.heapEnd, process.heapEnd + f.rdi)

def orLeave {α : Type} (f : TrapFrame) (result : Except SyscallError α) (k : α → Main E) : Main E :=
  match result with
  | .error e => .leave (f.withRax e.toRax)
  | .ok a => k a

/-- What a call does next once it has the record of its calling process. -/
def callOn [DecidableEq E] (process : Process E) (f : TrapFrame) : Call → Main E
  | .send =>
    orLeave f (resolveEndpoint process ⟨f.rdi.toUInt32⟩ .send) fun e ↦
      .trySend e (sendMessage f) process.pid f
  | .recv =>
    orLeave f (resolveEndpoint process ⟨f.rdi.toUInt32⟩ .recv) fun e ↦ .tryRecv e process.pid f
  | .spawn => .allocatePid process.pid f
  | .grant =>
    orLeave f (resolveGrant process f) fun slot ↦
      .grant ⟨f.rdi⟩ ⟨f.rdx.toUInt32⟩
        ⟨slot.object, Rights.fromBitsTruncate f.r10.toUInt8⟩ process.pid f
  | .processStart => .startChild ⟨f.rdi⟩ process.pid f
  | .wait => .waitForChild ⟨f.rdi⟩ process.pid f
  | .kill => .killCheck ⟨f.rdi⟩ process.pid f
  | .sbrk => orLeave f (heapEnds process f) fun ends ↦ .growHeap ends.1 ends.2 f
  | .setHeapEnd oldEnd _ => .leave (f.withRax oldEnd)
  | .blockRead =>
    orLeave f (resolveDevice process ⟨f.rdi.toUInt32⟩ .blockDevice) fun _ ↦ .transfer f
  | .fileRead =>
    orLeave f (resolveDevice process ⟨f.rdi.toUInt32⟩ .fsRoot) fun _ ↦ .transfer f

/-- The endpoints `wake_orphaned_receivers` finds without a live sender. -/
def orphanedEndpoints [DecidableEq E] (sched : Inner E)
    (dying : List (CapabilitySlot (KernelObjectRef E))) : List E :=
  dying.filterMap fun slot ↦
    if slot.rights.contains .send then
      match slot.object with
      | .endpoint e =>
        let hasLiveSender := (List.finRange maxProcesses).any fun i ↦
          match sched.processes i with
          | .occupied other => other.capTable.iter.any fun held ↦
              held.rights.contains .send && held.object = .endpoint e
          | _ => false
        if hasLiveSender then none else some e
      | _ => none
    else none

end Tarnos.Kernel
