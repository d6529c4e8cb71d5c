import Tarnos.Arch.TrapFrame

/-!
# The flags a kernel entry runs with

The entry stubs as the instructions they are, with the processor state that decides under which
flags each one runs.
-/

namespace Tarnos.Arch

structure RFlags where
  zeroFlag : Bool := false
  trapFlag : Bool := false
  interruptFlag : Bool := false
  directionFlag : Bool := false
  nestedTask : Bool := false
  resumeFlag : Bool := false
  alignmentCheck : Bool := false
  deriving DecidableEq, Repr

namespace RFlags

def clear (f mask : RFlags) : RFlags where
  zeroFlag := f.zeroFlag && !mask.zeroFlag
  trapFlag := f.trapFlag && !mask.trapFlag
  interruptFlag := f.interruptFlag && !mask.interruptFlag
  directionFlag := f.directionFlag && !mask.directionFlag
  nestedTask := f.nestedTask && !mask.nestedTask
  resumeFlag := f.resumeFlag && !mask.resumeFlag
  alignmentCheck := f.alignmentCheck && !mask.alignmentCheck

/-- `POPF` in ring 3 with `IOPL` 0 leaves `IF` alone and clears `RF`. -/
def popf (f loaded : RFlags) : RFlags :=
  { loaded with interruptFlag := f.interruptFlag, resumeFlag := false }

def initialUser : RFlags := { interruptFlag := true }

/-- The flags neither the stubs' own instructions nor compiled code write. -/
def SameControl (f g : RFlags) : Prop :=
  f.trapFlag = g.trapFlag ∧ f.directionFlag = g.directionFlag ∧ f.nestedTask = g.nestedTask

end RFlags

/-- What `SFMask::write` is given: `SYSCALL` clears these and no others. -/
def sfMask : RFlags := { interruptFlag := true }

/-- The flags the processor clears when it enters through an interrupt gate. -/
def gateMask : RFlags :=
  { interruptFlag := true, trapFlag := true, nestedTask := true, resumeFlag := true }

inductive Operand where
  | rax | rbx | rcx | rdx | rsi | rdi | rbp
  | r8 | r9 | r10 | r11 | r12 | r13 | r14 | r15
  | userSs | scratchRsp | userCs
  deriving DecidableEq, Repr

/-- The jumps of the stubs all lead forward, over a number of instructions. -/
inductive Instr where
  | movScratchRsp
  | movRspKernelRsp
  | push (operand : Operand)
  | pop (operand : Operand)
  | movRaxStack (offset : ℕ)
  | testAl3
  | jz (count : ℕ)
  | jmp (count : ℕ)
  | movRdiRsp
  | call
  | movRspRax
  | iretq
  deriving DecidableEq, Repr

def savedRegisters : List Operand :=
  [.rax, .rbx, .rcx, .rdx, .rsi, .rdi, .rbp, .r8, .r9, .r10, .r11, .r12, .r13, .r14, .r15]

def saveRegisters : List Instr := savedRegisters.map .push

def restoreAndReturn : List Instr := savedRegisters.reverse.map .pop ++ [.iretq]

def syscallEntry : List Instr :=
  [.movScratchRsp, .movRspKernelRsp, .push .userSs, .push .scratchRsp, .push .r11, .push .userCs,
    .push .rcx] ++ saveRegisters ++ [.movRdiRsp, .call, .movRspRax] ++ restoreAndReturn

/-- The stubs behind a gate take the branch the saved `CS` selects; their ring 0 branches
differ. -/
def gateEntry (csOffset : ℕ) (ring0 : List Instr) : List Instr :=
  saveRegisters ++ [.movRaxStack csOffset, .testAl3, .jz 4, .movRdiRsp, .call, .movRspRax,
    .jmp ring0.length] ++ ring0 ++ restoreAndReturn

def timerInterruptEntry : List Instr := gateEntry 128 [.call]

def exceptionEntryNoCode : List Instr := gateEntry 128 [.movRdiRsp, .call]

def exceptionEntryWithCode : List Instr := gateEntry 136 [.movRdiRsp, .call]

/-- `stack` is what the kernel stack holds, top first; `skip` instructions are jumped over. -/
structure Cpu where
  flags : RFlags
  onUserStack : Bool
  stack : List UInt64 := []
  rax : UInt64 := 0
  skip : ℕ := 0
  deriving DecidableEq, Repr

/-- What the compiled code of a `call` leaves in the flags it may write, and in `rax`. -/
structure Compiled where
  zeroFlag : Bool
  interruptFlag : Bool
  rax : UInt64

def Instr.exec (ret : Compiled) (cpu : Cpu) : Instr → Cpu
  | .movRspKernelRsp => { cpu with onUserStack := false }
  | .push _ => { cpu with stack := 0 :: cpu.stack }
  | .pop _ => { cpu with stack := cpu.stack.tail }
  | .movRaxStack offset => { cpu with rax := cpu.stack.getD (offset / 8) 0 }
  | .testAl3 => { cpu with flags := { cpu.flags with zeroFlag := cpu.rax &&& 3 == 0 } }
  | .jz count => { cpu with skip := if cpu.flags.zeroFlag then count else 0 }
  | .jmp count => { cpu with skip := count }
  | .call =>
    { cpu with
      flags := { cpu.flags with zeroFlag := ret.zeroFlag, interruptFlag := ret.interruptFlag }
      rax := ret.rax }
  | .movScratchRsp | .movRdiRsp | .movRspRax | .iretq => cpu

/-- The instructions a stub executes, each with the processor as it finds it. -/
def executed (ret : Compiled) : Cpu → List Instr → List (Cpu × Instr)
  | _, [] => []
  | cpu, i :: is =>
    match cpu.skip with
    | 0 => (cpu, i) :: executed ret (i.exec ret cpu) is
    | skip + 1 => executed ret { cpu with skip } is

inductive Trap where
  | syscall
  | timer
  | lapicTimer
  | reschedule
  | exceptionNoCode
  | exceptionWithCode (errorCode : UInt64)
  deriving DecidableEq, Repr

def Trap.entry : Trap → List Instr
  | .syscall => syscallEntry
  | .timer => timerInterruptEntry
  | .lapicTimer | .reschedule | .exceptionNoCode => exceptionEntryNoCode
  | .exceptionWithCode _ => exceptionEntryWithCode

/-- A gate has the processor switch to the kernel stack and push the interrupted registers
there; `SYSCALL` does neither. -/
def Trap.enter (rip rsp rflags : UInt64) (flags : RFlags) : Trap → Cpu
  | .syscall => { flags := flags.clear sfMask, onUserStack := true }
  | .exceptionWithCode errorCode =>
    { flags := flags.clear gateMask, onUserStack := false
      stack := [errorCode, rip, userCodeSelector, rflags, rsp, userDataSelector] }
  | _ =>
    { flags := flags.clear gateMask, onUserStack := false
      stack := [rip, userCodeSelector, rflags, rsp, userDataSelector] }

inductive Vector where
  | divideError
  | debug
  | invalidOpcode
  | doubleFault
  | segmentNotPresent
  | generalProtection
  | pageFault
  | alignmentCheck
  | timer
  | lapicTimer
  | reschedule
  deriving DecidableEq, Repr

inductive Gate where
  | stub (trap : Trap)
  | panics
  deriving DecidableEq, Repr

/-- The gates that `idt::init` sets, as far as user code can come to them. -/
def idt (errorCode : UInt64) : Vector → Option Gate
  | .divideError | .invalidOpcode => some (.stub .exceptionNoCode)
  | .generalProtection | .pageFault => some (.stub (.exceptionWithCode errorCode))
  | .doubleFault => some .panics
  | .timer => some (.stub .timer)
  | .lapicTimer => some (.stub .lapicTimer)
  | .reschedule => some (.stub .reschedule)
  | .debug | .segmentNotPresent | .alignmentCheck => none

/-- A vector without a gate is the fault of a segment that is not present, and if that has no gate
either, a double fault. -/
def deliver (errorCode : UInt64) (v : Vector) : Gate :=
  (((idt errorCode v).or (idt errorCode .segmentNotPresent)).or (idt errorCode .doubleFault)).getD
    .panics

/-- What interrupts ring-3 code first: the trap, or before it an exception that its flags allow. The
code is a list of instructions, each with or without an unaligned access; `am` is the bit of `CR0`. -/
def interrupted (am : Bool) (errorCode : UInt64) (flags : RFlags) (trap : Trap) : List Bool → Gate
  | [] => .stub trap
  | unaligned :: code =>
    if unaligned && am && flags.alignmentCheck then deliver errorCode .alignmentCheck
    else if flags.trapFlag then deliver errorCode .debug
    else interrupted am errorCode flags trap code

/-- Nothing in ring 0 is single-stepped on the user stack, compiled code starts with `DF` clear,
and `iretq` runs with `NT` clear. -/
def Neutral (cpu : Cpu) (i : Instr) : Prop :=
  (cpu.onUserStack = true → cpu.flags.trapFlag = false) ∧
    (i = .call → cpu.flags.directionFlag = false) ∧
    (i = .iretq → cpu.flags.nestedTask = false)

instance (cpu : Cpu) (i : Instr) : Decidable (Neutral cpu i) :=
  inferInstanceAs (Decidable ((_ → _) ∧ (_ → _) ∧ (_ → _)))

theorem RFlags.SameControl.trans {f g h : RFlags} (hfg : f.SameControl g)
    (hgh : g.SameControl h) : f.SameControl h :=
  ⟨hfg.1.trans hgh.1, hfg.2.1.trans hgh.2.1, hfg.2.2.trans hgh.2.2⟩

theorem Instr.exec_sameControl (ret : Compiled) (cpu : Cpu) (i : Instr) :
    (i.exec ret cpu).flags.SameControl cpu.flags := by
  cases i <;> exact ⟨rfl, rfl, rfl⟩

variable {cpu : Cpu}

theorem executed_sameControl (ret : Compiled) {at_ : Cpu} {is : List Instr} {i : Instr}
    (h : (at_, i) ∈ executed ret cpu is) : at_.flags.SameControl cpu.flags := by
  induction is generalizing cpu with
  | nil => cases h
  | cons j is ih =>
    rw [executed] at h
    split at h
    · obtain heq | h := List.mem_cons.mp h
      · cases heq
        exact ⟨rfl, rfl, rfl⟩
      · exact (ih h).trans (j.exec_sameControl ret cpu)
    · exact (ih h).trans ⟨rfl, rfl, rfl⟩

theorem executed_cons (ret : Compiled) (i : Instr) (is : List Instr) (hskip : cpu.skip = 0) :
    executed ret cpu (i :: is) = (cpu, i) :: executed ret (i.exec ret cpu) is := by
  rw [executed, hskip]

theorem executed_skip (ret : Compiled) (is js : List Instr) (hskip : cpu.skip = is.length) :
    executed ret cpu (is ++ js) = executed ret { cpu with skip := 0 } js := by
  induction is generalizing cpu with
  | nil =>
    have hcpu : { cpu with skip := 0 } = cpu := by rw [← show cpu.skip = 0 from hskip]
    rw [hcpu, List.nil_append]
  | cons i is ih =>
    rw [List.cons_append, executed, hskip]
    exact @ih { cpu with skip := is.length } rfl

theorem executed_push (ret : Compiled) (operands : List Operand) (js : List Instr)
    (hskip : cpu.skip = 0) :
    ∃ pushed, executed ret cpu (operands.map .push ++ js) =
      pushed ++ executed ret
        { cpu with stack := List.replicate operands.length 0 ++ cpu.stack } js := by
  induction operands generalizing cpu with
  | nil => exact ⟨[], rfl⟩
  | cons operand operands ih =>
    obtain ⟨pushed, heq⟩ := @ih { cpu with stack := 0 :: cpu.stack } hskip
    refine ⟨(cpu, .push operand) :: pushed, ?_⟩
    rw [List.map_cons, List.cons_append, executed_cons ret _ _ hskip, Instr.exec, heq,
      List.length_cons, List.replicate_succ', List.append_assoc]
    rfl

theorem iretq_mem_restoreAndReturn (ret : Compiled) (hskip : cpu.skip = 0) :
    .iretq ∈ (executed ret cpu restoreAndReturn).map Prod.snd := by
  obtain ⟨flags, onUserStack, stack, rax, skip⟩ := cpu
  subst hskip
  exact List.mem_of_elem_eq_true rfl

theorem gateEntry_calls_and_returns (ret : Compiled) (offset : ℕ) (ring0 : List Instr)
    (hskip : cpu.skip = 0)
    (hcs : (List.replicate 15 0 ++ cpu.stack).getD (offset / 8) 0 = userCodeSelector) :
    .call ∈ (executed ret cpu (gateEntry offset ring0)).map Prod.snd ∧
      .iretq ∈ (executed ret cpu (gateEntry offset ring0)).map Prod.snd := by
  obtain ⟨pushed, heq⟩ := executed_push ret savedRegisters
    ([.movRaxStack offset, .testAl3, .jz 4, .movRdiRsp, .call, .movRspRax, .jmp ring0.length] ++
      (ring0 ++ restoreAndReturn)) hskip
  have hring : (userCodeSelector &&& 3 == 0) = false := by decide
  have hlen : savedRegisters.length = 15 := rfl
  simp only [gateEntry, saveRegisters, List.append_assoc]
  rw [heq, hlen]
  simp only [List.cons_append, List.nil_append, executed, Instr.exec, hskip, hcs, hring,
    Bool.false_eq_true, if_false, List.map_append, List.map_cons, List.mem_append, List.mem_cons]
  rw [executed_skip ret ring0 restoreAndReturn (by rfl)]
  exact ⟨by simp, by simp [iretq_mem_restoreAndReturn]⟩

namespace Trap

variable (ret : Compiled) (rip rsp rflags : UInt64) (flags : RFlags)

theorem calls_and_returns (trap : Trap) :
    .call ∈ (executed ret (trap.enter rip rsp rflags flags) trap.entry).map Prod.snd ∧
      .iretq ∈ (executed ret (trap.enter rip rsp rflags flags) trap.entry).map Prod.snd := by
  cases trap with
  | syscall => exact ⟨List.mem_of_elem_eq_true rfl, List.mem_of_elem_eq_true rfl⟩
  | timer | lapicTimer | reschedule | exceptionNoCode | exceptionWithCode errorCode =>
    exact gateEntry_calls_and_returns ret _ _ rfl rfl

theorem enter_directionFlag (trap : Trap) :
    (trap.enter rip rsp rflags flags).flags.directionFlag = flags.directionFlag := by
  cases trap <;> exact Bool.and_true _

theorem enter_of_ne_syscall {trap : Trap} (h : trap ≠ .syscall) :
    (trap.enter rip rsp rflags flags).flags.trapFlag = false ∧
      (trap.enter rip rsp rflags flags).flags.nestedTask = false := by
  cases trap with
  | syscall => exact absurd rfl h
  | timer | lapicTimer | reschedule | exceptionNoCode | exceptionWithCode errorCode =>
    exact ⟨Bool.and_false _, Bool.and_false _⟩

theorem executed_neutral_iff (trap : Trap) :
    (∀ v ∈ executed ret (trap.enter rip rsp rflags flags) trap.entry, Neutral v.1 v.2) ↔
      flags.directionFlag = false ∧
        (trap = .syscall → flags.trapFlag = false ∧ flags.nestedTask = false) := by
  constructor
  · intro h
    obtain ⟨hcall, hiretq⟩ := trap.calls_and_returns ret rip rsp rflags flags
    obtain ⟨⟨cpu, _⟩, hv, rfl⟩ := List.mem_map.mp hcall
    obtain ⟨⟨last, _⟩, hlast, hlasti⟩ := List.mem_map.mp hiretq
    cases hlasti
    refine ⟨?_, ?_⟩
    · rw [← enter_directionFlag rip rsp rflags flags trap, ← (executed_sameControl ret hv).2.1]
      exact (h _ hv).2.1 rfl
    · rintro rfl
      refine ⟨?_, ?_⟩
      · -- The first instruction of the stub still has the user's `rsp`.
        have hfirst := (h _ List.mem_cons_self).1 rfl
        simpa [enter, RFlags.clear, sfMask] using hfirst
      · have hnested := ((executed_sameControl ret hlast).2.2).symm.trans ((h _ hlast).2.2 rfl)
        simpa [enter, RFlags.clear, sfMask] using hnested
  · rintro ⟨hdirection, hsyscall⟩ ⟨cpu, i⟩ hv
    obtain ⟨htrap, hdir, hnested⟩ := executed_sameControl ret hv
    have hclear : (trap.enter rip rsp rflags flags).flags.trapFlag = false ∧
        (trap.enter rip rsp rflags flags).flags.nestedTask = false := by
      by_cases h : trap = .syscall
      · subst h
        obtain ⟨ht, hn⟩ := hsyscall rfl
        simp [enter, RFlags.clear, ht, hn]
      · exact enter_of_ne_syscall rip rsp rflags flags h
    refine ⟨fun _ ↦ htrap.trans hclear.1, fun _ ↦ ?_, fun _ ↦ hnested.trans hclear.2⟩
    exact hdir.trans ((enter_directionFlag rip rsp rflags flags trap).trans hdirection)

theorem interrupted_of_clear {am : Bool} (errorCode : UInt64) {flags : RFlags} (trap : Trap)
    (htrap : flags.trapFlag = false) (hcheck : am = true → flags.alignmentCheck = false)
    (code : List Bool) : interrupted am errorCode flags trap code = .stub trap := by
  have hno : (am && flags.alignmentCheck) = false := by
    cases am with
    | false => rfl
    | true => exact hcheck rfl
  induction code with
  | nil => rfl
  | cons unaligned code ih => simp [interrupted, htrap, Bool.and_assoc, hno, ih]

/-- Whatever code a process runs until the trap, the kernel is entered through a stub and runs with
neutral flags, exactly if `TF` and `DF` are clear, `AC` where it has an effect, and `NT` for a
`SYSCALL`. -/
theorem entry_neutral_iff (am : Bool) (errorCode : UInt64) (trap : Trap) :
    (∀ code, ∃ taken, interrupted am errorCode flags trap code = .stub taken ∧
      ∀ v ∈ executed ret (taken.enter rip rsp rflags flags) taken.entry, Neutral v.1 v.2) ↔
      flags.trapFlag = false ∧ flags.directionFlag = false ∧
        (am = true → flags.alignmentCheck = false) ∧
        (trap = .syscall → flags.nestedTask = false) := by
  constructor
  · intro h
    obtain ⟨taken, hstub, hneutral⟩ := h []
    cases hstub
    obtain ⟨hdirection, hsyscall⟩ := (executed_neutral_iff ret rip rsp rflags flags trap).mp hneutral
    refine ⟨?_, hdirection, ?_, fun heq ↦ (hsyscall heq).2⟩
    · -- an instruction that is single-stepped
      obtain ⟨taken, hstub, -⟩ := h [false]
      cases htrap : flags.trapFlag with
      | false => rfl
      | true =>
        simp only [interrupted, Bool.false_and, htrap] at hstub
        cases hstub
    · rintro rfl
      obtain ⟨taken, hstub, -⟩ := h [true]
      cases hcheck : flags.alignmentCheck with
      | false => rfl
      | true =>
        simp only [interrupted, hcheck] at hstub
        cases hstub
  · rintro ⟨htrap, hdirection, hcheck, hnested⟩ code
    refine ⟨trap, interrupted_of_clear errorCode trap htrap hcheck code, ?_⟩
    exact (executed_neutral_iff ret rip rsp rflags flags trap).mpr
      ⟨hdirection, fun heq ↦ ⟨htrap, hnested heq⟩⟩

end Trap

/-- A process that has set `TF`, `DF` or `NT` takes it into the kernel with its next `SYSCALL`,
and `DF` with its next timer interrupt; and any other instruction under `TF` stops the kernel. -/
theorem user_flags_reach_kernel :
    (∀ loaded ∈ [{ trapFlag := true }, { directionFlag := true }, { nestedTask := true }],
      ¬ ∀ v ∈ executed ⟨false, false, 0⟩
          (Trap.syscall.enter 0 0 0 (RFlags.initialUser.popf loaded)) Trap.syscall.entry,
        Neutral v.1 v.2) ∧
      (¬ ∀ v ∈ executed ⟨false, false, 0⟩
          (Trap.timer.enter 0 0 0 (RFlags.initialUser.popf { directionFlag := true }))
          Trap.timer.entry,
        Neutral v.1 v.2) ∧
      ∀ am errorCode trap, interrupted am errorCode (RFlags.initialUser.popf { trapFlag := true }) trap
        [false] = .panics := by
  refine ⟨by decide +kernel, by decide +kernel, fun am errorCode trap ↦ ?_⟩
  cases am <;> rfl

end Tarnos.Arch
