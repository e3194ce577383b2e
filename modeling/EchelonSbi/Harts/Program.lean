import EchelonSbi.Sbi.HartMask

/-!
# The firmware's inter-hart code as lists of memory accesses

Each function of the source that touches memory shared between harts is the
list of operations it still has to execute.  An operation makes at most one
access to shared memory, so every interleaving of two harts, and every point at
which an interrupt can be taken, lies between two operations.  A branch on a
shared value is an operation that is replaced by the branch taken.
-/

namespace EchelonSbi
namespace Harts

open Sbi

/-- The values of `sbi_hsm_states`. -/
inductive SBI_HSM where
  | STARTED
  | STOPPED
  | START_PENDING
  | STOP_PENDING
  | SUSPENDED
  | SUSPEND_PENDING
  | RESUME_PENDING
  deriving DecidableEq, Repr

/-- The number behind a value of `sbi_hsm_states`. -/
def SBI_HSM.value : SBI_HSM → Int
  | .STARTED => 0
  | .STOPPED => 1
  | .START_PENDING => 2
  | .STOP_PENDING => 3
  | .SUSPENDED => 4
  | .SUSPEND_PENDING => 5
  | .RESUME_PENDING => 6

def SBI_HSM_SUSPEND_DEFAULT_RETENTIVE : Nat := 0x00000000
def SBI_HSM_SUSPEND_DEFAULT_NONRETENTIVE : Nat := 0x80000000

def EM_M : Word xlen := 3#_
def EM_S : Word xlen := 1#_

def REG_PC : Fin 32 := 0
def REG_SP : Fin 32 := 2
def REG_TP : Fin 32 := 4
def REG_A0 : Fin 32 := 10
def REG_A1 : Fin 32 := 11
def REG_A2 : Fin 32 := 12

/-- The spin locks of the firmware. -/
inductive Lock where
  | printm_lock
  | hart_command_que_locks (hart : Nat)
  | sbi_hsm_locks (hart : Nat)
  deriving DecidableEq, Repr

/-- The fields of `Hart_Command`. -/
inductive CommandField where
  | command
  | param0
  | param1
  | param2
  | param3
  | param4
  | param5
  deriving DecidableEq, Repr

namespace CommandField

/-- All fields, in the order in which a record is copied. -/
def all : List CommandField :=
  [.command, .param0, .param1, .param2, .param3, .param4, .param5]

def get (record : Hart_Command xlen) : CommandField → Word xlen
  | .command => record.command
  | .param0 => record.param0
  | .param1 => record.param1
  | .param2 => record.param2
  | .param3 => record.param3
  | .param4 => record.param4
  | .param5 => record.param5

def set (record : Hart_Command xlen) (value : Word xlen) :
    CommandField → Hart_Command xlen
  | .command => { record with command := value }
  | .param0 => { record with param0 := value }
  | .param1 => { record with param1 := value }
  | .param2 => { record with param2 := value }
  | .param3 => { record with param3 := value }
  | .param4 => { record with param4 := value }
  | .param5 => { record with param5 := value }

end CommandField

/-- The record of `hart_contexts` and `hart_contexts_user`. -/
structure CPU_Context (xlen : Xlen) where
  context_id : Word xlen
  execution_mode : Word xlen
  reserved_0 : Word xlen
  regs : Fin 32 → Word xlen

/-- The fields of `CPU_Context`. -/
inductive ContextField where
  | context_id
  | execution_mode
  | reserved_0
  | regs (i : Fin 32)
  deriving DecidableEq

/-- Assign one field of a context record. -/
def CPU_Context.set (context : CPU_Context xlen) (value : Word xlen) :
    ContextField → CPU_Context xlen
  | .context_id => { context with context_id := value }
  | .execution_mode => { context with execution_mode := value }
  | .reserved_0 => { context with reserved_0 := value }
  | .regs i =>
      { context with regs := fun j => if j = i then value else context.regs j }

/-- The context records of one hart that the code assigns. -/
inductive ContextRecord where
  /-- `hart_contexts[mhartid]`. -/
  | hart_contexts
  /-- `hart_contexts_user[mhartid]`. -/
  | hart_contexts_user
  deriving DecidableEq

/-- The control registers that the modelled code writes. -/
inductive Csr where
  | mstatus
  | mie
  | mip
  | medeleg
  | mideleg
  | mcounteren
  | menvcfg
  | menvcfgh
  | pmpaddr0
  | pmpaddr1
  | pmpaddr2
  | pmpcfg0
  | satp
  deriving DecidableEq

/-- One operation. -/
inductive Op (xlen : Xlen) where
  /-- `1: lw t1, (a0); bne t1, zero, 1b`. -/
  | wait_load (lock : Lock)
  /-- `amoswap.w.aq t1, t0, (a0); bne t1, zero, 1b`. -/
  | wait_swap (lock : Lock)
  /-- `amoswap.w.rl zero, zero, (a0)`. -/
  | post (lock : Lock)
  /-- The output of one call of `printm`. -/
  | print (text : String)
  /-- `CPU_SFENCEVMA()`. -/
  | sfence_vma
  /-- `CPU_FENCEI()`. -/
  | fence_i
  /-- `while (clint_hart_msip_ctls[hart_id]) {}`. -/
  | poll (hart_id : Nat)
  /-- One word of `hart_commands[hart_id] = *command`. -/
  | copy (hart_id : Nat) (field : CommandField) (value : Word xlen)
  /-- `clint_hart_msip_ctls[hart_id] = 1`, for the record `command`. -/
  | raise (hart_id : Nat) (command : Hart_Command xlen)
  /-- The test of `sbi_hsm_states[hartid]` in `sbi_hart_start`, which has
  prepared `command`. -/
  | check_hart_state (hartid : Nat) (command : Hart_Command xlen)
  /-- `sbi_hsm_states[hartid] = state`. -/
  | store_hart_state (hartid : Nat) (state : SBI_HSM)
  /-- `retval.value = sbi_hsm_states[hartid]` and the return. -/
  | ret_hart_state (hartid : Nat)
  /-- The return from `call_to_sbi` to the kernel. -/
  | ret (retval : sbiret)
  /-- `switch_context(hart_contexts + mhartid)`. -/
  | switch_to_hart_context
  /-- One word of `Hart_Command command = hart_commands[mhartid]`. -/
  | load_command (field : CommandField)
  /-- The choice of the branch of `interrupt_c_handler` for `command`. -/
  | dispatch
  /-- `hart_commands[mhartid].command = 0`. -/
  | clear_command
  /-- `clint_hart_msip_ctls[mhartid] = 0`. -/
  | clear_msip
  | csr_write (csr : Csr) (value : Word xlen)
  | csr_bitset (csr : Csr) (mask : Word xlen)
  | csr_bitclr (csr : Csr) (mask : Word xlen)
  /-- Assign one field of a context record of the hart. -/
  | write_context
      (record : ContextRecord) (field : ContextField) (value : Word xlen)
  /-- The end of `interrupt_entry_handler` after the C handler returned. -/
  | resume
  /-- `switch_context(hart_contexts_user + mhartid)`. -/
  | switch_to_user_context
  /-- `switch_context((CPU_Context*)(command.param0))`. -/
  | switch_to_context (context : Word xlen)
  /-- `idle_loop()` where `interrupt_c_handler` does not know the command. -/
  | halt_not_handled
  /-- `idle_loop()` where `exception_c_handler` gives up. -/
  | halt_exception

/-- The build of the firmware and what boot found out about the board. -/
structure Config extends Platform where
  /-- Built for the QEMU board. -/
  MM_QEMU_VIRT : Bool
  kernel_load_to_point : Word xlen
  dtb_load_to_point : Word xlen
  /-- The register `menvcfg` exists on a hart. -/
  hart_has_menvcfg : Nat → Bool
  /-- The bit of `menvcfg` for the sstc extension can be set on a hart. -/
  sstc_writable : Nat → Bool
  /-- The thread pointer and the stack that `kinit` allocates for a hart. -/
  hart_tp : Nat → Word xlen
  hart_sp : Nat → Word xlen

section Functions

variable {xlen : Xlen}

/-- `ksem_wait`. -/
def ksem_wait (lock : Lock) : List (Op xlen) :=
  [.wait_load lock, .wait_swap lock]

/-- `ksem_post`. -/
def ksem_post (lock : Lock) : List (Op xlen) :=
  [.post lock]

/-- `printm`. -/
def printm (text : String) : List (Op xlen) :=
  ksem_wait .printm_lock ++ [.print text] ++ ksem_post .printm_lock

/-- `hart_commands[hart_id] = *command`. -/
def copy_command (hart_id : Nat) (command : Hart_Command xlen) :
    List (Op xlen) :=
  CommandField.all.map fun field => .copy hart_id field (field.get command)

/-- `send_hart_command_que`. -/
def send_hart_command_que (hart_id : Nat) (command : Hart_Command xlen) :
    List (Op xlen) :=
  [.sfence_vma, .fence_i] ++ ksem_wait (.hart_command_que_locks hart_id) ++
    [.poll hart_id] ++ copy_command hart_id command ++
    [.raise hart_id command] ++ ksem_post (.hart_command_que_locks hart_id)

/-- `clear_hart_context`. -/
def clear_hart_context (record : ContextRecord) : List (Op xlen) :=
  [.write_context record .context_id 0#_,
    .write_context record .execution_mode 0#_,
    .write_context record .reserved_0 0#_] ++
  (List.finRange 32).map fun j => .write_context record (.regs j) 0#_

/-! ## SBI calls -/

/-- One action of the second pass of a mask call. -/
def actionOps : HartAction xlen → List (Op xlen)
  | .setSoftwareInterrupt => [.csr_bitset .mip 0x2#_]
  | .fenceI => [.fence_i]
  | .sfenceVma => [.sfence_vma]
  | .send hart_id command => send_hart_command_que hart_id.toNat command

/-- A mask call: its output, its actions, its return. -/
def maskedOps (outcome : MaskedOutcome xlen) : List (Op xlen) :=
  outcome.printed.flatMap printm ++ outcome.actions.flatMap actionOps ++
    [.ret outcome.ret]

/-- The rest of `sbi_hart_start` when it refuses the state of the hart. -/
def startRefused (hartid : Nat) : List (Op xlen) :=
  printm "\tNot Started: Already Available2\n" ++
    ksem_post (.sbi_hsm_locks hartid) ++
    [.ret ⟨SBI_ERR_ALREADY_AVAILABLE, 0⟩]

/-- The rest of `sbi_hart_start` when it accepts the state of the hart. -/
def startAccepted (hartid : Nat) (command : Hart_Command xlen) :
    List (Op xlen) :=
  [.store_hart_state hartid .START_PENDING] ++
    ksem_post (.sbi_hsm_locks hartid) ++
    send_hart_command_que hartid command ++ [.ret ⟨SBI_SUCCESS, 0⟩]

/-- The states that `sbi_hart_start` refuses. -/
def refusesStart (state : SBI_HSM) : Bool :=
  state = .STARTED ∨ state = .START_PENDING ∨ state = .RESUME_PENDING

/-- The command that `sbi_hart_start` builds on its stack. -/
def startCommand
    (stack : Hart_Command xlen) (hartid start_addr opaque_ : Word xlen) :
    Hart_Command xlen :=
  { stack with
    command := HARTCMD_STARTHART
    param0 := hartid
    param1 := start_addr
    param2 := opaque_ }

/-- `sbi_hart_start`. -/
def sbi_hart_start
    (platform : Platform)
    (mhartid : Nat)
    (stack : Hart_Command platform.xlen)
    (hartid start_addr opaque_ : Word platform.xlen) :
    List (Op platform.xlen) :=
  if is_valid_hartid platform hartid = false then
    printm "\tNot Started: Invalid HartID\n" ++
      [.ret ⟨SBI_ERR_INVALID_PARAM, 0⟩]
  else if is_valid_phys_mem_addr start_addr 2 = false then
    printm "\tNot Started: Invalid Memory Address\n" ++
      [.ret ⟨SBI_ERR_INVALID_ADDRESS, 0⟩]
  else if hartid.toNat = mhartid then
    printm "\tNot Started: Already Available1\n" ++
      [.ret ⟨SBI_ERR_ALREADY_AVAILABLE, 0⟩]
  else
    ksem_wait (.sbi_hsm_locks hartid.toNat) ++
      [.check_hart_state hartid.toNat
        (startCommand stack hartid start_addr opaque_)]

/-- The end of `sbi_hart_stop` and of an accepted `sbi_hart_suspend`. -/
def goDown (mhartid : Nat) (state : SBI_HSM) : List (Op xlen) :=
  ksem_wait (.sbi_hsm_locks mhartid) ++
    [.store_hart_state mhartid state] ++
    ksem_post (.sbi_hsm_locks mhartid) ++ [.switch_to_hart_context]

/-- `sbi_hart_stop`. -/
def sbi_hart_stop (mhartid : Nat) : List (Op xlen) :=
  printm "SBI: HSM_STOP\n" ++ goDown mhartid .STOPPED

/-- `sbi_hart_get_status`. -/
def sbi_hart_get_status
    (platform : Platform) (hartid : Word platform.xlen) :
    List (Op platform.xlen) :=
  printm "SBI: HSM_STATUS\n" ++
    if is_valid_hartid platform hartid = false then
      [.ret ⟨SBI_ERR_INVALID_PARAM, 0⟩]
    else [.ret_hart_state hartid.toNat]

/-- The error of `sbi_hart_suspend` for the types it does not accept. -/
def suspendError (suspend_type : Nat) : Int :=
  if 0x00000001 ≤ suspend_type ∧ suspend_type ≤ 0x0FFFFFFF then
    SBI_ERR_INVALID_PARAM
  else if 0x10000000 ≤ suspend_type ∧ suspend_type ≤ 0x7FFFFFFF then
    SBI_ERR_NOT_SUPPORTED
  else if 0x80000001 ≤ suspend_type ∧ suspend_type ≤ 0x8FFFFFFF then
    SBI_ERR_INVALID_PARAM
  else if 0x90000000 ≤ suspend_type ∧ suspend_type ≤ 0xFFFFFFFF then
    SBI_ERR_NOT_SUPPORTED
  else SBI_ERR_INVALID_PARAM

/-- `sbi_hart_suspend`; `suspend_type` is a `uint32_t`. -/
def sbi_hart_suspend
    (mhartid : Nat)
    (suspend_type : BitVec 32)
    (resume_addr opaque_ : Word xlen) :
    List (Op xlen) :=
  printm "SBI: HSM_SUSPEND\n" ++
    if is_valid_phys_mem_addr resume_addr 2 = false then
      [.ret ⟨SBI_ERR_INVALID_ADDRESS, 0⟩]
    else if suspend_type.toNat = SBI_HSM_SUSPEND_DEFAULT_RETENTIVE ∨
        suspend_type.toNat = SBI_HSM_SUSPEND_DEFAULT_NONRETENTIVE then
      [.write_context .hart_contexts (.regs REG_A0)
          (BitVec.ofNat _ suspend_type.toNat),
        .write_context .hart_contexts (.regs REG_A1) opaque_,
        .write_context .hart_contexts (.regs REG_A2) resume_addr] ++
      goDown mhartid .SUSPENDED
    else [.ret ⟨suspendError suspend_type.toNat, 0⟩]

/-- An SBI call of the kernel, with the contents of the stack where the callee
leaves a record partly uninitialised. -/
inductive Request (xlen : Xlen) where
  | mask
      (call : HartMaskCall xlen)
      (hart_mask hart_mask_base : Word xlen)
      (stack : Word xlen → Hart_Command xlen)
  | hart_start
      (hartid start_addr opaque_ : Word xlen) (stack : Hart_Command xlen)
  | hart_stop
  | hart_get_status (hartid : Word xlen)
  | hart_suspend
      (suspend_type : BitVec 32) (resume_addr opaque_ : Word xlen)
  /-- A call that prints at most some lines and touches nothing else that harts
  share: the base, time and reset extensions, and unsupported requests. -/
  | other (printed : List String) (ret : sbiret)

/-- `call_to_sbi`. -/
def call_to_sbi
    (platform : Platform) (mhartid : Nat) :
    Request platform.xlen → List (Op platform.xlen)
  | .mask call hart_mask hart_mask_base stack =>
      maskedOps (call.run platform (BitVec.ofNat _ mhartid) stack
        hart_mask hart_mask_base)
  | .hart_start hartid start_addr opaque_ stack =>
      sbi_hart_start platform mhartid stack hartid start_addr opaque_
  | .hart_stop => sbi_hart_stop mhartid
  | .hart_get_status hartid => sbi_hart_get_status platform hartid
  | .hart_suspend suspend_type resume_addr opaque_ =>
      sbi_hart_suspend mhartid suspend_type resume_addr opaque_
  | .other printed ret => printed.flatMap printm ++ [.ret ret]

/-! ## Boot -/

/-- The last lines of `kmain`. -/
def kmain (config : Config) (stack : Hart_Command config.xlen) :
    List (Op config.xlen) :=
  printm "--Start Hart--\n" ++
    send_hart_command_que 0 (startCommand stack 0#_
      config.kernel_load_to_point config.dtb_load_to_point)

/-! ## The interrupt handler -/

/-- `hart_using_ext_sstc` after the start branch ran on a hart. -/
def hart_using_ext_sstc (config : Config) (mhartid : Nat) : Bool :=
  config.MM_QEMU_VIRT && config.hart_has_menvcfg mhartid &&
    config.sstc_writable mhartid

/-- The part of the start branch that is compiled for the QEMU board only. -/
def qemuFixes (config : Config) (mhartid : Nat) : List (Op config.xlen) :=
  let addressMask : Word config.xlen :=
    match config.xlen with
    | .rv32 => 0xFFFFFFFF#_
    | .rv64 => 0x003FFFFFFFFFFFFF#_
  [.csr_write .pmpaddr0 (0x80000000#_ >>> 2 &&& addressMask),
    .csr_write .pmpaddr1 (config.kernel_load_to_point >>> 2 &&& addressMask),
    .csr_write .pmpaddr2 (BitVec.allOnes _ >>> 2 &&& addressMask),
    .csr_write .pmpcfg0 (0x0F0000#_ ||| 0x0800#_ ||| 0x0B#_)] ++
  (if config.hart_has_menvcfg mhartid then
    match config.xlen with
    | .rv32 => [.csr_bitset .menvcfgh (1#_ <<< 31)]
    | .rv64 => [.csr_bitset .menvcfg (1#_ <<< 63)]
  else []) ++
  (if hart_using_ext_sstc config mhartid then
    printm "\tUsing ISA Extenstion: SSTC\n" ++ [.csr_bitset .mcounteren 0x2#_]
  else []) ++
  (if config.hart_has_menvcfg mhartid then
    [.csr_bitset .menvcfg (3#_ <<< 4), .csr_bitset .menvcfg (1#_ <<< 6),
      .csr_bitset .menvcfg (1#_ <<< 7)]
  else [])

/-- The accesses of the start branch to registers and the user context. -/
def startContext
    (mhartid : Nat) (command : Hart_Command xlen) : List (Op xlen) :=
  [.csr_write .medeleg 0x0000#_, .csr_write .mideleg 0x0222#_,
    .csr_write .mie 0x02A#_, .csr_bitclr .mip 0xFFF#_,
    .csr_write .satp 0#_, .csr_bitclr .mstatus 0x2A#_,
    .csr_bitset .mstatus 0x80#_] ++
  clear_hart_context .hart_contexts_user ++
  [.write_context .hart_contexts_user .context_id (BitVec.ofNat _ mhartid),
    .write_context .hart_contexts_user .execution_mode EM_S,
    .write_context .hart_contexts_user (.regs REG_PC) command.param1,
    .write_context .hart_contexts_user (.regs REG_A0)
      (BitVec.ofNat _ mhartid),
    .write_context .hart_contexts_user (.regs REG_A1) command.param2]

/-- The start branch. -/
def handleStart
    (config : Config) (mhartid : Nat) (command : Hart_Command config.xlen) :
    List (Op config.xlen) :=
  printm ("\tStarting: " ++ toString mhartid ++ "\n") ++
    (if config.MM_QEMU_VIRT then qemuFixes config mhartid else []) ++
    startContext mhartid command ++
    ksem_wait (.sbi_hsm_locks mhartid) ++
    [.store_hart_state mhartid .STARTED] ++
    ksem_post (.sbi_hsm_locks mhartid) ++
    [.clear_command, .clear_msip, .switch_to_user_context]

/-- The branches of `interrupt_c_handler` for cause 3, each with what follows
in `interrupt_entry_handler`. -/
def handleCommand
    (config : Config) (mhartid : Nat) (command : Hart_Command config.xlen) :
    List (Op config.xlen) :=
  if command.command = HARTCMD_SWITCHCONTEXT then
    [.clear_command, .clear_msip, .switch_to_context command.param0]
  else if command.command = HARTCMD_STARTHART then
    handleStart config mhartid command
  else if command.command = HARTCMD_REMOTE_FENCE_I then
    [.fence_i, .clear_command, .clear_msip, .resume]
  else if command.command = HARTCMD_REMOTE_SFENCE_VMA then
    [.sfence_vma, .clear_command, .clear_msip, .resume]
  else if command.command = HARTCMD_REMOTE_SFENCE_VMA_ASID then
    [.sfence_vma, .clear_command, .clear_msip, .resume]
  else if command.command = HARTCMD_SMODE_SOFTINT then
    [.clear_command, .clear_msip, .csr_bitset .mip 0x2#_, .resume]
  else
    printm "ESBI Interrupt!  Lower 31 mcause bits: 3.  Halting.\n" ++
      [.halt_not_handled]

/-- `interrupt_c_handler` for cause 3, up to the choice of the branch. -/
def machineSoftwareInterrupt : List (Op xlen) :=
  CommandField.all.map .load_command ++ [.dispatch]

/-- `interrupt_c_handler` for cause 7. -/
def machineTimerInterrupt (config : Config) (mhartid : Nat) :
    List (Op config.xlen) :=
  (if hart_using_ext_sstc config mhartid then []
   else [.csr_bitclr .mie 0x80#_, .csr_bitset .mip 0x20#_]) ++ [.resume]

/-- What `exception_c_handler` prints where it gives up. -/
def exceptionMessage (mhartid cause_value : Nat) : String :=
  match cause_value with
  | 1 => "Instruction Access Fault\n"
  | 3 => "Breakpoint Exception.  Trap Handler: M-Mode\n"
  | 5 => "Load Access Fault\n"
  | 7 => "Store/AMO Access Fault\n"
  | 11 =>
      "ESBI Trap Caught!  Machine-Mode Environment Exception.  Trap Handler: M-Mode. mhartid: " ++
        toString mhartid ++ ".  Halting.\n"
  | _ => "ESBI Exception!  Lower 31 mcause bits: " ++ toString cause_value ++ ".  Halting.\n"

/-- `exception_c_handler` where it gives up with interrupts disabled;
`print_reg_state` prints `lines`. -/
def exceptionHalt (mhartid cause_value : Nat) (lines : List String) : List (Op xlen) :=
  [.csr_bitclr .mstatus 0x8#_] ++ printm (exceptionMessage mhartid cause_value) ++
    lines.flatMap printm ++ [.halt_exception]

/-- `exception_c_handler` gives up, with interrupts disabled, on this cause below
M-mode.  Of the others it answers 9, delegates most and leaves interrupts enabled at 2;
11 comes from M-mode only. -/
def GivesUpOn (cause_value : Nat) : Prop :=
  cause_value ∉ [0, 2, 4, 6, 8, 9, 11, 12, 13, 15]

instance (cause_value : Nat) : Decidable (GivesUpOn cause_value) :=
  inferInstanceAs (Decidable (cause_value ∉ _))

end Functions

end Harts
end EchelonSbi
