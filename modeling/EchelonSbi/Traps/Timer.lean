import EchelonSbi.Sbi.Platform
import EchelonSbi.Word
import Mathlib.Data.BitVec
import Mathlib.Logic.Function.Basic
import Mathlib.Logic.Relation

/-!
# The timer call and the timer interrupt

`sbi_set_timer` programs the comparator of the hart in several writes, and the
machine timer interrupt turns its own enable bit off and raises the timer
interrupt of the kernel.  Here each write is a step, and between any two of them
time may pass, another hart may move or the interrupt may be taken.  The pending
bit of the machine timer is the comparison of `mtime` with `mtimecmp`.
-/

namespace EchelonSbi
namespace Traps

open Sbi

/-- The registers that the timer code writes. -/
inductive TimerCsr where
  | MIE
  | MIP
  | STIMECMP
  | STIMECMPH
  deriving DecidableEq, Repr

/-- One write of the timer code. -/
inductive TimerWrite (xlen : Xlen) where
  | CSR_WRITE (csr : TimerCsr) (value : Word xlen)
  | CSR_BITSET (csr : TimerCsr) (mask : Word xlen)
  | CSR_BITCLR (csr : TimerCsr) (mask : Word xlen)
  /-- A store at a number of bytes from `CLINT_BASE + CLINT_MTIMECMPS`. -/
  | store32 (offset : Nat) (value : BitVec 32)
  | store64 (offset : Nat) (value : BitVec 64)
  deriving DecidableEq, Repr

namespace TimerWrite

/-- The write goes to a comparator. -/
def isStore : TimerWrite xlen → Bool
  | .store32 _ _ => true
  | .store64 _ _ => true
  | _ => false

/-- What a write makes of the registers of its hart. -/
def onCsr
    (file : TimerCsr → Word xlen) : TimerWrite xlen → TimerCsr → Word xlen
  | .CSR_WRITE csr value => Function.update file csr value
  | .CSR_BITSET csr mask => Function.update file csr (file csr ||| mask)
  | .CSR_BITCLR csr mask => Function.update file csr (file csr &&& ~~~mask)
  | _ => file

/-- What a write makes of the words of the comparators. -/
def onClint
    (clint : Nat → BitVec 32) : TimerWrite xlen → Nat → BitVec 32
  | .store32 offset value => Function.update clint offset value
  | .store64 offset value =>
      Function.update (Function.update clint offset (value.setWidth 32))
        (offset + 4) ((value >>> 32).setWidth 32)
  | _ => clint

end TimerWrite

/-- The writes of a call, and what it returns. -/
def sbi_set_timer
    (xlen : Xlen)
    (hart_using_ext_sstc : Bool)
    (mhartid : Nat)
    (stime_value : BitVec 64) :
    List (TimerWrite xlen) × sbiret :=
  match xlen with
  | .rv64 =>
      (if hart_using_ext_sstc then
        [.CSR_WRITE .STIMECMP stime_value]
      else
        [.CSR_BITCLR .MIE 0x80,
          .CSR_BITCLR .MIP 0x20,
          .store64 (8 * mhartid) stime_value,
          .CSR_BITSET .MIE 0x80],
        ⟨SBI_SUCCESS, 0⟩)
  | .rv32 =>
      let xtimeh : BitVec 32 := (stime_value >>> 32 &&& 0xFFFFFFFF).setWidth 32
      let xtime : BitVec 32 := (stime_value >>> 0 &&& 0xFFFFFFFF).setWidth 32
      (if hart_using_ext_sstc then
        [.CSR_WRITE .STIMECMPH (-1),
          .CSR_WRITE .STIMECMP xtime,
          .CSR_WRITE .STIMECMPH xtimeh]
      else
        [.CSR_BITCLR .MIE 0x80,
          .CSR_BITCLR .MIP 0x20,
          .store32 (4 * (mhartid * 2) + 4) (-1),
          .store32 (4 * (mhartid * 2)) xtime,
          .store32 (4 * (mhartid * 2) + 4) xtimeh,
          .CSR_BITSET .MIE 0x80],
        ⟨SBI_SUCCESS, 0⟩)

/-- The branch of `interrupt_c_handler` for the machine timer. -/
def machine_timer_interrupt
    (xlen : Xlen)
    (hart_using_ext_sstc : Bool) :
    List (TimerWrite xlen) :=
  if hart_using_ext_sstc then []
  else [.CSR_BITCLR .MIE 0x80, .CSR_BITSET .MIP 0x20]

/-- A call that has made some of its writes. -/
structure TimerCall where
  stime_value : BitVec 64
  done : Nat

/-- A hart, as far as its timer goes. -/
structure TimerHart (xlen : Xlen) where
  csr : TimerCsr → Word xlen
  hart_using_ext_sstc : Bool
  call : Option TimerCall
  /-- Number of writes that the running interrupt handler has made. -/
  handler : Option Nat
  /-- The deadline that was last written in full since the hart was started. -/
  completed : Option (BitVec 64)
  /-- The deadline of the last call that returned since the hart was started. -/
  returned : Option (BitVec 64)

namespace TimerHart

variable (hart : TimerHart xlen)

def MTIE : Bool :=
  (hart.csr .MIE).getLsbD 7

def STIP : Bool :=
  (hart.csr .MIP).getLsbD 5

end TimerHart

/-- All harts, the words of the comparators and the clock. -/
structure TimerSystem (xlen : Xlen) where
  harts : Nat → TimerHart xlen
  clint : Nat → BitVec 32
  mtime : Nat

namespace TimerSystem

variable (system : TimerSystem xlen)

/-- The comparator of a hart. -/
def mtimecmp (hart : Nat) : BitVec 64 :=
  system.clint (8 * hart + 4) ++ system.clint (8 * hart)

def setHart (hart : Nat) (value : TimerHart xlen) : TimerSystem xlen :=
  { system with harts := Function.update system.harts hart value }

/-- The writes of a call on a hart. -/
def code (hart : Nat) (call : TimerCall) : List (TimerWrite xlen) :=
  (sbi_set_timer xlen (system.harts hart).hart_using_ext_sstc hart
    call.stime_value).1

/-- The deadline that is complete behind a write of a call. -/
def completion
    (hart : Nat) (call : TimerCall) (made : TimerWrite xlen) : Option (BitVec 64) :=
  if made.isStore &&
      !((system.code hart call).drop (call.done + 1)).any TimerWrite.isStore then
    some call.stime_value
  else (system.harts hart).completed

/-- A call makes a write. -/
def writeCall
    (hart : Nat) (call : TimerCall) (made : TimerWrite xlen) : TimerSystem xlen :=
  { system.setHart hart
      { system.harts hart with
        csr := made.onCsr (system.harts hart).csr
        call := some { call with done := call.done + 1 }
        completed := system.completion hart call made } with
    clint := made.onClint system.clint }

/-- The interrupt handler makes a write. -/
def writeHandler
    (hart done : Nat) (made : TimerWrite xlen) : TimerSystem xlen :=
  { system.setHart hart
      { system.harts hart with
        csr := made.onCsr (system.harts hart).csr
        handler := some (done + 1) } with
    clint := made.onClint system.clint }

end TimerSystem

/-- The steps of the system. -/
inductive TimerStep : TimerSystem xlen → TimerSystem xlen → Prop
  | tick {system : TimerSystem xlen} {mtime : Nat}
      (later : system.mtime ≤ mtime) :
      TimerStep system { system with mtime }
  /-- Kernel and firmware write other bits of the registers of a hart. -/
  | other {system : TimerSystem xlen} {hart : Nat} {csr : TimerCsr → Word xlen}
      (mtie : (csr .MIE).getLsbD 7 = (system.harts hart).MTIE)
      (stip : (csr .MIP).getLsbD 5 = (system.harts hart).STIP) :
      TimerStep system (system.setHart hart { system.harts hart with csr })
  /-- `HARTCMD_STARTHART`; from then on `stimecmp` is used if it was found. -/
  | start {system : TimerSystem xlen} {hart : Nat} {found : Bool}
      (outside : (system.harts hart).handler = none) :
      TimerStep system
        (system.setHart hart
          { csr := Function.update
              (Function.update (system.harts hart).csr .MIE 0x02A) .MIP
              ((system.harts hart).csr .MIP &&& ~~~0xFFF)
            hart_using_ext_sstc :=
              (system.harts hart).hart_using_ext_sstc || found
            call := none
            handler := none
            completed := none
            returned := none })
  | call {system : TimerSystem xlen} {hart : Nat} {stime_value : BitVec 64}
      (idle : (system.harts hart).call = none)
      (outside : (system.harts hart).handler = none) :
      TimerStep system
        (system.setHart hart
          { system.harts hart with call := some ⟨stime_value, 0⟩ })
  | write {system : TimerSystem xlen} {hart : Nat} {call : TimerCall}
      {made : TimerWrite xlen}
      (outside : (system.harts hart).handler = none)
      (running : (system.harts hart).call = some call)
      (next : (system.code hart call)[call.done]? = some made) :
      TimerStep system (system.writeCall hart call made)
  | return {system : TimerSystem xlen} {hart : Nat} {call : TimerCall}
      (outside : (system.harts hart).handler = none)
      (running : (system.harts hart).call = some call)
      (finished : call.done = (system.code hart call).length) :
      TimerStep system
        (system.setHart hart
          { system.harts hart with
            call := none
            returned := some call.stime_value })
  | interrupt {system : TimerSystem xlen} {hart : Nat}
      (outside : (system.harts hart).handler = none)
      (enabled : (system.harts hart).MTIE = true)
      (due : (system.mtimecmp hart).toNat ≤ system.mtime) :
      TimerStep system
        (system.setHart hart { system.harts hart with handler := some 0 })
  | writeHandler {system : TimerSystem xlen} {hart done : Nat}
      {made : TimerWrite xlen}
      (running : (system.harts hart).handler = some done)
      (next :
        (machine_timer_interrupt xlen
          (system.harts hart).hart_using_ext_sstc)[done]? = some made) :
      TimerStep system (system.writeHandler hart done made)
  | leaveHandler {system : TimerSystem xlen} {hart done : Nat}
      (running : (system.harts hart).handler = some done)
      (finished :
        done = (machine_timer_interrupt xlen
          (system.harts hart).hart_using_ext_sstc).length) :
      TimerStep system
        (system.setHart hart { system.harts hart with handler := none })

/-! ## The bits -/

section Bits

variable (value : Word xlen)

theorem getLsbD_clear_MTIE : (value &&& ~~~0x80).getLsbD 7 = false := by
  have cleared : (~~~0x80 : Word xlen).getLsbD 7 = false := by
    cases xlen <;> decide
  rw [BitVec.getLsbD_and, cleared, Bool.and_false]

theorem getLsbD_clear_STIP : (value &&& ~~~0x20).getLsbD 5 = false := by
  have cleared : (~~~0x20 : Word xlen).getLsbD 5 = false := by
    cases xlen <;> decide
  rw [BitVec.getLsbD_and, cleared, Bool.and_false]

theorem getLsbD_set_MTIE : (value ||| 0x80).getLsbD 7 = true := by
  have set : (0x80 : Word xlen).getLsbD 7 = true := by
    cases xlen <;> decide
  rw [BitVec.getLsbD_or, set, Bool.or_true]

theorem getLsbD_set_STIP : (value ||| 0x20).getLsbD 5 = true := by
  have set : (0x20 : Word xlen).getLsbD 5 = true := by
    cases xlen <;> decide
  rw [BitVec.getLsbD_or, set, Bool.or_true]

end Bits

/-! ## The invariant -/

/-- The comparator of a hart holds `deadline`.  Its timer is enabled, or has
interrupted it, or the interrupt handler is between the two. -/
structure Waits
    (system : TimerSystem xlen) (hart : Nat) (deadline : BitVec 64) : Prop where
  lower : system.clint (8 * hart) = deadline.setWidth 32
  upper : system.clint (8 * hart + 4) = (deadline >>> 32).setWidth 32
  reached :
    (system.harts hart).STIP = true ∨ (system.harts hart).handler ≠ none →
      deadline.toNat ≤ system.mtime
  outside :
    (system.harts hart).handler = none →
      (system.harts hart).MTIE = !(system.harts hart).STIP
  entered :
    (system.harts hart).handler = some 0 → (system.harts hart).STIP = false
  masked :
    ∀ done, (system.harts hart).handler = some (done + 1) →
      (system.harts hart).MTIE = false ∧
        (system.harts hart).STIP = decide (done = 1)

/-- A call that has turned the timer off, and its writes since.  For 32 bits the
upper word of the comparator holds `0xFFFFFFFF` until the lower one is there. -/
inductive CallStage
    (system : TimerSystem xlen) (hart : Nat) (call : TimerCall) : Prop
  | entered
      (place : call.done = 0)
      (waits :
        ∀ deadline, (system.harts hart).completed = some deadline →
          Waits system hart deadline)
  | masked
      (place : call.done = 1)
      (outside : (system.harts hart).handler = none)
      (mtie : (system.harts hart).MTIE = false)
      (reached :
        ∀ deadline, (system.harts hart).completed = some deadline →
          (system.harts hart).STIP = true → deadline.toNat ≤ system.mtime)
  | cleared
      (place : call.done = 2)
      (outside : (system.harts hart).handler = none)
      (mtie : (system.harts hart).MTIE = false)
      (stip : (system.harts hart).STIP = false)
  | raised
      (width : xlen = .rv32)
      (place : call.done = 3)
      (outside : (system.harts hart).handler = none)
      (mtie : (system.harts hart).MTIE = false)
      (stip : (system.harts hart).STIP = false)
      (upper : system.clint (8 * hart + 4) = 0xFFFFFFFF)
  | lowered
      (width : xlen = .rv32)
      (place : call.done = 4)
      (outside : (system.harts hart).handler = none)
      (mtie : (system.harts hart).MTIE = false)
      (stip : (system.harts hart).STIP = false)
      (upper : system.clint (8 * hart + 4) = 0xFFFFFFFF)
      (lower : system.clint (8 * hart) = call.stime_value.setWidth 32)
  | stored
      (place : call.done + 1 = (system.code hart call).length)
      (outside : (system.harts hart).handler = none)
      (mtie : (system.harts hart).MTIE = false)
      (stip : (system.harts hart).STIP = false)
      (lower : system.clint (8 * hart) = call.stime_value.setWidth 32)
      (upper :
        system.clint (8 * hart + 4) = (call.stime_value >>> 32).setWidth 32)
      (completed : (system.harts hart).completed = some call.stime_value)
  | finished
      (place : call.done = (system.code hart call).length)
      (completed : (system.harts hart).completed = some call.stime_value)
      (waits : Waits system hart call.stime_value)

/-- What holds of a hart that does not use `stimecmp`, in every reachable state. -/
structure TimerKept (system : TimerSystem xlen) (hart : Nat) : Prop where
  idle :
    (system.harts hart).call = none →
      (system.harts hart).completed = (system.harts hart).returned ∧
        ∀ deadline, (system.harts hart).completed = some deadline →
          Waits system hart deadline
  running :
    ∀ call, (system.harts hart).call = some call → CallStage system hart call

section Kept

variable {system next : TimerSystem xlen} {hart : Nat}

/-- The timer of a hart is as it was, at most later. -/
structure SameTimer (system next : TimerSystem xlen) (hart : Nat) : Prop where
  mtie : (next.harts hart).MTIE = (system.harts hart).MTIE
  stip : (next.harts hart).STIP = (system.harts hart).STIP
  handler : (next.harts hart).handler = (system.harts hart).handler
  lower : next.clint (8 * hart) = system.clint (8 * hart)
  upper : next.clint (8 * hart + 4) = system.clint (8 * hart + 4)
  mtime : system.mtime ≤ next.mtime

/-- What a step of another hart, or of the clock, leaves as it is. -/
structure Unmoved (system next : TimerSystem xlen) (hart : Nat) : Prop
    extends SameTimer system next hart where
  sstc :
    (next.harts hart).hart_using_ext_sstc =
      (system.harts hart).hart_using_ext_sstc
  call : (next.harts hart).call = (system.harts hart).call
  completed : (next.harts hart).completed = (system.harts hart).completed
  returned : (next.harts hart).returned = (system.harts hart).returned

theorem Waits.of_sameTimer
    {deadline : BitVec 64}
    (waits : Waits system hart deadline)
    (same : SameTimer system next hart) :
    Waits next hart deadline := by
  refine ⟨?_, ?_, ?_, ?_, ?_, ?_⟩
  · rw [same.lower, waits.lower]
  · rw [same.upper, waits.upper]
  · rw [same.stip, same.handler]
    exact fun due => (waits.reached due).trans same.mtime
  · rw [same.handler, same.mtie, same.stip]
    exact waits.outside
  · rw [same.handler, same.stip]
    exact waits.entered
  · rw [same.handler, same.mtie, same.stip]
    exact waits.masked

theorem CallStage.of_unmoved
    {call : TimerCall}
    (stage : CallStage system hart call)
    (unmoved : Unmoved system next hart) :
    CallStage next hart call := by
  have code : next.code hart call = system.code hart call := by
    rw [TimerSystem.code, unmoved.sstc, ← TimerSystem.code]
  cases stage with
  | entered place waits =>
      refine .entered place fun deadline written => ?_
      rw [unmoved.completed] at written
      exact (waits deadline written).of_sameTimer unmoved.toSameTimer
  | masked place outside mtie reached =>
      refine .masked place (unmoved.handler ▸ outside) (unmoved.mtie ▸ mtie) ?_
      intro deadline written stip
      rw [unmoved.completed] at written
      rw [unmoved.stip] at stip
      exact (reached deadline written stip).trans unmoved.mtime
  | cleared place outside mtie stip =>
      exact .cleared place (unmoved.handler ▸ outside) (unmoved.mtie ▸ mtie)
        (unmoved.stip ▸ stip)
  | raised width place outside mtie stip upper =>
      exact .raised width place (unmoved.handler ▸ outside) (unmoved.mtie ▸ mtie)
        (unmoved.stip ▸ stip) (unmoved.upper ▸ upper)
  | lowered width place outside mtie stip upper lower =>
      exact .lowered width place (unmoved.handler ▸ outside) (unmoved.mtie ▸ mtie)
        (unmoved.stip ▸ stip) (unmoved.upper ▸ upper) (unmoved.lower ▸ lower)
  | stored place outside mtie stip lower upper completed =>
      exact .stored (code ▸ place) (unmoved.handler ▸ outside)
        (unmoved.mtie ▸ mtie) (unmoved.stip ▸ stip) (unmoved.lower ▸ lower)
        (unmoved.upper ▸ upper) (unmoved.completed ▸ completed)
  | finished place completed waits =>
      exact .finished (code ▸ place) (unmoved.completed ▸ completed)
        (waits.of_sameTimer unmoved.toSameTimer)

theorem TimerKept.of_unmoved
    (kept : TimerKept system hart)
    (unmoved : Unmoved system next hart) :
    TimerKept next hart := by
  constructor
  · rw [unmoved.call, unmoved.completed, unmoved.returned]
    intro idle
    obtain ⟨same, waits⟩ := kept.idle idle
    exact ⟨same, fun deadline written =>
      (waits deadline written).of_sameTimer unmoved.toSameTimer⟩
  · rw [unmoved.call]
    exact fun call running => (kept.running call running).of_unmoved unmoved

/-! ### Other harts -/

/-- A hart writes to its own comparator only. -/
theorem onClint_other
    {made : TimerWrite xlen}
    {other : Nat}
    {call : TimerCall}
    (written : made ∈ system.code other call)
    (apart : hart ≠ other) :
    made.onClint system.clint (8 * hart) = system.clint (8 * hart) ∧
      made.onClint system.clint (8 * hart + 4) = system.clint (8 * hart + 4) := by
  cases made with
  | store32 offset value =>
      have own : offset = 8 * other ∨ offset = 8 * other + 4 := by
        unfold TimerSystem.code sbi_set_timer at written
        cases xlen <;> split_ifs at written <;> simp at written
        omega
      simp only [TimerWrite.onClint]
      constructor <;> rw [Function.update_of_ne (by omega)]
  | store64 offset value =>
      have own : offset = 8 * other := by
        unfold TimerSystem.code sbi_set_timer at written
        cases xlen <;> split_ifs at written <;> simp at written
        omega
      simp only [TimerWrite.onClint]
      constructor <;>
        rw [Function.update_of_ne (by omega), Function.update_of_ne (by omega)]
  | CSR_WRITE csr value => exact ⟨rfl, rfl⟩
  | CSR_BITSET csr mask => exact ⟨rfl, rfl⟩
  | CSR_BITCLR csr mask => exact ⟨rfl, rfl⟩

/-- The interrupt handler does not write to a comparator. -/
theorem onClint_handler
    {made : TimerWrite xlen}
    {sstc : Bool}
    (written : made ∈ machine_timer_interrupt xlen sstc) :
    made.onClint system.clint = system.clint := by
  unfold machine_timer_interrupt at written
  split_ifs at written
  · cases written
  · rw [List.mem_pair] at written
    rcases written with rfl | rfl <;> rfl

/-- What changes another hart only. -/
theorem unmoved_setHart
    {other : Nat}
    {value : TimerHart xlen}
    {clint : Nat → BitVec 32}
    (apart : hart ≠ other)
    (lower : clint (8 * hart) = system.clint (8 * hart))
    (upper : clint (8 * hart + 4) = system.clint (8 * hart + 4)) :
    Unmoved system { system.setHart other value with clint } hart := by
  have same :
      ({ system.setHart other value with clint } : TimerSystem xlen).harts hart =
        system.harts hart :=
    Function.update_of_ne apart _ _
  refine ⟨⟨?_, ?_, ?_, lower, upper, Nat.le_refl _⟩, ?_, ?_, ?_, ?_⟩ <;> rw [same]

/-! ### The writes of a call -/

theorem code_rv64
    {system : TimerSystem .rv64}
    (unused : (system.harts hart).hart_using_ext_sstc = false)
    (call : TimerCall) :
    system.code hart call =
      [.CSR_BITCLR .MIE 0x80,
        .CSR_BITCLR .MIP 0x20,
        .store64 (8 * hart) call.stime_value,
        .CSR_BITSET .MIE 0x80] := by
  simp [TimerSystem.code, sbi_set_timer, unused]

theorem setWidth_and_mask
    (value : BitVec 64) :
    (value &&& 0xFFFFFFFF).setWidth 32 = value.setWidth 32 := by
  apply BitVec.eq_of_toNat_eq
  have mask : (0xFFFFFFFF : BitVec 64).toNat = 2 ^ 32 - 1 := rfl
  rw [BitVec.toNat_setWidth, BitVec.toNat_setWidth, BitVec.toNat_and, mask,
    Nat.and_two_pow_sub_one_eq_mod, Nat.mod_mod]

theorem code_rv32
    {system : TimerSystem .rv32}
    (unused : (system.harts hart).hart_using_ext_sstc = false)
    (call : TimerCall) :
    system.code hart call =
      [.CSR_BITCLR .MIE 0x80,
        .CSR_BITCLR .MIP 0x20,
        .store32 (8 * hart + 4) 0xFFFFFFFF,
        .store32 (8 * hart) (call.stime_value.setWidth 32),
        .store32 (8 * hart + 4) ((call.stime_value >>> 32).setWidth 32),
        .CSR_BITSET .MIE 0x80] := by
  have place : 4 * (hart * 2) = 8 * hart := by omega
  simp only [TimerSystem.code, sbi_set_timer, unused, place, setWidth_and_mask,
    BitVec.ushiftRight_zero]
  rfl

/-- A write that is not to a comparator does not complete a deadline. -/
theorem completion_of_not_isStore
    {call : TimerCall}
    {made : TimerWrite xlen}
    (register : made.isStore = false) :
    system.completion hart call made = (system.harts hart).completed := by
  rw [TimerSystem.completion, register, Bool.false_and, if_neg Bool.false_ne_true]

/-- The hart behind a write of its call. -/
@[simp] theorem harts_writeCall
    (call : TimerCall)
    (made : TimerWrite xlen) :
    (system.writeCall hart call made).harts hart =
      { system.harts hart with
        csr := made.onCsr (system.harts hart).csr
        call := some { call with done := call.done + 1 }
        completed := system.completion hart call made } :=
  Function.update_self ..

/-- A write leaves the code of its call. -/
theorem code_writeCall
    (call : TimerCall)
    (made : TimerWrite xlen)
    (done : Nat) :
    (system.writeCall hart call made).code hart { call with done } =
      system.code hart call := by
  rw [TimerSystem.code, harts_writeCall, TimerSystem.code]

theorem code_length
    (unused : (system.harts hart).hart_using_ext_sstc = false)
    (call : TimerCall) :
    (system.code hart call).length = 4 ∨ (system.code hart call).length = 6 := by
  cases xlen with
  | rv32 =>
      right
      rw [code_rv32 unused]
      rfl
  | rv64 =>
      left
      rw [code_rv64 unused]
      rfl

/-- A call first turns the timer off and takes the interrupt back, and in the end
turns the timer on. -/
theorem code_ends
    (unused : (system.harts hart).hart_using_ext_sstc = false)
    (call : TimerCall) :
    (system.code hart call)[0]? = some (.CSR_BITCLR .MIE 0x80) ∧
      (system.code hart call)[1]? = some (.CSR_BITCLR .MIP 0x20) ∧
      ∀ place, place + 1 = (system.code hart call).length →
        (system.code hart call)[place]? = some (.CSR_BITSET .MIE 0x80) := by
  cases xlen with
  | rv32 =>
      rw [code_rv32 unused]
      refine ⟨rfl, rfl, fun place last => ?_⟩
      obtain rfl : place = 5 := by simpa using last
      rfl
  | rv64 =>
      rw [code_rv64 unused]
      refine ⟨rfl, rfl, fun place last => ?_⟩
      obtain rfl : place = 3 := by simpa using last
      rfl

/-- The writes of a call take it from stage to stage. -/
theorem CallStage.write
    {call : TimerCall}
    {made : TimerWrite xlen}
    (stage : CallStage system hart call)
    (unused : (system.harts hart).hart_using_ext_sstc = false)
    (outside : (system.harts hart).handler = none)
    (next : (system.code hart call)[call.done]? = some made) :
    CallStage (system.writeCall hart call made) hart
      { call with done := call.done + 1 } := by
  obtain ⟨first, second, last⟩ := code_ends unused call
  cases stage with
  | entered place waits =>
      rw [place, first] at next
      cases next
      refine .masked (by rw [place]) ?_ ?_ ?_
      · rw [harts_writeCall]
        exact outside
      · rw [harts_writeCall]
        exact getLsbD_clear_MTIE _
      · rw [harts_writeCall, completion_of_not_isStore rfl]
        intro deadline written stip
        exact (waits deadline written).reached (.inl stip)
  | masked place _ mtie reached =>
      rw [place, second] at next
      cases next
      refine .cleared (by rw [place]) ?_ ?_ ?_
      · rw [harts_writeCall]
        exact outside
      · rw [harts_writeCall]
        exact mtie
      · rw [harts_writeCall]
        exact getLsbD_clear_STIP _
  | cleared place _ mtie stip =>
      cases xlen with
      | rv32 =>
          rw [code_rv32 unused, place] at next
          cases next
          refine .raised rfl (by rw [place]) ?_ ?_ ?_ ?_
          · rw [harts_writeCall]
            exact outside
          · rw [harts_writeCall]
            exact mtie
          · rw [harts_writeCall]
            exact stip
          · exact Function.update_self ..
      | rv64 =>
          rw [code_rv64 unused, place] at next
          cases next
          refine .stored ?_ ?_ ?_ ?_ ?_ ?_ ?_
          · rw [code_writeCall, code_rv64 unused, place]
            rfl
          · rw [harts_writeCall]
            exact outside
          · rw [harts_writeCall]
            exact mtie
          · rw [harts_writeCall]
            exact stip
          · exact (Function.update_of_ne (by omega) _ _).trans
              (Function.update_self ..)
          · exact Function.update_self ..
          · rw [harts_writeCall, TimerSystem.completion, code_rv64 unused, place]
            rfl
  | raised width place _ mtie stip upper =>
      subst width
      rw [code_rv32 unused, place] at next
      cases next
      refine .lowered rfl (by rw [place]) ?_ ?_ ?_ ?_ ?_
      · rw [harts_writeCall]
        exact outside
      · rw [harts_writeCall]
        exact mtie
      · rw [harts_writeCall]
        exact stip
      · exact (Function.update_of_ne (by omega) _ _).trans upper
      · exact Function.update_self ..
  | lowered width place _ mtie stip upper lower =>
      subst width
      rw [code_rv32 unused, place] at next
      cases next
      refine .stored ?_ ?_ ?_ ?_ ?_ ?_ ?_
      · rw [code_writeCall, code_rv32 unused, place]
        rfl
      · rw [harts_writeCall]
        exact outside
      · rw [harts_writeCall]
        exact mtie
      · rw [harts_writeCall]
        exact stip
      · exact (Function.update_of_ne (by omega) _ _).trans lower
      · exact Function.update_self ..
      · rw [harts_writeCall, TimerSystem.completion, code_rv32 unused, place]
        rfl
  | stored place _ mtie stip lower upper completed =>
      rw [last _ place] at next
      cases next
      have raised :
          ((system.writeCall hart call (.CSR_BITSET .MIE 0x80)).harts hart).STIP =
            false := by
        rw [harts_writeCall]
        exact stip
      have settled :
          ((system.writeCall hart call (.CSR_BITSET .MIE 0x80)).harts hart).handler =
            none := by
        rw [harts_writeCall]
        exact outside
      refine .finished ?_ ?_ ⟨lower, upper, ?_, ?_, ?_, ?_⟩
      · rw [code_writeCall]
        exact place
      · rw [harts_writeCall, completion_of_not_isStore rfl]
        exact completed
      · rw [raised, settled]
        simp
      · intro _
        rw [raised, harts_writeCall]
        exact getLsbD_set_MTIE _
      · rw [raised]
        exact fun _ => rfl
      · rw [settled]
        nofun
  | finished place completed waits =>
      rw [place, List.getElem?_eq_none (Nat.le_refl _)] at next
      cases next

/-! ### The interrupt -/

/-- The hart behind a write of its handler. -/
theorem harts_writeHandler
    (done : Nat)
    (made : TimerWrite xlen) :
    (system.writeHandler hart done made).harts hart =
      { system.harts hart with
        csr := made.onCsr (system.harts hart).csr
        handler := some (done + 1) } :=
  Function.update_self ..

/-- A hart whose timer waits goes through the handler. -/
theorem Waits.writeHandler
    {deadline : BitVec 64}
    {done : Nat}
    {made : TimerWrite xlen}
    (waits : Waits system hart deadline)
    (unused : (system.harts hart).hart_using_ext_sstc = false)
    (running : (system.harts hart).handler = some done)
    (next : (machine_timer_interrupt xlen
      (system.harts hart).hart_using_ext_sstc)[done]? = some made) :
    Waits (system.writeHandler hart done made) hart deadline := by
  have clint : made.onClint system.clint = system.clint :=
    onClint_handler (List.mem_of_getElem? next)
  rw [machine_timer_interrupt, unused, if_neg Bool.false_ne_true] at next
  have reached : deadline.toNat ≤ system.mtime :=
    waits.reached (.inr (by rw [running]; nofun))
  refine ⟨?_, ?_, fun _ => reached, ?_, ?_, ?_⟩
  · exact (congrFun clint _).trans waits.lower
  · exact (congrFun clint _).trans waits.upper
  · rw [harts_writeHandler]
    nofun
  · rw [harts_writeHandler]
    nofun
  · intro place
    rw [harts_writeHandler]
    rintro ⟨⟩
    match done, next with
    | 0, next =>
        cases next
        exact ⟨getLsbD_clear_MTIE _, waits.entered running⟩
    | 1, next =>
        cases next
        exact ⟨(waits.masked 0 running).1, getLsbD_set_STIP _⟩

/-- A hart whose timer waits enters the handler. -/
theorem Waits.interrupt
    {deadline : BitVec 64}
    (waits : Waits system hart deadline)
    (outside : (system.harts hart).handler = none)
    (enabled : (system.harts hart).MTIE = true)
    (due : (system.mtimecmp hart).toNat ≤ system.mtime) :
    Waits (system.setHart hart { system.harts hart with handler := some 0 }) hart
      deadline := by
  have cleared : (system.harts hart).STIP = false := by
    have one := waits.outside outside
    rw [enabled] at one
    simpa using one.symm
  have holds : system.mtimecmp hart = deadline := by
    rw [TimerSystem.mtimecmp, waits.lower, waits.upper]
    ext bit inside
    simp only [BitVec.getElem_append]
    split_ifs with low
    · simp [BitVec.getLsbD_eq_getElem inside]
    · simp [Nat.add_sub_cancel' (Nat.le_of_not_lt low),
        BitVec.getLsbD_eq_getElem inside]
  have same :
      (system.setHart hart { system.harts hart with handler := some 0 }).harts hart =
        { system.harts hart with handler := some 0 } :=
    Function.update_self ..
  rw [holds] at due
  refine ⟨waits.lower, waits.upper, fun _ => due, ?_, ?_, ?_⟩
  · rw [same]
    nofun
  · rw [same]
    exact fun _ => cleared
  · rw [same]
    nofun

/-- A hart whose timer waits leaves the handler with the interrupt raised. -/
theorem Waits.leaveHandler
    {deadline : BitVec 64}
    {done : Nat}
    (waits : Waits system hart deadline)
    (unused : (system.harts hart).hart_using_ext_sstc = false)
    (running : (system.harts hart).handler = some done)
    (finished :
      done = (machine_timer_interrupt xlen
        (system.harts hart).hart_using_ext_sstc).length) :
    Waits (system.setHart hart { system.harts hart with handler := none }) hart
      deadline := by
  have same :
      (system.setHart hart { system.harts hart with handler := none }).harts hart =
        { system.harts hart with handler := none } :=
    Function.update_self ..
  rw [machine_timer_interrupt, unused, if_neg Bool.false_ne_true] at finished
  subst finished
  obtain ⟨mtie, stip⟩ := waits.masked 1 running
  have reached : deadline.toNat ≤ system.mtime :=
    waits.reached (.inr (by rw [running]; nofun))
  refine ⟨waits.lower, waits.upper, fun _ => reached, ?_, ?_, ?_⟩
  · rw [same]
    exact fun _ => mtie.trans (by rw [TimerHart.STIP] at stip ⊢; rw [stip]; rfl)
  · rw [same]
    nofun
  · rw [same]
    nofun

/-- What the interrupt does keeps the invariant, as no call is between its
writes then. -/
theorem TimerKept.of_waits
    (kept : TimerKept system hart)
    (waits : ∀ deadline, Waits system hart deadline → Waits next hart deadline)
    (able :
      (system.harts hart).MTIE = true ∨ (system.harts hart).handler ≠ none)
    (sstc :
      (next.harts hart).hart_using_ext_sstc =
        (system.harts hart).hart_using_ext_sstc)
    (call : (next.harts hart).call = (system.harts hart).call)
    (completed : (next.harts hart).completed = (system.harts hart).completed)
    (returned : (next.harts hart).returned = (system.harts hart).returned) :
    TimerKept next hart := by
  constructor
  · rw [call, completed, returned]
    intro idle
    obtain ⟨same, waiting⟩ := kept.idle idle
    exact ⟨same, fun deadline written => waits _ (waiting deadline written)⟩
  · rw [call]
    intro running busy
    have unable
        (outside : (system.harts hart).handler = none)
        (mtie : (system.harts hart).MTIE = false) : False := by
      rcases able with enabled | entered
      · exact Bool.false_ne_true (mtie.symm.trans enabled)
      · exact entered outside
    cases kept.running running busy with
    | entered place waiting =>
        refine .entered place fun deadline written => ?_
        rw [completed] at written
        exact waits _ (waiting deadline written)
    | masked _ outside mtie _ => exact (unable outside mtie).elim
    | cleared _ outside mtie _ => exact (unable outside mtie).elim
    | raised _ _ outside mtie _ _ => exact (unable outside mtie).elim
    | lowered _ _ outside mtie _ _ _ => exact (unable outside mtie).elim
    | stored _ outside mtie _ _ _ _ => exact (unable outside mtie).elim
    | finished place written waiting =>
        refine .finished ?_ (completed ▸ written) (waits _ waiting)
        rw [TimerSystem.code, sstc]
        exact place

/-- A call that has made all its writes. -/
theorem CallStage.of_finished
    {call : TimerCall}
    (stage : CallStage system hart call)
    (unused : (system.harts hart).hart_using_ext_sstc = false)
    (finished : call.done = (system.code hart call).length) :
    (system.harts hart).completed = some call.stime_value ∧
      Waits system hart call.stime_value := by
  have length := code_length unused call
  cases stage with
  | entered place _ => omega
  | masked place _ _ _ => omega
  | cleared place _ _ _ => omega
  | raised _ place _ _ _ _ => omega
  | lowered width place _ _ _ _ _ =>
      subst width
      rw [code_rv32 unused] at finished
      rw [place] at finished
      cases finished
  | stored place _ _ _ _ _ _ => omega
  | finished _ completed waits => exact ⟨completed, waits⟩

/-! ### Runs -/

/-- A step of another hart keeps the invariant. -/
theorem TimerKept.of_apart
    (kept :
      (system.harts hart).hart_using_ext_sstc = false → TimerKept system hart)
    (unmoved : Unmoved system next hart)
    (unused : (next.harts hart).hart_using_ext_sstc = false) :
    TimerKept next hart :=
  (kept (unmoved.sstc ▸ unused)).of_unmoved unmoved

/-- What one step keeps of a hart that does not use `stimecmp`. -/
theorem TimerKept.step
    (taken : TimerStep system next)
    (kept :
      (system.harts hart).hart_using_ext_sstc = false → TimerKept system hart)
    (unused : (next.harts hart).hart_using_ext_sstc = false) :
    TimerKept next hart := by
  -- the hart that moves has the record written, any other one is as before
  have setHart_self (value : TimerHart xlen) :
      (system.setHart hart value).harts hart = value :=
    Function.update_self ..
  cases taken with
  | tick later =>
      exact (kept unused).of_unmoved
        ⟨⟨rfl, rfl, rfl, rfl, rfl, later⟩, rfl, rfl, rfl, rfl⟩
  | @other other csr mtie stip =>
      by_cases apart : hart = other
      · subst apart
        rw [setHart_self] at unused
        refine (kept unused).of_unmoved
          ⟨⟨?_, ?_, ?_, rfl, rfl, Nat.le_refl _⟩, ?_, ?_, ?_, ?_⟩ <;>
          rw [setHart_self]
        · exact mtie
        · exact stip
      · exact of_apart kept (unmoved_setHart apart rfl rfl) unused
  | @start other found outside =>
      by_cases apart : hart = other
      · subst apart
        constructor
        · rw [setHart_self]
          exact fun _ => ⟨rfl, nofun⟩
        · rw [setHart_self]
          nofun
      · exact of_apart kept (unmoved_setHart apart rfl rfl) unused
  | @call other stime_value idle outside =>
      by_cases apart : hart = other
      · subst apart
        rw [setHart_self] at unused
        obtain ⟨-, waits⟩ := (kept unused).idle idle
        constructor
        · rw [setHart_self]
          nofun
        · intro call running
          rw [setHart_self] at running
          cases running
          refine .entered rfl fun deadline written => ?_
          rw [setHart_self] at written
          refine (waits deadline written).of_sameTimer
            ⟨?_, ?_, ?_, rfl, rfl, Nat.le_refl _⟩ <;>
            rw [setHart_self]
          · rfl
          · rfl
      · exact of_apart kept (unmoved_setHart apart rfl rfl) unused
  | @write other call made outside running code =>
      by_cases apart : hart = other
      · subst apart
        rw [harts_writeCall] at unused
        constructor
        · rw [harts_writeCall]
          nofun
        · rw [harts_writeCall]
          rintro _ ⟨⟩
          exact ((kept unused).running call running).write unused outside code
      · obtain ⟨lower, upper⟩ :=
          onClint_other (List.mem_of_getElem? code) apart
        exact of_apart kept (unmoved_setHart apart lower upper) unused
  | @«return» other call outside running finished =>
      by_cases apart : hart = other
      · subst apart
        rw [setHart_self] at unused
        obtain ⟨completed, waits⟩ :=
          ((kept unused).running call running).of_finished unused finished
        constructor
        · rw [setHart_self]
          refine fun _ => ⟨completed, fun deadline written => ?_⟩
          obtain rfl : call.stime_value = deadline :=
            Option.some.inj (completed.symm.trans written)
          refine waits.of_sameTimer ⟨?_, ?_, ?_, rfl, rfl, Nat.le_refl _⟩ <;>
            rw [setHart_self]
          · rfl
          · rfl
        · rw [setHart_self]
          nofun
      · exact of_apart kept (unmoved_setHart apart rfl rfl) unused
  | @interrupt other outside enabled due =>
      by_cases apart : hart = other
      · subst apart
        rw [setHart_self] at unused
        refine (kept unused).of_waits
          (fun deadline waits => waits.interrupt outside enabled due)
          (.inl enabled) ?_ ?_ ?_ ?_ <;> rw [setHart_self]
      · exact of_apart kept (unmoved_setHart apart rfl rfl) unused
  | @writeHandler other done made running code =>
      by_cases apart : hart = other
      · subst apart
        rw [harts_writeHandler] at unused
        refine (kept unused).of_waits
          (fun deadline waits => waits.writeHandler unused running code)
          (.inr (by rw [running]; nofun)) ?_ ?_ ?_ ?_ <;> rw [harts_writeHandler]
      · have clint : made.onClint system.clint = system.clint :=
          onClint_handler (List.mem_of_getElem? code)
        exact of_apart kept
          (unmoved_setHart apart (congrFun clint _) (congrFun clint _)) unused
  | @leaveHandler other done running finished =>
      by_cases apart : hart = other
      · subst apart
        rw [setHart_self] at unused
        refine (kept unused).of_waits
          (fun deadline waits => waits.leaveHandler unused running finished)
          (.inr (by rw [running]; nofun)) ?_ ?_ ?_ ?_ <;> rw [setHart_self]
      · exact of_apart kept (unmoved_setHart apart rfl rfl) unused

/-- A call of a hart is between the first and the last of its writes to the
comparator. -/
def BetweenStores
    (system : TimerSystem xlen) (hart : Nat) (call : TimerCall) : Prop :=
  ((system.code hart call).take call.done).any TimerWrite.isStore = true ∧
    ((system.code hart call).drop call.done).any TimerWrite.isStore = true

/-- While the comparator holds neither the old nor the new deadline, its upper
word is `0xFFFFFFFF`. -/
theorem CallStage.upper_of_betweenStores
    {call : TimerCall}
    (stage : CallStage system hart call)
    (unused : (system.harts hart).hart_using_ext_sstc = false)
    (between : BetweenStores system hart call) :
    system.clint (8 * hart + 4) = 0xFFFFFFFF := by
  obtain ⟨before, behind⟩ := between
  have early
      (place : call.done ≤ 2) : False := by
    have none_yet : ((system.code hart call).take 2).any TimerWrite.isStore = false := by
      cases xlen with
      | rv32 => rw [code_rv32 unused]; rfl
      | rv64 => rw [code_rv64 unused]; rfl
    obtain ⟨made, taken, store⟩ := List.any_eq_true.mp before
    have inside := List.take_subset_take_left (system.code hart call) place taken
    exact List.any_eq_false.mp none_yet made inside store
  have late
      (place : (system.code hart call).length ≤ call.done + 1) : False := by
    have none_left :
        ((system.code hart call).drop
          ((system.code hart call).length - 1)).any TimerWrite.isStore = false := by
      cases xlen with
      | rv32 => rw [code_rv32 unused]; rfl
      | rv64 => rw [code_rv64 unused]; rfl
    obtain ⟨made, left, store⟩ := List.any_eq_true.mp behind
    have order : (system.code hart call).length - 1 ≤ call.done := by omega
    have inside := List.drop_subset_drop_left (system.code hart call) order left
    exact List.any_eq_false.mp none_left made inside store
  cases stage with
  | entered place _ => exact (early (by omega)).elim
  | masked place _ _ _ => exact (early (by omega)).elim
  | cleared place _ _ _ => exact (early (by omega)).elim
  | raised _ _ _ _ _ upper => exact upper
  | lowered _ _ _ _ _ upper _ => exact upper
  | stored place _ _ _ _ _ _ => exact (late (by omega)).elim
  | finished place _ _ => exact (late (by omega)).elim

/-- An upper word of `0xFFFFFFFF` is not reached before the last `2^32` ticks. -/
theorem le_mtimecmp_of_upper
    (upper : system.clint (8 * hart + 4) = 0xFFFFFFFF) :
    0xFFFFFFFF00000000 ≤ (system.mtimecmp hart).toNat := by
  rw [TimerSystem.mtimecmp, upper, BitVec.toNat_append]
  exact Nat.left_le_or

end Kept

/-- No hart is inside the timer code, or has made a call since it was started. -/
def TimerSystem.Initial (system : TimerSystem xlen) : Prop :=
  ∀ hart, (system.harts hart).call = none ∧
    (system.harts hart).handler = none ∧
    (system.harts hart).completed = none ∧
    (system.harts hart).returned = none

/-- The invariant holds of each hart that does not use `stimecmp`. -/
theorem timerKept_of_run
    {first system : TimerSystem xlen}
    (initial : first.Initial)
    (run : Relation.ReflTransGen TimerStep first system)
    (hart : Nat)
    (unused : (system.harts hart).hart_using_ext_sstc = false) :
    TimerKept system hart := by
  induction run with
  | refl =>
      obtain ⟨call, -, completed, returned⟩ := initial hart
      constructor
      · rw [completed, returned]
        exact fun _ => ⟨rfl, nofun⟩
      · rw [call]
        nofun
  | tail _ taken inductionHypothesis =>
      exact TimerKept.step taken inductionHypothesis unused

/-- From the first call of a hart until it is started again, exactly one of the
timer's enable bit and the interrupt of the kernel is set outside the timer code;
the interrupt of the kernel is set only when the deadline that is complete has
been reached; and before the last `2^32` ticks no `mtime` reaches a value that
the comparator holds between its writes. -/
theorem timer_protocol
    {first system : TimerSystem xlen}
    (initial : first.Initial)
    (run : Relation.ReflTransGen TimerStep first system)
    (hart : Nat)
    (unused : (system.harts hart).hart_using_ext_sstc = false) :
    (∀ deadline,
      (system.harts hart).returned = some deadline →
      (system.harts hart).call = none →
      (system.harts hart).handler = none →
        (system.harts hart).MTIE = !(system.harts hart).STIP ∧
          (system.harts hart).completed = some deadline) ∧
    (∀ deadline,
      (system.harts hart).completed = some deadline →
      (system.harts hart).STIP = true →
        deadline.toNat ≤ system.mtime) ∧
    ∀ call,
      (system.harts hart).call = some call →
      BetweenStores system hart call →
        ∀ mtime < 0xFFFFFFFF00000000,
          mtime < (system.mtimecmp hart).toNat := by
  have kept := timerKept_of_run initial run hart unused
  refine ⟨?_, ?_, ?_⟩
  · intro deadline returned idle outside
    obtain ⟨same, waits⟩ := kept.idle idle
    have completed := same.trans returned
    exact ⟨(waits deadline completed).outside outside, completed⟩
  · intro deadline completed stip
    cases call : (system.harts hart).call with
    | none => exact ((kept.idle call).2 deadline completed).reached (.inl stip)
    | some running =>
        cases kept.running running call with
        | entered _ waits => exact (waits deadline completed).reached (.inl stip)
        | masked _ _ _ reached => exact reached deadline completed stip
        | cleared _ _ _ cleared => cases cleared.symm.trans stip
        | raised _ _ _ _ cleared _ => cases cleared.symm.trans stip
        | lowered _ _ _ _ cleared _ _ => cases cleared.symm.trans stip
        | stored _ _ _ cleared _ _ _ => cases cleared.symm.trans stip
        | finished _ written waits =>
            obtain rfl : running.stime_value = deadline :=
              Option.some.inj (written.symm.trans completed)
            exact waits.reached (.inl stip)
  · intro call running between mtime early
    have upper :=
      (kept.running call running).upper_of_betweenStores unused between
    exact lt_of_lt_of_le early (le_mtimecmp_of_upper upper)

/-- The first store of the first call of a hart. -/
theorem timer_protocol_first_store :
    ∃ system : TimerSystem .rv32,
      BetweenStores system 0 ⟨5, 3⟩ ∧ 7 < (system.mtimecmp 0).toNat := by
  let first : TimerSystem .rv32 :=
    ⟨fun _ => ⟨fun _ => 0, false, none, none, none, none⟩, fun _ => 0, 0⟩
  have initial : first.Initial := fun _ => ⟨rfl, rfl, rfl, rfl⟩
  have called : TimerStep first _ := @TimerStep.call _ first 0 5 rfl rfl
  have run := Relation.ReflTransGen.single called
    |>.tail (@TimerStep.write .rv32 _ 0 ⟨5, 0⟩ _ rfl rfl rfl)
    |>.tail (@TimerStep.write .rv32 _ 0 ⟨5, 1⟩ _ rfl rfl rfl)
    |>.tail (@TimerStep.write .rv32 _ 0 ⟨5, 2⟩ _ rfl rfl rfl)
  obtain ⟨-, -, between⟩ := timer_protocol initial run 0 rfl
  exact ⟨_, ⟨rfl, rfl⟩, between ⟨5, 3⟩ rfl ⟨rfl, rfl⟩ 7 (by decide)⟩

end Traps
end EchelonSbi
