import EchelonSbi.Harts.Delivery

/-!
# Commands arrive whole and in order

Each step of the harts is a step of the mailbox of each of them, so each run is a
run of it.
-/

namespace EchelonSbi
namespace Harts

open Foundation
open Sbi

section

variable {config : Config} {g : Nat} {system next : System config.xlen}
  {label : Label config.xlen}
  {calls : Nat → List (Op config.xlen) → Prop}

theorem setHart_eq_set
    (h : Nat)
    (hart : HartState config.xlen) :
    system.setHart h hart = system.set h (.silent, hart, system.memory) :=
  rfl

@[simp]
theorem save_main (hart : HartState config.xlen) : hart.save.main = hart.main := by
  unfold HartState.save
  split_ifs <;> rfl

@[simp]
theorem save_base (hart : HartState config.xlen) : hart.save.base = hart.base := by
  unfold HartState.save
  split_ifs <;> rfl

@[simp]
theorem save_command (hart : HartState config.xlen) :
    hart.save.command = hart.command := by
  unfold HartState.save
  split_ifs <;> rfl

/-- A hart changes its code, and the memory stays. -/
theorem Delivery.setHart
    {h : Nat}
    {hart : HartState config.xlen}
    {event : Mailbox.Event Nat (Hart_Command config.xlen)}
    (delivery : Delivery g system)
    (step : Mailbox.Step (mailbox g system) event
      (mailbox g (system.setHart h hart)))
    (main : SendsToEnd g hart.main ∨ hart.main = (system.harts h).main)
    (handler : ∀ ops, hart.handler = some ops →
      EverySuffix HandlerContract ops)
    (reading : ∀ ops, hart.handler = some ops →
      handlerPhase ops = .reading → ops = machineSoftwareInterrupt) :
    Delivery g (system.setHart h hart) := by
  rw [setHart_eq_set] at step ⊢
  refine delivery.set step ?_ handler ?_ (.inl rfl) ?_
  · rcases main with complete | same
    · exact complete.1
    · rw [same]
      exact delivery.main h
  · intro command writes
    rcases main with complete | same
    · cases complete.2.symm.trans writes
    · rw [same] at writes ⊢
      exact delivery.written h command writes
  · intro _ ops code reads
    rw [reading ops code reads]
    exact ⟨List.suffix_refl _, loaded_machineSoftwareInterrupt _ _⟩

/-- An interrupt that is no software interrupt. -/
theorem Delivery.interrupt
    {h : Nat}
    {ops : List (Op config.xlen)}
    (delivery : Delivery g system)
    (idle : (system.harts h).handler = none)
    (code : HandlerFrom .idle ops) :
    Mailbox.Step (mailbox g system) .internal
        (mailbox g (system.setHart h
          { (system.harts h).save with handler := some ops })) ∧
      Delivery g (system.setHart h
        { (system.harts h).save with handler := some ops }) := by
  have moved : Mailbox.Step (mailbox g system) .internal
      (mailbox g (system.setHart h
        { (system.harts h).save with handler := some ops })) := by
    rw [setHart_eq_set]
    refine mailbox_stutters rfl rfl rfl (fun e => ?_) (by simp)
    rw [← e, idle]
    exact code.2
  refine ⟨moved, delivery.setHart moved (.inr (by simp)) ?_ ?_⟩
  · rintro _ ⟨⟩
    exact code.1
  · rintro _ ⟨⟩ reads
    cases code.2.symm.trans reads

/-- The step lemma: each step is a step of the mailbox and keeps the
invariant. -/
theorem Delivery.step
    (complete : ∀ h ops, calls h ops → SendsToEnd g ops)
    (delivery : Delivery g system)
    (step : Step config calls system label next) :
    Mailbox.Step (mailbox g system) (label.mail g) (mailbox g next) ∧
      Delivery g next := by
  cases step with
  | @main h op rest idle code =>
      have contract := delivery.main h
      rw [code] at contract
      have moved := delivery.mainStep idle code
      have still : (exec config h .main rest (system.harts h) system.memory
          op).2.1.handler = none := exec_main_handler idle
      refine ⟨moved, delivery.set moved (exec_main_code contract) ?_ ?_ ?_ ?_⟩
      · intro ops running
        cases still.symm.trans running
      · intro command writes
        refine exec_main_written contract (fun target phase => ?_) writes
        rw [← code] at phase ⊢
        exact delivery.written h target phase
      · rcases exec_main_slot contract with same | writes
        · exact .inl same
        · exact .inr (.inl (by simpa [mailbox, code] using writes))
      · intro _ ops running
        cases still.symm.trans running
  | @handler h op rest code =>
      have contract := delivery.handler h _ code
      have moved := delivery.handlerStep code
      have slot : (exec config h .handler rest (system.harts h) system.memory
            op).2.2.hart_commands g = system.memory.hart_commands g ∨
          (mailbox g system).receiver = .busy := by
        rcases exec_handler_slot contract with same | ⟨own, busy⟩
        · exact .inl same
        · refine .inr ?_
          subst own
          simpa [mailbox, code, receiverPhase] using busy
      refine ⟨moved, delivery.set moved ?_
        (fun ops after => exec_handler_code contract after) ?_
        (slot.imp_right .inr) ?_⟩
      · rcases exec_handler_main with same | dropped
        · rw [same]
          exact delivery.main h
        · rw [dropped]
          trivial
      · intro command writes
        rcases exec_handler_main with same | dropped
        · rw [same] at writes ⊢
          rcases slot with untouched | busy
          · rw [untouched]
            exact delivery.written h command writes
          · have low := delivery.invariant.lowered h command writes
            have up := delivery.invariant.raised (by simp [busy])
            cases low.symm.trans up
        · rw [dropped] at writes
          cases writes
      · intro own ops after reads
        subst own
        obtain ⟨field, rfl, rfl⟩ := exec_handler_reading contract
          (fun before => (delivery.reading _ code before).1) after reads
        obtain ⟨suffix, whole⟩ := delivery.reading _ code reads
        exact ⟨(List.suffix_cons _ _).trans suffix, whole⟩
  | @software_interrupt h idle up =>
      have moved : Mailbox.Step (mailbox g system) .internal
          (mailbox g (system.setHart h
            { (system.harts h).save with
              handler := some machineSoftwareInterrupt })) := by
        rw [setHart_eq_set]
        by_cases own : h = g
        · subst own
          refine (Mailbox.Step.begin_reading (by simp [mailbox, idle, receiverPhase])
            (by simp [mailbox, up])).congr rfl ?_
          rw [mailbox_handler _ _ _ (by simp)]
          simp [mailbox, receiverPhase, HandlerFrom.software.2]
        · exact mailbox_stutters rfl rfl rfl (fun e => absurd e own) (by simp)
      refine ⟨moved, delivery.setHart moved (.inr (by simp)) ?_ ?_⟩
      · rintro ops ⟨⟩
        exact HandlerFrom.software.1
      · rintro ops ⟨⟩ -
        rfl
  | @timer_interrupt h idle low =>
      exact delivery.interrupt idle (.timer config h)
  | @call h ops kernel empty idle allowed =>
      have code := complete h ops allowed
      have moved : Mailbox.Step (mailbox g system) .internal
          (mailbox g (system.setHart h { system.harts h with main := ops })) := by
        rw [setHart_eq_set]
        refine mailbox_stutters rfl rfl rfl (fun e => by rw [e]) ?_
        rw [empty]
        exact code.2
      refine ⟨moved, delivery.setHart moved (.inl code) (delivery.handler h) ?_⟩
      intro ops running
      cases idle.symm.trans running
  | @run h user_context csrs outside idle =>
      have moved : Mailbox.Step (mailbox g system) .internal
          (mailbox g (system.setHart h { system.harts h with
            user_context := user_context, csrs := csrs })) := by
        rw [setHart_eq_set]
        exact mailbox_stutters rfl rfl rfl (fun e => by rw [e]) rfl
      refine ⟨moved, delivery.setHart moved (.inr rfl) (delivery.handler h) ?_⟩
      intro ops running
      cases idle.symm.trans running
  | @exception h cause_value lines raises empty idle =>
      exact delivery.interrupt idle (.exception h cause_value lines)

/-- A hart receives its command at the dispatch. -/
theorem exec_received
    {h : Nat}
    {level : Level}
    {hart : HartState config.xlen}
    {memory : Memory config.xlen}
    {op : Op config.xlen}
    {rest : List (Op config.xlen)}
    {command : Hart_Command config.xlen}
    (received : (exec config h level rest hart memory op).1 = .received command) :
    op = .dispatch ∧ hart.command = command := by
  cases op with
  | dispatch =>
      cases received
      exact ⟨rfl, rfl⟩
  | wait_load lock =>
      simp only [exec] at received
      split_ifs at received
  | wait_swap lock =>
      simp only [exec] at received
      split_ifs at received
      cases lock <;> cases received
  | poll t =>
      simp only [exec] at received
      split_ifs at received
  | check_hart_state t command =>
      simp only [exec] at received
      split_ifs at received
  | _ => cases received

/-- What the mailbox of hart `g` shows as received, hart `g` has received. -/
theorem Label.of_mail_received
    {label : Label config.xlen}
    {command : Hart_Command config.xlen}
    (received : label.mail g = .received command) :
    label.hart = g ∧ label.event = .received command := by
  obtain ⟨h, level, event⟩ := label
  cases event with
  | acquired t =>
      simp only [Label.mail] at received
      split_ifs at received
  | raised t other =>
      simp only [Label.mail] at received
      split_ifs at received
  | received other =>
      simp only [Label.mail] at received
      split_ifs at received with own
      cases received
      exact ⟨own, rfl⟩
  | _ => cases received

theorem Label.of_mail_raised
    {label : Label config.xlen}
    {sender : Nat}
    {command : Hart_Command config.xlen}
    (raised : label.mail g = .raised sender command) :
    label.event = .raised g command := by
  obtain ⟨h, level, event⟩ := label
  cases event with
  | acquired t =>
      simp only [Label.mail] at raised
      split_ifs at raised
  | raised t other =>
      simp only [Label.mail] at raised
      split_ifs at raised with own
      cases raised
      rw [own]
  | received other =>
      simp only [Label.mail] at raised
      split_ifs at raised
  | _ => cases raised

/-- What is unread and what a step sends is what it receives and what stays unread. -/
theorem Delivery.balance
    (complete : ∀ h ops, calls h ops → SendsToEnd g ops)
    (delivery : Delivery g system)
    (step : Step config calls system label next) :
    (mailbox g system).unread ++ (Mailbox.sent [label.mail g]).map Prod.snd =
      Mailbox.receipts [label.mail g] ++ (mailbox g next).unread :=
  (delivery.step complete step).1.unread_balance delivery.invariant

/-- A command that is unread stays so until its hart receives it. -/
theorem Delivery.keeps_unread
    {command : Hart_Command config.xlen}
    (complete : ∀ h ops, calls h ops → SendsToEnd g ops)
    (delivery : Delivery g system)
    (step : Step config calls system label next)
    (unread : (mailbox g system).unread = [command]) :
    (label.hart = g ∧ label.event = .received command) ∨
      (mailbox g next).unread = [command] ∧ ∀ other, label.mail g ≠ .received other := by
  apply ((delivery.step complete step).1.keeps_unread delivery.invariant unread).imp_left
  exact Label.of_mail_received

/-- Code that a hart can be in: an SBI call, or any number of sends. -/
def SendingCode (config : Config) (h : Nat) (ops : List (Op config.xlen)) :
    Prop :=
  sbiCalls config h ops ∨
    ∃ sends : List (Nat × Hart_Command config.xlen),
      ops = sends.flatMap fun send => send_hart_command_que send.1 send.2

theorem SendingCode.complete
    (h : Nat)
    (ops : List (Op config.xlen))
    (code : SendingCode config h ops) :
    SendsToEnd g ops := by
  rcases code with ⟨request, rfl⟩ | ⟨sends, rfl⟩
  · exact .call config.toPlatform h request
  · rw [← List.append_nil (sends.flatMap _)]
    exact flatMap_append_preserves (fun _ _ _ done => done.send) (.nil g)

/-- Nothing has been sent yet: each hart is outside firmware, at the end of
`kmain`, or about to send; no lock is taken and no interrupt pending. -/
structure Unsent (config : Config) (system : System config.xlen) : Prop where
  main : ∀ h, (system.harts h).main = [] ∨
    (∃ stack, (system.harts h).main = kmain config stack) ∨
      SendingCode config h (system.harts h).main
  handler : ∀ h, (system.harts h).handler = none ∨
    (system.harts h).handler = some [.resume]
  locks : ∀ g, system.memory.locks (.hart_command_que_locks g) = 0
  msip : ∀ h, system.memory.clint_msip h = 0

theorem Booted.unsent (booted : Booted config system) :
    Unsent config system := by
  refine ⟨fun h => ?_, fun h => ?_, fun g => booted.locks _, booted.msip⟩
  · by_cases boot : h = 0
    · subst boot
      exact .inr (.inl booted.boot_main)
    · exact .inl (booted.other_main h boot)
  · by_cases boot : h = 0
    · subst boot
      exact .inl booted.boot_handler
    · exact .inr (booted.other_handler h boot)

theorem Unsent.complete
    (unsent : Unsent config system)
    (g h : Nat) :
    SendsToEnd g (system.harts h).main := by
  rcases unsent.main h with empty | ⟨stack, boot⟩ | code
  · rw [empty]
    exact .nil g
  · rw [boot]
    exact .boot config stack
  · exact code.complete h _

theorem Unsent.idle
    (unsent : Unsent config system)
    (h : Nat) :
    receiverPhase (system.harts h).handler = .idle := by
  rcases unsent.handler h with none_ | resumes
  · rw [none_]
    rfl
  · rw [resumes]
    rfl

theorem Unsent.quiet
    (unsent : Unsent config system)
    (g : Nat) :
    Mailbox.Quiet (mailbox g system) :=
  ⟨by simp [mailbox, unsent.locks], by simp [mailbox, unsent.msip],
    fun h => (unsent.complete g h).2, unsent.idle g⟩

theorem Unsent.delivery
    (unsent : Unsent config system)
    (g : Nat) :
    Delivery g system := by
  refine ⟨fun h => (unsent.complete g h).1, fun h ops code => ?_,
    fun h command writes => ?_, fun ops code reads => ?_,
    (unsent.quiet g).invariant⟩
  · rcases unsent.handler h with none_ | resumes
    · cases none_.symm.trans code
    · cases resumes.symm.trans code
      exact HandlerFrom.resume.1
  · cases (unsent.complete g h).2.symm.trans writes
  · have idle := unsent.idle g
    rw [code] at idle
    cases idle.symm.trans reads

/-- The run lemma: a run is a run of the mailbox of each hart. -/
theorem Delivery.run
    {labels : List (Label config.xlen)}
    (complete : ∀ h ops, calls h ops → SendsToEnd g ops)
    (delivery : Delivery g system)
    (run : Run (Step config calls) system labels next) :
    Run Mailbox.Step (mailbox g system) (labels.map (Label.mail g))
        (mailbox g next) ∧
      Delivery g next :=
  run.refines (fun taken before => before.step complete taken) delivery

/-- The commands sent to hart `g`, each with its sender. -/
def sentTo (g : Nat) (labels : List (Label config.xlen)) :
    List (Nat × Hart_Command config.xlen) :=
  Mailbox.sent (labels.map (Label.mail g))

/-- The commands that the handler of hart `g` read. -/
def readBy (g : Nat) (labels : List (Label config.xlen)) :
    List (Hart_Command config.xlen) :=
  Mailbox.receipts (labels.map (Label.mail g))

/-- The senders to hart `g` in the order in which they took
`hart_command_que_locks[g]`. -/
def lockOrder (g : Nat) (labels : List (Label config.xlen)) : List Nat :=
  Mailbox.acquisitions (labels.map (Label.mail g))

/-- The number of steps of the handler of hart `g`. -/
def handlerSteps (g : Nat) (labels : List (Label config.xlen)) : Nat :=
  labels.countP fun label => label.hart = g ∧ label.level = .handler

/-- While the handler reads, a step of it brings it closer to the dispatch, and
no other step keeps it from it. -/
theorem Delivery.reading_step
    {ops : List (Op config.xlen)}
    (delivery : Delivery g system)
    (code : (system.harts g).handler = some ops)
    (reads : handlerPhase ops = .reading)
    (step : Step config calls system label next) :
    (∃ command, label.mail g = .received command) ∨
      ∃ after, (next.harts g).handler = some after ∧
        handlerPhase after = .reading ∧
          after.length + handlerSteps g [label] = ops.length := by
  by_cases own : g = label.hart
  · subst own
    obtain ⟨op, rest, rfl, level, event, rfl⟩ := step.running code
    have member := ((delivery.reading _ code reads).1).subset
      (List.mem_cons_self ..)
    simp only [machineSoftwareInterrupt, List.mem_append, List.mem_map,
      List.mem_singleton] at member
    rcases member with ⟨field, -, rfl⟩ | rfl
    · exact .inr ⟨rest, by simp [set_self, exec], reads,
        by simp [handlerSteps, level]⟩
    · exact .inl ⟨(system.harts label.hart).command,
        by simp [Label.mail, event, exec]⟩
  · exact .inr ⟨ops, by rwa [step.frame own], reads,
      by simp [handlerSteps, Ne.symm own]⟩

end

end Harts
end EchelonSbi
