import EchelonSbi.Memalloc.Completeness

/-!
# The overflow tests of `kmalloc`

The sum of a section's address, its size and the size of the new section may
overflow a register.  The loop of `kmalloc` compares two wrapped sums with the
section's address.  The second sum starts at the end of the section, so the
comparison misses an overflow when the two sizes alone overflow; then the new
section runs past everything behind it.
-/

namespace EchelonSbi
namespace Memalloc

open Foundation

/-- One of the two overflow tests refuses a sum that overflows. -/
def GuardsCatch (xlen : Xlen) (heap : Heap) (size section_ : Nat) : Prop :=
  xlen.size ≤ section_ + size ∨ heap.sizeAt section_ + size < xlen.size

/-- The request is refused at once, or the overflow tests suffice at every
section that the search comes to. -/
def GuardsSuffice (xlen : Xlen) (heap : Heap) (request : Nat) : Prop :=
  (request = 0 ∨ xlen.size ≤ sectionSize xlen request) ∨
    ∀ section_,
      Reaches (kmallocTurn xlen heap (sectionSize xlen request))
        heap.mem_block_start section_ →
      GuardsCatch xlen heap (sectionSize xlen request) section_

/-- Where the section behind `section_` starts, or the block ends. -/
def boundaryBehind (xlen : Xlen) (heap : Heap) (section_ : Nat) : Nat :=
  if heap.nextAt xlen section_ = 0 then heap.mem_block_end
  else heap.nextAt xlen section_

/-- `kmalloc` places the new section behind `section_`. -/
structure TakesBehind
    (xlen : Xlen) (heap : Heap) (request section_ result : Nat)
    (after : Heap) : Prop where
  reached : Reaches (kmallocTurn xlen heap (sectionSize xlen request))
    heap.mem_block_start section_
  leaves : kmallocTurn xlen heap (sectionSize xlen request) section_ =
    .leave (result, after)
  placed : (result, after) =
    placeAfter xlen heap section_ (sectionSize xlen request)
      (heap.nextAt xlen section_)

/-- A new section ends, in unbounded integers, where the next one starts or
before. -/
def EndsBelow (xlen : Xlen) (heap : Heap) (request : Nat) : Prop :=
  ∃ result after, Kmalloc xlen heap request result after ∧
    (result ≠ 0 → ∃ section_,
      TakesBehind xlen heap request section_ result after ∧
        section_ + heap.sizeAt section_ + sectionSize xlen request ≤
          boundaryBehind xlen heap section_)

/-- A new section ends, in unbounded integers, behind the start of the next
one. -/
def Overruns (xlen : Xlen) (heap : Heap) (request : Nat) : Prop :=
  ∃ result after, Kmalloc xlen heap request result after ∧
    ∃ section_, TakesBehind xlen heap request section_ result after ∧
      boundaryBehind xlen heap section_ <
        section_ + heap.sizeAt section_ + sectionSize xlen request

/-- A step in which the overflow tests of `kmalloc` suffice. -/
inductive GuardedStep (xlen : Xlen) :
    HeapState → HeapEvent → HeapState → Prop
  | kmalloc {before after : HeapState} {request result : Nat} :
      HeapStep xlen before (.kmalloc request result) after →
      GuardsSuffice xlen before.heap request →
      GuardedStep xlen before (.kmalloc request result) after
  | kfree {before after : HeapState} {ptr : Nat} :
      HeapStep xlen before (.kfree ptr) after →
      GuardedStep xlen before (.kfree ptr) after
  | write {before after : HeapState} :
      HeapStep xlen before .write after →
      GuardedStep xlen before .write after

section Loop

variable {xlen : Xlen} {heap after : Heap}
  {size request result section_ address low : Nat}
  {chain : List AllocSection}

/-- `kmalloc` refuses at once or enters its loop with the size of the new
section. -/
theorem kmalloc_iff
    (requestFits : request < xlen.size) :
    Kmalloc xlen heap request result after ↔
      if request = 0 ∨ xlen.size ≤ sectionSize xlen request then
        (result, after) = (0, heap)
      else
        Returns (kmallocTurn xlen heap (sectionSize xlen request))
          heap.mem_block_start (result, after) := by
  have refuses := roundRequest_refuses_iff requestFits
  simp only [Kmalloc, kmalloc]
  split
  next refused =>
    rw [if_pos (refuses.mp refused)]
    simp only [Option.some.injEq, exists_const, eq_comm]
  next entered =>
    have accepted := refuses.not.mp entered
    have sectionFits := Nat.lt_of_not_le (not_or.mp accepted).2
    rw [if_neg accepted, roundRequest_add_header sectionFits,
      Xlen.wrap_of_lt sectionFits]
    exact Iff.rfl

/-- The loop goes on to the next section. -/
theorem eq_nextAt_of_again
    {next : Nat}
    (turn : kmallocTurn xlen heap size section_ = .again next) :
    next = heap.nextAt xlen section_ ∧ next ≠ 0 := by
  simp only [kmallocTurn] at turn
  split at turn
  · split at turn
    · cases turn
    · split at turn
      · cases turn
      · split at turn
        · split at turn <;> cases turn
        · split at turn
          · cases turn
          · cases turn
            exact ⟨rfl, by assumption⟩
  · cases turn

/-- The loop stays on the chain. -/
theorem Linked.mem_of_reaches
    (linked : Linked xlen heap address chain)
    (nonempty : chain ≠ [])
    (reached : Reaches (kmallocTurn xlen heap size) address section_) :
    ∃ sect ∈ chain, sect.address = section_ := by
  induction reached generalizing chain with
  | refl =>
      cases chain with
      | nil => exact absurd rfl nonempty
      | cons sect rest => exact ⟨sect, List.mem_cons_self, linked.1.symm⟩
  | again turn _ inductionHypothesis =>
      obtain ⟨rfl, nonzero⟩ := eq_nextAt_of_again turn
      cases chain with
      | nil => exact absurd rfl nonempty
      | cons sect rest =>
          have restNonempty : rest ≠ [] := by
            rintro rfl
            exact nonzero linked.2.2
          obtain ⟨found, inRest, here⟩ :=
            inductionHypothesis linked.2.2 restNonempty
          exact ⟨found, List.mem_cons_of_mem _ inRest, here⟩

/-- What lies behind a section of a chain. -/
theorem Linked.boundary
    (linked : Linked xlen heap address chain)
    (ordered : Ordered xlen heap.mem_block_end low chain)
    {sect : AllocSection}
    (present : sect ∈ chain) :
    sect.stop xlen ≤ boundaryBehind xlen heap sect.address ∧
      boundaryBehind xlen heap sect.address ≤ heap.mem_block_end := by
  induction chain generalizing address low with
  | nil => simp at present
  | cons first rest inductionHypothesis =>
      obtain ⟨rfl, -, restLinked⟩ := linked
      rcases List.mem_cons.mp present with rfl | inRest
      · have stopHigh := ordered.2.low_le_high
        unfold boundaryBehind
        cases rest with
        | nil =>
            rw [if_pos (show _ = 0 from restLinked)]
            exact ⟨stopHigh, le_rfl⟩
        | cons next rest =>
            have above := ordered.2.1
            have bounds := ordered.2.bounds List.mem_cons_self
            have header : 0 < headerSize xlen := by
              cases xlen <;> decide
            rw [restLinked.1]
            unfold AllocSection.stop at *
            split <;> omega
      · exact inductionHypothesis restLinked ordered.2 inRest

/-- Where the chain starts too high for the request, the first test catches
every overflow. -/
theorem Ordered.guarded_of_high
    {high : Nat}
    (ordered : Ordered xlen high low chain)
    (overflows : xlen.size ≤ low + size) :
    Guarded xlen size chain := by
  induction chain generalizing low with
  | nil => trivial
  | cons sect rest inductionHypothesis =>
      obtain ⟨lowBound, restOrdered⟩ := ordered
      have above := sect.address_add_size_le_stop xlen
      have caught : xlen.size ≤ sect.address + size := by omega
      cases rest with
      | nil => exact .inl caught
      | cons next rest =>
          exact ⟨.inl caught, fun _ =>
            inductionHypothesis restOrdered (by omega)⟩

/-- Tests that suffice wherever the search comes suffice on the chain. -/
theorem Linked.guarded
    (linked : Linked xlen heap address chain)
    (ordered : Ordered xlen heap.mem_block_end low chain)
    (fits : heap.mem_block_end < xlen.size)
    (catches : ∀ section_,
      Reaches (kmallocTurn xlen heap size) address section_ →
        GuardsCatch xlen heap size section_) :
    Guarded xlen size chain := by
  induction chain generalizing address low with
  | nil => trivial
  | cons sect rest inductionHypothesis =>
      obtain ⟨rfl, sizeRead, restLinked⟩ := linked
      obtain ⟨lowBound, restOrdered⟩ := ordered
      have head := catches _ (.refl _)
      unfold GuardsCatch at head
      rw [sizeRead] at head
      cases rest with
      | nil => exact head
      | cons next rest =>
          refine ⟨head, fun close => ?_⟩
          have above := sect.address_add_size_le_stop xlen
          by_cases overflows :
              xlen.size ≤ sect.address + sect.size + size
          · exact restOrdered.guarded_of_high (by omega)
          · apply inductionHypothesis restLinked restOrdered
            intro section_ reached
            apply catches section_
            apply Reaches.again ?_ reached
            have nextBounds := restOrdered.bounds List.mem_cons_self
            have nextRead : heap.nextAt xlen sect.address = next.address :=
              restLinked.1
            have header : 0 < headerSize xlen := by
              cases xlen <;> decide
            have stopDef : sect.stop xlen =
              sect.address + max sect.size (headerSize xlen) := rfl
            have nextStop := next.payload_le_stop xlen
            unfold AllocSection.payload at nextStop
            rw [kmallocTurn_of_fits xlen size (by omega)
              (by rw [sizeRead]; omega), sizeRead, nextRead,
              if_neg (by omega), if_neg (by omega)]

/-- A turn that returns a section compared exact sums. -/
theorem placed_of_leave
    (inside : section_ < heap.mem_block_end)
    (exact_ : section_ + heap.sizeAt section_ + size < xlen.size)
    (leaves : kmallocTurn xlen heap size section_ = .leave (result, after))
    (nonzero : result ≠ 0) :
    (result, after) =
        placeAfter xlen heap section_ size (heap.nextAt xlen section_) ∧
      section_ + heap.sizeAt section_ + size ≤
        boundaryBehind xlen heap section_ := by
  rw [kmallocTurn_of_fits xlen size inside exact_] at leaves
  unfold boundaryBehind
  split at leaves
  next last =>
    rw [if_pos last, last]
    split at leaves
    next room => exact ⟨(Turn.leave.inj leaves).symm, room⟩
    next => exact absurd (Prod.mk.inj (Turn.leave.inj leaves)).1.symm nonzero
  next more =>
    rw [if_neg more]
    split at leaves
    next room => exact ⟨(Turn.leave.inj leaves).symm, room⟩
    next => cases leaves

/-- An overflow that both tests miss looks like a small sum, and the section
is placed. -/
theorem kmallocTurn_of_missed
    (inside : section_ < heap.mem_block_end)
    (fits : heap.mem_block_end < xlen.size)
    (sizeFits : size < xlen.size)
    (ends : section_ + heap.sizeAt section_ ≤
      boundaryBehind xlen heap section_)
    (below : boundaryBehind xlen heap section_ ≤ heap.mem_block_end)
    (missed : ¬GuardsCatch xlen heap size section_) :
    kmallocTurn xlen heap size section_ =
      .leave (placeAfter xlen heap section_ size
        (heap.nextAt xlen section_)) := by
  obtain ⟨noOverflow, sizesOverflow⟩ := not_or.mp missed
  have first : xlen.wrap (section_ + size) = section_ + size :=
    Xlen.wrap_of_lt (by omega)
  have second : xlen.wrap (section_ + heap.sizeAt section_) =
      section_ + heap.sizeAt section_ := Xlen.wrap_of_lt (by omega)
  have third : xlen.wrap (section_ + heap.sizeAt section_ + size) =
      section_ + heap.sizeAt section_ + size - xlen.size :=
    Xlen.wrap_of_le (by omega) (by omega)
  simp only [kmallocTurn, first, second, third]
  rw [if_pos inside, if_neg (by omega), if_neg (by omega)]
  unfold boundaryBehind at ends below
  split
  next last =>
    rw [if_pos last] at ends
    rw [if_pos (by omega), last]
  next more =>
    rw [if_neg more] at ends
    rw [if_pos (by omega)]

end Loop

/-! ## Calls -/

namespace HeapShape

variable {xlen : Xlen} {block_start block_end request : Nat}
  {heap : Heap} {live : List Allocation} {chain : List AllocSection}

/-- What the loop reads at a section that it comes to. -/
theorem read_of_reaches
    (shape : HeapShape xlen block_start block_end ⟨heap, live⟩ chain)
    {size section_ : Nat}
    (reached :
      Reaches (kmallocTurn xlen heap size) heap.mem_block_start section_) :
    section_ < block_end ∧
      section_ + heap.sizeAt section_ ≤ boundaryBehind xlen heap section_ ∧
      boundaryBehind xlen heap section_ ≤ block_end := by
  obtain ⟨rfl, rfl, chained, -⟩ := shape
  obtain ⟨sect, present, rfl⟩ :=
    chained.linked.mem_of_reaches chained.nonempty reached
  obtain ⟨stopBelow, boundaryBelow⟩ :=
    chained.linked.boundary chained.ordered present
  have header : 0 < headerSize xlen := by
    cases xlen <;> decide
  have stopDef : sect.stop xlen =
    sect.address + max sect.size (headerSize xlen) := rfl
  rw [chained.linked.size_of_mem present]
  dsimp only at stopBelow boundaryBelow ⊢
  omega

/-- A section that is short enough to fit behind the block needs no test. -/
theorem guardsSuffice
    (shape : HeapShape xlen block_start block_end ⟨heap, live⟩ chain)
    (short : block_end + sectionSize xlen request < xlen.size) :
    GuardsSuffice xlen heap request := by
  refine .inr fun section_ reached => .inr ?_
  obtain ⟨_, ends, below⟩ := shape.read_of_reaches reached
  omega

/-- Where the tests suffice, the chain is guarded. -/
theorem guarded
    (shape : HeapShape xlen block_start block_end ⟨heap, live⟩ chain)
    (fits : block_end < xlen.size)
    (accepted : ¬(request = 0 ∨ xlen.size ≤ sectionSize xlen request))
    (suffice : GuardsSuffice xlen heap request) :
    Guarded xlen (roundRequest xlen request + headerSize xlen) chain := by
  obtain ⟨rfl, rfl, chained, -⟩ := shape
  rw [roundRequest_add_header (Nat.lt_of_not_le (not_or.mp accepted).2)]
  exact chained.linked.guarded chained.ordered fits
    (suffice.resolve_left accepted)

/-- A step keeps the shape where the tests suffice. -/
theorem step
    {before after : HeapState}
    {event : HeapEvent}
    (shape : HeapShape xlen block_start block_end before chain)
    (fits : block_end < xlen.size)
    (taken : GuardedStep xlen before event after) :
    ∃ chain, HeapShape xlen block_start block_end after chain := by
  cases taken with
  | @kmalloc _ request result step suffice =>
      cases step with
      | kmalloc requestFits call =>
          by_cases refused : request = 0 ∨ xlen.size ≤ sectionSize xlen request
          · rw [kmalloc_iff requestFits, if_pos refused] at call
            obtain ⟨rfl, rfl⟩ := Prod.mk.inj call
            exact ⟨chain, shape⟩
          · obtain ⟨taken, kept, -⟩ := shape.kmalloc fits requestFits
              (shape.guarded fits refused suffice) call
            exact ⟨taken, kept⟩
  | kfree step =>
      cases step with
      | kfree ptrFits call => exact ⟨_, shape.kfree fits ptrFits call⟩
  | write step =>
      cases step with
      | write inside => exact ⟨chain, shape.write fits inside⟩

/-- Where the tests suffice, a new section ends below the next one. -/
theorem endsBelow
    (shape : HeapShape xlen block_start block_end ⟨heap, live⟩ chain)
    (fits : block_end < xlen.size)
    (requestFits : request < xlen.size)
    (suffice : GuardsSuffice xlen heap request) :
    EndsBelow xlen heap request := by
  by_cases refused : request = 0 ∨ xlen.size ≤ sectionSize xlen request
  · refine ⟨0, heap, ?_, fun nonzero => absurd rfl nonzero⟩
    rw [kmalloc_iff requestFits, if_pos refused]
  · have guarded := shape.guarded fits refused suffice
    have catches := suffice.resolve_left refused
    have sectionFits := Nat.lt_of_not_le (not_or.mp refused).2
    have chained : Chained xlen heap chain := shape.chained
    obtain ⟨result, after, call, -⟩ := kmalloc_outcome chained
      (by rw [shape.end_eq]; exact fits) request requestFits guarded
    refine ⟨result, after, call, fun nonzero => ?_⟩
    rw [kmalloc_iff requestFits, if_neg refused] at call
    obtain ⟨section_, reached, leaves⟩ := call.exists_reaches
    obtain ⟨inside, endsInside, below⟩ := shape.read_of_reaches reached
    have caught := catches section_ reached
    have endRead : heap.mem_block_end = block_end := shape.end_eq
    by_cases overflows : xlen.size ≤
        section_ + heap.sizeAt section_ + sectionSize xlen request
    · rw [kmallocTurn_of_overflow (by omega) caught (by omega) sectionFits
        overflows] at leaves
      cases leaves
      exact absurd rfl nonzero
    · obtain ⟨placed, ends⟩ := placed_of_leave (by omega) (by omega) leaves
        nonzero
      exact ⟨section_, ⟨reached, leaves, placed⟩, ends⟩

/-- Where the tests do not suffice, the new section overruns the next one. -/
theorem overruns
    (shape : HeapShape xlen block_start block_end ⟨heap, live⟩ chain)
    (fits : block_end < xlen.size)
    (requestFits : request < xlen.size)
    (insufficient : ¬GuardsSuffice xlen heap request) :
    Overruns xlen heap request := by
  obtain ⟨accepted, missed⟩ := not_or.mp insufficient
  obtain ⟨section_, missed⟩ := not_forall.mp missed
  obtain ⟨reached, missed⟩ := Classical.not_imp.mp missed
  obtain ⟨inside, endsInside, below⟩ := shape.read_of_reaches reached
  have sectionFits := Nat.lt_of_not_le (not_or.mp accepted).2
  have endRead : heap.mem_block_end = block_end := shape.end_eq
  have leaves := kmallocTurn_of_missed (by omega) (by omega) sectionFits
    endsInside (by omega) missed
  refine ⟨_, _, (kmalloc_iff requestFits).mpr ?_, section_,
    ⟨reached, leaves, rfl⟩, ?_⟩
  · rw [if_neg accepted]
    exact .of_reaches reached leaves
  · unfold GuardsCatch at missed
    omega

end HeapShape

/-- Completeness of the overflow tests over runs on a block at any address.  As
long as the tests suffice at the sections that the search comes to, they do
not let a new section run past the next one; at the first request where they
do not suffice, it does. -/
theorem kmalloc_guards_complete
    {xlen : Xlen}
    {block_start block_end : Nat}
    (accepted : kallocinitAccepts xlen block_start block_end)
    (fits : block_end < xlen.size)
    {heap : Heap}
    {events : List HeapEvent}
    {state : HeapState}
    (run : Run (GuardedStep xlen)
      ⟨kallocinit xlen heap block_start block_end, []⟩ events state)
    {request : Nat}
    (requestFits : request < xlen.size) :
    (GuardsSuffice xlen state.heap request →
        EndsBelow xlen state.heap request) ∧
      (¬GuardsSuffice xlen state.heap request →
        Overruns xlen state.heap request) := by
  have shaped : ∃ chain, HeapShape xlen block_start block_end state chain := by
    apply run.invariant ?_ ⟨_, .initial heap accepted fits⟩
    rintro before event after taken ⟨chain, shape⟩
    exact shape.step fits taken
  obtain ⟨chain, shape⟩ := shaped
  exact ⟨shape.endsBelow fits requestFits, shape.overruns fits requestFits⟩

/-- After a request, its free and a request of nearly 8 KiB, the tests suffice for a
short request and do not for one that reaches the end of the register range. -/
theorem kmalloc_guards_complete_reused :
    ∃ first freed second,
      Kmalloc .rv32 (kallocinit .rv32 ⟨0, 0, fun _ => 0⟩ 0x1000 0x10000) 8 0x1008 first ∧
      Kfree .rv32 first 0x1008 freed ∧ Kmalloc .rv32 freed 0x1FF8 0x1008 second ∧
      EndsBelow .rv32 second 0x10 ∧ Overruns .rv32 second 0xFFFFDFF8 := by
  have accepted : kallocinitAccepts .rv32 0x1000 0x10000 := ⟨by decide, by decide⟩
  have fits : 0x10000 < Xlen.rv32.size := by decide
  obtain ⟨first, freed, second, firstCall, free, secondCall, start, size⟩ :
      ∃ first freed second,
        Kmalloc .rv32 (kallocinit .rv32 ⟨0, 0, fun _ => 0⟩ 0x1000 0x10000) 8 0x1008 first ∧
        Kfree .rv32 first 0x1008 freed ∧ Kmalloc .rv32 freed 0x1FF8 0x1008 second ∧
        second.mem_block_start = 0x1000 ∧ second.sizeAt 0x1000 = 0x2000 :=
    ⟨_, _, _, ⟨1, rfl⟩, ⟨2, rfl⟩, ⟨1, rfl⟩, rfl, rfl⟩
  refine ⟨first, freed, second, firstCall, free, secondCall, ?_⟩
  have initially := HeapShape.initial ⟨0, 0, fun _ => 0⟩ accepted fits
  have firstStep : GuardedStep .rv32 ⟨_, []⟩ (.kmalloc 8 0x1008) _ :=
    .kmalloc (.kmalloc (by decide) firstCall) (initially.guardsSuffice (by decide))
  obtain ⟨_, afterFirst⟩ := initially.step fits firstStep
  have freeStep : GuardedStep .rv32 ⟨first, [⟨0x1008, 8⟩]⟩ (.kfree 0x1008) _ :=
    .kfree (.kfree (by decide) free)
  obtain ⟨_, afterFree⟩ := afterFirst.step fits freeStep
  have secondStep : GuardedStep .rv32 ⟨freed, []⟩ (.kmalloc 0x1FF8 0x1008) _ :=
    .kmalloc (.kmalloc (by decide) secondCall) (afterFree.guardsSuffice (by decide))
  obtain ⟨_, afterSecond⟩ := afterFree.step fits secondStep
  have run := ((Run.single firstStep).snoc freeStep).snoc secondStep
  constructor
  · exact (kmalloc_guards_complete accepted fits run (by decide)).1
      (afterSecond.guardsSuffice (by decide))
  · refine (kmalloc_guards_complete accepted fits run (by decide)).2 ?_
    rintro (refused | catches)
    · exact absurd refused (by decide)
    · have caught := catches 0x1000 (by rw [start]; exact .refl _)
      rw [GuardsCatch, size] at caught
      exact absurd caught (by decide)

/-- Behind a section of 8 KiB a request that ends 8 KiB below the top of the
register range is placed, although it reaches past the end of the block. -/
theorem kmalloc_guards_miss :
    ¬∀ (heap : Heap) (events : List HeapEvent) (state : HeapState),
      Run (HeapStep .rv32) ⟨kallocinit .rv32 heap 0x1000 0x10000, []⟩ events
        state →
      ∀ request < Xlen.rv32.size, EndsBelow .rv32 state.heap request := by
  intro claimed
  have first : Kmalloc .rv32
      (kallocinit .rv32 ⟨0, 0, fun _ => 0⟩ 0x1000 0x10000) 0x1FF8 0x1008 _ :=
    ⟨1, rfl⟩
  obtain ⟨result, after, call, ends⟩ := claimed _ _ _
    (.single (.kmalloc (by decide) first)) 0xFFFFDFF8 (by decide)
  cases call.unique (⟨1, rfl⟩ : Kmalloc _ _ _ 0x3008 _)
  obtain ⟨section_, behind, below⟩ := ends (by decide)
  cases behind.reached with
  | refl => exact absurd below (by decide)
  | again turn _ =>
      obtain ⟨rfl, more⟩ := eq_nextAt_of_again turn
      exact absurd rfl more

end Memalloc
end EchelonSbi
