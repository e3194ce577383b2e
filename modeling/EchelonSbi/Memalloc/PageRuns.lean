import EchelonSbi.Memalloc.PageReturn

/-!
# Giving pages back, over whole runs

In every run of the page allocator each live page can be given back and a page
handed out again, unless `mem_page_next_free` is 0.  It becomes 0 when the last
page of the capacity is the last one of its group, and stays 0 from then on.
-/

namespace EchelonSbi
namespace Memalloc

open Foundation

/-- The allocator, and the pages that were handed out and not given back. -/
structure TableState where
  table : PageTable
  live : List Nat

/-- A call on the allocator. -/
inductive TableStep (xlen : Xlen) :
    TableState → PageEvent → TableState → Prop
  | kalloc_page {table after : PageTable} {live : List Nat} {result : Nat}
      (call : table.kalloc_page xlen = (result, after)) :
      TableStep xlen ⟨table, live⟩ (.kalloc_page result)
        ⟨after, if result = 0 then live else result :: live⟩
  | kfree_page {table : PageTable} {live : List Nat} {ptr : Nat}
      (isLive : ptr ∈ live) :
      TableStep xlen ⟨table, live⟩ (.kfree_page ptr)
        ⟨table.kfree_page xlen ptr, live.erase ptr⟩

namespace PageTable

/-- The capacity is reached, or the next page of the allocator has an
address. -/
def Addressed (xlen : Xlen) (table : PageTable) : Prop :=
  table.mem_page_next_free = table.mem_page_max_length ∨
    table.mem_page_start + table.mem_page_next_free * PAGE_SIZE < xlen.size

/-- Giving a page back is counted, and afterwards there is a page to hand
out. -/
def GivesBack (xlen : Xlen) (table : PageTable) (ptr : Nat) : Prop :=
  (table.kfree_page xlen ptr).mem_page_num_allocated + 1 =
      table.mem_page_num_allocated ∧
    ((table.kfree_page xlen ptr).kalloc_page xlen).1 ≠ 0

end PageTable

open PageTable

/-- A step in which `kalloc_page` returns no page without an address. -/
def AddressedTableStep
    (xlen : Xlen)
    (before : TableState) (event : PageEvent) (after : TableState) : Prop :=
  TableStep xlen before event after ∧
    ∀ result, event = .kalloc_page result → before.table.Addressed xlen

/-! ## The invariant -/

/-- The allocator serves its callers and counts the live pages. -/
structure InService (xlen : Xlen) (state : TableState) : Prop where
  serving : Serving xlen state.table
  ledger : PageLedger state.table.mem_page_start (HandedOut xlen state.table)
    (Open (state.table.links xlen) state.table.mem_page_length)
    state.live state.table.mem_page_num_allocated

/-- The allocator has no next page any more. -/
structure OutOfService (xlen : Xlen) (state : TableState) : Prop where
  spent : Spent xlen state.table
  live_below : ∀ page ∈ state.live,
    (page - state.table.mem_page_start) / PAGE_SIZE <
      state.table.mem_page_length

namespace InService

variable {xlen : Xlen} {table after : PageTable} {live : List Nat}

/-- Pages that were handed out have addresses. -/
theorem pageAt_eq
    (inService : InService xlen ⟨table, live⟩)
    {i : Nat}
    (handed : HandedOut xlen table i) :
    pageAt xlen table.mem_page_start i =
      table.mem_page_start + i * PAGE_SIZE :=
  Xlen.wrap_of_lt (inService.serving.addressed i handed.1 handed.2)

/-- The number of live pages fits into a register. -/
theorem count_fits
    (inService : InService xlen ⟨table, live⟩) :
    table.mem_page_num_allocated + 1 < xlen.size := by
  have few := inService.ledger.count_le fun i handed => handed.1
  have small := inService.serving.length_lt_size
  dsimp only at few small
  omega

/-- A page that is handed out joins the live pages. -/
theorem handOut
    {n : Nat}
    {links head : Nat → Nat}
    {length : Nat}
    (inService : InService xlen ⟨table, live⟩)
    (becomes : Becomes xlen table after links head length
      (xlen.wrap (table.mem_page_num_allocated + 1)))
    (serving : Serving xlen after)
    (isOpen : Open (table.links xlen) table.mem_page_length n)
    (laterIff : ∀ j, HandedOut xlen after j ↔ HandedOut xlen table j ∨ j = n)
    (openIff : ∀ j, HandedOut xlen after j →
      (Open (after.links xlen) after.mem_page_length j ↔
        Open (table.links xlen) table.mem_page_length j ∧ j ≠ n)) :
    InService xlen
      ⟨after, (table.mem_page_start + n * PAGE_SIZE) :: live⟩ := by
  have ledger := inService.ledger.handOut (fun _ => isOpen) laterIff openIff
  have counted := becomes.num_eq
  rw [Xlen.wrap_of_lt inService.count_fits] at counted
  refine ⟨serving, ?_⟩
  rw [becomes.start_eq, counted]
  exact ledger

/-- Handing out a page that was given back. -/
theorem kalloc_page_reuses
    (inService : InService xlen ⟨table, live⟩)
    (reused : table.mem_page_next_free < table.mem_page_length) :
    ∃ after,
      table.kalloc_page xlen =
        (table.mem_page_start + table.mem_page_next_free * PAGE_SIZE, after) ∧
      InService xlen ⟨after,
        (table.mem_page_start + table.mem_page_next_free * PAGE_SIZE) ::
          live⟩ := by
  have serving : Serving xlen table := inService.serving
  have isOpen := serving.next_open
  have handed : HandedOut xlen table table.mem_page_next_free :=
    ⟨reused, Serving.place_of_open isOpen⟩
  obtain ⟨after, returns, becomes⟩ := PageTable.kalloc_page_reuse serving reused
  obtain ⟨kept, openIff⟩ := serving.reuse reused becomes
  rw [inService.pageAt_eq handed] at returns
  refine ⟨after, returns, inService.handOut becomes kept isOpen ?_
    fun j _ => openIff j⟩
  intro j
  rw [HandedOut, HandedOut, becomes.length_eq]
  constructor
  · exact .inl
  · rintro (before | rfl)
    · exact before
    · exact handed

/-- Handing out the page at the frontier: the allocator serves on, or is
spent. -/
theorem kalloc_page_extends
    (inService : InService xlen ⟨table, live⟩)
    (atFrontier : table.mem_page_next_free = table.mem_page_length)
    (room : table.mem_page_length ≠ table.mem_page_max_length)
    (fits : table.mem_page_start + table.mem_page_length * PAGE_SIZE <
      xlen.size) :
    ∃ after,
      table.kalloc_page xlen =
        (table.mem_page_start + table.mem_page_length * PAGE_SIZE, after) ∧
      (InService xlen ⟨after,
          (table.mem_page_start + table.mem_page_length * PAGE_SIZE) ::
            live⟩ ∨
        OutOfService xlen ⟨after,
          (table.mem_page_start + table.mem_page_length * PAGE_SIZE) ::
            live⟩) := by
  have serving : Serving xlen table := inService.serving
  have place := serving.place
  have openIff := serving.open_iff_of_atFrontier atFrontier
  have frontierOpen := (openIff _).mpr rfl
  have page : pageAt xlen table.mem_page_start table.mem_page_length =
      table.mem_page_start + table.mem_page_length * PAGE_SIZE :=
    Xlen.wrap_of_lt fits
  by_cases inside : (table.mem_page_length + 1) % pageEntries xlen ≠ 0
  · obtain ⟨after, returns, becomes⟩ :=
      PageTable.kalloc_page_grow serving atFrontier room inside
    obtain ⟨kept, laterOpen⟩ :=
      serving.grow atFrontier room inside fits becomes
    rw [page] at returns
    refine ⟨after, returns, .inl (inService.handOut becomes kept frontierOpen
      (fun j => ?_) fun j handed => ?_)⟩
    · rw [HandedOut, HandedOut, becomes.length_eq]
      constructor
      · rintro ⟨below, jPlace⟩
        rcases Nat.lt_succ_iff_lt_or_eq.mp below with before | here
        · exact .inl ⟨before, jPlace⟩
        · exact .inr here
      · rintro (⟨below, jPlace⟩ | rfl)
        · exact ⟨by omega, jPlace⟩
        · exact ⟨by omega, place⟩
    · have below := handed.1
      rw [becomes.length_eq] at below
      rw [laterOpen, openIff]
      omega
  · have last := not_not.mp inside
    by_cases ends : table.mem_page_length + 1 = table.mem_page_max_length
    · obtain ⟨after, returns, becomes⟩ :=
        PageTable.kalloc_page_last serving atFrontier last ends
      rw [page] at returns
      refine ⟨after, returns, .inr ⟨serving.spent atFrontier becomes,
        fun ptr isLive => ?_⟩⟩
      rw [becomes.start_eq, becomes.length_eq]
      obtain ⟨i, below, rfl⟩ : ∃ i < table.mem_page_length + 1,
          ptr = table.mem_page_start + i * PAGE_SIZE := by
        rcases List.mem_cons.mp isLive with rfl | before
        · exact ⟨_, Nat.lt_succ_self _, rfl⟩
        · obtain ⟨i, handed, -, rfl⟩ :=
            (inService.ledger.live_iff ptr).mp before
          exact ⟨i, Nat.lt_succ_of_lt handed.1, rfl⟩
      rwa [Nat.add_sub_cancel_left, Nat.mul_div_cancel _ (by decide)]
    · obtain ⟨after, links, returns, becomes, first, handedOut, earlier,
        cleared⟩ := kalloc_page_next_group serving atFrontier room last ends
      obtain ⟨kept, laterOpen⟩ := serving.nextGroup atFrontier room last ends
        fits becomes first handedOut earlier cleared
      rw [page] at returns
      refine ⟨after, returns, .inl (inService.handOut becomes kept
        frontierOpen (fun j => ?_) fun j handed => ?_)⟩
      · rw [HandedOut, HandedOut, becomes.length_eq]
        constructor
        · rintro ⟨below, jPlace⟩
          rcases Nat.lt_trichotomy j table.mem_page_length with
            before | here | behind
          · exact .inl ⟨before, jPlace⟩
          · exact .inr here
          · obtain rfl : j = table.mem_page_length + 1 := by omega
            exact absurd last jPlace
        · rintro (⟨below, jPlace⟩ | rfl)
          · exact ⟨by omega, jPlace⟩
          · exact ⟨by omega, place⟩
      · have below := handed.1
        rw [becomes.length_eq] at below
        rw [laterOpen, openIff]
        omega

/-- A call of `kalloc_page` without a free page. -/
theorem kalloc_page_fails
    (inService : InService xlen ⟨table, live⟩)
    (atFrontier : table.mem_page_next_free = table.mem_page_length)
    (full : table.mem_page_length = table.mem_page_max_length) :
    ∃ after,
      table.kalloc_page xlen = (0, after) ∧ InService xlen ⟨after, live⟩ := by
  have serving : Serving xlen table := inService.serving
  obtain ⟨after, returns, becomes⟩ :=
    PageTable.kalloc_page_full serving atFrontier full
  obtain ⟨start_eq, max_eq, links_eq, head_eq, length_eq, num_eq⟩ := becomes
  refine ⟨after, returns, ⟨?_, ?_, ?_, ?_, ?_, ?_, ?_⟩, ?_⟩
  · rw [start_eq]
    exact serving.aligned
  · rw [links_eq, length_eq]
    exact serving.threaded
  · rw [length_eq]
    exact serving.place
  · rw [links_eq, length_eq, head_eq]
    exact serving.heads
  · rw [links_eq, length_eq]
    exact serving.fresh
  · rw [length_eq, max_eq]
    exact serving.bounded
  · rw [start_eq, length_eq]
    exact serving.addressed
  · have same : HandedOut xlen after = HandedOut xlen table := by
      funext i
      rw [HandedOut, HandedOut, length_eq]
    dsimp only
    rw [start_eq, links_eq, length_eq, num_eq, same]
    exact inService.ledger

/-- Giving a live page back. -/
theorem kfree_page
    {ptr : Nat}
    (inService : InService xlen ⟨table, live⟩)
    (isLive : ptr ∈ live) :
    InService xlen ⟨table.kfree_page xlen ptr, live.erase ptr⟩ ∧
      (table.kfree_page xlen ptr).mem_page_num_allocated + 1 =
        table.mem_page_num_allocated ∧
      (table.kfree_page xlen ptr).mem_page_next_free <
        (table.kfree_page xlen ptr).mem_page_length := by
  have serving : Serving xlen table := inService.serving
  have fits := inService.count_fits
  have counted : table.mem_page_num_allocated = live.length :=
    inService.ledger.counted
  have some_ := List.length_pos_of_mem isLive
  obtain ⟨i, handed, closed, rfl⟩ := (inService.ledger.live_iff ptr).mp isLive
  obtain ⟨below, place⟩ := id handed
  have positive : 0 < i := Nat.pos_of_ne_zero fun zero => by
    rw [zero, Nat.zero_mod] at place
    exact place rfl
  have taken : table.links xlen i = 1 :=
    Serving.taken_of_not_open positive below.le closed
  obtain ⟨final, gives⟩ :=
    PageTable.kfree_page_gives serving place below taken
  obtain ⟨kept, openIff⟩ := serving.give positive below taken gives
  have becomes := gives.becomes
  change InService xlen
    ⟨table.kfree_page xlen (table.mem_page_start + i * PAGE_SIZE),
      live.erase (table.mem_page_start + i * PAGE_SIZE)⟩ ∧ _
  generalize table.kfree_page xlen (table.mem_page_start + i * PAGE_SIZE) =
    after at kept openIff becomes ⊢
  have numLess : after.mem_page_num_allocated =
      table.mem_page_num_allocated - 1 := by
    rw [becomes.num_eq, Xlen.wrap_of_le (by omega) (by omega)]
    omega
  have same : HandedOut xlen after = HandedOut xlen table := by
    funext j
    rw [HandedOut, HandedOut, becomes.length_eq]
  refine ⟨⟨kept, ?_⟩, by omega, ?_⟩
  · dsimp only
    rw [becomes.start_eq, same, numLess]
    exact inService.ledger.takeBack handed closed fun j _ => openIff j
  · have := kept.next_le ((openIff i).mpr (.inr rfl))
    have := becomes.length_eq
    dsimp only at below
    omega

end InService

namespace OutOfService

variable {xlen : Xlen} {table : PageTable} {live : List Nat}

/-- Without a next page `kalloc_page` fails. -/
theorem kalloc_page_fails
    (outOfService : OutOfService xlen ⟨table, live⟩) :
    table.kalloc_page xlen = (0, table) := by
  unfold PageTable.kalloc_page
  exact if_pos outOfService.spent.next_free

/-- Without a next page `kfree_page` drops the page. -/
theorem kfree_page_drops
    {ptr : Nat}
    (outOfService : OutOfService xlen ⟨table, live⟩)
    (isLive : ptr ∈ live) :
    table.kfree_page xlen ptr = table := by
  obtain ⟨⟨next_free, heads⟩, live_below⟩ := outOfService
  have below := live_below ptr isLive
  dsimp only at next_free heads below
  have empty : ∀ group ≤ (ptr - table.mem_page_start) / PAGE_SIZE /
      pageEntries xlen, table.head xlen group = 0 := by
    intro group within
    have large := pageEntries_gt xlen
    have multiple := (Nat.le_div_iff_mul_le (by omega)).mp within
    have zero := heads (group * pageEntries xlen) (by omega)
    rwa [Nat.mul_div_cancel _ (by omega)] at zero
  have noFirst := empty _ le_rfl
  unfold PageTable.kfree_page
  by_cases refused : ptr = 0 ∨ ptr % PAGE_SIZE ≠ 0 ∨
      ptr ≤ table.mem_page_start
  · rw [if_pos refused]
  rw [if_neg refused]
  by_cases first : (ptr - table.mem_page_start) / PAGE_SIZE = 0
  · simp only [first, if_true]
  · simp only [first, next_free, Nat.not_lt_zero, if_false, entry_zero,
      noFirst, ne_eq, not_true_eq_false, false_and]
    exact linkFromEarlierSection_of_empty table fun group before =>
      empty group before.le

end OutOfService

/-- The invariant of the runs of the allocator. -/
def TableInvariant (xlen : Xlen) (state : TableState) : Prop :=
  InService xlen state ∨ OutOfService xlen state

/-- The step lemma. -/
theorem TableInvariant.step
    {xlen : Xlen}
    {before after : TableState}
    {event : PageEvent}
    (invariant : TableInvariant xlen before)
    (taken : AddressedTableStep xlen before event after) :
    TableInvariant xlen after := by
  obtain ⟨step, addressed⟩ := taken
  cases step with
  | @kalloc_page table after live result call =>
      rcases invariant with inService | outOfService
      · have serving : Serving xlen table := inService.serving
        obtain ⟨nextPositive, nextWithin, -⟩ := serving.next_open
        have nonzero {i : Nat} (positive : 0 < i) :
            table.mem_page_start + i * PAGE_SIZE ≠ 0 := by
          unfold PAGE_SIZE
          omega
        rcases Nat.lt_or_eq_of_le nextWithin with reused | atFrontier
        · obtain ⟨other, returns, kept⟩ := inService.kalloc_page_reuses reused
          obtain ⟨rfl, rfl⟩ := Prod.mk.inj (call.symm.trans returns)
          rw [if_neg (nonzero nextPositive)]
          exact .inl kept
        by_cases full : table.mem_page_length = table.mem_page_max_length
        · obtain ⟨other, returns, kept⟩ :=
            inService.kalloc_page_fails atFrontier full
          obtain ⟨rfl, rfl⟩ := Prod.mk.inj (call.symm.trans returns)
          exact .inl kept
        · have fits : Addressed xlen table := addressed _ rfl
          rw [Addressed, atFrontier] at fits
          obtain ⟨other, returns, kept⟩ := inService.kalloc_page_extends
            atFrontier full (fits.resolve_left full)
          obtain ⟨rfl, rfl⟩ := Prod.mk.inj (call.symm.trans returns)
          rw [if_neg (nonzero serving.threaded.positive)]
          exact kept
      · obtain ⟨rfl, rfl⟩ :=
          Prod.mk.inj (call.symm.trans outOfService.kalloc_page_fails)
        exact .inr outOfService
  | kfree_page isLive =>
      rcases invariant with inService | outOfService
      · exact .inl (inService.kfree_page isLive).1
      · rw [outOfService.kfree_page_drops isLive]
        exact .inr ⟨outOfService.spent, fun page still =>
          outOfService.live_below page (List.mem_of_mem_erase still)⟩

/-- Giving a live page back works exactly if the allocator is in service. -/
theorem TableInvariant.givesBack_iff
    {xlen : Xlen}
    {state : TableState}
    {ptr : Nat}
    (invariant : TableInvariant xlen state)
    (isLive : ptr ∈ state.live) :
    GivesBack xlen state.table ptr ↔ state.table.mem_page_next_free ≠ 0 := by
  rcases invariant with inService | outOfService
  · have next := inService.serving.next_open.1
    obtain ⟨kept, counted, reused⟩ := inService.kfree_page isLive
    obtain ⟨after, returns, -⟩ := kept.kalloc_page_reuses reused
    have nextPositive := kept.serving.next_open.1
    refine iff_of_true ⟨counted, ?_⟩ next.ne'
    rw [returns]
    unfold PAGE_SIZE
    dsimp only at nextPositive ⊢
    omega
  · refine iff_of_false (fun gives => ?_) (not_not.mpr
      outOfService.spent.next_free)
    have counted := gives.1
    rw [outOfService.kfree_page_drops isLive] at counted
    omega

/-! ## Whole runs -/

/-- What `kalloc_pageinit` leaves. -/
theorem kalloc_pageinit_spec
    (xlen : Xlen)
    (table : PageTable)
    (block_start capacity : Nat) :
    let init := table.kalloc_pageinit xlen block_start capacity
    init.mem_page_start = pageBlockStart xlen block_start ∧
      init.mem_page_num_allocated = 0 ∧
      init.mem_page_next_free = 1 ∧
      init.mem_page_length = 1 ∧
      init.mem_page_max_length = capacity ∧
      init.head xlen 0 = 1 ∧
      ∀ i, 0 < i → i < pageEntries xlen → init.links xlen i = 0 := by
  have large := pageEntries_gt xlen
  rw [PageTable.kalloc_pageinit]
  generalize prepared : PageTable.setEntry xlen _ 0 0 1 = opened
  obtain ⟨sameHead, cleared⟩ := clearEntries_spec xlen
    (by decide : 0 < 1) (by omega : 1 + (pageEntries xlen - 1) ≤
      pageEntries xlen) opened 0
  obtain ⟨start_eq, num_eq, next_eq, length_eq, max_eq⟩ :=
    @clearEntries_fields xlen opened 0 (pageEntries xlen - 1) 1
  dsimp only
  rw [start_eq, num_eq, next_eq, length_eq, max_eq, sameHead, ← prepared]
  refine ⟨rfl, rfl, rfl, rfl, rfl, ?_, fun i positive inGroup => ?_⟩
  · rw [head_setEntry_zero, Function.update_self]
  · rw [prepared, cleared, if_pos (by omega)]

/-- A block that was just set up, for any capacity that counts the page with
the metadata, has no live page and its frontier at page 1. -/
theorem inService_kalloc_pageinit
    {xlen : Xlen}
    {capacity : Nat}
    (positive : 1 ≤ capacity)
    (table : PageTable)
    (block_start : Nat) :
    InService xlen
      ⟨table.kalloc_pageinit xlen block_start capacity, []⟩ := by
  have large := pageEntries_gt xlen
  obtain ⟨start_eq, num_eq, next_eq, length_eq, max_eq, head_eq, cleared⟩ :=
    kalloc_pageinit_spec xlen table block_start capacity
  generalize table.kalloc_pageinit xlen block_start capacity = init at *
  have firstGroup : 1 / pageEntries xlen = 0 :=
    Nat.div_eq_of_lt (by omega)
  have firstPlace : 1 % pageEntries xlen = 1 :=
    Nat.mod_eq_of_lt (by omega)
  have free : init.links xlen 1 ≠ 1 := by
    rw [cleared 1 (by decide) (by omega)]
    decide
  have noPage (i : Nat) : ¬HandedOut xlen init i := by
    rintro ⟨below, place⟩
    rw [length_eq, Nat.lt_one_iff] at below
    rw [below, Nat.zero_mod] at place
    exact place rfl
  refine ⟨⟨?_, ?_, ?_, fun group within => ?_, fun i behind inGroup => ?_,
    ?_, fun i below place => absurd ⟨below, place⟩ (noPage i)⟩,
    .nil, fun page => ?_, num_eq⟩
  · rw [start_eq]
    exact pageBlockStart_aligned xlen block_start
  · rw [length_eq]
    exact Threaded.of_single (by decide) next_eq free
      (fun i positive below => absurd below (by omega))
  · rw [length_eq, firstPlace]
    decide
  · rw [length_eq, firstGroup, Nat.le_zero] at within
    have isOpen : Open (init.links xlen) 1 1 := ⟨by decide, le_rfl, free⟩
    have first := GroupHead.of_least (by omega : 0 < pageEntries xlen) isOpen
      (by omega) fun j jOpen _ => jOpen.1
    rw [firstGroup, firstPlace] at first
    rw [within, head_eq, length_eq]
    exact first
  · rw [length_eq] at behind inGroup
    apply cleared i behind
    exact (Nat.div_eq_zero_iff_lt (by omega)).mp (inGroup.trans firstGroup)
  · rw [length_eq, max_eq]
    exact positive
  · simp [noPage]

/-- The page at the frontier can be handed out as the first one. -/
theorem InService.firstPage
    {xlen : Xlen}
    {table : PageTable}
    (inService : InService xlen ⟨table, []⟩)
    (atFrontier : table.mem_page_next_free = table.mem_page_length)
    (room : table.mem_page_length ≠ table.mem_page_max_length)
    (fits : table.mem_page_start + table.mem_page_length * PAGE_SIZE <
      xlen.size) :
    ∃ after ptr,
      AddressedTableStep xlen ⟨table, []⟩ (.kalloc_page ptr)
        ⟨after, [ptr]⟩ := by
  have positive : 0 < table.mem_page_length :=
    inService.serving.threaded.positive
  obtain ⟨after, returns, -⟩ :=
    inService.kalloc_page_extends atFrontier room fits
  have nonzero : table.mem_page_start + table.mem_page_length * PAGE_SIZE ≠
      0 := by
    unfold PAGE_SIZE
    omega
  have step := @TableStep.kalloc_page xlen table after [] _ returns
  rw [if_neg nonzero] at step
  refine ⟨after, _, step, fun _ _ => .inr ?_⟩
  rw [atFrontier]
  exact fits

/-- Freed pages are usable again, over whole runs and for every capacity: in
every state reached by calls of `kalloc_page` that find a page with an address
or the capacity reached, and by calls of `kfree_page` on live pages, giving a
live page back is counted and leaves a page to hand out exactly if
`mem_page_next_free` is not 0. -/
theorem freed_page_usable_iff
    {xlen : Xlen}
    {capacity block_start : Nat}
    (positive : 1 ≤ capacity)
    {table : PageTable}
    {events : List PageEvent}
    {state : TableState}
    (run : Run (AddressedTableStep xlen)
      ⟨table.kalloc_pageinit xlen block_start capacity, []⟩ events state)
    {ptr : Nat}
    (isLive : ptr ∈ state.live) :
    GivesBack xlen state.table ptr ↔ state.table.mem_page_next_free ≠ 0 := by
  have invariant : TableInvariant xlen state :=
    run.invariant (fun taken kept => kept.step taken)
      (.inl (inService_kalloc_pageinit positive table block_start))
  exact invariant.givesBack_iff isLive

/-- A page is handed out and can be given back. -/
theorem freed_page_usable_iff_first_page :
    ∃ events state ptr,
      Run (AddressedTableStep .rv64)
        ⟨PageTable.kalloc_pageinit .rv64 ⟨0, 0, 0, 0, 0, fun _ => 0⟩
          0x80000000 2, []⟩ events state ∧
      ptr ∈ state.live ∧
      (GivesBack .rv64 state.table ptr ↔
        state.table.mem_page_next_free ≠ 0) := by
  obtain ⟨start_eq, -, next_eq, length_eq, max_eq, -⟩ := kalloc_pageinit_spec
    .rv64 ⟨0, 0, 0, 0, 0, fun _ => 0⟩ 0x80000000 2
  have start : pageBlockStart .rv64 0x80000000 = 0x80001000 := by decide
  obtain ⟨after, ptr, taken⟩ := (inService_kalloc_pageinit (by decide)
    ⟨0, 0, 0, 0, 0, fun _ => 0⟩ 0x80000000).firstPage
    (next_eq.trans length_eq.symm) (by rw [length_eq, max_eq]; decide)
    (by rw [start_eq, length_eq, start]; decide)
  have isLive : ptr ∈ [ptr] := List.mem_singleton_self ptr
  exact ⟨_, _, ptr, .single taken, isLive,
    freed_page_usable_iff (by decide) (.single taken) isLive⟩

/-! ## The end of a group -/

/-- With room for the whole group, calls of `kalloc_page` move the frontier to
each page of it. -/
theorem exists_run_to_frontier
    {xlen : Xlen}
    {block_start count : Nat}
    (fits : pageBlockStart xlen block_start + pageEntries xlen * PAGE_SIZE ≤
      xlen.size)
    (inside : count + 1 < pageEntries xlen)
    (table : PageTable) :
    ∃ events state,
      Run (AddressedTableStep xlen)
        ⟨table.kalloc_pageinit xlen block_start (pageEntries xlen), []⟩
        events state ∧
      InService xlen state ∧
      state.table.mem_page_start = pageBlockStart xlen block_start ∧
      state.table.mem_page_max_length = pageEntries xlen ∧
      state.table.mem_page_next_free = count + 1 ∧
      state.table.mem_page_length = count + 1 := by
  induction count with
  | zero =>
      obtain ⟨start_eq, -, next_eq, length_eq, max_eq, -⟩ :=
        kalloc_pageinit_spec xlen table block_start (pageEntries xlen)
      exact ⟨[], _, .refl _,
        inService_kalloc_pageinit (by omega) table block_start, start_eq,
        max_eq, next_eq, length_eq⟩
  | succ count inductionHypothesis =>
      obtain ⟨events, ⟨before, live⟩, run, inService, start_eq, max_eq,
        next_eq, length_eq⟩ := inductionHypothesis (by omega)
      have serving : Serving xlen before := inService.serving
      dsimp only at start_eq max_eq next_eq length_eq
      have place : (before.mem_page_length + 1) % pageEntries xlen ≠ 0 := by
        rw [length_eq, Nat.mod_eq_of_lt inside]
        omega
      obtain ⟨after, returns, becomes⟩ := PageTable.kalloc_page_grow serving
        (next_eq.trans length_eq.symm) (by omega) place
      have addressed : before.mem_page_start +
          before.mem_page_next_free * PAGE_SIZE < xlen.size := by
        rw [start_eq, next_eq]
        unfold PAGE_SIZE at *
        omega
      have step := @TableStep.kalloc_page xlen before after live _ returns
      have longer := run.snoc ⟨step, fun _ _ => .inr addressed⟩
      have invariant : TableInvariant xlen ⟨after, _⟩ :=
        longer.invariant (fun taken kept => kept.step taken)
          (.inl (inService_kalloc_pageinit (by omega) table block_start))
      have next : after.mem_page_next_free = count + 1 + 1 := by
        rw [← links_zero xlen, becomes.links_eq,
          Function.update_self, length_eq]
      refine ⟨_, _, longer, invariant.resolve_right fun outOfService => ?_,
        becomes.start_eq.trans start_eq, becomes.max_eq.trans max_eq, next,
        becomes.length_eq.trans (congrArg (· + 1) length_eq)⟩
      have := outOfService.spent.next_free
      dsimp only at this
      omega

/-- With a capacity of one group, the page that is given back after the last
one was handed out is lost. -/
theorem freed_page_lost_at_group_boundary :
    ¬∀ events state,
      Run (AddressedTableStep .rv64)
        ⟨PageTable.kalloc_pageinit .rv64 ⟨0, 0, 0, 0, 0, fun _ => 0⟩
          0x80000000 512, []⟩ events state →
      ∀ ptr ∈ state.live, GivesBack .rv64 state.table ptr := by
  intro claimed
  have start : pageBlockStart .rv64 0x80000000 = 0x80001000 := by decide
  have fits : pageBlockStart .rv64 0x80000000 +
      pageEntries .rv64 * PAGE_SIZE ≤ Xlen.size .rv64 := by
    rw [start]
    decide
  obtain ⟨events, ⟨table, live⟩, run, inService, start_eq, max_eq, next_eq,
    length_eq⟩ := exists_run_to_frontier fits
      (by decide : 510 + 1 < pageEntries .rv64) ⟨0, 0, 0, 0, 0, fun _ => 0⟩
  dsimp only at start_eq max_eq next_eq length_eq
  have entries : pageEntries .rv64 = 512 := rfl
  obtain ⟨after, returns, becomes⟩ := PageTable.kalloc_page_last
    inService.serving (next_eq.trans length_eq.symm)
    (by dsimp only; rw [length_eq, entries]) (by dsimp only; omega)
  dsimp only at returns
  have page : pageAt .rv64 table.mem_page_start table.mem_page_length =
      0x80200000 := by
    rw [start_eq, start, length_eq]
    decide
  rw [page] at returns
  have taken : AddressedTableStep .rv64 ⟨table, live⟩
      (.kalloc_page 0x80200000) ⟨after, 0x80200000 :: live⟩ := by
    refine ⟨.kalloc_page returns, fun _ _ => .inr ?_⟩
    rw [start_eq, next_eq, start]
    decide
  have invariant : TableInvariant .rv64 ⟨after, 0x80200000 :: live⟩ :=
    (run.snoc taken).invariant (fun taken kept => kept.step taken)
      (.inl (inService_kalloc_pageinit (by decide) _ _))
  have spent : after.mem_page_next_free = 0 := by
    rw [← links_zero .rv64, becomes.links_eq, Function.update_self]
  have isLive : 0x80200000 ∈ 0x80200000 :: live := List.mem_cons_self
  exact (invariant.givesBack_iff isLive).mp
    (claimed _ _ (run.snoc taken) _ isLive) spent

end Memalloc
end EchelonSbi
