import EchelonSbi.Memalloc.PageTable

/-!
# Pages that are given back

With its sections apart from the pages the allocator threads one list through
all groups, and the first entry of each section leads to the first free page
of its group.  A page that is given back can be handed out again, unless the
last page was handed out at the end of a group: `mem_page_next_free` is then 0,
and `kfree_page` finds no section from which it could link the page.
-/

namespace EchelonSbi
namespace Memalloc

open Foundation

namespace PageTable

variable {xlen : Xlen} {table : PageTable}

/-- The list as one array: `mem_page_next_free` at position 0, and the pages
that hold sections count as taken. -/
def links (xlen : Xlen) (table : PageTable) (i : Nat) : Nat :=
  if i = 0 then table.mem_page_next_free
  else if i % pageEntries xlen = 0 then 1
  else table.used_pages i

/-- The first entry of a section. -/
def head (xlen : Xlen) (table : PageTable) (group : Nat) : Nat :=
  table.entry xlen group 0

theorem entry_zero (group : Nat) :
    table.entry xlen group 0 = table.head xlen group := rfl

@[simp] theorem links_zero (xlen : Xlen) :
    table.links xlen 0 = table.mem_page_next_free := rfl

theorem links_of_multiple
    {i : Nat}
    (positive : 0 < i)
    (multiple : i % pageEntries xlen = 0) :
    table.links xlen i = 1 := by
  rw [links, if_neg positive.ne', if_pos multiple]

theorem links_of_place
    {i : Nat}
    (place : i % pageEntries xlen ≠ 0) :
    table.links xlen i = table.used_pages i := by
  have positive : i ≠ 0 := by
    rintro rfl
    exact place (Nat.zero_mod _)
  rw [links, if_neg positive, if_neg place]

/-- The entry of a page. -/
theorem entry_of_place
    {i : Nat}
    (place : i % pageEntries xlen ≠ 0) :
    table.entry xlen (i / pageEntries xlen) (i % pageEntries xlen) =
      table.links xlen i := by
  rw [links_of_place place, entry, Nat.div_add_mod']

theorem place_mod
    {group i : Nat}
    (inGroup : i < pageEntries xlen) :
    (group * pageEntries xlen + i) % pageEntries xlen = i := by
  rw [Nat.mul_add_mod_self_right, Nat.mod_eq_of_lt inGroup]

/-! Each operation changes the links, the heads or a counter. -/

theorem links_setEntry
    {group i : Nat}
    (positive : 0 < i)
    (inGroup : i < pageEntries xlen)
    (value : Nat) :
    (table.setEntry xlen group i value).links xlen =
      Function.update (table.links xlen) (group * pageEntries xlen + i)
        value := by
  have place : (group * pageEntries xlen + i) % pageEntries xlen = i :=
    place_mod inGroup
  funext j
  by_cases here : j = group * pageEntries xlen + i
  · rw [here, Function.update_self, links_of_place (by omega)]
    exact Function.update_self _ _ _
  · rw [Function.update_of_ne here, links, links]
    simp only [setEntry, Function.update_of_ne here]

@[simp] theorem links_setEntry_zero (group value : Nat) :
    (table.setEntry xlen group 0 value).links xlen = table.links xlen := by
  have large := pageEntries_gt xlen
  have multiple : (group * pageEntries xlen + 0) % pageEntries xlen = 0 :=
    place_mod (by omega)
  funext j
  by_cases here : j = group * pageEntries xlen + 0
  · rw [here]
    simp only [links, multiple, if_true]
    rfl
  · rw [links, links]
    simp only [setEntry, Function.update_of_ne here]

theorem head_setEntry
    {group i : Nat}
    (positive : 0 < i)
    (inGroup : i < pageEntries xlen)
    (value : Nat) :
    (table.setEntry xlen group i value).head xlen = table.head xlen := by
  funext other
  apply Function.update_of_ne
  intro same
  have place := congrArg (· % pageEntries xlen) same
  simp only [place_mod inGroup, Nat.add_zero, Nat.mul_mod_left] at place
  omega

@[simp] theorem head_setEntry_zero (group value : Nat) :
    (table.setEntry xlen group 0 value).head xlen =
      Function.update (table.head xlen) group value := by
  have large := pageEntries_gt xlen
  funext other
  by_cases here : other = group
  · rw [here, Function.update_self]
    exact Function.update_self _ _ _
  · rw [Function.update_of_ne here]
    apply Function.update_of_ne
    intro same
    exact here (Nat.eq_of_mul_eq_mul_right (by omega) same)

@[simp] theorem links_setNextFree (value : Nat) :
    (table.setNextFree value).links xlen =
      Function.update (table.links xlen) 0 value := by
  funext j
  by_cases first : j = 0
  · rw [first, Function.update_self]
    rfl
  · rw [Function.update_of_ne first, links, links, if_neg first, if_neg first]
    rfl

@[simp] theorem links_counters :
    (table.lengthUp xlen).links xlen = table.links xlen ∧
      (table.countUp xlen).links xlen = table.links xlen ∧
      (table.countDown xlen).links xlen = table.links xlen :=
  ⟨rfl, rfl, rfl⟩

@[simp] theorem head_counters :
    (table.nextFreeUp xlen).head xlen = table.head xlen ∧
      (table.lengthUp xlen).head xlen = table.head xlen ∧
      (table.countUp xlen).head xlen = table.head xlen ∧
      (table.countDown xlen).head xlen = table.head xlen :=
  ⟨rfl, rfl, rfl, rfl⟩

@[simp] theorem head_setNextFree (value : Nat) :
    (table.setNextFree value).head xlen = table.head xlen :=
  rfl

@[simp] theorem setEntry_fields (group i value : Nat) :
    (table.setEntry xlen group i value).mem_page_start =
        table.mem_page_start ∧
      (table.setEntry xlen group i value).mem_page_num_allocated =
        table.mem_page_num_allocated ∧
      (table.setEntry xlen group i value).mem_page_next_free =
        table.mem_page_next_free ∧
      (table.setEntry xlen group i value).mem_page_length =
        table.mem_page_length ∧
      (table.setEntry xlen group i value).mem_page_max_length =
        table.mem_page_max_length :=
  ⟨rfl, rfl, rfl, rfl, rfl⟩

@[simp] theorem setNextFree_fields (value : Nat) :
    (table.setNextFree value).mem_page_start = table.mem_page_start ∧
      (table.setNextFree value).mem_page_num_allocated =
        table.mem_page_num_allocated ∧
      (table.setNextFree value).mem_page_next_free = value ∧
      (table.setNextFree value).mem_page_length = table.mem_page_length ∧
      (table.setNextFree value).mem_page_max_length =
        table.mem_page_max_length :=
  ⟨rfl, rfl, rfl, rfl, rfl⟩

@[simp] theorem nextFreeUp_eq :
    table.nextFreeUp xlen =
      table.setNextFree (xlen.wrap (table.mem_page_next_free + 1)) :=
  rfl

@[simp] theorem lengthUp_fields :
    (table.lengthUp xlen).mem_page_start = table.mem_page_start ∧
      (table.lengthUp xlen).mem_page_num_allocated =
        table.mem_page_num_allocated ∧
      (table.lengthUp xlen).mem_page_next_free = table.mem_page_next_free ∧
      (table.lengthUp xlen).mem_page_length =
        xlen.wrap (table.mem_page_length + 1) ∧
      (table.lengthUp xlen).mem_page_max_length =
        table.mem_page_max_length :=
  ⟨rfl, rfl, rfl, rfl, rfl⟩

@[simp] theorem countUp_fields :
    (table.countUp xlen).mem_page_start = table.mem_page_start ∧
      (table.countUp xlen).mem_page_num_allocated =
        xlen.wrap (table.mem_page_num_allocated + 1) ∧
      (table.countUp xlen).mem_page_next_free = table.mem_page_next_free ∧
      (table.countUp xlen).mem_page_length = table.mem_page_length ∧
      (table.countUp xlen).mem_page_max_length = table.mem_page_max_length :=
  ⟨rfl, rfl, rfl, rfl, rfl⟩

@[simp] theorem countDown_fields :
    (table.countDown xlen).mem_page_start = table.mem_page_start ∧
      (table.countDown xlen).mem_page_num_allocated =
        xlen.wrap (table.mem_page_num_allocated + (xlen.size - 1)) ∧
      (table.countDown xlen).mem_page_next_free = table.mem_page_next_free ∧
      (table.countDown xlen).mem_page_length = table.mem_page_length ∧
      (table.countDown xlen).mem_page_max_length =
        table.mem_page_max_length :=
  ⟨rfl, rfl, rfl, rfl, rfl⟩

@[simp] theorem clearEntries_fields (index turns first : Nat) :
    (table.clearEntries xlen index turns first).mem_page_start =
        table.mem_page_start ∧
      (table.clearEntries xlen index turns first).mem_page_num_allocated =
        table.mem_page_num_allocated ∧
      (table.clearEntries xlen index turns first).mem_page_next_free =
        table.mem_page_next_free ∧
      (table.clearEntries xlen index turns first).mem_page_length =
        table.mem_page_length ∧
      (table.clearEntries xlen index turns first).mem_page_max_length =
        table.mem_page_max_length := by
  induction turns generalizing table first with
  | zero => exact ⟨rfl, rfl, rfl, rfl, rfl⟩
  | succ turns inductionHypothesis =>
      exact @inductionHypothesis (table.setEntry xlen index first 0) (first + 1)

/-- The clearing loop sets links of one group to 0 and keeps the heads. -/
theorem clearEntries_spec
    (xlen : Xlen)
    {first turns : Nat}
    (positive : 0 < first)
    (inGroup : first + turns ≤ pageEntries xlen)
    (table : PageTable)
    (group : Nat) :
    (table.clearEntries xlen group turns first).head xlen = table.head xlen ∧
      ∀ i, (table.clearEntries xlen group turns first).links xlen i =
        if group * pageEntries xlen + first ≤ i ∧
            i < group * pageEntries xlen + (first + turns) then 0
        else table.links xlen i := by
  induction turns generalizing table first with
  | zero =>
      refine ⟨rfl, fun i => ?_⟩
      rw [if_neg (by omega)]
      rfl
  | succ turns inductionHypothesis =>
      obtain ⟨sameHead, cleared⟩ := inductionHypothesis (by omega)
        (by omega : first + 1 + turns ≤ pageEntries xlen)
        (table.setEntry xlen group first 0)
      refine ⟨?_, fun i => ?_⟩
      · rw [clearEntries, sameHead, head_setEntry positive (by omega)]
      · rw [clearEntries, cleared, links_setEntry positive (by omega)]
        by_cases here : i = group * pageEntries xlen + first
        · simp [here]
        · rw [Function.update_of_ne here]
          congr 1
          simp only [eq_iff_iff]
          omega

/-! ## The invariant -/

/-- The allocator has a next page: its links thread the pages that are free,
the first entry of each section leads to the first of its group, and the
frontier is not at the end of a group. -/
structure Serving (xlen : Xlen) (table : PageTable) : Prop where
  aligned : PAGE_SIZE ∣ table.mem_page_start
  threaded : Threaded (table.links xlen) table.mem_page_length
  place : table.mem_page_length % pageEntries xlen ≠ 0
  heads : ∀ group ≤ table.mem_page_length / pageEntries xlen,
    GroupHead (pageEntries xlen)
      (Open (table.links xlen) table.mem_page_length) group
      (table.head xlen group)
  fresh : ∀ i, table.mem_page_length ≤ i →
    i / pageEntries xlen = table.mem_page_length / pageEntries xlen →
    table.links xlen i = 0
  bounded : table.mem_page_length ≤ table.mem_page_max_length
  addressed : ∀ i < table.mem_page_length, i % pageEntries xlen ≠ 0 →
    table.mem_page_start + i * PAGE_SIZE < xlen.size

/-- The last page was handed out at the end of a group. -/
structure Spent (xlen : Xlen) (table : PageTable) : Prop where
  next_free : table.mem_page_next_free = 0
  heads : ∀ i < table.mem_page_length,
    table.head xlen (i / pageEntries xlen) = 0

/-- A page that was handed out at least once. -/
def HandedOut (xlen : Xlen) (table : PageTable) (i : Nat) : Prop :=
  i < table.mem_page_length ∧ i % pageEntries xlen ≠ 0

namespace Serving

theorem next_open (serving : Serving xlen table) :
    Open (table.links xlen) table.mem_page_length table.mem_page_next_free :=
  serving.threaded.head_open

theorem next_le
    (serving : Serving xlen table)
    {i : Nat}
    (isOpen : Open (table.links xlen) table.mem_page_length i) :
    table.mem_page_next_free ≤ i :=
  serving.threaded.head_le isOpen

/-- Open positions are pages. -/
theorem place_of_open
    {frontier i : Nat}
    (isOpen : Open (table.links xlen) frontier i) :
    i % pageEntries xlen ≠ 0 :=
  fun multiple => isOpen.2.2 (links_of_multiple isOpen.1 multiple)

/-- Indices below the frontier are far from the end of a register. -/
theorem length_lt_size (serving : Serving xlen table) :
    table.mem_page_length + 2 < xlen.size := by
  have sizeLarge : 0x10000 ≤ xlen.size := by
    cases xlen <;> decide
  have sizes : pageEntries xlen = 1024 ∨ pageEntries xlen = 512 := by
    cases xlen
    · exact .inl rfl
    · exact .inr rfl
  by_contra far
  -- of two neighbouring pages one holds no section
  obtain ⟨i, near, below, place⟩ : ∃ i, table.mem_page_length ≤ i + 2 ∧
      i < table.mem_page_length ∧ i % pageEntries xlen ≠ 0 := by
    by_cases last : (table.mem_page_length - 1) % pageEntries xlen = 0
    · refine ⟨table.mem_page_length - 2, by omega, by omega, ?_⟩
      rcases sizes with same | same <;> rw [same] at last ⊢ <;> omega
    · exact ⟨table.mem_page_length - 1, by omega, by omega, last⟩
  have := serving.addressed i below place
  unfold PAGE_SIZE at this
  omega

/-- The frontier has a next page exactly if it is the only open one. -/
theorem entry_eq_zero_iff (serving : Serving xlen table) :
    table.links xlen table.mem_page_next_free = 0 ↔
      table.mem_page_next_free = table.mem_page_length := by
  have isOpen := serving.next_open
  constructor
  · intro unlinked
    by_contra other
    have := serving.threaded.lt_link
      (by have := isOpen.2.1; omega) (.inr isOpen.2.2)
    omega
  · intro atFrontier
    exact serving.fresh _ atFrontier.ge (by rw [atFrontier])

end Serving

/-! ## What the operations do -/

/-- What an operation leaves, as links, heads and counters. -/
structure Becomes
    (xlen : Xlen) (before after : PageTable) (links head : Nat → Nat)
    (length num : Nat) : Prop where
  start_eq : after.mem_page_start = before.mem_page_start
  max_eq : after.mem_page_max_length = before.mem_page_max_length
  links_eq : after.links xlen = links
  head_eq : after.head xlen = head
  length_eq : after.mem_page_length = length
  num_eq : after.mem_page_num_allocated = num

/-- The allocator takes the first page that was given back. -/
theorem kalloc_page_reuse
    (serving : Serving xlen table)
    (reused : table.mem_page_next_free < table.mem_page_length) :
    ∃ after,
      table.kalloc_page xlen =
        (pageAt xlen table.mem_page_start table.mem_page_next_free, after) ∧
      Becomes xlen table after
        (Function.update
          (Function.update (table.links xlen) table.mem_page_next_free 1)
          0 (table.links xlen table.mem_page_next_free))
        (Function.update (table.head xlen)
          (table.mem_page_next_free / pageEntries xlen)
          (if table.links xlen table.mem_page_next_free / pageEntries xlen =
              table.mem_page_next_free / pageEntries xlen then
            table.links xlen table.mem_page_next_free % pageEntries xlen
          else 0))
        table.mem_page_length
        (xlen.wrap (table.mem_page_num_allocated + 1)) := by
  have isOpen := serving.next_open
  have place := Serving.place_of_open isOpen
  have large := pageEntries_gt xlen
  have inGroup := Nat.mod_lt table.mem_page_next_free
    (by omega : 0 < pageEntries xlen)
  have linked : table.links xlen table.mem_page_next_free ≠ 0 :=
    fun unlinked => reused.ne (serving.entry_eq_zero_iff.mp unlinked)
  unfold kalloc_page
  simp only [isOpen.1.ne', entry_of_place place, linked, if_false]
  refine ⟨_, rfl, ?_⟩
  split
  all_goals
    constructor <;>
      simp [links_setEntry (Nat.pos_of_ne_zero place) inGroup,
        head_setEntry (Nat.pos_of_ne_zero place) inGroup, Nat.div_add_mod']

/-- Without a free page a call changes nothing. -/
theorem kalloc_page_full
    (serving : Serving xlen table)
    (atFrontier : table.mem_page_next_free = table.mem_page_length)
    (full : table.mem_page_length = table.mem_page_max_length) :
    ∃ after,
      table.kalloc_page xlen = (0, after) ∧
      Becomes xlen table after (table.links xlen) (table.head xlen)
        table.mem_page_length table.mem_page_num_allocated := by
  have isOpen := serving.next_open
  have place := Serving.place_of_open isOpen
  have large := pageEntries_gt xlen
  have inGroup := Nat.mod_lt table.mem_page_next_free
    (by omega : 0 < pageEntries xlen)
  have unlinked := serving.entry_eq_zero_iff.mpr atFrontier
  unfold kalloc_page
  simp only [isOpen.1.ne', entry_of_place place, unlinked, setEntry_fields,
    if_pos full, if_true, if_false]
  refine ⟨_, rfl, ?_⟩
  constructor <;>
    simp [links_setEntry (Nat.pos_of_ne_zero place) inGroup,
      head_setEntry (Nat.pos_of_ne_zero place) inGroup, Nat.div_add_mod',
      ← unlinked]

/-- The allocator moves its frontier up inside the group. -/
theorem kalloc_page_grow
    (serving : Serving xlen table)
    (atFrontier : table.mem_page_next_free = table.mem_page_length)
    (room : table.mem_page_length ≠ table.mem_page_max_length)
    (inside : (table.mem_page_length + 1) % pageEntries xlen ≠ 0) :
    ∃ after,
      table.kalloc_page xlen =
        (pageAt xlen table.mem_page_start table.mem_page_length, after) ∧
      Becomes xlen table after
        (Function.update
          (Function.update (table.links xlen) table.mem_page_length 1)
          0 (table.mem_page_length + 1))
        (Function.update (table.head xlen)
          (table.mem_page_length / pageEntries xlen)
          (xlen.wrap (table.head xlen
            (table.mem_page_length / pageEntries xlen) + 1)))
        (table.mem_page_length + 1)
        (xlen.wrap (table.mem_page_num_allocated + 1)) := by
  have place := serving.place
  have positive := serving.threaded.positive
  have large := pageEntries_gt xlen
  have inGroup := Nat.mod_lt table.mem_page_length
    (by omega : 0 < pageEntries xlen)
  have unlinked := serving.entry_eq_zero_iff.mpr atFrontier
  rw [atFrontier] at unlinked
  have fits := serving.length_lt_size
  have succ : xlen.wrap (table.mem_page_length + 1) =
      table.mem_page_length + 1 := Xlen.wrap_of_lt (by omega)
  unfold kalloc_page
  simp only [atFrontier, positive.ne', entry_of_place place, unlinked,
    setEntry_fields, lengthUp_fields, nextFreeUp_eq, setNextFree_fields, room,
    succ, inside, if_true, if_false]
  refine ⟨_, rfl, ?_⟩
  constructor <;>
    simp [links_setEntry (Nat.pos_of_ne_zero place) inGroup,
      head_setEntry (Nat.pos_of_ne_zero place) inGroup, entry_zero,
      Nat.div_add_mod', succ]

/-- The allocator hands out the last page of a group that ends with the
capacity. -/
theorem kalloc_page_last
    (serving : Serving xlen table)
    (atFrontier : table.mem_page_next_free = table.mem_page_length)
    (last : (table.mem_page_length + 1) % pageEntries xlen = 0)
    (ends : table.mem_page_length + 1 = table.mem_page_max_length) :
    ∃ after,
      table.kalloc_page xlen =
        (pageAt xlen table.mem_page_start table.mem_page_length, after) ∧
      Becomes xlen table after
        (Function.update
          (Function.update (table.links xlen) table.mem_page_length 1) 0 0)
        (Function.update (table.head xlen)
          (table.mem_page_length / pageEntries xlen) 0)
        (table.mem_page_length + 1)
        (xlen.wrap (table.mem_page_num_allocated + 1)) := by
  have place := serving.place
  have positive := serving.threaded.positive
  have large := pageEntries_gt xlen
  have inGroup := Nat.mod_lt table.mem_page_length
    (by omega : 0 < pageEntries xlen)
  have unlinked := serving.entry_eq_zero_iff.mpr atFrontier
  rw [atFrontier] at unlinked
  have fits := serving.length_lt_size
  have succ : xlen.wrap (table.mem_page_length + 1) =
      table.mem_page_length + 1 := Xlen.wrap_of_lt (by omega)
  have room : table.mem_page_length ≠ table.mem_page_length + 1 := by omega
  unfold kalloc_page
  simp only [atFrontier, positive.ne', entry_of_place place, unlinked,
    setEntry_fields, lengthUp_fields, nextFreeUp_eq, setNextFree_fields,
    ← ends, room, succ, last, if_true, if_false]
  refine ⟨_, rfl, ?_⟩
  constructor <;>
    simp [links_setEntry (Nat.pos_of_ne_zero place) inGroup,
      head_setEntry (Nat.pos_of_ne_zero place) inGroup, entry_zero,
      Nat.div_add_mod', succ, ← ends]

/-- The allocator steps over the section of the next group. -/
theorem kalloc_page_next_group
    (serving : Serving xlen table)
    (atFrontier : table.mem_page_next_free = table.mem_page_length)
    (room : table.mem_page_length ≠ table.mem_page_max_length)
    (last : (table.mem_page_length + 1) % pageEntries xlen = 0)
    (more : table.mem_page_length + 1 ≠ table.mem_page_max_length) :
    ∃ after links,
      table.kalloc_page xlen =
        (pageAt xlen table.mem_page_start table.mem_page_length, after) ∧
      Becomes xlen table after links
        (Function.update
          (Function.update (table.head xlen)
            (table.mem_page_length / pageEntries xlen) 0)
          (table.mem_page_length / pageEntries xlen + 1) 1)
        (table.mem_page_length + 2)
        (xlen.wrap (table.mem_page_num_allocated + 1)) ∧
      links 0 = table.mem_page_length + 2 ∧
      links table.mem_page_length = 1 ∧
      (∀ i, 0 < i → i < table.mem_page_length →
        links i = table.links xlen i) ∧
      ∀ i, table.mem_page_length + 1 < i →
        i / pageEntries xlen = table.mem_page_length / pageEntries xlen + 1 →
        links i = 0 := by
  have place := serving.place
  have positive := serving.threaded.positive
  have large := pageEntries_gt xlen
  have inGroup := Nat.mod_lt table.mem_page_length
    (by omega : 0 < pageEntries xlen)
  have unlinked := serving.entry_eq_zero_iff.mpr atFrontier
  rw [atFrontier] at unlinked
  have fits := serving.length_lt_size
  have succ : xlen.wrap (table.mem_page_length + 1) =
      table.mem_page_length + 1 := Xlen.wrap_of_lt (by omega)
  have second : xlen.wrap (table.mem_page_length + 1 + 1) =
      table.mem_page_length + 2 := Xlen.wrap_of_lt (by omega)
  have nextGroup : xlen.wrap (table.mem_page_length / pageEntries xlen + 1) =
      table.mem_page_length / pageEntries xlen + 1 := by
    have := Nat.div_le_self table.mem_page_length (pageEntries xlen)
    exact Xlen.wrap_of_lt (by omega)
  unfold kalloc_page
  simp only [atFrontier, positive.ne', entry_of_place place, unlinked,
    setEntry_fields, lengthUp_fields, nextFreeUp_eq, setNextFree_fields, room,
    succ, last, more, second, nextGroup, if_true, if_false]
  generalize prepared : PageTable.setEntry xlen _ _ 0 1 = opened
  have openedLinks : opened.links xlen = Function.update
      (Function.update (table.links xlen) table.mem_page_length 1)
      0 (table.mem_page_length + 2) := by
    rw [← prepared]
    simp [links_setEntry (Nat.pos_of_ne_zero place) inGroup, Nat.div_add_mod']
  obtain ⟨sameHead, cleared⟩ := clearEntries_spec xlen
    (by decide : 0 < 1) (by omega : 1 + (pageEntries xlen - 1) ≤
      pageEntries xlen) opened
    (table.mem_page_length / pageEntries xlen + 1)
  have base : (table.mem_page_length / pageEntries xlen + 1) *
      pageEntries xlen = table.mem_page_length + 1 := by
    have divides := Nat.dvd_of_mod_eq_zero last
    rw [← Nat.succ_div_of_dvd divides, Nat.div_mul_cancel divides]
  rw [base] at cleared
  refine ⟨_, _, rfl, ⟨?_, ?_, rfl, ?_, ?_, ?_⟩, ?_, ?_, ?_, ?_⟩
  · simp [← prepared]
  · simp [← prepared]
  · simp only [head_counters, sameHead]
    rw [← prepared]
    simp [head_setEntry (Nat.pos_of_ne_zero place) inGroup]
  · simp [← prepared, succ, second]
  · simp [← prepared]
  · simp only [links_counters, cleared, openedLinks]
    rw [if_neg (by omega), Function.update_self]
  · simp only [links_counters, cleared, openedLinks]
    rw [if_neg (by omega), Function.update_of_ne positive.ne',
      Function.update_self]
  · intro i iPositive below
    simp only [links_counters, cleared, openedLinks]
    rw [if_neg (by omega), Function.update_of_ne iPositive.ne',
      Function.update_of_ne below.ne]
  · intro i above inNext
    have split_ := Nat.div_add_mod' i (pageEntries xlen)
    have small := Nat.mod_lt i (by omega : 0 < pageEntries xlen)
    rw [inNext, base] at split_
    simp only [links_counters, cleared]
    rw [if_pos (by omega)]

/-- The search of `kfree_page` finds the last entry that is not 1. -/
theorem finalPageIndex_spec
    (xlen : Xlen)
    (table : PageTable)
    (group turns first final : Nat) :
    (table.finalPageIndex xlen group turns first final = final ∨
        first ≤ table.finalPageIndex xlen group turns first final ∧
          table.finalPageIndex xlen group turns first final < first + turns ∧
          table.entry xlen group
            (table.finalPageIndex xlen group turns first final) ≠ 1) ∧
      ∀ j, table.finalPageIndex xlen group turns first final < j →
        first ≤ j → j < first + turns → table.entry xlen group j = 1 := by
  induction turns generalizing first final with
  | zero => exact ⟨.inl rfl, fun j _ low high => absurd high (by omega)⟩
  | succ turns inductionHypothesis =>
      rw [finalPageIndex]
      by_cases free : table.entry xlen group first ≠ 1
      · rw [if_pos free]
        obtain ⟨last, taken⟩ := inductionHypothesis (first + 1) first
        generalize table.finalPageIndex xlen group turns (first + 1) first =
          found at last taken ⊢
        have above : first ≤ found := by
          rcases last with rfl | ⟨above, -, -⟩ <;> omega
        refine ⟨.inr ⟨above, ?_, ?_⟩, fun j behind low high =>
          taken j behind (by omega) (by omega)⟩
        · rcases last with rfl | ⟨-, below, -⟩ <;> omega
        · rcases last with rfl | ⟨-, -, open_⟩
          · exact free
          · exact open_
      · rw [if_neg free]
        obtain ⟨last, taken⟩ := inductionHypothesis (first + 1) final
        refine ⟨last.imp_right fun ⟨above, below, open_⟩ =>
          ⟨by omega, by omega, open_⟩, fun j behind low high => ?_⟩
        by_cases here : j = first
        · rw [here]
          exact not_not.mp free
        · exact taken j behind (by omega) (by omega)

/-- The loop over the earlier sections stops at the last one that has a free
page. -/
theorem linkFromEarlierSection_eq
    {count : Nat}
    (page : Nat)
    (table : PageTable)
    (some_ : ∃ group < count, table.head xlen group ≠ 0) :
    ∃ group < count, table.head xlen group ≠ 0 ∧
      (∀ other, group < other → other < count →
        table.head xlen other = 0) ∧
      table.linkFromEarlierSection xlen page count =
        (((table.setEntry xlen (page / pageEntries xlen)
          (page % pageEntries xlen)
          (table.entry xlen group (table.finalPageIndex xlen group
            (pageEntries xlen - (table.head xlen group + 1))
            (table.head xlen group + 1) (table.head xlen group)))).setEntry
          xlen (page / pageEntries xlen) 0
          (page % pageEntries xlen)).setEntry xlen group
          (table.finalPageIndex xlen group
            (pageEntries xlen - (table.head xlen group + 1))
            (table.head xlen group + 1) (table.head xlen group))
          page).countDown xlen := by
  induction count with
  | zero =>
      obtain ⟨group, below, -⟩ := some_
      omega
  | succ count inductionHypothesis =>
      rw [linkFromEarlierSection]
      by_cases here : table.head xlen count ≠ 0
      · refine ⟨count, by omega, here, fun other _ _ => by omega, ?_⟩
        exact if_pos here
      · have earlier : ∃ group < count, table.head xlen group ≠ 0 := by
          obtain ⟨group, below, nonzero⟩ := some_
          refine ⟨group, ?_, nonzero⟩
          have : group ≠ count := by
            rintro rfl
            exact here nonzero
          omega
        obtain ⟨group, below, nonzero, between, result⟩ :=
          inductionHypothesis earlier
        refine ⟨group, by omega, nonzero, fun other above otherBelow => ?_, ?_⟩
        · by_cases last : other = count
          · rw [last]
            exact not_not.mp here
          · exact between other above (by omega)
        · exact (if_neg here).trans result

/-- The loop over the earlier sections changes nothing where no section has a
free page. -/
theorem linkFromEarlierSection_of_empty
    {page count : Nat}
    (table : PageTable)
    (none_ : ∀ group < count, table.head xlen group = 0) :
    table.linkFromEarlierSection xlen page count = table := by
  induction count with
  | zero => rfl
  | succ count inductionHypothesis =>
      rw [linkFromEarlierSection]
      exact (if_neg (not_not.mpr (none_ count (by omega)))).trans
        (inductionHypothesis fun group below => none_ group (by omega))

end PageTable

end Memalloc
end EchelonSbi
