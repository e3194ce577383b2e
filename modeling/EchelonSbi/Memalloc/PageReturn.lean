import EchelonSbi.Memalloc.PageReuse

/-!
# Runs of the page allocator

`kfree_page` keeps the list of free pages threaded through all groups, and so
does `kalloc_page` as long as it leaves a next page.  So in every run a live
page can be given back and handed out again exactly while
`mem_page_next_free` is not 0.
-/

namespace EchelonSbi
namespace Memalloc

open Foundation

namespace PageTable

variable {xlen : Xlen} {table : PageTable}

namespace Serving

/-- A page below the frontier that is not open is taken. -/
theorem taken_of_not_open
    {frontier i : Nat}
    (positive : 0 < i)
    (within : i ≤ frontier)
    (closed : ¬Open (table.links xlen) frontier i) :
    table.links xlen i = 1 := by
  by_contra free
  exact closed ⟨positive, within, free⟩

/-- The last free page of a group before the place `bound`. -/
structure FinalPage
    (xlen : Xlen) (table : PageTable) (group bound final : Nat) : Prop where
  above : table.head xlen group ≤ final
  positive : 0 < final
  below : final < bound
  free : table.links xlen (group * pageEntries xlen + final) ≠ 1
  entry_eq : table.entry xlen group final =
    table.links xlen (group * pageEntries xlen + final)
  between : ∀ i, final < i → i < bound →
    table.links xlen (group * pageEntries xlen + i) = 1

/-- From the first free page of a group the search of `kfree_page` comes to
its last free page before a given place. -/
theorem final_page
    (serving : Serving xlen table)
    {group bound : Nat}
    (within : group ≤ table.mem_page_length / pageEntries xlen)
    (nonzero : table.head xlen group ≠ 0)
    (inGroup : bound ≤ pageEntries xlen)
    (first : table.head xlen group < bound) :
    FinalPage xlen table group bound
      (table.finalPageIndex xlen group (bound - (table.head xlen group + 1))
        (table.head xlen group + 1) (table.head xlen group)) := by
  obtain ⟨found, taken⟩ := finalPageIndex_spec xlen table group
    (bound - (table.head xlen group + 1)) (table.head xlen group + 1)
    (table.head xlen group)
  have entryOf {i : Nat} (positive : 0 < i) (below : i < bound) :
      table.entry xlen group i =
        table.links xlen (group * pageEntries xlen + i) := by
    have place : (group * pageEntries xlen + i) % pageEntries xlen = i :=
      place_mod (by omega)
    rw [links_of_place (by omega)]
    rfl
  generalize table.finalPageIndex xlen group
    (bound - (table.head xlen group + 1)) (table.head xlen group + 1)
    (table.head xlen group) = final at found taken ⊢
  have above : table.head xlen group ≤ final := by
    rcases found with same | ⟨above, -, -⟩ <;> omega
  have below : final < bound := by
    rcases found with same | ⟨-, below, -⟩ <;> omega
  refine ⟨above, by omega, below, ?_, entryOf (by omega) below,
    fun i behind iBelow => ?_⟩
  · rcases found with same | ⟨-, -, free⟩
    · obtain ⟨-, isLeast⟩ := (serving.heads group within).isLeast nonzero
      rw [same]
      exact isLeast.1.1.2.2
    · rw [← entryOf (by omega) below]
      exact free
  · rw [← entryOf (by omega) iBelow]
    exact taken i behind (by omega) (by omega)

/-- The open pages of the other groups stay the same. -/
theorem other_head
    (serving : Serving xlen table)
    {i group : Nat}
    (within : group ≤ table.mem_page_length / pageEntries xlen)
    (elsewhere : group ≠ i / pageEntries xlen) :
    GroupHead (pageEntries xlen)
      (fun j => Open (table.links xlen) table.mem_page_length j ∨ j = i) group
      (table.head xlen group) := by
  apply (serving.heads group within).congr
  intro j here
  apply or_iff_left
  rintro rfl
  exact elsewhere here.symm

end Serving

/-- What `kfree_page` leaves when it links the page `i` behind the free page
`final`, or at the front of the list. -/
structure Gives
    (xlen : Xlen) (before : PageTable) (i final : Nat) (after : PageTable) :
    Prop where
  finalBelow : final < i
  finalLinked : final = 0 ∨ before.links xlen final ≠ 1
  between : ∀ j, final < j → j < i → before.links xlen j = 1
  becomes : Becomes xlen before after
    (Function.update
      (Function.update (before.links xlen) i (before.links xlen final))
      final i)
    (after.head xlen) before.mem_page_length
    (xlen.wrap (before.mem_page_num_allocated + (xlen.size - 1)))
  heads : ∀ group ≤ before.mem_page_length / pageEntries xlen,
    GroupHead (pageEntries xlen)
      (fun j => Open (before.links xlen) before.mem_page_length j ∨ j = i)
      group (after.head xlen group)

section Give

variable {i : Nat} (serving : Serving xlen table)
  (place : i % pageEntries xlen ≠ 0) (below : i < table.mem_page_length)

include serving place below in
/-- A page before all free pages comes to the front of the list. -/
theorem kfree_page_front
    (before : i < table.mem_page_next_free) :
    Gives xlen table i 0
      ((((table.setEntry xlen (i / pageEntries xlen) (i % pageEntries xlen)
        table.mem_page_next_free).setEntry xlen (i / pageEntries xlen) 0
        (i % pageEntries xlen)).setNextFree i).countDown xlen) := by
  have large := pageEntries_gt xlen
  have inGroup := Nat.mod_lt i (by omega : 0 < pageEntries xlen)
  have placePositive := Nat.pos_of_ne_zero place
  have positive : 0 < i := Nat.pos_of_ne_zero fun zero => by
    rw [zero, Nat.zero_mod] at place
    exact place rfl
  refine ⟨positive, .inl rfl, fun j jPositive jBelow => ?_, ⟨?_, ?_, ?_, rfl,
    ?_, ?_⟩, fun group within => ?_⟩
  · apply Serving.taken_of_not_open jPositive
      (by omega : j ≤ table.mem_page_length)
    intro isOpen
    have := serving.next_le isOpen
    omega
  · simp
  · simp
  · simp [links_setEntry placePositive inGroup, Nat.div_add_mod']
  · simp
  · simp
  · simp only [head_counters, head_setNextFree, head_setEntry_zero,
      head_setEntry placePositive inGroup]
    by_cases here : group = i / pageEntries xlen
    · rw [here, Function.update_self]
      apply GroupHead.insert_first (by omega) place ?_ fun _ => Iff.rfl
      intro j isOpen _
      have := serving.next_le isOpen
      omega
    · rw [Function.update_of_ne here]
      exact serving.other_head within here

include serving place below in
/-- A page behind a free page of its group is linked there. -/
theorem kfree_page_inside
    {group final : Nat}
    (here : i / pageEntries xlen = group)
    (nonzero : table.head xlen group ≠ 0)
    (isFinal : Serving.FinalPage xlen table group (i % pageEntries xlen)
      final) :
    Gives xlen table i (group * pageEntries xlen + final)
      (((table.setEntry xlen group (i % pageEntries xlen)
        (table.entry xlen group final)).setEntry xlen group final
        i).countDown xlen) := by
  have large := pageEntries_gt xlen
  have inGroup := Nat.mod_lt i (by omega : 0 < pageEntries xlen)
  have placePositive := Nat.pos_of_ne_zero place
  have split_ := Nat.div_add_mod' i (pageEntries xlen)
  have within : group ≤ table.mem_page_length / pageEntries xlen := by
    rw [← here]
    exact Nat.div_le_div_right below.le
  obtain ⟨above, positive, finalBelow, free, entry_eq, between⟩ := isFinal
  have finalInGroup := finalBelow.trans inGroup
  rw [here] at split_
  refine ⟨by omega, .inr free, fun j behind jBelow => ?_, ⟨?_, ?_, ?_, rfl,
    ?_, ?_⟩, fun other otherWithin => ?_⟩
  · have taken := between (j - group * pageEntries xlen) (by omega) (by omega)
    rwa [Nat.add_sub_cancel' (by omega)] at taken
  · simp
  · simp
  · simp only [links_counters, links_setEntry positive finalInGroup,
      links_setEntry placePositive inGroup, entry_eq, split_]
  · simp
  · simp
  · simp only [head_counters, head_setEntry positive finalInGroup,
      head_setEntry placePositive inGroup]
    by_cases same : other = group
    · rw [same]
      exact (serving.heads group within).insert_behind nonzero (by omega)
        fun _ => Iff.rfl
    · apply serving.other_head otherWithin
      rw [here]
      exact same

include serving place below in
/-- A page before the free pages of its group is linked behind the last free
page of an earlier group. -/
theorem kfree_page_earlier
    {group earlier final : Nat}
    (here : i / pageEntries xlen = group)
    (noneBefore : ∀ j, Open (table.links xlen) table.mem_page_length j →
      j / pageEntries xlen = group → i ≤ j)
    (earlierBelow : earlier < group)
    (emptyBetween : ∀ other, earlier < other → other < group →
      table.head xlen other = 0)
    (isFinal : Serving.FinalPage xlen table earlier (pageEntries xlen)
      final) :
    Gives xlen table i (earlier * pageEntries xlen + final)
      ((((table.setEntry xlen group (i % pageEntries xlen)
        (table.entry xlen earlier final)).setEntry xlen group 0
        (i % pageEntries xlen)).setEntry xlen earlier final
        i).countDown xlen) := by
  have large := pageEntries_gt xlen
  have inGroup := Nat.mod_lt i (by omega : 0 < pageEntries xlen)
  have placePositive := Nat.pos_of_ne_zero place
  have split_ := Nat.div_add_mod' i (pageEntries xlen)
  obtain ⟨above, positive, finalBelow, free, entry_eq, between⟩ := isFinal
  have groupStart : (earlier + 1) * pageEntries xlen ≤
      group * pageEntries xlen := Nat.mul_le_mul_right _ earlierBelow
  rw [Nat.succ_mul] at groupStart
  rw [here] at split_
  refine ⟨by omega, .inr free, fun j behind jBelow => ?_, ⟨?_, ?_, ?_, rfl,
    ?_, ?_⟩, fun other otherWithin => ?_⟩
  · -- the pages up to `i` are in groups without a free page
    by_cases inEarlier : j < (earlier + 1) * pageEntries xlen
    · rw [Nat.succ_mul] at inEarlier
      have taken := between (j - earlier * pageEntries xlen) (by omega)
        (by omega)
      rwa [Nat.add_sub_cancel' (by omega)] at taken
    · apply Serving.taken_of_not_open (by omega)
        (by omega : j ≤ table.mem_page_length)
      intro isOpen
      have low : earlier < j / pageEntries xlen :=
        (Nat.le_div_iff_mul_le (by omega)).mpr (Nat.le_of_not_lt inEarlier)
      have high : j / pageEntries xlen ≤ group := by
        rw [← here]
        exact Nat.div_le_div_right jBelow.le
      rcases Nat.lt_or_eq_of_le high with before | same
      · have within : j / pageEntries xlen ≤
            table.mem_page_length / pageEntries xlen :=
          Nat.div_le_div_right isOpen.2.1
        rcases serving.heads _ within with ⟨-, none_⟩ | ⟨nonzero, -⟩
        · exact none_ j rfl isOpen
        · have := emptyBetween _ low before
          omega
      · have := noneBefore j isOpen same
        omega
  · simp
  · simp
  · simp only [links_counters, links_setEntry positive finalBelow,
      links_setEntry_zero, links_setEntry placePositive inGroup, entry_eq,
      split_]
  · simp
  · simp
  · simp only [head_counters, head_setEntry positive finalBelow,
      head_setEntry_zero, head_setEntry placePositive inGroup]
    by_cases same : other = group
    · rw [same, Function.update_self, ← here]
      apply GroupHead.insert_first (by omega) place ?_ fun _ => Iff.rfl
      rw [here]
      exact noneBefore
    · rw [Function.update_of_ne same]
      apply serving.other_head otherWithin
      rw [here]
      exact same

include serving place below in
/-- `kfree_page` puts a taken page back into the list. -/
theorem kfree_page_gives
    (taken : table.links xlen i = 1) :
    ∃ final, Gives xlen table i final
      (table.kfree_page xlen (table.mem_page_start + i * PAGE_SIZE)) := by
  have large := pageEntries_gt xlen
  have inGroup := Nat.mod_lt i (by omega : 0 < pageEntries xlen)
  have positive : 0 < i := Nat.pos_of_ne_zero fun zero => by
    rw [zero, Nat.zero_mod] at place
    exact place rfl
  obtain ⟨accepted, index⟩ :=
    PageBase.page_accepted_of_aligned serving.aligned positive
  have nextOpen := serving.next_open
  unfold kfree_page
  rw [if_neg accepted]
  simp only [index, positive.ne', if_false]
  by_cases before : i < table.mem_page_next_free
  · rw [if_pos before]
    exact ⟨0, kfree_page_front serving place below before⟩
  have nextBefore : table.mem_page_next_free < i := by
    apply Nat.lt_of_le_of_ne (Nat.le_of_not_lt before)
    rintro rfl
    exact nextOpen.2.2 taken
  rw [if_neg before]
  have within : i / pageEntries xlen ≤
      table.mem_page_length / pageEntries xlen :=
    Nat.div_le_div_right below.le
  have groupHead := serving.heads _ within
  by_cases inside : table.entry xlen (i / pageEntries xlen) 0 ≠ 0 ∧
      table.entry xlen (i / pageEntries xlen) 0 < i % pageEntries xlen
  · rw [if_pos inside]
    exact ⟨_, kfree_page_inside serving place below rfl inside.1
      (serving.final_page within inside.1 inGroup.le inside.2)⟩
  · rw [if_neg inside]
    -- no page of the group before `i` is free, so the next one is earlier
    have noneBefore : ∀ j,
        Open (table.links xlen) table.mem_page_length j →
        j / pageEntries xlen = i / pageEntries xlen → i ≤ j := by
      intro j isOpen same
      rcases groupHead with ⟨-, none_⟩ | ⟨nonzero, -, -, least⟩
      · exact absurd isOpen (none_ j same)
      · have low := least ⟨isOpen, same⟩
        have split_ := Nat.div_add_mod' i (pageEntries xlen)
        rw [entry_zero] at inside
        omega
    have nextEarlier : table.mem_page_next_free / pageEntries xlen <
        i / pageEntries xlen := by
      apply Nat.lt_of_le_of_ne (Nat.div_le_div_right nextBefore.le)
      intro same
      have := noneBefore _ nextOpen same
      omega
    have nextHead : table.head xlen
        (table.mem_page_next_free / pageEntries xlen) ≠ 0 := by
      have nextWithin := nextEarlier.le.trans within
      rcases serving.heads _ nextWithin with ⟨-, none_⟩ | ⟨nonzero, -⟩
      · exact absurd nextOpen (none_ _ rfl)
      · exact nonzero.ne'
    obtain ⟨earlier, earlierBelow, nonzero, emptyBetween, call⟩ :=
      linkFromEarlierSection_eq i table ⟨_, nextEarlier, nextHead⟩
    have earlierWithin := earlierBelow.le.trans within
    obtain ⟨headInGroup, -⟩ :=
      (serving.heads earlier earlierWithin).isLeast nonzero
    rw [call]
    exact ⟨_, kfree_page_earlier serving place below rfl noneBefore
      earlierBelow emptyBetween
      (serving.final_page earlierWithin nonzero le_rfl headInGroup)⟩

end Give

/-! ## What stays true -/

namespace Serving

variable {after : PageTable}

/-- Giving a page back keeps the allocator serving. -/
theorem give
    {i final : Nat}
    (serving : Serving xlen table)
    (positive : 0 < i)
    (below : i < table.mem_page_length)
    (taken : table.links xlen i = 1)
    (gives : Gives xlen table i final after) :
    Serving xlen after ∧ ∀ j,
      Open (after.links xlen) after.mem_page_length j ↔
        Open (table.links xlen) table.mem_page_length j ∨ j = i := by
  obtain ⟨finalBelow, finalLinked, between, becomes, heads⟩ := gives
  have openIff : ∀ j, Open (after.links xlen) after.mem_page_length j ↔
      Open (table.links xlen) table.mem_page_length j ∨ j = i := by
    rw [becomes.links_eq, becomes.length_eq]
    exact serving.threaded.open_give_iff positive below taken finalBelow
      finalLinked between
  refine ⟨⟨?_, ?_, ?_, fun group within => ?_, fun j behind inGroup => ?_,
    ?_, ?_⟩, openIff⟩
  · rw [becomes.start_eq]
    exact serving.aligned
  · rw [becomes.links_eq, becomes.length_eq]
    exact serving.threaded.give positive below taken finalBelow finalLinked
      between
  · rw [becomes.length_eq]
    exact serving.place
  · rw [becomes.length_eq] at within
    exact (heads group within).congr fun j _ => openIff j
  · rw [becomes.length_eq] at behind inGroup
    rw [becomes.links_eq, Function.update_of_ne (by omega),
      Function.update_of_ne (by omega)]
    exact serving.fresh j behind inGroup
  · rw [becomes.length_eq, becomes.max_eq]
    exact serving.bounded
  · rw [becomes.length_eq, becomes.start_eq]
    exact serving.addressed

/-- Handing out a page that was given back keeps the allocator serving. -/
theorem reuse
    (serving : Serving xlen table)
    (reused : table.mem_page_next_free < table.mem_page_length)
    {num : Nat}
    (becomes : Becomes xlen table after
      (Function.update
        (Function.update (table.links xlen) table.mem_page_next_free 1)
        0 (table.links xlen table.mem_page_next_free))
      (Function.update (table.head xlen)
        (table.mem_page_next_free / pageEntries xlen)
        (if table.links xlen table.mem_page_next_free / pageEntries xlen =
            table.mem_page_next_free / pageEntries xlen then
          table.links xlen table.mem_page_next_free % pageEntries xlen
        else 0))
      table.mem_page_length num) :
    Serving xlen after ∧ ∀ j,
      Open (after.links xlen) after.mem_page_length j ↔
        Open (table.links xlen) table.mem_page_length j ∧
          j ≠ table.mem_page_next_free := by
  have large := pageEntries_gt xlen
  have nextOpen := serving.next_open
  have openIff : ∀ j, Open (after.links xlen) after.mem_page_length j ↔
      Open (table.links xlen) table.mem_page_length j ∧
        j ≠ table.mem_page_next_free := by
    rw [becomes.links_eq, becomes.length_eq]
    exact serving.threaded.open_take_iff
  obtain ⟨⟨up, secondOpen⟩, second⟩ :=
    serving.threaded.next _ reused (.inr nextOpen.2.2)
  have secondLeast : ∀ j, Open (after.links xlen) after.mem_page_length j →
      table.links xlen table.mem_page_next_free ≤ j := by
    intro j isOpen
    obtain ⟨wasOpen, other⟩ := (openIff j).mp isOpen
    have above := serving.next_le wasOpen
    exact second ⟨by omega, wasOpen⟩
  refine ⟨⟨?_, ?_, ?_, fun group within => ?_, fun j behind inGroup => ?_,
    ?_, ?_⟩, openIff⟩
  · rw [becomes.start_eq]
    exact serving.aligned
  · rw [becomes.links_eq, becomes.length_eq]
    exact serving.threaded.take reused
  · rw [becomes.length_eq]
    exact serving.place
  · rw [becomes.length_eq] at within
    rw [becomes.head_eq]
    by_cases here : group = table.mem_page_next_free / pageEntries xlen
    · rw [here, Function.update_self]
      by_cases same : table.links xlen table.mem_page_next_free /
          pageEntries xlen = table.mem_page_next_free / pageEntries xlen
      · rw [if_pos same, ← same]
        apply GroupHead.of_least (by omega)
          ((openIff _).mpr ⟨secondOpen, up.ne'⟩) (place_of_open secondOpen)
        exact fun j isOpen _ => secondLeast j isOpen
      · rw [if_neg same]
        refine .inl ⟨rfl, fun j inGroup isOpen => same ?_⟩
        apply Nat.le_antisymm
        · rw [← inGroup]
          exact Nat.div_le_div_right (secondLeast j isOpen)
        · exact Nat.div_le_div_right up.le
    · rw [Function.update_of_ne here]
      apply (serving.heads group within).congr
      intro j inGroup
      rw [openIff, and_iff_left_iff_imp]
      rintro - rfl
      exact here inGroup.symm
  · rw [becomes.length_eq] at behind inGroup
    rw [becomes.links_eq, Function.update_of_ne (by omega),
      Function.update_of_ne (by omega)]
    exact serving.fresh j behind inGroup
  · rw [becomes.length_eq, becomes.max_eq]
    exact serving.bounded
  · rw [becomes.length_eq, becomes.start_eq]
    exact serving.addressed

/-- At the frontier no other page is free. -/
theorem open_iff_of_atFrontier
    (serving : Serving xlen table)
    (atFrontier : table.mem_page_next_free = table.mem_page_length)
    (j : Nat) :
    Open (table.links xlen) table.mem_page_length j ↔
      j = table.mem_page_length := by
  constructor
  · intro isOpen
    have := serving.next_le isOpen
    have := isOpen.2.1
    omega
  · rintro rfl
    simpa only [atFrontier] using serving.next_open

/-- At the frontier the earlier groups have no free page. -/
theorem head_of_atFrontier
    (serving : Serving xlen table)
    (atFrontier : table.mem_page_next_free = table.mem_page_length)
    {group : Nat}
    (earlier : group < table.mem_page_length / pageEntries xlen) :
    table.head xlen group = 0 := by
  apply (serving.heads group earlier.le).eq_zero
  intro j inGroup isOpen
  obtain rfl := (serving.open_iff_of_atFrontier atFrontier j).mp isOpen
  exact earlier.ne inGroup.symm

/-- At the frontier the first entry of the section leads to the frontier. -/
theorem head_frontier
    (serving : Serving xlen table)
    (atFrontier : table.mem_page_next_free = table.mem_page_length) :
    table.head xlen (table.mem_page_length / pageEntries xlen) =
      table.mem_page_length % pageEntries xlen := by
  have openIff := serving.open_iff_of_atFrontier atFrontier
  apply (serving.heads _ le_rfl).eq_mod ((openIff _).mpr rfl)
  intro j isOpen _
  exact ((openIff j).mp isOpen).ge

/-- Moving the frontier up inside its group keeps the allocator serving. -/
theorem grow
    (serving : Serving xlen table)
    (atFrontier : table.mem_page_next_free = table.mem_page_length)
    (room : table.mem_page_length ≠ table.mem_page_max_length)
    (inside : (table.mem_page_length + 1) % pageEntries xlen ≠ 0)
    (fits : table.mem_page_start + table.mem_page_length * PAGE_SIZE <
      xlen.size)
    {num : Nat}
    (becomes : Becomes xlen table after
      (Function.update
        (Function.update (table.links xlen) table.mem_page_length 1)
        0 (table.mem_page_length + 1))
      (Function.update (table.head xlen)
        (table.mem_page_length / pageEntries xlen)
        (xlen.wrap (table.head xlen
          (table.mem_page_length / pageEntries xlen) + 1)))
      (table.mem_page_length + 1) num) :
    Serving xlen after ∧ ∀ j,
      Open (after.links xlen) after.mem_page_length j ↔
        j = table.mem_page_length + 1 := by
  have large := pageEntries_gt xlen
  have bounded := serving.bounded
  have sameGroup : (table.mem_page_length + 1) / pageEntries xlen =
      table.mem_page_length / pageEntries xlen := by
    rw [Nat.succ_div, if_neg fun divides =>
      inside (Nat.mod_eq_zero_of_dvd divides), Nat.add_zero]
  have fresh : table.links xlen (table.mem_page_length + 1) = 0 :=
    serving.fresh _ (Nat.le_succ _) sameGroup
  have openIff : ∀ j, Open (after.links xlen) after.mem_page_length j ↔
      j = table.mem_page_length + 1 := by
    rw [becomes.links_eq, becomes.length_eq]
    exact serving.threaded.open_extend_iff atFrontier (by omega)
  refine ⟨⟨?_, ?_, ?_, fun group within => ?_, fun j behind inGroup => ?_,
    ?_, fun j below place => ?_⟩, openIff⟩
  · rw [becomes.start_eq]
    exact serving.aligned
  · rw [becomes.links_eq, becomes.length_eq]
    exact serving.threaded.extend atFrontier (by omega)
  · rw [becomes.length_eq]
    exact inside
  · rw [becomes.length_eq, sameGroup] at within
    rw [becomes.head_eq]
    by_cases here : group = table.mem_page_length / pageEntries xlen
    · have place := Nat.mod_lt table.mem_page_length
        (by omega : 0 < pageEntries xlen)
      have small := pageEntries_lt_size xlen
      have nextPlace : (table.mem_page_length + 1) % pageEntries xlen =
          table.mem_page_length % pageEntries xlen + 1 := by
        have split_ := Nat.div_add_mod' (table.mem_page_length + 1)
          (pageEntries xlen)
        have before := Nat.div_add_mod' table.mem_page_length
          (pageEntries xlen)
        rw [sameGroup] at split_
        omega
      rw [here, Function.update_self, serving.head_frontier atFrontier,
        Xlen.wrap_of_lt (by omega), ← nextPlace, ← sameGroup]
      apply GroupHead.of_least (by omega) ((openIff _).mpr rfl) inside
      exact fun j isOpen _ => ((openIff j).mp isOpen).ge
    · rw [Function.update_of_ne here,
        serving.head_of_atFrontier atFrontier (by omega)]
      refine .inl ⟨rfl, fun j inGroup isOpen => ?_⟩
      obtain rfl := (openIff j).mp isOpen
      exact here (by rw [← inGroup, sameGroup])
  · rw [becomes.length_eq] at behind inGroup
    rw [becomes.links_eq, Function.update_of_ne (by omega),
      Function.update_of_ne (by omega)]
    exact serving.fresh j (by omega) (inGroup.trans sameGroup)
  · rw [becomes.length_eq, becomes.max_eq]
    omega
  · rw [becomes.length_eq] at below
    rw [becomes.start_eq]
    rcases Nat.lt_succ_iff_lt_or_eq.mp below with before | rfl
    · exact serving.addressed j before place
    · exact fits

/-- Stepping over the section of the next group keeps the allocator
serving. -/
theorem nextGroup
    (serving : Serving xlen table)
    (atFrontier : table.mem_page_next_free = table.mem_page_length)
    (room : table.mem_page_length ≠ table.mem_page_max_length)
    (last : (table.mem_page_length + 1) % pageEntries xlen = 0)
    (more : table.mem_page_length + 1 ≠ table.mem_page_max_length)
    (fits : table.mem_page_start + table.mem_page_length * PAGE_SIZE <
      xlen.size)
    {num : Nat}
    {links : Nat → Nat}
    (becomes : Becomes xlen table after links
      (Function.update
        (Function.update (table.head xlen)
          (table.mem_page_length / pageEntries xlen) 0)
        (table.mem_page_length / pageEntries xlen + 1) 1)
      (table.mem_page_length + 2) num)
    (first : links 0 = table.mem_page_length + 2)
    (handedOut : links table.mem_page_length = 1)
    (earlier : ∀ i, 0 < i → i < table.mem_page_length →
      links i = table.links xlen i)
    (cleared : ∀ i, table.mem_page_length + 1 < i →
      i / pageEntries xlen = table.mem_page_length / pageEntries xlen + 1 →
      links i = 0) :
    Serving xlen after ∧ ∀ j,
      Open (after.links xlen) after.mem_page_length j ↔
        j = table.mem_page_length + 2 := by
  have large := pageEntries_gt xlen
  have bounded := serving.bounded
  have divides := Nat.dvd_of_mod_eq_zero last
  have next : (table.mem_page_length + 1) / pageEntries xlen =
      table.mem_page_length / pageEntries xlen + 1 :=
    Nat.succ_div_of_dvd divides
  have place : (table.mem_page_length + 2) % pageEntries xlen = 1 := by
    obtain ⟨count, same⟩ := divides
    rw [show table.mem_page_length + 2 = pageEntries xlen * count + 1 by omega,
      Nat.mul_add_mod, Nat.mod_eq_of_lt (by omega)]
  have group : (table.mem_page_length + 2) / pageEntries xlen =
      table.mem_page_length / pageEntries xlen + 1 := by
    rw [← next, Nat.succ_div, if_neg, Nat.add_zero]
    intro both
    exact absurd (place.symm.trans (Nat.mod_eq_zero_of_dvd both)) (by decide)
  have taken : ∀ i, 0 < i → i < table.mem_page_length + 2 →
      links i = 1 := by
    intro i positive below
    by_cases before : i < table.mem_page_length
    · rw [earlier i positive before]
      apply taken_of_not_open positive before.le
      intro isOpen
      exact before.ne ((serving.open_iff_of_atFrontier atFrontier i).mp isOpen)
    · by_cases here : i = table.mem_page_length
      · rw [here]
        exact handedOut
      · obtain rfl : i = table.mem_page_length + 1 := by omega
        rw [← becomes.links_eq]
        exact links_of_multiple positive last
  have free : links (table.mem_page_length + 2) ≠ 1 := by
    rw [cleared _ (by omega) group]
    decide
  have openIff : ∀ j, Open (after.links xlen) after.mem_page_length j ↔
      j = table.mem_page_length + 2 := by
    rw [becomes.links_eq, becomes.length_eq]
    intro j
    constructor
    · rintro ⟨positive, within, isFree⟩
      by_contra other
      exact isFree (taken j positive (by omega))
    · rintro rfl
      exact ⟨by omega, le_rfl, free⟩
  refine ⟨⟨?_, ?_, ?_, fun index within => ?_, fun j behind inGroup => ?_,
    ?_, fun j below jPlace => ?_⟩, openIff⟩
  · rw [becomes.start_eq]
    exact serving.aligned
  · rw [becomes.links_eq, becomes.length_eq]
    exact Threaded.of_single (by omega) first free taken
  · rw [becomes.length_eq]
    omega
  · rw [becomes.length_eq, group] at within
    rw [becomes.head_eq]
    by_cases here : index = table.mem_page_length / pageEntries xlen + 1
    · have nonzero : (table.mem_page_length + 2) % pageEntries xlen ≠ 0 := by
        rw [place]
        decide
      have first := GroupHead.of_least (by omega)
        ((openIff (table.mem_page_length + 2)).mpr rfl) nonzero
        fun j isOpen _ => ((openIff j).mp isOpen).ge
      rw [group, place] at first
      rw [here, Function.update_self]
      exact first
    · have zero : Function.update (table.head xlen)
          (table.mem_page_length / pageEntries xlen) 0 index = 0 := by
        by_cases old : index = table.mem_page_length / pageEntries xlen
        · rw [old, Function.update_self]
        · rw [Function.update_of_ne old]
          exact serving.head_of_atFrontier atFrontier (by omega)
      rw [Function.update_of_ne here, zero]
      refine .inl ⟨rfl, fun j inGroup isOpen => here ?_⟩
      obtain rfl := (openIff j).mp isOpen
      rw [← inGroup, group]
  · rw [becomes.length_eq] at behind inGroup
    rw [becomes.links_eq]
    exact cleared j (by omega) (inGroup.trans group)
  · rw [becomes.length_eq, becomes.max_eq]
    omega
  · rw [becomes.length_eq] at below
    rw [becomes.start_eq]
    rcases Nat.lt_trichotomy j table.mem_page_length with before | rfl | after
    · exact serving.addressed j before jPlace
    · exact fits
    · obtain rfl : j = table.mem_page_length + 1 := by omega
      exact absurd last jPlace

/-- After the last page of the last group the allocator is spent. -/
theorem spent
    (serving : Serving xlen table)
    (atFrontier : table.mem_page_next_free = table.mem_page_length)
    {num : Nat}
    (becomes : Becomes xlen table after
      (Function.update
        (Function.update (table.links xlen) table.mem_page_length 1) 0 0)
      (Function.update (table.head xlen)
        (table.mem_page_length / pageEntries xlen) 0)
      (table.mem_page_length + 1) num) :
    Spent xlen after := by
  refine ⟨?_, fun i below => ?_⟩
  · rw [← links_zero xlen, becomes.links_eq, Function.update_self]
  · rw [becomes.length_eq] at below
    have within : i / pageEntries xlen ≤
        table.mem_page_length / pageEntries xlen :=
      Nat.div_le_div_right (Nat.lt_succ_iff.mp below)
    rw [becomes.head_eq]
    by_cases here : i / pageEntries xlen =
        table.mem_page_length / pageEntries xlen
    · rw [here, Function.update_self]
    · rw [Function.update_of_ne here]
      exact serving.head_of_atFrontier atFrontier (by omega)

end Serving

end PageTable

end Memalloc
end EchelonSbi
