import Mathlib.Logic.Function.Basic
import Mathlib.Order.Bounds.Basic

/-!
# A free list threaded through an array

Positions `1`, …, `frontier` of an array `link` are either taken, which is the
entry `1`, or open.  The entry of an open position below the frontier is the
next open position, the entry at position `0` is the first one, and the
frontier is the last one.  Taking the first open position, moving the frontier
up and giving a position back keep the array threaded.
-/

namespace EchelonSbi
namespace Foundation

/-- A position that is not taken. -/
def Open (link : Nat → Nat) (frontier i : Nat) : Prop :=
  0 < i ∧ i ≤ frontier ∧ link i ≠ 1

/-- Every link leads to the next open position. -/
structure Threaded (link : Nat → Nat) (frontier : Nat) : Prop where
  positive : 0 < frontier
  frontierOpen : link frontier ≠ 1
  next : ∀ i < frontier, i = 0 ∨ link i ≠ 1 →
    IsLeast { j | i < j ∧ Open link frontier j } (link i)

namespace Threaded

variable {link : Nat → Nat} {frontier : Nat}

/-- Position 0 leads to an open position. -/
theorem head_open (threaded : Threaded link frontier) :
    Open link frontier (link 0) :=
  (threaded.next 0 threaded.positive (.inl rfl)).1.2

/-- Position 0 leads to the first open position. -/
theorem head_le
    (threaded : Threaded link frontier)
    {i : Nat}
    (isOpen : Open link frontier i) :
    link 0 ≤ i :=
  (threaded.next 0 threaded.positive (.inl rfl)).2 ⟨isOpen.1, isOpen⟩

/-- A link leads upwards. -/
theorem lt_link
    (threaded : Threaded link frontier)
    {i : Nat}
    (below : i < frontier)
    (linked : i = 0 ∨ link i ≠ 1) :
    i < link i :=
  (threaded.next i below linked).1.1

/-- A link stays within the frontier. -/
theorem link_le
    (threaded : Threaded link frontier)
    {i : Nat}
    (below : i < frontier)
    (linked : i = 0 ∨ link i ≠ 1) :
    link i ≤ frontier :=
  (threaded.next i below linked).1.2.2.1

/-- Entries behind the frontier do not matter. -/
theorem congr
    (threaded : Threaded link frontier)
    {other : Nat → Nat}
    (same : ∀ i ≤ frontier, other i = link i) :
    Threaded other frontier := by
  have openIff (j : Nat) : Open other frontier j ↔ Open link frontier j := by
    unfold Open
    by_cases within : j ≤ frontier
    · rw [same j within]
    · simp [within]
  refine ⟨threaded.positive, ?_, ?_⟩
  · rw [same _ le_rfl]
    exact threaded.frontierOpen
  · intro i below linked
    rw [same i below.le] at linked ⊢
    simpa only [openIff] using threaded.next i below linked

/-- Taking the first open position leaves the others open. -/
theorem open_take_iff
    (threaded : Threaded link frontier)
    (j : Nat) :
    Open (Function.update (Function.update link (link 0) 1) 0
      (link (link 0))) frontier j ↔ Open link frontier j ∧ j ≠ link 0 := by
  have headPositive := threaded.head_open.1
  unfold Open
  by_cases zero : j = 0
  · simp [zero]
  · by_cases taken : j = link 0
    · simp [taken, headPositive.ne']
    · simp [Function.update, zero, taken]

/-- An array in which only the frontier is open. -/
theorem of_single
    (positive : 0 < frontier)
    (head : link 0 = frontier)
    (free : link frontier ≠ 1)
    (taken : ∀ i, 0 < i → i < frontier → link i = 1) :
    Threaded link frontier := by
  have onlyFrontier {j : Nat} (isOpen : Open link frontier j) :
      j = frontier := by
    by_contra other
    exact isOpen.2.2 (taken j isOpen.1 (by have := isOpen.2.1; omega))
  refine ⟨positive, free, fun i below linked => ?_⟩
  have first : i = 0 := by
    by_contra nonzero
    exact linked.resolve_left nonzero
      (taken i (Nat.pos_of_ne_zero nonzero) below)
  rw [first, head]
  refine ⟨⟨positive, positive, le_rfl, free⟩, ?_⟩
  rintro j ⟨-, isOpen⟩
  exact (onlyFrontier isOpen).ge

/-- Take the first open position when it lies below the frontier. -/
theorem take
    (threaded : Threaded link frontier)
    (reused : link 0 < frontier) :
    Threaded
      (Function.update (Function.update link (link 0) 1) 0 (link (link 0)))
      frontier := by
  have head := threaded.head_open
  have openIff := threaded.open_take_iff
  refine ⟨threaded.positive, ?_, ?_⟩
  · have := ((openIff frontier).mpr
      ⟨⟨threaded.positive, le_rfl, threaded.frontierOpen⟩, reused.ne'⟩).2.2
    exact this
  intro i below linked
  by_cases first : i = 0
  · -- behind the first open position comes the second
    subst first
    rw [Function.update_self]
    have second := threaded.next _ reused (.inr head.2.2)
    refine ⟨⟨by have := second.1.1; omega, (openIff _).mpr
      ⟨second.1.2, second.1.1.ne'⟩⟩, ?_⟩
    rintro j ⟨-, isOpen⟩
    obtain ⟨wasOpen, other⟩ := (openIff j).mp isOpen
    have := threaded.head_le wasOpen
    exact second.2 ⟨by omega, wasOpen⟩
  · have isOpen := (openIff i).mp
      ⟨Nat.pos_of_ne_zero first, below.le, linked.resolve_left first⟩
    have above := threaded.head_le isOpen.1
    have kept : Function.update (Function.update link (link 0) 1) 0
        (link (link 0)) i = link i := by
      simp [Function.update, first, isOpen.2]
    rw [kept]
    obtain ⟨⟨up, linkOpen⟩, least⟩ :=
      threaded.next i below (.inr isOpen.1.2.2)
    refine ⟨⟨up, (openIff _).mpr ⟨linkOpen, by omega⟩⟩, ?_⟩
    rintro j ⟨behind, jOpen⟩
    exact least ⟨behind, ((openIff j).mp jOpen).1⟩

/-- Moving the frontier up from the only open position leaves it the only
one. -/
theorem open_extend_iff
    (threaded : Threaded link frontier)
    (full : link 0 = frontier)
    (fresh : link (frontier + 1) ≠ 1)
    (j : Nat) :
    Open (Function.update (Function.update link frontier 1) 0
      (frontier + 1)) (frontier + 1) j ↔ j = frontier + 1 := by
  have positive := threaded.positive
  constructor
  · rintro ⟨jPositive, within, free⟩
    by_contra other
    by_cases atFrontier : j = frontier
    · simp [Function.update, atFrontier, positive.ne'] at free
    · simp only [Function.update, jPositive.ne', atFrontier, dite_false]
        at free
      have := threaded.head_le ⟨jPositive, by omega, free⟩
      omega
  · rintro rfl
    refine ⟨by omega, le_rfl, ?_⟩
    simpa [Function.update] using fresh

/-- Move the frontier up when no position below it is open. -/
theorem extend
    (threaded : Threaded link frontier)
    (full : link 0 = frontier)
    (fresh : link (frontier + 1) ≠ 1) :
    Threaded
      (Function.update (Function.update link frontier 1) 0 (frontier + 1))
      (frontier + 1) := by
  have openIff := threaded.open_extend_iff full fresh
  have topOpen := (openIff (frontier + 1)).mpr rfl
  refine ⟨by omega, topOpen.2.2, ?_⟩
  intro i below linked
  have first : i = 0 := by
    by_contra nonzero
    have := (openIff i).mp
      ⟨Nat.pos_of_ne_zero nonzero, by omega, linked.resolve_left nonzero⟩
    omega
  subst first
  rw [Function.update_self]
  refine ⟨⟨by omega, topOpen⟩, ?_⟩
  rintro j ⟨-, isOpen⟩
  exact ((openIff j).mp isOpen).ge

/-- The old successor of the last linked position before a taken one lies
behind it. -/
theorem lt_link_final
    (threaded : Threaded link frontier)
    {i final : Nat}
    (below : i < frontier)
    (taken : link i = 1)
    (finalBelow : final < i)
    (finalLinked : final = 0 ∨ link final ≠ 1)
    (between : ∀ j, final < j → j < i → link j = 1) :
    i < link final := by
  have finalNext := threaded.next final (by omega) finalLinked
  have up := finalNext.1.1
  have free := finalNext.1.2.2.2
  by_contra notBeyond
  rcases Nat.lt_or_eq_of_le (Nat.le_of_not_lt notBeyond) with before | equal
  · exact free (between _ up before)
  · rw [equal] at free
    exact free taken

/-- Giving a position back opens it and no other one. -/
theorem open_give_iff
    (threaded : Threaded link frontier)
    {i final : Nat}
    (positive : 0 < i)
    (below : i < frontier)
    (taken : link i = 1)
    (finalBelow : final < i)
    (finalLinked : final = 0 ∨ link final ≠ 1)
    (between : ∀ j, final < j → j < i → link j = 1)
    (j : Nat) :
    Open (Function.update (Function.update link i (link final)) final i)
      frontier j ↔ Open link frontier j ∨ j = i := by
  have other : final ≠ i := finalBelow.ne
  have beyond := threaded.lt_link_final below taken finalBelow finalLinked
    between
  unfold Open
  by_cases here : j = i
  · subst here
    simp only [or_true, iff_true]
    refine ⟨positive, below.le, ?_⟩
    rw [Function.update_of_ne other.symm, Function.update_self]
    omega
  · by_cases atFinal : j = final
    · subst atFinal
      rw [Function.update_self]
      simp only [here, or_false]
      constructor
      · rintro ⟨jPositive, within, -⟩
        exact ⟨jPositive, within, finalLinked.resolve_left jPositive.ne'⟩
      · rintro ⟨jPositive, within, -⟩
        exact ⟨jPositive, within, by omega⟩
    · simp [Function.update, here, atFinal]

/-- Give back a taken position.  `final` is the last linked position before
it: an open one, or position 0. -/
theorem give
    (threaded : Threaded link frontier)
    {i final : Nat}
    (positive : 0 < i)
    (below : i < frontier)
    (taken : link i = 1)
    (finalBelow : final < i)
    (finalLinked : final = 0 ∨ link final ≠ 1)
    (between : ∀ j, final < j → j < i → link j = 1) :
    Threaded (Function.update (Function.update link i (link final)) final i)
      frontier := by
  have finalNext := threaded.next final (by omega) finalLinked
  have beyond := threaded.lt_link_final below taken finalBelow finalLinked
    between
  have atI : Function.update (Function.update link i (link final)) final i i =
      link final := by
    simp [Function.update, finalBelow.ne']
  have openIff := threaded.open_give_iff positive below taken finalBelow
    finalLinked between
  refine ⟨threaded.positive, ?_, ?_⟩
  · exact ((openIff frontier).mpr (.inl
      ⟨threaded.positive, le_rfl, threaded.frontierOpen⟩)).2.2
  intro k kBelow linked
  by_cases atFinal : k = final
  · subst atFinal
    rw [Function.update_self]
    refine ⟨⟨finalBelow, (openIff i).mpr (.inr rfl)⟩, ?_⟩
    rintro j ⟨behind, jOpen⟩
    rcases (openIff j).mp jOpen with wasOpen | rfl
    · by_contra before
      exact wasOpen.2.2 (between j behind (by omega))
    · exact le_rfl
  · by_cases here : k = i
    · subst here
      rw [atI]
      refine ⟨⟨beyond, (openIff _).mpr (.inl finalNext.1.2)⟩, ?_⟩
      rintro j ⟨behind, jOpen⟩
      rcases (openIff j).mp jOpen with wasOpen | rfl
      · exact finalNext.2 ⟨by omega, wasOpen⟩
      · exact absurd behind (by omega)
    · have kept : Function.update (Function.update link i (link final)) final
          i k = link k := by
        simp [Function.update, here, atFinal]
      rw [kept] at linked ⊢
      have kNext := threaded.next k kBelow linked
      refine ⟨⟨kNext.1.1, (openIff _).mpr (.inl kNext.1.2)⟩, ?_⟩
      rintro j ⟨behind, jOpen⟩
      rcases (openIff j).mp jOpen with wasOpen | rfl
      · exact kNext.2 ⟨behind, wasOpen⟩
      · -- `k` lies before `i`, so its successor is at most `final`
        have kBefore : k < final := by
          by_contra notBefore
          rcases linked with rfl | free
          · omega
          · exact free (between k (by omega) behind)
        have finalOpen : Open link frontier final :=
          ⟨by omega, by omega, finalLinked.resolve_left (by omega)⟩
        exact (kNext.2 ⟨kBefore, finalOpen⟩).trans finalBelow.le

end Threaded

/-! ## Following the links -/

/-- Following the links from `first` visits the listed positions and comes to
`last`. -/
def Follows (link : Nat → Nat) : Nat → List Nat → Nat → Prop
  | first, [], last => first = last
  | first, i :: rest, last => first = i ∧ Follows link (link i) rest last

/-- From an open position the links visit the open positions from there to the
frontier, in ascending order. -/
theorem Threaded.follows_of_open
    {link : Nat → Nat}
    {frontier first : Nat}
    (threaded : Threaded link frontier)
    (isOpen : Open link frontier first) :
    ∃ positions, Follows link first positions frontier ∧
      positions.Pairwise (· < ·) ∧
      ∀ i, i ∈ positions ↔ first ≤ i ∧ i < frontier ∧ Open link frontier i := by
  induction distance : frontier - first using Nat.strong_induction_on
    generalizing first with
  | _ distance inductionHypothesis =>
      rcases Nat.lt_or_eq_of_le isOpen.2.1 with below | atFrontier
      · obtain ⟨⟨up, nextOpen⟩, least⟩ :=
          threaded.next first below (.inr isOpen.2.2)
        obtain ⟨positions, follows, ascending, listed⟩ :=
          inductionHypothesis (frontier - link first) (by omega) nextOpen rfl
        refine ⟨first :: positions, ⟨rfl, follows⟩, ?_, fun i => ?_⟩
        · apply List.pairwise_cons.mpr ⟨fun i present => ?_, ascending⟩
          have := ((listed i).mp present).1
          omega
        · rw [List.mem_cons, listed]
          constructor
          · rintro (rfl | ⟨above, iBelow, iOpen⟩)
            · exact ⟨le_rfl, below, isOpen⟩
            · exact ⟨by omega, iBelow, iOpen⟩
          · rintro ⟨from_, iBelow, iOpen⟩
            rcases Nat.lt_or_eq_of_le from_ with behind | here
            · exact .inr ⟨least ⟨behind, iOpen⟩, iBelow, iOpen⟩
            · exact .inl here.symm
      · refine ⟨[], atFrontier, .nil, fun i => ?_⟩
        simp only [List.not_mem_nil, false_iff]
        omega

/-- The links visit the open positions below the frontier in ascending
order. -/
theorem Threaded.follows
    {link : Nat → Nat}
    {frontier : Nat}
    (threaded : Threaded link frontier) :
    ∃ positions, Follows link (link 0) positions frontier ∧
      positions.Pairwise (· < ·) ∧
      ∀ i, i ∈ positions ↔ i < frontier ∧ Open link frontier i := by
  obtain ⟨positions, follows, ascending, listed⟩ :=
    threaded.follows_of_open threaded.head_open
  refine ⟨positions, follows, ascending, fun i => (listed i).trans ?_⟩
  exact and_iff_right_of_imp fun isOpen => threaded.head_le isOpen.2

/-! ## Groups of positions -/

/-- `head` is the place inside its group of the first open position of the
group, or 0 if no position of the group is open. -/
def GroupHead
    (size : Nat) (isOpen : Nat → Prop) (group head : Nat) : Prop :=
  (head = 0 ∧ ∀ i, i / size = group → ¬isOpen i) ∨
    (0 < head ∧ head < size ∧
      IsLeast { i | isOpen i ∧ i / size = group } (group * size + head))

namespace GroupHead

variable {size group head : Nat} {isOpen later : Nat → Prop}

/-- The head depends on the open positions of the group. -/
theorem congr
    (first : GroupHead size isOpen group head)
    (same : ∀ i, i / size = group → (later i ↔ isOpen i)) :
    GroupHead size later group head := by
  rcases first with ⟨zero, none_⟩ | ⟨positive, inGroup, ⟨isOpen, here⟩, least⟩
  · exact .inl ⟨zero, fun i here isOpen =>
      none_ i here ((same i here).mp isOpen)⟩
  · refine .inr ⟨positive, inGroup, ⟨(same _ here).mpr isOpen, here⟩, ?_⟩
    rintro i ⟨iOpen, iHere⟩
    exact least ⟨(same i iHere).mp iOpen, iHere⟩

/-- The place of the least open position is the head. -/
theorem of_least
    {i : Nat}
    (positive : 0 < size)
    (iOpen : isOpen i)
    (place : i % size ≠ 0)
    (least : ∀ j, isOpen j → j / size = i / size → i ≤ j) :
    GroupHead size isOpen (i / size) (i % size) := by
  have split_ : i / size * size + i % size = i := Nat.div_add_mod' i size
  refine .inr ⟨Nat.pos_of_ne_zero place, Nat.mod_lt i positive, ?_⟩
  rw [split_]
  exact ⟨⟨iOpen, rfl⟩, fun j jOpen => least j jOpen.1 jOpen.2⟩

/-- A group without open positions has the head 0. -/
theorem eq_zero
    (first : GroupHead size isOpen group head)
    (none_ : ∀ i, i / size = group → ¬isOpen i) :
    head = 0 := by
  rcases first with ⟨zero, -⟩ | ⟨-, -, ⟨isOpen, here⟩, -⟩
  · exact zero
  · exact absurd isOpen (none_ _ here)

/-- The head leads to an open position that no other one comes before. -/
theorem isLeast
    (first : GroupHead size isOpen group head)
    (nonzero : head ≠ 0) :
    head < size ∧
      IsLeast { i | isOpen i ∧ i / size = group } (group * size + head) := by
  rcases first with ⟨zero, -⟩ | ⟨-, inGroup, least⟩
  · exact absurd zero nonzero
  · exact ⟨inGroup, least⟩

/-- The head of a group whose least open position is known. -/
theorem eq_mod
    {i : Nat}
    (first : GroupHead size isOpen (i / size) head)
    (iOpen : isOpen i)
    (least : ∀ j, isOpen j → j / size = i / size → i ≤ j) :
    head = i % size := by
  rcases first with ⟨-, none_⟩ | ⟨-, -, ⟨headOpen, here⟩, lowest⟩
  · exact absurd iOpen (none_ i rfl)
  · have above := least _ headOpen here
    have below := lowest ⟨iOpen, rfl⟩
    have split_ := Nat.div_add_mod' i size
    omega

/-- Opening a position behind the head keeps the head. -/
theorem insert_behind
    {i : Nat}
    (first : GroupHead size isOpen group head)
    (nonzero : head ≠ 0)
    (behind : group * size + head ≤ i)
    (openIff : ∀ j, later j ↔ isOpen j ∨ j = i) :
    GroupHead size later group head := by
  obtain ⟨inGroup, ⟨headOpen, here⟩, least⟩ := first.isLeast nonzero
  refine .inr ⟨Nat.pos_of_ne_zero nonzero, inGroup,
    ⟨(openIff _).mpr (.inl headOpen), here⟩, ?_⟩
  rintro j ⟨jOpen, jHere⟩
  rcases (openIff j).mp jOpen with wasOpen | rfl
  · exact least ⟨wasOpen, jHere⟩
  · exact behind

/-- Opening a position before all open ones of its group makes it the head. -/
theorem insert_first
    {i : Nat}
    (positive : 0 < size)
    (place : i % size ≠ 0)
    (before : ∀ j, isOpen j → j / size = i / size → i ≤ j)
    (openIff : ∀ j, later j ↔ isOpen j ∨ j = i) :
    GroupHead size later (i / size) (i % size) := by
  apply of_least positive ((openIff i).mpr (.inr rfl)) place
  intro j jOpen here
  rcases (openIff j).mp jOpen with wasOpen | rfl
  · exact before j wasOpen here
  · exact le_rfl

end GroupHead

end Foundation
end EchelonSbi
