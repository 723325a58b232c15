/-
Paging through a sorted list with limit and offset.

A `Listing` has rows, the key they are sorted by, the items each row contributes to
a page, and a total.  Rows with equal keys may come in any order, and in another one
in every query, so a walk through the pages takes an ordering for each offset.

`partitions_iff` says which listings a walk partitions whatever the orderings are:
the total has to count the items, and no group of rows with equal keys may straddle
two pages, unless it contributes no item at all.
-/
import Mathlib.Data.List.Basic
import Mathlib.Data.List.Nodup
import Mathlib.Data.List.Perm.Basic
import Mathlib.Order.Lattice

namespace Paging

variable {ρ κ ι : Type*}

/-- Asking for one page after the other until there is no next one. -/
def walk (answer : Nat → List ι × Bool) (limit : Nat) : (fuel offset : Nat) → List ι
  | 0, _ => []
  | fuel + 1, offset =>
    let (items, hasNext) := answer offset
    items ++ if hasNext then walk answer limit fuel (offset + limit) else []

/-- The pages from an offset on. -/
def pagesFrom (total limit offset : Nat) : Nat := (total - 1 - offset) / limit + 1

/-- With fuel for every offset the walk is the pages one after the other. -/
theorem walk_eq (page : Nat → List ι) {total limit : Nat} (hpos : 0 < limit) (fuel offset : Nat)
    (hfuel : total < fuel + offset) (hstart : 0 < fuel) :
    walk (fun offset => (page offset, decide (offset + limit < total))) limit fuel offset =
      (List.range (pagesFrom total limit offset)).flatMap fun i => page (offset + i * limit) := by
  induction fuel generalizing offset with
  | zero => omega
  | succ fuel ih =>
    rw [walk]
    by_cases hnext : offset + limit < total
    · have hpages : pagesFrom total limit offset = pagesFrom total limit (offset + limit) + 1 := by
        have hsplit : total - 1 - offset = (total - 1 - (offset + limit)) + limit := by omega
        rw [pagesFrom, hsplit, Nat.add_div_right _ hpos, pagesFrom]
      simp only [hnext, decide_true, if_true]
      rw [ih (offset + limit) (by omega) (by omega), hpages, List.range_succ_eq_map, List.flatMap_cons,
        List.flatMap_map, Nat.zero_mul, Nat.add_zero]
      congr 2
      funext i
      congr 1
      rw [Nat.succ_mul]
      omega
    · have hone : pagesFrom total limit offset = 1 := by
        rw [pagesFrom, Nat.div_eq_of_lt (by omega)]
      simp [hnext, hone]

structure Listing (ρ κ ι : Type*) where
  rows : List ρ
  key : ρ → κ
  items : ρ → List ι
  total : Nat

namespace Listing

variable [LinearOrder κ] (l : Listing ρ κ ι)

/-- An answer that the database may give to the query without a limit. -/
def Orders (order : List ρ) : Prop :=
  order.Perm l.rows ∧ order.Pairwise fun r r' => l.key r ≤ l.key r'

/-- The items of a page, and whether there is a next one. -/
def page (limit : Nat) (order : List ρ) (offset : Nat) : List ι × Bool :=
  (((order.drop offset).take limit).flatMap l.items, decide (offset + limit < l.total))

def walk (limit : Nat) (orders : Nat → List ρ) : List ι :=
  Paging.walk (fun offset => l.page limit (orders offset) offset) limit (l.total + 1) 0

def allItems : List ι := l.rows.flatMap l.items

/-- Every walk returns each item once, and as many as the total says. -/
def Partitions (limit : Nat) : Prop :=
  ∀ orders : Nat → List ρ, (∀ offset, l.Orders (orders offset)) →
    (l.walk limit orders).Perm l.allItems ∧ (l.walk limit orders).length = l.total

/-- The rows with a smaller key. -/
def below (r : ρ) : Nat := l.rows.countP fun r' => l.key r' < l.key r

/-- The rows with a key at most as large. -/
def upTo (r : ρ) : Nat := l.rows.countP fun r' => l.key r' ≤ l.key r

/-- The row contributes nothing, or its group of equal keys lies within one page. -/
def Whole (limit : Nat) (r : ρ) : Prop :=
  l.items r ≠ [] → ∀ i, ¬ (l.below r < i * limit ∧ i * limit < l.upTo r)

/-! ## Positions in an ordering -/

variable {l}

theorem Orders.countP {order : List ρ} (h : l.Orders order) (p : ρ → Bool) :
    order.countP p = l.rows.countP p :=
  h.1.countP_eq p

/-- The rows in front of a row are the smaller ones and some of its group. -/
theorem Orders.position {front back : List ρ} {r : ρ} (h : l.Orders (front ++ r :: back)) :
    l.below r ≤ front.length ∧ front.length < l.upTo r := by
  obtain ⟨hfront, hback, hcross⟩ := List.pairwise_append.mp h.2
  obtain ⟨hfirst, -⟩ := List.pairwise_cons.mp hback
  constructor
  · rw [below, ← h.countP, List.countP_append]
    have hnone : (r :: back).countP (fun r' => l.key r' < l.key r) = 0 := by
      rw [List.countP_eq_zero]
      intro r' hr'
      rw [decide_eq_true_eq, not_lt]
      obtain rfl | hr' := List.mem_cons.mp hr'
      · exact le_rfl
      · exact hfirst r' hr'
    rw [hnone]
    exact List.countP_le_length
  · rw [upTo, ← h.countP, List.countP_append, List.countP_cons]
    have hall : front.countP (fun r' => l.key r' ≤ l.key r) = front.length := by
      rw [List.countP_eq_length]
      intro r' hr'
      exact decide_eq_true (hcross r' hr' r List.mem_cons_self)
    rw [hall]
    simp

theorem Orders.lt_of_mem_take {order : List ρ} (h : l.Orders order) {b : Nat} {r : ρ}
    (hr : r ∈ order.take b) : l.below r < b := by
  obtain ⟨front, back, hsplit⟩ := List.append_of_mem hr
  have horder : order = front ++ r :: (back ++ order.drop b) := by
    rw [← List.cons_append, ← List.append_assoc, ← hsplit, List.take_append_drop]
  have hlength := congrArg List.length hsplit
  rw [List.length_take, List.length_append, List.length_cons] at hlength
  rw [horder] at h
  have hbelow := h.position.1
  omega

theorem Orders.lt_of_mem_drop {order : List ρ} (h : l.Orders order) {b : Nat} {r : ρ}
    (hr : r ∈ order.drop b) : b < l.upTo r := by
  obtain ⟨front, back, hsplit⟩ := List.append_of_mem hr
  have horder : order = (order.take b ++ front) ++ r :: back := by
    rw [List.append_assoc, ← hsplit, List.take_append_drop]
  have hlength := List.length_pos_of_mem hr
  rw [List.length_drop] at hlength
  rw [horder] at h
  have hupTo := h.position.2
  rw [List.length_append, List.length_take] at hupTo
  omega

/-! ## Boundaries between groups -/

theorem flatMap_filter_of_nil {p : ρ → Bool} {f : ρ → List ι} {rows : List ρ}
    (h : ∀ r ∈ rows, p r = false → f r = []) : (rows.filter p).flatMap f = rows.flatMap f := by
  induction rows with
  | nil => rfl
  | cons r rows ih =>
    have hrest := ih fun r' hr' => h r' (List.mem_cons_of_mem _ hr')
    rw [List.flatMap_cons, ← hrest]
    cases hp : p r with
    | true => rw [List.filter_cons_of_pos hp, List.flatMap_cons]
    | false =>
      rw [List.filter_cons_of_neg (by simp [hp]), h r List.mem_cons_self hp, List.nil_append]

/-- In front of a boundary that splits no group are the items of the groups that end
before it. -/
theorem Orders.flatMap_take {order : List ρ} (h : l.Orders order) {b : Nat}
    (hwhole : ∀ r ∈ l.rows, l.items r ≠ [] → ¬ (l.below r < b ∧ b < l.upTo r)) :
    (order.take b).flatMap l.items =
      (order.filter fun r => l.upTo r ≤ b).flatMap l.items := by
  have hnone : (order.drop b).filter (fun r => l.upTo r ≤ b) = [] := by
    rw [List.filter_eq_nil_iff]
    intro r hr
    have hlater := h.lt_of_mem_drop hr
    rw [decide_eq_true_eq]
    omega
  have hfilter : order.filter (fun r => l.upTo r ≤ b) =
      (order.take b).filter fun r => l.upTo r ≤ b := by
    conv_lhs => rw [← List.take_append_drop b order]
    rw [List.filter_append, hnone, List.append_nil]
  rw [hfilter, flatMap_filter_of_nil]
  intro r hr hends
  by_contra hitems
  have hbefore := h.lt_of_mem_take hr
  rw [decide_eq_false_iff_not] at hends
  have hmem : r ∈ l.rows := h.1.mem_iff.mp (List.mem_of_mem_take hr)
  exact hwhole r hmem hitems ⟨hbefore, by omega⟩

theorem Orders.flatMap_take_perm {order order' : List ρ} (h : l.Orders order)
    (h' : l.Orders order') {b : Nat}
    (hwhole : ∀ r ∈ l.rows, l.items r ≠ [] → ¬ (l.below r < b ∧ b < l.upTo r)) :
    ((order.take b).flatMap l.items).Perm ((order'.take b).flatMap l.items) := by
  rw [h.flatMap_take hwhole, h'.flatMap_take hwhole]
  exact ((h.1.trans h'.1.symm).filter _).flatMap_right _

/-- The pages up to an offset add up to the items in front of it. -/
theorem pages_perm {limit : Nat} {orders : Nat → List ρ}
    (horders : ∀ offset, l.Orders (orders offset))
    (hwhole : ∀ r ∈ l.rows, l.Whole limit r) (n : Nat) :
    ((List.range n).flatMap fun i => (l.page limit (orders (0 + i * limit)) (0 + i * limit)).1).Perm
      (((orders 0).take (n * limit)).flatMap l.items) := by
  have hboundary : ∀ n, ∀ r ∈ l.rows, l.items r ≠ [] →
      ¬ (l.below r < n * limit ∧ n * limit < l.upTo r) :=
    fun n r hr hitems => hwhole r hr hitems n
  induction n with
  | zero => simp
  | succ n ih =>
    rw [List.range_succ, List.flatMap_append, List.flatMap_singleton]
    have hsplit := (horders (0 + n * limit)).flatMap_take_perm (horders 0) (hboundary (n + 1))
    rw [Nat.succ_mul, List.take_add, List.flatMap_append] at hsplit
    have hfront := (horders 0).flatMap_take_perm (horders (0 + n * limit)) (hboundary n)
    rw [Nat.succ_mul]
    refine (((ih.trans hfront).append_right _).trans ?_)
    rw [page, Nat.zero_add]
    rw [Nat.zero_add] at hsplit
    exact hsplit

theorem partitions_of_whole {limit : Nat} (hpos : 0 < limit) (hcount : l.total = l.rows.length)
    (hitems : l.allItems.length = l.total) (hwhole : ∀ r ∈ l.rows, l.Whole limit r) :
    l.Partitions limit := by
  intro orders horders
  have hperm : (l.walk limit orders).Perm l.allItems := by
    have hpages : l.walk limit orders = _ :=
      walk_eq (fun offset => (l.page limit (orders offset) offset).1) hpos (l.total + 1) 0
        (Nat.lt_succ_self _) (Nat.succ_pos _)
    have hend : l.total ≤ pagesFrom l.total limit 0 * limit := by
      have hlast := (Nat.div_lt_iff_lt_mul hpos).mp (Nat.lt_add_one ((l.total - 1 - 0) / limit))
      rw [pagesFrom]
      omega
    have hall : (orders 0).take (pagesFrom l.total limit 0 * limit) = orders 0 := by
      rw [List.take_of_length_le]
      rw [(horders 0).1.length_eq, ← hcount]
      exact hend
    have hsum := pages_perm horders hwhole (pagesFrom l.total limit 0)
    rw [hall] at hsum
    exact (hpages ▸ hsum).trans ((horders 0).1.flatMap_right _)
  exact ⟨hperm, hperm.length_eq.trans hitems⟩

/-! ## Choosing an ordering -/

theorem exists_orders (l : Listing ρ κ ι) : ∃ order, l.Orders order := by
  refine ⟨l.rows.mergeSort fun r r' => l.key r ≤ l.key r', List.mergeSort_perm _ _, ?_⟩
  have hsorted : (l.rows.mergeSort fun r r' => l.key r ≤ l.key r').Pairwise fun r r' =>
      decide (l.key r ≤ l.key r') = true := by
    refine List.pairwise_mergeSort (fun a b c hab hbc => ?_) (fun a b => ?_) l.rows
    · exact decide_eq_true (le_trans (of_decide_eq_true hab) (of_decide_eq_true hbc))
    · simpa using le_total (l.key a) (l.key b)
  exact hsorted.imp of_decide_eq_true

/-- The rows below, at and above the key of `r`, those around the group in order. -/
structure Split (l : Listing ρ κ ι) (r : ρ) (lower group upper : List ρ) : Prop where
  perm : (lower ++ (group ++ upper)).Perm l.rows
  lower_lt : ∀ r' ∈ lower, l.key r' < l.key r
  group_eq : ∀ r' ∈ group, l.key r' = l.key r
  upper_gt : ∀ r' ∈ upper, l.key r < l.key r'
  lower_sorted : lower.Pairwise fun a b => l.key a ≤ l.key b
  upper_sorted : upper.Pairwise fun a b => l.key a ≤ l.key b

theorem exists_split (l : Listing ρ κ ι) (r : ρ) :
    ∃ lower group upper, l.Split r lower group upper := by
  obtain ⟨order, hperm, hsorted⟩ := exists_orders l
  let rest := order.filter fun r' => !decide (l.key r' < l.key r)
  refine ⟨order.filter fun r' => l.key r' < l.key r, rest.filter fun r' => l.key r' = l.key r,
    rest.filter fun r' => !decide (l.key r' = l.key r), ?_⟩
  constructor
  case perm =>
    exact ((List.filter_append_perm _ rest).append_left _).trans
      ((List.filter_append_perm _ order).trans hperm)
  case lower_lt =>
    intro r' hr'
    exact of_decide_eq_true (List.mem_filter.mp hr').2
  case group_eq =>
    intro r' hr'
    exact of_decide_eq_true (List.mem_filter.mp hr').2
  case upper_gt =>
    intro r' hr'
    obtain ⟨hrest, hne⟩ := List.mem_filter.mp hr'
    have hge := (List.mem_filter.mp hrest).2
    simp only [Bool.not_eq_true', decide_eq_false_iff_not] at hne hge
    exact lt_of_le_of_ne (not_lt.mp hge) (Ne.symm hne)
  case lower_sorted => exact hsorted.filter _
  case upper_sorted => exact (hsorted.filter _).filter _

namespace Split

variable {r : ρ} {lower group upper : List ρ}

theorem length_lower (h : l.Split r lower group upper) : lower.length = l.below r := by
  have hall : lower.countP (fun r' => l.key r' < l.key r) = lower.length :=
    List.countP_eq_length.mpr fun r' hr' => decide_eq_true (h.lower_lt r' hr')
  have hnone : (group ++ upper).countP (fun r' => l.key r' < l.key r) = 0 := by
    refine List.countP_eq_zero.mpr fun r' hr' => ?_
    rw [decide_eq_true_eq, not_lt]
    obtain hr' | hr' := List.mem_append.mp hr'
    · exact le_of_eq (h.group_eq r' hr').symm
    · exact le_of_lt (h.upper_gt r' hr')
  rw [below, ← h.perm.countP_eq, List.countP_append, hall, hnone, Nat.add_zero]

theorem length_group (h : l.Split r lower group upper) :
    lower.length + group.length = l.upTo r := by
  have hlower : lower.countP (fun r' => l.key r' ≤ l.key r) = lower.length :=
    List.countP_eq_length.mpr fun r' hr' => decide_eq_true (le_of_lt (h.lower_lt r' hr'))
  have hgroup : group.countP (fun r' => l.key r' ≤ l.key r) = group.length :=
    List.countP_eq_length.mpr fun r' hr' => decide_eq_true (le_of_eq (h.group_eq r' hr'))
  have hupper : upper.countP (fun r' => l.key r' ≤ l.key r) = 0 :=
    List.countP_eq_zero.mpr fun r' hr' => by simpa using h.upper_gt r' hr'
  rw [upTo, ← h.perm.countP_eq, List.countP_append, List.countP_append, hlower, hgroup, hupper,
    Nat.add_zero]

theorem mem_group (h : l.Split r lower group upper) (hr : r ∈ l.rows) : r ∈ group := by
  have hmem := h.perm.mem_iff.mpr hr
  rw [List.mem_append, List.mem_append] at hmem
  obtain hlower | hgroup | hupper := hmem
  · exact absurd (h.lower_lt r hlower) (lt_irrefl _)
  · exact hgroup
  · exact absurd (h.upper_gt r hupper) (lt_irrefl _)

/-- The group may come in any order. -/
theorem orders (h : l.Split r lower group upper) {middle : List ρ} (hmiddle : middle.Perm group) :
    l.Orders (lower ++ (middle ++ upper)) := by
  have hkeys : ∀ r' ∈ middle, l.key r' = l.key r := fun r' hr' =>
    h.group_eq r' (hmiddle.mem_iff.mp hr')
  refine ⟨((hmiddle.append_right upper).append_left lower).trans h.perm, ?_⟩
  refine List.pairwise_append.mpr ⟨h.lower_sorted,
    List.pairwise_append.mpr ⟨?_, h.upper_sorted, ?_⟩, ?_⟩
  · refine List.pairwise_of_forall_mem_list fun a ha b hb => ?_
    rw [hkeys a ha, hkeys b hb]
  · intro a ha b hb
    rw [hkeys a ha]
    exact le_of_lt (h.upper_gt b hb)
  · intro a ha b hb
    refine le_trans (le_of_lt (h.lower_lt a ha)) ?_
    obtain hb | hb := List.mem_append.mp hb
    · exact le_of_eq (hkeys b hb).symm
    · exact le_of_lt (h.upper_gt b hb)

end Split

/-- An element of a list can be put at every place of it. -/
theorem exists_perm_at {α : Type*} {x : α} {xs : List α} (hx : x ∈ xs) {n : Nat}
    (hn : n < xs.length) : ∃ front back, (front ++ x :: back).Perm xs ∧ front.length = n := by
  obtain ⟨before, after, rfl⟩ := List.append_of_mem hx
  rw [List.length_append, List.length_cons] at hn
  refine ⟨(before ++ after).take n, (before ++ after).drop n, ?_, ?_⟩
  · refine List.perm_middle.trans ?_
    rw [List.take_append_drop]
    exact List.perm_middle.symm
  · rw [List.length_take, List.length_append]
    omega

/-- A row can stand at every place of its group. -/
theorem exists_order_at {r : ρ} (hr : r ∈ l.rows) {n : Nat} (hbelow : l.below r ≤ n)
    (hupTo : n < l.upTo r) :
    ∃ front back, l.Orders (front ++ r :: back) ∧ front.length = n := by
  obtain ⟨lower, group, upper, h⟩ := exists_split l r
  have hlower := h.length_lower
  have hgroup := h.length_group
  obtain ⟨front, back, hperm, hfront⟩ :=
    exists_perm_at (h.mem_group hr) (show n - l.below r < group.length by omega)
  refine ⟨lower ++ front, back ++ upper, ?_, ?_⟩
  · have hshape : (lower ++ front) ++ r :: (back ++ upper) =
        lower ++ ((front ++ r :: back) ++ upper) := by
      simp only [List.append_assoc, List.cons_append]
    rw [hshape]
    exact h.orders hperm
  · rw [List.length_append]
    omega

/-! ## Groups that straddle two pages -/

omit [LinearOrder κ] in
theorem mem_page {limit offset : Nat} {front back : List ρ} {r : ρ} {x : ι}
    (hx : x ∈ l.items r) (hfrom : offset ≤ front.length) (hto : front.length < offset + limit) :
    x ∈ (l.page limit (front ++ r :: back) offset).1 := by
  refine List.mem_flatMap.mpr ⟨r, ?_, hx⟩
  rw [List.drop_append_of_le_length hfrom, List.take_append]
  refine List.mem_append_right _ ?_
  rw [List.length_drop]
  obtain ⟨m, hm⟩ := Nat.exists_eq_succ_of_ne_zero
    (show limit - (front.length - offset) ≠ 0 by omega)
  rw [hm, List.take_succ_cons]
  exact List.mem_cons_self

/-- A row that ends a page in one ordering and begins the next page in another can be
returned twice. -/
theorem exists_repeated {limit k : Nat} (hpos : 0 < limit) {r : ρ} {x : ι} (hx : x ∈ l.items r)
    {front back front' back' : List ρ} (horder : l.Orders (front ++ r :: back))
    (horder' : l.Orders (front' ++ r :: back')) (hfront : front.length + 1 = (k + 1) * limit)
    (hfront' : front'.length = (k + 1) * limit) (htotal : (k + 1) * limit < l.total) :
    ∃ orders : Nat → List ρ, (∀ offset, l.Orders (orders offset)) ∧
      ¬ (l.walk limit orders).Nodup := by
  have hstep : (k + 1) * limit = k * limit + limit := Nat.succ_mul k limit
  let orders : Nat → List ρ := fun offset =>
    if offset = (k + 1) * limit then front' ++ r :: back' else front ++ r :: back
  refine ⟨orders, fun offset => ?_, fun hnodup => ?_⟩
  · by_cases hoffset : offset = (k + 1) * limit
    · simp only [orders, hoffset, if_true]
      exact horder'
    · simp only [orders, hoffset, if_false]
      exact horder
  · have hlastPage : x ∈ (l.page limit (orders (0 + k * limit)) (0 + k * limit)).1 := by
      have hne : 0 + k * limit ≠ (k + 1) * limit := by omega
      simp only [orders, hne, if_false]
      exact mem_page hx (by omega) (by omega)
    have hnextPage : x ∈ (l.page limit (orders (0 + (k + 1) * limit)) (0 + (k + 1) * limit)).1 := by
      rw [Nat.zero_add]
      simp only [orders, if_true]
      exact mem_page hx (by omega) (by omega)
    have hwalk : l.walk limit orders = _ :=
      walk_eq (fun offset => (l.page limit (orders offset) offset).1) hpos (l.total + 1) 0
        (Nat.lt_succ_self _) (Nat.succ_pos _)
    rw [hwalk] at hnodup
    have hpages : k + 1 < pagesFrom l.total limit 0 := by
      have hle := (Nat.le_div_iff_mul_le hpos).mpr
        (show (k + 1) * limit ≤ l.total - 1 - 0 by omega)
      rw [pagesFrom]
      omega
    have hpair := List.pairwise_iff_getElem.mp (List.nodup_flatMap.mp hnodup).2 k (k + 1)
      (by simp; omega) (by simpa using hpages) (Nat.lt_succ_self k)
    rw [List.getElem_range, List.getElem_range] at hpair
    exact hpair hlastPage hnextPage

theorem whole_of_partitions {limit : Nat} (hpos : 0 < limit) (hcount : l.total = l.rows.length)
    (hnodup : l.allItems.Nodup) (h : l.Partitions limit) : ∀ r ∈ l.rows, l.Whole limit r := by
  intro r hr hitems i hsplit
  obtain ⟨hbelow, hupTo⟩ := hsplit
  obtain ⟨x, hx⟩ := List.exists_mem_of_ne_nil _ hitems
  have hlast : l.upTo r ≤ l.total := hcount ▸ List.countP_le_length
  obtain ⟨front, back, horder, hfront⟩ :=
    exists_order_at hr (show l.below r ≤ i * limit - 1 by omega) (by omega)
  obtain ⟨front', back', horder', hfront'⟩ := exists_order_at hr (Nat.le_of_lt hbelow) hupTo
  obtain ⟨k, rfl⟩ : ∃ k, i = k + 1 := by
    refine Nat.exists_eq_succ_of_ne_zero ?_
    rintro rfl
    omega
  obtain ⟨orders, horders, hrepeated⟩ := exists_repeated hpos hx horder horder'
    (show front.length + 1 = (k + 1) * limit by omega) hfront' (by omega)
  exact hrepeated ((h orders horders).1.nodup_iff.mpr hnodup)

omit [LinearOrder κ] in
/-- Items that tell their row apart are different if the rows are. -/
theorem nodup_allItems {ν : Type*} (id : ρ → ν) (owner : ι → ν) (h : (l.rows.map id).Nodup)
    (hitems : ∀ r ∈ l.rows, (l.items r).Nodup)
    (howner : ∀ r ∈ l.rows, ∀ x ∈ l.items r, owner x = id r) : l.allItems.Nodup := by
  refine List.nodup_flatMap.mpr ⟨hitems, ?_⟩
  refine (List.pairwise_map.mp h).imp_of_mem fun {r r'} hr hr' hne => ?_
  intro x hx hx'
  exact hne ((howner r hr x hx).symm.trans (howner r' hr' x hx'))

omit [LinearOrder κ] in
/-- A listing with one item for each row. -/
theorem length_allItems_of_single (h : ∀ r ∈ l.rows, (l.items r).length = 1) :
    l.allItems.length = l.rows.length := by
  rw [allItems, List.length_flatMap, List.map_congr_left h, List.map_const', List.sum_replicate_nat,
    Nat.mul_one]

/-- A walk returns every item once, and as many as the total says, whatever the order
of equal keys is, exactly when the rows have as many items as there are rows and no
group of equal keys with an item straddles two pages. -/
theorem partitions_iff {limit : Nat} (hpos : 0 < limit) (hcount : l.total = l.rows.length)
    (hnodup : l.allItems.Nodup) :
    l.Partitions limit ↔ l.allItems.length = l.rows.length ∧ ∀ r ∈ l.rows, l.Whole limit r := by
  constructor
  · intro h
    refine ⟨?_, whole_of_partitions hpos hcount hnodup h⟩
    obtain ⟨order, horder⟩ := exists_orders l
    obtain ⟨hperm, hlength⟩ := h (fun _ => order) fun _ => horder
    rw [← hperm.length_eq, hlength, hcount]
  · rintro ⟨hitems, hwhole⟩
    exact partitions_of_whole hpos hcount (hitems.trans hcount.symm) hwhole

theorem partitions_iff_of_single {limit : Nat} (hpos : 0 < limit)
    (hcount : l.total = l.rows.length) (hnodup : l.allItems.Nodup)
    (hsingle : ∀ r ∈ l.rows, (l.items r).length = 1) :
    l.Partitions limit ↔ ∀ r ∈ l.rows, l.Whole limit r := by
  rw [partitions_iff hpos hcount hnodup]
  exact and_iff_right (length_allItems_of_single hsingle)

/-- Only one row has a given key. -/
theorem countP_le_of_nodup {key : ρ → κ} {rows : List ρ} (h : (rows.map key).Nodup) (k : κ) :
    rows.countP (fun r => key r ≤ k) ≤ rows.countP (fun r => key r < k) + 1 := by
  induction rows with
  | nil => exact Nat.zero_le _
  | cons r rows ih =>
    obtain ⟨hnew, hrest⟩ := List.nodup_cons.mp h
    rw [List.countP_cons, List.countP_cons]
    by_cases hk : key r = k
    · have hsame : rows.countP (fun r => key r ≤ k) = rows.countP (fun r => key r < k) := by
        refine List.countP_congr fun r' hr' => ?_
        have hne : key r' ≠ k := fun he => hnew (hk ▸ he ▸ List.mem_map_of_mem hr')
        simp only [decide_eq_true_eq]
        exact ⟨fun hle => lt_of_le_of_ne hle hne, le_of_lt⟩
      simp [hsame, hk]
    · have hiff : key r ≤ k ↔ key r < k := ⟨fun hle => lt_of_le_of_ne hle hk, le_of_lt⟩
      have hle := ih hrest
      simp only [hiff]
      omega

/-- Different keys leave no choice. -/
theorem whole_of_nodup_keys {limit : Nat} (h : (l.rows.map l.key).Nodup) :
    ∀ r ∈ l.rows, l.Whole limit r := by
  intro r _ _ i hsplit
  obtain ⟨hbelow, hupTo⟩ := hsplit
  have hle : l.upTo r ≤ l.below r + 1 := countP_le_of_nodup h (l.key r)
  omega

end Listing

end Paging
