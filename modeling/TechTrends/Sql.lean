/-
Relational queries on lists of rows: ordering by a list of criteria, row numbers,
pages, and joins.

A statement reads its rows in an order that it does not promise. An `ORDER BY`
whose criteria tell any two of the rows apart (`Separates`) makes up for it: the
result does not depend on the order that the rows were read in (`orderBy_congr`),
so pages that are asked for one by one fit together (`Paged.of_orderBy`), and a
row's number is one more than the number of rows before it (`mem_rowNumber`).
-/
import Mathlib.Data.List.Sort
import Mathlib.Data.List.Dedup
import Mathlib.Order.Basic

set_option autoImplicit false

namespace Sql

variable {α β κ : Type*}

/-! ## Criteria -/

/-- One criterion of an `ORDER BY`. -/
structure OrderItem (α : Type*) where
  cmp : α → α → Ordering
  transCmp : Std.TransCmp cmp

namespace OrderItem

variable [LinearOrder κ]

/-- `key ASC`. -/
def asc (key : α → κ) : OrderItem α where
  cmp a b := compare (key a) (key b)
  transCmp :=
    { eq_swap := Std.OrientedCmp.eq_swap
      isLE_trans := Std.TransCmp.isLE_trans }

/-- `key DESC`. -/
def desc (key : α → κ) : OrderItem α where
  cmp a b := compare (key b) (key a)
  transCmp :=
    { eq_swap := Std.OrientedCmp.eq_swap
      isLE_trans := fun hab hbc => Std.TransCmp.isLE_trans hbc hab }

/-- The comparison of `key DESC NULLS LAST`. -/
def cmpNullsLast : Option κ → Option κ → Ordering
  | some x, some y => compare y x
  | some _, none => Ordering.lt
  | none, some _ => Ordering.gt
  | none, none => Ordering.eq

theorem cmpNullsLast_swap (x y : Option κ) : cmpNullsLast x y = (cmpNullsLast y x).swap := by
  cases x with
  | none => cases y <;> rfl
  | some x =>
    cases y with
    | none => rfl
    | some y => exact Std.OrientedOrd.eq_swap

/-- Falling order with nulls last is an order: what comes no later than something comes no
later than what that comes before. -/
theorem cmpNullsLast_trans {x y z : Option κ} (hxy : (cmpNullsLast x y).isLE = true)
    (hyz : (cmpNullsLast y z).isLE = true) : (cmpNullsLast x z).isLE = true := by
  cases x with
  | none =>
    -- nothing but a null comes after a null
    cases y with
    | none => exact hyz
    | some y => cases hxy
  | some x =>
    cases z with
    | none => rfl
    | some z =>
      cases y with
      | none => cases hyz
      | some y => exact Std.TransOrd.isLE_trans hyz hxy

/-- `key DESC NULLS LAST`. -/
def descNullsLast (key : α → Option κ) : OrderItem α where
  cmp a b := cmpNullsLast (key a) (key b)
  transCmp :=
    { eq_swap := cmpNullsLast_swap _ _
      isLE_trans := cmpNullsLast_trans }

@[simp] theorem asc_cmp_eq {key : α → κ} {a b : α} :
    (asc key).cmp a b = Ordering.eq ↔ key a = key b := compare_eq_iff_eq

@[simp] theorem asc_cmp_lt {key : α → κ} {a b : α} :
    (asc key).cmp a b = Ordering.lt ↔ key a < key b := compare_lt_iff_lt

@[simp] theorem desc_cmp_eq {key : α → κ} {a b : α} :
    (desc key).cmp a b = Ordering.eq ↔ key a = key b := compare_eq_iff_eq.trans eq_comm

@[simp] theorem desc_cmp_lt {key : α → κ} {a b : α} :
    (desc key).cmp a b = Ordering.lt ↔ key b < key a := compare_lt_iff_lt

@[simp] theorem descNullsLast_cmp {key : α → Option κ} {a b : α} :
    (descNullsLast key).cmp a b = cmpNullsLast (key a) (key b) := rfl

theorem cmpNullsLast_eq {x y : Option κ} : cmpNullsLast x y = Ordering.eq ↔ x = y := by
  cases x with
  | none => cases y <;> simp [cmpNullsLast]
  | some x =>
    cases y with
    | none => simp [cmpNullsLast]
    | some y => simpa [cmpNullsLast] using eq_comm

theorem cmpNullsLast_lt {x y : Option κ} :
    cmpNullsLast x y = Ordering.lt ↔ ∃ a, x = some a ∧ ∀ b, y = some b → b < a := by
  cases x with
  | none => cases y <;> simp [cmpNullsLast]
  | some x =>
    cases y with
    | none => simp [cmpNullsLast]
    | some y => simp [cmpNullsLast, compare_lt_iff_lt]

end OrderItem

/-- The first criterion that tells two rows apart decides. -/
def cmpBy : List (OrderItem α) → α → α → Ordering
  | [], _, _ => Ordering.eq
  | item :: items, a, b => (item.cmp a b).then (cmpBy items a b)

variable {items : List (OrderItem α)}

theorem cmpBy_eq_iff {a b : α} :
    cmpBy items a b = Ordering.eq ↔ ∀ item ∈ items, item.cmp a b = Ordering.eq := by
  induction items with
  | nil => simp [cmpBy]
  | cons item items ih => simp [cmpBy, ih]

instance cmpBy_transCmp : Std.TransCmp (cmpBy items) := by
  induction items with
  | nil => exact { eq_swap := rfl, isLE_trans := fun _ _ => rfl }
  | cons item items ih =>
    have := item.transCmp
    exact inferInstanceAs (Std.TransCmp (compareLex item.cmp (cmpBy items)))

/-- `a` comes before `b`, or neither comes before the other. -/
def LE (items : List (OrderItem α)) (a b : α) : Prop := (cmpBy items a b).isLE = true

/-- `a` comes before `b`. -/
def LT (items : List (OrderItem α)) (a b : α) : Prop := cmpBy items a b = Ordering.lt

instance (a b : α) : Decidable (LE items a b) := inferInstanceAs (Decidable (_ = true))

instance (a b : α) : Decidable (LT items a b) := inferInstanceAs (Decidable (_ = _))

instance : Std.Total (LE items) where
  total a b := by
    have hswap : cmpBy items b a = (cmpBy items a b).swap := Std.OrientedCmp.eq_swap
    unfold LE
    rw [hswap]
    cases cmpBy items a b <;> simp

instance : IsTrans α (LE items) where
  trans _ _ _ := Std.TransCmp.isLE_trans

@[simp] theorem LT_nil (a b : α) : ¬ LT [] a b := fun h => by cases h

theorem LT_cons_iff {item : OrderItem α} {a b : α} :
    LT (item :: items) a b ↔
      item.cmp a b = Ordering.lt ∨ item.cmp a b = Ordering.eq ∧ LT items a b := by
  unfold LT
  rw [cmpBy]
  cases item.cmp a b <;> simp

theorem LT.irrefl {a b : α} (h : LT items a b) : a ≠ b := by
  rintro rfl
  have hself : cmpBy items a a = Ordering.eq := Std.ReflCmp.compare_self
  unfold LT at h
  rw [hself] at h
  cases h

theorem LT.asymm {a b : α} (h : LT items a b) : ¬ LT items b a :=
  fun h' => Std.OrientedCmp.not_lt_of_lt h h'

instance : Std.Antisymm (LT items) where
  antisymm _ _ h h' := absurd h' h.asymm

/-- A row that does not come later is before the other one or ties with it. -/
theorem LE.lt_or_eq {a b : α} (h : LE items a b) :
    LT items a b ∨ cmpBy items a b = Ordering.eq := by
  unfold LE at h
  unfold LT
  cases hcmp : cmpBy items a b with
  | lt => exact Or.inl rfl
  | eq => exact Or.inr rfl
  | gt =>
    rw [hcmp] at h
    cases h

/-- The criteria tell any two of the rows apart. -/
def Separates (items : List (OrderItem α)) (rows : List α) : Prop :=
  ∀ a ∈ rows, ∀ b ∈ rows, cmpBy items a b = Ordering.eq → a = b

theorem Separates.subset {rows rows' : List α} (h : Separates items rows) (hsub : rows' ⊆ rows) :
    Separates items rows' := fun a ha b hb => h a (hsub ha) b (hsub hb)

/-- One criterion that tells the rows apart is enough. -/
theorem Separates.of_mem {rows : List α} {item : OrderItem α} (hitem : item ∈ items)
    (h : ∀ a ∈ rows, ∀ b ∈ rows, item.cmp a b = Ordering.eq → a = b) : Separates items rows :=
  fun a ha b hb heq => h a ha b hb (cmpBy_eq_iff.1 heq item hitem)

/-! ## `ORDER BY` -/

/-- `ORDER BY`, with rows that tie in the order that they were read in. -/
def orderBy (items : List (OrderItem α)) (rows : List α) : List α :=
  rows.insertionSort (LE items)

theorem orderBy_perm (items : List (OrderItem α)) (rows : List α) :
    (orderBy items rows).Perm rows := List.perm_insertionSort _ _

theorem mem_orderBy {rows : List α} {a : α} : a ∈ orderBy items rows ↔ a ∈ rows :=
  (orderBy_perm items rows).mem_iff

theorem pairwise_orderBy (items : List (OrderItem α)) (rows : List α) :
    (orderBy items rows).Pairwise (LE items) := List.pairwise_insertionSort _ _

/-- Rows that the criteria tell apart come in the one strict order. -/
theorem pairwise_lt_orderBy {rows : List α} (hrows : rows.Nodup) (h : Separates items rows) :
    (orderBy items rows).Pairwise (LT items) := by
  have hnodup : (orderBy items rows).Nodup := (orderBy_perm items rows).nodup_iff.2 hrows
  refine ((pairwise_orderBy items rows).and hnodup).imp_of_mem ?_
  rintro a b ha hb ⟨hle, hne⟩
  rcases hle.lt_or_eq with hlt | heq
  · exact hlt
  · exact absurd (h a (mem_orderBy.1 ha) b (mem_orderBy.1 hb) heq) hne

/-- The order that the rows were read in does not show. -/
theorem orderBy_congr {rows rows' : List α} (h : Separates items rows) (hperm : rows'.Perm rows) :
    orderBy items rows' = orderBy items rows := by
  refine List.Perm.eq_of_pairwise ?_ (pairwise_orderBy items rows') (pairwise_orderBy items rows)
    ((orderBy_perm items rows').trans (hperm.trans (orderBy_perm items rows).symm))
  intro a b ha hb hab hba
  exact h a (hperm.mem_iff.1 (mem_orderBy.1 ha)) b (mem_orderBy.1 hb)
    (Std.OrientedCmp.isLE_antisymm hab hba)

/-- Fewer rows come in the same order. -/
theorem orderBy_filter {rows : List α} (h : Separates items rows) (p : α → Bool) :
    (orderBy items rows).filter p = orderBy items (rows.filter p) := by
  have hperm : ((orderBy items rows).filter p).Perm (rows.filter p) := (orderBy_perm items rows).filter p
  refine List.Perm.eq_of_pairwise ?_ ((pairwise_orderBy items rows).filter p)
    (pairwise_orderBy items _) (hperm.trans (orderBy_perm items _).symm)
  intro a b ha hb hab hba
  exact h a (mem_orderBy.1 (List.mem_of_mem_filter ha)) b (List.mem_of_mem_filter (mem_orderBy.1 hb))
    (Std.OrientedCmp.isLE_antisymm hab hba)

/-- Rows that are before each other in a list are before each other in its order. -/
theorem precedes_iff {rows : List α} (hrows : rows.Pairwise (LT items)) {a b : α} (ha : a ∈ rows)
    (hb : b ∈ rows) : [a, b].Sublist rows ↔ LT items a b := by
  constructor
  · intro hsub
    exact List.pairwise_pair.1 (hrows.sublist hsub)
  · intro hlt
    refine List.sublist_of_subperm_of_pairwise (r := LT items) ?_ (List.pairwise_pair.2 hlt) hrows
    exact List.subperm_of_subset (by simpa using hlt.irrefl) (by simp [ha, hb])

/-! ## `LIMIT` and `OFFSET` -/

/-- `LIMIT limit OFFSET offset`. -/
def page (limit offset : ℕ) (rows : List α) : List α := (rows.drop offset).take limit

/-- Of the first rows, those that meet a condition are among the first that meet it. -/
theorem take_filter_prefix (limit : ℕ) (rows : List α) (p : α → Bool) :
    (rows.take limit).filter p <+: (rows.filter p).take limit := by
  rw [List.prefix_take_iff]
  refine ⟨(List.take_prefix limit rows).filter p, ?_⟩
  exact (List.length_filter_le _ _).trans (List.length_take_le _ _)

/-- The rows behind a limit come after those within it. -/
theorem lt_of_mem_take {rows : List α} (hrows : rows.Pairwise (LT items)) {limit : ℕ} {a b : α}
    (ha : a ∈ rows.take limit) (hb : b ∈ rows) (hbehind : b ∉ rows.take limit) : LT items a b := by
  rw [← List.take_append_drop limit rows] at hrows hb
  have hdrop : b ∈ rows.drop limit := (List.mem_append.1 hb).resolve_left hbehind
  exact (List.pairwise_append.1 hrows).2.2 a ha b hdrop

/-- The number of pages that the rows fill, rounded up. -/
def pageCount (count limit : ℕ) : ℕ := (count + limit - 1) / limit

/-- The pages, counted from 1, are the rows cut up: nothing is lost or repeated, only
the last page can be short, and there is nothing behind it. -/
structure Paged (limit : ℕ) (rows : List α) (pages : ℕ → List α) : Prop where
  concat : (List.range (pageCount rows.length limit)).flatMap (fun p => pages (p + 1)) = rows
  full : ∀ p, 1 ≤ p → p < pageCount rows.length limit → (pages p).length = limit
  beyond : ∀ p, pageCount rows.length limit < p → pages p = []

/-- The first pages are the first rows. -/
theorem flatMap_page (limit : ℕ) (rows : List α) (n : ℕ) :
    (List.range n).flatMap (fun p => page limit (p * limit) rows) = rows.take (n * limit) := by
  induction n with
  | zero => simp
  | succ n ih =>
    rw [List.range_succ, List.flatMap_append, ih, Nat.succ_mul, List.take_add]
    simp [page]

theorem le_pageCount_mul {limit : ℕ} (hlimit : 1 ≤ limit) (count : ℕ) :
    count ≤ pageCount count limit * limit := by
  have hdiv := Nat.div_add_mod (count + limit - 1) limit
  have hmod := Nat.mod_lt (count + limit - 1) (show 0 < limit by omega)
  unfold pageCount
  rw [Nat.mul_comm]
  omega

theorem lt_pageCount_iff {limit : ℕ} (hlimit : 1 ≤ limit) (count p : ℕ) :
    p < pageCount count limit ↔ p * limit < count := by
  unfold pageCount
  rw [Nat.lt_iff_add_one_le, Nat.le_div_iff_mul_le (by omega), Nat.succ_mul]
  omega

/-- `LIMIT` and `OFFSET` cut rows into pages, each asked for on its own: put together they are
the rows, all but the last are full, and the others are empty. -/
theorem Paged.of_page {limit : ℕ} (hlimit : 1 ≤ limit) (rows : List α) {pages : ℕ → List α}
    (h : ∀ p, 1 ≤ p → pages p = page limit ((p - 1) * limit) rows) : Paged limit rows pages where
  concat := by
    have hpages : (fun p => pages (p + 1)) = fun p => page limit (p * limit) rows :=
      funext fun p => h (p + 1) (by omega)
    rw [hpages, flatMap_page]
    exact List.take_of_length_le (le_pageCount_mul hlimit _)
  full p hp hlast := by
    have hnext := (lt_pageCount_iff hlimit rows.length p).1 hlast
    have hmul : p * limit = (p - 1) * limit + limit := by
      rw [← Nat.succ_mul, Nat.succ_eq_add_one, Nat.sub_add_cancel hp]
    rw [h p hp, page, List.length_take, List.length_drop]
    omega
  beyond p hlast := by
    have hp : 1 ≤ p := by omega
    have hend : ¬ (p - 1) * limit < rows.length := by
      rw [← lt_pageCount_iff hlimit]
      omega
    rw [h p hp, page, List.drop_eq_nil_of_le (by omega), List.take_nil]

theorem Paged.map {limit : ℕ} {rows : List α} {pages : ℕ → List α} (h : Paged limit rows pages)
    (f : α → β) : Paged limit (rows.map f) (fun p => (pages p).map f) where
  concat := by
    rw [List.length_map, ← List.map_flatMap, h.concat]
  full p hp hlast := by
    rw [List.length_map] at hlast ⊢
    exact h.full p hp hlast
  beyond p hlast := by
    rw [List.length_map] at hlast
    rw [h.beyond p hlast, List.map_nil]

/-- The answers to requests for pages list the rows, in an order that `before`
allows, and each comes with the number of all rows. -/
def Listing (limit : ℕ) (rows : List α) (before : α → α → Prop) (columns : α → β)
    (pages : ℕ → List β) (totals : ℕ → ℕ) : Prop :=
  (∀ p, totals p = rows.length) ∧
    ∃ ordered : List α, ordered.Perm rows ∧ ordered.Pairwise before ∧
      Paged limit (ordered.map columns) pages

/-- The same listing with something made of each row of a page. -/
theorem Listing.map {γ : Type*} {limit : ℕ} {rows : List α} {before : α → α → Prop}
    {columns : α → β} {pages : ℕ → List β} {totals : ℕ → ℕ}
    (h : Listing limit rows before columns pages totals) (f : β → γ) :
    Listing limit rows before (fun a => f (columns a)) (fun p => (pages p).map f) totals := by
  obtain ⟨htotals, ordered, hperm, hpairwise, hpaged⟩ := h
  refine ⟨htotals, ordered, hperm, hpairwise, ?_⟩
  have hcolumns : ordered.map (fun a => f (columns a)) = (ordered.map columns).map f := by
    rw [List.map_map]
    rfl
  rw [hcolumns]
  exact hpaged.map f

/-- A listing of rows that carry more, seen as one of the rows. -/
theorem Listing.of_map {γ : Type*} {limit : ℕ} {rows : List α} {g : α → γ} {h : γ → α}
    (hg : ∀ a ∈ rows, h (g a) = a) {before : γ → γ → Prop} {columns : γ → β} {pages : ℕ → List β}
    {totals : ℕ → ℕ} (hlisting : Listing limit (rows.map g) before columns pages totals) :
    Listing limit rows (fun a b => before (g a) (g b)) (fun a => columns (g a)) pages totals := by
  obtain ⟨htotals, ordered, hperm, hpairwise, hpaged⟩ := hlisting
  have hback : ∀ x ∈ ordered, g (h x) = x := by
    intro x hx
    obtain ⟨a, ha, rfl⟩ := List.mem_map.1 (hperm.mem_iff.1 hx)
    rw [hg a ha]
  have hrows : (rows.map g).map h = rows := by
    rw [List.map_map]
    exact (List.map_congr_left hg).trans (List.map_id rows)
  refine ⟨fun p => by rw [htotals, List.length_map], ordered.map h, ?_, ?_, ?_⟩
  · rw [← hrows]
    exact hperm.map h
  · rw [List.pairwise_map]
    refine hpairwise.imp_of_mem ?_
    intro x y hx hy hxy
    rwa [hback x hx, hback y hy]
  · have hcolumns : (ordered.map h).map (fun a => columns (g a)) = ordered.map columns := by
      rw [List.map_map]
      exact List.map_congr_left fun x hx => congrArg columns (hback x hx)
    rwa [hcolumns]

/-- Statements that order by criteria that tell the rows apart list them, whatever
order each of them reads the rows in. -/
theorem Listing.of_orderBy {limit : ℕ} (hlimit : 1 ≤ limit) {rows : List α} (hrows : rows.Nodup)
    (hsep : Separates items rows) {before : α → α → Prop}
    (hbefore : ∀ a ∈ rows, ∀ b ∈ rows, LT items a b → before a b) {columns : α → β}
    {pages : ℕ → List β} {totals : ℕ → ℕ} (reads : ℕ → List α) (hreads : ∀ p, (reads p).Perm rows)
    (hpages : ∀ p, pages p = (page limit ((p - 1) * limit) (orderBy items (reads p))).map columns)
    (htotals : ∀ p, totals p = rows.length) : Listing limit rows before columns pages totals := by
  refine ⟨htotals, orderBy items rows, orderBy_perm items rows, ?_, ?_⟩
  · refine (pairwise_lt_orderBy hrows hsep).imp_of_mem ?_
    intro a b ha hb
    exact hbefore a (mem_orderBy.1 ha) b (mem_orderBy.1 hb)
  · have hpaged : Paged limit (orderBy items rows)
        (fun p => page limit ((p - 1) * limit) (orderBy items rows)) :=
      Paged.of_page hlimit _ fun _ _ => rfl
    convert hpaged.map columns using 2 with p
    rw [hpages, orderBy_congr hsep (hreads p)]

/-! ## `ROW_NUMBER` -/

/-- `ROW_NUMBER() OVER (ORDER BY items)`. -/
def rowNumber (items : List (OrderItem α)) (rows : List α) : List (α × ℕ) :=
  (orderBy items rows).zipIdx 1

/-- One more than the number of rows before `a`. -/
def rank (items : List (OrderItem α)) (rows : List α) (a : α) : ℕ :=
  rows.countP (fun b => LT items b a) + 1

/-- In a strict order, a row is as many places in as there are rows before it. By induction on
the rows, for any number at the first of them. -/
theorem mem_zipIdx_iff {rows : List α} (h : rows.Pairwise (LT items)) (n : ℕ) {a : α} {r : ℕ} :
    (a, r) ∈ rows.zipIdx n ↔ a ∈ rows ∧ r = n + rows.countP (fun b => LT items b a) := by
  induction rows generalizing n with
  | nil => simp
  | cons x rows ih =>
    obtain ⟨hx, hrows⟩ := List.pairwise_cons.1 h
    have hself : ¬ LT items x x := fun hlt => hlt.irrefl rfl
    rw [List.zipIdx_cons, List.mem_cons, ih hrows, List.mem_cons, List.countP_cons]
    by_cases hax : a = x
    · subst hax
      have hnone : rows.countP (fun b => LT items b a) = 0 := by
        rw [List.countP_eq_zero]
        intro b hb
        simpa using (hx b hb).asymm
      have hmem : a ∉ rows := fun ha => hself (hx a ha)
      simp [hnone, hmem, hself]
    · have hxa : a ∈ rows → LT items x a := hx a
      constructor
      · rintro (heq | ⟨ha, hr⟩)
        · exact absurd (Prod.mk.inj heq).1 hax
        · refine ⟨Or.inr ha, ?_⟩
          simp only [hxa ha, decide_true, if_true]
          omega
      · rintro ⟨hor, hr⟩
        have ha := hor.resolve_left hax
        refine Or.inr ⟨ha, ?_⟩
        simp only [hxa ha, decide_true, if_true] at hr
        omega

/-- The number of a row is its rank. -/
theorem mem_rowNumber {rows : List α} (hrows : rows.Nodup) (h : Separates items rows) {a : α}
    {r : ℕ} : (a, r) ∈ rowNumber items rows ↔ a ∈ rows ∧ r = rank items rows a := by
  rw [rowNumber, mem_zipIdx_iff (pairwise_lt_orderBy hrows h), mem_orderBy,
    (orderBy_perm items rows).countP_eq, rank, Nat.add_comm 1]

/-- The first rows with their numbers are those with the small numbers. -/
theorem mem_take_zipIdx (rows : List α) (n limit : ℕ) {x : α × ℕ} :
    x ∈ (rows.zipIdx n).take limit ↔ x ∈ rows.zipIdx n ∧ x.2 < n + limit := by
  induction rows generalizing n limit with
  | nil => simp
  | cons a rows ih =>
    rw [List.zipIdx_cons]
    cases limit with
    | zero =>
      simp only [List.take_zero, List.not_mem_nil, false_iff, not_and, List.mem_cons]
      rintro (rfl | hx)
      · simp
      · have := List.snd_lt_of_mem_zipIdx hx
        have := List.le_snd_of_mem_zipIdx hx
        omega
    | succ limit =>
      rw [List.take_succ_cons, List.mem_cons, ih, List.mem_cons]
      constructor
      · rintro (rfl | ⟨hx, hlt⟩)
        · exact ⟨Or.inl rfl, by simp⟩
        · exact ⟨Or.inr hx, by omega⟩
      · rintro ⟨rfl | hx, hlt⟩
        · exact Or.inl rfl
        · exact Or.inr ⟨hx, by omega⟩

/-- The first rows by number are those whose rank is within the limit. -/
theorem mem_take_rowNumber {rows : List α} (hrows : rows.Nodup) (h : Separates items rows)
    (limit : ℕ) {a : α} {r : ℕ} :
    (a, r) ∈ (rowNumber items rows).take limit ↔
      a ∈ rows ∧ r = rank items rows a ∧ rank items rows a ≤ limit := by
  have hmem := mem_rowNumber hrows h (a := a) (r := r)
  rw [rowNumber] at hmem ⊢
  rw [mem_take_zipIdx, hmem, and_assoc]
  refine and_congr_right fun _ => and_congr_right fun hr => ?_
  show r < 1 + limit ↔ _
  omega

/-! ## Joins -/

/-- `a JOIN b ON on a b`. -/
def innerJoin (on : α → β → Bool) (as : List α) (bs : List β) : List (α × β) :=
  as.flatMap fun a => (bs.filter (on a)).map fun b => (a, b)

/-- The rows of an outer join that a row of the left table makes. -/
def outerRows (on : α → β → Bool) (bs : List β) (a : α) : List (Option α × Option β) :=
  match bs.filter (on a) with
  | [] => [(some a, none)]
  | matched => matched.map fun b => (some a, some b)

/-- `a FULL OUTER JOIN b ON on a b`. -/
def fullOuterJoin (on : α → β → Bool) (as : List α) (bs : List β) : List (Option α × Option β) :=
  as.flatMap (outerRows on bs) ++
    (bs.filter fun b => !as.any fun a => on a b).map fun b => (none, some b)

/-- A row that satisfies a condition alone is all that the condition leaves. -/
theorem filter_eq_singleton {rows : List α} (hrows : rows.Nodup) {p : α → Bool} {a : α}
    (h : ∀ b, b ∈ rows ∧ p b = true ↔ b = a) : rows.filter p = [a] := by
  rw [← List.perm_singleton, List.perm_ext_iff_of_nodup (hrows.filter _) (List.nodup_singleton a)]
  intro b
  rw [List.mem_filter, h, List.mem_singleton]

/-- Where a row has at most one partner, a join is a selection: the rows that have one, each
with it. -/
theorem innerJoin_eq {on : α → β → Bool} {as : List α} {bs : List β} (hbs : bs.Nodup)
    {p : α → Bool} {f : α → β}
    (h : ∀ a ∈ as, ∀ b, b ∈ bs ∧ on a b = true ↔ p a = true ∧ b = f a) :
    innerJoin on as bs = (as.filter p).map fun a => (a, f a) := by
  unfold innerJoin
  induction as with
  | nil => rfl
  | cons a as ih =>
    rw [List.flatMap_cons, ih fun a' ha' => h a' (List.mem_cons_of_mem a ha')]
    have ha := h a List.mem_cons_self
    cases hp : p a with
    | true =>
      have hone : bs.filter (on a) = [f a] := filter_eq_singleton hbs fun b => by simpa [hp] using ha b
      rw [List.filter_cons_of_pos hp, hone]
      rfl
    | false =>
      have hnone : bs.filter (on a) = [] := by
        rw [List.filter_eq_nil_iff]
        intro b hb hon
        have := ((ha b).1 ⟨hb, hon⟩).1
        rw [hp] at this
        cases this
      rw [List.filter_cons_of_neg (by simp [hp]), hnone]
      rfl

/-- A row of the left table is with its partners, or with `none`. -/
theorem mem_outerRows {on : α → β → Bool} {bs : List β} {a : α} {x : Option α} {y : Option β} :
    (x, y) ∈ outerRows on bs a ↔
      (∃ b ∈ bs, on a b = true ∧ x = some a ∧ y = some b) ∨
        (∀ b ∈ bs, on a b = false) ∧ x = some a ∧ y = none := by
  unfold outerRows
  split
  next hnil =>
    have hnone : ∀ b ∈ bs, on a b = false := by simpa [List.filter_eq_nil_iff] using hnil
    constructor
    · intro hmem
      cases List.mem_singleton.1 hmem
      exact Or.inr ⟨hnone, rfl, rfl⟩
    · rintro (⟨b, hb, hon, -, -⟩ | ⟨-, rfl, rfl⟩)
      · rw [hnone b hb] at hon
        cases hon
      · exact List.mem_singleton.2 rfl
  next hne =>
    rw [List.mem_map]
    constructor
    · rintro ⟨b, hb, heq⟩
      cases heq
      obtain ⟨hb, hon⟩ := List.mem_filter.1 hb
      exact Or.inl ⟨b, hb, hon, rfl, rfl⟩
    · rintro (⟨b, hb, hon, rfl, rfl⟩ | ⟨hnone, -, -⟩)
      · exact ⟨b, List.mem_filter.2 ⟨hb, hon⟩, rfl⟩
      · refine absurd ?_ hne
        rw [List.filter_eq_nil_iff]
        intro b hb
        simp [hnone b hb]

/-- The rows of the right table that no row of the left one goes with. -/
theorem mem_unmatched {on : α → β → Bool} {as : List α} {bs : List β} {x : Option α}
    {y : Option β} :
    (x, y) ∈ ((bs.filter fun b => !as.any fun a => on a b).map
        fun b => ((none : Option α), some b)) ↔
      ∃ b ∈ bs, (∀ a ∈ as, on a b = false) ∧ x = none ∧ y = some b := by
  rw [List.mem_map]
  constructor
  · rintro ⟨b, hb, heq⟩
    cases heq
    obtain ⟨hb, hnone⟩ := List.mem_filter.1 hb
    exact ⟨b, hb, by simpa using hnone, rfl, rfl⟩
  · rintro ⟨b, hb, hnone, rfl, rfl⟩
    exact ⟨b, List.mem_filter.2 ⟨hb, by simpa using hnone⟩, rfl⟩

/-- Each row is with every partner that it has, and with `none` when it has none. -/
theorem mem_fullOuterJoin {on : α → β → Bool} {as : List α} {bs : List β} {x : Option α}
    {y : Option β} :
    (x, y) ∈ fullOuterJoin on as bs ↔
      (∃ a ∈ as, ∃ b ∈ bs, on a b = true ∧ x = some a ∧ y = some b) ∨
      (∃ a ∈ as, (∀ b ∈ bs, on a b = false) ∧ x = some a ∧ y = none) ∨
      ∃ b ∈ bs, (∀ a ∈ as, on a b = false) ∧ x = none ∧ y = some b := by
  rw [fullOuterJoin, List.mem_append, List.mem_flatMap, mem_unmatched]
  constructor
  · rintro (⟨a, ha, hmem⟩ | h)
    · rcases mem_outerRows.1 hmem with ⟨b, hb, hon⟩ | hnone
      · exact Or.inl ⟨a, ha, b, hb, hon⟩
      · exact Or.inr (Or.inl ⟨a, ha, hnone⟩)
    · exact Or.inr (Or.inr h)
  · rintro (⟨a, ha, b, hb, hon⟩ | ⟨a, ha, hnone⟩ | h)
    · exact Or.inl ⟨a, ha, mem_outerRows.2 (Or.inl ⟨b, hb, hon⟩)⟩
    · exact Or.inl ⟨a, ha, mem_outerRows.2 (Or.inr hnone)⟩
    · exact Or.inr h

/-- In a table that holds what there is of some things, the partners of a row are what
there is of one of them, if anything is. -/
theorem unmatched_iff_of_views {ι : Type*} {things : List ι} {g : ι → Option β} {on : β → Bool}
    {bs : List β} {i : ι} (hi : i ∈ things) (hbs : ∀ b, b ∈ bs ↔ ∃ j ∈ things, g j = some b)
    (hon : ∀ j ∈ things, ∀ b, g j = some b → (on b = true ↔ i = j)) :
    (∀ b ∈ bs, on b = false) ↔ g i = none := by
  constructor
  · intro hnone
    rw [Option.eq_none_iff_forall_ne_some]
    intro b hgi
    have hfalse := hnone b ((hbs b).2 ⟨i, hi, hgi⟩)
    rw [(hon i hi b hgi).2 rfl] at hfalse
    cases hfalse
  · intro hgi b hb
    obtain ⟨j, hj, hgj⟩ := (hbs b).1 hb
    rw [Bool.eq_false_iff]
    intro hmatch
    rw [(hon j hj b hgj).1 hmatch, hgj] at hgi
    cases hgi

/-- Two tables that hold what there is of the same things, joined on the thing: each
thing that one of them holds is in one row, with all there is of it. -/
theorem mem_fullOuterJoin_of_views {ι : Type*} {things : List ι} {f : ι → Option α}
    {g : ι → Option β} {on : α → β → Bool} {as : List α} {bs : List β}
    (has : ∀ a, a ∈ as ↔ ∃ i ∈ things, f i = some a) (hbs : ∀ b, b ∈ bs ↔ ∃ i ∈ things, g i = some b)
    (hon : ∀ i ∈ things, ∀ j ∈ things, ∀ a b, f i = some a → g j = some b →
      (on a b = true ↔ i = j)) {x : Option α} {y : Option β} :
    (x, y) ∈ fullOuterJoin on as bs ↔
      ∃ i ∈ things, x = f i ∧ y = g i ∧ ¬ (f i = none ∧ g i = none) := by
  have hleft : ∀ i ∈ things, ∀ a, f i = some a → ((∀ b ∈ bs, on a b = false) ↔ g i = none) :=
    fun i hi a hfi => unmatched_iff_of_views hi hbs fun j hj b hgj => hon i hi j hj a b hfi hgj
  have hright : ∀ i ∈ things, ∀ b, g i = some b → ((∀ a ∈ as, on a b = false) ↔ f i = none) :=
    fun i hi b hgi => unmatched_iff_of_views hi has fun j hj a hfj =>
      (hon j hj i hi a b hfj hgi).trans eq_comm
  rw [mem_fullOuterJoin]
  constructor
  · rintro (⟨a, ha, b, hb, hab, rfl, rfl⟩ | ⟨a, ha, hnone, rfl, rfl⟩ | ⟨b, hb, hnone, rfl, rfl⟩)
    · obtain ⟨i, hi, hfi⟩ := (has a).1 ha
      obtain ⟨j, hj, hgj⟩ := (hbs b).1 hb
      obtain rfl := (hon i hi j hj a b hfi hgj).1 hab
      exact ⟨i, hi, hfi.symm, hgj.symm, by simp [hfi]⟩
    · obtain ⟨i, hi, hfi⟩ := (has a).1 ha
      exact ⟨i, hi, hfi.symm, ((hleft i hi a hfi).1 hnone).symm, by simp [hfi]⟩
    · obtain ⟨i, hi, hgi⟩ := (hbs b).1 hb
      exact ⟨i, hi, ((hright i hi b hgi).1 hnone).symm, hgi.symm, by simp [hgi]⟩
  · rintro ⟨i, hi, rfl, rfl, hsome⟩
    cases hfi : f i with
    | some a =>
      have ha : a ∈ as := (has a).2 ⟨i, hi, hfi⟩
      cases hgi : g i with
      | some b =>
        exact Or.inl ⟨a, ha, b, (hbs b).2 ⟨i, hi, hgi⟩, (hon i hi i hi a b hfi hgi).2 rfl, rfl, rfl⟩
      | none => exact Or.inr (Or.inl ⟨a, ha, (hleft i hi a hfi).2 hgi, rfl, rfl⟩)
    | none =>
      cases hgi : g i with
      | some b =>
        exact Or.inr (Or.inr ⟨b, (hbs b).2 ⟨i, hi, hgi⟩, (hright i hi b hgi).2 hfi, rfl, rfl⟩)
      | none => exact absurd ⟨hfi, hgi⟩ hsome

end Sql
