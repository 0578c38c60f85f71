/-
`renderPagination`: where the links under the list lead, and how far one gets by them.

The pages come in groups of five. A page has links to its own group, to the last page
before the group and to the first one behind it. So one link leads into a neighbouring
group, and from there on the next one.
-/
import TechTrends.Frontend

set_option autoImplicit false

namespace TechTrends

namespace Frontend

/-! ## Where a link leads -/

def PageLink.target : PageLink → ℤ
  | previous page => page
  | number page _ => page
  | next page => page

/-- The pages that the links under a list lead to. -/
def targets (page : Option ℤ) (totalPages : ℤ) : List ℤ := (renderPagination page totalPages).map PageLink.target

/-- The number of a page's group, from 0 on. -/
def group (page : ℤ) : ℤ := (page - 1) / 5

/-- The pages that the links under the list lead to: those of the page's own group that exist,
the last one before the group when there is one, and the first one behind it when the last
page is further. The page itself may lie behind the last one. -/
theorem mem_targets_iff {page totalPages k : ℤ} (hmany : 1 < totalPages) :
    k ∈ targets (some page) totalPages ↔
      (5 * group page + 1 ≤ k ∧ k ≤ 5 * group page + 5 ∧ k ≤ totalPages) ∨
      (0 < group page ∧ k = 5 * group page) ∨
      (5 * group page + 5 < totalPages ∧ k = 5 * group page + 6) := by
  -- the three parts of the row of links, each by itself: the numbers, 이전 and 다음
  have hnumbers : ∀ start last : ℤ, (∃ link ∈ ((List.range (last + 1 - start).toNat).map Nat.cast).map
      (fun i : ℤ => PageLink.number (start + i) (decide (start + i = page))), link.target = k) ↔
      start ≤ k ∧ k ≤ last := by
    intro start last
    rw [List.map_map]
    constructor
    · rintro ⟨_, hlink, rfl⟩
      obtain ⟨i, hi, rfl⟩ := List.mem_map.1 hlink
      have hrange := List.mem_range.1 hi
      simp only [Function.comp_apply, PageLink.target]
      omega
    · rintro ⟨hlow, hhigh⟩
      refine ⟨_, List.mem_map.2 ⟨(k - start).toNat, List.mem_range.2 (by omega), rfl⟩, ?_⟩
      simp only [Function.comp_apply, PageLink.target]
      omega
  have hprevious : ∀ start : ℤ, (∃ link ∈ (if start > 1 then [PageLink.previous (start - 1)] else []),
      link.target = k) ↔ 1 < start ∧ k = start - 1 := by
    intro start
    split
    · simp [PageLink.target, eq_comm]
      omega
    · simp
      omega
  have hnext : ∀ last : ℤ, (∃ link ∈ (if last < totalPages then [PageLink.next (last + 1)] else []),
      link.target = k) ↔ last < totalPages ∧ k = last + 1 := by
    intro last
    split
    · simp [PageLink.target, eq_comm]
      omega
    · simp
      omega
  have hsplit : ∀ as bs cs : List PageLink, (∃ link ∈ as ++ bs ++ cs, link.target = k) ↔
      (∃ link ∈ as, link.target = k) ∨ (∃ link ∈ bs, link.target = k) ∨ ∃ link ∈ cs, link.target = k := by
    intro as bs cs
    simp only [List.mem_append, or_and_right, exists_or, or_assoc]
  simp only [targets, List.mem_map, renderPagination, bind_pure_comp, List.map_eq_map]
  rw [if_neg (by omega), hsplit, hprevious, hnumbers, hnext, group]
  omega

/-- With one page or none `renderPagination` returns before it writes a link. -/
theorem targets_single {page : Option ℤ} {totalPages : ℤ} (h : totalPages ≤ 1) : targets page totalPages = [] := by
  cases page with
  | none => rfl
  | some page => rw [targets, renderPagination, if_pos h, List.map_nil]

/-- A link leads to a page from 1 on, and past the last page only from further behind. -/
theorem target_range {page totalPages k : ℤ} (hpage : 1 ≤ page) (hk : k ∈ targets (some page) totalPages) :
    1 ≤ k ∧ (k ≤ totalPages ∨ k < page) := by
  by_cases hmany : 1 < totalPages
  · rw [mem_targets_iff hmany, group] at hk
    omega
  · rw [targets_single (by omega)] at hk
    cases hk

/-! ## Clicks -/

/-- The links that lead from one page to another, one after the other. -/
inductive Clicks (totalPages : ℤ) : ℤ → List ℤ → ℤ → Prop
  | nil (page : ℤ) : Clicks totalPages page [] page
  | cons {page k page' : ℤ} {ks : List ℤ} (hlink : k ∈ targets (some page) totalPages)
      (hrest : Clicks totalPages k ks page') : Clicks totalPages page (k :: ks) page'

/-- **Every page is reached**, also from a page behind the last one, and the clicks are one
for each group on the way and one in the group. By induction on how many groups are left: a
link leads into the neighbouring group, on its side towards the page that is wanted. -/
theorem exists_clicks {totalPages page page' : ℤ} (hpage : 1 ≤ page) (hlow : 1 ≤ page') (hhigh : page' ≤ totalPages)
    (hmany : 1 < totalPages) :
    ∃ ks, Clicks totalPages page ks page' ∧ ks ≠ [] ∧ ks.length ≤ (group page - group page').natAbs + 1 := by
  -- induction on how many groups lie between the two pages
  generalize hn : (group page - group page').natAbs = n
  induction n generalizing page with
  | zero =>
    have hlink : page' ∈ targets (some page) totalPages := by
      rw [mem_targets_iff hmany]
      rw [group, group] at hn
      rw [group]
      omega
    exact ⟨[page'], Clicks.cons hlink (Clicks.nil page'), List.cons_ne_nil _ _, Nat.le_refl 1⟩
  | succ n ih =>
    obtain ⟨k, hk, hlink, hgroup⟩ : ∃ k, 1 ≤ k ∧ k ∈ targets (some page) totalPages ∧
        (group k - group page').natAbs = n := by
      simp only [mem_targets_iff hmany]
      -- 이전 leads one group down, 다음 one group up
      rcases lt_or_ge (group page') (group page) with hback | hforth
      · have hgroup : group (5 * group page) = group page - 1 := by
          simp only [group]
          omega
        refine ⟨5 * group page, ?_, Or.inr (Or.inl ⟨?_, rfl⟩), by omega⟩
        all_goals
          simp only [group] at hback ⊢
          omega
      · have hgroup : group (5 * group page + 6) = group page + 1 := by
          simp only [group]
          omega
        refine ⟨5 * group page + 6, ?_, Or.inr (Or.inr ⟨?_, rfl⟩), by omega⟩
        all_goals
          simp only [group] at hn hforth ⊢
          omega
    obtain ⟨ks, hclicks, -, hlength⟩ := ih hk hgroup
    refine ⟨k :: ks, Clicks.cons hlink hclicks, List.cons_ne_nil _ _, ?_⟩
    rw [List.length_cons]
    omega

/-! ## A click on the page -/

/-- A click on a link and the answer to its request. -/
def click (s : Page) (k : ℤ) (body : TrendsBody) : List Act :=
  [Act.goToPage k, Act.response s.calls.length (some 200), Act.trendsBody s.calls.length (some body)]

/-- The page after it. -/
def Page.shows (s : Page) (k : ℤ) (body : TrendsBody) : Page :=
  { s with
    filters := Filters.syncUIWithState { s.filters with page := some k }
    view := (TrendsView.answered { s.view with cardList := CardList.loading } (some k) (TrendsAnswer.ok body))
    log := s.log ++ [Answered.trends (Filters.syncUIWithState { s.filters with page := some k }).params
      (TrendsAnswer.ok body)] }

/-- `syncUIWithState` puts the sort order in step with the keyword and the search type, and
never changes the page: the page that `goToPage` has set is the one that is asked for, the one
that goes into the address, and the one the links are drawn around. -/
theorem page_sync (f : Filters) : f.syncUIWithState.page = f.page := by
  rw [Filters.syncUIWithState]
  split
  · split
    · rfl
    · split <;> rfl
  · split <;> rfl

/-- A click on a link and its answer are one run of the page, from any state: `goToPage` sets
the page and sends the request behind those that are outstanding, and its answer, when it is
the next to come, is shown and takes the request off the list again. -/
theorem run_click (s : Page) (k : ℤ) (body : TrendsBody) :
    machine.run (click s k body) s = some (s.shows k body) := by
  -- the new request is the last one, so nothing before it moves
  have hlast : ∀ c : Call, (s.calls ++ [c])[s.calls.length]? = some c := fun c => by simp
  have hset : ∀ c c' : Call, (s.calls ++ [c]).set s.calls.length c' = s.calls ++ [c'] := fun c c' => by simp
  have herase : ∀ c : Call, (s.calls ++ [c]).eraseIdx s.calls.length = s.calls := fun c => by
    rw [List.eraseIdx_append_of_length_le (Nat.le_refl _), Nat.sub_self, List.eraseIdx_cons_zero, List.append_nil]
  simp only [click, StepMachine.run, machine, step, Page.goToPage, Page.refetch, Page.fetchTrends,
    Option.bind_some, respond, hlast, isOk, Page.readBody, hset, trendsAnswer, Page.shows]
  simp [Page.endTrends, herase, page_sync]

end Frontend

end TechTrends
