/-
`index.html`: the address bar, the history of the tab, and what a fresh page reads there.

Each handler of `Frontend` writes the address or leaves it alone: `syncUIWithState` replaces
it, opening and closing an article push a new one. Back and Forward change the address
first, and the handler then takes only the article from it.

An address is its list of parameters; `URLSearchParams` writes and reads them as text.
-/
import TechTrends.FrontendAnswers
import TechTrends.ParseInt

set_option autoImplicit false

namespace TechTrends

namespace Frontend

open JsNumber (parseInt intText Plain parseInt_intText_iff)

/-! ## Addresses -/

/-- The parameters of an address, in their order. -/
abbrev Query := List (String × String)

/-- `params.get(key) || defaultVal`. -/
def getParam (q : Query) (key defaultVal : String) : String :=
  match q.lookup key with
  | some value => if value = "" then defaultVal else value
  | none => defaultVal

/-- `getParam('id', null)`. -/
def getId (q : Query) : Option ArticleId :=
  match q.lookup "id" with
  | some value => if h : value ≠ "" then some ⟨value, h⟩ else none
  | none => none

/-- The part of `state` that a fresh page reads for the list. -/
def loadFilters (q : Query) : Filters where
  source := getParam q "source" "ALL"
  query := getParam q "q" ""
  searchType := getParam q "searchType" "hybrid"
  isNew := getParam q "isNew" "false" = "true"
  sort := getParam q "sort" "CREATED_DESC"
  page := parseInt (getParam q "page" "1")
  limit := parseInt (getParam q "limit" "5")

/-- `if (set) params.set(key, value)`. -/
def setParam (set : Bool) (key value : String) : Query := if set then [(key, value)] else []

/-- `if (state.articleId) params.set('id', state.articleId)`. -/
def setId : Option ArticleId → Query
  | some id => [("id", id.val)]
  | none => []

/-- The address that `updateUrl` writes. -/
def updateUrl (f : Filters) (articleId : Option ArticleId) : Query :=
  setParam (f.source ≠ "ALL") "source" f.source ++
  (setParam (f.query ≠ "") "q" f.query ++
  (setParam (f.searchType ≠ "") "searchType" f.searchType ++
  (setParam (f.sort ≠ "CREATED_DESC") "sort" f.sort ++
  (setParam f.isNew "isNew" "true" ++
  (setParam (f.page ≠ some 1) "page" (intText f.page) ++
  (setParam (f.limit ≠ some 5) "limit" (intText f.limit) ++ setId articleId))))))

/-! ## The tab -/

/-- The page with the entries of its history, those next to the current one first. -/
structure Tab where
  page : Page
  back : List Query
  current : Query
  forward : List Query

/-- What a handler does with the address. -/
inductive UrlWrite
  | keep
  | replace
  | push
deriving DecidableEq

/-- `closeModal()`, which writes only when an article was open. -/
def closeWrite (s : Page) : UrlWrite := if s.modal.articleId.isSome then UrlWrite.push else UrlWrite.keep

def urlWrite (s : Page) : Act → UrlWrite
  | Act.search _ => if s.isSubmitting then UrlWrite.keep else UrlWrite.replace
  | Act.goToPage _ | Act.clear | Act.toggleSearchType _ | Act.selectSource _ | Act.selectSort _
  | Act.selectLimit _ | Act.toggleNew => UrlWrite.replace
  | Act.openDetail _ _ => UrlWrite.push
  | Act.goBackModal => if s.modal.modalHistory = [] then UrlWrite.keep else UrlWrite.push
  | Act.closeModal => closeWrite s
  | Act.response i status =>
    match s.calls[i]? with
    | some (Call.detail _ Stage.response) => if isOk status then UrlWrite.keep else closeWrite s
    | _ => UrlWrite.keep
  | Act.detailBody i item =>
    match s.calls[i]? with
    | some (Call.detail _ Stage.body) => if (detailItem item).isNone then closeWrite s else UrlWrite.keep
    | _ => UrlWrite.keep
  | Act.trendsBody _ _ | Act.relatedBody _ _ | Act.popstate _ => UrlWrite.keep

/-- The tab with the page after a handler. -/
def Tab.write (t : Tab) (page : Page) : UrlWrite → Tab
  | UrlWrite.keep => { t with page := page }
  | UrlWrite.replace => { t with page := page, current := updateUrl page.filters page.modal.articleId }
  | UrlWrite.push =>
    { page := page
      back := t.current :: t.back
      current := updateUrl page.filters page.modal.articleId
      forward := [] }

/-- The values of `sortSelect`. -/
def sortOptions : List String :=
  ["CREATED_DESC", "CREATED_ASC", "MINED_DESC", "MINED_ASC", "LIKE_DESC", "VIEW_DESC", "COMMENT_DESC",
    "RELEVANCE"]

/-- The values of `limitSelect`, after `parseInt`. -/
def limitOptions : List (Option ℤ) := [some 5, some 10, some 50, some 100]

/-- What the controls of the page can set off. A source is any that the server names. -/
def offered : Act → Bool
  | Act.selectSort value => value ∈ sortOptions
  | Act.selectLimit value => value ∈ limitOptions
  | Act.popstate _ => false
  | _ => true

inductive TabStep
  | act (a : Act)
  | back
  | forward

/-- A step of the tab; there may be no entry to go to. -/
def Tab.step (t : Tab) : TabStep → Option Tab
  | TabStep.act a =>
    if offered a then (Frontend.step t.page a).map fun page => t.write page (urlWrite t.page a) else none
  -- `popstate` takes the article from the entry, and nothing else
  | TabStep.back =>
    match t.back with
    | [] => none
    | q :: back => some ⟨t.page.popstate (getId q), back, q, t.current :: t.forward⟩
  | TabStep.forward =>
    match t.forward with
    | [] => none
    | q :: forward => some ⟨t.page.popstate (getId q), t.current :: t.back, q, forward⟩

def tabMachine : StepMachine Tab TabStep := ⟨Tab.step⟩

/-- A tab in which the page was opened at an address. -/
def openTab (q : Query) : Tab where
  page := init (loadFilters q) (getId q)
  back := []
  current := updateUrl (loadFilters q).syncUIWithState (getId q)
  forward := []

/-- A fresh page at the address has what this page has. -/
def Describes (t : Tab) : Prop :=
  (loadFilters t.current).syncUIWithState = t.page.filters ∧ getId t.current = t.page.modal.articleId

/-! ## What is read of a written address -/

theorem lookup_setParam_ne {key k : String} (h : key ≠ k) (set : Bool) (value : String) (q : Query) :
    (setParam set k value ++ q).lookup key = q.lookup key := by
  rw [setParam]
  split
  · rw [List.singleton_append, List.lookup_cons, beq_false_of_ne h]
  · rfl

theorem lookup_setParam_self (set : Bool) (key value : String) (q : Query) :
    (setParam set key value ++ q).lookup key = if set then some value else q.lookup key := by
  rw [setParam]
  split
  · rw [List.singleton_append, List.lookup_cons_self]
  · rfl

/-- What is read of the part of the address that starts with the parameter. An empty value is
read as the default, like a missing one. -/
theorem getParam_setParam {key : String} {q : Query} (hq : q.lookup key = none) (set : Bool)
    (value defaultVal : String) : getParam (setParam set key value ++ q) key defaultVal =
      if set = true ∧ value ≠ "" then value else defaultVal := by
  rw [getParam, lookup_setParam_self]
  cases set with
  | true => by_cases hvalue : value = "" <;> simp [hvalue]
  | false => simp [hq]

theorem getParam_skip {key k : String} (h : key ≠ k) (set : Bool) (value defaultVal : String) (q : Query) :
    getParam (setParam set k value ++ q) key defaultVal = getParam q key defaultVal := by
  rw [getParam, getParam, lookup_setParam_ne h]

theorem lookup_setId {key : String} (h : key ≠ "id") (articleId : Option ArticleId) :
    (setId articleId).lookup key = none := by
  cases articleId with
  | none => rfl
  | some id =>
    rw [setId, List.lookup_cons, beq_false_of_ne h]
    rfl

/-- What a fresh page reads of the address that was written. Defaults are left out of an
address and read back as defaults; an empty source, order or kind of search becomes the
default; and a number comes back as `parseInt` reads its text. -/
theorem loadFilters_updateUrl (f : Filters) (articleId : Option ArticleId) :
    loadFilters (updateUrl f articleId) =
      { source := if f.source = "" then "ALL" else f.source
        query := f.query
        searchType := if f.searchType = "" then "hybrid" else f.searchType
        isNew := f.isNew
        sort := if f.sort = "" then "CREATED_DESC" else f.sort
        page := parseInt (intText f.page)
        limit := parseInt (intText f.limit) } := by
  have hnumber : ∀ (x : Option ℤ) (n : ℤ) (d : String), d = intText (some n) →
      parseInt (if decide (x ≠ some n) = true ∧ intText x ≠ "" then intText x else d) = parseInt (intText x) := by
    rintro x n _ rfl
    by_cases hx : x = some n
    · rw [if_neg (by simp [hx]), hx]
    · rw [if_pos ⟨decide_eq_true hx, JsNumber.intText_ne_empty x⟩]
  -- each parameter is looked up behind those that are written before it
  rw [loadFilters, updateUrl]
  congr 1
  · rw [getParam_setParam (by simp [lookup_setParam_ne, lookup_setId])]
    by_cases hempty : f.source = "" <;> by_cases hall : f.source = "ALL" <;> simp [hempty, hall]
  · rw [getParam_skip (by decide), getParam_setParam (by simp [lookup_setParam_ne, lookup_setId])]
    by_cases hempty : f.query = "" <;> simp [hempty]
  · rw [getParam_skip (by decide), getParam_skip (by decide),
      getParam_setParam (by simp [lookup_setParam_ne, lookup_setId])]
    by_cases hempty : f.searchType = "" <;> simp [hempty]
  · rw [getParam_skip (by decide), getParam_skip (by decide), getParam_skip (by decide),
      getParam_skip (by decide), getParam_setParam (by simp [lookup_setParam_ne, lookup_setId])]
    cases f.isNew <;> decide
  · rw [getParam_skip (by decide), getParam_skip (by decide), getParam_skip (by decide),
      getParam_setParam (by simp [lookup_setParam_ne, lookup_setId])]
    by_cases hempty : f.sort = "" <;> by_cases hnewest : f.sort = "CREATED_DESC" <;> simp [hempty, hnewest]
  · rw [getParam_skip (by decide), getParam_skip (by decide), getParam_skip (by decide),
      getParam_skip (by decide), getParam_skip (by decide),
      getParam_setParam (by simp [lookup_setParam_ne, lookup_setId])]
    exact hnumber f.page 1 "1" (by decide +kernel)
  · rw [getParam_skip (by decide), getParam_skip (by decide), getParam_skip (by decide),
      getParam_skip (by decide), getParam_skip (by decide), getParam_skip (by decide),
      getParam_setParam (lookup_setId (by decide) articleId)]
    exact hnumber f.limit 5 "5" (by decide +kernel)

theorem getId_updateUrl (f : Filters) (articleId : Option ArticleId) :
    getId (updateUrl f articleId) = articleId := by
  have hlookup : (updateUrl f articleId).lookup "id" = articleId.map Subtype.val := by
    rw [updateUrl, lookup_setParam_ne (by decide), lookup_setParam_ne (by decide),
      lookup_setParam_ne (by decide), lookup_setParam_ne (by decide), lookup_setParam_ne (by decide),
      lookup_setParam_ne (by decide), lookup_setParam_ne (by decide)]
    cases articleId <;> rfl
  rw [getId, hlookup]
  cases articleId with
  | none => rfl
  | some id => exact dif_pos id.2

/-! ## What an address can hold -/

/-- What `updateUrl` writes so that it is read again. -/
structure Fit (f : Filters) : Prop where
  source : f.source ≠ ""
  page : Plain f.page
  limit : Plain f.limit

theorem plain_one : Plain (some 1) := by decide +kernel

/-- What is so after every `syncUIWithState`. -/
structure Settled (f : Filters) : Prop where
  synced : f.syncUIWithState = f
  searchType : f.searchType ≠ ""
  sort : f.sort ≠ ""

/-- `syncUIWithState` changes nothing but the order. -/
theorem sync_eq (f : Filters) : f.syncUIWithState = { f with sort := f.syncUIWithState.sort } := by
  rw [Filters.syncUIWithState]
  split
  · split
    · rfl
    · split <;> rfl
  · split <;> rfl

/-- `syncUIWithState` empties no order. -/
theorem sort_sync_ne_empty {f : Filters} (h : f.sort ≠ "") : f.syncUIWithState.sort ≠ "" := by
  have hrelevance : "RELEVANCE" ≠ "" := by decide
  have hnewest : "CREATED_DESC" ≠ "" := by decide
  rw [Filters.syncUIWithState]
  split
  · split
    · exact hrelevance
    · split
      · exact hrelevance
      · exact h
  · split
    · exact hnewest
    · exact h

theorem settled_sync {f : Filters} (htype : f.searchType ≠ "") (hsort : f.sort ≠ "") :
    Settled f.syncUIWithState where
  synced := syncUIWithState_idem f
  searchType := by
    rw [sync_eq]
    exact htype
  sort := sort_sync_ne_empty hsort

theorem fit_sync_iff {f : Filters} : Fit f.syncUIWithState ↔ Fit f := by
  rw [sync_eq]
  exact ⟨fun h => ⟨h.source, h.page, h.limit⟩, fun h => ⟨h.source, h.page, h.limit⟩⟩

/-- An address tells the whole state, if the state fits into one, and only then: an empty
source is read as `ALL`, and a number that does not read back as another one. -/
theorem reads_back_iff {f : Filters} (h : Settled f) (articleId : Option ArticleId) :
    (loadFilters (updateUrl f articleId)).syncUIWithState = f ↔ Fit f := by
  rw [loadFilters_updateUrl, if_neg h.searchType, if_neg h.sort]
  constructor
  · intro heq
    rw [sync_eq] at heq
    refine ⟨fun hsource => ?_, ?_, ?_⟩
    · have hall : (if f.source = "" then "ALL" else f.source) = f.source := congrArg Filters.source heq
      rw [if_pos hsource, hsource] at hall
      exact absurd hall (by decide)
    · exact (parseInt_intText_iff f.page).1 (congrArg Filters.page heq)
    · exact (parseInt_intText_iff f.limit).1 (congrArg Filters.limit heq)
  · intro hfit
    rw [if_neg hfit.source, (parseInt_intText_iff f.page).2 hfit.page,
      (parseInt_intText_iff f.limit).2 hfit.limit]
    exact h.synced

/-! ### The list's part of an address -/

/-- An address without its article. -/
def listParams (q : Query) : Query := q.filter fun param => param.1 ≠ "id"

theorem listParams_setParam {key : String} (h : key ≠ "id") (set : Bool) (value : String) (q : Query) :
    listParams (setParam set key value ++ q) = setParam set key value ++ listParams q := by
  rw [listParams, List.filter_append, setParam]
  cases set with
  | true => simp [h, listParams]
  | false => rfl

theorem listParams_updateUrl (f : Filters) (articleId : Option ArticleId) :
    listParams (updateUrl f articleId) = updateUrl f none := by
  have hid : listParams (setId articleId) = [] := by cases articleId <;> rfl
  rw [updateUrl, listParams_setParam (by decide), listParams_setParam (by decide),
    listParams_setParam (by decide), listParams_setParam (by decide), listParams_setParam (by decide),
    listParams_setParam (by decide), listParams_setParam (by decide), hid]
  rfl

/-- It tells the state of the list, where that fits. -/
theorem listParams_eq_iff {f g : Filters} (hf : Settled f) (hfit : Fit f) (hg : Settled g) (hgit : Fit g)
    (articleId : Option ArticleId) : listParams (updateUrl f articleId) = updateUrl g none ↔ f = g := by
  rw [listParams_updateUrl]
  constructor
  · intro heq
    rw [← (reads_back_iff hf none).2 hfit, heq, (reads_back_iff hg none).2 hgit]
  · rintro rfl
    rfl

/-! ## Steps -/

/-- The list's part of what an action sets fits into an address. -/
def FitAct : Act → Prop
  | Act.selectSource value => value ≠ ""
  | Act.goToPage p => Plain (some p)
  | _ => True

/-- A step after which the address tells the state: what is set fits into an address, and
Back and Forward lead to the list that the page has. -/
def Agrees (t : Tab) : TabStep → Prop
  | TabStep.act a => FitAct a
  | TabStep.back => ∀ q ∈ t.back.head?, listParams q = updateUrl t.page.filters none
  | TabStep.forward => ∀ q ∈ t.forward.head?, listParams q = updateUrl t.page.filters none

/-- The list keeps its parameters, and the article stays unless the address is written. -/
def Unchanged (s s' : Page) (w : UrlWrite) : Prop :=
  s'.filters = s.filters ∧ (w = UrlWrite.keep → s'.modal.articleId = s.modal.articleId)

theorem unchanged_closeModal (s : Page) : Unchanged s s.closeModal (closeWrite s) := by
  refine ⟨rfl, fun hkeep => ?_⟩
  rw [closeWrite] at hkeep
  split at hkeep
  · cases hkeep
  · next hnone => exact (Option.not_isSome_iff_eq_none.1 hnone).symm

/-- A response leaves the list's state. Where it closes the modal the address is written. -/
theorem unchanged_respond {s s' : Page} {i : ℕ} {status : Option ℕ} (h : respond s i status = some s') :
    Unchanged s s' (urlWrite s (Act.response i status)) := by
  rw [respond] at h
  split at h
  · next hcall =>
    obtain rfl := Option.some.inj h
    rw [urlWrite, hcall]
    split
    · exact ⟨rfl, fun _ => rfl⟩
    · exact ⟨rfl, fun _ => rfl⟩
  -- an answer for an article that is no success closes it
  · next hcall =>
    obtain rfl := Option.some.inj h
    rw [urlWrite, hcall]
    dsimp only
    split
    · exact ⟨rfl, fun _ => rfl⟩
    · exact unchanged_closeModal s
  · next hcall =>
    obtain rfl := Option.some.inj h
    rw [urlWrite, hcall]
    split
    · split
      · exact ⟨rfl, fun _ => rfl⟩
      · exact ⟨rfl, fun _ => rfl⟩
    · refine ⟨rfl, fun _ => ?_⟩
      show Modal.articleId (if _ then _ else _) = _
      split <;> rfl
  · cases h

theorem articleId_endRelated (s : Page) (i : ℕ) (id : String) (token : ℕ) (answer : RelatedAnswer) :
    (s.endRelated i id token answer).modal.articleId = s.modal.articleId := by
  cases answer with
  | ok data => rfl
  | failed =>
    show Modal.articleId (if _ then _ else _) = _
    split <;> rfl

theorem unchanged_detailBody {s s' : Page} {i : ℕ} {item : Option Json}
    (h : Frontend.step s (Act.detailBody i item) = some s') :
    Unchanged s s' (urlWrite s (Act.detailBody i item)) := by
  rw [Frontend.step] at h
  split at h
  · next hcall =>
    obtain rfl := Option.some.inj h
    rw [urlWrite, hcall]
    dsimp only
    cases hitem : detailItem item with
    | none => exact unchanged_closeModal s
    | some item => exact ⟨rfl, fun _ => rfl⟩
  · cases h

theorem unchanged_trendsBody {s s' : Page} {i : ℕ} {body : Option TrendsBody}
    (h : Frontend.step s (Act.trendsBody i body) = some s') : Unchanged s s' UrlWrite.keep := by
  rw [Frontend.step] at h
  split at h
  · obtain rfl := Option.some.inj h
    exact ⟨rfl, fun _ => rfl⟩
  · cases h

theorem unchanged_relatedBody {s s' : Page} {i : ℕ} {data : Option (Option (List Json))}
    (h : Frontend.step s (Act.relatedBody i data) = some s') : Unchanged s s' UrlWrite.keep := by
  rw [Frontend.step] at h
  split at h
  · obtain rfl := Option.some.inj h
    exact ⟨rfl, fun _ => articleId_endRelated s i _ _ _⟩
  · cases h

/-- What an action does to the list and to the address. -/
def Effect (s : Page) (a : Act) (s' : Page) : Prop :=
  (urlWrite s a = UrlWrite.keep ∧ FitAct a ∧ s'.filters = s.filters ∧
    s'.modal.articleId = s.modal.articleId) ∨
  (urlWrite s a ≠ UrlWrite.keep ∧ Settled s'.filters ∧ (Fit s'.filters ↔ FitAct a))

/-- A handler that leaves the list's state has the effect that is claimed of every step: the
address is written from a state that fits, or it is left as it was. -/
theorem Effect.of_unchanged {s s' : Page} {a : Act} (hsettled : Settled s.filters) (hfit : Fit s.filters)
    (ha : FitAct a) (h : Unchanged s s' (urlWrite s a)) : Effect s a s' := by
  by_cases hkeep : urlWrite s a = UrlWrite.keep
  · exact Or.inl ⟨hkeep, ha, h.1, h.2 hkeep⟩
  · rw [Effect, h.1]
    exact Or.inr ⟨hkeep, hsettled, iff_of_true hfit ha⟩

/-- A handler that sets parameters of the list and synchronises the controls. -/
theorem Effect.of_sync {s s' : Page} {a : Act} (g : Filters) (hfilters : s'.filters = g.syncUIWithState)
    (hwrite : urlWrite s a = UrlWrite.replace) (htype : g.searchType ≠ "") (hsort : g.sort ≠ "")
    (hfit : Fit g ↔ FitAct a) : Effect s a s' := by
  refine Or.inr ⟨?_, ?_, ?_⟩
  · rw [hwrite]
    decide
  · rw [hfilters]
    exact settled_sync htype hsort
  · rw [hfilters, fit_sync_iff]
    exact hfit

theorem filters_handleSearch {s : Page} (h : s.isSubmitting = false) (value : String) :
    (s.handleSearch value).filters = Filters.syncUIWithState
      { s.filters with query := String.ofList (JsString.trim value.toList), page := some 1 } := by
  rw [Page.handleSearch, h]
  simp only [Bool.false_eq_true, if_false, Page.fetchTrends]

theorem filters_refetch (s : Page) (f : Filters) : (s.refetch f).filters = f.syncUIWithState := rfl

section Handlers

variable {s : Page} (hsettled : Settled s.filters) (hfit : Fit s.filters)

include hsettled hfit

/-- A search that is refused as one is running leaves the state and the address. -/
theorem effect_search (value : String) : Effect s (Act.search value) (s.handleSearch value) := by
  cases hsubmitting : s.isSubmitting with
  | true =>
    refine Effect.of_unchanged hsettled hfit trivial ?_
    rw [Page.handleSearch, if_pos hsubmitting]
    exact ⟨rfl, fun _ => rfl⟩
  | false =>
    have hwrite : urlWrite s (Act.search value) = UrlWrite.replace := by
      rw [urlWrite, hsubmitting]
      rfl
    exact Effect.of_sync _ (filters_handleSearch hsubmitting value) hwrite hsettled.searchType
      hsettled.sort (iff_of_true ⟨hfit.source, plain_one, hfit.limit⟩ trivial)

theorem effect_toggleSearchType (checked : Bool) :
    Effect s (Act.toggleSearchType checked) (s.toggleSearchType checked) := by
  refine Effect.of_sync
    { s.filters with searchType := if checked then "hybrid" else "keyword", page := some 1 } ?_ rfl ?_
    hsettled.sort (iff_of_true ⟨hfit.source, plain_one, hfit.limit⟩ trivial)
  · rw [Page.toggleSearchType]
    split
    · exact filters_refetch s _
    · rfl
  · show (if checked = true then "hybrid" else "keyword") ≠ ""
    cases checked <;> decide

/-- To go back pushes an address when there is somewhere to go back to. -/
theorem effect_goBackModal : Effect s Act.goBackModal s.goBackModal := by
  refine Effect.of_unchanged hsettled hfit trivial ?_
  rw [urlWrite, Page.goBackModal]
  split
  · exact ⟨rfl, fun _ => rfl⟩
  · next prevId hlast =>
    have hne : s.modal.modalHistory ≠ [] := by
      intro hnil
      rw [hnil] at hlast
      cases hlast
    rw [if_neg hne]
    exact ⟨rfl, fun hkeep => by cases hkeep⟩

/-- What one handler does to the state and to the address, for every action that the page
offers. -/
theorem effect_step {s' : Page} {a : Act} (ha : offered a = true) (hstep : Frontend.step s a = some s') :
    Effect s a s' := by
  have htype := hsettled.searchType
  have hsort := hsettled.sort
  cases a with
  | search value =>
    obtain rfl := Option.some.inj hstep
    exact effect_search hsettled hfit value
  -- a handler of the list refetches: the filters go into the URL as they stand
  | goToPage p =>
    obtain rfl := Option.some.inj hstep
    exact Effect.of_sync _ (filters_refetch s _) rfl htype hsort
      ⟨fun h => h.page, fun h => ⟨hfit.source, h, hfit.limit⟩⟩
  | clear =>
    obtain rfl := Option.some.inj hstep
    have hnewest : "CREATED_DESC" ≠ "" := by decide
    exact Effect.of_sync _ (filters_refetch s _) rfl htype hnewest
      (iff_of_true ⟨hfit.source, plain_one, hfit.limit⟩ trivial)
  | toggleSearchType checked =>
    obtain rfl := Option.some.inj hstep
    exact effect_toggleSearchType hsettled hfit checked
  | selectSource value =>
    obtain rfl := Option.some.inj hstep
    exact Effect.of_sync _ (filters_refetch s _) rfl htype hsort
      ⟨fun h => h.source, fun h => ⟨h, plain_one, hfit.limit⟩⟩
  | selectSort value =>
    obtain rfl := Option.some.inj hstep
    have hoption : ∀ v ∈ sortOptions, v ≠ "" := by decide
    exact Effect.of_sync _ (filters_refetch s _) rfl htype (hoption value (of_decide_eq_true ha))
      (iff_of_true ⟨hfit.source, plain_one, hfit.limit⟩ trivial)
  | selectLimit value =>
    obtain rfl := Option.some.inj hstep
    have hoption : ∀ v ∈ limitOptions, Plain v := by decide +kernel
    exact Effect.of_sync _ (filters_refetch s _) rfl htype hsort
      (iff_of_true ⟨hfit.source, plain_one, hoption value (of_decide_eq_true ha)⟩ trivial)
  | toggleNew =>
    obtain rfl := Option.some.inj hstep
    exact Effect.of_sync _ (filters_refetch s _) rfl htype hsort
      (iff_of_true ⟨hfit.source, plain_one, hfit.limit⟩ trivial)
  -- the modal writes `?id=` beside the filters and leaves them alone
  | openDetail id isRelatedClick =>
    obtain rfl := Option.some.inj hstep
    exact Effect.of_unchanged hsettled hfit trivial ⟨rfl, fun hkeep => by cases hkeep⟩
  | goBackModal =>
    obtain rfl := Option.some.inj hstep
    exact effect_goBackModal hsettled hfit
  | closeModal =>
    obtain rfl := Option.some.inj hstep
    exact Effect.of_unchanged hsettled hfit trivial (unchanged_closeModal s)
  -- going back is no control of the page
  | popstate currentUrlId => cases ha
  | response i status => exact Effect.of_unchanged hsettled hfit trivial (unchanged_respond hstep)
  | trendsBody i body => exact Effect.of_unchanged hsettled hfit trivial (unchanged_trendsBody hstep)
  | detailBody i item => exact Effect.of_unchanged hsettled hfit trivial (unchanged_detailBody hstep)
  | relatedBody i data => exact Effect.of_unchanged hsettled hfit trivial (unchanged_relatedBody hstep)

end Handlers

/-! ## Runs -/

/-- What the steps keep while the address tells the state: every entry of the history was
written for a state that fits into an address. -/
structure Kept (t : Tab) : Prop where
  settled : Settled t.page.filters
  fit : Fit t.page.filters
  written : ∀ q ∈ t.back ++ t.current :: t.forward, ∃ f id, Settled f ∧ Fit f ∧ q = updateUrl f id

theorem filters_popstate (s : Page) (currentUrlId : Option ArticleId) :
    (s.popstate currentUrlId).filters = s.filters := by
  cases currentUrlId <;> rfl

theorem articleId_popstate (s : Page) (currentUrlId : Option ArticleId) :
    (s.popstate currentUrlId).modal.articleId = currentUrlId := by
  cases currentUrlId <;> rfl

/-- After Back or Forward the article is the address's, and the list need not be: it is when
the entry was written with the list that the page has now. -/
theorem describes_popstate_iff {s : Page} {q : Query} {back forward : List Query} (hs : Settled s.filters)
    (hfit : Fit s.filters) (hq : ∃ f id, Settled f ∧ Fit f ∧ q = updateUrl f id) :
    Describes ⟨s.popstate (getId q), back, q, forward⟩ ↔ listParams q = updateUrl s.filters none := by
  obtain ⟨f, id, hf, hff, rfl⟩ := hq
  rw [Describes, filters_popstate, articleId_popstate, and_iff_left rfl, (reads_back_iff hf id).2 hff,
    listParams_eq_iff hf hff hs hfit]

/-- An address that was just written describes the page if the state fits into one. -/
theorem describes_write_iff {t : Tab} {page : Page} {w : UrlWrite} (hw : w ≠ UrlWrite.keep)
    (hsettled : Settled page.filters) : Describes (t.write page w) ↔ Fit page.filters := by
  have hread : ((loadFilters (updateUrl page.filters page.modal.articleId)).syncUIWithState = page.filters ∧
      getId (updateUrl page.filters page.modal.articleId) = page.modal.articleId) ↔ Fit page.filters := by
    rw [and_iff_left (getId_updateUrl _ _)]
    exact reads_back_iff hsettled _
  cases w with
  | keep => exact absurd rfl hw
  | replace => exact hread
  | push => exact hread

/-- The entries after a write are the new one and old ones; a push drops those that lay
forward. -/
theorem mem_entries_write {t : Tab} {page : Page} {w : UrlWrite} {q : Query}
    (h : q ∈ (t.write page w).back ++ (t.write page w).current :: (t.write page w).forward) :
    q = updateUrl page.filters page.modal.articleId ∨ q ∈ t.back ++ t.current :: t.forward := by
  cases w with
  | keep => exact Or.inr h
  | replace =>
    have h' : q ∈ t.back ++ updateUrl page.filters page.modal.articleId :: t.forward := h
    simp only [List.mem_append, List.mem_cons] at h' ⊢
    tauto
  | push =>
    have h' : q ∈ (t.current :: t.back) ++ [updateUrl page.filters page.modal.articleId] := h
    simp only [List.mem_append, List.mem_cons, List.not_mem_nil, or_false] at h' ⊢
    tauto

/-- What a step does to the agreement of the address with the page: from a state that agrees,
it agrees afterwards exactly when the step is one of those that `Agrees` lets through. -/
theorem describes_step_iff {t u : Tab} {a : TabStep} (hkept : Kept t) (hdescribes : Describes t)
    (hstep : t.step a = some u) : Describes u ↔ Agrees t a := by
  cases a with
  | act a =>
    obtain ⟨ha, hmap⟩ := Option.ite_none_right_eq_some.1 hstep
    obtain ⟨page, hpage, rfl⟩ := Option.map_eq_some_iff.1 hmap
    -- the address stays and tells what it told, or is written from the new state
    rcases effect_step hkept.settled hkept.fit ha hpage with
      ⟨hkeep, hact, hfilters, hid⟩ | ⟨hwrite, hsettled, hfit⟩
    · refine iff_of_true ?_ hact
      rw [hkeep]
      exact ⟨hdescribes.1.trans hfilters.symm, hdescribes.2.trans hid.symm⟩
    · exact (describes_write_iff hwrite hsettled).trans hfit
  | back =>
    rw [Tab.step] at hstep
    cases hback : t.back with
    | nil =>
      rw [hback] at hstep
      cases hstep
    | cons q back =>
      rw [hback] at hstep
      obtain rfl := Option.some.inj hstep
      have hq := hkept.written q (List.mem_append_left _ (hback ▸ List.mem_cons_self))
      rw [describes_popstate_iff hkept.settled hkept.fit hq, Agrees, hback]
      exact ⟨fun h q' hq' => Option.some.inj hq' ▸ h, fun h => h q rfl⟩
  | forward =>
    rw [Tab.step] at hstep
    cases hforward : t.forward with
    | nil =>
      rw [hforward] at hstep
      cases hstep
    | cons q forward =>
      rw [hforward] at hstep
      obtain rfl := Option.some.inj hstep
      have hq := hkept.written q
        (List.mem_append_right _ (List.mem_cons_of_mem _ (hforward ▸ List.mem_cons_self)))
      rw [describes_popstate_iff hkept.settled hkept.fit hq, Agrees, hforward]
      exact ⟨fun h q' hq' => Option.some.inj hq' ▸ h, fun h => h q rfl⟩

/-- Back and Forward only move among the entries. -/
theorem kept_popstate {t : Tab} {q : Query} {back forward : List Query} (hkept : Kept t)
    (hentries : ∀ q' ∈ back ++ q :: forward, q' ∈ t.back ++ t.current :: t.forward) :
    Kept ⟨t.page.popstate (getId q), back, q, forward⟩ where
  settled := by
    rw [filters_popstate]
    exact hkept.settled
  fit := by
    rw [filters_popstate]
    exact hkept.fit
  written q' hq' := hkept.written q' (hentries q' hq')

/-- What is so of the tab stays so as long as the address describes the page: every entry of
the history was written from a state that fits. -/
theorem kept_step {t u : Tab} {a : TabStep} (hkept : Kept t) (hstep : t.step a = some u)
    (hdescribes : Describes u) : Kept u := by
  cases a with
  | act a =>
    obtain ⟨ha, hmap⟩ := Option.ite_none_right_eq_some.1 hstep
    obtain ⟨page, hpage, rfl⟩ := Option.map_eq_some_iff.1 hmap
    have hpageFilters : ∀ w, (t.write page w).page.filters = page.filters := fun w => by cases w <;> rfl
    rcases effect_step hkept.settled hkept.fit ha hpage with
      ⟨hkeep, -, hfilters, -⟩ | ⟨hwrite, hsettled, -⟩
    · rw [hkeep]
      exact ⟨hfilters ▸ hkept.settled, hfilters ▸ hkept.fit, hkept.written⟩
    · have hfit := (describes_write_iff hwrite hsettled).1 hdescribes
      refine ⟨hpageFilters _ ▸ hsettled, hpageFilters _ ▸ hfit, fun q hq => ?_⟩
      rcases mem_entries_write hq with rfl | hq
      · exact ⟨_, _, hsettled, hfit, rfl⟩
      · exact hkept.written q hq
  | back =>
    rw [Tab.step] at hstep
    split at hstep
    · cases hstep
    · next q back hback =>
      obtain rfl := Option.some.inj hstep
      refine kept_popstate hkept fun q' hq' => ?_
      rw [hback]
      simp only [List.mem_append, List.mem_cons] at hq' ⊢
      tauto
  | forward =>
    rw [Tab.step] at hstep
    split at hstep
    · cases hstep
    · next q forward hforward =>
      obtain rfl := Option.some.inj hstep
      refine kept_popstate hkept fun q' hq' => ?_
      rw [hforward]
      simp only [List.mem_append, List.mem_cons] at hq' ⊢
      tauto

/-- A step that is not possible does not break the agreement, so the condition asks nothing of
it. -/
theorem agrees_of_stuck {t : Tab} {a : TabStep} (h : t.step a = none) : Agrees t a := by
  cases a with
  | act a =>
    cases a with
    | goToPage p => cases h
    | selectSource value => cases h
    | _ => trivial
  | back =>
    intro q hq
    rw [Tab.step] at h
    cases hback : t.back with
    | nil =>
      rw [hback] at hq
      cases hq
    | cons q back =>
      rw [hback] at h
      cases h
  | forward =>
    intro q hq
    rw [Tab.step] at h
    cases hforward : t.forward with
    | nil =>
      rw [hforward] at hq
      cases hq
    | cons q forward =>
      rw [hforward] at h
      cases h

theorem getParam_ne_empty {defaultVal : String} (h : defaultVal ≠ "") (q : Query) (key : String) :
    getParam q key defaultVal ≠ "" := by
  rw [getParam]
  split
  · split
    · exact h
    · next hvalue => exact hvalue
  · exact h

theorem filters_openTab (q : Query) : (openTab q).page.filters = (loadFilters q).syncUIWithState := by
  rw [openTab]
  cases getId q <;> rfl

theorem articleId_openTab (q : Query) : (openTab q).page.modal.articleId = getId q := by
  rw [openTab]
  cases getId q <;> rfl

theorem settled_openTab (q : Query) : Settled (openTab q).page.filters := by
  rw [filters_openTab]
  exact settled_sync (getParam_ne_empty (by decide) q _) (getParam_ne_empty (by decide) q _)

/-- The state fits into an address when its numbers read back: a source that is read is not
empty. -/
theorem fit_openTab_iff (q : Query) :
    Fit (openTab q).page.filters ↔ Plain (loadFilters q).page ∧ Plain (loadFilters q).limit := by
  rw [filters_openTab, fit_sync_iff]
  exact ⟨fun h => ⟨h.page, h.limit⟩, fun h => ⟨getParam_ne_empty (by decide) q _, h.1, h.2⟩⟩

/-- The first address, which `init` writes over the one that was opened, describes the page if
the state fits. -/
theorem describes_openTab_iff (q : Query) : Describes (openTab q) ↔ Fit (openTab q).page.filters := by
  have hcurrent : (openTab q).current = updateUrl (openTab q).page.filters (getId q) := by
    rw [filters_openTab]
    rfl
  rw [Describes, hcurrent, getId_updateUrl, articleId_openTab, and_iff_left rfl]
  exact reads_back_iff (settled_openTab q) _

theorem kept_openTab {q : Query} (h : Fit (openTab q).page.filters) : Kept (openTab q) where
  settled := settled_openTab q
  fit := h
  written q' hq' := by
    obtain rfl := List.mem_singleton.1 hq'
    exact ⟨_, getId q, settled_openTab q, h, by rw [filters_openTab]; rfl⟩

/-- **When the address describes the page.** Along a run from a page opened at any address, a
fresh page at the address of the tab has in every state what the page has, exactly when the
numbers of the first address read back from their text and every step of the run agrees. That
is so for numbers below `10 ^ 21`, and for `NaN`; from there on `String` writes an exponent,
which `parseInt` does not read. -/
theorem describes_throughout_iff (q : Query) (steps : List TabStep) :
    (∀ pre post t, steps = pre ++ post → tabMachine.run pre (openTab q) = some t → Describes t) ↔
      (Plain (loadFilters q).page ∧ Plain (loadFilters q).limit) ∧
        tabMachine.Meets Agrees steps (openTab q) := by
  rw [← fit_openTab_iff]
  by_cases hfit : Fit (openTab q).page.filters
  · rw [and_iff_right hfit]
    exact StepMachine.throughout_iff_of_kept tabMachine (fun _ _ => agrees_of_stuck)
      (fun _ _ _ hkept _ hstep hdescribes => kept_step hkept hstep hdescribes)
      (fun _ _ _ hkept hdescribes hstep => describes_step_iff hkept hdescribes hstep)
      (kept_openTab hfit) ((describes_openTab_iff q).2 hfit)
  · refine iff_of_false (fun h => ?_) fun h => hfit h.1
    exact hfit ((describes_openTab_iff q).1 (h [] steps (openTab q) rfl rfl))

theorem loadFilters_nil : loadFilters [] = plainFilters := by
  have hpage : parseInt "1" = some 1 := by decide +kernel
  have hlimit : parseInt "5" = some 5 := by decide +kernel
  show Filters.mk "ALL" "" "hybrid" (decide ("false" = "true")) "CREATED_DESC" (parseInt "1") (parseInt "5") = _
  rw [hpage, hlimit]
  rfl

/-- An article is opened and left by Back, the list turned to its second page, and then Forward. -/
def forwardRun : List TabStep :=
  [TabStep.act (Act.openDetail ⟨"5", by decide⟩ false), TabStep.back, TabStep.act (Act.goToPage 2),
    TabStep.forward]

/-- An article is opened, gone back from, another page of the list asked for, and then Forward
is clicked. The page shows the second page of the list, and the address says the first. -/
theorem forwardRun_not_describes :
    ∃ t, tabMachine.run forwardRun (openTab []) = some t ∧
      t.current = [("searchType", "hybrid"), ("id", "5")] ∧ t.page.filters.page = some 2 ∧ ¬ Describes t := by
  have hopen : openTab [] = ⟨init plainFilters none, [], updateUrl plainFilters none, []⟩ := by
    rw [openTab, loadFilters_nil]
    rfl
  rw [hopen]
  refine ⟨_, rfl, rfl, rfl, ?_⟩
  rintro ⟨hfilters, -⟩
  have hpage := congrArg Filters.page hfilters
  revert hpage
  decide +kernel

end Frontend

end TechTrends
