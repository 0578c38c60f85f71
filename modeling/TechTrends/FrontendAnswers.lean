/-
When the page shows the latest request's answer.

Each of the three parts of the screen has a question: the list that of the current
filters, the modal the article in `state.articleId`, the related list the article that
the modal shows. A part is right when it shows an answer to its question, or a request
that will answer it is still in flight. Every handler that changes a question sends
such a request, and what can break this are the answers to other questions: `index.html`
keeps them off the related list with a token, and only until their body is read.
-/
import TechTrends.Frontend

set_option autoImplicit false

namespace TechTrends

namespace Frontend

open InFlight (Awaits awaits_concat awaits_eraseIdx_of_ne awaits_eraseIdx_of_none awaits_set
  not_awaits_nil)

/-! ## What a request will answer -/

def Call.trendsKey : Call → Option TrendsParams
  | Call.trends params _ _ => some params
  | _ => none

def Call.detailKey : Call → Option ArticleId
  | Call.detail id _ => some id
  | _ => none

/-- A related request by its token. -/
def Call.relatedKey : Call → Option ℕ
  | Call.related _ token _ => some token
  | _ => none

/-! ## What the page is to show -/

/-- The page links of an answer. One without a body has none. -/
def TrendsAnswer.pagination (page : Option ℤ) : TrendsAnswer → List PageLink
  | TrendsAnswer.ok body => renderPagination page body.totalPages
  | _ => []

/-- The list shows an answer to the request of the current filters. -/
def ShowsTrends (f : Filters) (v : TrendsView) (log : List Answered) : Prop :=
  ∃ answer, Answered.trends f.params answer ∈ log ∧ v.cardList = answer.cardList ∧
    v.pagination = answer.pagination f.page

/-- The modal shows an answer for the article. -/
def ShowsItem (m : Modal) (log : List Answered) (id : ArticleId) : Prop :=
  m.shown = true ∧ ∃ item, Answered.detail id (some item) ∈ log ∧ m.content = some item

/-- The related list is one that was answered for the item. -/
def ShowsRelated (m : Modal) (log : List Answered) (item : Json) : Prop :=
  ∃ answer, Answered.related (idText item) answer ∈ log ∧ m.relatedList = answer.list

/-- The modal is closed, or shows the open article with its related list. -/
def ShowsArticle (m : Modal) (log : List Answered) : Prop :=
  match m.articleId with
  | none => m.shown = false
  | some id => m.shown = true ∧ m.relatedSection = true ∧
      ∃ item, Answered.detail id (some item) ∈ log ∧ m.content = some item ∧ ShowsRelated m log item

/-- The page shows what was answered for its state. -/
def ShowsState (s : Page) : Prop :=
  ShowsTrends s.filters s.view s.log ∧ ShowsArticle s.modal s.log

/-! ## When an answer may come -/

/-- An answer to a list request may come when another request will still answer for the
current filters, or when it is for them itself; one without a body then only while no
page links are shown. -/
def TrendsDue (s : Page) (i : ℕ) (params : TrendsParams) (failed : Bool) : Prop :=
  Awaits Call.trendsKey (s.calls.eraseIdx i) s.filters.params ∨
    params = s.filters.params ∧ (failed = true → s.view.pagination = [])

/-- An article may come when it is the open one, or another request will still answer
for that. -/
def DetailDue (s : Page) (i : ℕ) (id : ArticleId) : Prop :=
  ∃ current, s.modal.articleId = some current ∧
    (id = current ∨ Awaits Call.detailKey (s.calls.eraseIdx i) current)

/-- A related list may come when the modal is closed, when it is for the item in the
modal, or when the request with the current token will still answer. -/
def RelatedDue (s : Page) (i : ℕ) (id : String) : Prop :=
  s.modal.shown = false ∨ s.modal.content.map idText = some id ∨
    Awaits Call.relatedKey (s.calls.eraseIdx i) s.modal.relatedRequestToken

/-- The condition on a step. An answer that is written to the screen is due, and the
search type is not switched without a query on another page than the first. -/
def InOrder (s : Page) : Act → Prop
  | Act.toggleSearchType _ => s.filters.query = "" → s.filters.page = some 1
  | Act.response i status =>
    match s.calls[i]? with
    | some (Call.trends params _ Stage.response) => isOk status = false → TrendsDue s i params true
    | _ => True
  | Act.trendsBody i body =>
    match s.calls[i]? with
    | some (Call.trends params _ Stage.body) => TrendsDue s i params body.isNone
    | _ => True
  | Act.detailBody i item =>
    match s.calls[i]? with
    | some (Call.detail id Stage.body) => (detailItem item).isSome = true → DetailDue s i id
    | _ => True
  | Act.relatedBody i data =>
    match s.calls[i]? with
    | some (Call.related id _ Stage.body) => data.isSome = true → RelatedDue s i id
    | _ => True
  | _ => True

instance (s : Page) (i : ℕ) (params : TrendsParams) (failed : Bool) : Decidable (TrendsDue s i params failed) :=
  inferInstanceAs (Decidable (_ ∨ _ ∧ (_ → _)))

instance (s : Page) (i : ℕ) (id : ArticleId) : Decidable (DetailDue s i id) :=
  inferInstanceAs (Decidable (∃ current ∈ s.modal.articleId,
    id = current ∨ Awaits Call.detailKey (s.calls.eraseIdx i) current))

instance (s : Page) (i : ℕ) (id : String) : Decidable (RelatedDue s i id) :=
  inferInstanceAs (Decidable (_ ∨ _ ∨ _))

/-- Whether a step is in order is read off the page. -/
instance decidableInOrder (s : Page) (a : Act) : Decidable (InOrder s a) := by
  cases a with
  | toggleSearchType checked => exact inferInstanceAs (Decidable (_ → _))
  | response i status =>
    dsimp only [InOrder]
    split <;> infer_instance
  | trendsBody i body =>
    dsimp only [InOrder]
    split <;> infer_instance
  | detailBody i item =>
    dsimp only [InOrder]
    split <;> infer_instance
  | relatedBody i data =>
    dsimp only [InOrder]
    split <;> infer_instance
  | _ => exact isTrue trivial

/-! ## The invariant -/

/-- The list: the filters are as `syncUIWithState` leaves them, and the current request
is answered or in flight. -/
structure TrendsInv (s : Page) : Prop where
  synced : s.filters.syncUIWithState = s.filters
  shows : Awaits Call.trendsKey s.calls s.filters.params ∨ ShowsTrends s.filters s.view s.log

/-- The modal: closed without an article, else the article is shown or in flight. -/
structure DetailInv (s : Page) : Prop where
  closed : s.modal.articleId = none → s.modal.shown = false
  shows : ∀ id, s.modal.articleId = some id →
    Awaits Call.detailKey s.calls id ∨ ShowsItem s.modal s.log id

/-- The related list of a modal that is shown is in flight or there. -/
structure RelatedInv (s : Page) : Prop where
  shows : s.modal.shown = true → s.modal.relatedSection = true ∧
    ∃ item, s.modal.content = some item ∧
      (Awaits Call.relatedKey s.calls s.modal.relatedRequestToken ∨ ShowsRelated s.modal s.log item)
  /-- A token is at most the current one, and that belongs to the item in the modal. -/
  token : ∀ id token stage, Call.related id token stage ∈ s.calls →
    token ≤ s.modal.relatedRequestToken ∧
      (token = s.modal.relatedRequestToken → s.modal.content.map idText = some id)

structure Inv (s : Page) : Prop where
  trends : TrendsInv s
  detail : DetailInv s
  related : RelatedInv s

/-- With nothing in flight, the page shows what was answered for its state: each of the three
parts is right, and no answer is left to wait for. -/
theorem Inv.showsState {s : Page} (h : Inv s) (hcalls : s.calls = []) : ShowsState s := by
  refine ⟨?_, ?_⟩
  · refine h.trends.shows.resolve_left fun haw => ?_
    rw [hcalls] at haw
    exact not_awaits_nil haw
  · rw [ShowsArticle]
    cases hid : s.modal.articleId with
    | none => exact h.detail.closed hid
    | some id =>
      obtain ⟨hshown, item, hitem, hcontent⟩ := (h.detail.shows id hid).resolve_left fun haw => by
        rw [hcalls] at haw
        exact not_awaits_nil haw
      obtain ⟨hsection, item', hcontent', hrelated⟩ := h.related.shows hshown
      have hsame : item' = item := Option.some.inj (hcontent'.symm.trans hcontent)
      subst hsame
      refine ⟨hshown, hsection, item', hitem, hcontent, hrelated.resolve_left fun haw => ?_⟩
      rw [hcalls] at haw
      exact not_awaits_nil haw

/-! ## What leaves a part alone -/

/-- A later state with the same list, in which no answer is lost. -/
theorem TrendsInv.frame {s t : Page} (h : TrendsInv s) (hfilters : t.filters = s.filters)
    (hview : t.view = s.view)
    (hcalls : ∀ k, Awaits Call.trendsKey s.calls k → Awaits Call.trendsKey t.calls k)
    (hlog : s.log ⊆ t.log) : TrendsInv t := by
  refine ⟨by rw [hfilters]; exact h.synced, ?_⟩
  rw [hfilters, hview]
  rcases h.shows with haw | ⟨answer, hmem, hcards, hlinks⟩
  · exact Or.inl (hcalls _ haw)
  · exact Or.inr ⟨answer, hlog hmem, hcards, hlinks⟩

theorem DetailInv.frame {s t : Page} (h : DetailInv s) (hid : t.modal.articleId = s.modal.articleId)
    (hshown : t.modal.shown = s.modal.shown) (hcontent : t.modal.content = s.modal.content)
    (hcalls : ∀ k, Awaits Call.detailKey s.calls k → Awaits Call.detailKey t.calls k)
    (hlog : s.log ⊆ t.log) : DetailInv t := by
  refine ⟨fun hnone => ?_, fun id hsome => ?_⟩
  · rw [hshown]
    exact h.closed (hid ▸ hnone)
  · rcases h.shows id (hid ▸ hsome) with haw | ⟨hopen, item, hmem, hitem⟩
    · exact Or.inl (hcalls id haw)
    · exact Or.inr ⟨hshown.trans hopen, item, hlog hmem, hcontent.trans hitem⟩

/-- The related list is only looked at through these fields of the modal. -/
structure SameRelated (m m' : Modal) : Prop where
  shown : m'.shown = m.shown
  content : m'.content = m.content
  relatedSection : m'.relatedSection = m.relatedSection
  token : m'.relatedRequestToken = m.relatedRequestToken
  list : m'.relatedList = m.relatedList

/-- A later state with the same related list. Tokens are not used again, so requests for
related articles that are new need a new token. -/
theorem RelatedInv.frame {s t : Page} (h : RelatedInv s) (hsame : SameRelated s.modal t.modal)
    (hcalls : Awaits Call.relatedKey s.calls s.modal.relatedRequestToken →
      Awaits Call.relatedKey t.calls s.modal.relatedRequestToken)
    (hmem : ∀ id token stage, Call.related id token stage ∈ t.calls →
      ∃ stage, Call.related id token stage ∈ s.calls)
    (hlog : s.log ⊆ t.log) : RelatedInv t := by
  refine ⟨fun hshown => ?_, fun id token stage hc => ?_⟩
  · obtain ⟨hsection, item, hcontent, hlist⟩ := h.shows (hsame.shown ▸ hshown)
    refine ⟨hsame.relatedSection.trans hsection, item, hsame.content.trans hcontent, ?_⟩
    rw [hsame.token]
    rcases hlist with haw | ⟨answer, hanswer, hlist⟩
    · exact Or.inl (hcalls haw)
    · exact Or.inr ⟨answer, hlog hanswer, hsame.list.trans hlist⟩
  · obtain ⟨stage, hc⟩ := hmem id token stage hc
    rw [hsame.token, hsame.content]
    exact h.token id token stage hc

/-! ## The handlers -/

/-- `syncUIWithState` twice is `syncUIWithState`: the order that it sets needs no other. -/
theorem syncUIWithState_idem (f : Filters) :
    f.syncUIWithState.syncUIWithState = f.syncUIWithState := by
  have hsearching : ∀ sort, ({ f with sort := sort } : Filters).isSearching = f.isSearching := fun _ => rfl
  by_cases hq : f.isSearching = true
  · by_cases htype : f.searchType = "hybrid"
    · have hsync : f.syncUIWithState = { f with sort := "RELEVANCE" } := by
        rw [Filters.syncUIWithState, if_pos hq, if_pos htype]
      rw [hsync, Filters.syncUIWithState, hsearching, if_pos hq, if_pos htype]
    · by_cases hsort : f.sort = "" ∨ f.sort = "CREATED_DESC"
      · have hsync : f.syncUIWithState = { f with sort := "RELEVANCE" } := by
          rw [Filters.syncUIWithState, if_pos hq, if_neg htype, if_pos hsort]
        have hset : ¬ ("RELEVANCE" = "" ∨ "RELEVANCE" = "CREATED_DESC") := by decide
        rw [hsync, Filters.syncUIWithState, hsearching, if_pos hq, if_neg htype]
        exact if_neg hset
      · have hsync : f.syncUIWithState = f := by
          rw [Filters.syncUIWithState, if_pos hq, if_neg htype, if_neg hsort]
        rw [hsync, hsync]
  · by_cases hsort : f.sort = "RELEVANCE"
    · have hsync : f.syncUIWithState = { f with sort := "CREATED_DESC" } := by
        rw [Filters.syncUIWithState, if_neg hq, if_pos hsort]
      have hset : ¬ "CREATED_DESC" = "RELEVANCE" := by decide
      rw [hsync, Filters.syncUIWithState, hsearching, if_neg hq]
      exact if_neg hset
    · have hsync : f.syncUIWithState = f := by
        rw [Filters.syncUIWithState, if_neg hq, if_neg hsort]
      rw [hsync, hsync]

/-- A handler that changes the filters and asks for the list. -/
theorem Inv.fetched {s : Page} (h : Inv s) (f : Filters) (isSubmitting submitted : Bool) :
    Inv (({ s with isSubmitting := isSubmitting, filters := f.syncUIWithState } : Page).fetchTrends
      submitted) where
  trends := ⟨syncUIWithState_idem f, Or.inl (awaits_concat Call.trendsKey rfl s.calls)⟩
  detail := h.detail.frame rfl rfl rfl (fun _ haw => haw.append _) (List.Subset.refl _)
  related := by
    refine h.related.frame ⟨rfl, rfl, rfl, rfl, rfl⟩ (fun haw => haw.append _) (fun id token stage hc => ?_)
      (List.Subset.refl _)
    rcases List.mem_append.1 hc with hc | hc
    · exact ⟨stage, hc⟩
    · cases List.mem_singleton.1 hc

/-- Without a query the switch of the search type changes no parameter but the page: the
request has `searchType` only in a search. So on the first page the list shown is still the
right one, although `toggleSearchType` asks for none. -/
theorem TrendsInv.switched {s : Page} (h : TrendsInv s) (hquery : s.filters.query = "")
    (hpage : s.filters.page = some 1) (searchType : String) :
    TrendsInv { s with
      filters := { s.filters with searchType := searchType, page := some 1 }.syncUIWithState } := by
  have hsearching : s.filters.isSearching = false := by
    rw [Filters.isSearching, hquery]
    rfl
  have hnot : ({ s.filters with searchType := searchType, page := some 1 } : Filters).isSearching = false :=
    hsearching
  -- the sort that belongs to searches is gone already
  have hsort : s.filters.sort ≠ "RELEVANCE" := by
    intro hrel
    have hsync := h.synced
    rw [Filters.syncUIWithState, hsearching, if_neg Bool.false_ne_true, if_pos hrel] at hsync
    have hcreated : "CREATED_DESC" = s.filters.sort := congrArg Filters.sort hsync
    rw [hrel] at hcreated
    exact absurd hcreated (by decide)
  have hsync : ({ s.filters with searchType := searchType, page := some 1 } : Filters).syncUIWithState
      = { s.filters with searchType := searchType, page := some 1 } := by
    rw [Filters.syncUIWithState, hnot, if_neg Bool.false_ne_true, if_neg hsort]
  have hparams : ({ s.filters with searchType := searchType, page := some 1 } : Filters).params
      = s.filters.params := by
    rw [Filters.params, Filters.params, hnot, hsearching, hpage, if_neg Bool.false_ne_true,
      if_neg Bool.false_ne_true]
  refine ⟨syncUIWithState_idem _, ?_⟩
  rw [hsync]
  rcases h.shows with haw | ⟨answer, hmem, hcards, hlinks⟩
  · exact Or.inl (hparams ▸ haw)
  · refine Or.inr ⟨answer, hparams ▸ hmem, hcards, ?_⟩
    rw [hpage] at hlinks
    exact hlinks

/-- The switch of the search type, on the first page when there is no query. -/
theorem Inv.toggleSearchType {s : Page} (h : Inv s) (checked : Bool)
    (hfirst : s.filters.query = "" → s.filters.page = some 1) : Inv (s.toggleSearchType checked) := by
  rw [Page.toggleSearchType]
  dsimp only
  split
  · exact h.fetched _ s.isSubmitting false
  · next hquery =>
    have hempty : s.filters.query = "" := Classical.not_not.1 hquery
    refine ⟨h.trends.switched hempty (hfirst hempty) _, ?_, ?_⟩
    · exact h.detail.frame rfl rfl rfl (fun _ haw => haw) (List.Subset.refl _)
    · exact h.related.frame ⟨rfl, rfl, rfl, rfl, rfl⟩ (fun haw => haw) (fun _ _ stage hc => ⟨stage, hc⟩)
        (List.Subset.refl _)

/-- A handler that opens an article and asks for it. -/
theorem Inv.openWith {s : Page} (h : Inv s) (history : List ArticleId) (id : ArticleId) :
    Inv (s.openWith history id) where
  trends := h.trends.frame rfl rfl (fun _ haw => haw.append _) (List.Subset.refl _)
  detail := by
    refine ⟨fun hnone => Option.some_ne_none id hnone |>.elim, fun id' hsome => ?_⟩
    cases hsome
    exact Or.inl (awaits_concat Call.detailKey rfl s.calls)
  related := by
    refine h.related.frame ⟨rfl, rfl, rfl, rfl, rfl⟩ (fun haw => haw.append _) (fun id token stage hc => ?_)
      (List.Subset.refl _)
    rcases List.mem_append.1 hc with hc | hc
    · exact ⟨stage, hc⟩
    · cases List.mem_singleton.1 hc

theorem Inv.closeModal {s : Page} (h : Inv s) : Inv s.closeModal where
  trends := h.trends.frame rfl rfl (fun _ haw => haw) (List.Subset.refl _)
  detail := ⟨fun _ => rfl, fun id hsome => by cases hsome⟩
  related := ⟨fun hshown => absurd hshown Bool.false_ne_true, h.related.token⟩

/-! ## The answers -/

/-- A request that goes on to its body answers the same question as before. -/
theorem Inv.readBody {s : Page} (h : Inv s) {i : ℕ} {c c' : Call} (hi : s.calls[i]? = some c)
    (htrends : c'.trendsKey = c.trendsKey) (hdetail : c'.detailKey = c.detailKey)
    (hrelated : c'.relatedKey = c.relatedKey)
    (hid : ∀ id token stage, c' = Call.related id token stage →
      ∃ stage, c = Call.related id token stage) : Inv (s.readBody i c') where
  trends := h.trends.frame rfl rfl (fun _ => (awaits_set hi htrends).2) (List.Subset.refl _)
  detail := h.detail.frame rfl rfl rfl (fun _ => (awaits_set hi hdetail).2) (List.Subset.refl _)
  related := by
    refine h.related.frame ⟨rfl, rfl, rfl, rfl, rfl⟩ (awaits_set hi hrelated).2 (fun id token stage hc => ?_)
      (List.Subset.refl _)
    rcases List.mem_or_eq_of_mem_set hc with hc | hc
    · exact ⟨stage, hc⟩
    · obtain ⟨stage, hc⟩ := hid id token stage hc.symm
      exact ⟨stage, hc ▸ List.mem_of_getElem? hi⟩

/-- The related requests left when a call ends. -/
theorem related_mem_of_eraseIdx {calls : List Call} {i : ℕ} {id : String} {token : ℕ} {stage : Stage}
    (h : Call.related id token stage ∈ calls.eraseIdx i) :
    ∃ stage, Call.related id token stage ∈ calls :=
  ⟨stage, List.mem_of_mem_eraseIdx h⟩

def TrendsAnswer.isError : TrendsAnswer → Bool
  | TrendsAnswer.ok _ => false
  | _ => true

/-- A list answer that is due leaves the list right. It is the answer to the current filters,
or a request that is still in flight will replace it. -/
theorem Inv.endTrends {s : Page} (h : Inv s) {i : ℕ} {params : TrendsParams} {submitted : Bool}
    {stage : Stage} {answer : TrendsAnswer} (hi : s.calls[i]? = some (Call.trends params submitted stage))
    (hdue : TrendsDue s i params answer.isError) : Inv (s.endTrends i params submitted answer) where
  trends := by
    refine ⟨h.trends.synced, ?_⟩
    rcases hdue with haw | ⟨hparams, hlinks⟩
    · exact Or.inl haw
    · subst hparams
      refine Or.inr ⟨answer, ?_, ?_, ?_⟩
      · exact List.mem_append_right s.log (List.mem_singleton_self _)
      · cases answer <;> rfl
      · cases answer with
        | ok body => rfl
        | tooManyRequests => exact hlinks rfl
        | failed => exact hlinks rfl
  detail := h.detail.frame rfl rfl rfl (fun _ => (awaits_eraseIdx_of_none hi rfl).2)
    (List.subset_append_left _ _)
  related := h.related.frame ⟨rfl, rfl, rfl, rfl, rfl⟩
    (awaits_eraseIdx_of_none hi rfl).2 (fun _ _ _ => related_mem_of_eraseIdx)
    (List.subset_append_left _ _)

/-- An article that cannot be shown closes the modal, also when it is not the one that is
open. -/
theorem Inv.endDetail_none {s : Page} (h : Inv s) {i : ℕ} {id : ArticleId} {stage : Stage}
    (hi : s.calls[i]? = some (Call.detail id stage)) : Inv (s.endDetail i id none) where
  trends := h.trends.frame rfl rfl (fun _ => (awaits_eraseIdx_of_none hi rfl).2)
    (List.subset_append_left _ _)
  detail := ⟨fun _ => rfl, fun _ hsome => absurd hsome.symm (Option.some_ne_none _)⟩
  related := ⟨fun hshown => absurd hshown Bool.false_ne_true, fun id token stage hc =>
    h.related.token id token stage (List.mem_of_mem_eraseIdx hc)⟩

/-- An article that is due is shown, and its related list is asked for with a new token, so
that the answers to all requests before it are stale. -/
theorem Inv.endDetail_some {s : Page} (h : Inv s) {i : ℕ} {id : ArticleId} {stage : Stage} {item : Json}
    (hi : s.calls[i]? = some (Call.detail id stage)) (hdue : DetailDue s i id) :
    Inv (s.endDetail i id (some item)) := by
  obtain ⟨current, hcurrent, hdue⟩ := hdue
  refine ⟨?_, ?_, ?_⟩
  · exact h.trends.frame rfl rfl
      (fun _ haw => ((awaits_eraseIdx_of_none hi rfl).2 haw).append _)
      (List.subset_append_left _ _)
  · have hid : (s.endDetail i id (some item)).modal.articleId = some current := hcurrent
    refine ⟨fun hnone => absurd (hid.symm.trans hnone) (Option.some_ne_none current), fun id' hsome => ?_⟩
    rw [hid] at hsome
    cases hsome
    rcases hdue with rfl | haw
    · exact Or.inr ⟨rfl, item, List.mem_append_right s.log (List.mem_singleton_self _), rfl⟩
    · exact Or.inl (haw.append _)
  · refine ⟨fun _ => ⟨rfl, item, rfl, Or.inl (awaits_concat Call.relatedKey rfl _)⟩, ?_⟩
    intro id' token stage' hc
    have htoken : (s.endDetail i id (some item)).modal.relatedRequestToken
        = s.modal.relatedRequestToken + 1 := rfl
    rw [htoken]
    rcases List.mem_append.1 hc with hc | hc
    · have hle := (h.related.token id' token stage' (List.mem_of_mem_eraseIdx hc)).1
      exact ⟨by omega, fun heq => by omega⟩
    · cases List.mem_singleton.1 hc
      exact ⟨Nat.le_refl _, fun _ => rfl⟩

/-- A related request that is not read leaves the rest as it is. -/
theorem Inv.dropRelated {s : Page} (h : Inv s) {i : ℕ} {id : String} {token : ℕ} {stage : Stage}
    (hi : s.calls[i]? = some (Call.related id token stage)) (hstale : token ≠ s.modal.relatedRequestToken)
    (answered : List Answered) :
    Inv { s with calls := s.calls.eraseIdx i, log := s.log ++ answered } where
  trends := h.trends.frame rfl rfl (fun _ => (awaits_eraseIdx_of_none hi rfl).2)
    (List.subset_append_left _ _)
  detail := h.detail.frame rfl rfl rfl (fun _ => (awaits_eraseIdx_of_none hi rfl).2)
    (List.subset_append_left _ _)
  related := h.related.frame ⟨rfl, rfl, rfl, rfl, rfl⟩
    (awaits_eraseIdx_of_ne hi fun heq => hstale (Option.some.inj heq)).2
    (fun _ _ _ => related_mem_of_eraseIdx) (List.subset_append_left _ _)

/-- A related answer that is written, for the item in the modal or before the one for it. -/
theorem Inv.writeRelated {s : Page} (h : Inv s) {i : ℕ} {id : String} {token : ℕ} {stage : Stage}
    (hi : s.calls[i]? = some (Call.related id token stage)) (answer : RelatedAnswer)
    (hdue : RelatedDue s i id) :
    Inv { s with
      modal := { s.modal with relatedList := answer.list }
      calls := s.calls.eraseIdx i
      log := s.log ++ [Answered.related id answer] } where
  trends := h.trends.frame rfl rfl (fun _ => (awaits_eraseIdx_of_none hi rfl).2)
    (List.subset_append_left _ _)
  detail := h.detail.frame rfl rfl rfl (fun _ => (awaits_eraseIdx_of_none hi rfl).2)
    (List.subset_append_left _ _)
  related := by
    refine ⟨fun hshown => ?_, fun id' token' stage' hc =>
      h.related.token id' token' stage' (List.mem_of_mem_eraseIdx hc)⟩
    obtain ⟨hsection, item, hcontent, -⟩ := h.related.shows hshown
    refine ⟨hsection, item, hcontent, ?_⟩
    rcases hdue with hclosed | hitem | haw
    · exact absurd (hclosed.symm.trans hshown) Bool.false_ne_true
    · rw [hcontent] at hitem
      have hid : idText item = id := Option.some.inj hitem
      refine Or.inr ⟨answer, ?_, rfl⟩
      rw [hid]
      exact List.mem_append_right s.log (List.mem_singleton_self _)
    · exact Or.inl haw

/-- The end of a request for related articles. Its failure is written only with the current
token; its list was let through at the response and is written whatever the token is now. -/
theorem Inv.endRelated {s : Page} (h : Inv s) {i : ℕ} {id : String} {token : ℕ} {stage : Stage}
    (hi : s.calls[i]? = some (Call.related id token stage)) {answer : RelatedAnswer}
    (hdue : ∀ data, answer = RelatedAnswer.ok data → RelatedDue s i id) :
    Inv (s.endRelated i id token answer) := by
  cases answer with
  | ok data => exact h.writeRelated hi (RelatedAnswer.ok data) (hdue data rfl)
  | failed =>
    rw [Page.endRelated]
    dsimp only
    by_cases htoken : token = s.modal.relatedRequestToken
    · -- the current token belongs to the item in the modal
      rw [if_pos htoken]
      have hitem := (h.related.token id token stage (List.mem_of_getElem? hi)).2 htoken
      exact h.writeRelated hi RelatedAnswer.failed (Or.inr (Or.inl hitem))
    · rw [if_neg htoken]
      exact h.dropRelated hi htoken _

/-! ## Every step -/

/-- What is written for an answer without a body is an error, the text for 429 as well as the
other one. -/
theorem isError_trendsError (status : Option ℕ) : (trendsError status).isError = true := by
  rw [trendsError]
  split <;> rfl

theorem isError_trendsAnswer (body : Option TrendsBody) : (trendsAnswer body).isError = body.isNone := by
  cases body <;> rfl

/-- A response, before its body: an error is written at once, and for a list it has to be due
then. -/
theorem Inv.respond {s t : Page} (h : Inv s) {i : ℕ} {status : Option ℕ}
    (hok : InOrder s (Act.response i status)) (hstep : respond s i status = some t) : Inv t := by
  rw [Frontend.respond] at hstep
  rw [InOrder] at hok
  split at hstep
  · next params submitted hi =>
    rw [hi] at hok
    rw [← Option.some.inj hstep]
    split
    · exact h.readBody hi rfl rfl rfl fun _ _ _ heq => by cases heq
    · next hstatus =>
      refine h.endTrends hi ?_
      rw [isError_trendsError]
      exact hok (Bool.eq_false_iff.2 hstatus)
  · next id hi =>
    rw [← Option.some.inj hstep]
    split
    · exact h.readBody hi rfl rfl rfl fun _ _ _ heq => by cases heq
    · exact h.endDetail_none hi
  · next id token hi =>
    rw [← Option.some.inj hstep]
    split
    · split
      · next hstale =>
        have hdrop := h.dropRelated hi hstale []
        rwa [List.append_nil] at hdrop
      · exact h.readBody hi rfl rfl rfl fun id' token' stage heq => by
          cases heq
          exact ⟨Stage.response, rfl⟩
    · exact h.endRelated hi fun data heq => by cases heq
  · cases hstep

/-- **One step.** Every step that is in order keeps the three parts right, by cases on the
actions: the handlers ask for what they change, and the answers are due. -/
theorem Inv.step {s t : Page} {a : Act} (h : Inv s) (hok : InOrder s a) (hstep : step s a = some t) :
    Inv t := by
  cases a with
  | search value =>
    rw [← Option.some.inj hstep, Page.handleSearch]
    split
    · exact h
    · exact h.fetched _ true true
  -- these handlers set the filters and ask for the list in one go
  | goToPage p => exact Option.some.inj hstep ▸ h.fetched _ s.isSubmitting false
  | clear => exact Option.some.inj hstep ▸ h.fetched _ s.isSubmitting false
  | selectSource value => exact Option.some.inj hstep ▸ h.fetched _ s.isSubmitting false
  | selectSort value => exact Option.some.inj hstep ▸ h.fetched _ s.isSubmitting false
  | selectLimit value => exact Option.some.inj hstep ▸ h.fetched _ s.isSubmitting false
  | toggleNew => exact Option.some.inj hstep ▸ h.fetched _ s.isSubmitting false
  | toggleSearchType checked =>
    exact Option.some.inj hstep ▸ h.toggleSearchType checked hok
  | openDetail id isRelatedClick => exact Option.some.inj hstep ▸ h.openWith _ id
  | goBackModal =>
    rw [← Option.some.inj hstep, Page.goBackModal]
    split
    · exact h
    · next prevId _ => exact h.openWith _ prevId
  | closeModal => exact Option.some.inj hstep ▸ h.closeModal
  | popstate currentUrlId =>
    rw [← Option.some.inj hstep]
    cases currentUrlId with
    | none => exact h.closeModal
    | some id => exact h.openWith _ id
  -- a body is shown only where `InOrder` says that it is the one awaited
  | response i status => exact h.respond hok hstep
  | trendsBody i body =>
    rw [Frontend.step] at hstep
    rw [InOrder] at hok
    split at hstep
    · next params submitted hi =>
      rw [hi] at hok
      rw [← Option.some.inj hstep]
      refine h.endTrends hi ?_
      rw [isError_trendsAnswer]
      exact hok
    · cases hstep
  | detailBody i item =>
    rw [Frontend.step] at hstep
    rw [InOrder] at hok
    split at hstep
    · next id hi =>
      rw [hi] at hok
      rw [← Option.some.inj hstep]
      cases hitem : detailItem item with
      | none => exact h.endDetail_none hi
      | some item' =>
        rw [hitem] at hok
        exact h.endDetail_some hi (hok rfl)
    · cases hstep
  | relatedBody i data =>
    rw [Frontend.step] at hstep
    rw [InOrder] at hok
    split at hstep
    · next id token hi =>
      rw [hi] at hok
      rw [← Option.some.inj hstep]
      refine h.endRelated hi fun data' heq => hok ?_
      cases data with
      | none => cases heq
      | some data => rfl
    · cases hstep

/-- A fresh page has asked for its list, and for its article if the address has one. -/
theorem inv_init (f : Filters) (articleId : Option ArticleId) : Inv (init f articleId) := by
  cases articleId with
  | none =>
    refine ⟨⟨syncUIWithState_idem f, Or.inl (awaits_concat Call.trendsKey rfl [])⟩,
      ⟨fun _ => rfl, fun _ hsome => absurd hsome.symm (Option.some_ne_none _)⟩,
      ⟨fun hshown => absurd hshown Bool.false_ne_true, fun id token stage hc => ?_⟩⟩
    cases List.mem_singleton.1 hc
  | some id =>
    refine ⟨⟨syncUIWithState_idem f, Or.inl ((awaits_concat Call.trendsKey rfl []).append _)⟩,
      ⟨fun _ => rfl, fun id' hsome => ?_⟩,
      ⟨fun hshown => absurd hshown Bool.false_ne_true, fun id' token stage hc => ?_⟩⟩
    · cases hsome
      exact Or.inl (awaits_concat Call.detailKey rfl _)
    · rcases List.mem_append.1 hc with hc | hc
      · cases List.mem_singleton.1 hc
      · cases List.mem_singleton.1 hc

/-- The condition on the steps keeps the invariant. -/
theorem keepsIf_inv : machine.KeepsIf InOrder Inv := fun _ _ _ h hok hstep => h.step hok hstep

/-- **The latest request's answer.** In every run in which what is written to the screen
is due, the page shows what was answered for its state whenever nothing is in flight. -/
theorem page_showsState (f : Filters) (articleId : Option ArticleId) (acts : List Act) {s : Page}
    (hrun : machine.run acts (init f articleId) = some s)
    (hok : machine.Meets InOrder acts (init f articleId)) (hcalls : s.calls = []) : ShowsState s :=
  (keepsIf_inv.run machine (inv_init f articleId) hok hrun).showsState hcalls

/-- The address without parameters. -/
def plainFilters : Filters where
  source := "ALL"
  query := ""
  searchType := "hybrid"
  isNew := false
  sort := "CREATED_DESC"
  page := some 1
  limit := some 5

/-- An article with nothing but an id. -/
def plainItem (id : ℤ) : Json := Json.obj [("id", Json.num (Binary64.ofInt id))]

/-- The list comes, then an article with its related list. -/
def articleRun : List Act :=
  [Act.response 0 (some 200), Act.trendsBody 0 (some ⟨some [plainItem 7], 1, some 1⟩),
    Act.openDetail ⟨"7", by decide⟩ false, Act.response 0 (some 200),
    Act.detailBody 0 (some (plainItem 7)), Act.response 0 (some 200), Act.relatedBody 0 (some (some []))]

/-- A run that opens an article and has everything answered. -/
theorem page_showsState_article :
    ∃ s, machine.run articleRun (init plainFilters none) = some s ∧ s.calls = [] ∧
      s.modal.articleId.isSome = true ∧ ShowsState s := by
  refine ⟨_, rfl, rfl, rfl, page_showsState plainFilters none articleRun rfl ?_ rfl⟩
  refine StepMachine.Meets.cons _ rfl (fun h => by cases h) ?_
  refine StepMachine.Meets.cons _ rfl (Or.inr ⟨rfl, fun h => by cases h⟩) ?_
  refine StepMachine.Meets.cons _ rfl trivial ?_
  refine StepMachine.Meets.cons _ rfl trivial ?_
  refine StepMachine.Meets.cons _ rfl (fun _ => ⟨⟨"7", by decide⟩, rfl, Or.inl rfl⟩) ?_
  refine StepMachine.Meets.cons _ rfl trivial ?_
  exact StepMachine.Meets.cons _ rfl (fun _ => Or.inr (Or.inl rfl)) trivial

/-- The second page is asked for while the first one is in flight, and answered before
it. -/
def staleListRun : List Act :=
  [Act.goToPage 2, Act.response 1 (some 200), Act.trendsBody 1 (some ⟨some [plainItem 6], 2, some 6⟩),
    Act.response 0 (some 200), Act.trendsBody 0 (some ⟨some [plainItem 1], 2, some 6⟩)]

/-- The next page is asked for before the first one has come, and its answer overtakes that of
the first. The page then keeps the cards of the first page. -/
theorem page_staleList :
    ∃ s, machine.run staleListRun (init plainFilters none) = some s ∧
      s.calls = [] ∧ s.filters.page = some 2 ∧ ¬ ShowsState s := by
  refine ⟨_, rfl, rfl, rfl, ?_⟩
  rintro ⟨⟨answer, hmem, hcards, -⟩, -⟩
  rcases List.mem_cons.1 hmem with heq | hmem
  · -- the only answer for the second page has another card
    have hanswer : answer = TrendsAnswer.ok ⟨some [plainItem 6], 2, some 6⟩ :=
      (Answered.trends.inj heq).2
    rw [hanswer] at hcards
    have hids := congrArg (fun cards => match cards with
      | CardList.cards trends => trends.map idText
      | _ => []) hcards
    exact absurd hids (by decide +kernel)
  · have hparams := (Answered.trends.inj (List.mem_singleton.1 hmem)).1
    exact absurd (congrArg TrendsParams.page hparams) (by decide)

end Frontend

end TechTrends
