/-
`index.html`: what the page asks for, and what it shows when an answer comes.

A handler runs alone up to its next `await`. So one step of the machine is an action
of the user, which runs a handler and leaves its request in flight, or the end of one
`await` of one request: first the response, then the body that `res.json()` reads. The
steps' labels hold which request goes on and what the server answered.

The log keeps the answers that were read. The controls and the address bar are not
part of the state: what a control holds and where the history leads are labels.
-/
import TechTrends.InFlight
import TechTrends.StepMachine
import TechTrends.JsString
import TechTrends.Json

set_option autoImplicit false

namespace TechTrends

namespace Frontend

open JsString (trim)

/-! ## Requests and answers -/

/-- An id as the page keeps it: `''` would count as none. -/
abbrev ArticleId := {text : String // text ≠ ""}

/-- The part of `state` that the list depends on. `parseInt` gives nothing for `NaN`. -/
structure Filters where
  source : String
  query : String
  searchType : String
  isNew : Bool
  sort : String
  page : Option ℤ
  limit : Option ℤ
deriving DecidableEq

/-- What `fetchTrends` sends. In search mode the request goes to `/search` with two
parameters more. -/
structure TrendsParams where
  page : Option ℤ
  limit : Option ℤ
  source : String
  isNew : Bool
  sort : String
  search : Option (String × String)
deriving DecidableEq

/-- The body of a list answer. -/
structure TrendsBody where
  data : Option (List Json)
  totalPages : ℤ
  totalCount : Option ℕ

/-- How a call of `fetchTrends` ends. -/
inductive TrendsAnswer
  | tooManyRequests
  | failed
  | ok (body : TrendsBody)

/-- How a call of `loadRelatedArticles` ends. -/
inductive RelatedAnswer
  | failed
  | ok (data : Option (List Json))

/-- `${item.id}`. -/
def idText (item : Json) : String := (item.field "id").toText

/-- Which `await` a request is at. -/
inductive Stage
  | response
  | body
deriving DecidableEq

/-- A request in flight. `submitted` marks a list request that `handleSearch` waits for. -/
inductive Call
  | trends (params : TrendsParams) (submitted : Bool) (stage : Stage)
  | detail (id : ArticleId) (stage : Stage)
  | related (id : String) (token : ℕ) (stage : Stage)
deriving DecidableEq

/-- An answer that was read, with what it answers. -/
inductive Answered
  | trends (params : TrendsParams) (answer : TrendsAnswer)
  | detail (id : ArticleId) (item : Option Json)
  | related (id : String) (answer : RelatedAnswer)

/-! ## The screen -/

inductive CardList
  | loading
  | tooManyRequests
  | failed
  | cards (trends : List Json)

inductive PageLink
  | previous (page : ℤ)
  | number (page : ℤ) (active : Bool)
  | next (page : ℤ)
deriving DecidableEq

inductive RelatedList
  | blank
  | loading
  | failed
  | items (items : List Json)

structure TrendsView where
  data : List Json
  cardList : CardList
  pagination : List PageLink
  totalCount : ℕ

/-- The modal, with the part of `state` that belongs to it. The history has its newest
entry last. -/
structure Modal where
  articleId : Option ArticleId
  modalHistory : List ArticleId
  relatedRequestToken : ℕ
  shown : Bool
  content : Option Json
  backBtn : Bool
  relatedSection : Bool
  relatedList : RelatedList

structure Page where
  filters : Filters
  view : TrendsView
  modal : Modal
  isSubmitting : Bool
  calls : List Call
  log : List Answered

/-! ## The list -/

def Filters.isSearching (f : Filters) : Bool := !(trim f.query.toList).isEmpty

def Filters.syncUIWithState (f : Filters) : Filters :=
  if f.isSearching then
    if f.searchType = "hybrid" then { f with sort := "RELEVANCE" }
    else if f.sort = "" ∨ f.sort = "CREATED_DESC" then { f with sort := "RELEVANCE" }
    else f
  else if f.sort = "RELEVANCE" then { f with sort := "CREATED_DESC" }
  else f

/-- The parameters that `fetchTrends` puts together. -/
def Filters.params (f : Filters) : TrendsParams where
  page := f.page
  limit := f.limit
  source := f.source
  isNew := f.isNew
  sort := f.sort
  search := if f.isSearching then some (String.ofList (trim f.query.toList), f.searchType) else none

/-- `fetchTrends` up to its first `await`. -/
def Page.fetchTrends (s : Page) (submitted : Bool) : Page :=
  { s with
    view := { s.view with cardList := CardList.loading }
    calls := s.calls ++ [Call.trends s.filters.params submitted Stage.response] }

/-- `syncUIWithState(); fetchTrends();` after a change of the filters. -/
def Page.refetch (s : Page) (f : Filters) : Page :=
  ({ s with filters := f.syncUIWithState } : Page).fetchTrends false

/-- Five page links from the group that the page is in. -/
def renderPagination (page : Option ℤ) (totalPages : ℤ) : List PageLink :=
  match page with
  | none => []
  | some page =>
    if totalPages ≤ 1 then []
    else
      let start := (page - 1) / 5 * 5 + 1
      let last := min (start + 4) totalPages
      (if start > 1 then [PageLink.previous (start - 1)] else []) ++
      ((List.range (last + 1 - start).toNat).map fun i =>
        PageLink.number (start + i) (decide (start + i = page))) ++
      (if last < totalPages then [PageLink.next (last + 1)] else [])

/-- What an answer puts into the card list. -/
def TrendsAnswer.cardList : TrendsAnswer → CardList
  | tooManyRequests => CardList.tooManyRequests
  | failed => CardList.failed
  | ok body => CardList.cards (body.data.getD [])

/-- What the handler does with an answer. Only one with a body touches the page links. -/
def TrendsView.answered (v : TrendsView) (page : Option ℤ) (answer : TrendsAnswer) : TrendsView :=
  match answer with
  | TrendsAnswer.ok body =>
    { data := body.data.getD []
      cardList := answer.cardList
      pagination := renderPagination page body.totalPages
      totalCount := body.totalCount.getD 0 }
  | _ => { v with cardList := answer.cardList }

/-- The end of call `i`, a list request. `handleSearch` then lets the next search in. -/
def Page.endTrends (s : Page) (i : ℕ) (params : TrendsParams) (submitted : Bool)
    (answer : TrendsAnswer) : Page :=
  { s with
    view := s.view.answered s.filters.page answer
    isSubmitting := if submitted then false else s.isSubmitting
    calls := s.calls.eraseIdx i
    log := s.log ++ [Answered.trends params answer] }

def Page.handleSearch (s : Page) (value : String) : Page :=
  if s.isSubmitting then s
  else
    ({ s with
      isSubmitting := true
      filters := { s.filters with
        query := String.ofList (trim value.toList)
        page := some 1 }.syncUIWithState } : Page).fetchTrends true

def Page.goToPage (s : Page) (p : ℤ) : Page := s.refetch { s.filters with page := some p }

def Page.clear (s : Page) : Page :=
  s.refetch { s.filters with query := "", sort := "CREATED_DESC", page := some 1 }

/-- The toggle asks for the list only when there is a query. -/
def Page.toggleSearchType (s : Page) (checked : Bool) : Page :=
  let f := { s.filters with searchType := if checked then "hybrid" else "keyword", page := some 1 }
  if s.filters.query ≠ "" then s.refetch f else { s with filters := f.syncUIWithState }

def Page.selectSource (s : Page) (value : String) : Page :=
  s.refetch { s.filters with source := value, page := some 1 }

def Page.selectSort (s : Page) (value : String) : Page :=
  s.refetch { s.filters with sort := value, page := some 1 }

def Page.selectLimit (s : Page) (value : Option ℤ) : Page :=
  s.refetch { s.filters with limit := value, page := some 1 }

def Page.toggleNew (s : Page) : Page :=
  s.refetch { s.filters with isNew := !s.filters.isNew, page := some 1 }

/-! ## The modal -/

/-- `openDetailByUrl` up to its first `await`. -/
def Page.openDetailByUrl (s : Page) (id : ArticleId) : Page :=
  { s with
    modal := { s.modal with backBtn := !s.modal.modalHistory.isEmpty }
    calls := s.calls ++ [Call.detail id Stage.response] }

/-- `state.articleId = id`, and the article is asked for. -/
def Page.openWith (s : Page) (history : List ArticleId) (id : ArticleId) : Page :=
  ({ s with modal := { s.modal with modalHistory := history, articleId := some id } } : Page).openDetailByUrl
    id

def Page.openDetail (s : Page) (id : ArticleId) (isRelatedClick : Bool) : Page :=
  s.openWith
    (match isRelatedClick, s.modal.articleId with
    | true, some current => if current ≠ id then s.modal.modalHistory ++ [current] else s.modal.modalHistory
    | true, none => s.modal.modalHistory
    | false, _ => []) id

def Page.goBackModal (s : Page) : Page :=
  match s.modal.modalHistory.getLast? with
  | none => s
  | some prevId => s.openWith s.modal.modalHistory.dropLast prevId

/-- `slice(0, prevIdx)` at the last place of an id, when it has one. -/
def beforeLast (id : ArticleId) (history : List ArticleId) : List ArticleId :=
  if id ∈ history then ((history.reverse.dropWhile (· ≠ id)).drop 1).reverse else history

def Modal.close (m : Modal) : Modal :=
  { m with
    shown := false
    relatedList := RelatedList.blank
    modalHistory := []
    backBtn := false
    articleId := none }

def Page.closeModal (s : Page) : Page := { s with modal := s.modal.close }

def Page.popstate (s : Page) (currentUrlId : Option ArticleId) : Page :=
  match currentUrlId with
  | none => s.closeModal
  | some id =>
    s.openWith
      (match s.modal.articleId with
      | none => s.modal.modalHistory
      | some current =>
        if current ≠ id then beforeLast id s.modal.modalHistory else s.modal.modalHistory) id

/-- `loadRelatedArticles` up to its first `await`. -/
def Page.loadRelatedArticles (s : Page) (id : String) : Page :=
  { s with
    modal := { s.modal with
      relatedRequestToken := s.modal.relatedRequestToken + 1
      relatedSection := true
      relatedList := RelatedList.loading }
    calls := s.calls ++ [Call.related id (s.modal.relatedRequestToken + 1) Stage.response] }

def Page.renderModalContent (s : Page) (item : Json) : Page :=
  ({ s with
    modal := { s.modal with
      content := some item
      shown := true
      backBtn := !s.modal.modalHistory.isEmpty } } : Page).loadRelatedArticles (idText item)

/-- The end of call `i`, a detail request. An error closes the modal. -/
def Page.endDetail (s : Page) (i : ℕ) (id : ArticleId) (item : Option Json) : Page :=
  let s := { s with calls := s.calls.eraseIdx i, log := s.log ++ [Answered.detail id item] }
  match item with
  | none => s.closeModal
  | some item => s.renderModalContent item

def RelatedAnswer.list : RelatedAnswer → RelatedList
  | failed => RelatedList.failed
  | ok data => RelatedList.items (data.getD [])

/-- The end of call `i`, a related request that is read: a list is rendered, an error
only under the current token. -/
def Page.endRelated (s : Page) (i : ℕ) (id : String) (token : ℕ) (answer : RelatedAnswer) : Page :=
  { s with
    modal :=
      match answer with
      | RelatedAnswer.ok _ => { s.modal with relatedList := answer.list }
      | RelatedAnswer.failed =>
        if token = s.modal.relatedRequestToken then { s.modal with relatedList := answer.list }
        else s.modal
    calls := s.calls.eraseIdx i
    log := s.log ++ [Answered.related id answer] }

/-! ## Steps -/

/-- What happens next. A response is a status, or nothing when `fetch` rejects; a body
is nothing when it cannot be read or rendered. -/
inductive Act
  | search (value : String)
  | goToPage (p : ℤ)
  | clear
  | toggleSearchType (checked : Bool)
  | selectSource (value : String)
  | selectSort (value : String)
  | selectLimit (value : Option ℤ)
  | toggleNew
  | openDetail (id : ArticleId) (isRelatedClick : Bool)
  | goBackModal
  | closeModal
  | popstate (currentUrlId : Option ArticleId)
  | response (i : ℕ) (status : Option ℕ)
  | trendsBody (i : ℕ) (body : Option TrendsBody)
  | detailBody (i : ℕ) (item : Option Json)
  | relatedBody (i : ℕ) (data : Option (Option (List Json)))

/-- `res.ok`. -/
def isOk : Option ℕ → Bool
  | none => false
  | some status => 200 ≤ status && status ≤ 299

def trendsError (status : Option ℕ) : TrendsAnswer :=
  if status = some 429 then TrendsAnswer.tooManyRequests else TrendsAnswer.failed

def trendsAnswer : Option TrendsBody → TrendsAnswer
  | none => TrendsAnswer.failed
  | some body => TrendsAnswer.ok body

/-- `null` is a body that the modal cannot render. -/
def detailItem : Option Json → Option Json
  | some Json.null => none
  | item => item

def relatedAnswer : Option (Option (List Json)) → RelatedAnswer
  | none => RelatedAnswer.failed
  | some data => RelatedAnswer.ok data

/-- Call `i` goes on to its body. -/
def Page.readBody (s : Page) (i : ℕ) (c : Call) : Page := { s with calls := s.calls.set i c }

/-- The response to call `i`. A related request looks at its token here, and only here
when its response is good. -/
def respond (s : Page) (i : ℕ) (status : Option ℕ) : Option Page :=
  match s.calls[i]? with
  | some (Call.trends params submitted Stage.response) =>
    some (if isOk status then s.readBody i (Call.trends params submitted Stage.body)
      else s.endTrends i params submitted (trendsError status))
  | some (Call.detail id Stage.response) =>
    some (if isOk status then s.readBody i (Call.detail id Stage.body) else s.endDetail i id none)
  | some (Call.related id token Stage.response) =>
    some (if isOk status then
        if token ≠ s.modal.relatedRequestToken then { s with calls := s.calls.eraseIdx i }
        else s.readBody i (Call.related id token Stage.body)
      else s.endRelated i id token RelatedAnswer.failed)
  | _ => none

def step (s : Page) : Act → Option Page
  | Act.search value => some (s.handleSearch value)
  | Act.goToPage p => some (s.goToPage p)
  | Act.clear => some s.clear
  | Act.toggleSearchType checked => some (s.toggleSearchType checked)
  | Act.selectSource value => some (s.selectSource value)
  | Act.selectSort value => some (s.selectSort value)
  | Act.selectLimit value => some (s.selectLimit value)
  | Act.toggleNew => some s.toggleNew
  | Act.openDetail id isRelatedClick => some (s.openDetail id isRelatedClick)
  | Act.goBackModal => some s.goBackModal
  | Act.closeModal => some s.closeModal
  | Act.popstate currentUrlId => some (s.popstate currentUrlId)
  | Act.response i status => respond s i status
  | Act.trendsBody i body =>
    match s.calls[i]? with
    | some (Call.trends params submitted Stage.body) =>
      some (s.endTrends i params submitted (trendsAnswer body))
    | _ => none
  | Act.detailBody i item =>
    match s.calls[i]? with
    | some (Call.detail id Stage.body) => some (s.endDetail i id (detailItem item))
    | _ => none
  | Act.relatedBody i data =>
    match s.calls[i]? with
    | some (Call.related id token Stage.body) =>
      some (s.endRelated i id token (relatedAnswer data))
    | _ => none

def machine : StepMachine Page Act where
  step := step

/-- The page after `init`, for the parameters in its address. -/
def init (f : Filters) (articleId : Option ArticleId) : Page :=
  let s : Page :=
    { filters := f.syncUIWithState
      view := { data := [], cardList := CardList.loading, pagination := [], totalCount := 0 }
      modal :=
        { articleId := articleId
          modalHistory := []
          relatedRequestToken := 0
          shown := false
          content := none
          backBtn := false
          relatedSection := false
          relatedList := RelatedList.blank }
      isSubmitting := false
      calls := []
      log := [] }
  match articleId with
  | none => s.fetchTrends false
  | some id => (s.fetchTrends false).openDetailByUrl id

end Frontend

end TechTrends
