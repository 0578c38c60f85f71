/-
What the server reads in a request: the query classes, the pipes in front of the handlers,
and the routes of `TrendsController`.

A property of a class is the parameter of its name, transformed, and then checked by its
decorators, which are asked from the last to the first. A class reports the messages of
all its properties, its own before those it inherits; other parameters are dropped. A
property that is optional and not sent keeps its default, which no decorator sees.
-/
import TechTrends.FormUrlEncoded
import TechTrends.ToNumber
import TechTrends.TrendRepository

set_option autoImplicit false

namespace TechTrends

namespace QueryDto

open FormUrlEncoded (Params)
open JsNumber (toNumber)
open TrendsQuery (ListTrendsQuery SortOption Request)

/-! ## Values -/

/-- `req.query[key]`: a key that comes more than once has a list. -/
inductive QueryValue
  | text (value : String)
  | texts (values : List String)
deriving DecidableEq

def queryValue (params : Params) (key : String) : Option QueryValue :=
  match params.filter (·.1 = key) with
  | [] => none
  | [(_, value)] => some (QueryValue.text value)
  | pairs => some (QueryValue.texts (pairs.map Prod.snd))

/-- `@Type(() => Number)`. A list stays one, which is no number. -/
def typeNumber : QueryValue → Option JsNumber
  | QueryValue.text value => some (toNumber value)
  | QueryValue.texts _ => none

/-- `value === 'true' || value === true`. -/
def transformIsNew (value : QueryValue) : Bool := value = QueryValue.text "true"

/-! ## Decorators -/

/-- A decorator: what it asks of a value, and its message. -/
structure Rule (α : Type) where
  holds : α → Bool
  message : String

def isInt (message : String) : Rule (Option JsNumber) where
  holds
    | some (JsNumber.finite q) => q.den = 1
    | _ => false
  message := message

def min (n : ℤ) (message : String) : Rule (Option JsNumber) where
  holds
    | some (JsNumber.finite q) => n ≤ q
    | some (JsNumber.infinity neg) => !neg
    | _ => false
  message := message

def max (n : ℤ) (message : String) : Rule (Option JsNumber) where
  holds
    | some (JsNumber.finite q) => q ≤ n
    | some (JsNumber.infinity neg) => neg
    | _ => false
  message := message

def isString (message : String) : Rule (Option QueryValue) where
  holds
    | some (QueryValue.text _) => true
    | _ => false
  message := message

def isNotEmpty (message : String) : Rule (Option QueryValue) where
  holds
    | some value => value ≠ QueryValue.text ""
    | none => false
  message := message

def isIn (values : List String) (message : String) : Rule (Option QueryValue) where
  holds
    | some (QueryValue.text value) => value ∈ values
    | _ => false
  message := message

/-- The value, when no rule reports it. -/
def checked {α : Type} (rules : List (Rule α)) (x : α) : Except (List String) α :=
  match (rules.filter fun rule => !rule.holds x).map Rule.message with
  | [] => Except.ok x
  | messages => Except.error messages

/-- Two readings with what both report. -/
def both {α β : Type} : Except (List String) α → Except (List String) β → Except (List String) (α × β)
  | Except.ok x, Except.ok y => Except.ok (x, y)
  | Except.ok _, Except.error messages => Except.error messages
  | Except.error messages, Except.ok _ => Except.error messages
  | Except.error messages, Except.error messages' => Except.error (messages ++ messages')

/-- The number, of a value that passed `@IsInt` and `@Min(1)`. -/
def wholeNumber : Option JsNumber → ℕ
  | some (JsNumber.finite q) => q.num.toNat
  | _ => 0

/-- The text, of a value that passed `@IsString` or `@IsIn`. -/
def textOf : Option QueryValue → String
  | some (QueryValue.text value) => value
  | _ => ""

/-- A property that is a number. -/
def numberProperty (rules : List (Rule (Option JsNumber))) (defaultVal : ℕ) (value : Option QueryValue) :
    Except (List String) ℕ :=
  match value with
  | none => Except.ok defaultVal
  | some value => (checked rules (typeNumber value)).map wholeNumber

/-- A property that is an optional text. -/
def textProperty (rules : List (Rule (Option QueryValue))) (value : Option QueryValue) :
    Except (List String) (Option String) :=
  match value with
  | none => Except.ok none
  | some value => (checked rules (some value)).map fun value => some (textOf value)

/-! ## `BaseTrendsQueryDto` -/

structure BaseTrendsQuery where
  page : ℕ
  limit : ℕ
  source : String
  isNew : Bool
deriving DecidableEq

def pageRules : List (Rule (Option JsNumber)) :=
  [min 1 "page는 최소 1 이상이어야 합니다.", isInt "page는 정수여야 합니다."]

def limitRules : List (Rule (Option JsNumber)) :=
  [max 100 "limit는 최대 100까지 설정할 수 있습니다.", min 1 "limit는 최소 1 이상이어야 합니다.",
    isInt "limit는 정수여야 합니다."]

def sourceRules : List (Rule (Option QueryValue)) := [isString "source must be a string"]

def baseTrendsQueryDto (params : Params) : Except (List String) BaseTrendsQuery :=
  (both (numberProperty pageRules 1 (queryValue params "page"))
    (both (numberProperty limitRules 5 (queryValue params "limit"))
      (textProperty sourceRules (queryValue params "source")))).map fun (page, limit, source) =>
    { page := page
      limit := limit
      source := source.getD "ALL"
      -- `@IsBoolean` has nothing to report: the transform makes a boolean of every value
      isNew := ((queryValue params "isNew").map transformIsNew).getD false }

/-! ## `ListTrendsQueryDto` and `SearchTrendsQueryDto` -/

/-- The options of the list, by their names. -/
def sortNames : List (String × SortOption) :=
  [("CREATED_DESC", SortOption.CREATED_DESC), ("CREATED_ASC", SortOption.CREATED_ASC),
    ("MINED_DESC", SortOption.MINED_DESC), ("MINED_ASC", SortOption.MINED_ASC),
    ("LIKE_DESC", SortOption.LIKE_DESC), ("VIEW_DESC", SortOption.VIEW_DESC),
    ("COMMENT_DESC", SortOption.COMMENT_DESC)]

def searchSortNames : List (String × SearchSortOption) :=
  ("RELEVANCE", SearchSortOption.RELEVANCE) ::
    sortNames.map fun (name, sort) => (name, SearchSortOption.common sort)

def searchTypeNames : List (String × SearchType) :=
  [("hybrid", SearchType.hybrid), ("keyword", SearchType.keyword)]

/-- `@IsIn` over the names of a table, and what a name stands for. -/
def namedProperty {α : Type} (names : List (String × α)) (message : String) (value : Option QueryValue) :
    Except (List String) (Option α) :=
  (textProperty [isIn (names.map Prod.fst) message] value).map fun name =>
    name.bind fun name => names.lookup name

def sortMessage : String := "올바른 정렬 옵션을 선택해 주세요."

def listTrendsQueryDto (params : Params) : Except (List String) ListTrendsQuery :=
  (both (namedProperty sortNames sortMessage (queryValue params "sort"))
    (baseTrendsQueryDto params)).map fun (sort, base) =>
    { page := some base.page
      limit := some base.limit
      source := some base.source
      isNew := some base.isNew
      sort := some (sort.getD SortOption.CREATED_DESC) }

def searchRules : List (Rule (Option QueryValue)) :=
  [isNotEmpty "검색어를 입력해 주세요.", isString "검색어는 문자열이어야 합니다."]

/-- `search`, the one property that has to be there. -/
def searchProperty (value : Option QueryValue) : Except (List String) String :=
  (checked searchRules value).map textOf

def searchTypeMessage : String := "검색 타입은 hybrid 또는 keyword 이어야 합니다."

def searchTrendsQueryDto (params : Params) : Except (List String) SearchTrendsQuery :=
  (both (both (searchProperty (queryValue params "search"))
      (both (namedProperty searchTypeNames searchTypeMessage (queryValue params "searchType"))
        (namedProperty searchSortNames sortMessage (queryValue params "sort"))))
    (baseTrendsQueryDto params)).map fun ((search, searchType, sort), base) =>
    { page := some base.page
      limit := some base.limit
      search := search
      source := some base.source
      isNew := some base.isNew
      searchType := searchType
      sort := some (sort.getD SearchSortOption.RELEVANCE) }

/-! ## `GetRelatedTrendsQueryDto` and the routes -/

def relatedLimitRules : List (Rule (Option JsNumber)) :=
  [max 20 "limit는 최대 20까지 설정할 수 있습니다.", min 1 "limit는 최소 1 이상이어야 합니다.",
    isInt "limit는 정수여야 합니다."]

def getRelatedTrendsQueryDto (params : Params) : Except (List String) ℕ :=
  numberProperty relatedLimitRules 5 (queryValue params "limit")

/-- `ParseIntPipe`, behind the global `ValidationPipe`, which has made a number of the text
already: what `ParseIntPipe` matches against `/^-?\d+$/` and parses is `String` of that number. -/
def parseIntPipe (value : String) : Except (List String) ℤ :=
  let text := (toNumber value).toText
  let digits :=
    match text.toList with
    | '-' :: cs => cs
    | cs => cs
  if digits ≠ [] ∧ digits.all Char.isDigit = true then
    match JsNumber.parseInt text with
    | some id => Except.ok id
    | none => Except.error ["Validation failed (numeric string is expected)"]
  else Except.error ["Validation failed (numeric string is expected)"]

/-- What a handler of `TrendsController` asks for. -/
inductive Handler
  | query (request : Request)
  | searchTrends (query : SearchTrendsQuery)
  | dispatchAllScrapersToQueue

/-- The handler for a path behind `/api/trends`; there is none for other paths. -/
def route (path : List String) (params : Params) : Option (Except (List String) Handler) :=
  match path with
  | [] => some ((listTrendsQueryDto params).map fun query => Handler.query (Request.listTrends query))
  | ["search"] => some ((searchTrendsQueryDto params).map Handler.searchTrends)
  | ["sources"] => some (Except.ok (Handler.query Request.getUniqueSources))
  | ["test-scraping"] => some (Except.ok Handler.dispatchAllScrapersToQueue)
  | [id] => some ((parseIntPipe id).map fun id => Handler.query (Request.getTrendById (Binary64.ofInt id)))
  | [id, "related"] =>
    match parseIntPipe id, getRelatedTrendsQueryDto params with
    | Except.ok id, Except.ok limit =>
      some (Except.ok (Handler.query (Request.getRelatedTrends (Binary64.ofInt id) (Binary64.ofInt limit))))
    | Except.error messages, _ => some (Except.error messages)
    | Except.ok _, Except.error messages => some (Except.error messages)
  | _ => none

/-- The handler for a request's text. -/
def receive (path : List String) (query : String) : Option (Except (List String) Handler) :=
  (FormUrlEncoded.parse query).bind (route path)

/-! ## What is accepted -/

/-- A value passes its decorators when each of them holds, and it passes as it is. -/
theorem checked_eq_ok_iff {α : Type} {rules : List (Rule α)} {x y : α} :
    checked rules x = Except.ok y ↔ x = y ∧ ∀ rule ∈ rules, rule.holds x = true := by
  have hnone : (rules.filter fun rule => !rule.holds x).map Rule.message = [] ↔
      ∀ rule ∈ rules, rule.holds x = true := by
    rw [List.map_eq_nil_iff, List.filter_eq_nil_iff]
    simp
  rw [checked]
  split
  · next heq => simp [← hnone, heq]
  · next hne => exact iff_of_false (fun h => by cases h) fun h => hne (hnone.2 h.2)

theorem both_eq_ok_iff {α β : Type} {x : Except (List String) α} {y : Except (List String) β} {a : α} {b : β} :
    both x y = Except.ok (a, b) ↔ x = Except.ok a ∧ y = Except.ok b := by
  cases x <;> cases y <;> simp [both]

theorem map_eq_ok_iff {α β : Type} {f : α → β} {x : Except (List String) α} {b : β} :
    x.map f = Except.ok b ↔ ∃ a, x = Except.ok a ∧ f a = b := by
  cases x <;> simp [Except.map]

/-- A request that is refused is told why. -/
def Tells {α : Type} (x : Except (List String) α) : Prop := x ≠ Except.error []

theorem tells_checked {α : Type} (rules : List (Rule α)) (x : α) : Tells (checked rules x) := by
  rw [Tells, checked]
  split
  · exact fun h => by cases h
  · next hne =>
    intro h
    exact hne (Except.error.inj h)

theorem tells_map {α β : Type} {f : α → β} {x : Except (List String) α} (h : Tells x) : Tells (x.map f) := by
  cases x with
  | ok a => exact fun heq => by cases heq
  | error messages => exact fun heq => h (by rw [Except.error.inj heq])

theorem tells_both {α β : Type} {x : Except (List String) α} {y : Except (List String) β} (hx : Tells x)
    (hy : Tells y) : Tells (both x y) := by
  cases x with
  | ok a =>
    cases y with
    | ok b => exact fun heq => by cases heq
    | error messages => exact fun heq => hy (by rw [Except.error.inj heq])
  | error messages =>
    cases y with
    | ok b => exact fun heq => hx (by rw [Except.error.inj heq])
    | error messages' =>
      exact fun heq => hx (by rw [(List.append_eq_nil_iff.1 (Except.error.inj heq)).1])

theorem tells_numberProperty (rules : List (Rule (Option JsNumber))) (defaultVal : ℕ)
    (value : Option QueryValue) : Tells (numberProperty rules defaultVal value) := by
  cases value with
  | none => exact fun heq => by cases heq
  | some value => exact tells_map (tells_checked rules _)

theorem tells_textProperty (rules : List (Rule (Option QueryValue))) (value : Option QueryValue) :
    Tells (textProperty rules value) := by
  cases value with
  | none => exact fun heq => by cases heq
  | some value => exact tells_map (tells_checked rules _)

theorem tells_base (params : Params) : Tells (baseTrendsQueryDto params) :=
  tells_map (tells_both (tells_numberProperty _ _ _)
    (tells_both (tells_numberProperty _ _ _) (tells_textProperty _ _)))

theorem tells_list (params : Params) : Tells (listTrendsQueryDto params) :=
  tells_map (tells_both (tells_map (tells_textProperty _ _)) (tells_base params))

theorem tells_search (params : Params) : Tells (searchTrendsQueryDto params) :=
  tells_map (tells_both (tells_both (tells_map (tells_checked _ _))
    (tells_both (tells_map (tells_textProperty _ _)) (tells_map (tells_textProperty _ _)))) (tells_base params))

/-! ### Numbers -/

/-- The number that arrives when a whole number is sent. -/
def arrives (n : ℤ) : Option ℕ :=
  match JsNumber.round n.toNat with
  | JsNumber.finite q => some q.num.toNat
  | _ => none

/-- A number below 2 ^ 53 arrives as it is. -/
theorem arrives_of_lt {n : ℤ} (h : n < 2 ^ 53) : arrives n = some n.toNat := by
  have hsmall : n.toNat < 2 ^ 53 := by omega
  rcases JsNumber.round_whole n.toNat with ⟨m, hround, heq, -⟩ | ⟨-, hlarge⟩
  · rw [arrives, hround, heq hsmall]
    simp only [Rat.num_natCast, Int.toNat_natCast]
  · omega

/-- What the text of a number is transformed to: nothing that is at least 1, a whole number,
or an infinity. The third is what a page with more than 308 digits becomes, and `IsInt`
refuses it. -/
theorem typeNumber_intText (x : Option ℤ) :
    ((∀ lo, (min 1 lo).holds (typeNumber (QueryValue.text (JsNumber.intText x))) = false) ∧
        ∀ n, x = some n → n < 1) ∨
      (∃ n m : ℕ, x = some (n : ℤ) ∧ 1 ≤ m ∧ arrives n = some m ∧ (n < 2 ^ 53 → m = n) ∧ (2 ^ 53 ≤ n → 2 ^ 53 ≤ m) ∧
        typeNumber (QueryValue.text (JsNumber.intText x)) = some (JsNumber.finite (m : ℚ))) ∨
      ∃ n : ℕ, x = some (n : ℤ) ∧ arrives n = none ∧ 2 ^ 53 ≤ n ∧
        typeNumber (QueryValue.text (JsNumber.intText x)) = some (JsNumber.infinity false) := by
  cases x with
  | none =>
    refine Or.inl ⟨fun lo => ?_, fun n h => by cases h⟩
    have hnan : toNumber (JsNumber.intText none) = JsNumber.nan := by decide +kernel
    rw [typeNumber, hnan, min]
  | some n =>
    rw [typeNumber, JsNumber.toNumber_intText]
    by_cases hneg : n < 0
    · -- a negative number is rounded to one that is not positive
      refine Or.inl ⟨fun lo => ?_, fun k hk => by cases hk; omega⟩
      have hnonpos : Binary64.roundValue n ≤ 0 := Binary64.roundValue_nonpos (by exact_mod_cast hneg.le)
      rw [JsNumber.round]
      split
      · rw [min]
        exact decide_eq_false (by push_cast; linarith)
      · rw [decide_eq_true (by exact_mod_cast hneg)]
        rfl
    · obtain ⟨n, rfl⟩ := Int.eq_ofNat_of_zero_le (Int.not_lt.1 hneg)
      rw [Int.cast_natCast]
      rcases JsNumber.round_whole n with ⟨m, hround, hsmall, hlarge⟩ | ⟨hround, hlarge⟩
      · by_cases hzero : n = 0
        · subst hzero
          obtain rfl : m = 0 := hsmall (by norm_num)
          refine Or.inl ⟨fun lo => ?_, fun k hk => by cases hk; norm_num⟩
          rw [hround, min]
          simp
        · refine Or.inr (Or.inl ⟨n, m, rfl, ?_, ?_, hsmall, hlarge, by rw [hround]⟩)
          · by_cases hlt : n < 2 ^ 53
            · have heq := hsmall hlt
              omega
            · have hbig := hlarge (Nat.le_of_not_lt hlt)
              omega
          · rw [arrives, Int.toNat_natCast, hround]
            simp only [Rat.num_natCast, Int.toNat_natCast]
      · exact Or.inr (Or.inr ⟨n, rfl, by rw [arrives, Int.toNat_natCast, hround], hlarge,
          by rw [hround]⟩)

/-- A property between two bounds, for the text of a number. Within the bounds numbers arrive
as they are, since both are small. -/
theorem bounded_intText {defaultVal k top : ℕ} {x : Option ℤ} {hi lo int : String} (htop : top < 2 ^ 53) :
    numberProperty [max top hi, min 1 lo, isInt int] defaultVal
        (some (QueryValue.text (JsNumber.intText x))) = Except.ok k ↔
      x = some (k : ℤ) ∧ 1 ≤ k ∧ k ≤ top := by
  rw [numberProperty, map_eq_ok_iff]
  simp only [checked_eq_ok_iff, List.forall_mem_cons]
  rcases typeNumber_intText x with ⟨hmin, hlow⟩ | ⟨n, m, rfl, hm, -, hsmall, hlarge, hvalue⟩ |
    ⟨n, rfl, -, hlarge, hvalue⟩
  · refine iff_of_false ?_ fun h => ?_
    · rintro ⟨_, ⟨rfl, -, hholds, -⟩, -⟩
      rw [hmin lo] at hholds
      cases hholds
    · have hlt := hlow k h.1
      omega
  · -- a rounded number within the bound lies below 2⁵³, so it was not rounded at all
    have hmax : (max (top : ℤ) hi).holds (some (JsNumber.finite (m : ℚ))) = decide (m ≤ top) := by
      rw [max]
      exact decide_eq_decide.2 (by exact_mod_cast Iff.rfl)
    have hmin : (min 1 lo).holds (some (JsNumber.finite (m : ℚ))) = true := decide_eq_true (by exact_mod_cast hm)
    have hint : (isInt int).holds (some (JsNumber.finite (m : ℚ))) = true := decide_eq_true (Rat.den_natCast m)
    rw [hvalue]
    constructor
    · rintro ⟨_, ⟨rfl, hholds, -⟩, hk⟩
      rw [hmax, decide_eq_true_eq] at hholds
      have hread : wholeNumber (some (JsNumber.finite (m : ℚ))) = m := by simp [wholeNumber]
      have hlt : n < 2 ^ 53 := by
        by_contra hnot
        have hbig := hlarge (Nat.le_of_not_lt hnot)
        omega
      rw [hread] at hk
      rw [← hk, hsmall hlt]
      exact ⟨rfl, by rw [← hsmall hlt]; exact hm, by rw [← hsmall hlt]; exact hholds⟩
    · rintro ⟨hk, -, htopk⟩
      obtain rfl : n = k := by exact_mod_cast Option.some.inj hk
      obtain rfl : m = n := hsmall (by omega)
      exact ⟨_, ⟨rfl, by rw [hmax]; exact decide_eq_true htopk, hmin, hint, fun _ h => by cases h⟩, by simp [wholeNumber]⟩
  · refine iff_of_false ?_ fun h => ?_
    · rintro ⟨_, ⟨rfl, hholds, -⟩, -⟩
      rw [hvalue, max] at hholds
      cases hholds
    · have hk : n = k := by exact_mod_cast Option.some.inj h.1
      omega

/-- A property that has only a lower bound. It passes with the double that the text is read
as. -/
theorem unbounded_intText {defaultVal k : ℕ} {x : Option ℤ} {lo int : String} :
    numberProperty [min 1 lo, isInt int] defaultVal (some (QueryValue.text (JsNumber.intText x))) = Except.ok k ↔
      ∃ n, x = some n ∧ 1 ≤ n ∧ arrives n = some k := by
  rw [numberProperty, map_eq_ok_iff]
  simp only [checked_eq_ok_iff, List.forall_mem_cons]
  rcases typeNumber_intText x with ⟨hmin, hlow⟩ | ⟨n, m, rfl, hm, harrives, hsmall, hlarge, hvalue⟩ |
    ⟨n, rfl, harrives, hlarge, hvalue⟩
  · refine iff_of_false ?_ ?_
    · rintro ⟨_, ⟨rfl, hholds, -⟩, -⟩
      rw [hmin lo] at hholds
      cases hholds
    · rintro ⟨n, hn, hpos, -⟩
      have hlt := hlow n hn
      omega
  · have hmin : (min 1 lo).holds (some (JsNumber.finite (m : ℚ))) = true := decide_eq_true (by exact_mod_cast hm)
    have hint : (isInt int).holds (some (JsNumber.finite (m : ℚ))) = true := decide_eq_true (Rat.den_natCast m)
    have hread : wholeNumber (some (JsNumber.finite (m : ℚ))) = m := by simp [wholeNumber]
    rw [hvalue]
    constructor
    · rintro ⟨_, ⟨rfl, -⟩, hk⟩
      refine ⟨n, rfl, ?_, by rw [harrives, ← hk, hread]⟩
      by_contra hnot
      have hzero : n = 0 := by omega
      have heq := hsmall (by omega)
      omega
    · rintro ⟨n', hn', -, hk⟩
      obtain rfl := Option.some.inj hn'
      rw [harrives] at hk
      exact ⟨_, ⟨rfl, hmin, hint, fun _ h => by cases h⟩, hread.trans (Option.some.inj hk)⟩
  -- infinity is no whole number, and is refused
  · refine iff_of_false ?_ ?_
    · rintro ⟨_, ⟨rfl, -, hholds, -⟩, -⟩
      rw [hvalue, isInt] at hholds
      cases hholds
    · rintro ⟨n', hn', -, hk⟩
      obtain rfl := Option.some.inj hn'
      rw [harrives] at hk
      cases hk

/-! ### Texts -/

theorem source_text (value : String) :
    textProperty sourceRules (some (QueryValue.text value)) = Except.ok (some value) := by
  simp [textProperty, sourceRules, checked, isString, textOf, Except.map]

/-- `IsIn` of the names of a table asks whether the table has the text. -/
theorem isIn_names {α : Type} {names : List (String × α)} {value message : String} :
    (isIn (names.map Prod.fst) message).holds (some (QueryValue.text value)) = (names.lookup value).isSome := by
  rw [Bool.eq_iff_iff, isIn, decide_eq_true_eq, List.mem_map]
  constructor
  · rintro ⟨pair, hpair, rfl⟩
    rw [List.lookup_isSome_iff]
    exact ⟨pair, hpair, beq_self_eq_true _⟩
  · intro h
    obtain ⟨pair, hpair, heq⟩ := List.lookup_isSome_iff.1 h
    exact ⟨pair, hpair, (eq_of_beq heq).symm⟩

/-- A name of the table is read as what it stands for, and no other text is. -/
theorem namedProperty_eq_ok_iff {α : Type} {names : List (String × α)} {message value : String} {x : Option α} :
    namedProperty names message (some (QueryValue.text value)) = Except.ok x ↔
      ∃ a, names.lookup value = some a ∧ x = some a := by
  rw [namedProperty, map_eq_ok_iff, textProperty]
  simp only [map_eq_ok_iff, checked_eq_ok_iff, List.forall_mem_cons, isIn_names]
  constructor
  · rintro ⟨_, ⟨_, ⟨rfl, hsome, -⟩, rfl⟩, rfl⟩
    obtain ⟨a, ha⟩ := Option.isSome_iff_exists.1 hsome
    exact ⟨a, ha, ha⟩
  · rintro ⟨a, ha, rfl⟩
    exact ⟨_, ⟨_, ⟨rfl, by rw [ha]; rfl, fun _ h => by cases h⟩, rfl⟩, ha⟩

/-- A search text is any that is not empty; blanks are left to the handler. -/
theorem searchProperty_eq_ok_iff {value search : String} :
    searchProperty (some (QueryValue.text value)) = Except.ok search ↔ value ≠ "" ∧ search = value := by
  rw [searchProperty, map_eq_ok_iff]
  simp only [searchRules, checked_eq_ok_iff, List.forall_mem_cons, isNotEmpty, isString, decide_eq_true_eq]
  constructor
  · rintro ⟨_, ⟨rfl, hne, -⟩, rfl⟩
    exact ⟨fun h => hne (by rw [h]), rfl⟩
  · rintro ⟨hne, rfl⟩
    exact ⟨_, ⟨rfl, fun h => hne (QueryValue.text.inj h), trivial, fun _ h => by cases h⟩, rfl⟩

end QueryDto

end TechTrends
