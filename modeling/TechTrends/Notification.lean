/-
`trends-queue.events.ts`: what is posted when a scrape job ends.

The message for the readers lists the articles of the day until the next one would
take it past 1800 characters, and `sendNotification` cuts whatever is longer than
2000. The gap of 200 is there for the line about the articles left out.
-/
import TechTrends.Json
import TechTrends.JsReplace
import TechTrends.LiteralSigns
import TechTrends.GreedyFill

set_option autoImplicit false

namespace TechTrends

namespace TrendQueueEventsListener

open JsString (Units utf16 unit replace matchText utf16_eq_flatMap charUnits)
open GreedyFill (fill upTo Fits fill_spec)

/-! ## The event and the calls -/

/-- What `findSavedSince` returns of a row, as far as the messages use it. -/
structure SavedArticleInfo where
  id : Binary64
  title : Units

/-- The result of a job, as an object or as its JSON text. -/
inductive ReturnValue
  | text (json : String)
  | object (sourceName : Option Units)

/-- `result?.sourceName ?? null`, absent when it is falsy. -/
def ReturnValue.sourceName : ReturnValue → Option Units
  | text json =>
    let value := ((Json.parse json).getD Json.null).field "sourceName"
    if value.truthy then some (utf16 value.toText) else none
  | object sourceName => sourceName.filter (· ≠ [])

structure Config where
  CLIENT_URL : Option Units
  DISCORD_ADMIN_WEBHOOK_URL : Option Units
  DISCORD_USER_WEBHOOK_URL : Option Units

def Config.baseUrl (config : Config) : Units :=
  config.CLIENT_URL.getD (utf16 "http://localhost:3000")

inductive Target
  | ADMIN
  | USER

inductive Call
  | post (webhookUrl content : Units)
  | invalidateSources
deriving DecidableEq

def Config.webhookUrl (config : Config) : Target → Option Units
  | .ADMIN => config.DISCORD_ADMIN_WEBHOOK_URL
  | .USER => config.DISCORD_USER_WEBHOOK_URL

/-- A post that fails is logged and nothing else. -/
def sendNotification (config : Config) (message : Units) (target : Target) : List Call :=
  match (config.webhookUrl target).filter (· ≠ []) with
  | none => []
  | some webhookUrl =>
    let safeMessage :=
      if message.length > 2000 then message.take 1950 ++ utf16 "\n\n... (길이 초과로 절삭됨)" else message
    [Call.post webhookUrl safeMessage]

/-! ## The messages -/

def numberText (n : ℕ) : Units := utf16 n.repr

/-- `/[\r\n]+/g` → `' '`. -/
def matchLineBreaks (_ : Option UInt16) (us : Units) : Option (Units × ℕ) :=
  match us.takeWhile fun u => u == unit '\r' || u == unit '\n' with
  | [] => none
  | run => some ([unit ' '], run.length)

/-- `c` → `\c`, for a sign that Discord would read. -/
def escapeSign (c : Char) (us : Units) : Units := replace (matchText [unit c] [unit '\\', unit c]) us

def safeTitle (title : Units) : Units :=
  escapeSign ')' <|
  escapeSign '(' <|
  escapeSign ']' <|
  escapeSign '[' <|
  escapeSign '`' <|
  escapeSign '\\' <|
  replace matchLineBreaks title

def detailUrl (baseUrl : Units) (article : SavedArticleInfo) : Units :=
  baseUrl ++ utf16 "/?id=" ++ utf16 (String.ofList article.id.toChars)

def appendStr (baseUrl : Units) (idx : ℕ) (article : SavedArticleInfo) : Units :=
  utf16 "\n" ++ numberText (idx + 1) ++ utf16 ". [" ++ safeTitle article.title ++ utf16 "](<" ++
    detailUrl baseUrl article ++ utf16 ">)"

/-- The line about the `count` articles left out. -/
def remainderLine (count : ℕ) : Units :=
  utf16 "\n\n...외 **" ++ numberText count ++ utf16 "개**의 아티클이 더 있습니다."

def header (sourceName : Units) : Units :=
  utf16 "📢 **[" ++ sourceName ++ utf16 "] 새로운 트렌드 아티클이 도착했습니다!**\n"

/-- The loop over the articles of index `idx` and later, `total` in all. -/
def appendArticles (baseUrl : Units) (total : ℕ) : ℕ → Units → List SavedArticleInfo → Units
  | _, userMessage, [] => userMessage
  | idx, userMessage, article :: rest =>
    if userMessage.length + (appendStr baseUrl idx article).length > 1800 then
      userMessage ++ remainderLine (total - idx)
    else
      appendArticles baseUrl total (idx + 1) (userMessage ++ appendStr baseUrl idx article) rest

def userMessage (baseUrl : Units) (sourceName : Option Units) (todaySavedArticles : List SavedArticleInfo) :
    Units :=
  match sourceName with
  | none => []
  | some sourceName =>
    if todaySavedArticles.length > 0 then
      appendArticles baseUrl todaySavedArticles.length 0 (header sourceName) todaySavedArticles
    else []

def adminMessage (jobId : Units) (sourceName : Option Units) (savedCount : ℕ) : Units :=
  let message := utf16 "✅ **[BullMQ 스크래퍼 성공]**\n- Job ID: `" ++ jobId ++ utf16 "`"
  match sourceName with
  | none => message
  | some sourceName =>
    message ++ (utf16 "\n- 수집 출처: `" ++ sourceName ++ utf16 "`") ++
      (utf16 "\n- 저장 건수(오늘 누계): **" ++ numberText savedCount ++ utf16 "개**")

/-- `findSavedSince` is asked for a source and the start of today; nothing stands for
an error. -/
def onCompleted (config : Config) (findSavedSince : Units → Option (List SavedArticleInfo))
    (jobId : Units) (returnvalue : ReturnValue) : List Call :=
  let baseUrl := config.baseUrl
  let sourceName := returnvalue.sourceName
  let todaySavedArticles := (sourceName.bind findSavedSince).getD []
  let message := userMessage baseUrl sourceName todaySavedArticles
  sendNotification config (adminMessage jobId sourceName todaySavedArticles.length) .ADMIN ++
    (if message ≠ [] then sendNotification config message .USER else []) ++
    [Call.invalidateSources]

def onFailed (config : Config) (jobId failedReason : Units) : List Call :=
  sendNotification config
    (utf16 "🚨 **[BullMQ 스크래퍼 실패]**\n- Job ID: `" ++ jobId ++ utf16 "`\n- 사유: `" ++ failedReason ++
      utf16 "`") .ADMIN

/-! ## The loop fills the message -/

/-- The complete entries of the articles from index `idx` on. -/
def entries (baseUrl : Units) (idx : ℕ) : List SavedArticleInfo → List Units
  | [] => []
  | article :: rest => appendStr baseUrl idx article :: entries baseUrl (idx + 1) rest

theorem entries_length (baseUrl : Units) (idx : ℕ) (articles : List SavedArticleInfo) :
    (entries baseUrl idx articles).length = articles.length := by
  induction articles generalizing idx with
  | nil => rfl
  | cons article rest ih => rw [entries, List.length_cons, List.length_cons, ih]

/-- The loop fills the message with entries up to 1800 characters: it breaks off at the first
entry that would go past, and writes how many are left. -/
theorem appendArticles_eq_fill (baseUrl : Units) (total idx : ℕ) (text : Units)
    (articles : List SavedArticleInfo) (h : idx + articles.length = total) :
    appendArticles baseUrl total idx text articles
      = fill 1800 remainderLine text (entries baseUrl idx articles) := by
  induction articles generalizing idx text with
  | nil => rfl
  | cons article rest ih =>
    rw [List.length_cons] at h
    have hleft : total - idx = rest.length + 1 := by omega
    rw [appendArticles, entries, fill, entries_length, hleft, ih (idx + 1) _ (by omega)]

/-! ## The line about the rest -/

/-- A text of ASCII letters has one unit for each. -/
theorem utf16_length_of_ascii {s : String} (h : ∀ c ∈ s.toList, c.toNat < 0x80) :
    (utf16 s).length = s.length := by
  have hunits : ∀ cs : List Char, (∀ c ∈ cs, c.toNat < 0x80) →
      (cs.flatMap charUnits).length = cs.length := by
    intro cs
    induction cs with
    | nil => exact fun _ => rfl
    | cons c cs ih =>
      intro hcs
      have hc : charUnits c = [UInt16.ofNat c.toNat] := by
        rw [charUnits, if_pos]
        have := hcs c List.mem_cons_self
        omega
      rw [List.flatMap_cons, hc, List.length_append, ih fun d hd => hcs d (List.mem_cons_of_mem c hd),
        List.length_singleton, List.length_cons, Nat.add_comm]
  rw [utf16_eq_flatMap, hunits s.toList h, String.length_toList]

/-- A number below a power of ten has no more digits than that. -/
theorem numberText_length_le {n k : ℕ} (hk : 0 < k) (h : n < 10 ^ k) : (numberText n).length ≤ k := by
  have hascii : ∀ c ∈ n.repr.toList, c.toNat < 0x80 := by
    intro c hc
    rw [Nat.repr_eq_ofList_toDigits, String.toList_ofList] at hc
    have hdigit := Nat.isDigit_of_mem_toDigits (by decide) (by decide) hc
    rw [Char.isDigit, Bool.and_eq_true, decide_eq_true_eq, decide_eq_true_eq] at hdigit
    have hle : c.toNat ≤ 57 := hdigit.2
    omega
  rw [numberText, utf16_length_of_ascii hascii]
  exact (Nat.length_repr_le_iff hk).2 h

/-- A count that a list can have takes ten digits at most, so the line about the others fits
into the gap of 200. -/
theorem remainderLine_length_le {count : ℕ} (h : count < 2 ^ 32) : (remainderLine count).length ≤ 200 := by
  have hnumber : (numberText count).length ≤ 10 := numberText_length_le (by decide) (by omega)
  have hbefore : (utf16 "\n\n...외 **").length = 9 := by decide
  have hafter : (utf16 "개**의 아티클이 더 있습니다.").length = 17 := by decide
  rw [remainderLine, List.length_append, List.length_append, hbefore, hafter]
  omega

/-! ## The posted message -/

/-- A message within Discord's limit is posted as it is. -/
theorem sendNotification_of_le {config : Config} {message webhookUrl : Units} {target : Target}
    (hurl : config.webhookUrl target = some webhookUrl) (hne : webhookUrl ≠ [])
    (h : message.length ≤ 2000) :
    sendNotification config message target = [Call.post webhookUrl message] := by
  have hfilter : (some webhookUrl).filter (· ≠ []) = some webhookUrl := by
    rw [Option.filter_some, if_pos (decide_eq_true hne)]
  rw [sendNotification, hurl, hfilter]
  dsimp only
  rw [if_neg (Nat.not_lt.2 h)]

theorem header_ne_nil (sourceName : Units) : header sourceName ≠ [] := by
  intro h
  have hlen := congrArg List.length h
  rw [header, List.length_append, List.length_append] at hlen
  have hbefore : (utf16 "📢 **[").length = 6 := by decide
  rw [hbefore, List.length_nil] at hlen
  omega

theorem userMessage_eq_fill (baseUrl name : Units) {articles : List SavedArticleInfo}
    (hne : articles ≠ []) :
    userMessage baseUrl (some name) articles
      = fill 1800 remainderLine (header name) (entries baseUrl 0 articles) := by
  rw [userMessage, if_pos (List.length_pos_of_ne_nil hne)]
  exact appendArticles_eq_fill baseUrl articles.length 0 (header name) articles (Nat.zero_add _)

/-- The header, as many complete entries as fit, and the line about the others: never
longer than what may be posted. -/
theorem userMessage_spec (baseUrl : Units) {name : Units} {articles : List SavedArticleInfo}
    (hne : articles ≠ []) (hlt : articles.length < 2 ^ 32) (hheader : (header name).length ≤ 1800) :
    ∃ k, IsGreatest {k | Fits 1800 (header name) (entries baseUrl 0 articles) k} k ∧
      userMessage baseUrl (some name) articles
        = upTo (header name) (entries baseUrl 0 articles) k ++
          (if k < articles.length then remainderLine (articles.length - k) else []) ∧
      (userMessage baseUrl (some name) articles).length ≤ 2000 := by
  obtain ⟨k, hk, hfill⟩ := fill_spec remainderLine hheader (entries baseUrl 0 articles)
  rw [← userMessage_eq_fill baseUrl name hne, entries_length] at hfill
  refine ⟨k, hk, hfill, ?_⟩
  have hprefix : (upTo (header name) (entries baseUrl 0 articles) k).length ≤ 1800 :=
    hk.1.2 k (Nat.le_refl k)
  rw [hfill, List.length_append]
  split
  · have hline : (remainderLine (articles.length - k)).length ≤ 200 :=
      remainderLine_length_le (by omega)
    omega
  · rw [List.length_nil]
    omega

theorem userMessage_ne_nil (baseUrl : Units) {name : Units} {articles : List SavedArticleInfo}
    (hne : articles ≠ []) (hlt : articles.length < 2 ^ 32) (hheader : (header name).length ≤ 1800) :
    userMessage baseUrl (some name) articles ≠ [] := by
  obtain ⟨k, -, hmessage, -⟩ := userMessage_spec baseUrl hne hlt hheader
  rw [hmessage, upTo, List.append_assoc]
  exact fun h => header_ne_nil name (List.append_eq_nil_iff.1 h).1

/-- The calls for a nonempty list: the message to the administrators, the one to the readers as
it is, and the cache. -/
theorem onCompleted_of_found (config : Config) (findSavedSince : Units → Option (List SavedArticleInfo))
    (jobId : Units) (returnvalue : ReturnValue) {name : Units} {articles : List SavedArticleInfo}
    (hname : returnvalue.sourceName = some name) (hfound : findSavedSince name = some articles)
    (hne : articles ≠ []) (hlt : articles.length < 2 ^ 32) (hheader : (header name).length ≤ 1800)
    {webhookUrl : Units} (hurl : config.DISCORD_USER_WEBHOOK_URL = some webhookUrl) (hwebhook : webhookUrl ≠ []) :
    onCompleted config findSavedSince jobId returnvalue
      = sendNotification config (adminMessage jobId (some name) articles.length) .ADMIN ++
        [Call.post webhookUrl (userMessage config.baseUrl (some name) articles), Call.invalidateSources] := by
  obtain ⟨k, -, -, hlen⟩ := userMessage_spec config.baseUrl hne hlt hheader
  have hsaved : ((some name).bind findSavedSince).getD [] = articles := by
    rw [Option.bind_some, hfound, Option.getD_some]
  have hpost : sendNotification config (userMessage config.baseUrl (some name) articles) .USER
      = [Call.post webhookUrl (userMessage config.baseUrl (some name) articles)] :=
    sendNotification_of_le hurl hwebhook hlen
  rw [onCompleted, hname, hsaved, if_pos (userMessage_ne_nil config.baseUrl hne hlt hheader), hpost,
    List.append_assoc]
  rfl

/-- What the readers get for a nonempty list: the header and the longest run of complete
entries that stays within 1800, then the number of the others when there are others, posted
without a cut. -/
theorem onCompleted_notification (config : Config)
    (findSavedSince : Units → Option (List SavedArticleInfo)) (jobId : Units)
    (returnvalue : ReturnValue) {name : Units} {articles : List SavedArticleInfo}
    (hname : returnvalue.sourceName = some name) (hfound : findSavedSince name = some articles)
    (hne : articles ≠ []) (hlt : articles.length < 2 ^ 32) (hheader : (header name).length ≤ 1800) :
    ∃ k message, IsGreatest {k | k ≤ articles.length ∧
        ∀ j ≤ k, (header name ++ ((entries config.baseUrl 0 articles).take j).flatten).length ≤ 1800} k ∧
      message = header name ++ ((entries config.baseUrl 0 articles).take k).flatten ++
        (if k < articles.length then remainderLine (articles.length - k) else []) ∧
      message.length ≤ 2000 ∧
      userMessage config.baseUrl (some name) articles = message ∧
      ∀ webhookUrl, config.DISCORD_USER_WEBHOOK_URL = some webhookUrl → webhookUrl ≠ [] →
        onCompleted config findSavedSince jobId returnvalue
          = sendNotification config (adminMessage jobId (some name) articles.length) .ADMIN ++
            [Call.post webhookUrl message, Call.invalidateSources] := by
  obtain ⟨k, hk, hmessage, hlen⟩ := userMessage_spec config.baseUrl hne hlt hheader
  simp only [Fits, entries_length] at hk
  exact ⟨k, _, hk, hmessage, hlen, rfl, fun webhookUrl hurl hwebhook =>
    onCompleted_of_found config findSavedSince jobId returnvalue hname hfound hne hlt hheader hurl hwebhook⟩

/-- Articles whose entries are 117 units and more. -/
def longTitles : List SavedArticleInfo :=
  (List.range 40).map fun i => ⟨Binary64.ofInt (i + 1), List.replicate 80 (unit 'a')⟩

/-- Forty articles that take more than the message holds. Some are listed, the others counted. -/
theorem onCompleted_notification_geeks :
    1800 < (header (utf16 "GEEKS") ++
      (entries (utf16 "http://localhost:3000") 0 longTitles).flatten).length ∧
    ∃ k message, IsGreatest {k | k ≤ 40 ∧ ∀ j ≤ k, (header (utf16 "GEEKS") ++
        ((entries (utf16 "http://localhost:3000") 0 longTitles).take j).flatten).length ≤ 1800} k ∧
      message = header (utf16 "GEEKS") ++
        ((entries (utf16 "http://localhost:3000") 0 longTitles).take k).flatten ++
        (if k < 40 then remainderLine (40 - k) else []) ∧
      message.length ≤ 2000 ∧
      userMessage (utf16 "http://localhost:3000") (some (utf16 "GEEKS")) longTitles = message ∧
      ∀ webhookUrl, some (utf16 "user") = some webhookUrl → webhookUrl ≠ [] →
        onCompleted ⟨none, none, some (utf16 "user")⟩ (fun _ => some longTitles) (utf16 "job-456")
          (.object (some (utf16 "GEEKS"))) = [Call.post webhookUrl message, Call.invalidateSources] :=
  ⟨by decide +kernel, onCompleted_notification ⟨none, none, some (utf16 "user")⟩ (fun _ => some longTitles)
    (utf16 "job-456") (.object (some (utf16 "GEEKS"))) rfl rfl (List.cons_ne_nil _ _) (by decide)
    (by decide)⟩

end TrendQueueEventsListener

end TechTrends
