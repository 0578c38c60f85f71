/-
The trail of articles behind the modal.

A click on a related article, the Back button of the modal and those of the browser each change
the article and the history of the modal, answers come in any order, and a failed one closes the
modal. All the time the history and the article are a trail, and the Back button is there when
there is a way back.
-/
import TechTrends.FrontendAnswers
import TechTrends.Trail

set_option autoImplicit false

namespace TechTrends

namespace Frontend

open InFlight (not_awaits_nil)
open Trail (Move Excursion walk)

/-! ## The moves of a run -/

/-- The history of the modal, then the article. -/
def Page.trail (s : Page) : List ArticleId := s.modal.modalHistory ++ s.modal.articleId.toList

/-- What an action does to the trail. An article that does not come closes the modal, whichever
it is. -/
def trailMove (s : Page) : Act → Option (Move ArticleId)
  | Act.openDetail id false => some (Move.start id)
  | Act.openDetail id true => some (Move.follow id)
  | Act.goBackModal => some Move.back
  | Act.closeModal => some Move.close
  | Act.popstate none => some Move.close
  | Act.popstate (some id) => some (Move.jump id)
  | Act.response i status =>
    match s.calls[i]? with
    | some (Call.detail _ Stage.response) => if isOk status then none else some Move.close
    | _ => none
  | Act.detailBody i item =>
    match s.calls[i]? with
    | some (Call.detail _ Stage.body) => if (detailItem item).isSome then none else some Move.close
    | _ => none
  | _ => none

/-- The moves of a run from a state. -/
def trailMoves : List Act → Page → List (Move ArticleId)
  | [], _ => []
  | a :: acts, s => (trailMove s a).toList ++ (step s a).elim [] (trailMoves acts)

/-- What is so between the steps. -/
structure OnTrail (s : Page) : Prop where
  closed : s.modal.articleId = none → s.modal.modalHistory = []
  backBtn : s.modal.backBtn = !s.modal.modalHistory.isEmpty
  apart : s.trail.IsChain (· ≠ ·)

/-! ## The handlers -/

theorem trail_openWith (s : Page) (history : List ArticleId) (id : ArticleId) :
    (s.openWith history id).trail = history ++ [id] := rfl

/-- While no article is open there is nothing to go back to: `closeModal` empties
`modalHistory` before it forgets `articleId`, and no handler fills the one without setting the
other. So the trail is empty as well. -/
theorem trail_of_none {s : Page} (h : OnTrail s) (hid : s.modal.articleId = none) : s.trail = [] := by
  rw [Page.trail, h.closed hid, hid]
  rfl

/-- With an article open it is the last place of the trail, behind the articles that
`modalHistory` has. -/
theorem trail_of_some {s : Page} {id : ArticleId} (hid : s.modal.articleId = some id) :
    s.trail = s.modal.modalHistory ++ [id] := by
  rw [Page.trail, hid]
  rfl

/-- `openDetail` as a move. From a related article it follows, so that the article that was
open goes into `modalHistory`, unless the same article is clicked; from a card it starts
afresh, as `modalHistory` is emptied. -/
theorem trail_openDetail {s : Page} (h : OnTrail s) (id : ArticleId) (isRelatedClick : Bool) :
    (s.openDetail id isRelatedClick).trail =
      Trail.move s.trail (if isRelatedClick then Move.follow id else Move.start id) := by
  cases isRelatedClick with
  | false => rfl
  | true =>
    rw [if_pos rfl, Trail.move]
    unfold Page.openDetail
    cases hid : s.modal.articleId with
    | none =>
      rw [trail_of_none h hid, h.closed hid]
      rfl
    | some current =>
      rw [trail_of_some hid, trail_openWith, List.getLast?_concat]
      -- the handler pushes nothing when the related article is the open one, and `follow`
      -- stays
      by_cases hsame : current = id
      · subst hsame
        simp
      · simp [hsame]

/-- `goBackModal` as a move: `pop` takes the last article of `modalHistory` for the current
one, so the trail loses its last place. With an empty history the handler does nothing, and
the trail has one place or none. -/
theorem trail_goBackModal {s : Page} (h : OnTrail s) : s.goBackModal.trail = Trail.move s.trail Move.back := by
  rw [Page.goBackModal]
  cases hlast : s.modal.modalHistory.getLast? with
  | none =>
    have hnil := List.getLast?_eq_none_iff.1 hlast
    have hshort : ¬ 1 < s.trail.length := by
      rw [Page.trail, hnil, List.nil_append]
      cases s.modal.articleId <;> simp
    rw [Trail.move, if_neg hshort]
  | some prevId =>
    have hne : s.modal.modalHistory ≠ [] := by
      rintro hnil
      rw [hnil] at hlast
      cases hlast
    cases hid : s.modal.articleId with
    | none => exact absurd (h.closed hid) hne
    | some current =>
      have hlong : 1 < (s.modal.modalHistory ++ [current]).length := by
        have hpos := List.length_pos_iff.2 hne
        rw [List.length_append, List.length_singleton]
        omega
      rw [trail_of_some hid, Trail.move, if_pos hlong, List.dropLast_concat]
      exact List.dropLast_append_getLast? prevId hlast

/-- `modalHistory.slice(0, prevIdx)` and the article behind it. That is the history up to the
last visit of the article, or the history with the article added when `lastIndexOf` finds none
and nothing is cut off. -/
theorem beforeLast_concat (id : ArticleId) (history : List ArticleId) :
    beforeLast id history ++ [id] =
      if id ∈ history then history.rdropWhile (· ≠ id) else history ++ [id] := by
  rw [beforeLast]
  split
  · next hmem =>
    have hne : history.reverse.dropWhile (· ≠ id) ≠ [] := by
      rw [Ne, List.dropWhile_eq_nil_iff]
      exact fun hall => by simpa using hall id (List.mem_reverse.2 hmem)
    have hhead := List.head_dropWhile_not (fun a => decide (a ≠ id)) hne
    obtain ⟨a, rest, heq⟩ := List.exists_cons_of_ne_nil hne
    have ha : a = id := by
      simp only [heq, List.head_cons] at hhead
      simpa using hhead
    rw [List.rdropWhile, heq, ha, List.drop_succ_cons, List.drop_zero, List.reverse_cons]
  · rfl

/-- `onpopstate` with an article in the address, as a move: the trail ends at the last visit
of that article, or the article stands in place of the one that was open. The handler looks
for it in the history only when it is not the open article itself. -/
theorem trail_popstate {s : Page} (h : OnTrail s) (id : ArticleId) :
    (s.popstate (some id)).trail = Trail.move s.trail (Move.jump id) := by
  rw [Page.popstate, trail_openWith]
  cases hid : s.modal.articleId with
  | none =>
    rw [trail_of_none h hid, h.closed hid]
    rfl
  | some current =>
    rw [trail_of_some hid, Trail.move]
    by_cases hsame : current = id
    · subst hsame
      simp
    · -- a visit in the trail is one in the history, and the open article is dropped first
      have hmem : id ∈ s.modal.modalHistory ++ [current] ↔ id ∈ s.modal.modalHistory := by
        simp [Ne.symm hsame]
      simp only [if_pos hsame, beforeLast_concat, hmem, List.dropLast_concat]
      rw [List.rdropWhile_concat_pos _ _ _ (by simpa using hsame)]

/-! ## A step -/

/-- A step that leaves the article and the history alone, with the Back button as the history
has it, stays on the trail and makes no move. -/
theorem OnTrail.frame {s t : Page} (h : OnTrail s) (hid : t.modal.articleId = s.modal.articleId)
    (hhistory : t.modal.modalHistory = s.modal.modalHistory)
    (hback : t.modal.backBtn = !s.modal.modalHistory.isEmpty) : OnTrail t ∧ t.trail = s.trail := by
  have htrail : t.trail = s.trail := by
    rw [Page.trail, hid, hhistory]
    rfl
  refine ⟨⟨fun hnone => ?_, by rw [hback, hhistory], by rw [htrail]; exact h.apart⟩, htrail⟩
  rw [hhistory]
  exact h.closed (hid.symm.trans hnone)

theorem OnTrail.of_modal {s t : Page} (h : OnTrail s) (hmodal : t.modal = s.modal) : OnTrail t ∧ t.trail = s.trail :=
  h.frame (by rw [hmodal]) (by rw [hmodal]) (by rw [hmodal, h.backBtn])

/-- A step that opens an article with some history behind it and is a move of the trail. It
calls `updateModalBackButton` first thing in `openDetailByUrl`, so the button is right at
once. -/
theorem OnTrail.openWith {s : Page} (h : OnTrail s) {history : List ArticleId} {id : ArticleId} {m : Move ArticleId}
    (htrail : (s.openWith history id).trail = Trail.move s.trail m) : OnTrail (s.openWith history id) where
  closed := fun hnone => by cases hnone
  backBtn := rfl
  apart := by
    rw [htrail]
    exact Trail.isChain_move h.apart m

theorem onTrail_closeModal (s : Page) : OnTrail s.closeModal := ⟨fun _ => rfl, rfl, List.isChain_nil⟩

/-- The end of `openDetailByUrl`. With the article there it is shown and the trail stays;
without, the `catch` closes the modal, also when another article has been opened meanwhile. -/
theorem OnTrail.endDetail {s : Page} (h : OnTrail s) (i : ℕ) (id : ArticleId) (item : Option Json) :
    OnTrail (s.endDetail i id item) ∧ (s.endDetail i id item).trail = if item.isSome then s.trail else [] := by
  cases item with
  | none => exact ⟨onTrail_closeModal _, rfl⟩
  | some item => exact h.frame rfl rfl rfl

theorem OnTrail.endRelated {s : Page} (h : OnTrail s) (i : ℕ) (id : String) (token : ℕ) (answer : RelatedAnswer) :
    OnTrail (s.endRelated i id token answer) ∧ (s.endRelated i id token answer).trail = s.trail := by
  cases answer with
  | ok data => exact h.frame rfl rfl h.backBtn
  | failed =>
    by_cases htoken : token = s.modal.relatedRequestToken
    · refine h.frame ?_ ?_ ?_ <;> simp only [Page.endRelated, if_pos htoken]
      exact h.backBtn
    · refine h.of_modal ?_
      simp only [Page.endRelated, if_neg htoken]

/-- An answer to a request, of which only the status is known so far. It moves the trail in
one case: the article's request is refused, and the modal closes. -/
theorem OnTrail.respond {s t : Page} (h : OnTrail s) {i : ℕ} {status : Option ℕ}
    (hstep : Frontend.respond s i status = some t) :
    OnTrail t ∧ t.trail = (trailMove s (Act.response i status)).elim s.trail (Trail.move s.trail) := by
  rw [Frontend.respond] at hstep
  split at hstep
  · next params submitted hcall =>
    rw [trailMove, hcall]
    obtain rfl := Option.some.inj hstep
    cases isOk status with
    | true => exact h.of_modal rfl
    | false => exact h.of_modal rfl
  · next id hcall =>
    rw [trailMove, hcall]
    obtain rfl := Option.some.inj hstep
    cases isOk status with
    | true => exact h.of_modal rfl
    | false => exact h.endDetail i id none
  · next id token hcall =>
    rw [trailMove, hcall]
    obtain rfl := Option.some.inj hstep
    cases isOk status with
    | true =>
      by_cases htoken : token ≠ s.modal.relatedRequestToken
      · rw [if_pos rfl, if_pos htoken]
        exact h.of_modal rfl
      · rw [if_pos rfl, if_neg htoken]
        exact h.of_modal rfl
    | false => exact h.endRelated i id token RelatedAnswer.failed
  · cases hstep

theorem modal_handleSearch (s : Page) (value : String) : (s.handleSearch value).modal = s.modal := by
  cases hsubmitting : s.isSubmitting with
  | true => rw [Page.handleSearch, if_pos hsubmitting]
  | false =>
    rw [Page.handleSearch, hsubmitting]
    simp only [Bool.false_eq_true, if_false, Page.fetchTrends]

theorem modal_toggleSearchType (s : Page) (checked : Bool) : (s.toggleSearchType checked).modal = s.modal := by
  rw [Page.toggleSearchType]
  split <;> rfl

/-- Every step stays on the trail and makes the move that `trailMove` reads off it, or none.
The cases are those of the actions: opening, going back, closing and the browser's buttons are
moves by themselves, the handlers of the list leave the modal alone, and an answer is a move
where it closes the modal. -/
theorem OnTrail.step {s t : Page} {a : Act} (h : OnTrail s) (hstep : step s a = some t) :
    OnTrail t ∧ t.trail = (trailMove s a).elim s.trail (Trail.move s.trail) := by
  cases a with
  -- the handlers of the list leave the modal, and its trail, alone
  | search value =>
    obtain rfl := Option.some.inj hstep
    exact h.of_modal (modal_handleSearch s value)
  | goToPage p =>
    obtain rfl := Option.some.inj hstep
    exact h.of_modal rfl
  | clear =>
    obtain rfl := Option.some.inj hstep
    exact h.of_modal rfl
  | toggleSearchType checked =>
    obtain rfl := Option.some.inj hstep
    exact h.of_modal (modal_toggleSearchType s checked)
  | selectSource value =>
    obtain rfl := Option.some.inj hstep
    exact h.of_modal rfl
  | selectSort value =>
    obtain rfl := Option.some.inj hstep
    exact h.of_modal rfl
  | selectLimit value =>
    obtain rfl := Option.some.inj hstep
    exact h.of_modal rfl
  | toggleNew =>
    obtain rfl := Option.some.inj hstep
    exact h.of_modal rfl
  -- the handlers of the modal: each one is a move of the trail
  | openDetail id isRelatedClick =>
    obtain rfl := Option.some.inj hstep
    have htrail := trail_openDetail h id isRelatedClick
    refine ⟨h.openWith htrail, ?_⟩
    rw [htrail]
    cases isRelatedClick <;> rfl
  | goBackModal =>
    obtain rfl := Option.some.inj hstep
    have htrail := trail_goBackModal h
    refine ⟨?_, htrail⟩
    rw [Page.goBackModal] at htrail ⊢
    split at htrail
    · exact h
    · exact h.openWith htrail
  | closeModal =>
    obtain rfl := Option.some.inj hstep
    exact ⟨onTrail_closeModal s, rfl⟩
  | popstate currentUrlId =>
    obtain rfl := Option.some.inj hstep
    cases currentUrlId with
    | none => exact ⟨onTrail_closeModal s, rfl⟩
    | some id => exact ⟨h.openWith (trail_popstate h id), trail_popstate h id⟩
  -- an article that is refused closes the modal; the other answers leave the trail
  | response i status => exact h.respond hstep
  | trendsBody i body =>
    rw [Frontend.step] at hstep
    split at hstep
    · obtain rfl := Option.some.inj hstep
      exact h.of_modal rfl
    · cases hstep
  | detailBody i item =>
    rw [Frontend.step] at hstep
    split at hstep
    · next id hcall =>
      obtain rfl := Option.some.inj hstep
      rw [trailMove, hcall]
      obtain ⟨hon, htrail⟩ := h.endDetail i id (detailItem item)
      refine ⟨hon, htrail.trans ?_⟩
      cases detailItem item <;> rfl
    · cases hstep
  | relatedBody i data =>
    rw [Frontend.step] at hstep
    split at hstep
    · obtain rfl := Option.some.inj hstep
      exact h.endRelated i _ _ _
    · cases hstep

/-- The page begins on its trail, which is empty or, with `?id=` in the address, has that
article. -/
theorem onTrail_init (f : Filters) (articleId : Option ArticleId) :
    OnTrail (init f articleId) ∧ (init f articleId).trail = articleId.toList := by
  cases articleId with
  | none => exact ⟨⟨fun _ => rfl, rfl, List.isChain_nil⟩, rfl⟩
  | some id => exact ⟨⟨fun _ => rfl, rfl, List.isChain_singleton id⟩, rfl⟩

/-! ## Runs -/

/-- A run stays on the trail and walks it by its moves, one after the other. The induction is
on the actions, and what carries it is `OnTrail`. -/
theorem OnTrail.run {s t : Page} {acts : List Act} (h : OnTrail s) (hrun : machine.run acts s = some t) :
    OnTrail t ∧ t.trail = walk s.trail (trailMoves acts s) := by
  induction acts generalizing s with
  | nil =>
    obtain rfl := Option.some.inj hrun
    exact ⟨h, rfl⟩
  | cons a acts ih =>
    obtain ⟨u, hstep, hrest⟩ := (StepMachine.run_cons_eq_some machine).1 hrun
    obtain ⟨hu, htrail⟩ := h.step hstep
    obtain ⟨ht, hwalk⟩ := ih hu hrest
    refine ⟨ht, ?_⟩
    have hstep' : Frontend.step s a = some u := hstep
    rw [hwalk, htrail, trailMoves, hstep', Trail.walk_append]
    cases trailMove s a <;> rfl

/-- Any number of clicks on the Back button of the modal is a run, and each of the clicks is a
move back. Answers may be outstanding all the while. -/
theorem run_backs (n : ℕ) (s : Page) : ∃ t, machine.run (List.replicate n Act.goBackModal) s = some t ∧
    trailMoves (List.replicate n Act.goBackModal) s = List.replicate n Move.back := by
  induction n generalizing s with
  | zero => exact ⟨s, rfl, rfl⟩
  | succ n ih =>
    obtain ⟨t, hrun, hmoves⟩ := ih s.goBackModal
    refine ⟨t, hrun, ?_⟩
    rw [List.replicate_succ, List.replicate_succ, ← hmoves]
    rfl

theorem getLast?_trail {s : Page} (h : OnTrail s) : s.trail.getLast? = s.modal.articleId := by
  cases hid : s.modal.articleId with
  | none =>
    rw [trail_of_none h hid]
    rfl
  | some id => rw [trail_of_some hid, List.getLast?_concat]

/-- The Back button is shown exactly when the trail has a place before the last one. -/
theorem backBtn_iff {s : Page} (h : OnTrail s) : s.modal.backBtn = true ↔ 1 < s.trail.length := by
  rw [h.backBtn, Bool.not_eq_true', List.isEmpty_eq_false_iff]
  cases hid : s.modal.articleId with
  | none =>
    rw [trail_of_none h hid, h.closed hid]
    simp
  | some id =>
    rw [trail_of_some hid, List.length_append, List.length_singleton, ← List.length_pos_iff]
    omega

/-- **The modal is a trail of articles**, in every run and whenever answers come: it is walked by
the clicks, no article is next to itself, the Back button is there exactly when there is a way
back, and it leads back to each article of the trail. Related articles that are all gone back
from leave the trail as it was, and with everything answered the modal shows its article. -/
theorem reading_trail (f : Filters) (articleId : Option ArticleId) {acts : List Act} {s : Page}
    (hrun : machine.run acts (init f articleId) = some s) :
    (s.trail = walk articleId.toList (trailMoves acts (init f articleId)) ∧ s.trail.IsChain (· ≠ ·) ∧
      s.trail.getLast? = s.modal.articleId ∧ (s.modal.backBtn = true ↔ 1 < s.trail.length)) ∧
    (∀ n < s.trail.length, ∃ t, machine.run (List.replicate n Act.goBackModal) s = some t ∧
      t.trail = s.trail.take (s.trail.length - n)) ∧
    ∀ acts' t id, machine.run acts' s = some t → s.modal.articleId = some id →
      Excursion s.trail (trailMoves acts' s) → t.trail = s.trail ∧
        (machine.Meets InOrder (acts ++ acts') (init f articleId) → t.calls = [] → ShowsItem t.modal t.log id) := by
  obtain ⟨hinit, htrail⟩ := onTrail_init f articleId
  obtain ⟨hs, hwalk⟩ := hinit.run hrun
  rw [htrail] at hwalk
  refine ⟨⟨hwalk, hs.apart, getLast?_trail hs, backBtn_iff hs⟩, fun n hn => ?_, ?_⟩
  · obtain ⟨t, hbacks, hmoves⟩ := run_backs n s
    refine ⟨t, hbacks, ?_⟩
    rw [(hs.run hbacks).2, hmoves, Trail.walk_backs s.trail hn]
  · intro acts' t id hrun' hid hexcursion
    obtain ⟨ht, hwalk'⟩ := hs.run hrun'
    have hne : s.trail ≠ [] := by
      rw [trail_of_some hid]
      exact List.concat_ne_nil _ _
    have hsame : t.trail = s.trail := hwalk'.trans (hexcursion.walk_eq hne)
    refine ⟨hsame, fun hmeets hcalls => ?_⟩
    -- what is shown is the business of the invariant of all answers, over the run from its
    -- beginning
    have hrunAll : machine.run (acts ++ acts') (init f articleId) = some t := by
      rw [StepMachine.run_append, hrun, Option.bind_some, hrun']
    have hinv := keepsIf_inv.run machine (inv_init f articleId) hmeets hrunAll
    have hid' : t.modal.articleId = some id := by
      rw [← getLast?_trail ht, hsame, getLast?_trail hs, hid]
    refine (hinv.detail.shows id hid').resolve_left fun hawaits => ?_
    rw [hcalls] at hawaits
    exact not_awaits_nil hawaits

/-- The list comes, and an article is clicked. -/
def openRun : List Act :=
  [Act.response 0 (some 200), Act.trendsBody 0 (some ⟨some [plainItem 6], 1, some 1⟩),
    Act.openDetail ⟨"6", by decide⟩ false]

/-- A related article and back, before the answers come: the article, the related one and the
article again, and then their related lists, of which only the last one is read. -/
def backRun : List Act :=
  [Act.openDetail ⟨"8", by decide⟩ true, Act.goBackModal,
    Act.response 0 (some 200), Act.detailBody 0 (some (plainItem 6)),
    Act.response 0 (some 200), Act.detailBody 0 (some (plainItem 8)),
    Act.response 0 (some 200), Act.detailBody 0 (some (plainItem 6)),
    Act.response 0 (some 200), Act.response 0 (some 200),
    Act.response 0 (some 200), Act.relatedBody 0 (some (some []))]

/-- The list comes, an article is opened, a related one is followed and gone back from before
any of their answers is there. The trail is the same afterwards, and with all answers told the
modal shows the first article. -/
theorem reading_trail_back : ∃ s t : Page, machine.run openRun (init plainFilters none) = some s ∧
    machine.run backRun s = some t ∧ t.trail = s.trail ∧ t.calls = [] ∧
      ShowsItem t.modal t.log ⟨"6", by decide⟩ := by
  have hopen : (machine.run openRun (init plainFilters none)).map (fun s =>
      (s.trail, s.modal.articleId, trailMoves backRun s)) =
        some ([⟨"6", by decide⟩], some ⟨"6", by decide⟩, [Move.follow ⟨"8", by decide⟩, Move.back]) := by
    decide +kernel
  have hcalls : (machine.run (openRun ++ backRun) (init plainFilters none)).map (fun t => t.calls) = some [] := by
    decide +kernel
  -- every answer is due when it comes: the related article, as the first one is asked for again
  have hmeets : machine.Meets InOrder (openRun ++ backRun) (init plainFilters none) := by decide +kernel
  obtain ⟨s, hs, hstate⟩ := Option.map_eq_some_iff.1 hopen
  obtain ⟨t, ht, hdone⟩ := Option.map_eq_some_iff.1 hcalls
  obtain ⟨s', hs', hback⟩ := (StepMachine.run_append_eq_some machine).1 ht
  obtain rfl : s = s' := Option.some.inj (hs.symm.trans hs')
  rw [Prod.mk.injEq, Prod.mk.injEq] at hstate
  obtain ⟨htrail, hid, hmoves⟩ := hstate
  have hexcursion : Excursion s.trail (trailMoves backRun s) := by
    rw [htrail, hmoves]
    exact Excursion.away (by decide) (Excursion.nil _) (Excursion.nil _)
  obtain ⟨hsame, hshows⟩ := (reading_trail plainFilters none hs).2.2 backRun t _ hback hid hexcursion
  exact ⟨s, t, hs, hback, hsame, hdone, hshows hmeets hdone⟩

end Frontend

end TechTrends
