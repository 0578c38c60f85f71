/-
Single-flight loading.

The three maps hold exactly the loads that have not done their cleanup, each under
its key. A load is there as long as the call that started it waits for it, so the
maps are empty when no call waits. What a step keeps is said of each call and each
load on its own: it stays true of those that the step does not touch, since loads
and settled calls only grow.
-/
import TechTrends.TrendsQuery

set_option autoImplicit false

namespace TechTrends

namespace TrendsQuery

open SingleFlight (Tracks)

variable {cfg : TrendsCacheConfig} {s t : State} {a : Act} {c l : CallId} {target : Target}

/-! ## Keys -/

/-- Loads under one key are for one target. The ids and limits are numbers, whose texts end
before the `:`; a source is any text, and what follows it is one of the two texts of `isNew`. -/
theorem loadKey_inj {target target' : Target} {key : LoadKey} (h : loadKey target = some key)
    (h' : loadKey target' = some key) : target = target' := by
  have hkeys := h.trans h'.symm
  cases target <;> cases target' <;> simp [loadKey] at hkeys
  case sources.sources => cases h
  case detail.detail => rw [hkeys]
  -- The text of a number can be read back up to the `:`.
  case related.related id limit id' limit' =>
    have hl := congrArg String.toList hkeys
    simp only [numberText, String.toList_append, String.toList_ofList, List.append_assoc] at hl
    obtain ⟨rfl, hrest⟩ := numberText_append_inj (numberEnd_colon _) (numberEnd_colon _) hl
    have hlimit : numberText limit = numberText limit' := by
      simpa [numberText] using congrArg String.ofList hrest
    rw [numberText_injective hlimit]
  -- A source may itself hold a `:`, and the two texts of `isNew` end differently.
  case listCount.listCount source isNew source' isNew' =>
    have hl := congrArg String.toList hkeys
    simp only [String.toList_append, List.append_assoc] at hl
    obtain ⟨hsource, rfl⟩ := append_boolText_inj hl
    rw [String.toList_injective hsource]

/-! ## The maps -/

/-- The key under which a load is open: until its cleanup. -/
def Load.openKey (load : Load) : Option LoadKey :=
  match load.phase with
  | LoadPhase.finished _ => none
  | _ => loadKey load.target

def openKey (s : State) (l : CallId) : Option LoadKey := (s.loads l).bind Load.openKey

/-- A step that moves one load opens or closes that load's key and no other. -/
theorem openKey_of_loads {phase : LoadPhase}
    (hl : t.loads = Function.update s.loads l (some ⟨target, phase⟩)) :
    openKey t = Function.update (openKey s) l (Load.openKey ⟨target, phase⟩) := by
  funext l'
  unfold openKey
  rw [hl]
  by_cases h : l' = l
  · rw [h, Function.update_self, Function.update_self]
    rfl
  · rw [Function.update_of_ne h, Function.update_of_ne h]

theorem openKey_firstPhase (target : Target) :
    Load.openKey ⟨target, firstPhase target⟩ = loadKey target := by
  cases target <;> rfl

/-- A load that goes on, from one of its waits to the next, stays open under its key. -/
theorem tracks_setLoad {phase phase' : LoadPhase} (h : Tracks s.entries (openKey s))
    (hl : s.loads l = some ⟨target, phase⟩)
    (hopen : Load.openKey ⟨target, phase'⟩ = Load.openKey ⟨target, phase⟩) :
    Tracks s.entries (openKey (s.setLoad l target phase')) := by
  have hsame : openKey s l = Load.openKey ⟨target, phase'⟩ := by
    rw [openKey, hl]
    exact hopen.symm
  rw [openKey_of_loads (setLoad_loads s l target phase'), ← hsame, Function.update_eq_self]
  exact h

/-- A load is entered where there is none: `get` has found no entry for the key, and nothing
runs between it and `set`, as there is no `await` between them. -/
theorem tracks_lead (h : Tracks s.entries (openKey s)) (hl : s.loads c = none)
    (hload : (loadKey target).bind s.entries = none) :
    Tracks (s.lead c target).entries (openKey (s.lead c target)) := by
  rw [openKey_of_loads (lead_loads s c target), openKey_firstPhase, lead_entries]
  have hnone : openKey s c = none := by
    rw [openKey, hl]
    rfl
  cases hkey : loadKey target with
  -- The list of sources is loaded without an entry.
  | none =>
    rw [setEntry_of_none _ _ _ hkey, ← hnone, Function.update_eq_self]
    exact h
  | some key =>
    rw [hkey] at hload
    rw [setEntry_of_key _ _ _ hkey]
    exact h.start hload hnone

/-- The entry of a load goes with its end. The `finally` block deletes the entry of the load's
key, and since entries are exactly the open loads this one is the load's own. -/
theorem tracks_finish {phase : LoadPhase} (h : Tracks s.entries (openKey s))
    (hl : s.loads l = some ⟨target, phase⟩)
    (hopen : Load.openKey ⟨target, phase⟩ = loadKey target) (r : Result) :
    Tracks (s.finish l target r).entries (openKey (s.finish l target r)) := by
  rw [openKey_of_loads (finish_loads s l target r), finish_entries]
  have hsame : openKey s l = loadKey target := by
    rw [openKey, hl]
    exact hopen
  cases hkey : loadKey target with
  -- There was no entry to delete.
  | none =>
    have hfinished : Load.openKey ⟨target, LoadPhase.finished r⟩ = openKey s l := by
      rw [hsame, hkey]
      rfl
    rw [setEntry_of_none _ _ _ hkey, hfinished, Function.update_eq_self]
    exact h
  | some key =>
    rw [setEntry_of_key _ _ _ hkey]
    exact h.finish (hsame.trans hkey)

/-! ## Calls and loads -/

def Load.done (load : Load) : Prop := ∃ r, load.phase = LoadPhase.finished r

def Call.done (call : Call) : Prop := ∃ r, call.phase = Phase.settled r

/-- The loads that a call has waited for. -/
def loadsOf (c : CallId) (log : List Event) : List CallId :=
  log.filterMap fun
    | Event.waits c' l => if c' = c then some l else none
    | _ => none

/-- A settled call took what it found in the cache, or what one load came to. -/
def Explained (s : State) (c : CallId) (target : Target) (result : Result) : Prop :=
  (∃ cached, Event.found c cached ∈ s.log ∧ usable target cached = true ∧
      loadsOf c s.log = [] ∧ result = Except.ok (Value.parsed cached)) ∨
    ∃ l load loaded, loadsOf c s.log = [l] ∧ s.loads l = some load ∧ load.target = target ∧
      load.result? = some loaded ∧ result = settles target loaded

/-- What the log says of a call. -/
def Told (s : State) (c : CallId) (call : Call) : Prop :=
  match call.phase with
  | Phase.reading => loadsOf c s.log = []
  | Phase.looked _ => loadsOf c s.log = []
  | Phase.waiting l => loadsOf c s.log = [l]
  | Phase.settled result => Explained s c call.target result

/-- What the call of a list, or of a load of related articles, is for. -/
def Owned (s : State) (c : CallId) (target : Target) : Prop :=
  (∃ i list, c = CallId.request i ∧ s.lists i = some list ∧ target = list.query.countTarget) ∨
    ∃ load id limit, s.loads c = some load ∧ load.target = Target.related id limit ∧
      target = Target.detail id

structure CallOk (s : State) (c : CallId) (call : Call) : Prop where
  /-- The load it waits for is one for its target. -/
  waits : ∀ l, call.phase = Phase.waiting l → ∃ load, s.loads l = some load ∧
    load.target = call.target
  /-- An inner call is that of a list or of a load of related articles. -/
  owner : ∀ c', c = CallId.inner c' → Owned s c' call.target
  told : Told s c call

structure LoadOk (s : State) (l : CallId) (load : Load) : Prop where
  /-- The call that started it waits for it, or both are through. -/
  led : ∃ call, s.calls l = some call ∧ call.target = load.target ∧
    (call.phase = Phase.waiting l ∨ (call.done ∧ load.done))
  /-- A load that is cleaned up by its call is done with the call. -/
  cleanup : cleansUpInCall load.target = true → load.done →
    ∃ call, s.calls l = some call ∧ call.done
  /-- A load of related articles goes on when its inner call is through. -/
  article : ∀ id limit, load.target = Target.related id limit → load.phase ≠ LoadPhase.article →
    ∃ call, s.calls (CallId.inner l) = some call ∧ call.done

structure Flights (s : State) : Prop where
  tracks : Tracks s.entries (openKey s)
  calls : ∀ c call, s.calls c = some call → CallOk s c call
  loads : ∀ l load, s.loads l = some load → LoadOk s l load
  lists : ∀ i list, s.lists i = some list → s.calls (CallId.request i) = none
  fresh : ∀ c, s.calls c = none → loadsOf c s.log = []

/-- A call has a result when it has settled with it. -/
theorem callResult_eq_some {r : Result} (h : s.callResult c = some r) :
    ∃ call, s.calls c = some call ∧ call.phase = Phase.settled r := by
  obtain ⟨call, hc, hphase⟩ := Option.bind_eq_some_iff.1 h
  refine ⟨call, hc, ?_⟩
  cases hp : call.phase <;> rw [hp] at hphase <;> cases hphase
  rfl

/-! ## What stays -/

/-- Calls, loads and lists stay, and so does what they came to. -/
structure Grows (s t : State) : Prop where
  calls : ∀ c call, s.calls c = some call → ∃ call', t.calls c = some call' ∧
    call'.target = call.target ∧ ∀ r, call.phase = Phase.settled r → call'.phase = Phase.settled r
  loads : ∀ l load, s.loads l = some load → ∃ load', t.loads l = some load' ∧
    load'.target = load.target ∧ ∀ r, load.result? = some r → load'.result? = some r
  lists : ∀ i list, s.lists i = some list → ∃ list', t.lists i = some list' ∧
    list'.query = list.query
  log : s.log <+: t.log

theorem Owned.mono (h : Owned s c target) (hgrow : Grows s t) : Owned t c target := by
  rcases h with ⟨i, list, hi, hlist, htarget⟩ | ⟨load, id, limit, hl, hrelated, htarget⟩
  · -- The owner, a list or a load, is still there.
    obtain ⟨list', hlist', hquery⟩ := hgrow.lists i list hlist
    exact Or.inl ⟨i, list', hi, hlist', hquery ▸ htarget⟩
  · obtain ⟨load', hl', htarget', -⟩ := hgrow.loads c load hl
    exact Or.inr ⟨load', id, limit, hl', htarget'.trans hrelated, htarget⟩

/-- What a settled call took stays an explanation of it, as long as the call waits for no
further load. -/
theorem Explained.mono {result : Result} (h : Explained s c target result) (hgrow : Grows s t)
    (hlog : loadsOf c t.log = loadsOf c s.log) : Explained t c target result := by
  rcases h with ⟨cached, hfound, husable, hnone, hresult⟩ | ⟨l, load, loaded, hone, hl, htarget, hr, hresult⟩
  · exact Or.inl ⟨cached, hgrow.log.subset hfound, husable, hlog.trans hnone, hresult⟩
  · obtain ⟨load', hl', htarget', hr'⟩ := hgrow.loads l load hl
    exact Or.inr ⟨l, load', loaded, hlog.trans hone, hl', htarget'.trans htarget, hr' _ hr, hresult⟩

/-- A call that a step does not touch is as right after it as before: it is told of in the log
as before, and the load that it waits for is still there. -/
theorem CallOk.mono {call : Call} (h : CallOk s c call) (hgrow : Grows s t)
    (hlog : loadsOf c t.log = loadsOf c s.log) : CallOk t c call := by
  refine ⟨?_, ?_, ?_⟩
  · intro l hl
    obtain ⟨load, hload, htarget⟩ := h.waits l hl
    obtain ⟨load', hload', htarget', -⟩ := hgrow.loads l load hload
    exact ⟨load', hload', htarget'.trans htarget⟩
  · exact fun c' hc' => (h.owner c' hc').mono hgrow
  · have htold := h.told
    unfold Told at htold ⊢
    split at htold
    · exact hlog.trans htold
    · exact hlog.trans htold
    · exact hlog.trans htold
    · exact Explained.mono htold hgrow hlog

/-- A load that a step does not touch stays right, when its own call is not touched either. -/
theorem LoadOk.mono {load : Load} (h : LoadOk s l load) (hgrow : Grows s t)
    (hcall : t.calls l = s.calls l) : LoadOk t l load := by
  refine ⟨?_, ?_, ?_⟩
  · rw [hcall]
    exact h.led
  · rw [hcall]
    exact h.cleanup
  · intro id limit htarget hphase
    obtain ⟨call, hc, r, hr⟩ := h.article id limit htarget hphase
    obtain ⟨call', hc', -, hr'⟩ := hgrow.calls _ call hc
    exact ⟨call', hc', r, hr' r hr⟩

/-- What a step keeps. -/
structure Kept (s t : State) : Prop where
  flights : Flights t
  grows : Grows s t

/-- A step is checked at the calls and the loads that it touches; for all others the invariant
is carried over by growth. This is the one place where the invariant is put together again,
and the lemmas below name what their step touches. -/
theorem Flights.next (h : Flights s) (hgrow : Grows s t)
    (htracks : Tracks t.entries (openKey t))
    (hcalls : ∀ c call, t.calls c = some call →
      (s.calls c = some call ∧ loadsOf c t.log = loadsOf c s.log) ∨ CallOk t c call)
    (hloads : ∀ l load, t.loads l = some load →
      (s.loads l = some load ∧ t.calls l = s.calls l) ∨ LoadOk t l load)
    (hlists : ∀ i list, t.lists i = some list → t.calls (CallId.request i) = none)
    (hfresh : ∀ c, t.calls c = none → loadsOf c t.log = loadsOf c s.log) : Kept s t := by
  refine ⟨⟨htracks, ?_, ?_, hlists, ?_⟩, hgrow⟩
  · intro c call hc
    rcases hcalls c call hc with ⟨hs, hlog⟩ | hok
    · exact (h.calls c call hs).mono hgrow hlog
    · exact hok
  · intro l load hl
    rcases hloads l load hl with ⟨hs, hcall⟩ | hok
    · exact (h.loads l load hs).mono hgrow hcall
    · exact hok
  · intro c hc
    -- A call that is new in `t` was no call in `s`, which had waited for nothing.
    rw [hfresh c hc]
    apply h.fresh
    by_contra hne
    obtain ⟨call, hcall⟩ := Option.ne_none_iff_exists'.1 hne
    obtain ⟨call', hcall', -⟩ := hgrow.calls c call hcall
    rw [hc] at hcall'
    cases hcall'

theorem Grows.refl (s : State) : Grows s s :=
  ⟨fun _ call hc => ⟨call, hc, rfl, fun _ hr => hr⟩, fun _ load hl => ⟨load, hl, rfl, fun _ hr => hr⟩,
    fun _ list hlist => ⟨list, hlist, rfl⟩, List.prefix_refl s.log⟩

/-- Growth over two steps: what was settled is settled as it was, and the log is longer. -/
theorem Grows.trans {u : State} (h : Grows s t) (h' : Grows t u) : Grows s u := by
  refine ⟨?_, ?_, ?_, h.log.trans h'.log⟩
  · intro c call hc
    obtain ⟨call', hc', htarget, hr⟩ := h.calls c call hc
    obtain ⟨call'', hc'', htarget', hr'⟩ := h'.calls c call' hc'
    exact ⟨call'', hc'', htarget'.trans htarget, fun r hsettled => hr' r (hr r hsettled)⟩
  · intro l load hl
    obtain ⟨load', hl', htarget, hr⟩ := h.loads l load hl
    obtain ⟨load'', hl'', htarget', hr'⟩ := h'.loads l load' hl'
    exact ⟨load'', hl'', htarget'.trans htarget, fun r hresult => hr' r (hr r hresult)⟩
  · intro i list hlist
    obtain ⟨list', hlist', hquery⟩ := h.lists i list hlist
    obtain ⟨list'', hlist'', hquery'⟩ := h'.lists i list' hlist'
    exact ⟨list'', hlist'', hquery'.trans hquery⟩

theorem Kept.trans {u : State} (h : Kept s t) (h' : Kept t u) : Kept s u :=
  ⟨h'.flights, h.grows.trans h'.grows⟩

/-- Growth when nothing of the calls, the loads, the lists and the log has changed. The store,
the clock, the writes and the entries are not looked at. -/
theorem grows_of_same (hcalls : t.calls = s.calls) (hloads : t.loads = s.loads)
    (hlists : t.lists = s.lists) (hlog : t.log = s.log) : Grows s t := by
  refine ⟨?_, ?_, ?_, hlog ▸ List.prefix_refl s.log⟩
  · exact fun c call hc => ⟨call, hcalls ▸ hc, rfl, fun _ hr => hr⟩
  · exact fun l load hl => ⟨load, hloads ▸ hl, rfl, fun _ hr => hr⟩
  · exact fun i list hlist => ⟨list, hlists ▸ hlist, rfl⟩

theorem grows_note (s : State) (event : Event) : Grows s (s.note event) := by
  refine ⟨?_, ?_, ?_, List.prefix_append s.log [event]⟩
  · exact fun c call hc => ⟨call, hc, rfl, fun _ hr => hr⟩
  · exact fun l load hl => ⟨load, hl, rfl, fun _ hr => hr⟩
  · exact fun i list hlist => ⟨list, hlist, rfl⟩

/-- A call that is not through goes on, for the same target. -/
theorem grows_setCall (phase : Phase)
    (hc : ∀ call, s.calls c = some call → call.target = target ∧ ¬ call.done) :
    Grows s (s.setCall c target phase) := by
  refine ⟨?_, fun l load hl => ⟨load, hl, rfl, fun _ hr => hr⟩, fun i list hlist => ⟨list, hlist, rfl⟩,
    List.prefix_refl s.log⟩
  intro c' call hc'
  by_cases h : c' = c
  · rw [h] at hc' ⊢
    exact ⟨_, Function.update_self _ _ _, (hc call hc').1.symm,
      fun r hr => absurd ⟨r, hr⟩ (hc call hc').2⟩
  · exact ⟨call, by rw [setCall_calls, Function.update_of_ne h, hc'], rfl, fun _ hr => hr⟩

/-- A load goes on, for the same target, and keeps the result that it has had. -/
theorem grows_of_load {new : Load} (hcalls : t.calls = s.calls) (hlists : t.lists = s.lists)
    (hlog : t.log = s.log) (hloads : t.loads = Function.update s.loads l (some new))
    (hl : ∀ load, s.loads l = some load → new.target = load.target ∧
      ∀ r, load.result? = some r → new.result? = some r) : Grows s t := by
  refine ⟨fun c call hc => ⟨call, hcalls ▸ hc, rfl, fun _ hr => hr⟩, ?_,
    fun i list hlist => ⟨list, hlists ▸ hlist, rfl⟩, hlog ▸ List.prefix_refl s.log⟩
  intro l' load hl'
  rw [hloads]
  by_cases h : l' = l
  · rw [h] at hl' ⊢
    exact ⟨new, Function.update_self _ _ _, hl load hl'⟩
  · exact ⟨load, by rw [Function.update_of_ne h, hl'], rfl, fun _ hr => hr⟩

/-! ## The log -/

theorem loadsOf_found (c c' : CallId) (cached : Json) (log : List Event) :
    loadsOf c (log ++ [Event.found c' cached]) = loadsOf c log := by
  simp [loadsOf]

theorem loadsOf_waits_self (c l : CallId) (log : List Event) :
    loadsOf c (log ++ [Event.waits c l]) = loadsOf c log ++ [l] := by
  simp [loadsOf]

theorem loadsOf_waits_ne {c c' : CallId} (h : c' ≠ c) (l : CallId) (log : List Event) :
    loadsOf c (log ++ [Event.waits c' l]) = loadsOf c log := by
  simp [loadsOf, h]

/-! ## What each change keeps -/

/-- What is found after an update is the new value at the place of the update, or the old one
elsewhere. -/
theorem update_eq_some {α β : Type*} [DecidableEq α] {f : α → Option β} {x y : α} {v : Option β}
    {b : β} (h : Function.update f x v y = some b) : (y = x ∧ v = some b) ∨ (y ≠ x ∧ f y = some b) := by
  by_cases hxy : y = x
  · rw [hxy, Function.update_self] at h
    exact Or.inl ⟨hxy, h⟩
  · rw [Function.update_of_ne hxy] at h
    exact Or.inr ⟨hxy, h⟩

/-- A call that neither waits nor is through has started no load, so a load may be named after
it. -/
theorem Flights.loads_none (h : Flights s) {phase : Phase} (hc : s.calls c = some ⟨target, phase⟩)
    (hphase : (∃ cached, phase = Phase.looked cached) ∨ phase = Phase.reading) :
    s.loads c = none := by
  rw [Option.eq_none_iff_forall_ne_some]
  intro load hl
  obtain ⟨call, hcall, -, hled⟩ := (h.loads c load hl).led
  rw [hc] at hcall
  cases hcall
  -- The call that started a load waits for it or is through.
  rcases hphase with ⟨cached, rfl⟩ | rfl <;> rcases hled with hw | ⟨⟨r, hr⟩, -⟩
  · cases hw
  · cases hr
  · cases hw
  · cases hr

/-- Without a call there is no load of its own. -/
theorem Flights.loads_none_of_calls (h : Flights s) (hc : s.calls c = none) : s.loads c = none := by
  rw [Option.eq_none_iff_forall_ne_some]
  intro load hl
  obtain ⟨call, hcall, -⟩ := (h.loads c load hl).led
  rw [hc] at hcall
  cases hcall

/-- A new call starts with its lookup. It is a request's own call, or the inner one of a load
or of a list that is there. -/
theorem Flights.newCall (h : Flights s) (hc : s.calls c = none)
    (howner : ∀ c', c = CallId.inner c' → Owned s c' target)
    (hlist : ∀ i, c = CallId.request i → s.lists i = none) :
    Kept s (s.setCall c target Phase.reading) := by
  have hgrow : Grows s (s.setCall c target Phase.reading) := by
    apply grows_setCall
    intro call hcall
    rw [hc] at hcall
    cases hcall
  refine h.next hgrow h.tracks ?_ ?_ ?_ fun _ _ => rfl
  · intro c' call hc'
    rcases update_eq_some hc' with ⟨rfl, hnew⟩ | ⟨-, hold⟩
    · cases hnew
      refine Or.inr ⟨?_, fun c'' hc'' => (howner c'' hc'').mono hgrow, h.fresh c' hc⟩
      rintro l ⟨⟩
    · exact Or.inl ⟨hold, rfl⟩
  · intro l load hl
    refine Or.inl ⟨hl, Function.update_of_ne ?_ _ _⟩
    rintro rfl
    rw [setCall_loads, h.loads_none_of_calls hc] at hl
    cases hl
  · intro i list hi
    rw [setCall_calls, Function.update_of_ne]
    · exact h.lists i list hi
    · intro hci
      rw [setCall_lists, hlist i hci.symm] at hi
      cases hi

/-- A call goes on from `phase` to `phase'`, and possibly with it a load. What has to be shown
is that it waits for a load of its own target, that the log tells of it, and that the loads
are right. -/
theorem Flights.moveCall (h : Flights s) {phase phase' : Phase} (hc : s.calls c = some ⟨target, phase⟩)
    (hgrow : Grows s t) (htracks : Tracks t.entries (openKey t))
    (hcalls : t.calls = Function.update s.calls c (some ⟨target, phase'⟩))
    (hlists : t.lists = s.lists) (hother : ∀ c', c' ≠ c → loadsOf c' t.log = loadsOf c' s.log)
    (hwaits : ∀ l, phase' = Phase.waiting l → ∃ load, t.loads l = some load ∧ load.target = target)
    (htold : Told t c ⟨target, phase'⟩)
    (hloads : ∀ l load, t.loads l = some load →
      (s.loads l = some load ∧ l ≠ c) ∨ LoadOk t l load) : Kept s t := by
  refine h.next hgrow htracks ?_ ?_ ?_ ?_
  · intro c' call hc'
    rw [hcalls] at hc'
    rcases update_eq_some hc' with ⟨rfl, hnew⟩ | ⟨hne, hold⟩
    · cases hnew
      exact Or.inr ⟨hwaits, fun c'' hc'' => ((h.calls c' _ hc).owner c'' hc'').mono hgrow, htold⟩
    · exact Or.inl ⟨hold, hother c' hne⟩
  · intro l load hl
    rcases hloads l load hl with ⟨hs, hne⟩ | hok
    · exact Or.inl ⟨hs, by rw [hcalls, Function.update_of_ne hne]⟩
    · exact Or.inr hok
  · intro i list hi
    rw [hlists] at hi
    rw [hcalls, Function.update_of_ne]
    · exact h.lists i list hi
    · -- Call `i` is not that of a list, which has only an inner call.
      rintro rfl
      rw [h.lists i list hi] at hc
      cases hc
  · intro c' hc'
    apply hother
    rintro rfl
    rw [hcalls, Function.update_self] at hc'
    cases hc'

/-- A call goes on and leaves the loads alone: the growth and the entries come for free, since
a call before its load has none of its own. -/
theorem Flights.moveCall_of_loads (h : Flights s) {phase phase' : Phase}
    (hc : s.calls c = some ⟨target, phase⟩)
    (hphase : (∃ cached, phase = Phase.looked cached) ∨ phase = Phase.reading)
    (hcalls : t.calls = Function.update s.calls c (some ⟨target, phase'⟩))
    (hloads : t.loads = s.loads) (hlists : t.lists = s.lists) (hentries : t.entries = s.entries)
    (hlog : s.log <+: t.log) (hother : ∀ c', c' ≠ c → loadsOf c' t.log = loadsOf c' s.log)
    (hwaits : ∀ l, phase' = Phase.waiting l → ∃ load, t.loads l = some load ∧ load.target = target)
    (htold : Told t c ⟨target, phase'⟩) : Kept s t := by
  have hopen : openKey t = openKey s := by
    unfold openKey
    rw [hloads]
  have hgrow : Grows s t := by
    refine ⟨?_, fun l load hl => ⟨load, hloads ▸ hl, rfl, fun _ hr => hr⟩,
      fun i list hlist => ⟨list, hlists ▸ hlist, rfl⟩, hlog⟩
    intro c' call hc'
    rw [hcalls]
    by_cases hne : c' = c
    · rw [hne, hc] at hc'
      cases hc'
      rw [hne]
      refine ⟨_, Function.update_self _ _ _, rfl, ?_⟩
      rintro r rfl
      -- It has not settled before the step.
      rcases hphase with ⟨cached, ⟨⟩⟩ | ⟨⟨⟩⟩
    · exact ⟨call, by rw [Function.update_of_ne hne, hc'], rfl, fun _ hr => hr⟩
  refine h.moveCall hc hgrow ?_ hcalls hlists hother hwaits htold ?_
  · rw [hentries, hopen]
    exact h.tracks
  · intro l load hl
    rw [hloads] at hl
    refine Or.inl ⟨hl, ?_⟩
    rintro rfl
    rw [h.loads_none hc hphase] at hl
    cases hl

/-- A lookup is answered, with a value, with `null`, or, for a failed one, by its `catch` with
`null`. -/
theorem Flights.lookup (h : Flights s) (hc : s.calls c = some ⟨target, Phase.reading⟩)
    (cached : Json) : Kept s (s.setCall c target (Phase.looked cached)) :=
  h.moveCall_of_loads hc (Or.inr rfl) rfl rfl rfl rfl (List.prefix_refl _) (fun _ _ => rfl)
    (by rintro l ⟨⟩) (h.calls c _ hc).told

/-- A call settles with what it found in the cache, and has waited for no load. -/
theorem Flights.found (h : Flights s) {cached : Json}
    (hc : s.calls c = some ⟨target, Phase.looked cached⟩) (husable : usable target cached = true) :
    Kept s ((s.note (Event.found c cached)).setCall c target
      (Phase.settled (Except.ok (Value.parsed cached)))) := by
  refine h.moveCall_of_loads hc (Or.inl ⟨cached, rfl⟩) rfl rfl rfl rfl (List.prefix_append _ _)
    (fun c' _ => loadsOf_found c' c cached s.log) (by rintro l ⟨⟩) (Or.inl ⟨cached, ?_, husable, ?_, rfl⟩)
  · exact List.mem_append_right _ (List.mem_singleton_self _)
  · exact (loadsOf_found c c cached s.log).trans (h.calls c _ hc).told

/-- A call joins the load of its key. The entry is an open load by the invariant, and for the
target of the call, as a key has only one target. -/
theorem Flights.joins (h : Flights s) {cached : Json} {load : CallId}
    (hc : s.calls c = some ⟨target, Phase.looked cached⟩)
    (hload : (loadKey target).bind s.entries = some load) :
    Kept s (s.wait c target load) := by
  refine h.moveCall_of_loads hc (Or.inl ⟨cached, rfl⟩) rfl rfl rfl rfl (List.prefix_append _ _)
    (fun c' hne => loadsOf_waits_ne hne.symm load s.log) ?_ ?_
  · rintro l ⟨⟩
    -- The entry is that of an open load under the key, which is one for the target.
    obtain ⟨key, hkey, hentry⟩ := Option.bind_eq_some_iff.1 hload
    obtain ⟨opened, hl, hopen⟩ := Option.bind_eq_some_iff.1 ((h.tracks key load).1 hentry)
    refine ⟨opened, hl, loadKey_inj ?_ hkey⟩
    unfold Load.openKey at hopen
    split at hopen
    · cases hopen
    · exact hopen
  · have htold : loadsOf c s.log = [] := (h.calls c _ hc).told
    show loadsOf c (s.log ++ [Event.waits c load]) = [load]
    rw [loadsOf_waits_self, htold, List.nil_append]

/-- A call starts a load under its own name. No load has that name, since the call has only
looked into the cache so far. -/
theorem Flights.lead (h : Flights s) {cached : Json}
    (hc : s.calls c = some ⟨target, Phase.looked cached⟩)
    (hload : (loadKey target).bind s.entries = none) : Kept s (s.lead c target) := by
  have hnone := h.loads_none hc (Or.inl ⟨cached, rfl⟩)
  have hgrow : Grows s (s.lead c target) := by
    have hload : Grows s ((s.setEntry target (some c)).setLoad c target (firstPhase target)) := by
      have hloads : ((s.setEntry target (some c)).setLoad c target (firstPhase target)).loads =
          Function.update s.loads c (some ⟨target, firstPhase target⟩) := by
        rw [setLoad_loads, setEntry_loads]
      refine grows_of_load (setEntry_calls _ _ _) (setEntry_lists _ _ _) (setEntry_log _ _ _)
        hloads ?_
      intro load hl
      rw [hnone] at hl
      cases hl
    -- The load, its event, and the call that goes on to wait.
    refine (hload.trans (grows_note _ _)).trans (grows_setCall _ ?_)
    intro call hcall
    rw [note_calls, setLoad_calls, setEntry_calls, hc] at hcall
    cases hcall
    exact ⟨rfl, by rintro ⟨r, ⟨⟩⟩⟩
  refine h.moveCall hc hgrow (tracks_lead h.tracks hnone hload) (lead_calls s c target)
    (lead_lists s c target) ?_ ?_ ?_ ?_
  · intro c' hne
    rw [lead_log]
    exact loadsOf_waits_ne hne.symm c s.log
  · rintro l ⟨⟩
    exact ⟨_, by rw [lead_loads, Function.update_self], rfl⟩
  · have htold : loadsOf c s.log = [] := (h.calls c _ hc).told
    show loadsOf c (s.lead c target).log = [c]
    rw [lead_log, loadsOf_waits_self, htold, List.nil_append]
  · intro l load hl
    rw [lead_loads] at hl
    rcases update_eq_some hl with ⟨rfl, hnew⟩ | ⟨hne, hold⟩
    · cases hnew
      refine Or.inr ⟨⟨_, by rw [lead_calls, Function.update_self], rfl, Or.inl rfl⟩, ?_, ?_⟩
      · rintro - ⟨r, hr⟩
        cases target <;> cases hr
      · rintro id limit rfl hphase
        exact absurd rfl hphase
    · exact Or.inl ⟨hold, hne⟩

/-- A call starts a load, and a load of related articles makes its call for the article at
once. -/
theorem Flights.start (h : Flights s) {cached : Json}
    (hc : s.calls c = some ⟨target, Phase.looked cached⟩)
    (hload : (loadKey target).bind s.entries = none) : Kept s (s.start c target) := by
  have hlead := h.lead hc hload
  cases target with
  | related id limit =>
    refine hlead.trans (hlead.flights.newCall ?_ ?_ ?_)
    · -- an inner call would have an owner, and the load of the owner is new
      rw [lead_calls, Function.update_of_ne (by intro hci; exact absurd (congrArg sizeOf hci) (by simp))]
      rw [Option.eq_none_iff_forall_ne_some]
      intro call hcall
      rcases (h.calls _ call hcall).owner c rfl with ⟨i, list, rfl, hlist, -⟩ | ⟨load, id, limit, hl, -⟩
      · rw [h.lists i list hlist] at hc
        cases hc
      · rw [h.loads_none hc (Or.inl ⟨cached, rfl⟩)] at hl
        cases hl
    · rintro c' hc'
      cases hc'
      exact Or.inr ⟨_, id, limit, by rw [lead_loads, Function.update_self], rfl, rfl⟩
    · rintro i ⟨⟩
  | sources => exact hlead
  | detail id => exact hlead
  | listCount source isNew => exact hlead

/-- A load that is not done goes on from `phase` to `phase'`, and no call moves. Its result,
if those who wait have one already, stays the same. -/
theorem Flights.moveLoad (h : Flights s) {phase phase' : LoadPhase}
    (hl : s.loads l = some ⟨target, phase⟩)
    (hwaiting : ∃ call, s.calls l = some call ∧ call.phase = Phase.waiting l)
    (hcalls : t.calls = s.calls) (hlists : t.lists = s.lists) (hlog : t.log = s.log)
    (hloads : t.loads = Function.update s.loads l (some ⟨target, phase'⟩))
    (htracks : Tracks t.entries (openKey t))
    (hresult : ∀ r, Load.result? ⟨target, phase⟩ = some r → Load.result? ⟨target, phase'⟩ = some r)
    (hcleanup : cleansUpInCall target = true → ∀ r, phase' ≠ LoadPhase.finished r)
    (harticle : phase = LoadPhase.article →
      ∃ call, s.calls (CallId.inner l) = some call ∧ call.done) : Kept s t := by
  have hgrow : Grows s t := by
    refine grows_of_load hcalls hlists hlog hloads ?_
    intro load hload
    rw [hl] at hload
    cases hload
    exact ⟨rfl, hresult⟩
  -- calls, lists and log stay, so only the clause of the moved load needs an argument
  refine h.next hgrow htracks ?_ ?_ ?_ ?_
  · intro c call hc
    exact Or.inl ⟨hcalls ▸ hc, by rw [hlog]⟩
  · intro l' load hl'
    rw [hloads] at hl'
    rcases update_eq_some hl' with ⟨rfl, hnew⟩ | ⟨-, hold⟩
    · cases hnew
      obtain ⟨call, hcall, hphase⟩ := hwaiting
      obtain ⟨call', hcall', htarget, -⟩ := (h.loads l' _ hl).led
      rw [hcall] at hcall'
      cases hcall'
      refine Or.inr ⟨⟨call, hcalls ▸ hcall, htarget, Or.inl hphase⟩, ?_, ?_⟩
      · rintro hown ⟨r, hr⟩
        exact absurd hr (hcleanup hown r)
      · intro id limit hrelated _
        rw [hcalls]
        -- The article is there: by this step, or since before.
        by_cases hbefore : phase = LoadPhase.article
        · exact harticle hbefore
        · exact (h.loads l' _ hl).article id limit hrelated hbefore
    · exact Or.inl ⟨hold, by rw [hcalls]⟩
  · intro i list hi
    rw [hcalls]
    exact h.lists i list (hlists ▸ hi)
  · intro c _
    rw [hlog]

/-- The call of a load that is not done waits for it: it cannot be through before its load. -/
theorem Flights.waiting (h : Flights s) {load : Load} (hl : s.loads l = some load)
    (hphase : ¬ load.done) : ∃ call, s.calls l = some call ∧ call.phase = Phase.waiting l := by
  obtain ⟨call, hcall, -, hw | ⟨-, hdone⟩⟩ := (h.loads l load hl).led
  · exact ⟨call, hcall, hw⟩
  · exact absurd hdone hphase

/-- A query is answered, by its rows or by an error. -/
theorem Flights.query (h : Flights s) {q : Query}
    (hl : s.loads l = some ⟨target, LoadPhase.querying q⟩) (answer : Option Answer) :
    Kept s (s.setLoad l target (LoadPhase.answered answer)) := by
  refine h.moveLoad hl (h.waiting hl (by rintro ⟨r, ⟨⟩⟩)) rfl rfl rfl rfl
    (tracks_setLoad h.tracks hl rfl) ?_ ?_ ?_
  · rintro r ⟨⟩
  · rintro - r ⟨⟩
  · rintro ⟨⟩

/-- A load of a function of its own ends, as `loadDetail` and `loadRelated` do: it writes,
deletes its entry, and then those that wait go on. -/
theorem Flights.finish (h : Flights s) {phase : LoadPhase}
    (hl : s.loads l = some ⟨target, phase⟩) (hphase : ∀ r, phase ≠ LoadPhase.finished r)
    (hown : cleansUpInCall target = false)
    (harticle : phase = LoadPhase.article →
      ∃ call, s.calls (CallId.inner l) = some call ∧ call.done) (result : Result) :
    Kept s (s.finish l target result) := by
  have hopen : Load.openKey ⟨target, phase⟩ = loadKey target := by
    cases phase with
    | finished r => exact absurd rfl (hphase r)
    | _ => rfl
  refine h.moveLoad hl (h.waiting hl ?_) (finish_calls _ _ _ _) (finish_lists _ _ _ _)
    (finish_log _ _ _ _) (finish_loads _ _ _ _) (tracks_finish h.tracks hl hopen result) ?_ ?_ harticle
  · rintro ⟨r, hr⟩
    exact hphase r hr
  · intro r hr
    cases phase with
    | finished r => exact absurd rfl (hphase r)
    -- Nobody is given the answer before the cleanup.
    | answered answer =>
      rw [Load.result?] at hr
      simp only [hown] at hr
      cases hr
    | article => cases hr
    | querying q => cases hr
  · intro hown'
    rw [hown] at hown'
    cases hown'

/-- A load of related articles has the article, or the error of its inner call. -/
theorem Flights.article (h : Flights s) {id limit : Binary64} {result : Result}
    (hl : s.loads l = some ⟨Target.related id limit, LoadPhase.article⟩)
    (hresult : s.callResult (CallId.inner l) = some result) :
    Kept s (afterArticle s l id limit result) := by
  have hinner : ∃ call, s.calls (CallId.inner l) = some call ∧ call.done := by
    obtain ⟨call, hcall, hphase⟩ := callResult_eq_some hresult
    exact ⟨call, hcall, result, hphase⟩
  rcases afterArticle_cases s l id limit result with ⟨r, heq⟩ | ⟨query, heq⟩
  · rw [heq]
    exact h.finish hl (by rintro r ⟨⟩) rfl (fun _ => hinner) r
  · -- The article has a vector, for the last query.
    rw [heq]
    refine h.moveLoad hl (h.waiting hl (by rintro ⟨r, ⟨⟩⟩)) rfl rfl rfl rfl
      (tracks_setLoad h.tracks hl rfl) ?_ ?_ fun _ => hinner
    · rintro r ⟨⟩
    · rintro - r ⟨⟩

/-- The call that started a load of the count or of the sources cleans up after it and
settles. -/
theorem afterLoad_own (s : State) {result : Result} (hown : cleansUpInCall target = true) :
    afterLoad s l target l result =
      (s.finish l target result).setCall l target (Phase.settled (settles target result)) := by
  unfold afterLoad
  rw [if_pos ⟨hown, rfl⟩]

theorem afterLoad_other (s : State) {result : Result}
    (hown : ¬ (cleansUpInCall target = true ∧ l = c)) :
    afterLoad s c target l result =
      s.setCall c target (Phase.settled (settles target result)) := by
  unfold afterLoad
  rw [if_neg hown]

theorem Flights.waits_target (h : Flights s) {load : Load}
    (hc : s.calls c = some ⟨target, Phase.waiting l⟩) (hl : s.loads l = some load) :
    load.target = target := by
  obtain ⟨load', hl', htarget⟩ := (h.calls c _ hc).waits l rfl
  rw [hl] at hl'
  cases hl'
  exact htarget

theorem not_done_of_waiting (hc : s.calls c = some ⟨target, Phase.waiting l⟩) :
    ∀ call, s.calls c = some call → call.target = target ∧ ¬ call.done := by
  intro call hcall
  rw [hc] at hcall
  cases hcall
  exact ⟨rfl, by rintro ⟨r, ⟨⟩⟩⟩

/-- A call settles and cleans up after its load, in one continuation. Others may have joined
the load; they keep waiting for it, and it has its result for them. -/
theorem Flights.endsOwn (h : Flights s) {load : Load} {result : Result}
    (hown : cleansUpInCall target = true) (hc : s.calls l = some ⟨target, Phase.waiting l⟩)
    (hl : s.loads l = some load) (hresult : load.result? = some result) :
    Kept s ((s.finish l target result).setCall l target
      (Phase.settled (settles target result))) := by
  have htarget := h.waits_target hc hl
  have htold : loadsOf l s.log = [l] := (h.calls l _ hc).told
  -- The load is not done, since that happens with this very step.
  have hphase : ∀ r, load.phase ≠ LoadPhase.finished r := by
    intro r hr
    obtain ⟨call, hcall, hdone⟩ := (h.loads l load hl).cleanup (htarget ▸ hown) ⟨r, hr⟩
    exact (not_done_of_waiting hc call hcall).2 hdone
  have hl' : s.loads l = some ⟨target, load.phase⟩ := by
    rw [hl, ← htarget]
  have hopen : Load.openKey ⟨target, load.phase⟩ = loadKey target := by
    unfold Load.openKey
    split
    · exact absurd ‹_› (hphase _)
    · rfl
  have hgrow : Grows s ((s.finish l target result).setCall l target
      (Phase.settled (settles target result))) := by
    refine Grows.trans ?_ (grows_setCall _ ?_)
    · refine grows_of_load (finish_calls _ _ _ _) (finish_lists _ _ _ _) (finish_log _ _ _ _)
        (finish_loads _ _ _ _) ?_
      intro load' hload'
      rw [hl] at hload'
      cases hload'
      exact ⟨htarget.symm, fun r hr => hresult.symm.trans hr⟩
    · rw [finish_calls]
      exact not_done_of_waiting hc
  have hcall : ((s.finish l target result).setCall l target
      (Phase.settled (settles target result))).calls l =
        some ⟨target, Phase.settled (settles target result)⟩ := Function.update_self _ _ _
  refine h.moveCall hc hgrow (tracks_finish h.tracks hl' hopen result)
    (by rw [setCall_calls, finish_calls]) (by rw [setCall_lists, finish_lists]) ?_
    (by rintro l ⟨⟩) ?_ ?_
  · intro c' _
    rw [setCall_log, finish_log]
  · refine Or.inr ⟨l, ⟨target, LoadPhase.finished result⟩, result, ?_, ?_, rfl, rfl, rfl⟩
    · rw [setCall_log, finish_log]
      exact htold
    · rw [setCall_loads, finish_loads, Function.update_self]
  · intro l' load' hload'
    rw [setCall_loads, finish_loads] at hload'
    rcases update_eq_some hload' with ⟨rfl, hnew⟩ | ⟨hne, hold⟩
    · cases hnew
      refine Or.inr ⟨⟨_, hcall, rfl, Or.inr ⟨⟨_, rfl⟩, ⟨_, rfl⟩⟩⟩, fun _ _ => ⟨_, hcall, _, rfl⟩, ?_⟩
      rintro id limit rfl
      cases hown
    · exact Or.inl ⟨hold, hne⟩

/-- A load that has a result and is not its call's to clean up is done: `loadDetail` and
`loadRelated` settle after their `finally`. -/
theorem done_of_result {load : Load} {result : Result} (hown : cleansUpInCall load.target = false)
    (hresult : load.result? = some result) : load.done := by
  unfold Load.result? at hresult
  split at hresult
  · exact ⟨_, ‹_›⟩
  · rw [hown] at hresult
    cases hresult
  · cases hresult

/-- A call settles, and the load has cleaned up after itself or is another call's. -/
theorem Flights.endsOther (h : Flights s) {load : Load} {result : Result}
    (hown : ¬ (cleansUpInCall target = true ∧ l = c))
    (hc : s.calls c = some ⟨target, Phase.waiting l⟩) (hl : s.loads l = some load)
    (hresult : load.result? = some result) :
    Kept s (s.setCall c target (Phase.settled (settles target result))) := by
  have htarget := h.waits_target hc hl
  have htold : loadsOf c s.log = [l] := (h.calls c _ hc).told
  refine h.moveCall hc (grows_setCall _ (not_done_of_waiting hc)) h.tracks rfl rfl (fun _ _ => rfl)
    (by rintro l ⟨⟩) (Or.inr ⟨l, load, result, htold, hl, htarget, hresult, rfl⟩) ?_
  intro l' load' hl'
  by_cases hne : l' = c
  · -- a load of this call is the one that it waits for, and is done
    subst hne
    obtain ⟨call, hcall, -, hled⟩ := (h.loads l' load' hl').led
    rw [hc] at hcall
    cases hcall
    rcases hled with hw | ⟨hdone, -⟩
    · cases hw
      rw [setCall_loads, hl] at hl'
      cases hl'
      -- so it is a load that ends by itself, and has ended
      have hown' : cleansUpInCall target = false := by
        by_contra hne
        exact hown ⟨by simpa using hne, rfl⟩
      have hdone : load.done := done_of_result (htarget.symm ▸ hown') hresult
      have hcall : (s.setCall l target (Phase.settled (settles target result))).calls l =
          some ⟨target, Phase.settled (settles target result)⟩ := Function.update_self _ _ _
      refine Or.inr ⟨⟨_, hcall, htarget.symm, Or.inr ⟨⟨_, rfl⟩, hdone⟩⟩,
        fun _ _ => ⟨_, hcall, _, rfl⟩, ?_⟩
      intro id limit hrelated hphase
      obtain ⟨call, hinner, r, hr⟩ := (h.loads l load hl).article id limit hrelated hphase
      refine ⟨call, ?_, r, hr⟩
      rw [setCall_calls, Function.update_of_ne]
      · exact hinner
      · intro hci
        exact absurd (congrArg sizeOf hci) (by simp)
    · exact absurd hdone (not_done_of_waiting hc _ hc).2
  · exact Or.inl ⟨hl', hne⟩

/-- A call settles with what its load came to, whoever cleans up. -/
theorem Flights.ends (h : Flights s) {load : Load} {result : Result}
    (hc : s.calls c = some ⟨target, Phase.waiting l⟩) (hl : s.loads l = some load)
    (hresult : load.result? = some result) : Kept s (afterLoad s c target l result) := by
  by_cases hown : cleansUpInCall target = true ∧ l = c
  · obtain ⟨hown, rfl⟩ := hown
    rw [afterLoad_own s hown]
    exact h.endsOwn hown hc hl hresult
  · rw [afterLoad_other s hown]
    exact h.endsOther hown hc hl hresult

/-- The inner call of a load of related articles is for its article, the one that the related
ones are looked for. -/
theorem Flights.inner_target (hf : Flights s) {id limit : Binary64} {phase : LoadPhase} {call : Call}
    (hl : s.loads l = some ⟨Target.related id limit, phase⟩)
    (hc : s.calls (CallId.inner l) = some call) : call.target = Target.detail id := by
  rcases (hf.calls _ call hc).owner l rfl with ⟨i, list, rfl, hlist, -⟩ |
      ⟨load, id', limit', hl', hrelated, htarget⟩
  · rw [hf.loads_none_of_calls (hf.lists i list hlist)] at hl
    cases hl
  · rw [hl] at hl'
    cases hl'
    cases hrelated
    exact htarget

/-! ## Steps and runs -/

/-- Lists are only added and moved on, never replaced by one of another request. -/
theorem Flights.setList (h : Flights s) {i : ℕ} {list : ListCall}
    (hcall : s.calls (CallId.request i) = none)
    (hquery : ∀ list', s.lists i = some list' → list.query = list'.query) :
    Kept s { s with lists := Function.update s.lists i (some list) } := by
  have hgrow : Grows s { s with lists := Function.update s.lists i (some list) } := by
    refine ⟨fun c call hc => ⟨call, hc, rfl, fun _ hr => hr⟩,
      fun l load hl => ⟨load, hl, rfl, fun _ hr => hr⟩, ?_, List.prefix_refl _⟩
    intro j list' hj
    by_cases hij : j = i
    · rw [hij] at hj ⊢
      exact ⟨list, Function.update_self _ _ _, hquery list' hj⟩
    · exact ⟨list', (Function.update_of_ne hij _ _).trans hj, rfl⟩
  refine h.next hgrow h.tracks (fun c call hc => Or.inl ⟨hc, rfl⟩)
    (fun l load hl => Or.inl ⟨hl, rfl⟩) ?_ fun _ _ => rfl
  intro j list' hj
  rcases update_eq_some hj with ⟨rfl, -⟩ | ⟨-, hold⟩
  · exact hcall
  · exact h.lists j list' hold

/-- A new request: one call, or the list with its call for the count. -/
theorem Flights.open (h : Flights s) {i : ℕ} (r : Request)
    (hcall : s.calls (CallId.request i) = none) (hlist : s.lists i = none) :
    Kept s (s.open i r) := by
  have hnew : ∀ target, Kept s (s.setCall (CallId.request i) target Phase.reading) := by
    intro target
    refine h.newCall hcall (by rintro c' ⟨⟩) ?_
    rintro j ⟨⟩
    exact hlist
  cases r with
  | listTrends query =>
    have hadded : Kept s { s with lists := Function.update s.lists i (some ⟨query, none, none⟩) } := by
      refine h.setList hcall ?_
      intro list hl
      rw [hlist] at hl
      cases hl
    refine hadded.trans (hadded.flights.newCall ?_ ?_ (by rintro j ⟨⟩))
    · -- an inner call would have an owner, and the request is new
      rw [Option.eq_none_iff_forall_ne_some]
      intro call hc
      rcases (h.calls _ call hc).owner _ rfl with ⟨j, list, hj, hl, -⟩ | ⟨load, id, limit, hl, -⟩
      · cases hj
        rw [hlist] at hl
        cases hl
      · rw [h.loads_none_of_calls hcall] at hl
        cases hl
    · rintro c' hc'
      cases hc'
      exact Or.inl ⟨i, _, rfl, Function.update_self _ _ _, rfl⟩
  | getUniqueSources => exact hnew _
  | getTrendById id => exact hnew _
  | getRelatedTrends id limit => exact hnew _

/-- Writes, expiry, other parties and time change what the invariant does not speak of. -/
theorem Flights.of_same (h : Flights s) (hcalls : t.calls = s.calls) (hloads : t.loads = s.loads)
    (hlists : t.lists = s.lists) (hlog : t.log = s.log) (hentries : t.entries = s.entries) :
    Kept s t := by
  refine h.next (grows_of_same hcalls hloads hlists hlog) ?_ ?_ ?_ ?_ fun c _ => by rw [hlog]
  · rw [hentries]
    unfold openKey
    rw [hloads]
    exact h.tracks
  · exact fun c call hc => Or.inl ⟨hcalls ▸ hc, by rw [hlog]⟩
  · exact fun l load hl => Or.inl ⟨hloads ▸ hl, by rw [hcalls]⟩
  · intro i list hi
    rw [hcalls]
    exact h.lists i list (hlists ▸ hi)

/-- **Step.** Every step keeps the invariant, by cases on the moves. -/
theorem flights_step (h : Flights s) (hstep : step cfg s a = some t) : Kept s t := by
  cases step_moves hstep with
  | request hcall hlist => exact h.open _ hcall hlist
  | lookup hc => exact h.lookup hc _
  | found hc husable => exact h.found hc husable
  | joins hc _ hload => exact h.joins hc hload
  | starts hc _ hload => exact h.start hc hload
  | ends hc hl hresult => exact h.ends hc hl hresult
  | query hl _ => exact h.query hl _
  | loaded hl hown => exact h.finish hl (by rintro r ⟨⟩) hown (by rintro ⟨⟩) _
  | article hl hresult => exact h.article hl hresult
  | rows hlist =>
    refine h.setList (h.lists _ _ hlist) fun list' hl => ?_
    rw [hlist] at hl
    cases hl
    rfl
  | list hlist _ =>
    refine h.setList (h.lists _ _ hlist) fun list' hl => ?_
    rw [hlist] at hl
    cases hl
    rfl
  | write _ => exact h.of_same rfl rfl rfl rfl rfl
  | outside => exact h.of_same rfl rfl rfl rfl rfl
  | tick => exact h.of_same rfl rfl rfl rfl rfl

theorem flights_initial (now : ℕ) (store : Store) : Flights (initial now store) := by
  refine ⟨?_, ?_, ?_, ?_, fun _ _ => rfl⟩
  · intro k l
    exact ⟨fun he => (by cases he), fun he => (by cases he)⟩
  · rintro c call ⟨⟩
  · rintro l load ⟨⟩
  · rintro i list ⟨⟩

/-! ## Lists -/

theorem Grows.callResult (h : Grows s t) {r : Result} (hr : s.callResult c = some r) :
    t.callResult c = some r := by
  obtain ⟨call, hc, hsettled⟩ := callResult_eq_some hr
  obtain ⟨call', hc', -, hr'⟩ := h.calls c call hc
  rw [State.callResult, hc', Option.bind_some, hr' r hsettled]
  rfl

/-- A response given stays the one that is given: `Promise.all` is settled by the first
failure or by both values, and what comes later is not looked at. -/
theorem afterAll_mono {list list' : ListCall} {count count' : Option Result}
    {response : Except HttpError Json} (h : afterAll list count = some response)
    (hcount : ∀ r, count = some r → count' = some r) (hquery : list'.query = list.query)
    (hrows : list.rows = none ∨ list'.rows = list.rows) :
    afterAll list' count' = some response := by
  obtain ⟨query, rows, _⟩ := list
  obtain ⟨query', rows', _⟩ := list'
  simp only at hquery hrows
  subst hquery
  rcases count with _ | (e | v)
  · -- no count yet, so the rows have failed
    rcases hrows with rfl | rfl
    · cases h
    · rcases rows' with _ | (_ | data) <;> simp [afterAll] at h ⊢
      exact h
  · rw [hcount _ rfl]
    rcases rows with _ | (_ | data) <;> simp only [afterAll] at h <;> cases h <;>
      rcases rows' with _ | (_ | data) <;> rfl
  · rw [hcount _ rfl]
    rcases hrows with rfl | rfl
    · cases h
    · exact h

/-- The response of a list is what its rows and its count come to. -/
def Responds (s : State) : Prop :=
  ∀ i list response, s.lists i = some list → list.response = some response →
    afterAll list (s.callResult (CallId.inner (CallId.request i))) = some response

/-- What a step does to a list: nothing, it is new and has made its call for the count, its
rows are answered, or it gets its response. -/
theorem lists_of_moves (hm : Moves cfg s a t) {i : ℕ} {list : ListCall}
    (hi : t.lists i = some list) :
    s.lists i = some list ∨
      (list.response = none ∧ ∃ call, t.calls (CallId.inner (CallId.request i)) = some call) ∨
      (∃ list', s.lists i = some list' ∧ list.query = list'.query ∧ list'.rows = none ∧
        list.response = list'.response) ∨
      ∃ list' response, s.lists i = some list' ∧ list = { list' with response := some response } ∧
        afterAll list' (s.callResult (CallId.inner (CallId.request i))) = some response := by
  cases hm with
  -- only a list request makes a list call, and it starts its inner call with it
  | @request j r hcall hlist =>
    cases r with
    | listTrends query =>
      rcases update_eq_some hi with ⟨rfl, hnew⟩ | ⟨-, hold⟩
      · cases hnew
        exact Or.inr (Or.inl ⟨rfl, _, Function.update_self _ _ _⟩)
      · exact Or.inl hold
    | _ => exact Or.inl hi
  | lookup hc => exact Or.inl hi
  | found hc husable => exact Or.inl hi
  | joins hc husable hload => exact Or.inl hi
  | @starts c target cached hc husable hload =>
    cases target <;> exact Or.inl (by simpa [State.start] using hi)
  | ends hc hl hresult =>
    unfold afterLoad at hi
    split at hi
    · exact Or.inl (by simpa using hi)
    · exact Or.inl hi
  | query hl hfits => exact Or.inl hi
  | loaded hl hown => exact Or.inl (by simpa using hi)
  | @article l id limit result hl hresult =>
    rcases afterArticle_cases s l id limit result with ⟨r, heq⟩ | ⟨query, heq⟩
    · rw [heq, finish_lists] at hi
      exact Or.inl hi
    · rw [heq, setLoad_lists] at hi
      exact Or.inl hi
  -- the two halves of `Promise.all`: the rows arrive, and then both are there
  | rows hlist =>
    rcases update_eq_some hi with ⟨rfl, hnew⟩ | ⟨-, hold⟩
    · cases hnew
      exact Or.inr (Or.inr (Or.inl ⟨_, hlist, rfl, rfl, rfl⟩))
    · exact Or.inl hold
  | list hlist hall =>
    rcases update_eq_some hi with ⟨rfl, hnew⟩ | ⟨-, hold⟩
    · cases hnew
      exact Or.inr (Or.inr (Or.inr ⟨_, _, hlist, rfl, hall⟩))
    · exact Or.inl hold
  | write hw => exact Or.inl hi
  | outside => exact Or.inl hi
  | tick => exact Or.inl hi

/-- A list with a response has got the one that its rows and its count make, in every step. -/
theorem responds_step (h : Responds s) (hm : Moves cfg s a t) (hgrow : Grows s t) : Responds t := by
  intro i list response hi hresponse
  rcases lists_of_moves hm hi with hold | ⟨hnone, -⟩ | ⟨list', hold, hquery, hrows, hsame⟩ |
      ⟨list', response', hold, rfl, hall⟩
  · exact afterAll_mono (h i list response hold hresponse) (fun r hr => hgrow.callResult hr) rfl
      (Or.inr rfl)
  · rw [hnone] at hresponse
    cases hresponse
  · exact afterAll_mono (h i list' response hold (hsame ▸ hresponse))
      (fun r hr => hgrow.callResult hr) hquery (Or.inl hrows)
  · cases hresponse
    exact afterAll_mono hall (fun r hr => hgrow.callResult hr) rfl (Or.inr rfl)

/-! ## Single flight -/

/-- The load is for the key and has not done its cleanup. -/
def Open (s : State) (key : LoadKey) (l : CallId) : Prop :=
  ∃ load, s.loads l = some load ∧ loadKey load.target = some key ∧ ¬ load.done

theorem open_iff {key : LoadKey} : openKey s l = some key ↔ Open s key l := by
  unfold openKey Open
  rw [Option.bind_eq_some_iff]
  refine exists_congr fun load => and_congr_right fun _ => ?_
  unfold Load.openKey Load.done
  split
  · rename_i r hr
    exact ⟨fun h => (by cases h), fun h => absurd ⟨r, hr⟩ h.2⟩
  · rename_i hphase
    exact ⟨fun h => ⟨h, fun ⟨r, hr⟩ => hphase r hr⟩, fun h => h.1⟩

/-- Every request has its response. -/
def AllSettled (s : State) : Prop :=
  (∀ i call, s.calls (CallId.request i) = some call → call.done) ∧
    ∀ i list, s.lists i = some list → list.response ≠ none

/-- Every call of `getListCount` is through. -/
def CountsSettled (s : State) : Prop :=
  ∀ i list call, s.lists i = some list → s.calls (CallId.inner (CallId.request i)) = some call →
    call.done

structure SingleFlight (s : State) : Prop where
  /-- One load at a time for a key. -/
  unique : ∀ key l l', Open s key l → Open s key l' → l = l'
  /-- A key is in its map exactly while its load has not done its cleanup. -/
  entry : ∀ key l, s.entries key = some l ↔ Open s key l
  /-- A call that found nothing in the cache settles with what one load came to. -/
  outcome : ∀ c call result, s.calls c = some call → call.phase = Phase.settled result →
    (∀ cached, Event.found c cached ∉ s.log) →
      ∃ l load loaded, loadsOf c s.log = [l] ∧ s.loads l = some load ∧ load.target = call.target ∧
        load.result? = some loaded ∧ result = settles call.target loaded
  /-- A list settles with the failure of its own rows, or with what the call for its
  count settled with. -/
  response : ∀ i list response, s.lists i = some list → list.response = some response →
    (list.rows = some none ∧ response = Except.error listError) ∨
      ∃ call result, s.calls (CallId.inner (CallId.request i)) = some call ∧
        call.phase = Phase.settled result ∧ afterAll list (some result) = some response
  /-- The maps are empty when the requests and the calls for counts are through. -/
  empty : AllSettled s → CountsSettled s → ∀ key, s.entries key = none

/-- The call that waits for a load of its own, or has one in progress inside it, is
not through; the induction is on the nesting of the calls. -/
theorem Flights.all_done (h : Flights s) (hsettled : AllSettled s) (hcounts : CountsSettled s) :
    ∀ c call, s.calls c = some call → call.done := by
  intro c
  induction c with
  | request i => exact hsettled.1 i
  | inner c ih =>
    intro call hc
    rcases (h.calls _ call hc).owner c rfl with ⟨i, list, rfl, hlist, -⟩ | ⟨load, id, limit, hl, hrelated, -⟩
    · exact hcounts i list call hlist hc
    · have hdone : load.done := by
        by_contra hnot
        obtain ⟨leader, hleader, hwaiting⟩ := h.waiting hl hnot
        obtain ⟨r, hr⟩ := ih leader hleader
        rw [hwaiting] at hr
        cases hr
      obtain ⟨r, hr⟩ := hdone
      obtain ⟨call', hc', hdone⟩ := (h.loads c load hl).article id limit hrelated (by rw [hr]; rintro ⟨⟩)
      rw [hc] at hc'
      cases hc'
      exact hdone

/-- What single flight is for the service, from the invariant and the responses of the lists. -/
theorem Flights.singleFlight (h : Flights s) (hresponds : Responds s) : SingleFlight s := by
  have hentry : ∀ key l, s.entries key = some l ↔ Open s key l :=
    fun key l => (h.tracks key l).trans open_iff
  refine ⟨?_, hentry, ?_, ?_, ?_⟩
  · exact fun key l l' hl hl' => h.tracks.unique (open_iff.2 hl) (open_iff.2 hl')
  · intro c call result hc hphase hnotfound
    have htold := (h.calls c call hc).told
    unfold Told at htold
    rw [hphase] at htold
    rcases htold with ⟨cached, hfound, -⟩ | hload
    · exact absurd hfound (hnotfound cached)
    · exact hload
  · intro i list response hi hresponse
    have hall := hresponds i list response hi hresponse
    cases hresult : s.callResult (CallId.inner (CallId.request i)) with
    | none =>
      rw [hresult] at hall
      obtain ⟨query, rows, _⟩ := list
      rcases rows with _ | (_ | data) <;> cases hall
      exact Or.inl ⟨rfl, rfl⟩
    | some result =>
      rw [hresult] at hall
      obtain ⟨call, hc, hphase⟩ := callResult_eq_some hresult
      exact Or.inr ⟨call, result, hc, hphase, hall⟩
  · -- The leader of an open load waits for it, against `all_done`.
    intro hsettled hcounts key
    rw [Option.eq_none_iff_forall_ne_some]
    intro l hl
    obtain ⟨load, hload, -, hnot⟩ := (hentry key l).1 hl
    obtain ⟨leader, hleader, hwaiting⟩ := h.waiting hload hnot
    obtain ⟨r, hr⟩ := h.all_done hsettled hcounts l leader hleader
    rw [hwaiting] at hr
    cases hr

/-- **Single-flight loading.** In every state that the service can reach the maps hold
one open load for each key, and a step takes an entry away only if it ends the load
that the entry points to. -/
theorem trendsQuery_singleFlight (cfg : TrendsCacheConfig) (now : ℕ) (store : Store)
    (as : List Act) (s : State) (hrun : (machine cfg).run as (initial now store) = some s) :
    SingleFlight s ∧ ∀ a t, step cfg s a = some t → ∀ key l, s.entries key = some l →
      t.entries key = some l ∨ ∃ load, t.loads l = some load ∧ load.done := by
  have hkeeps : (machine cfg).Keeps fun s => Flights s ∧ Responds s := by
    rintro s a t ⟨h, hresponds⟩ hstep
    have hkept := flights_step h hstep
    exact ⟨hkept.flights, responds_step hresponds (step_moves hstep) hkept.grows⟩
  have hinit : Responds (initial now store) := by
    rintro i list response ⟨⟩
  obtain ⟨h, hresponds⟩ := StepMachine.Keeps.run _ hkeeps ⟨flights_initial now store, hinit⟩ hrun
  refine ⟨h.singleFlight hresponds, ?_⟩
  intro a t hstep key l hentry
  have hkept := flights_step h hstep
  obtain ⟨load, hl, hkey, -⟩ := open_iff.1 ((h.tracks key l).1 hentry)
  obtain ⟨load', hl', htarget, -⟩ := hkept.grows.loads l load hl
  -- An open load keeps its entry in the next state.
  by_cases hdone : load'.done
  · exact Or.inr ⟨load', hl', hdone⟩
  · exact Or.inl ((hkept.flights.tracks key l).2 (open_iff.2 ⟨load', hl', htarget ▸ hkey, hdone⟩))

/-- A list whose rows fail while the count is read. -/
def rowsFail : List Act :=
  [Act.request 0 (Request.listTrends ⟨none, none, none, none, none⟩),
    Act.lookup (CallId.inner (CallId.request 0)) true,
    Act.resumeCall (CallId.inner (CallId.request 0)), Act.rows 0 none, Act.resumeList 0]

theorem trendsQuery_singleFlight_rowsFail :
    ∃ s, (machine testConfig).run rowsFail (initial 0 fun _ => none) = some s ∧ SingleFlight s :=
  ⟨_, rfl, (trendsQuery_singleFlight testConfig 0 (fun _ => none) rowsFail _ rfl).1⟩

/-- The only request has its response, by the failure of its rows, and its count is still
under way with its entry in the map. So no response outstanding does not mean that the maps
are empty. -/
theorem rowsFail_leaves_entry :
    ∃ s, (machine testConfig).run rowsFail (initial 0 fun _ => none) = some s ∧ AllSettled s ∧
      s.entries (LoadKey.listCount "ALL:false") = some (CallId.inner (CallId.request 0)) := by
  refine ⟨_, rfl, ⟨?_, ?_⟩, rfl⟩
  · rintro i call ⟨⟩
  · intro i list hi
    rcases update_eq_some hi with ⟨rfl, hnew⟩ | ⟨hne, hold⟩
    · cases hnew
      rintro ⟨⟩
    · rcases update_eq_some hold with ⟨rfl, -⟩ | ⟨-, hold⟩
      · exact absurd rfl hne
      · rcases update_eq_some hold with ⟨rfl, -⟩ | ⟨-, hold⟩
        · exact absurd rfl hne
        · cases hold

end TrendsQuery

end TechTrends
