/-
A fixed-window limiter with a block: the abstract state machine.

A counter lives for `span` after the call that creates it. A call past the limit
is refused and starts a block of length `block`; while a block is in force calls
are refused without being counted. Both deadlines belong to keys that vanish
only once the clock has passed them, so a counter is alive at its deadline,
while a block is in force only strictly before its own.

Three facts about any run at non-decreasing times: the calls made while one
counter lives are answered by their position (`answers_lifetime`), a window as
long as the span meets at most two counters (`admitted_window`), and with a block
no shorter than the span the first call after a block starts a new window
(`Before.first_call`).
-/
import Mathlib.Data.List.Pairwise
import Mathlib.Tactic.Linarith

set_option autoImplicit false

namespace FixedWindow

structure Params where
  limit : ℕ
  span : ℕ
  block : ℕ

structure State where
  /-- Hits counted and the deadline of the counter. -/
  counter : Option (ℕ × ℕ)
  /-- Deadline of the block. -/
  blockedUntil : Option ℕ

structure Answer where
  hits : ℕ
  remaining : ℕ
  blocked : Bool
  blockRemaining : ℕ
deriving DecidableEq

variable (p : Params)

/-- The hits and deadline of the counter that is alive at `now`. -/
def State.alive (s : State) (now : ℕ) : Option (ℕ × ℕ) :=
  s.counter.filter fun c => now ≤ c.2

/-- The deadline of the block that is in force at `now`. -/
def State.inForce (s : State) (now : ℕ) : Option ℕ :=
  s.blockedUntil.filter fun b => now < b

/-- The counter after one more hit. -/
def State.hit (s : State) (now : ℕ) : ℕ × ℕ :=
  match s.alive now with
  | some (h, d) => (h + 1, d)
  | none => (1, now + p.span)

/-- One call at the instant `now`. -/
def step (now : ℕ) (s : State) : Answer × State :=
  match s.inForce now with
  | some b =>
    (match s.alive now with
      | some (h, d) => ⟨h, d - now, true, b - now⟩
      | none => ⟨0, 0, true, b - now⟩, s)
  | none =>
    let (h, d) := s.hit p now
    if p.limit < h then
      (⟨h, d - now, true, p.block⟩, ⟨some (h, d), some (now + p.block)⟩)
    else
      (⟨h, d - now, false, 0⟩, ⟨some (h, d), s.blockedUntil⟩)

/-- The answers to calls at the instants `ts`. -/
def answers : List ℕ → State → List Answer
  | [], _ => []
  | t :: ts, s => (step p t s).1 :: answers ts (step p t s).2

/-- The state after calls at the instants `ts`. -/
def after : List ℕ → State → State
  | [], s => s
  | t :: ts, s => after ts (step p t s).2

/-! ## Runs -/

@[simp] theorem answers_length (ts : List ℕ) (s : State) :
    (answers p ts s).length = ts.length := by
  induction ts generalizing s with
  | nil => rfl
  | cons t ts ih => rw [answers, List.length_cons, ih, List.length_cons]

/-- A run in two pieces. The second piece is answered from the state that the first one
leaves, which is what lets a window be cut at the deadline of a counter and its two halves
counted apart. -/
theorem answers_append (ts us : List ℕ) (s : State) :
    answers p (ts ++ us) s = answers p ts s ++ answers p us (after p ts s) := by
  induction ts generalizing s with
  | nil => rfl
  | cons t ts ih => rw [List.cons_append, answers, ih]; rfl

theorem after_append (ts us : List ℕ) (s : State) :
    after p (ts ++ us) s = after p us (after p ts s) := by
  induction ts generalizing s with
  | nil => rfl
  | cons t ts ih => rw [List.cons_append, after, ih]; rfl

/-! ## What one call does -/

/-- A counter is alive at its deadline as well: Redis removes a key only once the clock has
passed it, and `PTTL` is then 0. -/
theorem alive_eq_some {s : State} {now h d : ℕ} :
    s.alive now = some (h, d) ↔ s.counter = some (h, d) ∧ now ≤ d := by
  simp [State.alive, Option.filter_eq_some_iff]

/-- A block is over at its deadline. The script asks for a positive `PTTL`, so at the instant
where the key is still there with 0 left, the call is counted again. -/
theorem inForce_eq_none {s : State} {now : ℕ} :
    s.inForce now = none ↔ ∀ b, s.blockedUntil = some b → b ≤ now := by
  simp [State.inForce, Option.filter_eq_none_iff]

/-- A call that meets a block changes nothing and is refused. In particular it does not count,
so the counter may run out while the block goes on. -/
theorem step_inForce {s : State} {now b : ℕ} (h : s.inForce now = some b) :
    (step p now s).1.blocked = true ∧ (step p now s).2 = s := by
  rw [step, h]
  cases s.alive now <;> exact ⟨rfl, rfl⟩

/-- A call that meets no block is counted, and refused when it passes the limit. The hit comes
before the comparison: the call that starts a block has raised the counter to `limit + 1`, and
a block that has ended stays in the state until the next one replaces it. -/
theorem step_counted {s : State} {now h d : ℕ} (hb : s.inForce now = none)
    (hh : s.hit p now = (h, d)) :
    (step p now s).1.hits = h ∧ (step p now s).1.blocked = decide (p.limit < h) ∧
      (step p now s).2 =
        ⟨some (h, d), if p.limit < h then some (now + p.block) else s.blockedUntil⟩ := by
  rw [step, hb]
  simp only [hh]
  by_cases hl : p.limit < h
  · simp [hl]
  · simp [hl]

/-! ## One lifetime -/

/-- Past the limit, every further call of the lifetime is refused, whether it meets a block or
starts one. So how long a block is does not matter within a lifetime: when a short one ends
first, the next call finds the counter where it was and starts another. -/
theorem answers_past_limit {h d : ℕ} (ts : List ℕ) : ∀ s : State,
    s.counter = some (h, d) → p.limit ≤ h → (∀ t ∈ ts, t ≤ d) →
    ∀ a ∈ answers p ts s, a.blocked = true := by
  induction ts generalizing h with
  | nil => intro s _ _ _ a ha; cases ha
  | cons t ts ih =>
    intro s hc hl ht a ha
    have htd : t ≤ d := ht t List.mem_cons_self
    have hts : ∀ u ∈ ts, u ≤ d := fun u hu => ht u (List.mem_cons_of_mem t hu)
    have halive : s.alive t = some (h, d) := alive_eq_some.2 ⟨hc, htd⟩
    rw [answers, List.mem_cons] at ha
    cases hb : s.inForce t with
    | some b =>
      obtain ⟨hblocked, hsame⟩ := step_inForce p hb
      rw [hsame] at ha
      rcases ha with rfl | ha
      · exact hblocked
      · exact ih s hc hl hts a ha
    | none =>
      have hhit : s.hit p t = (h + 1, d) := by rw [State.hit, halive]
      obtain ⟨-, hblocked, hnext⟩ := step_counted p hb hhit
      rcases ha with rfl | ha
      · rw [hblocked]
        exact decide_eq_true (by omega)
      · exact ih _ (by rw [hnext]) (by omega) hts a ha

/-- The answers by position, `h` hits into a lifetime. No block is in force
while the limit is not reached, which the sorted times keep so. -/
theorem answers_in_lifetime {d : ℕ} (ts : List ℕ) : ∀ (h : ℕ) (s : State),
    s.counter = some (h, d) → h ≤ p.limit →
    (∀ b, s.blockedUntil = some b → ∀ t ∈ ts, b ≤ t) →
    (∀ t ∈ ts, t ≤ d) →
    ∀ (i : ℕ) (a : Answer), (answers p ts s)[i]? = some a →
      (h + i < p.limit → a.blocked = false ∧ a.hits = h + i + 1) ∧
      (p.limit ≤ h + i → a.blocked = true) := by
  induction ts with
  | nil => intro h s _ _ _ _ i a ha; simp [answers] at ha
  | cons t ts ih =>
    intro h s hc hl hb ht i a ha
    have htd : t ≤ d := ht t List.mem_cons_self
    have hts : ∀ u ∈ ts, u ≤ d := fun u hu => ht u (List.mem_cons_of_mem t hu)
    have halive : s.alive t = some (h, d) := alive_eq_some.2 ⟨hc, htd⟩
    have hnone : s.inForce t = none :=
      inForce_eq_none.2 fun b hbs => hb b hbs t List.mem_cons_self
    have hhit : s.hit p t = (h + 1, d) := by rw [State.hit, halive]
    obtain ⟨hhits, hblocked, hnext⟩ := step_counted p hnone hhit
    rcases Nat.lt_or_ge h p.limit with hlt | hge
    · have hbelow : ¬ p.limit < h + 1 := by omega
      cases i with
      | zero =>
        rw [answers, List.getElem?_cons_zero, Option.some.injEq] at ha
        rw [← ha]
        refine ⟨fun _ => ⟨?_, hhits⟩, fun h' => by omega⟩
        rw [hblocked]
        exact decide_eq_false hbelow
      | succ i =>
        rw [answers, List.getElem?_cons_succ] at ha
        have hrest := ih (h + 1) _ (by rw [hnext]) (by omega)
          (by
            rw [hnext, if_neg hbelow]
            exact fun b hbs u hu => hb b hbs u (List.mem_cons_of_mem t hu)) hts i a ha
        refine ⟨fun h' => ?_, fun h' => hrest.2 (by omega)⟩
        have := hrest.1 (by omega)
        exact ⟨this.1, by omega⟩
    · -- the limit is reached: this call and every later one is refused
      have hall := answers_past_limit p (t :: ts) s hc hge ht a (List.mem_of_getElem? ha)
      exact ⟨fun h' => by omega, fun _ => hall⟩

/-- **One lifetime.** A counter created at `t₀` answers the calls made while it
lives by their position: the first `limit` are admitted and numbered from 1, and
the later ones are refused. -/
theorem answers_lifetime (s : State) (t₀ : ℕ) (ts : List ℕ)
    (hblock : s.inForce t₀ = none) (hnew : s.alive t₀ = none)
    (hsorted : ∀ t ∈ ts, t₀ ≤ t) (hlife : ∀ t ∈ ts, t ≤ t₀ + p.span)
    (i : ℕ) (a : Answer) (ha : (answers p (t₀ :: ts) s)[i]? = some a) :
    (i < p.limit → a.blocked = false ∧ a.hits = i + 1) ∧
      (p.limit ≤ i → a.blocked = true) := by
  have hhit : s.hit p t₀ = (1, t₀ + p.span) := by rw [State.hit, hnew]
  obtain ⟨hhits, hblocked, hnext⟩ := step_counted p hblock hhit
  rcases Nat.eq_zero_or_pos p.limit with hzero | hpos
  · -- with a limit of zero the call that creates the counter is refused as well
    refine ⟨fun h => by omega, fun _ => ?_⟩
    cases i with
    | zero =>
      rw [answers, List.getElem?_cons_zero, Option.some.injEq] at ha
      rw [← ha, hblocked, hzero]
      rfl
    | succ i =>
      rw [answers, List.getElem?_cons_succ] at ha
      exact answers_past_limit p ts _ (by rw [hnext]) (by omega) hlife a (List.mem_of_getElem? ha)
  · -- the first call makes the counter, and the others are counted on it
    have hbelow : ¬ p.limit < 1 := by omega
    cases i with
    | zero =>
      rw [answers, List.getElem?_cons_zero, Option.some.injEq] at ha
      rw [← ha]
      refine ⟨fun _ => ⟨?_, hhits⟩, fun h => by omega⟩
      rw [hblocked]
      exact decide_eq_false hbelow
    | succ i =>
      rw [answers, List.getElem?_cons_succ] at ha
      have hrest := answers_in_lifetime p ts 1 _ (by rw [hnext]) hpos
        (by
          rw [hnext, if_neg hbelow]
          exact fun b hb t ht => le_trans (inForce_eq_none.1 hblock b hb) (hsorted t ht))
        hlife i a ha
      refine ⟨fun h => ?_, fun h => hrest.2 (by omega)⟩
      have := hrest.1 (by omega)
      exact ⟨this.1, by omega⟩

/-! ## A window of one span -/

/-- How many of the answers admit their call. -/
def admitted (as : List Answer) : ℕ := as.countP fun a => !a.blocked

theorem admitted_append (as bs : List Answer) :
    admitted (as ++ bs) = admitted as + admitted bs := List.countP_append

theorem admitted_cons (a : Answer) (as : List Answer) :
    admitted (a :: as) = admitted as + if a.blocked then 0 else 1 := by
  cases h : a.blocked <;> simp [admitted, h]

/-- While one counter with `h` hits lives, at most `limit - h` calls more are admitted. Unlike
the answers by position this needs nothing of the blocks: a call that meets one is not
admitted, and costs nothing. -/
theorem admitted_alive {d : ℕ} (ts : List ℕ) : ∀ (h : ℕ) (s : State),
    s.counter = some (h, d) → (∀ t ∈ ts, t ≤ d) →
    admitted (answers p ts s) ≤ p.limit - h := by
  induction ts with
  | nil => intro h s _ _; exact Nat.zero_le _
  | cons t ts ih =>
    intro h s hc ht
    have htd : t ≤ d := ht t List.mem_cons_self
    have hts : ∀ u ∈ ts, u ≤ d := fun u hu => ht u (List.mem_cons_of_mem t hu)
    rw [answers, admitted_cons]
    -- the call either meets a block and leaves the hits, or is one more hit
    cases hb : s.inForce t with
    | some b =>
      obtain ⟨hblocked, hsame⟩ := step_inForce p hb
      rw [hblocked, hsame, if_pos rfl]
      exact ih h s hc hts
    | none =>
      have hhit : s.hit p t = (h + 1, d) := by rw [State.hit, alive_eq_some.2 ⟨hc, htd⟩]
      obtain ⟨-, hblocked, hnext⟩ := step_counted p hb hhit
      have hrest := ih (h + 1) (step p t s).2 (by rw [hnext]) hts
      rw [hblocked]
      by_cases hl : p.limit < h + 1
      · rw [decide_eq_true hl, if_pos rfl]
        omega
      · rw [decide_eq_false hl, if_neg (by decide)]
        omega

/-- Calls that no living counter meets first, all within one span of each other: at most one
counter is created among them. The first call that is counted creates it, and it outlives the
others, as they are made within a span of that call. -/
theorem admitted_fresh (ts : List ℕ) : ∀ s : State, ts.Pairwise (· ≤ ·) →
    (∀ t ∈ ts, s.alive t = none) → (∀ t ∈ ts, ∀ u ∈ ts, u ≤ t + p.span) →
    admitted (answers p ts s) ≤ p.limit := by
  induction ts with
  | nil => intro s _ _ _; exact Nat.zero_le _
  | cons t ts ih =>
    intro s hs hnew hspan
    rw [answers, admitted_cons]
    cases hb : s.inForce t with
    | some b =>
      obtain ⟨hblocked, hsame⟩ := step_inForce p hb
      rw [hblocked, hsame, if_pos rfl]
      exact ih s (List.Pairwise.of_cons hs) (fun u hu => hnew u (List.mem_cons_of_mem t hu))
        fun u hu w hw => hspan u (List.mem_cons_of_mem t hu) w (List.mem_cons_of_mem t hw)
    | none =>
      have hhit : s.hit p t = (1, t + p.span) := by rw [State.hit, hnew t List.mem_cons_self]
      obtain ⟨-, hblocked, hnext⟩ := step_counted p hb hhit
      -- this call creates the counter that the rest lives under
      have hrest := admitted_alive p ts 1 (step p t s).2 (by rw [hnext])
        fun u hu => hspan t List.mem_cons_self u (List.mem_cons_of_mem t hu)
      rw [hblocked]
      by_cases hl : p.limit < 1
      · rw [decide_eq_true hl, if_pos rfl]
        omega
      · rw [decide_eq_false hl, if_neg (by decide)]
        omega

/-- Calls made while a counter lives leave its deadline alone. -/
theorem after_alive {d : ℕ} (ts : List ℕ) : ∀ (h : ℕ) (s : State),
    s.counter = some (h, d) → (∀ t ∈ ts, t ≤ d) →
    ∃ h', (after p ts s).counter = some (h', d) := by
  induction ts with
  | nil => exact fun h s hc _ => ⟨h, hc⟩
  | cons t ts ih =>
    intro h s hc ht
    have htd : t ≤ d := ht t List.mem_cons_self
    have hts : ∀ u ∈ ts, u ≤ d := fun u hu => ht u (List.mem_cons_of_mem t hu)
    rw [after]
    cases hb : s.inForce t with
    -- a blocked call changes nothing
    | some b => rw [(step_inForce p hb).2]; exact ih h s hc hts
    | none =>
      have hhit : s.hit p t = (h + 1, d) := by rw [State.hit, alive_eq_some.2 ⟨hc, htd⟩]
      exact ih (h + 1) _ (by rw [(step_counted p hb hhit).2.2]) hts

/-- Sorted instants, cut at `d`. -/
theorem sorted_split (d : ℕ) (ts : List ℕ) (hs : ts.Pairwise (· ≤ ·)) :
    ∃ early late, ts = early ++ late ∧ (∀ t ∈ early, t < d) ∧ ∀ t ∈ late, d ≤ t := by
  induction ts with
  | nil => exact ⟨[], [], rfl, by simp, by simp⟩
  | cons t ts ih =>
    rcases Nat.lt_or_ge t d with hlt | hge
    · obtain ⟨early, late, rfl, he, hl⟩ := ih (List.Pairwise.of_cons hs)
      refine ⟨t :: early, late, rfl, ?_, hl⟩
      intro u hu
      rcases List.mem_cons.1 hu with rfl | hu
      · exact hlt
      · exact he u hu
    · refine ⟨[], t :: ts, rfl, by simp, ?_⟩
      intro u hu
      rcases List.mem_cons.1 hu with rfl | hu
      · exact hge
      · exact le_trans hge (List.rel_of_pairwise_cons hs hu)

/-- The counter of a state is the one its next calls meet, until its deadline; after that, and
within a span, at most one more counter is created. This is where the factor two comes from,
and it is reached: `limit` calls just before a deadline and `limit` calls just after it. -/
theorem admitted_short (s : State) (a : ℕ) (ts : List ℕ) (hs : ts.Pairwise (· ≤ ·))
    (ha : ∀ t ∈ ts, a ≤ t) (hb : ∀ t ∈ ts, t < a + p.span) :
    admitted (answers p ts s) ≤ 2 * p.limit := by
  have hspan : ∀ us : List ℕ, (∀ u ∈ us, u ∈ ts) →
      ∀ t ∈ us, ∀ u ∈ us, u ≤ t + p.span := by
    intro us hus t ht u hu
    have h1 := ha t (hus t ht)
    have h2 := hb u (hus u hu)
    omega
  cases hc : s.counter with
  | none =>
    have halive : ∀ t ∈ ts, s.alive t = none := fun t _ => by rw [State.alive, hc]; rfl
    have := admitted_fresh p ts s hs halive (hspan ts fun _ h => h)
    omega
  | some c =>
    obtain ⟨h, d⟩ := c
    -- up to its deadline the old counter answers, and after it a new one
    obtain ⟨early, late, rfl, he, hl⟩ := sorted_split (d + 1) ts hs
    have hearly : ∀ t ∈ early, t ≤ d := fun t ht => Nat.le_of_lt_succ (he t ht)
    obtain ⟨h', hafter⟩ := after_alive p early h s hc hearly
    have halive : ∀ t ∈ late, (after p early s).alive t = none := by
      intro t ht
      have := hl t ht
      rw [State.alive, hafter, Option.filter_eq_none_iff]
      intro c hc'
      rw [Option.some.injEq] at hc'
      simp only [← hc', decide_eq_true_eq]
      omega
    have h1 := admitted_alive p early h s hc hearly
    have h2 := admitted_fresh p late (after p early s) (List.pairwise_append.1 hs).2.1 halive
      (hspan late fun _ h => List.mem_append_right _ h)
    rw [answers_append, admitted_append]
    omega

/-- How many calls of a run are admitted at an instant in `[a, b)`. -/
def admittedIn (a b : ℕ) (ts : List ℕ) (as : List Answer) : ℕ :=
  (ts.zip as).countP fun x => decide (a ≤ x.1) && decide (x.1 < b) && !x.2.blocked

theorem admittedIn_append (a b : ℕ) {ts us : List ℕ} {as bs : List Answer}
    (h : ts.length = as.length) :
    admittedIn a b (ts ++ us) (as ++ bs) = admittedIn a b ts as + admittedIn a b us bs := by
  rw [admittedIn, List.zip_append h, List.countP_append]
  rfl

theorem admittedIn_outside (a b : ℕ) {ts : List ℕ} (as : List Answer)
    (h : ∀ t ∈ ts, ¬ (a ≤ t ∧ t < b)) : admittedIn a b ts as = 0 := by
  rw [admittedIn, List.countP_eq_zero]
  rintro ⟨t, c⟩ hx
  have := h t (List.of_mem_zip hx).1
  simp only [Bool.and_eq_true, decide_eq_true_eq]
  exact fun hand => this hand.1

theorem admittedIn_le (a b : ℕ) : ∀ (ts : List ℕ) (as : List Answer),
    admittedIn a b ts as ≤ admitted as
  | [], as => Nat.zero_le _
  | _ :: _, [] => Nat.zero_le _
  | t :: ts, c :: as => by
    have ih := admittedIn_le a b ts as
    rw [admittedIn, List.zip_cons_cons, List.countP_cons, admitted_cons]
    rw [admittedIn] at ih
    cases c.blocked
    · simp only [Bool.not_false, Bool.and_true, Bool.false_eq_true, if_false]
      split <;> omega
    · simp only [Bool.not_true, Bool.and_false, Bool.false_eq_true, if_false, if_true]
      omega

/-- **One window.** Calls at non-decreasing instants: of those in a half-open
window as long as the span, at most `2 * limit` are admitted. -/
theorem admitted_window (s : State) (ts : List ℕ) (hs : ts.Pairwise (· ≤ ·)) (a : ℕ) :
    admittedIn a (a + p.span) ts (answers p ts s) ≤ 2 * p.limit := by
  obtain ⟨early, rest, rfl, he, hr⟩ := sorted_split a ts hs
  have hrest := (List.pairwise_append.1 hs).2.1
  -- the calls before the window set the state that the window starts from
  obtain ⟨mid, late, rfl, hm, hl⟩ := sorted_split (a + p.span) rest hrest
  have hearly : ∀ as, admittedIn a (a + p.span) early as = 0 := by
    intro as
    apply admittedIn_outside
    intro t ht h
    have hbefore := he t ht
    omega
  have hlate : ∀ as, admittedIn a (a + p.span) late as = 0 := by
    intro as
    apply admittedIn_outside
    intro t ht h
    have hafter := hl t ht
    omega
  rw [answers_append, admittedIn_append _ _ (answers_length p early s).symm, answers_append,
    admittedIn_append _ _ (answers_length p mid _).symm, hearly, hlate]
  have hmid := admitted_short p (after p early s) a mid (List.pairwise_append.1 hrest).1
    (fun t ht => hr t (List.mem_append_left _ ht)) hm
  have hle := admittedIn_le a (a + p.span) mid (answers p mid (after p early s))
  omega

/-! ## The end of a block

With a block at least as long as the span, a counter that started a block is gone
when the block is. -/

/-- After calls that were all made before `n`: the counter ends within a span of
them, and a block that lasts to `n` was started by a counter that it outlives. -/
structure Before (n : ℕ) (s : State) : Prop where
  counter : ∀ h d, s.counter = some (h, d) → d < n + p.span
  block : ∀ b, s.blockedUntil = some b → n ≤ b →
    ∃ h d, s.counter = some (h, d) ∧ p.limit < h ∧ d ≤ b

variable {p}

theorem Before.mono {n m : ℕ} {s : State} (h : Before p n s) (hnm : n ≤ m) : Before p m s where
  counter hits d hc := by have := h.counter hits d hc; omega
  block b hb hm := h.block b hb (le_trans hnm hm)

/-- The deadline of the counter after one more hit. A counter that lives keeps its deadline,
and a new one has a whole span, so either way no counter outlives a span from now. -/
theorem Before.hit_le {t : ℕ} {s : State} (h : Before p (t + 1) s) :
    (s.hit p t).2 ≤ t + p.span := by
  rw [State.hit]
  cases ha : s.alive t with
  | none => exact Nat.le_refl _
  | some c =>
    have hd := h.counter c.1 c.2 (alive_eq_some.1 ha).1
    show c.2 ≤ t + p.span
    omega

/-- One call keeps it, whether it meets a block, starts one or passes. A block that starts now
is at least as long as the span, so it ends no earlier than the counter that it was started
over. -/
theorem Before.step (hspan : p.span ≤ p.block) {t : ℕ} {s : State} (h : Before p (t + 1) s) :
    Before p (t + 1) (step p t s).2 := by
  cases hb : s.inForce t with
  | some b =>
    rw [(step_inForce p hb).2]
    exact h
  | none =>
    obtain ⟨-, -, hnext⟩ := step_counted p hb (Prod.eta (s.hit p t)).symm
    have hd : (s.hit p t).2 ≤ t + p.span := h.hit_le
    rw [hnext]
    refine ⟨fun hits d hc => ?_, fun b hbs hle => ?_⟩
    · rw [Option.some.injEq, Prod.mk.injEq] at hc
      rw [hc.2] at hd
      omega
    · by_cases hl : p.limit < (s.hit p t).1
      · -- the block that this call starts
        rw [if_pos hl, Option.some.injEq] at hbs
        exact ⟨_, _, rfl, hl, by omega⟩
      · -- an older block, which was not in force
        rw [if_neg hl] at hbs
        have hle' := inForce_eq_none.1 hb b hbs
        omega

/-- Calls at non-decreasing instants before `n`. -/
theorem Before.after (hspan : p.span ≤ p.block) {n : ℕ} (ts : List ℕ) : ∀ {m : ℕ} {s : State},
    Before p m s → ts.Pairwise (· ≤ ·) → (∀ t ∈ ts, m ≤ t + 1) → (∀ t ∈ ts, t < n) → m ≤ n →
    Before p n (after p ts s) := by
  induction ts with
  | nil => exact fun h _ _ _ hmn => h.mono hmn
  | cons t ts ih =>
    intro m s h hs hm hn _
    have hstep := (h.mono (hm t List.mem_cons_self)).step hspan
    refine ih hstep (List.Pairwise.of_cons hs) (fun u hu => ?_)
      (fun u hu => hn u (List.mem_cons_of_mem t hu)) (hn t List.mem_cons_self)
    have := List.rel_of_pairwise_cons hs hu
    omega

/-- A call that meets neither a block nor a living counter starts a window. It is admitted
whatever came before, because its hit is the first one and the limit is at least 1. -/
theorem step_fresh (hlimit : 1 ≤ p.limit) {t : ℕ} {s : State} (hb : s.inForce t = none)
    (ha : s.alive t = none) :
    (step p t s).1.blocked = false ∧ (step p t s).1.hits = 1 ∧
      (step p t s).2.counter = some (1, t + p.span) := by
  have hhit : s.hit p t = (1, t + p.span) := by rw [State.hit, ha]
  obtain ⟨hhits, hblocked, hnext⟩ := step_counted p hb hhit
  refine ⟨?_, hhits, by rw [hnext]⟩
  rw [hblocked]
  exact decide_eq_false (by omega)

/-- **The end of a block.** The first call that is not made before the deadline
of a block starts a window; the exception is a call at that very instant, when
the counter that started the block has the same deadline. -/
theorem Before.first_call (hlimit : 1 ≤ p.limit) {b t : ℕ} {s : State} (h : Before p b s)
    (hb : s.blockedUntil = some b) (ht : b ≤ t) (hd : b < t ∨ ∀ c, s.counter = some c → c.2 ≠ b) :
    (FixedWindow.step p t s).1.blocked = false ∧ (FixedWindow.step p t s).1.hits = 1 ∧
      (FixedWindow.step p t s).2.counter = some (1, t + p.span) := by
  have hfree : s.inForce t = none := inForce_eq_none.2 fun b' hb' => by
    rw [hb, Option.some.injEq] at hb'
    omega
  obtain ⟨hits, d, hc, -, hdb⟩ := h.block b hb (Nat.le_refl b)
  refine step_fresh hlimit hfree ?_
  have hgone : ¬ t ≤ d := by
    rcases hd with hlt | hne
    · omega
    · have := hne _ hc
      dsimp only at this
      omega
  rw [State.alive, hc]
  exact Option.filter_eq_none_iff.2 fun c hc' => by
    rw [Option.some.injEq] at hc'
    rw [← hc']
    simpa using hgone

/-- At the deadline that block and counter share, the call is one more hit of the old counter
and starts the next block. The block is over there and the counter is not, which is the one
instant where a caller that waits as long as it was told is refused again. -/
theorem Before.shared_deadline {b : ℕ} {s : State} (h : Before p b s)
    (hb : s.blockedUntil = some b) (hd : ∃ c, s.counter = some c ∧ c.2 = b) :
    (FixedWindow.step p b s).1.blocked = true ∧
      (FixedWindow.step p b s).2.blockedUntil = some (b + p.block) := by
  have hfree : s.inForce b = none := inForce_eq_none.2 fun b' hb' => by
    rw [hb, Option.some.injEq] at hb'
    omega
  obtain ⟨c, hcount, hcb⟩ := hd
  obtain ⟨hits, d, hc, hlimit, -⟩ := h.block b hb (Nat.le_refl b)
  rw [hcount, Option.some.injEq] at hc
  subst hc
  dsimp only at hcb
  subst hcb
  have hhit : s.hit p d = (hits + 1, d) := by
    rw [State.hit, alive_eq_some.2 ⟨hcount, Nat.le_refl d⟩]
  obtain ⟨-, hblocked, hnext⟩ := step_counted p hfree hhit
  have hl : p.limit < hits + 1 := by omega
  rw [hnext, hblocked, if_pos hl]
  exact ⟨decide_eq_true hl, rfl⟩

/-! ### Waiting for it -/

/-- A call that is blocked is told when the block ends. -/
theorem step_blocked (hblock : 1 ≤ p.block) {t : ℕ} {s : State} (h : (step p t s).1.blocked = true) :
    (step p t s).2.blockedUntil = some (t + (step p t s).1.blockRemaining) ∧
      1 ≤ (step p t s).1.blockRemaining := by
  cases hb : s.inForce t with
  | some b =>
    obtain ⟨hmem, hlt⟩ := Option.filter_eq_some_iff.1 hb
    have hle : t < b := of_decide_eq_true hlt
    have hremaining : (step p t s).1.blockRemaining = b - t := by
      rw [step, hb]
      dsimp only
      cases s.alive t <;> rfl
    have hstate : (step p t s).2 = s := by
      rw [step, hb]
    rw [hstate, hremaining, hmem]
    exact ⟨by rw [Nat.add_sub_cancel' hle.le], by omega⟩
  | none =>
    have hhit := step_counted p hb (Prod.eta (s.hit p t)).symm
    have hover : p.limit < (s.hit p t).1 := by
      rw [hhit.2.1] at h
      exact of_decide_eq_true h
    have hremaining : (step p t s).1.blockRemaining = p.block := by
      rw [step, hb]
      simp only [hover, if_true]
    rw [hhit.2.2, hremaining, if_pos hover]
    exact ⟨rfl, hblock⟩

/-- Calls before the end of a block change nothing and are blocked. So it does not matter how
often a caller tries while it should wait: the block is not prolonged. -/
theorem waiting {b : ℕ} {s : State} (hb : s.blockedUntil = some b) : ∀ us : List ℕ, (∀ u ∈ us, u < b) →
    after p us s = s ∧ ∀ a ∈ answers p us s, a.blocked = true := by
  intro us
  induction us with
  | nil => exact fun _ => ⟨rfl, fun a ha => by cases ha⟩
  | cons u us ih =>
    intro hus
    have hforce : s.inForce u = some b :=
      Option.filter_eq_some_iff.2 ⟨hb, decide_eq_true (hus u List.mem_cons_self)⟩
    obtain ⟨hblocked, hstate⟩ := step_inForce p hforce
    obtain ⟨hafter, hall⟩ := ih fun v hv => hus v (List.mem_cons_of_mem u hv)
    rw [after, answers, hstate]
    refine ⟨hafter, fun a ha => ?_⟩
    rcases List.mem_cons.1 ha with rfl | ha
    · exact hblocked
    · exact hall a ha

/-- Without a block, calls are admitted as long as the counter has room for them. Counters may
end in between, which only makes room. -/
theorem admitted_of_few {us : List ℕ} : ∀ {h : ℕ} {s : State}, us.Pairwise (· ≤ ·) →
    (∀ u ∈ us, s.inForce u = none) → (∀ u ∈ us, ∀ c, s.alive u = some c → c.1 ≤ h) →
    h + us.length ≤ p.limit → ∀ a ∈ answers p us s, a.blocked = false := by
  induction us with
  | nil => exact fun _ _ _ _ a ha => by cases ha
  | cons u us ih =>
    intro h s hsorted hfree hhits hlength a ha
    have hu : s.inForce u = none := hfree u List.mem_cons_self
    obtain ⟨-, hblocked, hnext⟩ := step_counted p hu (Prod.eta (s.hit p u)).symm
    have hroom : (s.hit p u).1 ≤ h + 1 := by
      rw [State.hit]
      cases halive : s.alive u with
      | none => exact Nat.le_add_left 1 h
      | some c => exact Nat.add_le_add_right (hhits u List.mem_cons_self c halive) 1
    rw [List.length_cons] at hlength
    have hunder : ¬ p.limit < (s.hit p u).1 := by omega
    rw [if_neg hunder] at hnext
    rw [answers, List.mem_cons] at ha
    rcases ha with rfl | ha
    · rw [hblocked]
      exact decide_eq_false hunder
    · rw [hnext] at ha
      refine ih (h := h + 1) (s := ⟨some (s.hit p u), s.blockedUntil⟩) hsorted.of_cons
        (fun v hv => hfree v (List.mem_cons_of_mem u hv)) ?_ (by omega) a ha
      intro v hv c hc
      have hcounter : some (s.hit p u) = some c := (alive_eq_some.1 hc).1
      rw [← Option.some.inj hcounter]
      exact hroom

/-- **A full quota after a block.** Of the calls that are made after the end of a block, the
first `limit` are admitted. -/
theorem Before.few_calls {b : ℕ} {s : State} (h : Before p b s) (hb : s.blockedUntil = some b)
    {us : List ℕ} (hsorted : us.Pairwise (· ≤ ·)) (hus : ∀ u ∈ us, b < u) (hlength : us.length ≤ p.limit) :
    ∀ a ∈ answers p us s, a.blocked = false := by
  obtain ⟨hits, d, hc, -, hdb⟩ := h.block b hb (Nat.le_refl b)
  refine admitted_of_few (h := 0) hsorted (fun u hu => inForce_eq_none.2 fun b' hb' => ?_) (fun u hu c hc' => ?_)
    (by omega)
  · rw [hb, Option.some.injEq] at hb'
    have hlt := hus u hu
    omega
  -- the counter that started the block is gone
  · obtain ⟨hcounter, hle⟩ := alive_eq_some.1 hc'
    rw [hc, Option.some.injEq, Prod.mk.injEq] at hcounter
    have hlt := hus u hu
    omega

end FixedWindow
