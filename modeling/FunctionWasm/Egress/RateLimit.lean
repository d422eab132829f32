import Mathlib.Data.Rat.Floor
import FunctionWasm.Foundation.Text
import FunctionWasm.Foundation.TokenBucket

/-!
# RateLimit — how many requests a module may make

One token bucket for each module digest, for the whole process.  A sweep removes the buckets that
were idle for ten minutes; a bucket that is not there starts full.

* `rateLimits` is what the flags come to, `RateLimiters.allow` decides one request.
* `sweepRateLimiters` is the sweep, `RateLimiters.log` a run of requests and sweeps.
* `RateLimiters.limited_iff` says for which rates and bursts a module keeps to its rate.
-/

namespace FunctionWasm

/-! ## The limiter -/

/-- Times are in seconds. -/
structure RateLimiters where
  perMinute : ℚ
  burst : Int
  perMinute_pos : 0 < perMinute
  burst_pos : 0 < burst

/-- A rate that is positive and at least one, as a 64-bit integer. -/
def derivedBurst (ratePerMinute : ℚ) : Int :=
  min ⌊max ratePerMinute 1⌋ (2 ^ 63 - 1)

theorem derivedBurst_pos (ratePerMinute : ℚ) : 0 < derivedBurst ratePerMinute := by
  have hfloor : 1 ≤ ⌊max ratePerMinute 1⌋ := Int.le_floor.2 (by simp)
  exact lt_min (lt_of_lt_of_le zero_lt_one hfloor) (by decide)

/-- What `Egress::new` makes of the two flags. -/
def rateLimits (ratePerMinute : ℚ) (burst : Int) : Option RateLimiters :=
  if hrate : 0 < ratePerMinute then
    some
      { perMinute := ratePerMinute
        burst := if burst ≤ 0 then derivedBurst ratePerMinute else burst
        perMinute_pos := hrate
        burst_pos := by
          split
          next => exact derivedBurst_pos ratePerMinute
          next hpos => exact Int.not_le.1 hpos }
  else none

abbrev Entries := Text → Option (TokenBucket ℚ)

/-- No bucket yet. -/
def Entries.empty : Entries := fun _ => none

namespace RateLimiters

variable (rl : RateLimiters)

def ratePerSec : ℚ := rl.perMinute / 60

/-- Whether the module may make one request now. -/
def allow (now : ℚ) (digest : Text) (entries : Entries) : Bool × Entries :=
  let bucket := (entries digest).getD ⟨rl.burst, now⟩
  let tokens := min (bucket.tokens + max (now - bucket.last) 0 * rl.ratePerSec) rl.burst
  if 1 ≤ tokens then (true, Function.update entries digest (some ⟨tokens - 1, now⟩))
  else (false, Function.update entries digest (some ⟨tokens, now⟩))

end RateLimiters

/-- Keeps the buckets that were looked at within ten minutes. -/
def sweepRateLimiters (now : ℚ) (entries : Entries) : Entries :=
  let cutoff := now - 10 * 60
  fun digest => (entries digest).filter fun b => cutoff ≤ b.last

inductive RateCall where
  | allow (digest : Text)
  | sweep
  deriving DecidableEq

structure RateEvent where
  time : ℚ
  call : RateCall

/-- Calls in the order in which they take the lock. -/
def InOrder (events : List RateEvent) : Prop :=
  events.Pairwise fun a b => a.time ≤ b.time

namespace RateLimiters

variable (rl : RateLimiters)

/-- What a call answers, which for a sweep is nothing, and what it leaves. -/
def step (e : RateEvent) (entries : Entries) : Bool × Entries :=
  match e.call with
  | .allow digest => rl.allow e.time digest entries
  | .sweep => (false, sweepRateLimiters e.time entries)

/-- The calls of a run with their answers. -/
def log : Entries → List RateEvent → List (RateEvent × Bool)
  | _, [] => []
  | entries, e :: es => (e, (rl.step e entries).1) :: log (rl.step e entries).2 es

/-- What a run leaves. -/
def after (entries : Entries) (events : List RateEvent) : Entries :=
  events.foldl (fun entries e => (rl.step e entries).2) entries

/-- A request of a module that was admitted between two times. -/
def AdmittedIn (digest : Text) (start stop : ℚ) (x : RateEvent × Bool) : Prop :=
  x.1.call = .allow digest ∧ x.2 = true ∧ start ≤ x.1.time ∧ x.1.time ≤ stop

instance (digest : Text) (start stop : ℚ) : DecidablePred (AdmittedIn digest start stop) :=
  fun _ => inferInstanceAs (Decidable (_ ∧ _))

/-- How many requests of a module are admitted between two times. -/
def admitted (digest : Text) (start stop : ℚ) (entries : Entries) (events : List RateEvent) : Nat :=
  (rl.log entries events).countP (AdmittedIn digest start stop)

/-- In every run and every window a module makes no more requests than the burst and the rate give
it. -/
def Bounded : Prop :=
  ∀ events, InOrder events → ∀ (digest : Text) (start window : ℚ), 0 ≤ window →
    (rl.admitted digest start (start + window) Entries.empty events : ℚ) ≤
      rl.burst + rl.ratePerSec * window

/-- A sweep in a run never admits a request that would be refused without it. -/
def SweepHarmless : Prop :=
  ∀ before time rest, InOrder (before ++ ⟨time, .sweep⟩ :: rest) →
    List.Forall₂ (fun swept kept => swept.2 = true → kept.2 = true)
      (rl.log (sweepRateLimiters time (rl.after Entries.empty before)) rest)
      (rl.log (rl.after Entries.empty before) rest)

/-! ## What a call does to the buckets -/

theorem ratePerSec_pos : 0 < rl.ratePerSec :=
  div_pos rl.perMinute_pos (by decide)

theorem burst_nonneg : (0 : ℚ) ≤ rl.burst := by
  exact_mod_cast rl.burst_pos.le

/-- What the bucket of a module holds at a time. -/
def held (now : ℚ) (digest : Text) (entries : Entries) : ℚ :=
  TokenBucket.balance rl.ratePerSec rl.burst now (entries digest)

/-- Every bucket is in order at a time. -/
def Sound (now : ℚ) (entries : Entries) : Prop :=
  ∀ digest, ∀ b ∈ entries digest, TokenBucket.Holds (rl.burst : ℚ) now b

theorem sound_empty (now : ℚ) : rl.Sound now Entries.empty := by
  intro digest b hb
  cases hb

variable {rl}

theorem Sound.later {now t : ℚ} {entries : Entries} (h : rl.Sound now entries) (htime : now ≤ t) :
    rl.Sound t entries :=
  fun digest b hb => (h digest b hb).later htime

/-- A request takes from the bucket of its module. -/
theorem allow_eq {now : ℚ} {entries : Entries} (h : rl.Sound now entries) (digest : Text) :
    rl.allow now digest entries =
      ((TokenBucket.take rl.ratePerSec rl.burst now (entries digest)).1,
        Function.update entries digest
          (some (TokenBucket.take rl.ratePerSec rl.burst now (entries digest)).2)) := by
  have htokens : min (((entries digest).getD ⟨rl.burst, now⟩).tokens +
        max (now - ((entries digest).getD ⟨rl.burst, now⟩).last) 0 * rl.ratePerSec) rl.burst =
      rl.held now digest entries := by
    unfold held
    cases hentry : entries digest with
    | none => simp
    | some b =>
        have hpast : 0 ≤ now - b.last := sub_nonneg.2 (h digest b hentry).last_le
        simp [TokenBucket.balance, max_eq_left hpast]
  unfold allow TokenBucket.take
  dsimp only
  rw [htokens]
  unfold held
  split <;> rfl

theorem mem_sweep {now : ℚ} {entries : Entries} {digest : Text} {b : TokenBucket ℚ}
    (h : b ∈ sweepRateLimiters now entries digest) : b ∈ entries digest := by
  exact (Option.mem_filter_iff.1 h).1

theorem step_sound {e : RateEvent} {entries : Entries} (h : rl.Sound e.time entries) :
    rl.Sound e.time (rl.step e entries).2 := by
  intro digest b hb
  unfold step at hb
  split at hb
  next target hcall =>
    rw [allow_eq h] at hb
    dsimp only at hb
    by_cases hsame : digest = target
    · subst hsame
      simp only [Function.update_self, Option.mem_def, Option.some.injEq] at hb
      subst hb
      exact TokenBucket.take_holds rl.ratePerSec_pos.le rl.burst_nonneg (h digest)
    · rw [Function.update_of_ne hsame] at hb
      exact h digest b hb
  next => exact h digest b (mem_sweep hb)

/-- The tokens that a call takes from the bucket of a module. -/
def spent (digest : Text) (x : RateEvent × Bool) : ℚ :=
  if x.1.call = .allow digest then TokenBucket.cost x.2 else 0

/-- Nothing is lost or made up: a request takes its token from the bucket of its module. -/
theorem allow_held {e : RateEvent} {entries : Entries} (h : rl.Sound e.time entries)
    {target : Text} (hcall : e.call = .allow target) (digest : Text) :
    spent digest (e, (rl.step e entries).1) + rl.held e.time digest (rl.step e entries).2 =
      rl.held e.time digest entries := by
  have hstep : rl.step e entries = rl.allow e.time target entries := by
    unfold step
    rw [hcall]
  rw [hstep, allow_eq h]
  unfold spent held
  dsimp only
  by_cases hsame : target = digest
  · subst hsame
    rw [if_pos hcall, Function.update_self,
      TokenBucket.balance_take rl.ratePerSec_pos.le rl.burst_nonneg (h target)]
    exact TokenBucket.take_balance _
  · have hother : ¬ e.call = .allow digest := by
      rw [hcall]
      exact fun heq => hsame (RateCall.allow.inj heq)
    rw [if_neg hother, Function.update_of_ne (Ne.symm hsame), zero_add]

/-- A sweep never empties a bucket. -/
theorem held_le_sweep (now : ℚ) (digest : Text) (entries : Entries) :
    rl.held now digest entries ≤ rl.held now digest (sweepRateLimiters now entries) := by
  unfold held sweepRateLimiters
  cases hentry : entries digest with
  | none => exact le_refl _
  | some b =>
      by_cases hkept : now - 10 * 60 ≤ b.last
      · simp [Option.filter, hkept]
      · simp only [Option.filter, hkept, decide_false, Bool.false_eq_true, if_false,
          TokenBucket.balance_none]
        exact TokenBucket.balance_le_burst _

/-- A sweep does not fill one that ten minutes would have filled. -/
theorem held_sweep (hsafe : (rl.burst : ℚ) ≤ 10 * rl.perMinute) {now : ℚ} {entries : Entries}
    (h : rl.Sound now entries) (digest : Text) :
    rl.held now digest (sweepRateLimiters now entries) = rl.held now digest entries := by
  unfold held sweepRateLimiters
  cases hentry : entries digest with
  | none => rfl
  | some b =>
      by_cases hkept : now - 10 * 60 ≤ b.last
      · simp [Option.filter, hkept]
      · have hidle : (rl.burst : ℚ) ≤ (now - b.last) * rl.ratePerSec := by
          have hlong : 10 * 60 ≤ now - b.last := by linarith
          calc
            (rl.burst : ℚ) ≤ 10 * rl.perMinute := hsafe
            _ = 10 * 60 * rl.ratePerSec := by
                unfold ratePerSec
                ring
            _ ≤ (now - b.last) * rl.ratePerSec :=
                mul_le_mul_of_nonneg_right hlong rl.ratePerSec_pos.le
        simp only [Option.filter, hkept, decide_false, Bool.false_eq_true, if_false,
          TokenBucket.balance_none]
        exact (TokenBucket.full_of_idle (h digest b hentry) hidle).symm

/-- A call that is no sweep, or any where ten minutes fill a bucket. -/
def Neutral (rl : RateLimiters) (e : RateEvent) : Prop :=
  e.call = .sweep → (rl.burst : ℚ) ≤ 10 * rl.perMinute

/-- What a call takes from a bucket and what it leaves is what was there. -/
theorem step_held {e : RateEvent} (hneutral : rl.Neutral e) {entries : Entries}
    (h : rl.Sound e.time entries) (digest : Text) :
    spent digest (e, (rl.step e entries).1) + rl.held e.time digest (rl.step e entries).2 =
      rl.held e.time digest entries := by
  cases hcall : e.call with
  | allow target => exact allow_held h hcall digest
  | sweep =>
      have hspent : ∀ answer, spent digest (e, answer) = 0 := by
        intro answer
        simp [spent, hcall]
      have hstep : (rl.step e entries).2 = sweepRateLimiters e.time entries := by
        unfold step
        rw [hcall]
      rw [hspent, zero_add, hstep]
      exact held_sweep (hneutral hcall) h digest

/-! ## What a run admits -/

theorem admitted_cons (digest : Text) (start stop : ℚ) (entries : Entries) (e : RateEvent)
    (es : List RateEvent) :
    rl.admitted digest start stop entries (e :: es) =
      rl.admitted digest start stop (rl.step e entries).2 es +
        if AdmittedIn digest start stop (e, (rl.step e entries).1) then 1 else 0 := by
  unfold admitted
  rw [log, List.countP_cons]
  congr 1
  simp

/-- A request that is counted has taken a token. -/
theorem counted_le_spent (digest : Text) (start stop : ℚ) (x : RateEvent × Bool) :
    ((if AdmittedIn digest start stop x then 1 else 0 : Nat) : ℚ) ≤ spent digest x := by
  by_cases h : AdmittedIn digest start stop x
  · simp [h, spent, h.1, h.2.1, TokenBucket.cost]
  · rw [if_neg h]
    unfold spent TokenBucket.cost
    split
    · split <;> simp
    · simp

/-- Nothing is counted after the end of a window. -/
theorem admitted_eq_zero {digest : Text} {start stop : ℚ} {events : List RateEvent} :
    ∀ {entries : Entries}, (∀ e ∈ events, stop < e.time) →
      rl.admitted digest start stop entries events = 0 := by
  induction events with
  | nil =>
      intro entries _
      rfl
  | cons e es ih =>
      intro entries hlate
      have hout : ¬ AdmittedIn digest start stop (e, (rl.step e entries).1) := fun hin =>
        absurd hin.2.2.2 (not_le.2 (hlate e List.mem_cons_self))
      rw [admitted_cons, ih fun x hx => hlate x (List.mem_cons_of_mem _ hx), if_neg hout]

/-- From any time on, a module makes no more requests than its bucket holds and gains. -/
theorem admitted_le_held {digest : Text} {start stop : ℚ} {events : List RateEvent} :
    ∀ {now : ℚ} {entries : Entries}, rl.Sound now entries → now ≤ stop → InOrder events →
      (∀ e ∈ events, now ≤ e.time) → (∀ e ∈ events, rl.Neutral e) →
        (rl.admitted digest start stop entries events : ℚ) ≤
          rl.held now digest entries + (stop - now) * rl.ratePerSec := by
  -- on the events; what is left of the bucket pays for the rest
  induction events with
  | nil =>
      intro now entries hsound hstop _ _ _
      have hheld : 0 ≤ rl.held now digest entries :=
        TokenBucket.balance_nonneg rl.ratePerSec_pos.le rl.burst_nonneg (hsound digest)
      have hgain : 0 ≤ (stop - now) * rl.ratePerSec :=
        mul_nonneg (sub_nonneg.2 hstop) rl.ratePerSec_pos.le
      have hnone : rl.admitted digest start stop entries [] = 0 := rfl
      rw [hnone, Nat.cast_zero]
      exact add_nonneg hheld hgain
  | cons e es ih =>
      intro now entries hsound hstop horder hfrom hneutral
      have hnow : now ≤ e.time := hfrom e List.mem_cons_self
      have hsound' := hsound.later hnow
      rcases List.pairwise_cons.1 horder with ⟨hfirst, horder'⟩
      by_cases hlate : e.time ≤ stop
      · have hrest := ih (step_sound hsound') hlate horder' hfirst
          fun x hx => hneutral x (List.mem_cons_of_mem _ hx)
        have hcount := counted_le_spent digest start stop (e, (rl.step e entries).1)
        -- a request that is admitted spends what it is counted as
        have hstep := step_held (hneutral e List.mem_cons_self) hsound' digest
        have hgain : rl.held e.time digest entries ≤
            rl.held now digest entries + (e.time - now) * rl.ratePerSec :=
          TokenBucket.balance_le_later rl.ratePerSec_pos.le hnow _
        rw [admitted_cons, Nat.cast_add]
        calc
          _ ≤ rl.held e.time digest (rl.step e entries).2 + (stop - e.time) * rl.ratePerSec +
                spent digest (e, (rl.step e entries).1) := add_le_add hrest hcount
          _ = rl.held e.time digest entries + (stop - e.time) * rl.ratePerSec := by
                rw [← hstep]
                ring
          _ ≤ rl.held now digest entries + (e.time - now) * rl.ratePerSec +
                (stop - e.time) * rl.ratePerSec := by
                exact add_le_add hgain (le_refl _)
          _ = rl.held now digest entries + (stop - now) * rl.ratePerSec := by ring
      · -- every event from here on is too late to count
        have hall : ∀ x ∈ e :: es, stop < x.time := by
          intro x hx
          rcases List.mem_cons.1 hx with rfl | hx
          · exact not_le.1 hlate
          · exact (not_le.1 hlate).trans_le (hfirst x hx)
        have hheld : 0 ≤ rl.held now digest entries :=
          TokenBucket.balance_nonneg rl.ratePerSec_pos.le rl.burst_nonneg (hsound digest)
        have hgain : 0 ≤ (stop - now) * rl.ratePerSec :=
          mul_nonneg (sub_nonneg.2 hstop) rl.ratePerSec_pos.le
        rw [admitted_eq_zero hall, Nat.cast_zero]
        exact add_nonneg hheld hgain

/-- A window that starts later admits no more than a full bucket gives. -/
theorem admitted_le {digest : Text} {start window : ℚ} (hwindow : 0 ≤ window)
    {events : List RateEvent} :
    ∀ {now : ℚ} {entries : Entries}, rl.Sound now entries → now ≤ start → InOrder events →
      (∀ e ∈ events, now ≤ e.time) → (∀ e ∈ events, rl.Neutral e) →
        (rl.admitted digest start (start + window) entries events : ℚ) ≤
          rl.burst + rl.ratePerSec * window := by
  induction events with
  | nil =>
      intro now entries _ _ _ _ _
      have hnone : rl.admitted digest start (start + window) entries [] = 0 := rfl
      rw [hnone, Nat.cast_zero]
      exact add_nonneg rl.burst_nonneg (mul_nonneg rl.ratePerSec_pos.le hwindow)
  | cons e es ih =>
      intro now entries hsound hstart horder hfrom hneutral
      have hnow : now ≤ e.time := hfrom e List.mem_cons_self
      rcases List.pairwise_cons.1 horder with ⟨hfirst, horder'⟩
      rcases lt_or_ge e.time start with hearly | hreached
      · -- before the window nothing counts
        have hout : ¬ AdmittedIn digest start (start + window) (e, (rl.step e entries).1) :=
          fun hin => absurd hin.2.2.1 (not_le.2 hearly)
        rw [admitted_cons, if_neg hout, Nat.add_zero]
        exact ih (step_sound (hsound.later hnow)) hearly.le horder' hfirst
          fun x hx => hneutral x (List.mem_cons_of_mem _ hx)
      · have hall : ∀ x ∈ e :: es, start ≤ x.time := by
          intro x hx
          rcases List.mem_cons.1 hx with rfl | hx
          · exact hreached
          · exact hreached.trans (hfirst x hx)
        calc
          _ ≤ rl.held start digest entries + (start + window - start) * rl.ratePerSec :=
              admitted_le_held (hsound.later hstart) (le_add_of_nonneg_right hwindow) horder hall
                hneutral
          _ ≤ rl.burst + (start + window - start) * rl.ratePerSec :=
              add_le_add (TokenBucket.balance_le_burst _) (le_refl _)
          _ = rl.burst + rl.ratePerSec * window := by ring

theorem neutral_of_safe (hsafe : (rl.burst : ℚ) ≤ 10 * rl.perMinute) (e : RateEvent) :
    rl.Neutral e :=
  fun _ => hsafe

theorem bounded_of_safe (hsafe : (rl.burst : ℚ) ≤ 10 * rl.perMinute) : rl.Bounded := by
  intro events horder digest start window hwindow
  cases events with
  | nil => exact admitted_le hwindow (rl.sound_empty start) (le_refl _) horder (by simp) (by simp)
  | cons e es =>
      refine admitted_le hwindow (rl.sound_empty (min start e.time)) (min_le_left _ _) horder ?_
        fun x _ => neutral_of_safe hsafe x
      intro x hx
      rcases List.mem_cons.1 hx with rfl | hx
      · exact min_le_right _ _
      · exact (min_le_right _ _).trans ((List.pairwise_cons.1 horder).1 x hx)

/-! ## What a sweep changes -/

/-- Buckets that hold the same answer the same. -/
theorem log_congr (hsafe : (rl.burst : ℚ) ≤ 10 * rl.perMinute) {events : List RateEvent} :
    ∀ {now : ℚ} {entries entries' : Entries}, rl.Sound now entries → rl.Sound now entries' →
      (∀ digest, rl.held now digest entries = rl.held now digest entries') → InOrder events →
        (∀ e ∈ events, now ≤ e.time) → rl.log entries events = rl.log entries' events := by
  induction events with
  | nil =>
      intro now entries entries' _ _ _ _ _
      rfl
  | cons e es ih =>
      intro now entries entries' hsound hsound' hsame horder hfrom
      have hnow : now ≤ e.time := hfrom e List.mem_cons_self
      have hs := hsound.later hnow
      have hs' := hsound'.later hnow
      rcases List.pairwise_cons.1 horder with ⟨hfirst, horder'⟩
      have hheld : ∀ digest, rl.held e.time digest entries = rl.held e.time digest entries' := by
        intro digest
        unfold held
        rw [TokenBucket.balance_later rl.ratePerSec_pos.le hnow (entries digest),
          TokenBucket.balance_later rl.ratePerSec_pos.le hnow (entries' digest)]
        exact congrArg (fun x => min (x + _) _) (hsame digest)
      -- the same balance gives the same answer and takes the same from it
      have hanswer : (rl.step e entries).1 = (rl.step e entries').1 := by
        unfold step
        split
        next target _ =>
          rw [allow_eq hs, allow_eq hs']
          have htake : TokenBucket.take rl.ratePerSec rl.burst e.time (entries target) =
              TokenBucket.take rl.ratePerSec rl.burst e.time (entries' target) :=
            TokenBucket.take_congr (hheld target)
          dsimp only
          rw [htake]
        next => rfl
      have hleft : ∀ digest, rl.held e.time digest (rl.step e entries).2 =
          rl.held e.time digest (rl.step e entries').2 := by
        intro digest
        have h := step_held (neutral_of_safe hsafe e) hs digest
        have h' := step_held (neutral_of_safe hsafe e) hs' digest
        rw [hheld digest, ← h', hanswer] at h
        exact add_left_cancel h
      rw [log, log, hanswer, ih (step_sound hs) (step_sound hs') hleft horder' hfirst]

theorem after_sound {events : List RateEvent} {t : ℚ} :
    ∀ {now : ℚ} {entries : Entries}, rl.Sound now entries → now ≤ t → InOrder events →
      (∀ e ∈ events, now ≤ e.time ∧ e.time ≤ t) → rl.Sound t (rl.after entries events) := by
  induction events with
  | nil =>
      intro now entries hsound hnow _ _
      exact hsound.later hnow
  | cons e es ih =>
      intro now entries hsound _ horder htimes
      rcases List.pairwise_cons.1 horder with ⟨hfirst, horder'⟩
      have htime := htimes e List.mem_cons_self
      exact ih (step_sound (hsound.later htime.1)) htime.2 horder' fun x hx =>
        ⟨hfirst x hx, (htimes x (List.mem_cons_of_mem _ hx)).2⟩

/-- What a run leaves is in order whenever the run is over. -/
theorem after_empty_sound {events : List RateEvent} {t : ℚ} (horder : InOrder events)
    (htimes : ∀ e ∈ events, e.time ≤ t) : rl.Sound t (rl.after Entries.empty events) := by
  cases events with
  | nil => exact rl.sound_empty t
  | cons e es =>
      have hfirst := (List.pairwise_cons.1 horder).1
      refine after_sound (rl.sound_empty e.time) (htimes e List.mem_cons_self) horder ?_
      intro x hx
      rcases List.mem_cons.1 hx with rfl | hx'
      · exact ⟨le_refl _, htimes _ hx⟩
      · exact ⟨hfirst x hx', htimes x hx⟩

theorem harmless_of_safe (hsafe : (rl.burst : ℚ) ≤ 10 * rl.perMinute) : rl.SweepHarmless := by
  intro before time rest horder
  rcases List.pairwise_append.1 horder with ⟨hbefore, hafter, hacross⟩
  rcases List.pairwise_cons.1 hafter with ⟨hfrom, hrest⟩
  have hsound : rl.Sound time (rl.after Entries.empty before) :=
    after_empty_sound hbefore fun e he => hacross e he ⟨time, .sweep⟩ List.mem_cons_self
  have hswept : rl.Sound time (sweepRateLimiters time (rl.after Entries.empty before)) :=
    fun digest b hb => hsound digest b (mem_sweep hb)
  rw [log_congr hsafe hswept hsound (held_sweep hsafe hsound) hrest hfrom]
  exact List.forall₂_same.2 fun x _ h => h

/-! ## A burst that ten minutes do not fill -/

/-- As many requests as a bucket holds are all admitted, and taken from it. -/
theorem drain {digest : Text} {t : ℚ} (k : Nat) :
    ∀ {entries : Entries}, rl.Sound t entries → (k : ℚ) ≤ rl.held t digest entries →
      rl.log entries (List.replicate k ⟨t, .allow digest⟩) =
          List.replicate k (⟨t, .allow digest⟩, true) ∧
        (0 < k → rl.after entries (List.replicate k ⟨t, .allow digest⟩) digest =
          some ⟨rl.held t digest entries - k, t⟩) := by
  -- on how many: each one finds a token and leaves one fewer
  induction k with
  | zero =>
      intro entries _ _
      exact ⟨rfl, fun h => absurd h (Nat.lt_irrefl 0)⟩
  | succ k ih =>
      intro entries hsound hk
      have hone : 1 ≤ rl.held t digest entries := by
        have hcast : (1 : ℚ) ≤ ((k + 1 : Nat) : ℚ) := by
          rw [Nat.cast_add, Nat.cast_one]
          exact le_add_of_nonneg_left (Nat.cast_nonneg k)
        exact hcast.trans hk
      have htake : TokenBucket.take rl.ratePerSec rl.burst t (entries digest) =
          (true, ⟨rl.held t digest entries - 1, t⟩) := if_pos hone
      have hstep : rl.step ⟨t, .allow digest⟩ entries =
          (true, Function.update entries digest (some ⟨rl.held t digest entries - 1, t⟩)) := by
        have heq : rl.step ⟨t, .allow digest⟩ entries = rl.allow t digest entries := rfl
        rw [heq, allow_eq hsound, htake]
      have hsound' : rl.Sound t (rl.step ⟨t, .allow digest⟩ entries).2 := step_sound hsound
      have hheld : rl.held t digest (rl.step ⟨t, .allow digest⟩ entries).2 =
          rl.held t digest entries - 1 := by
        have hall := allow_held (e := ⟨t, .allow digest⟩) hsound rfl digest
        rw [hstep] at hall ⊢
        simp only [spent, TokenBucket.cost, if_true] at hall
        linarith
      have hrest := ih hsound' (by
        rw [hheld, le_sub_iff_add_le]
        exact_mod_cast hk)
      rw [List.replicate_succ, List.replicate_succ, log, hrest.1, hstep]
      refine ⟨rfl, fun _ => ?_⟩
      rw [after, List.foldl_cons]
      -- the last one leaves the bucket as it is then
      rcases Nat.eq_zero_or_pos k with hzero | hpos
      · subst hzero
        rw [hstep]
        simp
      · have hleft := hrest.2 hpos
        rw [after] at hleft
        rw [hleft, hheld, Nat.cast_add, Nat.cast_one, sub_sub, add_comm (1 : ℚ)]

theorem log_append (entries : Entries) (es fs : List RateEvent) :
    rl.log entries (es ++ fs) = rl.log entries es ++ rl.log (rl.after entries es) fs := by
  induction es generalizing entries with
  | nil => rfl
  | cons e es ih =>
      rw [List.cons_append, log, log, ih, after, after, List.foldl_cons, List.cons_append]

/-- The burst at one time. -/
def volley (rl : RateLimiters) (digest : Text) (t : ℚ) : List RateEvent :=
  List.replicate rl.burst.toNat ⟨t, .allow digest⟩

theorem volley_cast (rl : RateLimiters) : ((rl.burst.toNat : Nat) : ℚ) = rl.burst := by
  have h : ((rl.burst.toNat : Nat) : Int) = rl.burst := Int.toNat_of_nonneg rl.burst_pos.le
  exact_mod_cast congrArg (Int.cast : Int → ℚ) h

theorem time_of_mem_volley {digest : Text} {t : ℚ} {e : RateEvent}
    (h : e ∈ rl.volley digest t) : e = ⟨t, .allow digest⟩ :=
  List.eq_of_mem_replicate h

theorem inOrder_volley (rl : RateLimiters) (digest : Text) (t : ℚ) : InOrder (rl.volley digest t) :=
  List.pairwise_replicate.2 (Or.inr (le_refl t))

/-- A volley at the beginning empties the bucket. -/
theorem after_volley (digest : Text) :
    rl.after Entries.empty (rl.volley digest 0) digest = some ⟨0, 0⟩ := by
  have hfull : rl.held 0 digest Entries.empty = rl.burst := rfl
  have hdrain := (drain rl.burst.toNat (rl.sound_empty 0)
    (by rw [volley_cast, hfull] : _ ≤ rl.held 0 digest Entries.empty)).2
  rw [hfull, volley_cast, sub_self] at hdrain
  exact hdrain (by have := rl.burst_pos; omega)

variable {t : ℚ} (digest : Text)

theorem volley_sound (rl : RateLimiters) (ht : 0 ≤ t) : rl.Sound t (rl.after Entries.empty (rl.volley digest 0)) :=
  after_empty_sound (inOrder_volley rl digest 0) fun e he => by
    rw [time_of_mem_volley he]
    exact ht

/-- After more than ten minutes a sweep makes room for another volley. -/
theorem log_swept (ht : 10 * 60 < t) :
    rl.log (sweepRateLimiters t (rl.after Entries.empty (rl.volley digest 0)))
        (rl.volley digest t) =
      List.replicate rl.burst.toNat (⟨t, .allow digest⟩, true) := by
  have hsound := volley_sound digest rl (le_trans (by norm_num) ht.le)
  have hgone : sweepRateLimiters t (rl.after Entries.empty (rl.volley digest 0)) digest = none := by
    have hlate : decide (t - 10 * 60 ≤ (0 : ℚ)) = false := decide_eq_false (by linarith)
    simp only [sweepRateLimiters, after_volley, Option.filter, hlate, Bool.false_eq_true, if_false]
  refine (drain rl.burst.toNat (fun d b hb => hsound d b (mem_sweep hb)) ?_).1
  rw [volley_cast, held, hgone, TokenBucket.balance_none]

theorem log_volley :
    rl.log Entries.empty (rl.volley digest 0) =
      List.replicate rl.burst.toNat (⟨0, .allow digest⟩, true) :=
  (drain rl.burst.toNat (rl.sound_empty 0) (volley_cast rl).le).1

/-- Two volleys with a sweep between them. -/
def barrage (rl : RateLimiters) (digest : Text) (t : ℚ) : List RateEvent :=
  rl.volley digest 0 ++ ⟨t, .sweep⟩ :: rl.volley digest t

theorem inOrder_barrage (rl : RateLimiters) (ht : 0 ≤ t) : InOrder (rl.barrage digest t) := by
  refine List.pairwise_append.2 ⟨inOrder_volley rl digest 0, ?_, ?_⟩
  · refine List.pairwise_cons.2 ⟨fun e he => ?_, inOrder_volley rl digest t⟩
    rw [time_of_mem_volley he]
  · intro e he x hx
    rw [time_of_mem_volley he]
    rcases List.mem_cons.1 hx with rfl | hx
    · exact ht
    · rw [time_of_mem_volley hx]
      exact ht

theorem admitted_barrage (ht : 10 * 60 < t) :
    rl.admitted digest 0 (0 + t) Entries.empty (rl.barrage digest t) =
      rl.burst.toNat + rl.burst.toNat := by
  have hpos : 0 ≤ t := le_trans (by norm_num) ht.le
  have hfirst : AdmittedIn digest 0 (0 + t) (⟨0, .allow digest⟩, true) :=
    ⟨rfl, rfl, le_refl _, by simpa using hpos⟩
  have hsecond : AdmittedIn digest 0 (0 + t) (⟨t, .allow digest⟩, true) :=
    ⟨rfl, rfl, hpos, by simp⟩
  have hsweep : ¬ AdmittedIn digest 0 (0 + t) (⟨t, .sweep⟩, false) := fun h => nomatch h.1
  unfold admitted barrage
  rw [log_append, log_volley, log]
  have hstep : ∀ entries, rl.step ⟨t, .sweep⟩ entries = (false, sweepRateLimiters t entries) :=
    fun _ => rfl
  rw [hstep, log_swept digest ht, List.countP_append, List.countP_cons, List.countP_replicate,
    List.countP_replicate]
  simp only [hfirst, hsecond, hsweep, decide_true, decide_false, Bool.false_eq_true, if_true,
    if_false, Nat.add_zero]

/-- Where ten minutes do not fill a bucket, a bit more than that does not either. -/
theorem exists_time (h : 10 * rl.perMinute < rl.burst) :
    ∃ t : ℚ, 10 * 60 < t ∧ t * rl.ratePerSec < rl.burst := by
  have hbound : 10 * 60 < (rl.burst : ℚ) / rl.ratePerSec := by
    rw [lt_div_iff₀ rl.ratePerSec_pos]
    calc
      10 * 60 * rl.ratePerSec = 10 * rl.perMinute := by
          unfold ratePerSec
          ring
      _ < rl.burst := h
  rcases exists_between hbound with ⟨t, hlong, hshort⟩
  exact ⟨t, hlong, (lt_div_iff₀ rl.ratePerSec_pos).1 hshort⟩

theorem safe_of_bounded (h : rl.Bounded) : (rl.burst : ℚ) ≤ 10 * rl.perMinute := by
  by_contra hlarge
  rcases exists_time (not_le.1 hlarge) with ⟨t, hlong, hshort⟩
  have hpos : 0 ≤ t := le_trans (by norm_num) hlong.le
  have hcount := h _ (inOrder_barrage [] rl hpos) [] 0 t hpos
  rw [admitted_barrage [] hlong, Nat.cast_add, volley_cast, mul_comm] at hcount
  linarith

theorem log_map_fst (rl : RateLimiters) (entries : Entries) (events : List RateEvent) :
    (rl.log entries events).map Prod.fst = events := by
  induction events generalizing entries with
  | nil => rfl
  | cons e es ih => rw [log, List.map_cons, ih]

theorem all_of_forall₂ {l l' : List (RateEvent × Bool)}
    (h : List.Forall₂ (fun swept kept => swept.2 = true → kept.2 = true) l l')
    (hall : ∀ x ∈ l, x.2 = true) : ∀ x ∈ l', x.2 = true := by
  induction h with
  | nil => exact fun x hx => nomatch hx
  | cons hfirst _ ih =>
      intro x hx
      rcases List.mem_cons.1 hx with rfl | hx
      · exact hfirst (hall _ List.mem_cons_self)
      · exact ih (fun y hy => hall y (List.mem_cons_of_mem _ hy)) x hx

theorem safe_of_harmless (h : rl.SweepHarmless) : (rl.burst : ℚ) ≤ 10 * rl.perMinute := by
  by_contra hlarge
  rcases exists_time (not_le.1 hlarge) with ⟨t, hlong, hshort⟩
  have hpos : 0 ≤ t := le_trans (by norm_num) hlong.le
  have hsound := volley_sound [] rl hpos
  have hharmless := h _ t _ (inOrder_barrage [] rl hpos)
  rw [log_swept [] hlong] at hharmless
  have hkept := all_of_forall₂ hharmless fun x hx => by rw [List.eq_of_mem_replicate hx]
  -- without the sweep the bucket would have admitted the whole volley, too
  have hcount : rl.admitted [] t t (rl.after Entries.empty (rl.volley [] 0)) (rl.volley [] t) =
      rl.burst.toNat := by
    have hlength := congrArg List.length
      (log_map_fst rl (rl.after Entries.empty (rl.volley [] 0)) (rl.volley [] t))
    have hvolley : (rl.volley [] t).length = rl.burst.toNat := List.length_replicate
    rw [List.length_map, hvolley] at hlength
    unfold admitted
    rw [← hlength]
    refine List.countP_eq_length.2 fun x hx => decide_eq_true ?_
    have hmem : x.1 ∈ _ := List.mem_map_of_mem hx
    rw [log_map_fst] at hmem
    have hevent : x.1 = ⟨t, .allow []⟩ := time_of_mem_volley hmem
    exact ⟨by rw [hevent], hkept x hx, by rw [hevent], by rw [hevent]⟩
  have hfew : (rl.admitted [] t t _ (rl.volley [] t) : ℚ) ≤ _ :=
    admitted_le_held hsound (le_refl t) (inOrder_volley rl [] t)
      (fun e he => by rw [time_of_mem_volley he])
      (fun e he hsweep => by
        rw [time_of_mem_volley he] at hsweep
        cases hsweep)
  have hheld : rl.held t [] (rl.after Entries.empty (rl.volley [] 0)) = t * rl.ratePerSec := by
    unfold held
    rw [after_volley, TokenBucket.balance_of_idle (by rwa [sub_zero]), sub_zero]
  rw [hcount, volley_cast, hheld, sub_self, zero_mul, add_zero] at hfew
  linarith

/-- A module keeps to its burst and its rate, and sweeps are harmless, where ten minutes fill a
bucket. -/
theorem limited_iff (rl : RateLimiters) :
    (rl.Bounded ↔ (rl.burst : ℚ) ≤ 10 * rl.perMinute) ∧
      (rl.SweepHarmless ↔ (rl.burst : ℚ) ≤ 10 * rl.perMinute) :=
  ⟨⟨safe_of_bounded, bounded_of_safe⟩, ⟨safe_of_harmless, harmless_of_safe⟩⟩

/-- Six requests an hour, two at once. -/
def sixAnHour : RateLimiters where
  perMinute := 1 / 10
  burst := 2
  perMinute_pos := by decide +kernel
  burst_pos := by decide

/-- With these flags four requests are admitted within 601 seconds, of which the last two only
because of the sweep. -/
theorem sweep_doubles_burst :
    let requests : List RateEvent := [⟨601, .allow []⟩, ⟨601, .allow []⟩]
    let events : List RateEvent :=
      [⟨0, .allow []⟩, ⟨0, .allow []⟩, ⟨601, .sweep⟩] ++ requests
    let kept := sixAnHour.after Entries.empty [⟨0, .allow []⟩, ⟨0, .allow []⟩]
    rateLimits (1 / 10) 2 = some sixAnHour ∧ InOrder events ∧
      sixAnHour.admitted [] 0 (0 + 601) Entries.empty events = 4 ∧
      ¬ (4 : ℚ) ≤ sixAnHour.burst + sixAnHour.ratePerSec * 601 ∧
      (sixAnHour.log (sweepRateLimiters 601 kept) requests).map Prod.snd = [true, true] ∧
      (sixAnHour.log kept requests).map Prod.snd = [true, false] := by
  refine ⟨?_, ?_, ?_, ?_, ?_, ?_⟩
  · have hrate : (0 : ℚ) < 1 / 10 := sixAnHour.perMinute_pos
    unfold rateLimits
    rw [dif_pos hrate]
    rfl
  · simp [InOrder]
  · decide +kernel
  · decide +kernel
  · decide +kernel
  · decide +kernel

end RateLimiters
end FunctionWasm
