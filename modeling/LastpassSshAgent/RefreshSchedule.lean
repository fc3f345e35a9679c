import LastpassSshAgent.Conduct
import LastpassSshAgent.Transitions.Runs

/-!
# When the identities are refreshed

The refresher keeps when its last attempt began and whether a scan is in flight. Its
calls run through without an await on the agent's one thread, so signatures, the start and
the ends of scans come one after another, in any order.
-/

namespace LastpassSshAgent

open Transitions

structure Schedule where
  last : Option ℕ
  running : Bool
  deriving DecidableEq, Repr

namespace Schedule

/-- Whether an attempt is due, and if so, that one has now begun. The clock is read
twice. -/
def due (interval elapsedAt now : ℕ) (schedule : Schedule) : Bool × Schedule :=
  if schedule.last.any fun began => elapsedAt - began < interval then (false, schedule)
  else (true, { schedule with last := some now })

/-- Whether there was no scan running, so that one is spawned. -/
def spawn (schedule : Schedule) : Bool × Schedule :=
  if schedule.running then (false, schedule) else (true, { schedule with running := true })

def afterSignature (interval elapsedAt now : ℕ) (schedule : Schedule) : Bool × Schedule :=
  if schedule.running then (false, schedule)
  else
    match schedule.due interval elapsedAt now with
    | (false, schedule) => (false, schedule)
    | (true, schedule) => schedule.spawn

def atStartup (schedule : Schedule) : Bool × Schedule := schedule.spawn

def ended (schedule : Schedule) : Schedule := { schedule with running := false }

end Schedule

inductive Trigger where
  | startup
  | signature (began : ℕ)
  deriving DecidableEq, Repr

/-- How a scan returns: without the keys to look for, without all of them, or with a new
set in place. -/
inductive ScanOutcome where
  | noKeys
  | incomplete
  | replaced
  deriving DecidableEq, Repr

inductive RefreshAct where
  | startup (spawned : Bool)
  | signature (elapsedAt now : ℕ) (spawned : Bool)
  | ended (scan : Trigger) (outcome : ScanOutcome)
  deriving DecidableEq, Repr

structure Refreshing where
  clock : ℕ
  schedule : Schedule
  inFlight : List Trigger
  deriving DecidableEq, Repr

def Refreshing.start (clock : ℕ) : Refreshing := ⟨clock, ⟨none, false⟩, []⟩

/-- The scans in flight once one has been spawned, or not. -/
def launched (scan : Trigger) (spawned : Bool) (inFlight : List Trigger) : List Trigger :=
  if spawned then scan :: inFlight else inFlight

inductive RefreshStep (interval : ℕ) : Refreshing → RefreshAct → Refreshing → Prop
  | startup {s : Refreshing} {now : ℕ} (hnow : s.clock ≤ now) :
      RefreshStep interval s (.startup s.schedule.atStartup.1)
        ⟨now, s.schedule.atStartup.2, launched .startup s.schedule.atStartup.1 s.inFlight⟩
  | signature {s : Refreshing} {elapsedAt now : ℕ} (helapsed : s.clock ≤ elapsedAt)
      (hnow : elapsedAt ≤ now) :
      RefreshStep interval s
        (.signature elapsedAt now (s.schedule.afterSignature interval elapsedAt now).1)
        ⟨now, (s.schedule.afterSignature interval elapsedAt now).2,
          launched (.signature now) (s.schedule.afterSignature interval elapsedAt now).1 s.inFlight⟩
  | ended {s : Refreshing} {now : ℕ} {scan : Trigger} (outcome : ScanOutcome)
      (hnow : s.clock ≤ now) (hscan : scan ∈ s.inFlight) :
      RefreshStep interval s (.ended scan outcome)
        ⟨now, s.schedule.ended, s.inFlight.erase scan⟩

abbrev Refreshes (interval start : ℕ) (acts : List RefreshAct) (s : Refreshing) : Prop :=
  Runs (RefreshStep interval) (.start start) acts s

def signatureStarts (acts : List RefreshAct) : List ℕ :=
  acts.filterMap fun
    | .signature _ now true => some now
    | _ => none

/-! ### One call -/

namespace Schedule

variable {schedule : Schedule} {interval elapsedAt now : ℕ}

/-- The last attempt began within the interval. -/
def Spent (interval elapsedAt : ℕ) (schedule : Schedule) : Prop :=
  ∃ began, schedule.last = some began ∧ elapsedAt - began < interval

theorem due_of_spent (h : schedule.Spent interval elapsedAt) :
    schedule.due interval elapsedAt now = (false, schedule) := by
  obtain ⟨began, hlast, hspent⟩ := h
  rw [due, hlast, Option.any_some, if_pos (decide_eq_true hspent)]

theorem due_of_unspent (h : ¬ schedule.Spent interval elapsedAt) :
    schedule.due interval elapsedAt now = (true, { schedule with last := some now }) := by
  have hdue : ¬ (schedule.last.any fun began => elapsedAt - began < interval) = true := by
    rw [Option.any_eq_true]
    rintro ⟨began, hlast, hspent⟩
    exact h ⟨began, hlast, of_decide_eq_true hspent⟩
  exact if_neg hdue

theorem spawn_of_running (h : schedule.running = true) : schedule.spawn = (false, schedule) :=
  if_pos h

theorem spawn_of_idle (h : schedule.running = false) :
    schedule.spawn = (true, ⟨schedule.last, true⟩) := if_neg (by simp [h])

theorem afterSignature_of_running (h : schedule.running = true) :
    schedule.afterSignature interval elapsedAt now = (false, schedule) := if_pos h

theorem afterSignature_of_spent (h : schedule.Spent interval elapsedAt) :
    schedule.afterSignature interval elapsedAt now = (false, schedule) := by
  rw [afterSignature, due_of_spent h]
  exact ite_self _

theorem afterSignature_of_unspent (hidle : schedule.running = false)
    (h : ¬ schedule.Spent interval elapsedAt) :
    schedule.afterSignature interval elapsedAt now = (true, ⟨some now, true⟩) := by
  rw [afterSignature, if_neg (by simp [hidle]), due_of_unspent h]
  exact spawn_of_idle hidle

end Schedule

@[simp] theorem signatureStarts_nil : signatureStarts [] = [] := rfl

@[simp] theorem signatureStarts_concat (acts : List RefreshAct) (a : RefreshAct) :
    signatureStarts (acts ++ [a]) = signatureStarts acts ++ signatureStarts [a] :=
  List.filterMap_append ..

/-! ### What every sequence of calls keeps -/

structure Scheduled (interval : ℕ) (acts : List RefreshAct) (s : Refreshing) : Prop where
  /-- The flag is up just while a scan is in flight, and there is one of those. -/
  single : s.inFlight.length = if s.schedule.running then 1 else 0
  /-- Only a scan for a signature spends the throttle. -/
  spent : s.schedule.last = (signatureStarts acts).getLast?
  past : ∀ began ∈ signatureStarts acts, began ≤ s.clock
  spaced : (signatureStarts acts).Pairwise fun earlier later => earlier + interval ≤ later

variable {interval start : ℕ} {acts : List RefreshAct} {s s' : Refreshing} {a : RefreshAct}

theorem Scheduled.le_last (h : Scheduled interval acts s) {began last : ℕ}
    (hlast : (signatureStarts acts).getLast? = some last) (hbegan : began ∈ signatureStarts acts) :
    began ≤ last := by
  obtain ⟨front, hfront⟩ := List.getLast?_eq_some_iff.mp hlast
  have hspaced := h.spaced
  rw [hfront] at hbegan hspaced
  rcases List.mem_append.mp hbegan with hearlier | hself
  · have hapart := (List.pairwise_append.mp hspaced).2.2 began hearlier last List.mem_cons_self
    omega
  · exact (List.mem_singleton.mp hself).le

theorem Scheduled.spent_iff (h : Scheduled interval acts s) {elapsedAt : ℕ}
    (helapsed : s.clock ≤ elapsedAt) : s.schedule.Spent interval elapsedAt ↔
      ∃ began ∈ signatureStarts acts, elapsedAt < began + interval := by
  rw [Schedule.Spent, h.spent]
  constructor
  · rintro ⟨last, hlast, hspent⟩
    have hmem := List.mem_of_getLast? hlast
    have hpast := h.past last hmem
    exact ⟨last, hmem, by omega⟩
  · rintro ⟨began, hbegan, hrecent⟩
    obtain ⟨last, hlast⟩ := Option.isSome_iff_exists.mp
      (List.getLast?_isSome.mpr (List.ne_nil_of_mem hbegan))
    have hle := h.le_last hlast hbegan
    have hpast := h.past last (List.mem_of_getLast? hlast)
    exact ⟨last, hlast, by omega⟩

/-- A call that finds a scan running, or the throttle spent, leaves only the time changed. -/
theorem Scheduled.kept (h : Scheduled interval acts s) {now : ℕ} (hnow : s.clock ≤ now)
    (ha : signatureStarts [a] = []) : Scheduled interval (acts ++ [a]) { s with clock := now } where
  single := h.single
  spent := by rw [signatureStarts_concat, ha, List.append_nil, h.spent]
  past began hbegan := by
    rw [signatureStarts_concat, ha, List.append_nil] at hbegan
    exact (h.past began hbegan).trans hnow
  spaced := by
    rw [signatureStarts_concat, ha, List.append_nil]
    exact h.spaced

theorem Scheduled.idle (h : Scheduled interval acts s) (hidle : s.schedule.running = false) :
    s.inFlight = [] := by
  have hsingle := h.single
  rw [hidle] at hsingle
  exact List.eq_nil_of_length_eq_zero hsingle

theorem Scheduled.step (h : Scheduled interval acts s) (hstep : RefreshStep interval s a s') :
    Scheduled interval (acts ++ [a]) s' := by
  cases hstep with
  | @startup now hnow =>
    by_cases hrunning : s.schedule.running = true
    · rw [Schedule.atStartup, Schedule.spawn_of_running hrunning]
      exact h.kept hnow rfl
    · have hidle := Bool.eq_false_iff.mpr hrunning
      rw [Schedule.atStartup, Schedule.spawn_of_idle hidle, h.idle hidle]
      obtain ⟨-, hspent, hpast, hspaced⟩ := h.kept (a := .startup true) hnow rfl
      exact ⟨rfl, hspent, hpast, hspaced⟩
  | @signature elapsedAt now helapsed hnow =>
    have htime := helapsed.trans hnow
    by_cases hrunning : s.schedule.running = true
    · rw [Schedule.afterSignature_of_running hrunning]
      exact h.kept htime rfl
    · by_cases hspent : s.schedule.Spent interval elapsedAt
      · rw [Schedule.afterSignature_of_spent hspent]
        exact h.kept htime rfl
      · have hidle := Bool.eq_false_iff.mpr hrunning
        rw [Schedule.afterSignature_of_unspent hidle hspent, h.idle hidle]
        have hstarts : signatureStarts (acts ++ [.signature elapsedAt now true]) =
            signatureStarts acts ++ [now] := signatureStarts_concat ..
        rw [h.spent_iff helapsed] at hspent
        refine ⟨rfl, by simp [hstarts], fun began hbegan => ?_, ?_⟩
        · rw [hstarts] at hbegan
          rcases List.mem_append.mp hbegan with hearlier | hself
          · exact (h.past began hearlier).trans htime
          · exact (List.mem_singleton.mp hself).le
        · rw [hstarts, List.pairwise_append]
          refine ⟨h.spaced, List.pairwise_singleton _ _, fun began hbegan later hlater => ?_⟩
          obtain rfl := List.mem_singleton.mp hlater
          by_contra hclose
          exact hspent ⟨began, hbegan, by omega⟩
  | @ended now scan outcome hnow hscan =>
    obtain ⟨-, hspent, hpast, hspaced⟩ := h.kept (a := .ended scan outcome) hnow rfl
    have hlength := List.length_erase_of_mem hscan
    have hone : s.inFlight.length ≤ 1 := by
      rw [h.single]
      split_ifs <;> omega
    exact ⟨by rw [hlength]; simp [Schedule.ended]; omega, hspent, hpast, hspaced⟩

theorem scheduled_of_refreshes (h : Refreshes interval start acts s) : Scheduled interval acts s :=
  h.invariant (Scheduled interval) ⟨rfl, rfl, by simp, by simp⟩ fun _ _ _ _ => Scheduled.step

/-! ### When scans begin and end -/

structure KeepsSchedule (interval start : ℕ) : Prop where
  oneScan : ∀ acts s, Refreshes interval start acts s → s.inFlight.length ≤ 1
  spaced : ∀ acts s, Refreshes interval start acts s →
    (signatureStarts acts).Pairwise fun earlier later => earlier + interval ≤ later
  /-- A start that is counted is the time of a scan that was put in flight. -/
  counted : ∀ acts s elapsedAt now spawned s', Refreshes interval start acts s →
    RefreshStep interval s (.signature elapsedAt now spawned) s' →
      s'.inFlight = launched (.signature now) spawned s.inFlight
  /-- Only a signature that triggers a scan spends the throttle. -/
  unspent : ∀ acts s a s', Refreshes interval start acts s → RefreshStep interval s a s' →
    (∀ elapsedAt now, a ≠ .signature elapsedAt now true) → s'.schedule.last = s.schedule.last
  triggers : ∀ acts s elapsedAt now spawned s', Refreshes interval start acts s →
    RefreshStep interval s (.signature elapsedAt now spawned) s' →
      (spawned = true ↔ s.inFlight = [] ∧
        ∀ began ∈ signatureStarts acts, began + interval ≤ elapsedAt)
  cleared : ∀ acts s scan outcome s', Refreshes interval start acts s →
    RefreshStep interval s (.ended scan outcome) s' →
      s'.schedule.running = false ∧ s'.inFlight = []
  /-- Any call may come at any time, and any scan in flight may end in any way. -/
  anyOrder : ∀ acts s, Refreshes interval start acts s → ∀ elapsedAt now,
    s.clock ≤ elapsedAt → elapsedAt ≤ now →
      (∃ spawned s', RefreshStep interval s (.startup spawned) s' ∧ s'.clock = now) ∧
      (∃ spawned s', RefreshStep interval s (.signature elapsedAt now spawned) s') ∧
      ∀ scan ∈ s.inFlight, ∀ outcome, ∃ s', RefreshStep interval s (.ended scan outcome) s' ∧
        s'.clock = now

theorem Scheduled.length_le (h : Scheduled interval acts s) : s.inFlight.length ≤ 1 := by
  rw [h.single]
  split_ifs <;> omega

theorem Scheduled.running_iff (h : Scheduled interval acts s) :
    s.schedule.running = true ↔ s.inFlight ≠ [] := by
  rw [← List.length_pos_iff, h.single]
  cases s.schedule.running <;> simp

/-- A signature triggers a scan when none runs and none for a signature began within the
interval. -/
theorem Scheduled.triggers_iff (h : Scheduled interval acts s) {elapsedAt now : ℕ} {spawned : Bool}
    (hstep : RefreshStep interval s (.signature elapsedAt now spawned) s') :
    spawned = true ↔ s.inFlight = [] ∧
      ∀ began ∈ signatureStarts acts, began + interval ≤ elapsedAt := by
  cases hstep with
  | signature helapsed hnow =>
    have hrecent := h.spent_iff helapsed
    by_cases hrunning : s.schedule.running = true
    · rw [Schedule.afterSignature_of_running hrunning]
      exact iff_of_false nofun fun hidle => h.running_iff.mp hrunning hidle.1
    · have hidle := Bool.eq_false_iff.mpr hrunning
      by_cases hspent : s.schedule.Spent interval elapsedAt
      · rw [Schedule.afterSignature_of_spent hspent]
        refine iff_of_false nofun fun hfar => ?_
        obtain ⟨began, hbegan, hclose⟩ := hrecent.mp hspent
        have hbefore := hfar.2 began hbegan
        omega
      · rw [Schedule.afterSignature_of_unspent hidle hspent]
        refine iff_of_true rfl ⟨h.idle hidle, fun began hbegan => ?_⟩
        by_contra hclose
        exact hspent (hrecent.mpr ⟨began, hbegan, by omega⟩)

theorem signatureStarts_of_unspent (h : ∀ elapsedAt now, a ≠ .signature elapsedAt now true) :
    signatureStarts [a] = [] := by
  cases a with
  | startup spawned => rfl
  | signature elapsedAt now spawned =>
    cases spawned with
    | false => rfl
    | true => exact absurd rfl (h elapsedAt now)
  | ended scan outcome => rfl

theorem keeps_schedule (interval start : ℕ) : KeepsSchedule interval start where
  oneScan acts s h := (scheduled_of_refreshes h).length_le
  spaced acts s h := (scheduled_of_refreshes h).spaced
  counted acts s elapsedAt now spawned s' _ hstep := by
    cases hstep with
    | signature _ _ => rfl
  unspent acts s a s' h hstep hkind := by
    have hspent := (scheduled_of_refreshes h).spent
    have hspent' := (scheduled_of_refreshes (h.step hstep)).spent
    have hsame : signatureStarts (acts ++ [a]) = signatureStarts acts := by
      rw [signatureStarts_concat, signatureStarts_of_unspent hkind, List.append_nil]
    rw [hspent', hsame, hspent]
  triggers acts s elapsedAt now spawned s' h := (scheduled_of_refreshes h).triggers_iff
  cleared acts s scan outcome s' h hstep := by
    have hs := scheduled_of_refreshes h
    cases hstep with
    | ended _ hnow hscan =>
      refine ⟨rfl, List.eq_nil_of_length_eq_zero ?_⟩
      rw [List.length_erase_of_mem hscan]
      have := hs.length_le
      omega
  anyOrder acts s h elapsedAt now helapsed hnow :=
    ⟨⟨_, _, .startup (helapsed.trans hnow), rfl⟩, ⟨_, _, .signature helapsed hnow⟩,
      fun scan hscan outcome => ⟨_, .ended outcome (helapsed.trans hnow) hscan, rfl⟩⟩

/-! ### The agent's refresher -/

namespace Refresh

def schedule (refresh : Refresh) : Schedule := ⟨refresh.last, refresh.running⟩

variable (refresh : Refresh)

theorem schedule_spawn : refresh.spawn.schedule = refresh.schedule.spawn.2 := by
  unfold spawn Schedule.spawn
  by_cases hrunning : refresh.running = true
  · simp [schedule, hrunning]
  · simp [schedule, hrunning]

theorem schedule_atStartup : refresh.atStartup.schedule = refresh.schedule.atStartup.2 :=
  refresh.schedule_spawn

theorem schedule_afterSignature (clock : ℕ) : (refresh.afterSignature clock).schedule =
    (refresh.schedule.afterSignature REFRESH_INTERVAL clock clock).2 := by
  unfold afterSignature Schedule.afterSignature Schedule.due due
  by_cases hrunning : refresh.running = true
  · simp [schedule, hrunning]
  · cases hspent : refresh.last.any fun began => clock - began < REFRESH_INTERVAL with
    | false => simp [schedule, hrunning, hspent, spawn, Schedule.spawn]
    | true => simp [schedule, hrunning, hspent]

end Refresh

/-- The flags after an act of the agent's. -/
def scheduleAfter (act : Resumption.Act runtime) (w : World) : Schedule :=
  match act with
  | .noted .issued =>
    (w.refresh.schedule.afterSignature REFRESH_INTERVAL w.clock w.clock).2
  | .noted .scanned => w.refresh.schedule.ended
  | _ => w.refresh.schedule

theorem World.reject_refresh (w : World) : w.reject.refresh = w.refresh := by
  unfold reject
  split <;> rfl

theorem schedule_of_apply (e : Event) (w : World) :
    (w.apply e).refresh.schedule = scheduleAfter (.noted e) w := by
  cases e with
  | issued => exact w.refresh.schedule_afterSignature w.clock
  | rejected => exact congrArg Refresh.schedule w.reject_refresh
  | _ => rfl

theorem schedule_of_launch {task : Task} {w x : World} (h : World.launch task w = some x) :
    x.refresh.schedule = w.refresh.schedule := by
  cases task with
  | refresh =>
    have h' : (if 0 < w.refresh.queued then
        some { w with refresh := { w.refresh with queued := w.refresh.queued - 1 } } else none) =
          some x := h
    split_ifs at h'
    exact Option.some.inj h' ▸ rfl
  | _ => exact Option.some.inj h ▸ rfl

/-- No act of the agent's changes the flags but as the schedule says. -/
theorem schedule_of_legal {env : Env} {t : ℕ} {s s' : Resumption.Stage runtime}
    {act : Resumption.Act runtime} (h : env.rules.Legal s t act s') :
    s'.shared.refresh.schedule = scheduleAfter act s.shared := by
  cases h with
  | started _ hx => exact schedule_of_launch hx
  | began _ _ => rfl
  | answered _ hx =>
    rw [Resumption.Stage.push_shared, World.effect_eq hx]
    rfl
  | noted _ _ => exact schedule_of_apply _ _
  | ended _ _ => rfl

end LastpassSshAgent
