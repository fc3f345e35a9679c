import Mathlib.Data.List.Induction
import Mathlib.Data.List.ReduceOption
import LastpassSshAgent.Transitions.Runs

/-!
# The watch on the screen's lock

It forgets what opens the vault each time the screen goes from unlocked to locked, as far
as its readings tell, and gives up once they stop telling anything.
-/

namespace LastpassSshAgent.ScreenWatch

open Transitions

def MAX_UNREADABLE_IN_A_ROW : ℕ := 3

def lockingNow (previous current : Bool) : Bool := current && !previous

/-- What the loop keeps from one reading to the next. -/
structure Watching where
  previous : Bool
  current : Bool
  unreadableInARow : ℕ
  deriving DecidableEq, Repr

/-- Where the watch is: before the first reading, at the top of its loop, past the check
for a lock, waiting for the next reading, or returned. -/
inductive Watch where
  | asking
  | top (w : Watching)
  | checked (w : Watching)
  | polling (w : Watching)
  | returned
  deriving DecidableEq, Repr

inductive WatchAct where
  | isLocked (reading : Option Bool)
  | forget
  | sleep
  deriving DecidableEq, Repr

def Watch.start (enabled : Bool) : Watch := if enabled then .asking else .returned

inductive WatchStep : Watch → WatchAct → Watch → Prop
  | absent : WatchStep .asking (.isLocked none) .returned
  | first (locked : Bool) : WatchStep .asking (.isLocked (some locked)) (.top ⟨false, locked, 0⟩)
  | forget (w : Watching) (h : lockingNow w.previous w.current = true) :
      WatchStep (.top w) .forget (.checked w)
  | quiet (w : Watching) (h : lockingNow w.previous w.current = false) :
      WatchStep (.top w) .sleep (.polling { w with previous := w.current })
  | sleep (w : Watching) :
      WatchStep (.checked w) .sleep (.polling { w with previous := w.current })
  | read (w : Watching) (next : Bool) : WatchStep (.polling w) (.isLocked (some next))
      (.top { w with unreadableInARow := 0, current := next })
  | missed (w : Watching) (h : w.unreadableInARow + 1 < MAX_UNREADABLE_IN_A_ROW) :
      WatchStep (.polling w) (.isLocked none)
        (.top { w with unreadableInARow := w.unreadableInARow + 1 })
  | lost (w : Watching) (h : MAX_UNREADABLE_IN_A_ROW ≤ w.unreadableInARow + 1) :
      WatchStep (.polling w) (.isLocked none) .returned

abbrev Watches (enabled : Bool) (acts : List WatchAct) (w : Watch) : Prop :=
  Runs WatchStep (.start enabled) acts w

/-! ### Readings -/

def readings (acts : List WatchAct) : List (Option Bool) :=
  acts.filterMap fun
    | .isLocked reading => some reading
    | _ => none

@[simp] theorem readings_nil : readings [] = [] := rfl

theorem readings_append (front back : List WatchAct) :
    readings (front ++ back) = readings front ++ readings back := List.filterMap_append ..

@[simp] theorem readings_concat_isLocked (acts : List WatchAct) (reading : Option Bool) :
    readings (acts ++ [.isLocked reading]) = readings acts ++ [reading] := readings_append ..

@[simp] theorem readings_concat_forget (acts : List WatchAct) :
    readings (acts ++ [.forget]) = readings acts := by simp [readings]

@[simp] theorem readings_concat_sleep (acts : List WatchAct) :
    readings (acts ++ [.sleep]) = readings acts := by simp [readings]

def lastLocked (taken : List (Option Bool)) : Bool := taken.reduceOption.getLast?.getD false

@[simp] theorem lastLocked_nil : lastLocked [] = false := rfl

@[simp] theorem lastLocked_concat_some (taken : List (Option Bool)) (locked : Bool) :
    lastLocked (taken ++ [some locked]) = locked := by
  simp [lastLocked, List.reduceOption_append]

@[simp] theorem lastLocked_concat_none (taken : List (Option Bool)) :
    lastLocked (taken ++ [none]) = lastLocked taken := by
  simp [lastLocked, List.reduceOption_append]

/-- The readings have told nothing from the start, or nothing lately. -/
def Ended (taken : List (Option Bool)) : Prop :=
  taken = [none] ∨ List.replicate MAX_UNREADABLE_IN_A_ROW none <:+ taken

/-- How many readings in a row, up to the last, told nothing, after one that did. -/
def Outage (taken : List (Option Bool)) (n : ℕ) : Prop :=
  ∃ earlier locked, taken = earlier ++ some locked :: List.replicate n none

variable {taken : List (Option Bool)} {n : ℕ}

theorem Outage.missed (h : Outage taken n) : Outage (taken ++ [none]) (n + 1) := by
  obtain ⟨earlier, locked, rfl⟩ := h
  exact ⟨earlier, locked, by simp [List.replicate_succ']⟩

theorem Outage.ended_iff (h : Outage taken n) : Ended taken ↔ MAX_UNREADABLE_IN_A_ROW ≤ n := by
  obtain ⟨earlier, locked, rfl⟩ := h
  constructor
  · rintro (hone | hsuffix)
    · cases earlier with
      | nil => cases hone
      | cons reading earlier => simp at hone
    · by_contra hlt
      have hlast : some locked :: List.replicate n none <:+
          List.replicate MAX_UNREADABLE_IN_A_ROW none :=
        List.suffix_of_suffix_length_le (List.suffix_append _ _) hsuffix (by simp; omega)
      have hmem := hlast.subset List.mem_cons_self
      cases List.eq_of_mem_replicate hmem
  · intro hle
    refine .inr ⟨earlier ++ some locked :: List.replicate (n - MAX_UNREADABLE_IN_A_ROW) none, ?_⟩
    rw [List.append_assoc, List.cons_append, List.replicate_append_replicate, Nat.sub_add_cancel hle]

/-! ### Where the watch is -/

/-- The acts that lead to each place in the watch, and what it keeps there. -/
def At (enabled : Bool) (acts : List WatchAct) : Watch → Prop
  | .asking => enabled = true ∧ acts = []
  | .top w => enabled = true ∧ (∃ front reading, acts = front ++ [.isLocked reading] ∧
      w.previous = lastLocked (readings front)) ∧ w.current = lastLocked (readings acts) ∧
      Outage (readings acts) w.unreadableInARow ∧ w.unreadableInARow < MAX_UNREADABLE_IN_A_ROW
  | .checked w => enabled = true ∧ w.current = lastLocked (readings acts) ∧
      Outage (readings acts) w.unreadableInARow ∧ w.unreadableInARow < MAX_UNREADABLE_IN_A_ROW
  | .polling w => enabled = true ∧ w.previous = lastLocked (readings acts) ∧
      w.current = lastLocked (readings acts) ∧
      Outage (readings acts) w.unreadableInARow ∧ w.unreadableInARow < MAX_UNREADABLE_IN_A_ROW
  | .returned => enabled = false ∨ Ended (readings acts)

variable {enabled : Bool} {acts front back : List WatchAct} {w : Watch}

theorem at_start (enabled : Bool) : At enabled [] (.start enabled) := by
  cases enabled with
  | false => exact .inl rfl
  | true => exact ⟨rfl, rfl⟩

theorem At.step {a : WatchAct} {w' : Watch} (h : At enabled acts w) (hstep : WatchStep w a w') :
    At enabled (acts ++ [a]) w' := by
  cases hstep with
  | absent =>
    obtain ⟨-, rfl⟩ := h
    exact .inr (.inl rfl)
  | first locked =>
    obtain ⟨henabled, rfl⟩ := h
    exact ⟨henabled, ⟨[], _, rfl, rfl⟩, rfl, ⟨[], locked, rfl⟩, Nat.zero_lt_succ 2⟩
  | forget w hlock =>
    obtain ⟨henabled, -, hcurrent, houtage, hfew⟩ := h
    simpa [At] using ⟨henabled, hcurrent, houtage, hfew⟩
  | quiet w hquiet =>
    obtain ⟨henabled, -, hcurrent, houtage, hfew⟩ := h
    simpa [At] using ⟨henabled, hcurrent, houtage, hfew⟩
  | sleep w =>
    obtain ⟨henabled, hcurrent, houtage, hfew⟩ := h
    simpa [At] using ⟨henabled, hcurrent, houtage, hfew⟩
  | read w next =>
    obtain ⟨henabled, hprevious, -, -, -⟩ := h
    refine ⟨henabled, ⟨acts, _, rfl, hprevious⟩, ?_, ⟨readings acts, next, ?_⟩, Nat.zero_lt_succ 2⟩
    · simp
    · simp
  | missed w hfew =>
    obtain ⟨henabled, hprevious, hcurrent, houtage, -⟩ := h
    refine ⟨henabled, ⟨acts, _, rfl, hprevious⟩, ?_, ?_, hfew⟩
    · simpa using hcurrent
    · simpa using houtage.missed
  | lost w hmany =>
    obtain ⟨-, -, -, houtage, -⟩ := h
    refine .inr ?_
    rw [readings_concat_isLocked]
    exact houtage.missed.ended_iff.mpr hmany

theorem at_of_watches (h : Watches enabled acts w) : At enabled acts w :=
  h.invariant (At enabled) (at_start enabled) fun _ _ _ _ => At.step

/-! ### What the watch does -/

theorem returned_iff (h : At enabled acts w) :
    w = .returned ↔ enabled = false ∨ Ended (readings acts) := by
  have hgoing {w : Watching} (henabled : enabled = true)
      (houtage : Outage (readings acts) w.unreadableInARow)
      (hfew : w.unreadableInARow < MAX_UNREADABLE_IN_A_ROW) :
      ¬ (enabled = false ∨ Ended (readings acts)) := by
    rw [houtage.ended_iff, henabled]
    simpa using hfew
  cases w with
  | asking =>
    obtain ⟨rfl, rfl⟩ := h
    exact iff_of_false nofun (by simp [Ended, MAX_UNREADABLE_IN_A_ROW])
  | top w => exact iff_of_false nofun (hgoing h.1 h.2.2.2.1 h.2.2.2.2)
  | checked w => exact iff_of_false nofun (hgoing h.1 h.2.2.1 h.2.2.2)
  | polling w => exact iff_of_false nofun (hgoing h.1 h.2.2.2.1 h.2.2.2.2)
  | returned => exact iff_of_true rfl h

/-- Short of returning, the watch comes to take a reading, whatever it will be. -/
theorem exists_polling (h : Watches enabled acts w) (hw : w ≠ .returned) :
    ∃ acts' w', Watches enabled acts' w' ∧ readings acts' = readings acts ∧
      ∀ reading, ∃ w'', WatchStep w' (.isLocked reading) w'' := by
  have hpolls (w : Watching) (reading : Option Bool) :
      ∃ w'', WatchStep (.polling w) (.isLocked reading) w'' := by
    cases reading with
    | some next => exact ⟨_, .read w next⟩
    | none =>
      by_cases hmany : MAX_UNREADABLE_IN_A_ROW ≤ w.unreadableInARow + 1
      · exact ⟨_, .lost w hmany⟩
      · exact ⟨_, .missed w (Nat.lt_of_not_le hmany)⟩
  cases w with
  | asking =>
    refine ⟨acts, _, h, rfl, fun reading => ?_⟩
    cases reading with
    | none => exact ⟨_, .absent⟩
    | some locked => exact ⟨_, .first locked⟩
  | top w =>
    by_cases hlock : lockingNow w.previous w.current = true
    · refine ⟨_, _, (h.step (.forget w hlock)).step (.sleep w), ?_, hpolls _⟩
      rw [readings_concat_sleep, readings_concat_forget]
    · exact ⟨_, _, h.step (.quiet w (Bool.eq_false_iff.mpr hlock)), by simp, hpolls _⟩
  | checked w => exact ⟨_, _, h.step (.sleep w), by simp, hpolls _⟩
  | polling w => exact ⟨acts, _, h, rfl, hpolls w⟩
  | returned => exact absurd rfl hw

theorem locked_of_lockingNow {earlier : List WatchAct} {reading : Option Bool}
    (h : lockingNow (lastLocked (readings earlier)) (lastLocked (readings earlier ++ [reading])) =
      true) :
    earlier ++ [.isLocked reading] = earlier ++ [.isLocked (some true)] ∧
      lastLocked (readings earlier) = false := by
  cases reading with
  | none => simp [lockingNow] at h
  | some locked => simpa [lockingNow] using h

/-- A reading that finds the screen locked, where the last did not, leads to a lock. -/
theorem exists_top {m t : Watch} (h : At enabled (front ++ [.isLocked (some true)]) t)
    (hstep : WatchStep m (.isLocked (some true)) t) (hlast : lastLocked (readings front) = false) :
    ∃ w, t = .top w ∧ lockingNow w.previous w.current = true := by
  have hlock {w : Watching} (h : At enabled (front ++ [.isLocked (some true)]) (.top w)) :
      lockingNow w.previous w.current = true := by
    obtain ⟨-, ⟨earlier, reading, hacts, hprevious⟩, hcurrent, -, -⟩ := h
    obtain ⟨rfl, -⟩ := List.append_inj' hacts rfl
    rw [hprevious, hcurrent, hlast, readings_concat_isLocked, lastLocked_concat_some]
    rfl
  cases hstep with
  | first => exact ⟨_, rfl, hlock h⟩
  | read w => exact ⟨_, rfl, hlock h⟩

/-- It forgets right after the readings that find the screen locked where the last one
before did not, and takes readings until it is off or they have ended. -/
structure ForgetsOnLock (enabled : Bool) : Prop where
  forgets : ∀ acts w front back, Watches enabled acts w → acts = front ++ .forget :: back →
    ∃ earlier, front = earlier ++ [.isLocked (some true)] ∧ lastLocked (readings earlier) = false
  edges : ∀ acts w front back, Watches enabled acts w →
    acts = front ++ .isLocked (some true) :: back → lastLocked (readings front) = false →
      back.head? = some .forget ∨ back = [] ∧ ∃ w', WatchStep w .forget w'
  polls : ∀ acts w front reading back, Watches enabled acts w →
    acts = front ++ .isLocked reading :: back → enabled = true ∧ ¬ Ended (readings front)
  stops : ∀ acts w, Watches enabled acts w →
    (w = .returned ↔ enabled = false ∨ Ended (readings acts))
  ends : ∀ a w, ¬ WatchStep .returned a w
  goesOn : ∀ taken, ∃ acts w, Watches enabled acts w ∧ readings acts <+: taken ∧
    (readings acts = taken ∨ w = .returned)
  endless : ∀ states acts, Endless WatchStep (.start enabled) states acts → ∀ n,
    (acts n = .forget ↔ ∃ m, n = m + 1 ∧ acts m = .isLocked (some true) ∧
      lastLocked (readings ((List.range m).map acts)) = false)

theorem forgets_of_watches (h : Watches enabled acts w) (hacts : acts = front ++ .forget :: back) :
    ∃ earlier, front = earlier ++ [.isLocked (some true)] ∧
      lastLocked (readings earlier) = false := by
  obtain ⟨m, t, hfront, hstep, -⟩ := h.at hacts
  have hplace := at_of_watches hfront
  cases hstep with
  | forget w hlock =>
    obtain ⟨-, ⟨earlier, reading, rfl, hprevious⟩, hcurrent, -, -⟩ := hplace
    rw [readings_concat_isLocked] at hcurrent
    exact ⟨earlier, locked_of_lockingNow (hprevious ▸ hcurrent ▸ hlock)⟩

theorem edges_of_watches (h : Watches enabled acts w)
    (hacts : acts = front ++ .isLocked (some true) :: back)
    (hlast : lastLocked (readings front) = false) :
    back.head? = some .forget ∨ back = [] ∧ ∃ w', WatchStep w .forget w' := by
  obtain ⟨m, t, hfront, hstep, hback⟩ := h.at hacts
  obtain ⟨w', rfl, hlock⟩ := exists_top (at_of_watches (hfront.step hstep)) hstep hlast
  cases back with
  | nil =>
    obtain rfl := hback.eq_of_nil rfl
    exact .inr ⟨rfl, _, .forget w' hlock⟩
  | cons b back =>
    obtain ⟨_, hnext, -⟩ := hback.head rfl
    cases hnext with
    | forget => exact .inl rfl
    | quiet _ hquiet => exact absurd hlock (Bool.eq_false_iff.mp hquiet)

theorem exists_watches (enabled : Bool) (taken : List (Option Bool)) : ∃ acts w,
    Watches enabled acts w ∧ readings acts <+: taken ∧ (readings acts = taken ∨ w = .returned) := by
  induction taken using List.reverseRecOn with
  | nil => exact ⟨[], _, .start, List.prefix_rfl, .inl rfl⟩
  | append_singleton taken reading ih =>
    obtain ⟨acts, w, h, hprefix, hall | hreturned⟩ := ih
    · by_cases hw : w = .returned
      · exact ⟨acts, w, h, hprefix.trans (List.prefix_append _ _), .inr hw⟩
      · obtain ⟨acts', w', h', hsame, hpolls⟩ := exists_polling h hw
        obtain ⟨w'', hstep⟩ := hpolls reading
        have htaken : readings (acts' ++ [.isLocked reading]) = taken ++ [reading] := by
          rw [readings_concat_isLocked, hsame, hall]
        exact ⟨_, _, h'.step hstep, htaken ▸ List.prefix_rfl, .inl htaken⟩
    · exact ⟨acts, w, h, hprefix.trans (List.prefix_append _ _), .inr hreturned⟩

/-- A watch that goes on for ever forgets at the act after each edge. -/
theorem forget_iff_of_endless {states : ℕ → Watch} {acts : ℕ → WatchAct}
    (h : Endless WatchStep (.start enabled) states acts) (n : ℕ) :
    acts n = .forget ↔ ∃ m, n = m + 1 ∧ acts m = .isLocked (some true) ∧
      lastLocked (readings ((List.range m).map acts)) = false := by
  constructor
  · intro hforget
    have hacts : (List.range (n + 1)).map acts = (List.range n).map acts ++ .forget :: [] := by
      rw [List.range_succ, List.map_append, List.map_singleton, hforget]
    obtain ⟨earlier, hfront, hlast⟩ := forgets_of_watches (h.runs (n + 1)) hacts
    cases n with
    | zero => exact absurd hfront (by simp)
    | succ m =>
      rw [List.range_succ, List.map_append] at hfront
      obtain ⟨rfl, hlocked⟩ := List.append_inj' hfront rfl
      exact ⟨m, rfl, (List.cons.inj hlocked).1, hlast⟩
  · rintro ⟨m, rfl, hlocked, hlast⟩
    have hacts : (List.range (m + 2)).map acts =
        (List.range m).map acts ++ .isLocked (some true) :: [acts (m + 1)] := by
      rw [List.range_succ, List.range_succ, ← hlocked]
      simp
    have hedge := edges_of_watches (h.runs (m + 2)) hacts hlast
    simpa using hedge

theorem forgets_on_lock (enabled : Bool) : ForgetsOnLock enabled where
  forgets acts w front back := forgets_of_watches
  edges acts w front back := edges_of_watches
  polls acts w front reading back h hacts := by
    obtain ⟨m, t, hfront, hstep, -⟩ := h.at hacts
    have hgoing : m ≠ .returned := by
      rintro rfl
      cases hstep
    have hnot := mt (returned_iff (at_of_watches hfront)).mpr hgoing
    simpa using hnot
  stops acts w h := returned_iff (at_of_watches h)
  ends a w hstep := by cases hstep
  goesOn := exists_watches enabled
  endless states acts := forget_iff_of_endless

end LastpassSshAgent.ScreenWatch
