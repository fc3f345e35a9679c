import Mathlib.Algebra.GroupWithZero.Nat
import Mathlib.Data.List.Perm.Subperm
import Mathlib.Logic.Relation

/-!
# Gathering the answers of many calls, a bounded number at a time

A loop keeps at most `limit` tasks in a set, each of which makes one call, and joins them
as they end, in any order. A joined task may add to what was found; the first that failed
ends the loop and aborts the rest. Every run ends, and unless a task failed what it ends
with is the same up to order.
-/

namespace Gathering

/-- How far a task in the set has come. -/
inductive Phase where
  | spawned | calling | ended
  deriving DecidableEq, Repr

variable {α β ε : Type}

/-- The loop: items without a task, the tasks in the set, the calls made so far, oldest
first, and what was found. -/
structure Loop (α β ε : Type) where
  items : List α
  tasks : List (α × Phase)
  called : List α
  found : List β
  result : Option (Except ε (List β))

namespace Loop

def refill (limit : ℕ) (s : Loop α β ε) : Loop α β ε :=
  { s with
    items := s.items.drop (limit - s.tasks.length)
    tasks := s.tasks ++ (s.items.take (limit - s.tasks.length)).map (·, .spawned) }

def start (limit : ℕ) (items : List α) : Loop α β ε := refill limit ⟨items, [], [], [], none⟩

end Loop

variable (limit : ℕ) (verdict : α → Except ε (Option β))

/-- One task goes on, or the loop joins one that ended. -/
inductive Step : Loop α β ε → Loop α β ε → Prop
  | call {s : Loop α β ε} {front back : List (α × Phase)} {a : α} (hrun : s.result = none)
      (h : s.tasks = front ++ (a, .spawned) :: back) :
      Step s { s with tasks := front ++ (a, .calling) :: back, called := s.called ++ [a] }
  | answer {s : Loop α β ε} {front back : List (α × Phase)} {a : α} (hrun : s.result = none)
      (h : s.tasks = front ++ (a, .calling) :: back) :
      Step s { s with tasks := front ++ (a, .ended) :: back }
  | join {s : Loop α β ε} {front back : List (α × Phase)} {a : α} {r : Option β}
      (hrun : s.result = none) (h : s.tasks = front ++ (a, .ended) :: back)
      (hok : verdict a = .ok r) :
      Step s (Loop.refill limit { s with tasks := front ++ back, found := s.found ++ r.toList })
  | fail {s : Loop α β ε} {front back : List (α × Phase)} {a : α} {e : ε}
      (hrun : s.result = none) (h : s.tasks = front ++ (a, .ended) :: back)
      (herror : verdict a = .error e) :
      Step s { s with tasks := [], result := some (.error e) }
  | finish {s : Loop α β ε} (hrun : s.result = none) (h : s.tasks = []) :
      Step s { s with result := some (.ok s.found) }

/-- `n` steps. -/
inductive Runs : ℕ → Loop α β ε → Loop α β ε → Prop
  | refl (s : Loop α β ε) : Runs 0 s s
  | tail {n : ℕ} {s t u : Loop α β ε} (h : Runs n s t) (hstep : Step limit verdict t u) :
      Runs (n + 1) s u

variable {limit verdict}

theorem Runs.head {n : ℕ} {s t u : Loop α β ε} (hstep : Step limit verdict s t)
    (h : Runs limit verdict n t u) : Runs limit verdict (n + 1) s u := by
  induction h with
  | refl => exact .tail (.refl s) hstep
  | tail _ hlast ih => exact .tail (ih hstep) hlast

/-! ### Every run ends -/

/-- The steps a task may still take, joining included. -/
def Phase.weight : Phase → ℕ
  | .spawned => 3
  | .calling => 2
  | .ended => 1

namespace Loop

/-- The steps the loop may still take. -/
def weight (s : Loop α β ε) : ℕ :=
  3 * s.items.length + (s.tasks.map fun task => task.2.weight).sum + if s.result.isNone then 1 else 0

theorem weight_refill (limit : ℕ) (s : Loop α β ε) : (s.refill limit).weight = s.weight := by
  have hspawned : ∀ items : List α,
      ((items.map fun a => (a, Phase.spawned)).map fun task => task.2.weight).sum =
        3 * items.length := by
    intro items
    induction items with
    | nil => rfl
    | cons a items ih =>
      rw [List.map_cons, List.map_cons, List.sum_cons, ih, List.length_cons, Phase.weight]
      omega
  have hsplit := congrArg List.length (List.take_append_drop (limit - s.tasks.length) s.items)
  rw [List.length_append] at hsplit
  rw [weight, weight, refill, List.map_append, List.sum_append, hspawned]
  dsimp only
  omega

theorem weight_start (limit : ℕ) (items : List α) :
    (start limit items : Loop α β ε).weight = 3 * items.length + 1 := by
  rw [start, weight_refill]
  rfl

end Loop

theorem Step.weight {s t : Loop α β ε} (h : Step limit verdict s t) : t.weight < s.weight := by
  cases h with
  | call hrun h =>
    simp only [Loop.weight, h, List.map_append, List.map_cons, List.sum_append, List.sum_cons,
      Phase.weight]
    omega
  | answer hrun h =>
    simp only [Loop.weight, h, List.map_append, List.map_cons, List.sum_append, List.sum_cons,
      Phase.weight]
    omega
  | join hrun h hok =>
    rw [Loop.weight_refill]
    simp only [Loop.weight, h, List.map_append, List.map_cons, List.sum_append, List.sum_cons,
      Phase.weight]
    omega
  | fail hrun h herror =>
    simp only [Loop.weight, h, hrun, List.map_append, List.map_cons, List.sum_append, List.sum_cons,
      Phase.weight, List.map_nil, List.sum_nil, Option.isNone_none, Option.isNone_some, if_true,
      Bool.false_eq_true, if_false]
    omega
  | finish hrun h =>
    simp [Loop.weight, h, hrun]

theorem Runs.weight {n : ℕ} {s t : Loop α β ε} (h : Runs limit verdict n s t) :
    n + t.weight ≤ s.weight := by
  induction h with
  | refl => omega
  | tail _ hstep ih =>
    have := hstep.weight
    omega

theorem exists_step {s : Loop α β ε} (h : s.result = none) : ∃ t, Step limit verdict s t := by
  cases htasks : s.tasks with
  | nil => exact ⟨_, .finish h htasks⟩
  | cons task tasks =>
    obtain ⟨a, phase⟩ := task
    cases phase with
    | spawned => exact ⟨_, .call h (show s.tasks = [] ++ _ from htasks)⟩
    | calling => exact ⟨_, .answer h (show s.tasks = [] ++ _ from htasks)⟩
    | ended =>
      cases hverdict : verdict a with
      | ok r => exact ⟨_, .join h (show s.tasks = [] ++ _ from htasks) hverdict⟩
      | error e => exact ⟨_, .fail h (show s.tasks = [] ++ _ from htasks) hverdict⟩

theorem Runs.of_task {n : ℕ} {s u : Loop α β ε} {front back : List (α × Phase)} {a : α}
    {r : Option β} (hrun : s.result = none) (h : s.tasks = front ++ (a, .spawned) :: back)
    (hok : verdict a = .ok r) (hrest : Runs limit verdict n (Loop.refill limit { s with
      tasks := front ++ back, called := s.called ++ [a], found := s.found ++ r.toList }) u) :
    Runs limit verdict (n + 3) s u :=
  .head (.call hrun h) (.head (.answer hrun rfl) (.head (.join hrun rfl hok) hrest))

theorem Runs.of_failing {s : Loop α β ε} {front back : List (α × Phase)} {a : α} {e : ε}
    (hrun : s.result = none) (h : s.tasks = front ++ (a, .spawned) :: back)
    (herror : verdict a = .error e) :
    ∃ u, Runs limit verdict 3 s u ∧ u.result = some (.error e) :=
  ⟨_, .head (.call hrun h) (.head (.answer hrun rfl) (.head (.fail hrun rfl herror) (.refl _))), rfl⟩

/-- Going on for as long as it can, the loop comes to a result. -/
theorem exists_result (limit : ℕ) (verdict : α → Except ε (Option β)) (s : Loop α β ε) :
    ∃ n t r, Runs limit verdict n s t ∧ t.result = some r := by
  have hgo : ∀ bound n (t : Loop α β ε), t.weight ≤ bound → Runs limit verdict n s t →
      ∃ n t r, Runs limit verdict n s t ∧ t.result = some r := by
    intro bound
    induction bound with
    | zero =>
      intro n t hbound hruns
      cases hresult : t.result with
      | some r => exact ⟨n, t, r, hruns, hresult⟩
      | none => simp [Loop.weight, hresult] at hbound
    | succ bound ih =>
      intro n t hbound hruns
      cases hresult : t.result with
      | some r => exact ⟨n, t, r, hruns, hresult⟩
      | none =>
        obtain ⟨u, hstep⟩ : ∃ u, Step limit verdict t u := exists_step hresult
        have hless := hstep.weight
        exact ih (n + 1) u (by omega) (.tail hruns hstep)
  exact hgo s.weight 0 s (Nat.le_refl _) (.refl s)

/-! ### What a run comes to -/

/-- What a task that did not fail adds. -/
def adds (verdict : α → Except ε (Option β)) (a : α) : Option β := (verdict a).toOption.join

def begun (tasks : List (α × Phase)) : List α :=
  (tasks.filter fun task => task.2 != .spawned).map Prod.fst

/-- Every item is where it has to be: waiting, in the set, or joined. -/
def Accounted (verdict : α → Except ε (Option β)) (all : List α) (s : Loop α β ε) : Prop :=
  ∃ joined, (s.items ++ s.tasks.map Prod.fst ++ joined).Perm all ∧
    s.called.Perm (begun s.tasks ++ joined) ∧ s.found = joined.filterMap (adds verdict) ∧
    ∀ a ∈ joined, ∃ r, verdict a = .ok r

theorem begun_append (tasks more : List (α × Phase)) :
    begun (tasks ++ more) = begun tasks ++ begun more := by
  simp [begun]

theorem begun_spawned (items : List α) : begun (items.map (·, Phase.spawned)) = [] := by
  simp [begun]

theorem Accounted.refill {all : List α} {s : Loop α β ε} (h : Accounted verdict all s) (limit : ℕ) :
    Accounted verdict all (s.refill limit) := by
  obtain ⟨joined, hplaces, hcalled, hfound, hok⟩ := h
  refine ⟨joined, ?_, ?_, hfound, hok⟩
  · have hfst : ∀ items : List α, (items.map (·, Phase.spawned)).map Prod.fst = items := by
      intro items
      rw [List.map_map]
      exact List.map_id items
    have hmoved : (s.items.drop (limit - s.tasks.length) ++ (s.tasks.map Prod.fst ++
        s.items.take (limit - s.tasks.length))).Perm (s.items ++ s.tasks.map Prod.fst) := by
      refine (List.perm_append_comm_assoc _ _ _).trans ?_
      refine (List.Perm.append_left _ List.perm_append_comm).trans ?_
      rw [List.take_append_drop]
      exact List.perm_append_comm
    rw [Loop.refill, List.map_append, hfst]
    exact (hmoved.append_right joined).trans hplaces
  · rw [Loop.refill, begun_append, begun_spawned, List.append_nil]
    exact hcalled

theorem Loop.length_refill {limit : ℕ} {s : Loop α β ε} (h : s.tasks.length ≤ limit) :
    (s.refill limit).tasks.length ≤ limit ∧
      ((s.refill limit).items ≠ [] → (s.refill limit).tasks.length = limit) := by
  have hlength : (s.refill limit).tasks.length =
      s.tasks.length + min (limit - s.tasks.length) s.items.length := by
    simp [refill]
  refine ⟨by omega, fun hitems => ?_⟩
  have hleft : limit - s.tasks.length < s.items.length := by
    by_contra hnone
    exact hitems (List.drop_eq_nil_of_le (Nat.not_lt.mp hnone))
  omega

structure Sound (limit : ℕ) (verdict : α → Except ε (Option β)) (all : List α)
    (s : Loop α β ε) : Prop where
  bounded : s.tasks.length ≤ limit
  full : s.result = none → s.items ≠ [] → s.tasks.length = limit
  accounted : s.result = none → Accounted verdict all s
  /-- No item is called for twice. -/
  once : s.called.Subperm all
  complete : ∀ found, s.result = some (.ok found) → s.called.Perm all ∧
    found.Perm (all.filterMap (adds verdict)) ∧ ∀ a ∈ all, ∃ r, verdict a = .ok r
  failed : ∀ e, s.result = some (.error e) → ∃ a ∈ all, verdict a = .error e

theorem sound_start (limit : ℕ) (verdict : α → Except ε (Option β)) (all : List α) :
    Sound limit verdict all (.start limit all) := by
  have hempty : (⟨all, [], [], [], none⟩ : Loop α β ε).tasks.length ≤ limit := Nat.zero_le _
  have haccounted : Accounted verdict all ⟨all, [], [], [], none⟩ :=
    ⟨[], by simp, .refl _, rfl, by simp⟩
  exact {
    bounded := (Loop.length_refill hempty).1
    full := fun _ => (Loop.length_refill hempty).2
    accounted := fun _ => haccounted.refill limit
    once := List.nil_subperm
    complete := nofun
    failed := nofun }

/-- A task that is joined leaves its place for the end. -/
theorem perm_joined (a : α) (front back joined : List α) :
    (front ++ back ++ (joined ++ [a])).Perm (front ++ a :: back ++ joined) := by
  calc (front ++ back ++ (joined ++ [a])).Perm (a :: (front ++ (back ++ joined))) := by
        simpa using List.perm_append_singleton a (front ++ (back ++ joined))
    _ |>.Perm (front ++ a :: back ++ joined) := by
        simpa using List.perm_middle.symm

theorem Accounted.once {all : List α} {s : Loop α β ε} (h : Accounted verdict all s) :
    s.called.Subperm all := by
  obtain ⟨joined, hplaces, hcalled, -, -⟩ := h
  have hbegun : (begun s.tasks).Sublist (s.tasks.map Prod.fst) := List.filter_sublist.map Prod.fst
  have hsublist : (begun s.tasks ++ joined).Sublist (s.items ++ s.tasks.map Prod.fst ++ joined) := by
    rw [List.append_assoc]
    exact (hbegun.append_right joined).trans (List.sublist_append_right _ _)
  exact hcalled.subperm.trans (hsublist.subperm.trans hplaces.subperm)

section

variable {all : List α} {s : Loop α β ε} {front back : List (α × Phase)} {a : α}

theorem Accounted.called (h : Accounted verdict all s)
    (htasks : s.tasks = front ++ (a, .spawned) :: back) : Accounted verdict all
      { s with tasks := front ++ (a, .calling) :: back, called := s.called ++ [a] } := by
  obtain ⟨joined, hplaces, hcalled, hfound, hok⟩ := h
  have hbegun : begun (front ++ (a, .calling) :: back) = begun front ++ a :: begun back := by
    simp [begun]
  have hbefore : begun s.tasks = begun front ++ begun back := by
    simp [begun, htasks]
  refine ⟨joined, by simpa [htasks] using hplaces, ?_, hfound, hok⟩
  rw [hbefore] at hcalled
  rw [hbegun]
  calc (s.called ++ [a]).Perm (a :: s.called) := List.perm_append_singleton a s.called
    _ |>.Perm (a :: (begun front ++ begun back ++ joined)) := hcalled.cons a
    _ |>.Perm (begun front ++ a :: begun back ++ joined) := by
      simpa using List.perm_middle.symm

theorem Accounted.answered (h : Accounted verdict all s)
    (htasks : s.tasks = front ++ (a, .calling) :: back) :
    Accounted verdict all { s with tasks := front ++ (a, .ended) :: back } := by
  obtain ⟨joined, hplaces, hcalled, hfound, hok⟩ := h
  refine ⟨joined, by simpa [htasks] using hplaces, ?_, hfound, hok⟩
  simpa [begun, htasks] using hcalled

theorem Accounted.joined {r : Option β} (h : Accounted verdict all s)
    (htasks : s.tasks = front ++ (a, .ended) :: back) (hok : verdict a = .ok r) :
    Accounted verdict all { s with tasks := front ++ back, found := s.found ++ r.toList } := by
  obtain ⟨joined, hplaces, hcalled, hfound, hoks⟩ := h
  have hbegun : begun s.tasks = begun front ++ a :: begun back := by
    simp [begun, htasks]
  have hadds : adds verdict a = r := by
    rw [adds, hok]
    rfl
  refine ⟨joined ++ [a], ?_, ?_, ?_, ?_⟩
  · rw [htasks] at hplaces
    refine List.Perm.trans ?_ hplaces
    simpa using perm_joined a (s.items ++ front.map Prod.fst) (back.map Prod.fst) joined
  · rw [hbegun] at hcalled
    rw [begun_append]
    exact hcalled.trans (perm_joined a (begun front) (begun back) joined).symm
  · rw [hfound, List.filterMap_append]
    cases r <;> simp [hadds]
  · intro b hb
    rcases List.mem_append.mp hb with hb | hb
    · exact hoks b hb
    · rw [List.mem_singleton.mp hb]
      exact ⟨r, hok⟩

theorem Accounted.complete (h : Accounted verdict all s) (hitems : s.items = [])
    (htasks : s.tasks = []) : s.called.Perm all ∧ s.found.Perm (all.filterMap (adds verdict)) ∧
      ∀ a ∈ all, ∃ r, verdict a = .ok r := by
  obtain ⟨joined, hplaces, hcalled, hfound, hok⟩ := h
  have hjoined : joined.Perm all := by simpa [hitems, htasks] using hplaces
  rw [htasks] at hcalled
  exact ⟨hcalled.trans hjoined, hfound ▸ hjoined.filterMap _,
    fun a ha => hok a (hjoined.mem_iff.mpr ha)⟩

end

theorem Sound.of_running {all : List α} {s : Loop α β ε} (hrun : s.result = none)
    (hbounded : s.tasks.length ≤ limit) (hfull : s.items ≠ [] → s.tasks.length = limit)
    (haccounted : Accounted verdict all s) : Sound limit verdict all s where
  bounded := hbounded
  full _ := hfull
  accounted _ := haccounted
  once := haccounted.once
  complete found h := by simp [hrun] at h
  failed e h := by simp [hrun] at h

theorem Sound.step {all : List α} {s t : Loop α β ε} (hlimit : 0 < limit)
    (h : Sound limit verdict all s) (hstep : Step limit verdict s t) : Sound limit verdict all t := by
  cases hstep with
  | @call front back a hrun htasks =>
    exact .of_running hrun (by simpa [htasks] using h.bounded)
      (by simpa [htasks] using h.full hrun) ((h.accounted hrun).called htasks)
  | @answer front back a hrun htasks =>
    exact .of_running hrun (by simpa [htasks] using h.bounded)
      (by simpa [htasks] using h.full hrun) ((h.accounted hrun).answered htasks)
  | @join front back a r hrun htasks hok =>
    have hlength : (front ++ back).length ≤ limit := by
      have hbounded := h.bounded
      rw [htasks, List.length_append, List.length_cons] at hbounded
      rw [List.length_append]
      omega
    obtain ⟨hbounded, hfull⟩ := Loop.length_refill
      (show ({ s with tasks := front ++ back, found := s.found ++ r.toList } :
        Loop α β ε).tasks.length ≤ limit from hlength)
    exact .of_running hrun hbounded hfull (((h.accounted hrun).joined htasks hok).refill limit)
  | @fail front back a e hrun htasks herror =>
    obtain ⟨joined, hplaces, -⟩ := h.accounted hrun
    have hmem : a ∈ all := hplaces.subset (by simp [htasks])
    exact {
      bounded := Nat.zero_le limit
      full := nofun
      accounted := nofun
      once := h.once
      complete := nofun
      failed := fun e' he => ⟨a, hmem, by rw [herror, Except.error.inj (Option.some.inj he)]⟩ }
  | finish hrun htasks =>
    have hitems : s.items = [] := by
      by_contra hne
      have hfull := h.full hrun hne
      rw [htasks, List.length_nil] at hfull
      omega
    exact {
      bounded := h.bounded
      full := nofun
      accounted := nofun
      once := h.once
      complete := fun found heq => by
        obtain rfl := Except.ok.inj (Option.some.inj heq)
        exact (h.accounted hrun).complete hitems htasks
      failed := nofun }

theorem sound_of_runs {all : List α} {n : ℕ} {s : Loop α β ε} (hlimit : 0 < limit)
    (h : Runs limit verdict n (.start limit all) s) : Sound limit verdict all s := by
  generalize hstart : Loop.start limit all = start at h
  induction h with
  | refl => exact hstart ▸ sound_start limit verdict all
  | tail _ hstep ih => exact (ih hstart).step hlimit hstep

end Gathering
