import LastpassSshAgent.SocketPath

/-!
# Agents that start and stop in turns

As long as no agent starts or stops while another is on its way in or out, at most one takes
connections, and the path is its socket's. Agents can die at any point, and whatever they
leave behind does not keep the next one from serving.
-/

namespace LastpassSshAgent.SocketPath

open Transitions

variable {setup : Setup} {s t u : Host} {a : Act} {acts : List Act} {p q id id' mode : ℕ}

def Act.begins : Act → Bool
  | .started _ => true
  | .stopped _ => true
  | _ => false

/-- A step that begins only where nobody is on his way. -/
def Turns (setup : Setup) (s : Host) (a : Act) (t : Host) : Prop :=
  Step setup s a t ∧ (a.begins = true → s.Quiet)

/-- From here on there is no other agent that takes connections. -/
def Place.clears : Place → Bool
  | .removing => true
  | .binding => true
  | .opening _ => true
  | .restricting _ => true
  | .leaving _ => true
  | _ => false

theorem Place.inTransit_of_clears {place : Place} (h : place.clears = true) :
    place.inTransit = true := by
  cases place <;> first | rfl | cases h

theorem Place.cases_of_bound {place : Place} (h : place.bound = some id) :
    place = .serving id ∨ place.clears = true := by
  cases place <;> simp_all [Place.bound, Place.clears]

/-! ### What one step does -/

theorem inTransit_of_step (hstep : Step setup s a t) (h : (t.place q).inTransit = true) :
    (s.place q).inTransit = true ∨ a.begins = true ∧ q = a.agent := by
  by_cases hq : q = a.agent
  · subst hq
    cases hstep <;> simp only [Host.moved, Host.failed, Act.agent, Function.update_self] at h ⊢ <;>
      grind [Place.inTransit, Act.begins]
  · exact .inl (place_of_step hstep hq ▸ h)

theorem clears_of_step (hstep : Step setup s a t) (h : (t.place q).clears = true) :
    (s.place q).clears = true ∨ a = .connected q .refused ∨ s.path = none ∨
      ∃ id, s.place q = .serving id := by
  by_cases hq : q = a.agent
  · subst hq
    cases hstep <;> simp only [Host.moved, Host.failed, Act.agent, Function.update_self] at h ⊢ <;>
      grind [existed_cases, checked_cases, looked_cases, connected_cases, Place.clears]
  · exact .inl (place_of_step hstep hq ▸ h)

/-! ### At most one -/

structure Alone (s : Host) : Prop where
  transit : ∀ p q, (s.place p).inTransit = true → (s.place q).inTransit = true → p = q
  serving : ∀ p q id id', s.place p = .serving id → s.place q = .serving id' → p = q
  held : ∀ p id, (s.place p).bound = some id → ∃ mode, s.path = some (.socket id mode)
  clear : ∀ p q id, (s.place p).clears = true → s.place q ≠ .serving id

theorem Fresh.alone (h : Fresh s) : Alone s where
  transit p _ hp := by simp [h.idle p, Place.inTransit] at hp
  serving p _ id _ hp := absurd (h.idle p) (by rw [hp]; simp)
  held p id hp := by simp [h.idle p, Place.bound] at hp
  clear p _ _ hp := by simp [h.idle p, Place.clears] at hp

namespace Alone

theorem bound_unique (h : Alone s) (hp : (s.place p).bound = some id)
    (hq : (s.place q).bound = some id') : p = q := by
  rcases Place.cases_of_bound hp with hp | hp <;> rcases Place.cases_of_bound hq with hq | hq
  · exact h.serving p q id id' hp hq
  · exact absurd hp (h.clear q p id hq)
  · exact absurd hq (h.clear p q id' hp)
  · exact h.transit p q (Place.inTransit_of_clears hp) (Place.inTransit_of_clears hq)

variable (h : Alone s) (hstep : Step setup s a t)
include h hstep

theorem transit_step (hturn : a.begins = true → s.Quiet) (hp : (t.place p).inTransit = true)
    (hq : (t.place q).inTransit = true) : p = q := by
  rcases inTransit_of_step hstep hp with hp | ⟨hbegins, hp⟩ <;>
    rcases inTransit_of_step hstep hq with hq | ⟨hbegins, hq⟩
  · exact h.transit p q hp hq
  · simp [hturn hbegins p] at hp
  · simp [hturn hbegins q] at hq
  · exact hp.trans hq.symm

theorem serving_step (hp : t.place p = .serving id) (hq : t.place q = .serving id') : p = q := by
  rcases serving_of_step hstep hp with hp | ⟨ha, hp, _⟩ <;>
    rcases serving_of_step hstep hq with hq | ⟨ha', hq, _⟩
  · exact h.serving p q id id' hp hq
  · exact absurd hp (h.clear q p id (by rw [hq]; rfl))
  · exact absurd hq (h.clear p q id' (by rw [hp]; rfl))
  · exact Act.restricted.inj (ha.symm.trans ha')

/-- Who takes a socket from the path takes no other agent's. -/
theorem agent_of_unlinks (hp : (s.place p).bound = some id) (hunlinks : a.unlinks = some id) :
    a.agent = p := by
  have hclears : (s.place a.agent).clears = true := by
    cases hstep with
    | removed p gone hplace _ =>
      rw [show (Act.removed p gone).agent = p from rfl, hplace]
      rfl
    | unlinked p mine hplace =>
      rw [show (Act.unlinked p s.path).agent = p from rfl, hplace]
      rfl
    | _ => cases hunlinks
  rcases Place.cases_of_bound hp with hp | hp
  · exact absurd hp (h.clear _ p id hclears)
  · exact h.transit _ p (Place.inTransit_of_clears hclears) (Place.inTransit_of_clears hp)

theorem held_step (hp : (t.place p).bound = some id) : ∃ mode, t.path = some (.socket id mode) := by
  rcases bound_of_step hstep hp with hbefore | ⟨rfl, rfl⟩
  · obtain ⟨mode, hpath⟩ := h.held p id hbefore
    rcases path_kept hstep hpath with hafter | hunlinks
    · exact hafter
    · have hgone := unlinks_act hstep hunlinks
      rw [h.agent_of_unlinks hstep hbefore hunlinks, hp] at hgone
      cases hgone
  · exact ⟨_, path_of_bound hstep⟩

theorem clear_step (hp : (t.place p).clears = true) : t.place q ≠ .serving id := by
  intro hq
  have hne : p ≠ q := by
    rintro rfl
    rw [hq] at hp
    cases hp
  rcases serving_of_step hstep hq with hserves | ⟨rfl, hrestricting, _⟩
  · obtain ⟨mode, hpath⟩ := h.held q id (by rw [hserves]; rfl)
    rcases clears_of_step hstep hp with hclears | rfl | hnone | ⟨id', hserving⟩
    · exact h.clear p q id hclears hserves
    · exact (refused_act hstep).2 ⟨q, id, mode, by rw [hserves]; rfl, hpath⟩
    · rw [hnone] at hpath
      cases hpath
    · exact hne (h.serving p q id' id hserving hserves)
  · rw [place_of_step hstep hne] at hp
    exact hne (h.transit p q (Place.inTransit_of_clears hp) (by rw [hrestricting]; rfl))

theorem step (hturn : a.begins = true → s.Quiet) : Alone t where
  transit _ _ := h.transit_step hstep hturn
  serving _ _ _ _ := h.serving_step hstep
  held _ _ := h.held_step hstep
  clear _ _ _ := h.clear_step hstep

end Alone

theorem Fresh.turns (hs : Fresh s) (h : Runs (Turns setup) s acts t) : Alone t :=
  h.invariant (fun _ t => Alone t) hs.alone fun _ _ _ _ h hstep => h.step hstep.1 hstep.2

theorem steps_of_turns (h : Runs (Turns setup) s acts t) : Runs (Step setup) s acts t :=
  h.refines id (fun _ => True) trivial (fun _ _ _ _ _ => trivial) fun _ _ _ _ hstep => hstep.1

/-! ### The next one serves -/

/-- A run of one agent's steps. -/
def Walk (setup : Setup) (p : ℕ) (s t : Host) : Prop :=
  ∃ acts, Runs (Turns setup) s acts t ∧ ∀ a ∈ acts, a.agent = p

namespace Walk

theorem one (hstep : Turns setup s a t) : Walk setup a.agent s t :=
  ⟨[] ++ [a], .step .start hstep, by simp⟩

theorem trans (h : Walk setup p s t) (h' : Walk setup p t u) : Walk setup p s u := by
  obtain ⟨front, hfront, hp⟩ := h
  obtain ⟨back, hback, hp'⟩ := h'
  exact ⟨front ++ back, hfront.trans hback, List.forall_mem_append.mpr ⟨hp, hp'⟩⟩

theorem step (h : Walk setup p s t) (hstep : Step setup t a u) (hagent : a.agent = p)
    (hbegins : a.begins = false) : Walk setup p s u :=
  h.trans (hagent ▸ one ⟨hstep, fun h => absurd h (by rw [hbegins]; simp)⟩)

theorem others (h : Walk setup p s t) (hq : q ≠ p) : t.place q = s.place q := by
  obtain ⟨acts, hruns, hp⟩ := h
  induction hruns with
  | start => rfl
  | @step acts a t u _ hstep ih =>
    have ha : a.agent = p := hp a (by simp)
    rw [place_of_step hstep.1 (ha ▸ hq), ih fun b hb => hp b (List.mem_append_left _ hb)]

end Walk

theorem place_moved {place : Place} : (s.moved p place).place p = place :=
  Function.update_self _ _ _

theorem walk_to_looking (hquiet : s.Quiet) (hp : s.place p = .idle)
    (hdir : s.dir = none ∨ Private setup s.dir) :
    ∃ t, Walk setup p s t ∧ t.place p = .looking ∧ t.path = s.path := by
  have hexisted : Walk setup p s ((s.moved p .preparing).moved p (existed s.dir)) :=
    (Walk.one ⟨.started s p hp, fun _ => hquiet⟩).step (.existed _ p place_moved) rfl rfl
  have hlooking : ∀ t : Host, Private setup t.dir → checked setup t.dir = .looking := by
    rintro t ⟨mode, hdir, hmode⟩
    unfold checked
    rw [hdir, validateDir_eq_ok.mpr ⟨mode, rfl, hmode⟩]
  rcases hdir with hnone | hprivate
  · rw [hnone] at hexisted
    have hcreated := hexisted.step
      (.created _ p (.directory setup.euid 0o700) place_moved
        (show createDir setup s.dir = _ by rw [hnone]; rfl)) rfl rfl
    refine ⟨_, hcreated.step (.checked _ p place_moved) rfl rfl, ?_, rfl⟩
    rw [place_moved]
    exact hlooking _ ⟨0o700, rfl, rfl⟩
  · have hchecking : existed s.dir = .checking := by
      obtain ⟨mode, hdir, _⟩ := hprivate
      rw [hdir]
      rfl
    rw [hchecking] at hexisted
    refine ⟨_, hexisted.step (.checked _ p place_moved) rfl rfl, ?_, rfl⟩
    rw [place_moved]
    exact hlooking _ hprivate

theorem walk_to_binding (hp : s.place p = .looking) (hother : s.path ≠ some .other)
    (hnobody : ∀ q, (s.place q).listensOn = none) :
    ∃ t, Walk setup p s t ∧ t.place p = .binding ∧ t.path = none := by
  have hlooked : Walk setup p s (s.moved p (looked setup s.path)) :=
    Walk.one ⟨.looked s p hp, fun h => nomatch h⟩
  cases hpath : s.path with
  | none =>
    rw [hpath] at hlooked
    exact ⟨_, hlooked, place_moved, hpath⟩
  | some entry =>
    cases entry with
    | other => exact absurd hpath hother
    | socket id mode =>
      rw [hpath] at hlooked
      have hunanswered : ¬(s.moved p .connecting).Answered := by
        rintro ⟨q, id, mode, hq, _⟩
        by_cases hqp : q = p
        · rw [hqp, place_moved] at hq
          cases hq
        · rw [show (s.moved p .connecting).place q = s.place q from
            Function.update_of_ne hqp _ _, hnobody q] at hq
          cases hq
      have hrefused := hlooked.step
        (.connected _ p .refused place_moved ⟨⟨id, mode, hpath⟩, hunanswered⟩) rfl rfl
      exact ⟨_, hrefused.step (.removed _ p _ place_moved hpath) rfl rfl, place_moved, rfl⟩

theorem walk_to_serving (hp : s.place p = .binding) (hpath : s.path = none) :
    ∃ t, Walk setup p s t ∧ t.place p = .serving s.next := by
  have hbound : Walk setup p s _ := Walk.one ⟨.bound s p hp hpath, fun h => nomatch h⟩
  have hlistened := hbound.step (.listened _ p s.next place_moved) rfl rfl
  exact ⟨_, hlistened.step (.restricted _ p s.next _ place_moved rfl) rfl rfl, place_moved⟩

theorem next_serves (hquiet : s.Quiet) (hnobody : ∀ q id, s.place q ≠ .serving id)
    (hp : s.place p = .idle) (hother : s.path ≠ some .other)
    (hdir : s.dir = none ∨ Private setup s.dir) :
    ∃ t id, Walk setup p s t ∧ t.place p = .serving id := by
  have hsilent : ∀ q, (s.place q).listensOn = none := by
    intro q
    cases hq : s.place q with
    | restricting id => exact absurd (hquiet q) (by rw [hq]; simp [Place.inTransit])
    | serving id => exact absurd hq (hnobody q id)
    | _ => rfl
  obtain ⟨looking, hlooking, hpl, hpathl⟩ := walk_to_looking hquiet hp hdir
  have hsilentl : ∀ q, (looking.place q).listensOn = none := by
    intro q
    by_cases hq : q = p
    · rw [hq, hpl]
      rfl
    · rw [hlooking.others hq, hsilent q]
  obtain ⟨binding, hbinding, hpb, hpathb⟩ := walk_to_binding hpl (hpathl ▸ hother) hsilentl
  obtain ⟨serving, hserving, hps⟩ := walk_to_serving hpb hpathb
  exact ⟨serving, _, (hlooking.trans hbinding).trans hserving, hps⟩

/-- As long as agents start and stop in turns, and wherever any of them dies: at most one
takes connections, the path is the socket of the one that serves, its owner's alone in a
directory that is its owner's alone, and when nobody serves the next one can. -/
theorem one_at_a_time (hs : Fresh s) (h : Runs (Turns setup) s acts t) :
    (∀ p q id id', (t.place p).listensOn = some id → (t.place q).listensOn = some id' → p = q) ∧
    (∀ p id, t.place p = .serving id →
      t.path = some (.socket id SOCKET_MODE) ∧ Private setup t.dir) ∧
    (t.Quiet → (∀ q id, t.place q ≠ .serving id) → t.path ≠ some .other →
      (t.dir = none ∨ Private setup t.dir) →
      ∀ p, t.place p = .idle → ∃ u id, Walk setup p t u ∧ u.place p = .serving id) := by
  have halone := hs.turns h
  have hsound := hs.run (steps_of_turns h)
  refine ⟨?_, ?_, fun hquiet hnobody hother hdir p hp => next_serves hquiet hnobody hp hother hdir⟩
  · exact fun p q id id' hp hq =>
      halone.bound_unique (Place.bound_of_listensOn hp) (Place.bound_of_listensOn hq)
  · intro p id hp
    obtain ⟨mode, hpath⟩ := halone.held p id (by rw [hp]; rfl)
    obtain rfl := hsound.restricted p id mode hp hpath
    exact ⟨hpath, hsound.past p (by rw [hp]; rfl)⟩

/-- An agent dies as it serves, and the next takes its place. -/
theorem one_at_a_time_died : ∃ acts t u id, Runs (Turns sample) quietHost acts t ∧
    .died 0 ∈ acts ∧ t.path = some (.socket 0 SOCKET_MODE) ∧ Walk sample 1 t u ∧
    u.place 1 = .serving id := by
  have hstart : Runs (Turns sample) quietHost [] quietHost := .start
  have hlooked := ((((hstart.step ⟨.started _ 0 rfl, fun _ _ => rfl⟩).step
    ⟨.existed _ 0 rfl, nofun⟩).step ⟨.created _ 0 _ rfl rfl, nofun⟩).step
    ⟨.checked _ 0 rfl, nofun⟩).step ⟨.looked _ 0 rfl, nofun⟩
  have hdied := (((hlooked.step ⟨.bound _ 0 rfl rfl, nofun⟩).step
    ⟨.listened _ 0 0 rfl, nofun⟩).step ⟨.restricted _ 0 0 _ rfl rfl, nofun⟩).step
    ⟨.died _ 0, nofun⟩
  obtain ⟨u, id, hwalk, hserving⟩ := (one_at_a_time fresh_quietHost hdied).2.2
    (by rintro (_ | q) <;> rfl) (by rintro (_ | q) id h <;> cases h) (fun h => nomatch h)
    (.inr ⟨0o700, rfl, rfl⟩) 1 rfl
  exact ⟨_, _, u, id, hdied, by simp, rfl, hwalk, hserving⟩

end LastpassSshAgent.SocketPath
