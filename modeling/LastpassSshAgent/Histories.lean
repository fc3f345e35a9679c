import LastpassSshAgent.Scans

/-!
# Reading a history back

Every entry of a lawful history was made where the rules allowed it. Histories are
newest first: in `newer ++ x :: older`, `older` is what had happened before `x`.
-/

namespace LastpassSshAgent

open Resumption

variable {env : Env} {t : ℕ} {s : Stage runtime} {x y : Entry runtime}
  {newer mid older : List (Entry runtime)}

abbrev Env.Lawful (env : Env) (s : Stage runtime) : Prop := env.rules.Lawful env.Starts s

theorem Env.lawful {env : Env} {P : Pool runtime} (h : env.Reachable P) : env.Lawful P.stage :=
  (Env.orderly h).lawful

/-- The stage an event was noted at, and what allowed it there. -/
structure Noted (env : Env) (x : Entry runtime) (e : Event) (older : List (Entry runtime))
    (s₀ : Stage runtime) : Prop where
  lawful : env.Lawful s₀
  history : s₀.history = older
  before : s₀.shared = x.before
  after : x.after = World.apply e x.before
  may : MayNote s₀ x.tid env e
  undecided : Undecided s₀ x.tid ∨ Closing (.noted e)

theorem noted_of_cut (h : env.Lawful s) (hs : s.history = newer ++ x :: older) {e : Event}
    (ha : x.act = .noted e) : ∃ s₀, Noted env x e older s₀ := by
  obtain ⟨s₀, h₀, hh, hb, hafter, hr⟩ := Rules.Lawful.noted_of_cut h hs ha
  exact ⟨s₀, h₀, hh, hb, hafter, hr.2, hr.1⟩

theorem began_of_cut (h : env.Lawful s) (hs : s.history = newer ++ x :: older) {q : Query}
    (ha : x.act = .began q) :
    ∃ s₀, env.Lawful s₀ ∧ s₀.history = older ∧ s₀.shared = x.before ∧ x.after = x.before ∧
      MayBegin s₀ x.tid env q ∧ Undecided s₀ x.tid := by
  obtain ⟨s₀, h₀, hh, hb, hafter, hr⟩ := Rules.Lawful.began_of_cut h hs ha
  exact ⟨s₀, h₀, hh, hb, hafter, hr.2, hr.1.resolve_right id⟩

/-! ### One request to a thread, one decision to a request -/

theorem closes_of_cut (h : env.Lawful s) (hs : s.history = newer ++ x :: older) (hy : y ∈ older)
    (hyx : y.tid = x.tid) (hd : Decides y.act) : Closing x.act := by
  cases hact : x.act with
  | started task => exact absurd hyx ((Rules.Lawful.started_of_cut h hs hact).2 y hy)
  | began q =>
    obtain ⟨s₀, -, hh, -, -, -, hopen⟩ := began_of_cut h hs hact
    exact absurd hd (hopen y (hh ▸ hy) hyx)
  | answered q a =>
    obtain ⟨s₀, h₀, hh, -, -, hlast⟩ := Rules.Lawful.answered_of_cut h hs hact
    obtain ⟨newer', w, older', hs', hwt, hwa, hnew⟩ := Stage.cut_of_last hlast
    obtain ⟨s₁, -, hh₁, -, -, -, hopen⟩ := began_of_cut h₀ hs' hwa
    rw [← hh, hs', List.mem_append, List.mem_cons] at hy
    rcases hy with hy | rfl | hy
    · exact absurd hyx (hnew y hy)
    · rw [hwa] at hd
      exact hd.elim
    · exact absurd hd (hopen y (hh₁ ▸ hy) (hyx.trans hwt.symm))
  | noted e =>
    obtain ⟨s₀, hn⟩ := noted_of_cut h hs hact
    exact hn.undecided.resolve_left fun hopen => hopen y (hn.history ▸ hy) hyx hd
  | ended => trivial

theorem settled_unique (h : env.Lawful s) (hx : x ∈ s.history) (hy : y ∈ s.history)
    (hxy : x.tid = y.tid) {answer answer' : Answer} {asked asked' signed signed' : Bool}
    (hxa : x.act = .noted (.settled answer asked signed))
    (hya : y.act = .noted (.settled answer' asked' signed')) : x = y := by
  have hdx : Decides x.act := by
    rw [hxa]
    trivial
  have hdy : Decides y.act := by
    rw [hya]
    trivial
  rcases cut_two hx hy with heq | ⟨newer, older, hs, hmem⟩ | ⟨newer, older, hs, hmem⟩
  · exact heq
  · exact absurd (closes_of_cut h hs hmem hxy.symm hdy) (hxa ▸ id)
  · exact absurd (closes_of_cut h hs hmem hxy hdx) (hya ▸ id)

theorem confirmed_unique (h : env.Lawful s) (hx : x ∈ s.history) (hy : y ∈ s.history)
    (hxy : x.tid = y.tid) {ctx ctx' : ConfirmContext} {d d' : Decision}
    (hxa : x.act = .answered (.confirm ctx) d) (hya : y.act = .answered (.confirm ctx') d') :
    x = y := by
  have hlate : ∀ {x y : Entry runtime} {newer older ctx ctx' d d'},
      s.history = newer ++ x :: older → y ∈ older → x.tid = y.tid →
      x.act = .answered (.confirm ctx) d → y.act = .answered (.confirm ctx') d' → False := by
    intro x y newer older ctx ctx' d d' hs hmem htid hxa hya
    obtain ⟨s₀, h₀, hh, -, -, hlast⟩ := Rules.Lawful.answered_of_cut h hs hxa
    obtain ⟨newer', w, older', hs', hwt, hwa, hnew⟩ := Stage.cut_of_last hlast
    obtain ⟨s₁, -, hh₁, -, -, ⟨-, htry, -⟩, -⟩ := began_of_cut h₀ hs' hwa
    rw [← hh, hs', List.mem_append, List.mem_cons] at hmem
    rcases hmem with hmem | rfl | hmem
    · exact hnew y hmem htid.symm
    · exact absurd (hwa.symm.trans hya) nofun
    · exact htry.unconfirmed y (hh₁ ▸ hmem) (htid.symm.trans hwt.symm) _ _ hya
  rcases cut_two hx hy with heq | ⟨newer, older, hs, hmem⟩ | ⟨newer, older, hs, hmem⟩
  · exact heq
  · exact (hlate hs hmem hxy hxa hya).elim
  · exact (hlate hs hmem hxy.symm hya hxa).elim

theorem handed_unique (h : env.Lawful s) (hx : x ∈ s.history) (hy : y ∈ s.history)
    (hxy : x.tid = y.tid) (hxa : HandsOver x.act) (hya : HandsOver y.act) : x = y := by
  have hlate : ∀ {x y : Entry runtime} {newer older}, s.history = newer ++ x :: older → y ∈ older →
      x.tid = y.tid → HandsOver x.act → ¬ HandsOver y.act := by
    intro x y newer older hs hmem htid hxa hya
    cases hact : x.act with
    | noted e =>
      obtain ⟨s₀, hn⟩ := noted_of_cut h hs hact
      rw [hact] at hxa
      cases e with
      | returned source item field result =>
        exact hn.may.2.2.1 hxa y (hn.history ▸ hmem) htid.symm hya
      | _ => exact hxa
    | _ =>
      rw [hact] at hxa
      exact hxa
  rcases cut_two hx hy with heq | ⟨newer, older, hs, hmem⟩ | ⟨newer, older, hs, hmem⟩
  · exact heq
  · exact absurd hya (hlate hs hmem hxy hxa)
  · exact absurd hxa (hlate hs hmem hxy.symm hya)

theorem serves_unique {job job' : Job} (h : env.Lawful s) (hj : Serves s t env job)
    (hj' : Serves s t env job') : job = job' := by
  obtain ⟨-, x, hx, hxt, hxa, hxl⟩ := hj
  obtain ⟨-, y, hy, hyt, hya, hyl⟩ := hj'
  obtain rfl := Rules.Lawful.started_unique h hx hy (hxt.trans hyt.symm) hxa hya
  obtain ⟨peer, bindings, request, entry⟩ := job
  obtain ⟨peer', bindings', request', entry'⟩ := job'
  obtain ⟨rfl, rfl, rfl⟩ := Task.sign.inj (Act.started.inj (hxa.symm.trans hya))
  obtain rfl := Option.some.inj (hxl.symm.trans hyl)
  rfl

/-- A request answered with a signature was served, settled and signed. -/
theorem signed_of_replied {signature : Signature} (h : env.Lawful s)
    (hd : s.Did t (.noted (.replied (.ok signature)))) :
    ∃ job, Serves s t env job ∧ Released s t ∧ Signs s t env job signature := by
  obtain ⟨x, hx, rfl, hxa⟩ := hd
  obtain ⟨newer, older, hs⟩ := List.append_of_mem hx
  obtain ⟨s₀, hn⟩ := noted_of_cut h hs hxa
  obtain ⟨job, hserve, ⟨y, hy, hyt, answer, asked, hya, hv⟩, hsigns⟩ := hn.may
  have hsuffix : s₀.history <:+ s.history := hn.history ▸ suffix_of_cut hs
  exact ⟨job, hserve.mono hsuffix, ⟨y, hsuffix.subset hy, hyt, answer, asked, hya, hv⟩,
    hsigns.mono hsuffix⟩

/-! ### Epochs only go forward -/

theorem legal_locks_le {s s' : Stage runtime} {act : Act runtime}
    (h : env.rules.Legal s t act s') : s.shared.epoch.locks ≤ s'.shared.epoch.locks := by
  cases h with
  | started _ hx => exact (World.Spares.launch hx t).locks
  | began _ _ => exact le_rfl
  | answered _ hx => exact (World.Spares.effect (t := t + 1) hx (Nat.ne_of_lt t.lt_succ_self)).locks
  | noted _ _ => exact World.apply_locks_le _ _
  | ended _ _ => exact le_rfl

theorem leads_locks_le {s s' : Stage runtime} (h : env.rules.Leads s s') :
    s.shared.epoch.locks ≤ s'.shared.epoch.locks :=
  h.rel (r := fun w x : World => w.epoch.locks ≤ x.epoch.locks) (fun _ => le_rfl)
    (fun _ _ _ => le_trans) (fun _ _ _ _ => legal_locks_le)
    fun d w => (World.Spares.drift 0 d w).locks

theorem entry_locks_le (h : env.Lawful s) (hx : x ∈ s.history) :
    x.before.epoch.locks ≤ x.after.epoch.locks := by
  obtain ⟨s₀, s₁, -, hb, ha, -, hl, -⟩ := h.entry hx
  exact hb ▸ ha ▸ legal_locks_le hl

theorem locks_le_now (h : env.Lawful s) (hx : x ∈ s.history) :
    x.after.epoch.locks ≤ s.shared.epoch.locks := by
  obtain ⟨s₀, s₁, -, -, ha, -, -, hlead⟩ := h.entry hx
  exact ha ▸ leads_locks_le hlead

theorem locks_le_of_cut (h : env.Lawful s) (hs : s.history = newer ++ x :: older) (hy : y ∈ older) :
    y.after.epoch.locks ≤ x.before.epoch.locks := by
  obtain ⟨s₀, h₀, hh, hb, -, -⟩ := h.cut hs
  exact hb ▸ locks_le_now h₀ (hh ▸ hy)

/-- Nothing locks the vault between two entries that see the same epoch. -/
theorem locks_between (h : env.Lawful s) (hs : s.history = newer ++ x :: (mid ++ y :: older))
    (heq : y.after.epoch.locks = x.before.epoch.locks) :
    ∀ z ∈ mid, z.before.epoch.locks = y.after.epoch.locks ∧
      z.after.epoch.locks = y.after.epoch.locks := by
  intro z hz
  obtain ⟨mid₁, mid₂, rfl⟩ := List.append_of_mem hz
  have hcut : s.history = (newer ++ x :: mid₁) ++ z :: (mid₂ ++ y :: older) := by simp [hs]
  have hfirst : y.after.epoch.locks ≤ z.before.epoch.locks := locks_le_of_cut h hcut (by simp)
  have hmid : z.before.epoch.locks ≤ z.after.epoch.locks := entry_locks_le h (by simp [hs])
  have hlast : z.after.epoch.locks ≤ x.before.epoch.locks := locks_le_of_cut h hs (by simp)
  omega

/-! ### The gate goes to requests, and comes back from them -/

theorem gate_of_effect {q : Query} {a : q.Answer} {w x : World} (hq : q ≠ .gate)
    (h : World.effect t q a w = some x) : x.gate = w.gate := by
  by_cases hh : q = .held
  · subst hh
    obtain ⟨-, rfl⟩ := World.effect_held (a := a) h
    rfl
  · rw [World.effect_call hq hh h]

theorem answered_of_gated {s' : Stage runtime} {act : Act runtime} {u : ℕ}
    (h : env.rules.Legal s u act s') (hg : s'.shared.gate = some t)
    (hs : s.shared.gate ≠ some t) : u = t ∧ ∃ a, act = .answered .gate a := by
  by_cases hut : u = t
  · refine ⟨hut, ?_⟩
    subst hut
    cases h with
    | started _ hx =>
      rw [Stage.push_shared, World.launch_eq hx] at hg
      exact absurd hg hs
    | began _ _ => exact absurd hg hs
    | @answered q a x _ hx =>
      by_cases hq : q = .gate
      · subst hq
        exact ⟨a, rfl⟩
      · exact absurd ((gate_of_effect hq hx).symm.trans hg) hs
    | @noted e _ _ =>
      by_cases he : e = .gateReleased
      · subst he
        exact absurd hg nofun
      · exact absurd ((World.apply_gate he).symm.trans hg) hs
    | ended _ _ => exact absurd hg hs
  · exact absurd ((spares_of_legal h hut).gate.mp hg) hs

theorem serves_of_gate (h : env.Lawful s) (hg : s.shared.gate = some t) :
    ∃ job, Serves s t env job := by
  induction h with
  | start hx => exact absurd (hx.gate.symm.trans hg) nofun
  | @act s s' u act hs hl ih =>
    have hsuffix : s.history <:+ s'.history := hl.history ▸ List.suffix_cons _ _
    by_cases hgate : s.shared.gate = some t
    · obtain ⟨job, hserve⟩ := ih hgate
      exact ⟨job, hserve.mono hsuffix⟩
    · obtain ⟨rfl, a, rfl⟩ := answered_of_gated hl hg hgate
      cases hl with
      | answered hlast _ =>
        obtain ⟨newer, w, older, hcut, rfl, hwa, -⟩ := Stage.cut_of_last hlast
        obtain ⟨s₀, -, hh, -, -, ⟨-, job, hserve⟩, -⟩ := began_of_cut hs hcut hwa
        exact ⟨job, hserve.mono ((hh ▸ suffix_of_cut hcut).trans hsuffix)⟩
  | drift d _ ih => exact ih ((World.Spares.drift t d _).gate.mp hg)

theorem gate_kept {s' : Stage runtime} (h : env.rules.Leads s s') (hg : s.shared.gate = some t)
    (hopen : ∀ result, ¬ s'.Did t (.noted (.replied result))) : s'.shared.gate = some t := by
  induction h with
  | refl => exact hg
  | @act s₁ s₂ u act hs hl ih =>
    have hsuffix : s₁.history <:+ s₂.history := hl.history ▸ List.suffix_cons _ _
    have hgate := ih fun result hd => hopen result (hd.mono hsuffix)
    by_cases hut : u = t
    · subst hut
      cases hl with
      | started _ hx => exact (World.Spares.launch hx u).gate.mpr hgate
      | began _ _ => exact hgate
      | @answered q a x _ hx =>
        by_cases hq : q = .gate
        · subst hq
          exact absurd ((World.effect_gate (a := a) hx).1.symm.trans hgate) nofun
        · exact (gate_of_effect hq hx).trans hgate
      | @noted e _ hr =>
        by_cases he : e = .gateReleased
        · subst he
          obtain ⟨-, result, hd⟩ := hr.2
          exact absurd (hd.mono hsuffix) (hopen result)
        · exact (World.apply_gate he).trans hgate
      | ended _ _ => exact hgate
    · exact (spares_of_legal hl hut).gate.mpr hgate
  | drift d _ ih => exact (World.Spares.drift t d _).gate.mpr (ih hopen)

end LastpassSshAgent
