import LastpassSshAgent.Histories

/-!
# The gate serialises what the user sees

Whatever reaches the user is done by the request that has the gate, which keeps it to
its reply. The lock of the held password is kept across the prompt and nothing else, so
the two locks never wait for each other.
-/

namespace LastpassSshAgent

open Resumption

variable {env : Env} {t : ℕ} {s : Stage runtime} {x y a r : Entry runtime}
  {newer mid mid' older : List (Entry runtime)}

/-- What puts something in front of the user, or of a store that may. -/
def Prompts : Act runtime → Prop
  | .began (.confirm _) => True
  | .began (.prompt _) => True
  | .began .masterStore => True
  | .began (.storeGet _) => True
  | .began (.storeSet _ _) => True
  | _ => False

/-- An interaction: one of those, or a call through the client that may ask. -/
def Interacts : Act runtime → Prop
  | .noted (.called .unlock _ _) => True
  | act => Prompts act

def Replies (x : Entry runtime) (t : ℕ) : Prop :=
  x.tid = t ∧ ∃ result, x.act = .noted (.replied result)

structure Serialised (env : Env) (P : Pool runtime) : Prop where
  /-- Who interacts has the gate. -/
  gated : ∀ x ∈ P.stage.history, Interacts x.act → x.before.gate = some x.tid
  /-- From its first interaction to its reply a request has the gate. -/
  kept : ∀ newer y mid x older, P.stage.history = newer ++ y :: (mid ++ x :: older) →
    Interacts x.act → (∀ z ∈ mid, ¬ Replies z x.tid) → y.before.gate = some x.tid
  /-- No other request interacts in between. -/
  exclusive : ∀ newer y mid x older, P.stage.history = newer ++ y :: (mid ++ x :: older) →
    Interacts x.act → Interacts y.act → (∀ z ∈ mid, ¬ Replies z x.tid) → y.tid = x.tid
  /-- A call that may ask has the gate to its return. -/
  asking : ∀ newer r mid x older item field item' field' result,
    P.stage.history = newer ++ r :: (mid ++ x :: older) → r.tid = x.tid →
    x.act = .noted (.called .unlock item field) →
    r.act = .noted (.returned .unlock item' field' result) →
    ∀ z ∈ r :: mid, z.before.gate = some x.tid
  /-- Only a request prompts, and none in a call through the client that may not ask. -/
  quiet : ∀ newer x older, P.stage.history = newer ++ x :: older → Prompts x.act →
    calling ⟨x.before, older⟩ x.tid ≠ some .heldOnly ∧
    ∀ y ∈ P.stage.history, y.tid = x.tid → ∀ task, y.act = .started task →
      ∃ peer bindings request, task = .sign peer bindings request
  /-- A request is taken to have asked exactly when it has itself asked. -/
  attributed : ∀ newer x older answer asked signed, P.stage.history = newer ++ x :: older →
    x.act = .noted (.settled answer asked signed) →
    (asked = true ↔ ∃ a ∈ older, a.tid = x.tid ∧ a.act = .noted .asked)
  /-- Nobody else asks during a call that may. -/
  undivided : ∀ newer r mid' a mid x older item field item' field' result,
    P.stage.history = newer ++ r :: (mid' ++ a :: (mid ++ x :: older)) → r.tid = x.tid →
    x.act = .noted (.called .unlock item field) →
    r.act = .noted (.returned .unlock item' field' result) →
    a.act = .noted .asked → a.tid = x.tid
  /-- The holder of the password's lock waits for neither lock. -/
  unblocked : ∀ t q next, P.threads t = some (.await q next) →
    P.stage.shared.heldLock = some t → q ≠ .gate ∧ q ≠ .held
  /-- Whoever waits, somebody's wait can be answered: its own, the gate's holder's, or
  that of the holder of the password's lock. -/
  progress : ∀ t q next, P.threads t = some (.await q next) →
    ∃ u q' next', P.threads u = some (.await q' next') ∧
      (u = t ∨ P.stage.shared.gate = some u ∨ P.stage.shared.heldLock = some u) ∧
      ∃ a x, World.effect u q' a P.stage.shared = some x

/-! ### Under the gate -/

theorem Prompts.interacts {act : Act runtime} (h : Prompts act) : Interacts act := by
  cases act with
  | noted e => exact absurd h id
  | _ => exact h

theorem interacts_of_cut (h : env.Lawful s) (hs : s.history = newer ++ x :: older)
    (hx : Interacts x.act) :
    x.before.gate = some x.tid ∧ x.after.gate = some x.tid ∧
      ∃ s₀, env.Lawful s₀ ∧ s₀.history = older ∧ s₀.shared = x.before ∧ Undecided s₀ x.tid := by
  have hbegan : ∀ q, x.act = .began q →
      (∀ s₀, MayBegin s₀ x.tid env q → s₀.shared.gate = some x.tid) →
      x.before.gate = some x.tid ∧ x.after.gate = some x.tid ∧
        ∃ s₀, env.Lawful s₀ ∧ s₀.history = older ∧ s₀.shared = x.before ∧
          Undecided s₀ x.tid := by
    intro q hq hmay
    obtain ⟨s₀, h₀, hh, hb, hafter, hbegin, hopen⟩ := began_of_cut h hs hq
    have hgate : x.before.gate = some x.tid := hb ▸ hmay s₀ hbegin
    exact ⟨hgate, hafter ▸ hgate, s₀, h₀, hh, hb, hopen⟩
  cases hact : x.act with
  | began q =>
    rw [hact] at hx
    cases q with
    | confirm ctx => exact hbegan _ hact fun s₀ hm => hm.1.1
    | prompt request =>
      exact hbegan _ hact fun s₀ hm => (asking_or_matched hm).elim (·.2.1) (·.2.1.1)
    | masterStore => exact hbegan _ hact fun s₀ hm => hm.1
    | storeGet fingerprint => exact hbegan _ hact fun s₀ hm => hm.1.1
    | storeSet fingerprint secret => exact hbegan _ hact fun s₀ hm => hm.1.1
    | _ => exact absurd hx id
  | noted e =>
    rw [hact] at hx
    cases e with
    | called source item field =>
      cases source with
      | unlock =>
        obtain ⟨s₀, hn⟩ := noted_of_cut h hs hact
        have hgate : x.before.gate = some x.tid := hn.before ▸ hn.may.1 rfl
        refine ⟨hgate, ?_, s₀, hn.lawful, hn.history, hn.before, hn.undecided.resolve_right id⟩
        rw [hn.after]
        exact hgate
      | _ => exact absurd hx id
    | _ => exact absurd hx id
  | _ =>
    rw [hact] at hx
    exact absurd hx id

/-- From an interaction to its request's reply, every entry is made under its gate. -/
theorem gate_since (h : env.Lawful s) (hs : s.history = newer ++ y :: (mid ++ x :: older))
    (hx : Interacts x.act) (hopen : ∀ z ∈ mid, ¬ Replies z x.tid) :
    y.before.gate = some x.tid := by
  obtain ⟨s₁, h₁, hh₁, hb₁, -⟩ := h.cut hs
  obtain ⟨-, hafter, s₀, -, hh₀, -, hundecided⟩ := interacts_of_cut h₁ hh₁ hx
  obtain ⟨-, -, -, -, -, hlead⟩ := h₁.cut hh₁
  refine hb₁ ▸ gate_kept hlead hafter fun result ⟨z, hz, hzt, hza⟩ => ?_
  rw [hh₁, List.mem_append, List.mem_cons] at hz
  rcases hz with hz | rfl | hz
  · exact hopen z hz ⟨hzt, result, hza⟩
  · rw [hza] at hx
    exact hx
  · have hno := hundecided z (hh₀ ▸ hz) hzt
    rw [hza] at hno
    exact hno trivial

theorem exclusive_of_interacts (h : env.Lawful s)
    (hs : s.history = newer ++ y :: (mid ++ x :: older)) (hx : Interacts x.act)
    (hy : Interacts y.act) (hopen : ∀ z ∈ mid, ¬ Replies z x.tid) : y.tid = x.tid := by
  have hgate := gate_since h hs hx hopen
  have hown := (interacts_of_cut h hs hy).1
  exact Option.some.inj (hown.symm.trans hgate)

theorem unreplied_of_returned {source : MasterPasswordSource} {item field : String}
    {result : Except LpassError Bytes} (h : env.Lawful s) (hs : s.history = newer ++ r :: older)
    (hr : r.act = .noted (.returned source item field result)) : ∀ z ∈ older, ¬ Replies z r.tid := by
  rintro z hz ⟨hzt, result', hza⟩
  have hd : Decides z.act := by
    rw [hza]
    trivial
  exact absurd (closes_of_cut h hs hz hzt hd) (hr ▸ id)

theorem gate_of_calling {item field item' field' : String} {result : Except LpassError Bytes}
    (h : env.Lawful s) (hs : s.history = newer ++ r :: (mid ++ x :: older)) (hrx : r.tid = x.tid)
    (hx : x.act = .noted (.called .unlock item field))
    (hr : r.act = .noted (.returned .unlock item' field' result)) :
    ∀ z ∈ r :: mid, z.before.gate = some x.tid := by
  have hopen := unreplied_of_returned h hs hr
  have hinteracts : Interacts x.act := by
    rw [hx]
    trivial
  intro z hz
  rcases List.mem_cons.mp hz with rfl | hz
  · exact gate_since h hs hinteracts fun w hw => hrx ▸ hopen w (List.mem_append_left _ hw)
  · obtain ⟨mid₁, mid₂, rfl⟩ := List.append_of_mem hz
    have hcut : s.history = (newer ++ r :: mid₁) ++ z :: (mid₂ ++ x :: older) := by simp [hs]
    refine gate_since h hcut hinteracts ?_
    exact fun w hw => hrx ▸ hopen w (by simp [hw])

/-! ### Who prompts -/

theorem quiet_of_prompts (h : env.Lawful s) (hs : s.history = newer ++ x :: older)
    (hx : Prompts x.act) : calling ⟨x.before, older⟩ x.tid ≠ some .heldOnly := by
  have hcall : ∀ s₀ : Stage runtime, s₀.history = older →
      calling ⟨x.before, older⟩ x.tid = calling s₀ x.tid := by
    rintro s₀ rfl
    rfl
  cases hact : x.act with
  | began q =>
    obtain ⟨s₀, -, hh, -, -, hmay, -⟩ := began_of_cut h hs hact
    rw [hcall s₀ hh]
    rw [hact] at hx
    cases q with
    | confirm ctx => simp [hmay.1.2.2]
    | prompt request =>
      rcases asking_or_matched hmay with ⟨-, hask⟩ | ⟨-, hfree, -⟩
      · simp [hask.2.2.1]
      · simp [hfree.2.2]
    | masterStore => simp [hmay.2.2.1]
    | storeGet fingerprint => simp [hmay.1.2.2]
    | storeSet fingerprint secret => simp [hmay.1.2.2]
    | _ => exact absurd hx id
  | _ =>
    rw [hact] at hx
    exact absurd hx id

theorem sign_of_prompts (h : env.Lawful s) (hs : s.history = newer ++ x :: older)
    (hx : Prompts x.act) (hy : y ∈ s.history) (hyx : y.tid = x.tid) {task : Task}
    (hya : y.act = .started task) : ∃ peer bindings request, task = .sign peer bindings request := by
  obtain ⟨hgate, -, s₀, h₀, hh, hb, -⟩ := interacts_of_cut h hs hx.interacts
  obtain ⟨job, -, z, hz, hzt, hza, -⟩ := serves_of_gate h₀ (hb ▸ hgate)
  have hz' : z ∈ s.history := by
    rw [hs, ← hh]
    simp [hz]
  obtain rfl := Rules.Lawful.started_unique h hz' hy (hzt.trans hyx.symm) hza hya
  exact ⟨_, _, _, Act.started.inj (hya.symm.trans hza)⟩

theorem asked_of_settled {answer : Answer} {asked signed : Bool} (h : env.Lawful s)
    (hs : s.history = newer ++ x :: older) (hx : x.act = .noted (.settled answer asked signed)) :
    asked = true ↔ ∃ a ∈ older, a.tid = x.tid ∧ a.act = .noted .asked := by
  obtain ⟨s₀, hn⟩ := noted_of_cut h hs hx
  obtain ⟨job, -, -, hiff⟩ := hn.may
  exact hn.history ▸ hiff

theorem undivided_of_calling {item field item' field' : String} {result : Except LpassError Bytes}
    (h : env.Lawful s) (hs : s.history = newer ++ r :: (mid' ++ a :: (mid ++ x :: older)))
    (hrx : r.tid = x.tid) (hx : x.act = .noted (.called .unlock item field))
    (hr : r.act = .noted (.returned .unlock item' field' result)) (ha : a.act = .noted .asked) :
    a.tid = x.tid := by
  have hcut : s.history = newer ++ r :: ((mid' ++ a :: mid) ++ x :: older) := by simp [hs]
  have hgate : a.before.gate = some x.tid := gate_of_calling h hcut hrx hx hr a (by simp)
  have hcut' : s.history = (newer ++ r :: mid') ++ a :: (mid ++ x :: older) := by simp [hs]
  obtain ⟨s₀, hn⟩ := noted_of_cut h hcut' ha
  exact Option.some.inj ((hn.before ▸ hn.may.1.1 : a.before.gate = some a.tid).symm.trans hgate)

/-! ### No circular wait -/

theorem awaits_of_live {P : Pool runtime} (h : env.Reachable P) (hl : P.stage.Live t) :
    ∃ q next, P.threads t = some (.await q next) ∧ MayPause t q P.stage := by
  obtain ⟨act, hlast, hact⟩ := hl
  have hO := Env.orderly h
  cases ht : P.threads t with
  | none => exact absurd ((hO.fresh t ht).symm.trans hlast) nofun
  | some p =>
    have hw := hO.waiting t p ht
    cases p with
    | done u => exact absurd (Option.some.inj (hlast.symm.trans hw)) hact
    | read next => exact hw.elim
    | emit e next => exact hw.elim
    | await q next => exact ⟨q, next, rfl, (hw.2 _ .refl).1⟩

theorem effect_of_call {q : Query} (w : World) (hg : q ≠ .gate) (hh : q ≠ .held)
    (hcount : ∀ count, q = .nextProbe count → 0 < count) : ∃ a x, World.effect t q a w = some x := by
  cases q with
  | gate => exact absurd rfl hg
  | held => exact absurd rfl hh
  | nextProbe count => exact ⟨(0 : ℕ), w, if_pos (hcount count rfl)⟩
  | lpass args password maxBytes => exact ⟨LpassRun.timeout, w, rfl⟩
  | masterStore => exact ⟨Except.ok none, w, rfl⟩
  | prompt request => exact ⟨Except.error .cancelled, w, rfl⟩
  | confirm ctx => exact ⟨Decision.deny, w, rfl⟩
  | namesFor fingerprints => exact ⟨([] : List (Option String)), w, rfl⟩
  | storeGet fingerprint => exact ⟨Except.ok none, w, rfl⟩
  | storeSet fingerprint secret => exact ⟨Except.ok (), w, rfl⟩

theorem unblocked_of_locked {q : Query} (h : MayPause t q s) (hl : s.shared.heldLock = some t) :
    q ≠ .gate ∧ q ≠ .held := by
  rcases h.2.1 hl with rfl | ⟨request, rfl⟩
  · exact ⟨nofun, nofun⟩
  · exact ⟨nofun, nofun⟩

/-- The holder of the password's lock can be answered. -/
theorem progress_of_locked {P : Pool runtime} (h : env.Reachable P)
    (hl : P.stage.shared.heldLock = some t) : ∃ q next, P.threads t = some (.await q next) ∧
      ∃ a x, World.effect t q a P.stage.shared = some x := by
  obtain ⟨q, next, ht, hpause⟩ := awaits_of_live h (live_of_locked (Env.lawful h) (.inr hl))
  obtain ⟨hg, hh⟩ := unblocked_of_locked hpause hl
  exact ⟨q, next, ht, effect_of_call _ hg hh hpause.2.2⟩

/-- A wait for anything but the gate is answered, or waits on the password's lock. -/
theorem progress_of_ungated {P : Pool runtime} (h : env.Reachable P) {q : Query}
    {next : q.Answer → Async Unit} (ht : P.threads t = some (.await q next)) (hg : q ≠ .gate)
    (hpause : MayPause t q P.stage) : ∃ u q' next', P.threads u = some (.await q' next') ∧
      (u = t ∨ P.stage.shared.heldLock = some u) ∧
      ∃ a x, World.effect u q' a P.stage.shared = some x := by
  by_cases hh : q = .held
  · subst hh
    cases hl : P.stage.shared.heldLock with
    | none => exact ⟨t, .held, next, ht, .inl rfl, (), _, if_pos hl⟩
    | some u =>
      obtain ⟨q', next', hu, hstep⟩ := progress_of_locked h hl
      exact ⟨u, q', next', hu, .inr rfl, hstep⟩
  · exact ⟨t, q, next, ht, .inl rfl, effect_of_call _ hg hh hpause.2.2⟩

theorem progress_of_waiting {P : Pool runtime} (h : env.Reachable P) {q : Query}
    {next : q.Answer → Async Unit} (ht : P.threads t = some (.await q next)) :
    ∃ u q' next', P.threads u = some (.await q' next') ∧
      (u = t ∨ P.stage.shared.gate = some u ∨ P.stage.shared.heldLock = some u) ∧
      ∃ a x, World.effect u q' a P.stage.shared = some x := by
  have hpause : MayPause t q P.stage := (((Env.orderly h).waiting t _ ht).2 _ .refl).1
  by_cases hg : q = .gate
  · subst hg
    cases hgate : P.stage.shared.gate with
    | none => exact ⟨t, .gate, next, ht, .inl rfl, (), _, if_pos hgate⟩
    | some u =>
      -- the gate's holder is live and does not wait for the gate
      obtain ⟨q', next', hu, hpause'⟩ := awaits_of_live h (live_of_locked (Env.lawful h) (.inl hgate))
      have hne : q' ≠ .gate := fun heq => hpause'.1 heq hgate
      obtain ⟨v, q'', next'', hv, hwho, hstep⟩ := progress_of_ungated h hu hne hpause'
      refine ⟨v, q'', next'', hv, .inr ?_, hstep⟩
      rcases hwho with rfl | hlock
      · exact .inl rfl
      · exact .inr hlock
  · obtain ⟨u, q', next', hu, hwho, hstep⟩ := progress_of_ungated h ht hg hpause
    exact ⟨u, q', next', hu, hwho.imp_right .inr, hstep⟩

/-- The gate serialises interactions, and no schedule locks the agent up. -/
theorem gate_serialises {P : Pool runtime} (h : env.Reachable P) : Serialised env P where
  gated x hx hi := by
    obtain ⟨newer, older, hs⟩ := List.append_of_mem hx
    exact (interacts_of_cut (Env.lawful h) hs hi).1
  kept newer y mid x older hs hx hopen := gate_since (Env.lawful h) hs hx hopen
  exclusive newer y mid x older hs hx hy hopen :=
    exclusive_of_interacts (Env.lawful h) hs hx hy hopen
  asking newer r mid x older item field item' field' result hs hrx hx hr :=
    gate_of_calling (Env.lawful h) hs hrx hx hr
  quiet newer x older hs hx := ⟨quiet_of_prompts (Env.lawful h) hs hx,
    fun y hy hyx task hya => sign_of_prompts (Env.lawful h) hs hx hy hyx hya⟩
  attributed newer x older answer asked signed hs hx := asked_of_settled (Env.lawful h) hs hx
  undivided newer r mid' a mid x older item field item' field' result hs hrx hx hr ha :=
    undivided_of_calling (Env.lawful h) hs hrx hx hr ha
  unblocked t q next ht hl :=
    unblocked_of_locked (((Env.orderly h).waiting t _ ht).2 _ .refl).1 hl
  progress t q next ht := progress_of_waiting h ht

/-- Thread 0 asks for the master password with both locks, and thread 1 waits. -/
def contended : List (Move runtime) :=
  [Sample.sign 0 Sample.plain [] [5], Sample.go 0, Sample.go 0, Sample.go 0, Sample.go 0,
    Sample.go 0, Sample.go 0, Sample.go 0, Sample.sign 1 Sample.encrypted [] [5]]

def Contended (P : Pool runtime) : Prop :=
  (P.stage.shared.gate = some 0 ∧ P.stage.shared.heldLock = some 0) ∧
    (∃ x ∈ P.stage.history[0]?, x.tid = 1 ∧ x.act = .began .gate) ∧
    ∃ x ∈ P.stage.history[2]?, x.tid = 0 ∧ x.act = .began (.prompt .master)

set_option synthInstance.maxSize 1000 in
instance (P : Pool runtime) : Decidable (Contended P) := inferInstanceAs (Decidable (_ ∧ _))

theorem gate_serialises_contended :
    ∃ P, Sample.env.Reachable P ∧ Contended P ∧ Serialised Sample.env P := by
  obtain ⟨P, hP, hrun⟩ := Pool.exists_of_plays (p := Contended) Sample.reachable_start
    (show ∃ P ∈ Pool.plays Sample.env.code (.start Sample.world) contended, Contended P by
      decide +kernel)
  exact ⟨P, hP, hrun, gate_serialises hP⟩

end LastpassSshAgent
