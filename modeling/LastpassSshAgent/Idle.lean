import LastpassSshAgent.Histories

/-!
# How long the master password is held

The idle time counts from a stamp, and only the client that may ask renews it. What
signatures do with the password through the other client goes unrecorded.
-/

namespace LastpassSshAgent

open Resumption

variable {env : Env} {t : ℕ} {s : Stage runtime} {x y : Entry runtime}
  {newer older history : List (Entry runtime)}

/-- A run of `lpass` for a signature, fed `secret`. -/
def FedForSignature (history : List (Entry runtime)) (x : Entry runtime) (secret : Bytes) : Prop :=
  (∃ args maxBytes, x.act = .began (.lpass args (some secret) maxBytes)) ∧
    ∃ y ∈ history, y.tid = x.tid ∧ ∃ peer bindings request,
      y.act = .started (.sign peer bindings request)

def OfScan (history : List (Entry runtime)) (x : Entry runtime) : Prop :=
  ∃ y ∈ history, y.tid = x.tid ∧ (y.act = .started .refresh ∨ ∃ item, y.act = .started (.probe item))

/-- The call that `y` was part of has returned: its thread has had a result since. -/
def HasReturned (history : List (Entry runtime)) (y : Entry runtime) : Prop :=
  ∃ newer x mid older, history = newer ++ x :: (mid ++ y :: older) ∧ x.tid = y.tid ∧
    ∃ source item field result, x.act = .noted (.returned source item field result)

/-- The idle time counts from the last use of the password, in every state the history has
been through. -/
structure CountsFrom (used : List (Entry runtime) → Entry runtime → Bytes → Prop) (env : Env)
    (history : List (Entry runtime)) : Prop where
  /-- What is held is stamped no earlier than any use that was made of it. -/
  stamped : ∀ newer x older held, history = newer ++ x :: older → x.after.held = some held →
    ∀ y ∈ x :: older, used (x :: older) y held.secret → y.before.clock ≤ held.lastUsed
  /-- A scan does not move the stamp. -/
  scanned : ∀ x ∈ history, OfScan history x → ∀ was held, x.before.held = some was →
    x.after.held = some held → held.lastUsed = was.lastUsed
  /-- What expires has not been used in the idle time. -/
  expired : ∀ newer x older held, history = newer ++ x :: older → x.act = .noted .expired →
    x.before.held = some held → ∃ idle, env.unlock.idle = some idle ∧
      ∀ y ∈ older, used older y held.secret → y.before.clock + idle ≤ x.before.clock

/-- A use is a run of `lpass` for a signature. -/
def CountsFromUse (env : Env) (history : List (Entry runtime)) : Prop :=
  CountsFrom (fun _ y secret => FedForSignature history y secret) env history

/-- As above, from the time the call it was made for has returned. -/
def CountsOnReturn (env : Env) (history : List (Entry runtime)) : Prop :=
  CountsFrom (fun past y secret => FedForSignature history y secret ∧ HasReturned past y) env history

/-! ### The clock and the stamp -/

/-- Takes the master password, or stamps what is held. -/
def Stamps : Act runtime → Prop
  | .noted (.holding _ _) => True
  | .noted .touched => True
  | _ => False

/-- What is held was taken or stamped at `time` or later; where nothing has been since the
agent began to serve, the stamp is the one that was held then. -/
def StampedBy (history : List (Entry runtime)) (held : Held) (time : ℕ) : Prop :=
  (∃ x ∈ history, Stamps x.act ∧ time ≤ x.before.clock) ∨
    (∀ x ∈ history, ¬ Stamps x.act) ∧ time ≤ held.lastUsed

/-- Whenever a signature has `lpass` fed what is held, that was taken or stamped at the very
reading of the clock: nothing before `x` is later than `x`. -/
def FedWhenStamped (history : List (Entry runtime)) : Prop :=
  ∀ newer x older held, history = newer ++ x :: older → x.before.held = some held →
    FedForSignature history x held.secret → StampedBy older held x.before.clock

/-- Whenever a call returns that was fed what is held for a signature, that has been taken or
stamped since; unless the call was through the client that may ask, and succeeded. -/
def QuietUsesStamped (history : List (Entry runtime)) : Prop :=
  ∀ newer x older source item field result held, history = newer ++ x :: older →
    x.act = .noted (.returned source item field result) →
    (source = .unlock → ∃ e, result = .error e) → x.after.held = some held →
    ∀ y ∈ older, y.tid = x.tid → FedForSignature history y held.secret →
      StampedBy older held y.before.clock

theorem legal_clock {s' : Stage runtime} {act : Act runtime} (h : env.rules.Legal s t act s') :
    s'.shared.clock = s.shared.clock := by
  cases h with
  | started _ hx => rw [Stage.push_shared, World.launch_eq hx]
  | began _ _ => rfl
  | answered _ hx => rw [Stage.push_shared, World.effect_eq hx]
  | noted _ _ => exact World.apply_clock _ _
  | ended _ _ => rfl

theorem leads_clock_le {s' : Stage runtime} (h : env.rules.Leads s s') :
    s.shared.clock ≤ s'.shared.clock := by
  refine h.rel (r := fun w x : World => w.clock ≤ x.clock) (fun _ => le_rfl)
    (fun _ _ _ => le_trans) (fun _ _ _ _ hl => (legal_clock hl).ge) fun d w => ?_
  cases d with
  | tick n => exact Nat.le_add_right _ n
  | processes table => exact le_rfl
  | disk works => exact le_rfl

theorem clock_le_now (h : env.Lawful s) (hx : x ∈ s.history) :
    x.before.clock ≤ s.shared.clock := by
  obtain ⟨s₀, s₁, -, hb, -, -, hl, hlead⟩ := h.entry hx
  rw [← hb, ← legal_clock hl]
  exact leads_clock_le hlead

theorem clock_le_of_cut (h : env.Lawful s) (hs : s.history = newer ++ x :: older) (hy : y ∈ older) :
    y.before.clock ≤ x.before.clock := by
  obtain ⟨s₀, h₀, hh, hb, -⟩ := h.cut hs
  exact hb ▸ clock_le_now h₀ (hh ▸ hy)

/-- What one act can do to the password that is held: leave it or drop it, or else take one
or stamp it, with the time on it. -/
theorem legal_held {s' : Stage runtime} {act : Act runtime} {held : Held}
    (h : env.rules.Legal s t act s') (hheld : s'.shared.held = some held) :
    ¬ Stamps act ∧ s.shared.held = some held ∨ Stamps act ∧ held.lastUsed = s.shared.clock ∧
      (s.shared.held = none ∨ s.shared.gate = some t) := by
  cases h with
  | started _ hx =>
    rw [Stage.push_shared, World.launch_eq hx] at hheld
    exact .inl ⟨id, hheld⟩
  | began _ _ => exact .inl ⟨id, hheld⟩
  | answered _ hx =>
    rw [Stage.push_shared, World.effect_eq hx] at hheld
    exact .inl ⟨id, hheld⟩
  | @noted e _ hr =>
    cases e with
    | holding secret source =>
      obtain rfl := Option.some.inj hheld
      exact .inr ⟨trivial, rfl, .inl hr.2.2.2⟩
    | touched =>
      obtain ⟨was, -, rfl⟩ := Option.map_eq_some_iff.mp hheld
      exact .inr ⟨trivial, rfl, .inr hr.2.2⟩
    | rejected => exact absurd (World.reject_held s.shared ▸ hheld) nofun
    | forgotten => exact absurd hheld nofun
    | expired => exact absurd hheld nofun
    | _ => exact .inl ⟨id, hheld⟩
  | ended _ _ => exact .inl ⟨id, hheld⟩

theorem lastUsed_le_clock (h : env.Lawful s) {held : Held} (hheld : s.shared.held = some held) :
    held.lastUsed ≤ s.shared.clock := by
  induction h generalizing held with
  | start hx => exact hx.held held hheld
  | act _ hl ih =>
    rw [legal_clock hl]
    rcases legal_held hl hheld with ⟨-, hsame⟩ | ⟨-, hnow, -⟩
    · exact ih hsame
    · exact hnow.le
  | @drift s d _ ih =>
    cases d with
    | tick n => exact (ih hheld).trans (Nat.le_add_right s.shared.clock n)
    | processes table => exact ih hheld
    | disk works => exact ih hheld

theorem stampedBy_cons {held : Held} {time : ℕ} (hx : ¬ Stamps x.act) :
    StampedBy (x :: older) held time ↔ StampedBy older held time := by
  simp [StampedBy, hx]

/-- The stamp is that of the last entry which took or stamped what is held. -/
theorem stampedBy_iff (h : env.Lawful s) {held : Held} (hheld : s.shared.held = some held)
    {time : ℕ} : StampedBy s.history held time ↔ time ≤ held.lastUsed := by
  induction h generalizing held with
  | start _ =>
    show StampedBy [] held time ↔ _
    simp [StampedBy]
  | @act s s' u act hs hl ih =>
    rw [hl.history]
    rcases legal_held hl hheld with ⟨hact, hsame⟩ | ⟨hact, hnow, -⟩
    · exact (stampedBy_cons hact).trans (ih hsame)
    · constructor
      · rintro (⟨x, hx, -, hle⟩ | ⟨hnone, -⟩)
        · rcases List.mem_cons.mp hx with rfl | hx
          · exact hle.trans hnow.ge
          · exact (hle.trans (clock_le_now hs hx)).trans hnow.ge
        · exact absurd hact (hnone _ List.mem_cons_self)
      · exact fun hle => .inl ⟨_, List.mem_cons_self, hact, hle.trans hnow.le⟩
  | @drift s d _ ih =>
    refine ih ?_
    rw [← hheld]
    cases d <;> rfl

/-- What is held was held already, or has been taken or stamped in between. -/
theorem held_of_leads {s' : Stage runtime} (h : env.rules.Leads s s') {held : Held}
    (hheld : s'.shared.held = some held) : s.shared.held = some held ∨
      ∃ x ∈ s'.history, Stamps x.act ∧ s.shared.clock ≤ x.before.clock := by
  induction h generalizing held with
  | refl => exact .inl hheld
  | @act s₁ s₂ u act hs hl ih =>
    rw [hl.history]
    rcases legal_held hl hheld with ⟨-, hsame⟩ | ⟨hact, -⟩
    · exact (ih hsame).imp_right fun ⟨x, hx, hstamps⟩ => ⟨x, List.mem_cons_of_mem _ hx, hstamps⟩
    · exact .inr ⟨_, List.mem_cons_self, hact, leads_clock_le hs⟩
  | @drift s₁ d _ ih =>
    refine ih ?_
    rw [← hheld]
    cases d <;> rfl

/-- What was stamped in time for `x`, if it was held there, is stamped in time. -/
theorem le_lastUsed_of_cut (h : env.Lawful s) (hs : s.history = newer ++ x :: older) {held : Held}
    (hheld : s.shared.held = some held) {time : ℕ} (htime : time ≤ x.before.clock)
    (hx : x.after.held = some held → StampedBy older held time) : time ≤ held.lastUsed := by
  obtain ⟨s₀, -, -, hb, hl, hlead⟩ := h.cut hs
  have hclock : x.before.clock = x.after.clock := hb ▸ (legal_clock hl).symm
  rcases held_of_leads hlead hheld with hsame | ⟨z, hz, hstamps, hle⟩
  · rcases hx hsame with ⟨z, hz, hstamps, hle⟩ | ⟨-, hle⟩
    · exact (stampedBy_iff h hheld).mp (.inl ⟨z, by simp [hs, hz], hstamps, hle⟩)
    · exact hle
  · have hlate : x.after.clock ≤ z.before.clock := hle
    exact (stampedBy_iff h hheld).mp (.inl ⟨z, hz, hstamps, (htime.trans hclock.le).trans hlate⟩)

/-! ### When the stamp keeps up -/

/-- Whoever stamps what is held has the gate, and a scan never does. -/
theorem unmoved_of_scan (h : env.Lawful s) (hx : x ∈ s.history) (hscan : OfScan s.history x)
    {was held : Held} (hwas : x.before.held = some was) (hheld : x.after.held = some held) :
    held.lastUsed = was.lastUsed := by
  obtain ⟨s₀, s₁, h₀, hb, ha, -, hl, hlead⟩ := h.entry hx
  rw [← hb] at hwas
  rw [← ha] at hheld
  rcases legal_held hl hheld with ⟨-, hsame⟩ | ⟨-, -, hnone | hgate⟩
  · rw [Option.some.inj (hsame.symm.trans hwas)]
  · exact absurd (hnone.symm.trans hwas) nofun
  · obtain ⟨job, -, z, hz, hzt, hza, -⟩ := serves_of_gate h₀ hgate
    obtain ⟨y, hy, hyt, hya⟩ := hscan
    have hz' : z ∈ s.history :=
      (((hl.history ▸ List.suffix_cons _ _ : s₀.history <:+ s₁.history)).trans hlead.history).subset
        hz
    rcases hya with hya | ⟨item, hya⟩
    · obtain rfl := Rules.Lawful.started_unique h hz' hy (hzt.trans hyt.symm) hza hya
      exact absurd (hza.symm.trans hya) nofun
    · obtain rfl := Rules.Lawful.started_unique h hz' hy (hzt.trans hyt.symm) hza hya
      exact absurd (hza.symm.trans hya) nofun

theorem countsFrom_of_stamped {used : List (Entry runtime) → Entry runtime → Bytes → Prop}
    (h : env.Lawful s) (hused : ∀ s₁ held, env.Lawful s₁ → s₁.history <:+ s.history →
      s₁.shared.held = some held → ∀ y ∈ s₁.history, used s₁.history y held.secret →
        y.before.clock ≤ held.lastUsed) : CountsFrom used env s.history where
  stamped newer x older held hs hheld := by
    obtain ⟨s₀, h₀, -, -, hl, hlead⟩ := h.cut hs
    exact hused _ held (h₀.act hl) hlead.history hheld
  scanned x hx hscan was held := unmoved_of_scan h hx hscan
  expired newer x older held hs hx hheld := by
    obtain ⟨s₀, hn⟩ := noted_of_cut h hs hx
    obtain ⟨-, idle, hidle, hover⟩ := hn.may
    rw [← hn.before] at hheld ⊢
    refine ⟨idle, hidle, fun y hy hy' => ?_⟩
    have hstamp := hused s₀ held hn.lawful (hn.history ▸ suffix_of_cut hs) hheld y (hn.history ▸ hy)
      (hn.history ▸ hy')
    have hclock := lastUsed_le_clock hn.lawful hheld
    have hidled : idle ≤ s₀.shared.clock - held.lastUsed := by
      simpa [Unlock.idled, hheld] using hover
    omega

theorem after_of_fed (h : env.Lawful s) (hs : s.history = newer ++ x :: older) {secret : Bytes}
    (hfed : FedForSignature history x secret) : x.after = x.before := by
  obtain ⟨args, maxBytes, hx⟩ := hfed.1
  obtain ⟨s₀, -, -, -, hafter, -⟩ := began_of_cut h hs hx
  exact hafter

theorem countsFromUse_iff (h : env.Lawful s) :
    CountsFromUse env s.history ↔ FedWhenStamped s.history := by
  constructor
  · intro hcounts newer x older held hs hheld hfed
    obtain ⟨s₀, h₀, rfl, hb, -⟩ := h.cut hs
    refine (stampedBy_iff h₀ (hb ▸ hheld)).mpr ?_
    exact hcounts.stamped newer x s₀.history held hs (after_of_fed h hs hfed ▸ hheld) x
      List.mem_cons_self hfed
  · intro hwhen
    refine countsFrom_of_stamped h fun s₁ held h₁ hsuffix hheld y hy hfed => ?_
    obtain ⟨mid, older, hs₁⟩ := List.append_of_mem hy
    obtain ⟨newer, hs⟩ := hsuffix
    rw [hs₁, ← List.append_assoc] at hs
    refine le_lastUsed_of_cut h₁ hs₁ hheld le_rfl fun hafter => ?_
    exact hwhen _ y older held hs.symm (after_of_fed h hs.symm hfed ▸ hafter) hfed

/-- A call of the client that may ask, once it has succeeded, has stamped what is held since
it was fed. -/
theorem touched_of_returned (h : env.Lawful s) (hs : s.history = newer ++ x :: older)
    {item field : String} {value secret : Bytes}
    (hx : x.act = .noted (.returned .unlock item field (.ok value))) (hy : y ∈ older)
    (hyx : y.tid = x.tid) (hfed : FedForSignature history y secret) :
    ∃ z ∈ older, Stamps z.act ∧ y.before.clock ≤ z.before.clock := by
  obtain ⟨args, maxBytes, hact⟩ := hfed.1
  obtain ⟨s₀, hn⟩ := noted_of_cut h hs hx
  obtain ⟨later, z, earlier, hs₀, hzt, hza, hlater⟩ := hn.may.2.2.2 value rfl rfl
  refine ⟨z, by simp [← hn.history, hs₀], by rw [hza]; trivial, ?_⟩
  rw [← hn.history, hs₀, List.mem_append, List.mem_cons] at hy
  rcases hy with hy | rfl | hy
  · exact absurd (hact.symm.trans (hlater y hy hyx)) nofun
  · exact absurd (hact.symm.trans hza) nofun
  · exact clock_le_of_cut hn.lawful hs₀ hy

theorem countsOnReturn_iff (h : env.Lawful s) :
    CountsOnReturn env s.history ↔ QuietUsesStamped s.history := by
  constructor
  · intro hcounts newer x older source item field result held hs hx _ hheld y hy hyx hfed
    have hreturned : HasReturned (x :: older) y := by
      obtain ⟨mid, rest, rfl⟩ := List.append_of_mem hy
      exact ⟨[], x, mid, rest, rfl, hyx.symm, source, item, field, result, hx⟩
    obtain ⟨s₀, h₀, -, -, hl, -⟩ := h.cut hs
    have hstamped := (stampedBy_iff (h₀.act hl) hheld).mpr <|
      hcounts.stamped newer x older held hs hheld y (List.mem_cons_of_mem x hy) ⟨hfed, hreturned⟩
    exact (stampedBy_cons (hx ▸ id)).mp hstamped
  · intro hquiet
    refine countsFrom_of_stamped h fun s₁ held h₁ hsuffix hheld y _ hy => ?_
    obtain ⟨hfed, mid, x, mid', rest, hs₁, hxy, source, item, field, result, hx⟩ := hy
    have hmem : y ∈ mid' ++ y :: rest := by simp
    refine le_lastUsed_of_cut h₁ hs₁ hheld (clock_le_of_cut h₁ hs₁ hmem) fun hafter => ?_
    obtain ⟨newer, hs⟩ := hsuffix
    rw [hs₁, ← List.append_assoc] at hs
    by_cases hasks : source = .unlock → ∃ e, result = .error e
    · exact hquiet _ x _ source item field result held hs.symm hx hasks hafter y hmem hxy.symm hfed
    · obtain ⟨rfl, hok⟩ := Classical.not_imp.mp hasks
      cases result with
      | error e => exact absurd ⟨e, rfl⟩ hok
      | ok value => exact .inl (touched_of_returned h₁ hs₁ hx hmem hxy.symm hfed)

/-- The idle time counts from the last signature that used the password exactly when every
signature that is fed a held password is fed it at the instant of a stamp. From the return of
each call it does so exactly when what the quiet client uses, or a call that fails, has been
stamped by then: the client that may ask sees to it itself. -/
theorem counts_from_use_iff {P : Pool runtime} (h : env.Reachable P) :
    (CountsFromUse env P.stage.history ↔ FedWhenStamped P.stage.history) ∧
      (CountsOnReturn env P.stage.history ↔ QuietUsesStamped P.stage.history) :=
  ⟨countsFromUse_iff (Env.lawful h), countsOnReturn_iff (Env.lawful h)⟩

/-! ### A signature in the last second -/

/-- Thread 0 asks for the password at nought. Thread 1 signs with it at 3599 seconds,
through the client that leaves no stamp, and at 3600 it has expired. -/
def quietUse : List (Move runtime) :=
  [Sample.sign 0 Sample.plain [] [5], Sample.go 0, Sample.go 0, Sample.go 0, Sample.go 0,
    Sample.go 0, Sample.go 0, Sample.go 0, Sample.go 0, Sample.vault 0 [1], Sample.go 0,
    .drift (.tick (seconds 3599)), Sample.sign 1 Sample.plain [] [5], Sample.go 1,
    Sample.vault 1 [1], .drift (.tick (seconds 1)), .spawn 2 .expire, Sample.go 2]

def ExpiresInUse (history : List (Entry runtime)) : Prop :=
  ∃ x ∈ history[2]?, (x.act = .noted .expired ∧ x.before.held = some ⟨[2], .prompt, 0⟩ ∧
      x.before.clock = seconds 3600) ∧
    ∃ w ∈ (history.drop 3)[7]?, (w.tid = 1 ∧
      w.act = .noted (.returned .heldOnly "11" "Private Key" (.ok [1]))) ∧
    ∃ y ∈ ((history.drop 3).drop 8)[1]?, (y.tid = 1 ∧ y.act = .began (.lpass
      ["show", "--field=Private Key", "11"] (some [2]) MAX_FIELD_BYTES) ∧
        y.before.clock = seconds 3599) ∧
    ∃ z ∈ history[18]?, z.tid = 1 ∧
      z.act = .started (.sign (some ⟨some 7, 501⟩) [] ⟨Sample.plain.keyData, [5], 0⟩)

set_option synthInstance.maxSize 1000 in
instance (history : List (Entry runtime)) : Decidable (ExpiresInUse history) :=
  inferInstanceAs (Decidable (∃ x ∈ history[2]?, _))

theorem quietUse_reachable : ∃ P, Sample.env.Reachable P ∧ ExpiresInUse P.stage.history :=
  Pool.exists_of_plays (p := fun P => ExpiresInUse P.stage.history) Sample.reachable_start
    (show ∃ P ∈ Pool.plays Sample.env.code (.start Sample.world) quietUse,
      ExpiresInUse P.stage.history by decide +kernel)

theorem not_countsFrom_of_expiresInUse
    {used : List (Entry runtime) → Entry runtime → Bytes → Prop} (h : ExpiresInUse history)
    (hused : ∀ past y, FedForSignature history y [2] → HasReturned past y → used past y [2]) :
    ¬ CountsFrom used Sample.env history := by
  intro hcounts
  obtain ⟨x, hx, ⟨hxa, hheld, hxc⟩, w, hw, ⟨hwt, hwa⟩, y, hy, ⟨hyt, hya, hyc⟩, z, hz, hzt, hza⟩ := h
  have hfed : FedForSignature history y [2] :=
    ⟨⟨_, _, hya⟩, z, List.mem_of_getElem? hz, hzt.trans hyt.symm, _, _, _, hza⟩
  have hmem : y ∈ history.drop 3 := List.mem_of_mem_drop (List.mem_of_getElem? hy)
  have hcut : history.drop 3 = _ := (cut_of_getElem? hw).trans (by rw [cut_of_getElem? hy])
  have hreturned : HasReturned (history.drop 3) y :=
    ⟨_, w, _, _, hcut, hwt.trans hyt.symm, _, _, _, _, hwa⟩
  obtain ⟨idle, hidle, hexpired⟩ := hcounts.expired _ x _ _ (cut_of_getElem? hx) hxa hheld
  have hle := hexpired y hmem (hused _ y hfed hreturned)
  obtain rfl : seconds 3600 = idle := Option.some.inj hidle
  rw [hxc, hyc] at hle
  exact absurd hle (by decide)

theorem expires_in_use : ∃ P, Sample.env.Reachable P ∧
    ¬ CountsFromUse Sample.env P.stage.history ∧ ¬ CountsOnReturn Sample.env P.stage.history := by
  obtain ⟨P, hP, hrun⟩ := quietUse_reachable
  exact ⟨P, hP, not_countsFrom_of_expiresInUse hrun fun _ _ hfed _ => hfed,
    not_countsFrom_of_expiresInUse hrun fun _ _ hfed hreturned => ⟨hfed, hreturned⟩⟩

theorem counts_from_use_iff_quietUse :
    ∃ P, Sample.env.Reachable P ∧ ExpiresInUse P.stage.history ∧
      (CountsFromUse Sample.env P.stage.history ↔ FedWhenStamped P.stage.history) ∧
      (CountsOnReturn Sample.env P.stage.history ↔ QuietUsesStamped P.stage.history) := by
  obtain ⟨P, hP, hrun⟩ := quietUse_reachable
  exact ⟨P, hP, hrun, counts_from_use_iff hP⟩

end LastpassSshAgent
