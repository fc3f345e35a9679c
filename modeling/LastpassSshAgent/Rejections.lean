import LastpassSshAgent.VaultHistories

/-!
# What a rejection drops

A run of `lpass` reads the password, feeds it and, when told that it is wrong, drops
whatever is held by then. That is the password it fed as long as nobody has put another in
its place meanwhile; and only then is the store known to be what was wrong.
-/

namespace LastpassSshAgent

open Resumption

namespace VaultCall

variable {unlock : Unlock} {t u : ℕ} {s s' : Stage vaultCalls} {act : Act vaultCalls}
  {x y : Entry vaultCalls} {newer since older : List (Entry vaultCalls)}

/-- At `x` a run of `lpass` drops what is held, having read `password` at `y`, fed it and
been told that it is wrong. `since` is everything done between the two. -/
structure Rejection (s : Stage vaultCalls) (x y : Entry vaultCalls)
    (since : List (Entry vaultCalls)) (password : Option Bytes) : Prop where
  cut : ∃ newer older, s.history = newer ++ x :: (since ++ y :: older)
  dropped : x.act = .noted (.inl .rejected)
  read : y.tid = x.tid ∧ y.act = .noted (.inl .heldReleased) ∧
    password = y.before.held.map Held.secret
  told : ∃ args maxBytes run out,
    (since.filter (·.tid == x.tid)).map Entry.act =
      [.answered .held (), .began .held, .answered (.lpass args password maxBytes) run,
        .began (.lpass args password maxBytes)] ∧
    CmdOutput.of password.isSome maxBytes run = .ok out ∧ out.wasRejected = true

/-- Nobody has put another password in place since the one held at `y` was read, or it has
been dropped again; and nobody has had the same one from the store that was not from there. -/
def Undisturbed (y : Entry vaultCalls) (since : List (Entry vaultCalls)) : Prop :=
  ∀ later w earlier secret source, since = later ++ w :: earlier →
    w.act = .noted (.inl (.holding secret source)) → (∀ z ∈ later, ¬ Drops z) →
    ∃ fed, y.before.held = some fed ∧ fed.secret = secret ∧
      (source = .store → fed.source = .store)

/-- A rejection drops the password that was rejected, and only a password of the store's
that was rejected turns the store off. -/
structure DropsFed (s : Stage vaultCalls) : Prop where
  told : ∀ x ∈ s.history, x.act = .noted (.inl .rejected) →
    ∃ y since password, Rejection s x y since password
  removed : ∀ x y since password, Rejection s x y since password →
    ∀ current, x.before.held = some current → password = some current.secret
  disabled : ∀ x ∈ s.history, x.before.storeRejected = false → x.after.storeRejected = true →
    x.act = .noted (.inl .rejected) ∧ ∀ y since password, Rejection s x y since password →
      ∃ fed, y.before.held = some fed ∧ fed.source = .store
  spared : ∀ x y since password fed, Rejection s x y since password →
    y.before.held = some fed → fed.source = .prompt →
    x.after.storeRejected = x.before.storeRejected
  unasked : ∀ newer x older, s.history = newer ++ x :: older → x.after.storeRejected = true →
    ∀ z ∈ newer, z.act ≠ .began .masterStore

/-! ### Who rejects -/

theorem cut_of_own {own rest : List (Entry vaultCalls)} {entries : List (Entry vaultCalls)}
    (h : entries.filter (·.tid == t) = own ++ y :: rest) :
    ∃ since older, entries = since ++ y :: older ∧ since.filter (·.tid == t) = own := by
  obtain ⟨front, back, rfl, hfront, hback⟩ := List.filter_eq_append_iff.mp h
  obtain ⟨mid, older, rfl, hmid, -, -⟩ := List.filter_eq_cons_iff.mp hback
  refine ⟨front ++ mid, older, by simp, ?_⟩
  rw [List.filter_append, hfront, List.filter_eq_nil_iff.mpr (by simpa using hmid),
    List.append_nil]

theorem rejection_of_rejected (h : Lawful unlock s) (hruns : ∀ t, ¬ s.Did t (.started .rejected))
    (hx : x ∈ s.history) (hact : x.act = .noted (.inl .rejected)) :
    ∃ y since password, Rejection s x y since password := by
  obtain ⟨newer, older, hs⟩ := List.append_of_mem hx
  obtain ⟨s₀, -, hh, -, -, hr⟩ := h.noted_of_cut hs hact
  have hsuffix : s₀.history <:+ s.history := hh ▸ suffix_of_cut hs
  rcases hr.2 with hbare | ⟨-, -, -, -, granted, waited, answered, fed, read, rest, args, maxBytes,
    run, out, hown, hg, hw, ha, hf, hread, hof, hwrong⟩
  · exact absurd (hbare.mono hsuffix) (hruns x.tid)
  · have hmem : read ∈ s₀.own x.tid := by simp [hown]
    rw [Stage.own, hh] at hown
    obtain ⟨since, older', hcut, hsince⟩ :=
      cut_of_own (y := read) (show _ = [granted, waited, answered, fed] ++ _ from hown)
    refine ⟨read, since, _, ⟨newer, older', hcut ▸ hs⟩, hact,
      ⟨(Stage.mem_own.mp hmem).2, hread, rfl⟩, args, maxBytes, run, out, ?_, hof, hwrong⟩
    rw [hsince]
    simp [hg, hw, ha, hf]

/-! ### What is held by then -/

theorem heldFrom_since (h : Lawful unlock s) (hs : s.history = since ++ y :: older) :
    heldFrom s.shared = none ∨ heldFrom s.shared = heldFrom y.after ∨
      ∃ later w earlier secret source, since = later ++ w :: earlier ∧
        w.act = .noted (.inl (.holding secret source)) ∧ (∀ z ∈ later, ¬ Drops z) ∧
        heldFrom s.shared = some (secret, source) := by
  induction h generalizing since with
  | start _ => exact absurd hs (by simp)
  | @act s s' u act _ hl ih =>
    rw [hl.history] at hs
    rcases List.cons_eq_append_iff.mp hs with ⟨rfl, hcons⟩ | ⟨since', rfl, hrest⟩
    · obtain ⟨rfl, -⟩ := List.cons.inj hcons
      exact .inr (.inl rfl)
    · rcases legal_heldFrom hl with heq | ⟨secret, source, rfl, hheld, -⟩ | hnone
      · rcases ih hrest with hnone | hsame | ⟨later, w, earlier, secret, source, rfl, hw, hlater,
          hheld⟩
        · exact .inl (heq.trans hnone)
        · exact .inr (.inl (heq.trans hsame))
        · have hput := heq.trans hheld
          refine .inr (.inr ⟨⟨u, act, s.shared, s'.shared⟩ :: later, w, earlier, secret, source,
            (List.cons_append ..).symm, hw, ?_, hput⟩)
          exact List.forall_mem_cons.mpr ⟨fun hdrop => held_ne_none hput hdrop.2, hlater⟩
      · exact .inr (.inr ⟨[], _, since', secret, source, rfl, rfl, by simp, hheld⟩)
      · exact .inl (heldFrom_eq_none.mpr hnone)
  | @drift s d _ ih =>
    have hsame : heldFrom (s.drift d).shared = heldFrom s.shared := by cases d <;> rfl
    rw [hsame]
    exact ih hs

/-- What a rejection finds held, where nobody has interfered, is what was read. -/
theorem Rejection.found {password : Option Bytes} (h : Lawful unlock s)
    (hx : Rejection s x y since password) (hundisturbed : Undisturbed y since) {current : Held}
    (hcurrent : x.before.held = some current) :
    ∃ fed, y.before.held = some fed ∧ fed.secret = current.secret ∧
      (current.source = .store → fed.source = .store) := by
  obtain ⟨newer, older, hs⟩ := hx.cut
  obtain ⟨s₀, h₀, hh, hbefore, -, -⟩ := h.noted_of_cut hs hx.dropped
  have hheld : heldFrom s₀.shared = some (current.secret, current.source) := by
    rw [hbefore, heldFrom, hcurrent]
    rfl
  rcases heldFrom_since h₀ hh with hnone | heq | ⟨later, w, earlier, secret, source, hcut, hw,
    hlater, hput⟩
  · rw [hheld] at hnone
    cases hnone
  · have hcut : s.history = (newer ++ x :: since) ++ y :: older := by simp [hs]
    obtain ⟨-, -, -, -, hafter, -⟩ := h.noted_of_cut hcut hx.read.2.1
    have hread : heldFrom y.before = some (current.secret, current.source) := by
      rw [← hheld, heq, hafter]
      rfl
    obtain ⟨fed, hfed, hpair⟩ := Option.map_eq_some_iff.mp hread
    obtain ⟨hsecret, hsource⟩ := Prod.mk.inj hpair
    exact ⟨fed, hfed, hsecret, fun hstore => hsource.trans hstore⟩
  · obtain ⟨hsecret, hsource⟩ := Prod.mk.inj (Option.some.inj (hheld.symm.trans hput))
    rw [hsecret, hsource]
    exact hundisturbed later w earlier secret source hcut hw hlater

/-! ### What turns the store off -/

/-- Only a rejection of a password of the store's turns the store off. -/
theorem legal_storeRejected (h : (rules unlock).Legal s t act s') :
    s'.shared.storeRejected = s.shared.storeRejected ∨
      act = .noted (.inl .rejected) ∧ ∃ current, s.shared.held = some current ∧
        s'.shared.held = none ∧
        s'.shared.storeRejected = (s.shared.storeRejected || current.source == .store) := by
  cases h with
  | started _ hx => exact .inl (by rw [Stage.push_shared, ← Option.some.inj hx])
  | began _ _ => exact .inl rfl
  | answered _ hx =>
    left
    rw [Stage.push_shared, World.effect_eq hx]
  | @noted e _ _ =>
    cases e with
    | inr supplied => exact .inl rfl
    | inl e =>
      cases e with
      | rejected =>
        cases hheld : s.shared.held with
        | none =>
          left
          show (World.reject s.shared).storeRejected = _
          rw [World.reject, hheld]
        | some current =>
          refine .inr ⟨rfl, current, rfl, World.reject_held _, ?_⟩
          show (World.reject s.shared).storeRejected = _
          rw [World.reject, hheld]
      | _ => exact .inl rfl
  | ended _ _ => exact .inl rfl

theorem storeRejected_mono (h : (rules unlock).Leads s s') (hs : s.shared.storeRejected = true) :
    s'.shared.storeRejected = true := by
  induction h with
  | refl => exact hs
  | act _ hl ih =>
    rcases legal_storeRejected hl with heq | ⟨-, current, -, -, heq⟩
    · exact heq.trans ih
    · rw [heq, ih]
      rfl
  | drift d _ ih => cases d <;> exact ih

theorem rejected_storeRejected (h : Lawful unlock s) (hs : s.history = newer ++ x :: older)
    (hact : x.act = .noted (.inl .rejected)) :
    x.after.storeRejected = (x.before.storeRejected ||
      (x.before.held.map Held.source).any (· == .store)) := by
  obtain ⟨-, -, -, -, hafter, -⟩ := h.noted_of_cut hs hact
  rw [hafter]
  show (World.reject x.before).storeRejected = _
  cases hheld : x.before.held with
  | none => simp [World.reject, hheld]
  | some current => simp [World.reject, hheld]

/-- The store is asked only while none of its passwords has been rejected. -/
theorem unrejected_of_last (h : Lawful unlock s)
    (hlast : s.last t = some (.began .masterStore) ∨
      ∃ answer, s.last t = some (.answered .masterStore answer)) :
    s.shared.storeRejected = false := by
  induction h with
  | start hx => exact hx.storeRejected
  | @act s s' u act hs hl ih =>
    by_cases hut : u = t
    · subst hut
      rw [hl.last_self] at hlast
      rcases hlast with hact | ⟨answer, hact⟩
      · obtain rfl := Option.some.inj hact
        cases hl with
        | began _ hr => exact Unlock.unrejected_of_consults hr.2.2
      · obtain rfl := Option.some.inj hact
        cases hl with
        | @answered _ _ x hbegan hx =>
          have hlock := (standing hs hbegan).1 trivial
          have hstill : Still u s.shared x :=
            Still.answer (u := u) (q := .masterStore) (a := answer) hx nofun
          exact (hstill.rejected hlock).trans (ih (.inl hbegan))
    · rw [hl.last_of_ne hut] at hlast
      have hlock : s.shared.heldLock = some t := by
        rcases hlast with hact | ⟨answer, hact⟩
        · exact (standing hs hact).1 trivial
        · exact (standing hs hact).1 trivial
      exact ((legal_still hl hut).rejected hlock).trans (ih hlast)
  | drift d _ ih => cases d <;> exact ih hlast

theorem storeRejected_kept {mid : List (Entry vaultCalls)} {held : Bytes × Source}
    (h : Lawful unlock s) (hs : s.history = mid ++ y :: older) (hy : heldFrom y.after = some held)
    (hmid : ∀ z ∈ mid, ¬ Drops z) : s.shared.storeRejected = y.after.storeRejected := by
  induction h generalizing mid with
  | start _ => exact absurd hs (by simp)
  | @act s s' u act _ hl ih =>
    rw [hl.history] at hs
    rcases List.cons_eq_append_iff.mp hs with ⟨rfl, hcons⟩ | ⟨mid', rfl, hrest⟩
    · obtain ⟨rfl, -⟩ := List.cons.inj hcons
      rfl
    · have hkept := ih hrest fun z hz => hmid z (List.mem_cons_of_mem _ hz)
      rcases legal_storeRejected hl with heq | ⟨-, current, hheld, hnone, -⟩
      · exact heq.trans hkept
      · refine absurd ⟨?_, hnone⟩ (hmid _ List.mem_cons_self)
        exact fun hempty => nomatch hheld.symm.trans hempty
  | drift d _ ih => cases d <;> exact ih hs hmid

theorem unasked_of_rejected (h : Lawful unlock s) (hs : s.history = newer ++ x :: older)
    (hx : x.after.storeRejected = true) {z : Entry vaultCalls} (hz : z ∈ newer) :
    z.act ≠ .began .masterStore := by
  intro hact
  obtain ⟨front, back, rfl⟩ := List.append_of_mem hz
  have hcut : s.history = front ++ z :: (back ++ x :: older) := by simp [hs]
  obtain ⟨s₀, h₀, hh, hbefore, -, hr⟩ := h.began_of_cut hcut hact
  obtain ⟨-, -, -, -, -, hlead⟩ := h₀.cut hh
  have hrejected := storeRejected_mono hlead hx
  exact nomatch hrejected.symm.trans (Unlock.unrejected_of_consults hr.2.2)

/-! ### The password that was fed -/

/-- Another password put in place, and still held, is what a rejection finds. -/
theorem Rejection.finds {password : Option Bytes} (h : Lawful unlock s)
    (hx : Rejection s x y since password) {later earlier : List (Entry vaultCalls)}
    {w : Entry vaultCalls} {secret : Bytes} {source : Source} (hcut : since = later ++ w :: earlier)
    (hw : w.act = .noted (.inl (.holding secret source))) (hlater : ∀ z ∈ later, ¬ Drops z) :
    heldFrom x.before = some (secret, source) ∧
      (source = .store → x.before.storeRejected = false) := by
  obtain ⟨newer, older, hs⟩ := hx.cut
  subst hcut
  obtain ⟨s₀, h₀, hh, hbefore, -, -⟩ := h.noted_of_cut hs hx.dropped
  have hcut : s₀.history = later ++ w :: (earlier ++ y :: older) := by simp [hh]
  obtain ⟨s₁, h₁, -, hbefore₁, hafter₁, hr⟩ := h₀.noted_of_cut hcut hw
  have hput : heldFrom w.after = some (secret, source) := hafter₁ ▸ rfl
  refine ⟨hbefore ▸ heldFrom_kept h₀ hcut hput hlater, ?_⟩
  rintro rfl
  obtain ⟨answer, hlast, -⟩ := hr.2
  rw [← hbefore, storeRejected_kept h₀ hcut hput hlater, hafter₁, ← hbefore₁]
  exact unrejected_of_last h₁ (.inr ⟨answer, hlast⟩)

theorem undisturbed_of_dropsFed {password : Option Bytes} (h : Lawful unlock s)
    (hdrops : DropsFed s) (hx : Rejection s x y since password) : Undisturbed y since := by
  intro later w earlier secret source hcut hw hlater
  obtain ⟨hheld, hunrejected⟩ := hx.finds h hcut hw hlater
  obtain ⟨current, hcurrent, hpair⟩ := Option.map_eq_some_iff.mp hheld
  obtain ⟨rfl, rfl⟩ := Prod.mk.inj hpair
  have hpassword := hdrops.removed x y since password hx current hcurrent
  rw [hx.read.2.2] at hpassword
  obtain ⟨fed, hfed, hsecret⟩ := Option.map_eq_some_iff.mp hpassword
  refine ⟨fed, hfed, hsecret, fun hstore => ?_⟩
  obtain ⟨newer, older, hs⟩ := hx.cut
  have hafter : x.after.storeRejected = true := by
    rw [rejected_storeRejected h hs hx.dropped, hcurrent]
    simp [hstore]
  have hmem : x ∈ s.history := by simp [hs]
  obtain ⟨fed', hfed', hsource⟩ :=
    (hdrops.disabled x hmem (hunrejected hstore) hafter).2 y since password hx
  obtain rfl := Option.some.inj (hfed.symm.trans hfed')
  exact hsource

theorem rejections_drop_fed_iff {P : Pool vaultCalls} (h : Reachable unlock P)
    (hruns : ∀ t, ¬ P.stage.Did t (.started .rejected)) :
    DropsFed P.stage ↔
      ∀ x y since password, Rejection P.stage x y since password → Undisturbed y since := by
  have hlawful : Lawful unlock P.stage := ((upheld unlock).orderly h).lawful
  constructor
  · exact fun hdrops x y since password hx => undisturbed_of_dropsFed hlawful hdrops hx
  · intro hundisturbed
    constructor
    case told => exact fun x hx hact => rejection_of_rejected hlawful hruns hx hact
    case removed =>
      intro x y since password hx current hcurrent
      obtain ⟨fed, hfed, hsecret, -⟩ :=
        hx.found hlawful (hundisturbed x y since password hx) hcurrent
      rw [hx.read.2.2, hfed, ← hsecret]
      rfl
    case disabled =>
      intro x hx hbefore hafter
      obtain ⟨s₀, s₁, -, hb, ha, -, hl, -⟩ := hlawful.entry hx
      rcases legal_storeRejected hl with heq | ⟨hact, current, hcurrent, -, heq⟩
      · rw [hb, ha, hbefore, hafter] at heq
        cases heq
      · refine ⟨hact, fun y since password hx => ?_⟩
        have hstore : current.source = .store := by simpa [hb, ha, hbefore, hafter] using heq
        obtain ⟨fed, hfed, -, hsource⟩ :=
          hx.found hlawful (hundisturbed x y since password hx) (hb ▸ hcurrent)
        exact ⟨fed, hfed, hsource hstore⟩
    case spared =>
      intro x y since password fed hx hfed hsource
      obtain ⟨newer, older, hs⟩ := hx.cut
      rw [rejected_storeRejected hlawful hs hx.dropped]
      cases hcurrent : x.before.held with
      | none => simp
      | some current =>
        obtain ⟨fed', hfed', -, hstore⟩ :=
          hx.found hlawful (hundisturbed x y since password hx) hcurrent
        obtain rfl := Option.some.inj (hfed.symm.trans hfed')
        have hne : current.source ≠ .store := fun hs => nomatch hsource.symm.trans (hstore hs)
        simp [hne]
    case unasked => exact fun newer x older hs hx z hz => unasked_of_rejected hlawful hs hx hz

/-! ### A password that was never fed -/

/-- No call of the pool is a bare `rejected`. -/
def RunsOnly (P : Pool vaultCalls) : Prop :=
  ∀ x ∈ P.stage.history, x.act ≠ .started .rejected

instance (P : Pool vaultCalls) : Decidable (RunsOnly P) :=
  inferInstanceAs (Decidable (∀ x ∈ P.stage.history, ¬ x.act = .started .rejected))

theorem RunsOnly.runs {P : Pool vaultCalls} (h : RunsOnly P) (t : ℕ) :
    ¬ P.stage.Did t (.started .rejected) := by
  rintro ⟨x, hx, -, hact⟩
  exact h x hx hact

def rejectedRun : LpassRun := .exited (some 1) [] (utf8 CmdOutput.rejectedText)

def wrong (t : ℕ) : Move vaultCalls := .reply t (Sample.answer rejectedRun [2])

def stored (t : ℕ) : Move vaultCalls :=
  .reply t fun
    | .masterStore => (.ok (some [3]) : Except String (Option Bytes))
    | q => Sample.answer .timeout [2] q

/-- The store's password is fed, and rejected. -/
def rejecting : List (Move vaultCalls) :=
  [.spawn 0 (.password true), go 0, stored 0, .spawn 1 (.run .heldOnly ["ls"] MAX_LISTING_BYTES),
    go 1, wrong 1, go 1]

/-- What was held is gone, and the store with it. -/
def TurnedOff (P : Pool vaultCalls) : Prop :=
  RunsOnly P ∧ P.stage.shared.held = none ∧ P.stage.shared.storeRejected = true

instance (P : Pool vaultCalls) : Decidable (TurnedOff P) :=
  inferInstanceAs (Decidable (_ ∧ _ ∧ _))

theorem rejections_drop_fed_iff_stored : ∃ P, Reachable touchId P ∧ TurnedOff P ∧
    (DropsFed P.stage ↔
      ∀ x y since password, Rejection P.stage x y since password → Undisturbed y since) := by
  obtain ⟨P, hP, htest⟩ := Pool.exists_of_plays (p := TurnedOff) (reachable_world touchId)
    (show ∃ P ∈ Pool.plays (code touchId) (.start Sample.world) rejecting, TurnedOff P by
      decide +kernel)
  exact ⟨P, hP, htest, rejections_drop_fed_iff hP htest.1.runs⟩

/-- What was typed is fed while the screen locks and the store supplies another password. -/
def replacing : List (Move vaultCalls) :=
  [.spawn 0 (.password true), go 0, go 0, go 0, .spawn 1 (.run .heldOnly ["ls"] MAX_LISTING_BYTES),
    go 1, .spawn 2 .forget, go 2, .spawn 3 (.password true), go 3, stored 3, wrong 1, go 1]

/-- Whatever is fed is what was typed. -/
def feedsTyped (x : Entry vaultCalls) : Bool :=
  match x.act with
  | .began (.lpass _ fed _) => fed == some [2]
  | _ => true

/-- What is dropped at the last rejection is what the store supplied, and was never fed. -/
def DropsUnfed (P : Pool vaultCalls) : Prop :=
  RunsOnly P ∧ (∀ x ∈ P.stage.history, feedsTyped x = true) ∧
    ∃ x ∈ P.stage.history[2]?, x.act = .noted (.inl .rejected) ∧
      x.before.held.map Held.secret = some [3]

instance (P : Pool vaultCalls) : Decidable (DropsUnfed P) :=
  inferInstanceAs (Decidable (_ ∧ _ ∧ ∃ x ∈ P.stage.history[2]?, _))

theorem unfed_password_dropped : ∃ P, Reachable touchId P ∧
    (∀ t, ¬ P.stage.Did t (.started .rejected)) ∧ ¬ DropsFed P.stage := by
  obtain ⟨P, hP, hruns, hfed, x, hx, hact, hheld⟩ := Pool.exists_of_plays (p := DropsUnfed)
    (reachable_world touchId)
    (show ∃ P ∈ Pool.plays (code touchId) (.start Sample.world) replacing, DropsUnfed P by
      decide +kernel)
  refine ⟨P, hP, hruns.runs, fun hdrops => ?_⟩
  have hmem : x ∈ P.stage.history := List.mem_of_getElem? hx
  obtain ⟨current, hcurrent, hsecret⟩ := Option.map_eq_some_iff.mp hheld
  obtain ⟨y, since, password, hrejection⟩ := hdrops.told x hmem hact
  have hpassword := hdrops.removed x y since password hrejection current hcurrent
  obtain ⟨args, maxBytes, run, out, hacts, -, -⟩ := hrejection.told
  have hbegan : Act.began (I := vaultCalls) (.lpass args password maxBytes) ∈
      (since.filter (·.tid == x.tid)).map Entry.act := by simp [hacts]
  obtain ⟨z, hz, hzact⟩ := List.mem_map.mp hbegan
  obtain ⟨newer, older, hs⟩ := hrejection.cut
  have hzfed := hfed z (by simp [hs, (List.mem_filter.mp hz).1])
  rw [feedsTyped, hzact, hpassword, hsecret] at hzfed
  have habsurd : (some [3] == some [2]) = true := hzfed
  exact absurd habsurd (by decide)

end VaultCall

end LastpassSshAgent
