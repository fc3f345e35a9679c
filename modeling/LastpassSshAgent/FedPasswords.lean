import LastpassSshAgent.Completeness
import LastpassSshAgent.OneAsk
import LastpassSshAgent.Rejections
import LastpassSshAgent.Resumption.Further

/-!
# Where the passwords that `lpass` is fed are from

A run of `lpass` that is fed what the agent holds is fed what it has just read. That was
put in place by an ask, and has been held ever since; so what was dropped before a run read
is not fed to it.
-/

namespace LastpassSshAgent

open Resumption

namespace VaultCall

variable {unlock : Unlock} {t : ℕ} {s s' : Stage vaultCalls} {source : MasterPasswordSource}
  {args : List String} {maxBytes : ℕ} {password : Option Bytes}

/-! ### Feeding -/

def MayFeed (s : Stage vaultCalls) (t : ℕ) (password : Option Bytes) :
    MasterPasswordSource → Prop
  | .none => password = none
  | .fixed secret => password = some secret
  | .unlock => Fed s t password
  | .heldOnly => Fed s t password

def Feeding (s : Stage vaultCalls) (t : ℕ) : Act vaultCalls → Prop
  | .began (.lpass _ password _) => ∀ source args maxBytes,
      s.Did t (.started (.run source args maxBytes)) → MayFeed s t password source
  | _ => True

def feeding (unlock : Unlock) : Rules vaultCalls := (rules unlock).also Feeding

def Unfed : Act vaultCalls → Prop
  | .began (.lpass _ _ _) => False
  | _ => True

theorem feeding_of_unfed {act : Act vaultCalls} (h : Unfed act) : Feeding s t act := by
  cases act with
  | began q =>
    cases q with
    | lpass args password maxBytes => exact h.elim
    | _ => trivial
  | _ => trivial

theorem wp_unfed {α : Type} {p : Program vaultCalls α} {Q : α → Stage vaultCalls → Prop}
    (hp : p.Emits Unfed) (h : (rules unlock).wp t p Q s) : (feeding unlock).wp t p Q s :=
  Rules.wp_also hp (fun _ _ => feeding_of_unfed) h

def NoRun : Act runtime → Prop
  | .began (.lpass _ _ _) => False
  | _ => True

theorem unfed_of_noRun {α : Type} {p : Async α} (h : p.Emits NoRun) :
    (p.within VaultCall Supplied).Emits Unfed := by
  refine Program.Emits.within h (fun e he => trivial) (fun q hq => ?_) fun q a ha => trivial
  cases q with
  | lpass args password maxBytes => exact hq
  | _ => trivial

theorem noRun_of_calls {α : Type} {p : Async α} (h : ∀ args, p.Emits (CallsWith args)) :
    p.Emits NoRun := by
  refine ((h []).and (h [""])).mono fun act hact => ?_
  cases act with
  | began q =>
    cases q with
    | lpass args password maxBytes => exact absurd (hact.1.symm.trans hact.2) (by simp)
    | _ => trivial
  | _ => trivial

theorem password_noRun (ask : Bool) : (unlock.password ask).Emits NoRun :=
  noRun_of_calls fun args => password_calls args unlock ask

theorem change_noRun (e : Event) :
    (do let _ ← await .held; note e; note .heldReleased : Async Unit).Emits NoRun :=
  ⟨trivial, fun _ => ⟨trivial, trivial, trivial, trivial⟩⟩

theorem expireIfIdle_noRun : unlock.expireIfIdle.Emits NoRun := by
  unfold Unlock.expireIfIdle
  split
  · trivial
  · refine ⟨trivial, fun _ => ⟨trivial, Program.Emits.bind (p := world) (fun _ => trivial) ?_⟩⟩
    intro w
    split_ifs
    · exact ⟨trivial, trivial, trivial⟩
    · exact ⟨trivial, trivial⟩

/-! ### The calls, under the further rules -/

theorem held_feeding (h : Running s t source args maxBytes) :
    (feeding unlock).wp t ((LpassCli.held ⟨source, unlock⟩).within VaultCall Supplied)
      (fun password s' => Running s' t source args maxBytes ∧ MayFeed s' t password source) s := by
  have hnoRun : (LpassCli.held ⟨source, unlock⟩).Emits NoRun := by
    unfold LpassCli.held
    split
    · trivial
    · trivial
    · exact (password_noRun false).bind fun _ => trivial
    · exact (password_noRun false).bind fun _ => trivial
  have hheld : (feeding unlock).wp t ((LpassCli.held ⟨source, unlock⟩).within VaultCall Supplied)
      (fun password s' => Running s' t source args maxBytes ∧ (Feeds source → Fed s' t password))
      s := wp_unfed (unfed_of_noRun hnoRun) (held_spec h)
  cases source with
  | none => exact ⟨h, rfl⟩
  | fixed secret => exact ⟨h, rfl⟩
  | unlock => exact Rules.wp_mono hheld fun _ _ hs => ⟨hs.1, hs.2 (.inl rfl)⟩
  | heldOnly => exact Rules.wp_mono hheld fun _ _ hs => ⟨hs.1, hs.2 (.inr rfl)⟩

theorem exec_feeding (h : Running s t source args maxBytes) (hfeed : MayFeed s t password source) :
    (feeding unlock).wp t ((LpassCli.exec args password maxBytes).within VaultCall Supplied)
      (fun r s' => Running s' t source args maxBytes ∧
        ∀ out, r = .ok out → Feeds source → Heard s' t out) s := by
  have hfed : Feeds source → Fed s t password := by
    rintro (rfl | rfl)
    · exact hfeed
    · exact hfeed
  have hexec : (rules unlock).wp t ((LpassCli.exec args password maxBytes).within VaultCall
      Supplied) _ s := exec_spec h hfed
  refine ⟨⟨hexec.1, fun source' args' maxBytes' hdid => ?_⟩, fun s₁ h₁ => ?_⟩
  · obtain ⟨rfl, -, -⟩ := VaultCall.run.inj ((h.doing _).mp hdid)
    exact hfeed
  · refine ⟨trivial, fun a x hx => ?_⟩
    exact (hexec.2 s₁ h₁.of_also).2 a x hx

theorem retry_feeding {out : CmdOutput} (h : Running s t source args maxBytes)
    (hheard : Feeds source → Heard s t out) :
    (feeding unlock).wp t ((LpassCli.retry ⟨source, unlock⟩ args maxBytes out).within
      VaultCall Supplied) (fun r s' => Running s' t source args maxBytes ∧
        ∀ out, r = .ok out → Feeds source → Heard s' t out) s := by
  unfold LpassCli.retry
  split_ifs
  · rw [Program.bind_def, Program.within_bind]
    cases source with
    | unlock =>
      refine Rules.wp_seq (P := fun r s' => ∃ result, r = result.mapError .noMasterPassword ∧
        Returns s' t (.run .unlock args maxBytes) true result) (wp_unfed ?_ ?_) ?_
      · exact unfed_of_noRun ((password_noRun true).bind fun _ => trivial)
      · show (rules unlock).wp t (Program.within _ _ (Program.bind _ _)) _ _
        rw [Program.within_bind]
        refine Rules.wp_seq (password_spec h.free h.doing (h.doing.only _) ?_ nofun) ?_
        · exact fun _ => .inr ⟨args, maxBytes, (h.doing _).mpr rfl⟩
        · exact fun result s₁ h₁ => ⟨result, rfl, h₁⟩
      · rintro _ s₁ ⟨result, rfl, h₁⟩
        rcases result with e | password
        · exact ⟨h₁.toFree, nofun⟩
        · obtain ⟨released, rest, -, -, hcomes⟩ := h₁.released
          obtain ⟨secret, rfl⟩ := Option.isSome_iff_exists.mp (some_of_comes hcomes).2
          exact exec_feeding h₁.toFree (h₁.fed fun _ hc => (some_of_comes hc).1)
    | none => exact ⟨h, fun out' ho hf => Except.ok.inj ho ▸ hheard hf⟩
    | fixed secret => exact ⟨h, fun out' ho hf => Except.ok.inj ho ▸ hheard hf⟩
    | heldOnly => exact ⟨h, fun out' ho hf => Except.ok.inj ho ▸ hheard hf⟩
  · exact ⟨h, fun out' ho hf => Except.ok.inj ho ▸ hheard hf⟩

theorem rejectIfWrong_noRun (out : CmdOutput) :
    (LpassCli.rejectIfWrong ⟨source, unlock⟩ out).Emits NoRun := by
  unfold LpassCli.rejectIfWrong LpassCli.rejected
  split_ifs
  · split
    · exact change_noRun .rejected
    · exact change_noRun .rejected
    · trivial
  · trivial

theorem used_noRun : (LpassCli.used ⟨source, unlock⟩).Emits NoRun := by
  unfold LpassCli.used
  split
  · exact change_noRun .touched
  · trivial

theorem run_feeding (h : Running s t source args maxBytes) :
    (feeding unlock).wp t ((LpassCli.run ⟨source, unlock⟩ args maxBytes).within VaultCall Supplied)
      (fun _ s' => Running s' t source args maxBytes) s := by
  unfold LpassCli.run
  simp only [Program.bind_def, Program.within_bind]
  refine Rules.wp_seq (held_feeding h) ?_
  rintro password s₁ ⟨h₁, hfeed⟩
  refine Rules.wp_seq (exec_feeding h₁ hfeed) ?_
  rintro (e | out) s₂ ⟨h₂, hheard⟩
  · exact h₂
  · simp only [Program.within_bind]
    refine Rules.wp_seq (retry_feeding h₂ (hheard out rfl)) ?_
    rintro (e | out') s₃ ⟨h₃, hheard₃⟩
    · exact h₃
    · simp only [Program.within_bind]
      have hreject : (feeding unlock).wp t ((LpassCli.rejectIfWrong ⟨source, unlock⟩ out').within
          VaultCall Supplied) _ s₃ :=
        wp_unfed (unfed_of_noRun (rejectIfWrong_noRun out'))
          (rejectIfWrong_spec h₃ (hheard₃ out' rfl))
      refine Rules.wp_seq hreject fun _ s₄ h₄ => ?_
      exact Rules.wp_seq (wp_unfed (unfed_of_noRun used_noRun) (used_spec h₄)) fun _ s₅ h₅ => h₅

theorem upheld_feeding (unlock : Unlock) : (feeding unlock).Upheld Fresh (code unlock) := by
  intro call t s x hs hlast hx
  have hother : (code unlock call).Emits Unfed → (feeding unlock).wp t (code unlock call)
      (fun _ s' => (feeding unlock).allowed s' t .ended) (s.push t (.started call) x) := by
    intro hemits
    exact Rules.wp_mono (wp_unfed hemits (upheld unlock call t s x hs.of_also hlast hx))
      fun _ _ h => ⟨h, trivial⟩
  cases call with
  | password ask =>
    refine hother (Program.Emits.bind (unfed_of_noRun (password_noRun ask)) fun _ => ?_)
    exact ⟨trivial, trivial⟩
  | touch => exact hother (unfed_of_noRun (change_noRun .touched))
  | rejected => exact hother (unfed_of_noRun (change_noRun .rejected))
  | forget => exact hother (unfed_of_noRun (change_noRun .forgotten))
  | expire => exact hother (unfed_of_noRun expireIfIdle_noRun)
  | run source args maxBytes =>
    obtain rfl := Option.some.inj hx
    obtain ⟨hfree, -⟩ := begun hs.of_also hlast (.run source args maxBytes)
    exact Rules.wp_seq (run_feeding hfree) fun _ _ h => ⟨h.ended nofun, trivial⟩

/-! ### From the ask to the feeding -/

def Answers (act : Act vaultCalls) (secret : Bytes) : Source → Prop
  | .store => ∃ answer, act = .answered .masterStore answer ∧ usable answer = some secret
  | .prompt => ∃ answer, act = .answered (.prompt .master) answer ∧ typed answer = some secret

/-- At `put` a password is put in place that was just had from the store or the user, and it
has been held since: nothing in `mid` drops it. -/
structure Put (s : Stage vaultCalls) (mid : List (Entry vaultCalls)) (put : Entry vaultCalls)
    (secret : Bytes) (source : Source) : Prop where
  act : put.act = .noted (.inl (.holding secret source))
  kept : ∀ z ∈ mid, ¬ Drops z
  had : ∃ answered, Follows s.history answered put ∧ Answers answered.act secret source

theorem request_of_prompted (h : Lawful unlock s) {request : PassphraseRequest}
    (hlast : s.last t = some (.began (.prompt request))) : request = .master := by
  obtain ⟨newer, x, older, hs, -, hact, -⟩ := Stage.cut_of_last hlast
  obtain ⟨s₀, -, -, -, -, hr⟩ := h.began_of_cut hs hact
  exact hr.2.1

theorem had_of_holding {newer older : List (Entry vaultCalls)} {x : Entry vaultCalls}
    {secret : Bytes} {source : Source} (h : Lawful unlock s) (hs : s.history = newer ++ x :: older)
    (hact : x.act = .noted (.inl (.holding secret source))) :
    ∃ answered, Follows s.history answered x ∧ Answers answered.act secret source := by
  obtain ⟨s₀, h₀, hh, -, -, -, hsourced⟩ := h.noted_of_cut hs hact
  have hfollows : ∀ act, s₀.last x.tid = some act →
      ∃ answered, Follows s.history answered x ∧ answered.act = act := by
    intro act hlast
    rw [Stage.last_eq_own] at hlast
    obtain ⟨answered, hhead, rfl⟩ := Option.map_eq_some_iff.mp hlast
    obtain ⟨rest, hown⟩ := List.head?_eq_some_iff.mp hhead
    exact ⟨answered, hs ▸ .of_own hh hown, rfl⟩
  cases source with
  | store =>
    obtain ⟨answer, hlast, husable⟩ := hsourced
    obtain ⟨answered, hfollows, hanswered⟩ := hfollows _ hlast
    exact ⟨answered, hfollows, answer, hanswered, husable⟩
  | prompt =>
    obtain ⟨request, answer, hlast, htyped⟩ := hsourced
    obtain ⟨answered, hfollows, hanswered⟩ := hfollows _ hlast
    obtain ⟨newer', y, older', hs₀, -, hy, -⟩ := Stage.cut_of_last hlast
    obtain ⟨s₁, h₁, -, -, -, hbegan⟩ := h₀.answered_of_cut hs₀ hy
    obtain rfl := request_of_prompted h₁ hbegan
    exact ⟨answered, hfollows, answer, hanswered, htyped⟩

/-- What is held was put in place, and nothing has dropped it since. -/
theorem put_of_held {secret : Bytes} {source : Source} (h : Lawful unlock s)
    (hheld : heldFrom s.shared = some (secret, source)) : ∃ mid put rest,
      s.history = mid ++ put :: rest ∧ put.act = .noted (.inl (.holding secret source)) ∧
      ∀ z ∈ mid, ¬ Drops z := by
  induction h with
  | start hx =>
    have hnone := heldFrom_eq_none.mpr hx.held
    exact absurd (hnone.symm.trans hheld) nofun
  | @act s s' u act _ hl ih =>
    rw [hl.history]
    rcases legal_heldFrom hl with heq | ⟨secret', source', rfl, hheld', -⟩ | hnone
    · obtain ⟨mid, put, rest, hs, hput, hmid⟩ := ih (heq ▸ hheld)
      refine ⟨⟨u, act, s.shared, s'.shared⟩ :: mid, put, rest, ?_, hput, ?_⟩
      · rw [hs, List.cons_append]
      · exact List.forall_mem_cons.mpr ⟨fun hdrop => held_ne_none hheld hdrop.2, hmid⟩
    · obtain ⟨rfl, rfl⟩ := Prod.mk.inj (Option.some.inj (hheld'.symm.trans hheld))
      exact ⟨[], _, s.history, rfl, rfl, by simp⟩
    · exact absurd hnone (held_ne_none hheld)
  | @drift s d _ ih =>
    have hsame : heldFrom (s.drift d).shared = heldFrom s.shared := by cases d <;> rfl
    exact ih (hsame ▸ hheld)

/-- At `x` a run of `lpass` is fed `password`. -/
def Feeds.At (s : Stage vaultCalls) (x : Entry vaultCalls) (older : List (Entry vaultCalls))
    (source : MasterPasswordSource) (password : Option Bytes) : Prop :=
  (∃ newer, s.history = newer ++ x :: older) ∧
  (∃ args maxBytes, x.act = .began (.lpass args password maxBytes)) ∧
  ∃ args maxBytes, s.Did x.tid (.started (.run source args maxBytes))

/-- What the runs of `lpass` are fed, and where it is from. -/
structure FedAsHeld (s : Stage vaultCalls) : Prop where
  given : ∀ x older password, Feeds.At s x older .none password → password = none
  fixed : ∀ x older secret password, Feeds.At s x older (.fixed secret) password →
    password = some secret
  read : ∀ x older source password, Feeds.At s x older source password → Feeds source →
    ∃ since read rest, older = since ++ read :: rest ∧ read.tid = x.tid ∧
      read.act = .noted (.inl .heldReleased) ∧ (∀ z ∈ since, z.tid ≠ x.tid) ∧
      password = read.before.held.map Held.secret ∧
      ∀ secret, password = some secret → ∃ mid put rest' source,
        rest = mid ++ put :: rest' ∧ Put s mid put secret source

variable {P : Pool vaultCalls} {x : Entry vaultCalls} {older : List (Entry vaultCalls)}

theorem mayFeed_of_fed (h : (feeding unlock).Lawful Fresh s)
    (hx : Feeds.At s x older source password) :
    ∃ s₀, Lawful unlock s₀ ∧ s₀.history = older ∧ MayFeed s₀ x.tid password source := by
  obtain ⟨⟨newer, hs⟩, ⟨args, maxBytes, hact⟩, args', maxBytes', hdid⟩ := hx
  obtain ⟨s₀, h₀, hh, -, -, ⟨-, source', args'', maxBytes'', hdid₀⟩, hfeeding⟩ :=
    h.began_of_cut hs hact
  have hsame := h.of_also.started_once (hdid₀.mono (hh ▸ suffix_of_cut hs)) hdid
  obtain ⟨rfl, rfl, rfl⟩ := VaultCall.run.inj hsame
  exact ⟨s₀, h₀.of_also, hh, hfeeding _ _ _ hdid₀⟩

/-- However asks, uses, rejections, screen locks, expiries and runs of `lpass` interleave, a
run is fed what its source is, or what it has just read; and that was asked for, and has not
been dropped between the ask and the reading. -/
theorem fed_as_held (h : Reachable unlock P) : FedAsHeld P.stage := by
  have hP : (feeding unlock).Lawful Fresh P.stage := ((upheld_feeding unlock).orderly h).lawful
  refine ⟨fun x older password hx => ?_, fun x older secret password hx => ?_,
    fun x older source password hx hfeeds => ?_⟩
  · obtain ⟨s₀, -, -, hmay⟩ := mayFeed_of_fed hP hx
    exact hmay
  · obtain ⟨s₀, -, -, hmay⟩ := mayFeed_of_fed hP hx
    exact hmay
  · obtain ⟨s₀, h₀, hh, hmay⟩ := mayFeed_of_fed hP hx
    obtain ⟨read, own, hown, hread, rfl⟩ : Fed s₀ x.tid password := by
      rcases hfeeds with rfl | rfl
      · exact hmay
      · exact hmay
    have htid : read.tid = x.tid := (Stage.mem_own.mp (hown ▸ List.mem_cons_self)).2
    rw [Stage.own, hh] at hown
    obtain ⟨since, rest, rfl, hsince⟩ := cut_of_own (show _ = [] ++ read :: own from hown)
    have hothers : ∀ z ∈ since, z.tid ≠ x.tid := by simpa using hsince
    refine ⟨since, read, rest, rfl, htid, hread, hothers, rfl, fun secret hsecret => ?_⟩
    obtain ⟨held, hheld, rfl⟩ := Option.map_eq_some_iff.mp hsecret
    obtain ⟨s₁, h₁, hh₁, hbefore, -, -⟩ := h₀.noted_of_cut hh hread
    have hfrom : heldFrom s₁.shared = some (held.secret, held.source) := by
      rw [hbefore, heldFrom, hheld]
      rfl
    obtain ⟨mid, put, rest', hs₁, hput, hmid⟩ := put_of_held h₁ hfrom
    obtain ⟨newer, hs⟩ := hx.1
    have hcut : P.stage.history = (newer ++ x :: (since ++ read :: mid)) ++ put :: rest' := by
      rw [hs, ← hh₁, hs₁]
      simp
    have hhad := had_of_holding hP.of_also hcut hput
    exact ⟨mid, put, rest', held.source, hh₁ ▸ hs₁, hput, hmid, hhad⟩

/-! ### A run fed while the screen locks -/

/-- A run reads what was typed, and is fed it while the screen lock drops it. -/
def locking : List (Move vaultCalls) :=
  [.spawn 0 (.password true), go 0, go 0, go 0, .spawn 1 (.run .heldOnly ["ls"] MAX_LISTING_BYTES),
    .spawn 2 .forget, go 1, go 2]

def fedOnce (secret : Bytes) (x : Entry vaultCalls) : Bool :=
  match x.act with
  | .began (.lpass _ password _) => password == some secret
  | _ => false

/-- What was typed was fed, and is no longer held. -/
def FedThenDropped (P : Pool vaultCalls) : Prop :=
  P.stage.history.any (fedOnce [2]) = true ∧ P.stage.shared.held = none

instance (P : Pool vaultCalls) : Decidable (FedThenDropped P) :=
  inferInstanceAs (Decidable (_ ∧ _))

theorem fed_as_held_locking : ∃ P, Reachable touchId P ∧ FedAsHeld P.stage ∧ FedThenDropped P := by
  obtain ⟨P, hP, htest⟩ := Pool.exists_of_plays (p := FedThenDropped) (reachable_world touchId)
    (show ∃ P ∈ Pool.plays (code touchId) (.start Sample.world) locking, FedThenDropped P by
      decide +kernel)
  exact ⟨P, hP, fed_as_held hP, htest⟩

end VaultCall

end LastpassSshAgent
