import LastpassSshAgent.VaultCalls

/-!
# The calls keep their rules

Each call is verified once against everything the others may do while it waits. What the
lock guards stands still for whoever has it, so an ask that found nothing held still finds
nothing held when it has been answered.
-/

namespace LastpassSshAgent

open Resumption

namespace VaultCall

variable {unlock : Unlock} {call : VaultCall} {t : ℕ} {s s' : Stage vaultCalls} {β : Type}

def Doing (s : Stage vaultCalls) (t : ℕ) (call : VaultCall) : Prop :=
  ∀ call', s.Did t (.started call') ↔ call' = call

theorem Doing.of_acts {acts : List (Act vaultCalls)} (h : Doing s t call)
    (hs : s'.acts t = acts ++ s.acts t) (hacts : ∀ call', .started call' ∉ acts) :
    Doing s' t call := by
  intro call'
  rw [Stage.did_iff, hs, List.mem_append, ← Stage.did_iff, h call']
  exact ⟨fun h => h.resolve_left (hacts call'), .inr⟩

theorem Doing.note (h : Doing s t call) (e : Event ⊕ Supplied) : Doing (s.note t e) t call :=
  h.of_acts (show (s.note t e).acts t = [.noted e] ++ s.acts t from Stage.acts_push_self _ _ _ _)
    (by simp)

theorem Only.of_acts {acts newer : List (Act vaultCalls)} (h : Only s t acts)
    (hs : s'.acts t = newer ++ s.acts t) (hnewer : ∀ call', .started call' ∉ newer) :
    Only s' t (newer ++ acts) := by
  intro ask hdid
  rw [Stage.did_iff, hs, List.mem_append, ← Stage.did_iff] at hdid
  rw [hs, h ask (hdid.resolve_left (hnewer _)), List.append_assoc]

theorem Doing.only {source : MasterPasswordSource} {args : List String} {maxBytes : ℕ}
    (h : Doing s t (.run source args maxBytes)) (acts : List (Act vaultCalls)) : Only s t acts :=
  fun _ hdid => absurd ((h _).mp hdid) nofun

/-! ### Waits -/

structure Answered (t : ℕ) (q : Query) (a : q.Answer) (s s' : Stage vaultCalls) : Prop where
  own : ∃ answered began, s'.own t = answered :: began :: s.own t ∧
    answered.act = .answered q a ∧ began.act = .began q
  history : s.history <:+ s'.history

namespace Answered

variable {q : Query} {a : q.Answer}

theorem acts (h : Answered t q a s s') :
    s'.acts t = [.answered q a, .began q] ++ s.acts t := by
  obtain ⟨answered, began, hown, ha, hb⟩ := h.own
  simp [Stage.acts_eq_own, hown, ha, hb]

theorem last (h : Answered t q a s s') : s'.last t = some (.answered q a) := by
  obtain ⟨answered, began, hown, ha, -⟩ := h.own
  simp [Stage.last_eq_own, hown, ha]

theorem doing (h : Answered t q a s s') (hdo : Doing s t call) : Doing s' t call :=
  hdo.of_acts h.acts (by simp)

theorem of_others {s₁ : Stage vaultCalls} {x : World}
    (h : (rules unlock).Others t (s.begin t q) s₁) :
    Answered t q a s (s₁.push t (.answered q a) x) where
  own := ⟨⟨t, .answered q a, s₁.shared, x⟩, ⟨t, .began q, s.shared, s.shared⟩,
    by rw [Stage.own_push_self, h.own, Stage.begin, Stage.own_push_self], rfl, rfl⟩
  history := (List.suffix_cons _ _).trans (h.leads.history.trans (List.suffix_cons _ _))

end Answered

theorem wp_wait {q : Query} {f : q.Answer → Program vaultCalls β}
    {Q : β → Stage vaultCalls → Prop} (hh : q ≠ .held) (hmay : MayBegin unlock s t q)
    (h : ∀ a s', Answered t q a s s' → Still t s.shared s'.shared →
      (rules unlock).wp t (f a) Q s') :
    (rules unlock).wp t ((Program.ask (I := vaultCalls) q).bind f) Q s := by
  refine (Rules.wp_ask _ _ _ _).mpr ⟨hmay, fun s₁ h₁ => ⟨trivial, fun a x hx => ?_⟩⟩
  exact h a _ (.of_others h₁) ((others_still h₁).trans (.answer hx hh))

theorem wp_lock {f : Query.Answer .held → Program vaultCalls β} {Q : β → Stage vaultCalls → Prop}
    (hfree : s.shared.heldLock ≠ some t) (honly : Only s t [])
    (h : ∀ s', Answered t .held () s s' → s'.shared.heldLock = some t →
      (rules unlock).wp t (f ()) Q s') :
    (rules unlock).wp t ((Program.ask (I := vaultCalls) Query.held).bind f) Q s := by
  refine (Rules.wp_ask _ _ _ _).mpr ⟨⟨hfree, honly⟩, fun s₁ h₁ => ⟨trivial, fun a x hx => ?_⟩⟩
  obtain ⟨-, rfl⟩ := World.effect_held (a := a) hx
  exact h _ (.of_others h₁) rfl

/-! ### Asking -/

/-- Thread `t` found nothing held, and that is how things stand while it has the lock. -/
structure Asking (s : Stage vaultCalls) (t : ℕ) (call : VaultCall) : Prop where
  vacant : Vacant s t
  doing : Doing s t call

theorem Asking.answered {q : Query} {a : q.Answer} (h : Asking s t call)
    (hs : Answered t q a s s') (hstill : Still t s.shared s'.shared) : Asking s' t call where
  vacant := ⟨hstill.lock.mpr h.vacant.1, (hstill.held h.vacant.1).trans h.vacant.2⟩
  doing := hs.doing h.doing

/-- What thread `t` did last has left only the prompt to ask. -/
def OnlyPrompt (unlock : Unlock) (s : Stage vaultCalls) (t : ℕ) : Prop :=
  (s.last t = some (.noted (.inl .asked)) ∧ unlock.consults s.shared = .prompt .master) ∨
    ∃ answer, s.last t = some (.answered .masterStore answer) ∧ usable answer = none

/-- What the store came to, and which answer it rests on. -/
def Gives (unlock : Unlock) (s : Stage vaultCalls) (t : ℕ) : Option Bytes → Prop
  | some secret => Sourced s t secret .store
  | none => OnlyPrompt unlock s t

theorem askStore_spec (h : Asking s t call) (hlast : s.last t = some (.noted (.inl .asked))) :
    (rules unlock).wp t ((askStore unlock.source s.shared.storeRejected).within VaultCall Supplied)
      (fun stored s' => Asking s' t call ∧ Gives unlock s' t stored) s := by
  unfold askStore
  split_ifs with hstore
  · refine wp_wait nofun ⟨h.vacant, hlast, if_pos hstore⟩ fun answer s₁ h₁ hstill => ?_
    have hasking : Asking s₁ t call := h.answered h₁ hstill
    rcases answer with e | _ | secret
    · exact ⟨hasking, .inr ⟨_, h₁.last, rfl⟩⟩
    · exact ⟨hasking, .inr ⟨_, h₁.last, rfl⟩⟩
    · show Asking s₁ t call ∧ Gives unlock s₁ t (usable (.ok (some secret)))
      cases husable : usable (.ok (some secret)) with
      | none => exact ⟨hasking, .inr ⟨_, h₁.last, husable⟩⟩
      | some secret' => exact ⟨hasking, _, h₁.last, husable⟩
  · exact ⟨h, .inl ⟨hlast, if_neg hstore⟩⟩

/-- What an ask came to, and which answer it rests on. -/
def Resolves (s : Stage vaultCalls) (t : ℕ) : Except Error (Bytes × Source) → Prop
  | .ok (secret, source) => Sourced s t secret source
  | .error _ => ∃ request answer, s.last t = some (.answered (.prompt request) answer) ∧
      typed answer = none

theorem askPrompt_spec (h : Asking s t call) (honly : OnlyPrompt unlock s t) :
    (rules unlock).wp t (askPrompt.within VaultCall Supplied)
      (fun r s' => Asking s' t call ∧ Resolves s' t r) s := by
  refine wp_wait nofun ⟨h.vacant, rfl, honly⟩ fun answer s₁ h₁ hstill => ?_
  have hasking : Asking s₁ t call := h.answered h₁ hstill
  rcases answer with e | secret
  · exact ⟨hasking, _, _, h₁.last, rfl⟩
  · show (rules unlock).wp t (Program.within _ _ (if secret.isEmpty then _ else _)) _ _
    split_ifs with hempty
    · exact ⟨hasking, _, _, h₁.last, if_pos hempty⟩
    · exact ⟨hasking, _, _, h₁.last, if_neg hempty⟩

theorem resolve_spec (h : Asking s t call) (hlast : s.last t = some (.noted (.inl .asked))) :
    (rules unlock).wp t ((resolve unlock.source s.shared.storeRejected).within VaultCall Supplied)
      (fun r s' => Asking s' t call ∧ Resolves s' t r) s := by
  unfold resolve
  rw [Program.bind_def, Program.within_bind]
  refine Rules.wp_seq (askStore_spec h hlast) ?_
  rintro (_ | secret) s₁ ⟨h₁, hstored⟩
  · exact askPrompt_spec h₁ hstored
  · exact ⟨h₁, hstored⟩

/-! ### Calls of `password` -/

/-- Thread `t` has given the lock back, and returns what it then left held. -/
structure Returns (s : Stage vaultCalls) (t : ℕ) (call : VaultCall) (ask : Bool)
    (result : Except String (Option Bytes)) : Prop where
  free : s.shared.heldLock ≠ some t
  doing : Doing s t call
  released : ∃ released rest, s.own t = released :: rest ∧
    released.act = .noted (.inl .heldReleased) ∧ Comes ask released.before.held result

theorem Returns.of_release {ask : Bool} {result : Except String (Option Bytes)}
    (hdo : Doing s t call) (hcomes : Comes ask s.shared.held result) :
    Returns (s.note t (.inl .heldReleased)) t call ask result where
  free := nofun
  doing := hdo.note _
  released := ⟨_, _, Stage.own_push_self t s _ _, rfl, hcomes⟩

theorem askHolding_spec (h : Asking s t call) (hlast : s.last t = some (.answered .held ()))
    (hask : MayAsk s t) (honly : Only s t [.answered .held (), .began .held]) :
    (rules unlock).wp t (unlock.askHolding.within VaultCall Supplied)
      (fun r s' => Returns s' t call true r) s := by
  refine ⟨⟨⟨h.vacant.1, hlast⟩, h.vacant.2, hask, honly⟩, ?_⟩
  have h₀ : Asking (s.note t (.inl .asked)) t call := ⟨h.vacant, h.doing.note _⟩
  have hlast₀ : (s.note t (.inl .asked)).last t = some (.noted (.inl .asked)) :=
    Stage.last_push_self _ _ _ _
  show (rules unlock).wp t (((resolve unlock.source s.shared.storeRejected).bind _).within _ _) _ _
  rw [Program.within_bind]
  refine Rules.wp_seq (resolve_spec h₀ hlast₀) ?_
  rintro (e | ⟨secret, source⟩) s₁ ⟨h₁, hresolves⟩
  · obtain ⟨request, answer, hprompt, htyped⟩ := hresolves
    refine ⟨⟨h₁.vacant.1, .inr (.inl ⟨request, answer, hprompt, htyped, h₁.vacant.2⟩)⟩, ?_⟩
    refine .of_release h₁.doing ?_
    rw [h₁.vacant.2]
    exact ⟨_, rfl⟩
  · refine ⟨⟨h₁.vacant, hresolves⟩, ?_⟩
    have hlast₂ := Stage.last_push_self s₁ t (.noted (.inl (.holding secret source)))
      (World.apply (.holding secret source) s₁.shared)
    exact ⟨⟨h₁.vacant.1, .inr (.inr (.inl ⟨secret, source, hlast₂⟩))⟩,
      .of_release (h₁.doing.note _) rfl⟩

theorem password_spec {ask : Bool} (hfree : s.shared.heldLock ≠ some t) (hdo : Doing s t call)
    (honly : Only s t []) (hask : ask = true → MayAsk s t)
    (hno : ask = false → ¬ s.Did t (.started (.password true))) :
    (rules unlock).wp t ((unlock.password ask).within VaultCall Supplied)
      (fun r s' => Returns s' t call ask r) s := by
  refine wp_lock hfree honly fun s₁ h₁ hlock => ?_
  have hdo₁ : Doing s₁ t call := h₁.doing hdo
  dsimp only [Program.bind, Rules.wp]
  cases hheld : s₁.shared.held with
  | some current =>
    refine ⟨⟨hlock, .inl ⟨h₁.last, fun _ => by simp [hheld]⟩⟩, .of_release hdo₁ ?_⟩
    rw [hheld]
    rfl
  | none =>
    cases ask with
    | true =>
      refine askHolding_spec ⟨⟨hlock, hheld⟩, hdo₁⟩ h₁.last ?_ ?_
      · exact (hask rfl).imp (·.mono h₁.history) fun ⟨args, maxBytes, h⟩ =>
          ⟨args, maxBytes, h.mono h₁.history⟩
      · exact honly.of_acts h₁.acts (by simp)
    | false =>
      have hno₁ : ¬ s₁.Did t (.started (.password true)) := by
        rw [hdo₁ _, ← hdo _]
        exact hno rfl
      refine ⟨⟨hlock, .inl ⟨h₁.last, fun h => absurd h hno₁⟩⟩, .of_release hdo₁ ?_⟩
      rw [hheld]
      rfl

/-! ### Changes of what is held -/

structure Free (s : Stage vaultCalls) (t : ℕ) (call : VaultCall) : Prop where
  free : s.shared.heldLock ≠ some t
  doing : Doing s t call

theorem Returns.toFree {ask : Bool} {result : Except String (Option Bytes)}
    (h : Returns s t call ask result) : Free s t call := ⟨h.free, h.doing⟩

theorem Doing.release (h : Doing s t call) : Free (s.note t (.inl .heldReleased)) t call :=
  ⟨nofun, h.note _⟩

/-- Taking the lock for one change of what it guards. -/
theorem change_spec {e : Event} (h : Free s t call) (honly : Only s t [])
    (he : e = .touched ∨ e = .rejected ∨ e = .forgotten ∨ e = .expired)
    (hmay : ∀ s', Answered t .held () s s' → Granted s' t → MayNote s' t e) :
    (rules unlock).wp t (Program.within VaultCall Supplied
      (do let _ ← await .held; note e; note .heldReleased)) (fun _ s' => Free s' t call) s := by
  refine wp_lock h.free honly fun s₁ h₁ hlock => ⟨hmay s₁ h₁ ⟨hlock, h₁.last⟩, ?_⟩
  have hdo : Doing (s₁.note t (.inl e)) t call := (h₁.doing h.doing).note _
  have hlast := Stage.last_push_self s₁ t (.noted (.inl e)) (World.apply e s₁.shared)
  have hlock' : (World.apply e s₁.shared).heldLock = some t := by
    rw [World.apply_heldLock (by rcases he with rfl | rfl | rfl | rfl <;> nofun), hlock]
  refine ⟨⟨hlock', ?_⟩, hdo.release⟩
  rcases he with rfl | rfl | rfl | rfl
  · exact .inr (.inr (.inr (.inl hlast)))
  · exact .inr (.inr (.inr (.inr (.inl hlast))))
  · exact .inr (.inr (.inr (.inr (.inr (.inl hlast)))))
  · exact .inr (.inr (.inr (.inr (.inr (.inr hlast)))))

theorem expireIfIdle_spec (h : Free s t .expire) (honly : Only s t []) :
    (rules unlock).wp t (unlock.expireIfIdle.within VaultCall Supplied)
      (fun _ s' => Free s' t .expire) s := by
  unfold Unlock.expireIfIdle
  cases unlock.idle with
  | none => exact h
  | some idle =>
    refine wp_lock h.free honly fun s₁ h₁ hlock => ?_
    have hdo : Doing s₁ t .expire := h₁.doing h.doing
    show (rules unlock).wp t (Program.within _ _ (if Unlock.idled idle s₁.shared then _ else _)) _ _
    split_ifs
    · refine ⟨⟨⟨hlock, h₁.last⟩, (hdo _).mpr rfl⟩, ?_⟩
      have hlast := Stage.last_push_self s₁ t (.noted (.inl .expired))
        (World.apply .expired s₁.shared)
      exact ⟨⟨hlock, .inr (.inr (.inr (.inr (.inr (.inr hlast)))))⟩, (hdo.note _).release⟩
    · have hno : ¬ s₁.Did t (.started (.password true)) := fun hd => nomatch (hdo _).mp hd
      exact ⟨⟨hlock, .inl ⟨h₁.last, fun hd => absurd hd hno⟩⟩, hdo.release⟩

/-! ### Runs of `lpass` -/

/-- The sources that are fed what the agent holds. -/
def Feeds (source : MasterPasswordSource) : Prop := source = .unlock ∨ source = .heldOnly

/-- What is about to be fed is what thread `t` has just read. -/
def Fed (s : Stage vaultCalls) (t : ℕ) (password : Option Bytes) : Prop :=
  ∃ read rest, s.own t = read :: rest ∧ read.act = .noted (.inl .heldReleased) ∧
    password = read.before.held.map Held.secret

/-- What `lpass` has just come to, on what thread `t` had read. -/
def Heard (s : Stage vaultCalls) (t : ℕ) (out : CmdOutput) : Prop :=
  ∃ answered fed read rest args maxBytes run, s.own t = answered :: fed :: read :: rest ∧
    answered.act = .answered (.lpass args (read.before.held.map Held.secret) maxBytes) run ∧
    fed.act = .began (.lpass args (read.before.held.map Held.secret) maxBytes) ∧
    read.act = .noted (.inl .heldReleased) ∧
    CmdOutput.of (read.before.held.map Held.secret).isSome maxBytes run = .ok out

theorem Heard.told {out : CmdOutput} (h : Heard s t out) (hwrong : out.wasRejected = true)
    (hs : Answered t .held () s s') : Told (s'.own t) := by
  obtain ⟨answered, fed, read, rest, args, maxBytes, run, hown, ha, hf, hr, hof⟩ := h
  obtain ⟨granted, waited, hown', hg, hw⟩ := hs.own
  exact ⟨granted, waited, answered, fed, read, rest, args, maxBytes, run, out,
    hown'.trans (by rw [hown]), hg, hw, ha, hf, hr, hof, hwrong⟩

theorem Returns.fed {ask : Bool} {password : Option Bytes} {result : Except String (Option Bytes)}
    (h : Returns s t call ask result)
    (hpassword : ∀ held, Comes ask held result → password = held.map Held.secret) :
    Fed s t password := by
  obtain ⟨released, rest, hown, hact, hcomes⟩ := h.released
  exact ⟨released, rest, hown, hact, hpassword _ hcomes⟩

theorem secret_of_comes {held : Option Held} {result : Except String (Option Bytes)}
    (h : Comes false held result) : result.toOption.join = held.map Held.secret := by
  cases held with
  | some current =>
    obtain rfl : result = .ok (some current.secret) := h
    rfl
  | none =>
    obtain rfl : result = .ok none := h
    rfl

theorem some_of_comes {held : Option Held} {password : Option Bytes}
    (h : Comes true held (.ok password)) :
    password = held.map Held.secret ∧ password.isSome = true := by
  cases held with
  | some current =>
    obtain rfl := Except.ok.inj h
    exact ⟨rfl, rfl⟩
  | none =>
    obtain ⟨e, h⟩ := h
    cases h

section

variable {source : MasterPasswordSource} {args : List String} {maxBytes : ℕ}

abbrev Running (s : Stage vaultCalls) (t : ℕ) (source : MasterPasswordSource) (args : List String)
    (maxBytes : ℕ) : Prop :=
  Free s t (.run source args maxBytes)

theorem held_spec (h : Running s t source args maxBytes) :
    (rules unlock).wp t ((LpassCli.held ⟨source, unlock⟩).within VaultCall Supplied)
      (fun password s' => Running s' t source args maxBytes ∧ (Feeds source → Fed s' t password))
      s := by
  have hread : (rules unlock).wp t
      ((unlock.password false >>= fun held => pure held.toOption.join).within VaultCall Supplied)
      (fun password s' => Running s' t source args maxBytes ∧ (Feeds source → Fed s' t password))
      s := by
    rw [Program.bind_def, Program.within_bind]
    refine Rules.wp_seq (password_spec h.free h.doing (h.doing.only _) nofun ?_) ?_
    · exact fun _ hd => nomatch (h.doing _).mp hd
    · exact fun result s₁ h₁ => ⟨h₁.toFree, fun _ => h₁.fed fun _ => secret_of_comes⟩
  cases source with
  | none => exact ⟨h, by simp [Feeds]⟩
  | fixed secret => exact ⟨h, by simp [Feeds]⟩
  | unlock => exact hread
  | heldOnly => exact hread

theorem exec_spec {password : Option Bytes} (h : Running s t source args maxBytes)
    (hfed : Feeds source → Fed s t password) :
    (rules unlock).wp t ((LpassCli.exec args password maxBytes).within VaultCall Supplied)
      (fun r s' => Running s' t source args maxBytes ∧
        ∀ out, r = .ok out → Feeds source → Heard s' t out) s := by
  refine wp_wait nofun ⟨h.free, _, _, _, (h.doing _).mpr rfl⟩ fun run s₁ h₁ hstill => ?_
  refine ⟨⟨mt hstill.lock.mp h.free, h₁.doing h.doing⟩, fun out hout hfeeds => ?_⟩
  obtain ⟨read, rest, hown, hr, rfl⟩ := hfed hfeeds
  obtain ⟨answered, fed, hown', ha, hf⟩ := h₁.own
  exact ⟨answered, fed, read, rest, args, maxBytes, run, hown'.trans (by rw [hown]), ha, hf, hr,
    hout⟩

theorem retry_spec {out : CmdOutput} (h : Running s t source args maxBytes)
    (hheard : Feeds source → Heard s t out) :
    (rules unlock).wp t ((LpassCli.retry ⟨source, unlock⟩ args maxBytes out).within
      VaultCall Supplied) (fun r s' => Running s' t source args maxBytes ∧
        ∀ out, r = .ok out → Feeds source → Heard s' t out) s := by
  unfold LpassCli.retry
  split_ifs
  · rw [Program.bind_def, Program.within_bind]
    cases source with
    | unlock =>
      refine Rules.wp_seq (P := fun r s' => ∃ result, r = result.mapError .noMasterPassword ∧
        Returns s' t (.run .unlock args maxBytes) true result) ?_ ?_
      · show (rules unlock).wp t (Program.within _ _ (Program.bind _ _)) _ _
        rw [Program.within_bind]
        refine Rules.wp_seq (password_spec h.free h.doing (h.doing.only _) ?_ nofun) ?_
        · exact fun _ => .inr ⟨args, maxBytes, (h.doing _).mpr rfl⟩
        · exact fun result s₁ h₁ => ⟨result, rfl, h₁⟩
      · rintro _ s₁ ⟨result, rfl, h₁⟩
        rcases result with e | password
        · exact ⟨h₁.toFree, nofun⟩
        · obtain ⟨released, rest, -, -, hcomes⟩ := h₁.released
          obtain ⟨secret, rfl⟩ := Option.isSome_iff_exists.mp (some_of_comes hcomes).2
          exact exec_spec h₁.toFree fun _ => h₁.fed fun _ hc => (some_of_comes hc).1
    | none => exact ⟨h, fun out' ho hf => Except.ok.inj ho ▸ hheard hf⟩
    | fixed secret => exact ⟨h, fun out' ho hf => Except.ok.inj ho ▸ hheard hf⟩
    | heldOnly => exact ⟨h, fun out' ho hf => Except.ok.inj ho ▸ hheard hf⟩
  · exact ⟨h, fun out' ho hf => Except.ok.inj ho ▸ hheard hf⟩

theorem rejectIfWrong_spec {out : CmdOutput} (h : Running s t source args maxBytes)
    (hheard : Feeds source → Heard s t out) :
    (rules unlock).wp t ((LpassCli.rejectIfWrong ⟨source, unlock⟩ out).within VaultCall Supplied)
      (fun _ s' => Running s' t source args maxBytes) s := by
  unfold LpassCli.rejectIfWrong
  split_ifs with hwrong
  · have hreject : Feeds source → (rules unlock).wp t (Unlock.rejected.within VaultCall Supplied)
        (fun _ s' => Running s' t source args maxBytes) s := by
      intro hfeeds
      refine change_spec h (h.doing.only _) (.inr (.inl rfl)) fun s₁ h₁ hgranted => ⟨hgranted, .inr ?_⟩
      exact ⟨_, _, _, (h₁.doing h.doing _).mpr rfl, (hheard hfeeds).told hwrong h₁⟩
    cases source with
    | none => exact h
    | fixed secret => exact h
    | unlock => exact hreject (.inl rfl)
    | heldOnly => exact hreject (.inr rfl)
  · exact h

theorem used_spec (h : Running s t source args maxBytes) :
    (rules unlock).wp t ((LpassCli.used ⟨source, unlock⟩).within VaultCall Supplied)
      (fun _ s' => Running s' t source args maxBytes) s := by
  cases source with
  | unlock =>
    refine change_spec h (h.doing.only _) (.inl rfl) fun s₁ h₁ hgranted => ⟨hgranted, .inr ?_⟩
    exact ⟨_, _, (h₁.doing h.doing _).mpr rfl⟩
  | none => exact h
  | fixed secret => exact h
  | heldOnly => exact h

theorem run_spec (h : Running s t source args maxBytes) :
    (rules unlock).wp t ((LpassCli.run ⟨source, unlock⟩ args maxBytes).within VaultCall Supplied)
      (fun _ s' => Running s' t source args maxBytes) s := by
  unfold LpassCli.run
  simp only [Program.bind_def, Program.within_bind]
  refine Rules.wp_seq (held_spec h) ?_
  rintro password s₁ ⟨h₁, hfed⟩
  refine Rules.wp_seq (exec_spec h₁ hfed) ?_
  rintro (e | out) s₂ ⟨h₂, hheard⟩
  · exact h₂
  · simp only [Program.within_bind]
    refine Rules.wp_seq (retry_spec h₂ (hheard out rfl)) ?_
    rintro (e | out') s₃ ⟨h₃, hheard₃⟩
    · exact h₃
    · simp only [Program.within_bind]
      refine Rules.wp_seq (rejectIfWrong_spec h₃ (hheard₃ out' rfl)) fun _ s₄ h₄ => ?_
      exact Rules.wp_seq (used_spec h₄) fun _ s₅ h₅ => h₅

end

/-! ### Every call -/

theorem last_of_lock (h : Lawful unlock s) (hlock : s.shared.heldLock = some t) :
    s.last t ≠ none := by
  induction h with
  | start hx => exact absurd (hx.heldLock.symm.trans hlock) nofun
  | @act s s' u act _ hl ih =>
    by_cases hut : u = t
    · subst hut
      rw [hl.last_self]
      exact nofun
    · rw [hl.last_of_ne hut]
      exact ih ((legal_still hl hut).lock.mp hlock)
  | drift d _ ih => exact ih ((Still.drift t d _).lock.mp hlock)

theorem begun (h : Lawful unlock s) (hlast : s.last t = none) (call : VaultCall) :
    Free (s.push t (.started call) s.shared) t call ∧
      Only (s.push t (.started call) s.shared) t [] := by
  have hacts : (s.push t (.started call) s.shared).acts t = [.started call] := by
    rw [Stage.acts_push_self, Stage.acts_eq_own, Stage.own,
      List.filter_eq_nil_iff.mpr (by simpa using Stage.last_eq_none.mp hlast)]
    rfl
  have hdoing : Doing (s.push t (.started call) s.shared) t call := by
    intro call'
    rw [Stage.did_iff, hacts, List.mem_singleton]
    exact ⟨Act.started.inj, congrArg _⟩
  refine ⟨⟨fun hlock => last_of_lock h hlock hlast, hdoing⟩, fun ask hd => ?_⟩
  rw [hacts, (hdoing _).mp hd]
  rfl

theorem Free.ended (h : Free s t call) (hreport : ∀ ask, call ≠ .password ask) :
    (rules unlock).allowed s t .ended :=
  ⟨h.free, fun ask hd => absurd ((h.doing _).mp hd).symm (hreport ask)⟩

theorem upheld (unlock : Unlock) : (rules unlock).Upheld Fresh (code unlock) := by
  intro call t s x hs hlast hx
  obtain rfl := Option.some.inj hx
  obtain ⟨hfree, honly⟩ := begun hs hlast call
  have hdid := (hfree.doing call).mpr rfl
  cases call with
  | password ask =>
    refine Rules.wp_seq (password_spec hfree.free hfree.doing honly ?_ ?_) fun result s₁ h₁ => ?_
    · exact fun hask => .inl (hask ▸ hdid)
    · rintro rfl hd
      exact nomatch (hfree.doing _).mp hd
    · obtain ⟨released, rest, hown, hact, hcomes⟩ := h₁.released
      refine ⟨⟨released, rest, hown, hact, (h₁.doing _).mpr rfl, hcomes⟩, h₁.free, fun _ _ => ?_⟩
      exact ⟨_, Stage.last_push_self s₁ t (.noted (.inr ⟨ask, result⟩)) s₁.shared⟩
  | touch =>
    refine Rules.wp_mono (change_spec hfree honly (.inl rfl) fun s₁ h₁ hgranted => ?_)
      fun _ _ h => h.ended nofun
    exact ⟨hgranted, .inl (hdid.mono h₁.history)⟩
  | rejected =>
    refine Rules.wp_mono (change_spec hfree honly (.inr (.inl rfl)) fun s₁ h₁ hgranted => ?_)
      fun _ _ h => h.ended nofun
    exact ⟨hgranted, .inl (hdid.mono h₁.history)⟩
  | forget =>
    refine Rules.wp_mono (change_spec hfree honly (.inr (.inr (.inl rfl))) fun s₁ h₁ hgranted => ?_)
      fun _ _ h => h.ended nofun
    exact ⟨hgranted, hdid.mono h₁.history⟩
  | expire =>
    exact Rules.wp_mono (expireIfIdle_spec hfree honly) fun _ _ h => h.ended nofun
  | run source args maxBytes =>
    exact Rules.wp_seq (run_spec hfree) fun _ _ h => h.ended nofun

end VaultCall

end LastpassSshAgent
