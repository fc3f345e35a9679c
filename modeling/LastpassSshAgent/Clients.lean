import LastpassSshAgent.Position

/-!
# The vault clients keep the rules

Whatever client a call goes through, the thread ends where it began, and only the
client that may ask has asked, under the gate and after an approval.
-/

namespace LastpassSshAgent

open Resumption

variable {env : Env} {t : ℕ} {p : Position} {s s' : Stage runtime}
  {source : MasterPasswordSource}

abbrev askingPosition : Position := ⟨true, true, some .unlock⟩

theorem asking_of_at (hat : At t askingPosition s) (hc : ∃ item, Cleared s t env item) :
    Asking s t env := ⟨hat.gate.mpr rfl, hat.lock.mpr rfl, hat.call, hc⟩

theorem cleared_mono (hc : ∃ item, Cleared s t env item) (hs : s.history <:+ s'.history) :
    ∃ item, Cleared s' t env item := by
  obtain ⟨item, hc⟩ := hc
  exact ⟨item, hc.mono hs⟩

/-! ### The held password -/

theorem not_handsOver_of_inCall {act : Act runtime} (h : InCall act) : ¬ HandsOver act := by
  intro hover
  cases act with
  | noted e => cases e <;> first
    | exact h
    | exact hover
  | _ => exact hover

theorem At.release (hat : At t { p with lock := true } s) (hl : p.lock = false) :
    At t p (s.note t .heldReleased) := by
  have hp : Position.after { p with lock := true } .heldReleased = p := by
    obtain ⟨gate, lock, call⟩ := p
    exact congrArg (Position.mk gate · call) hl.symm
  have hnote : At t (Position.after { p with lock := true } .heldReleased)
      (s.note t .heldReleased) := hat.note id
  rwa [hp] at hnote

theorem since_release (s : Stage runtime) (t : ℕ) : Since t 0 s (s.note t .heldReleased) :=
  .note nofun nofun

/-- While the lock is held nobody else changes what it guards. -/
structure Kept (t : ℕ) (p : Position) (s s' : Stage runtime) : Prop where
  at' : At t p s'
  since : Since t 0 s s'
  held : s'.shared.held = s.shared.held

theorem askStore_spec (kind : MasterPassword) (skip : Bool) (hat : At t askingPosition s)
    (hc : ∃ item, Cleared s t env item) :
    env.rules.wp t (askStore kind skip) (fun _ s' => Kept t askingPosition s s') s := by
  unfold askStore
  split_ifs
  · refine wp_call nofun nofun hat (asking_of_at hat hc) (fun _ => .inl rfl) nofun ?_
    intro a s' h
    have hk : Kept t askingPosition s s' := ⟨h.at id, h.since, h.held (hat.lock.mpr rfl)⟩
    rcases a with e | _ | secret
    · exact hk
    · exact hk
    · exact hk
  · exact ⟨hat, .refl t s, rfl⟩

theorem askPrompt_spec (hat : At t askingPosition s) (hc : ∃ item, Cleared s t env item) :
    env.rules.wp t askPrompt (fun _ s' => Kept t askingPosition s s') s := by
  refine wp_call nofun nofun hat (asking_of_at hat hc) (fun _ => .inr ⟨_, rfl⟩) nofun ?_
  intro a s' h
  have hk : Kept t askingPosition s s' := ⟨h.at id, h.since, h.held (hat.lock.mpr rfl)⟩
  rcases a with e | typed
  · exact hk
  · dsimp only
    split_ifs
    · exact hk
    · exact hk

theorem resolve_spec (kind : MasterPassword) (skip : Bool) (hat : At t askingPosition s)
    (hc : ∃ item, Cleared s t env item) :
    env.rules.wp t (resolve kind skip) (fun _ s' => Kept t askingPosition s s') s := by
  refine Rules.wp_seq (askStore_spec kind skip hat hc) ?_
  rintro (_ | secret) s₁ h₁
  · refine Rules.wp_mono (askPrompt_spec h₁.at' (cleared_mono hc h₁.since.history)) ?_
    exact fun _ s₂ h₂ => ⟨h₂.at', h₁.since.trans h₂.since, h₂.held.trans h₁.held⟩
  · exact h₁

namespace Unlock

theorem askHolding_spec (unlock : Unlock) (hat : At t askingPosition s)
    (hheld : s.shared.held = none) (hc : ∃ item, Cleared s t env item) :
    env.rules.wp t unlock.askHolding (fun _ s' =>
      At t { askingPosition with lock := false } s' ∧ Since t 1 s s' ∧ s'.Did t (.noted .asked))
      s := by
  have hasked : (s.note t .asked).Did t (.noted .asked) := s.did_push_self t _ _
  have hat₀ : At t askingPosition (s.note t .asked) := hat.note (e := .asked) id
  have hc₀ := cleared_mono hc (Since.note_asked (s := s) (t := t)).history
  refine wp_note hat.undecided ⟨asking_of_at hat hc, hheld⟩ ?_
  refine (Rules.wp_get _ _ _).mpr ?_
  refine Rules.wp_seq (resolve_spec unlock.source _ hat₀ hc₀) ?_
  intro r s₁ h₁
  have hs₁ : Since t 1 s s₁ := Since.note_asked.trans h₁.since
  rcases r with e | ⟨secret, from_⟩
  · refine wp_note h₁.at'.undecided (h₁.at'.lock.mpr rfl) ?_
    have hlast := since_release s₁ t
    exact ⟨h₁.at'.release rfl, hs₁.trans hlast, hasked.mono (h₁.since.trans hlast).history⟩
  · have hnone : s₁.shared.held = none := h₁.held.trans hheld
    refine wp_note h₁.at'.undecided ⟨h₁.at'.lock.mpr rfl, h₁.at'.gate.mpr rfl, hnone⟩ ?_
    have hat₂ : At t askingPosition (s₁.note t (.holding secret from_)) :=
      h₁.at'.note (e := .holding secret from_) id
    refine wp_note hat₂.undecided (hat₂.lock.mpr rfl) ?_
    have hlast : Since t 0 s₁ ((s₁.note t (.holding secret from_)).note t .heldReleased) :=
      (Since.note (e := .holding secret from_) nofun nofun).trans (since_release _ t)
    exact ⟨hat₂.release rfl, hs₁.trans hlast, hasked.mono (h₁.since.trans hlast).history⟩

theorem password_spec (unlock : Unlock) (ask : Bool) (hat : At t p s) (hl : p.lock = false)
    (hask : ask = true → source = .unlock ∧ p.gate = true ∧ p.call = some .unlock ∧
      ∃ item, Cleared s t env item) :
    env.rules.wp t (unlock.password ask) (fun _ s' => At t p s' ∧ Ran t source s s') s := by
  refine wp_held hat hl ?_
  intro a s₁ hat₁ hs₁
  have hrelease := since_release s₁ t
  have hback := hat₁.release hl
  cases hheld : s₁.shared.held with
  | some current =>
    refine (Rules.wp_get _ _ _).mpr ?_
    simp only [hheld]
    refine wp_note hat₁.undecided (hat₁.lock.mpr rfl) ?_
    exact ⟨hback, .of_since (hs₁.trans hrelease)⟩
  | none =>
    refine (Rules.wp_get _ _ _).mpr ?_
    simp only [hheld]
    split_ifs with h
    · obtain ⟨hsource, hgate, hcall, hc⟩ := hask h
      have hp₁ : { p with lock := true } = askingPosition := by
        cases p
        simp_all
      have hspec := askHolding_spec unlock (hp₁ ▸ hat₁) hheld (cleared_mono hc hs₁.history)
      refine Rules.wp_mono hspec ?_
      rintro r s₂ ⟨hat₂, hs₂, hdid⟩
      have hp : { askingPosition with lock := false } = p := by
        cases p
        simp_all
      exact ⟨hp ▸ hat₂, 1, Nat.zero_add 1 ▸ hs₁.trans hs₂, fun _ => ⟨hsource, hdid⟩⟩
    · refine wp_note hat₁.undecided (hat₁.lock.mpr rfl) ?_
      exact ⟨hback, .of_since (hs₁.trans hrelease)⟩

/-- Taking the lock for one change of what it guards. -/
theorem locked_spec {e : Event} (hat : At t p s) (hl : p.lock = false) (hd : ¬ Decides (.noted e))
    (hafter : ∀ p : Position, p.after e = p) (hg : e ≠ .gateReleased) (ha : e ≠ .asked)
    (hmay : ∀ s₁, At t { p with lock := true } s₁ → MayNote s₁ t env e) :
    env.rules.wp t (do let _ ← await .held; note e; note .heldReleased)
      (fun _ s' => At t p s' ∧ Since t 0 s s' ∧ Changed s' t e) s := by
  refine wp_held hat hl ?_
  intro a s₁ hat₁ hs₁
  refine wp_note hat₁.undecided (hmay s₁ hat₁) ?_
  have hat₂ : At t { p with lock := true } (s₁.note t e) := by
    have hnote := hat₁.note hd
    rwa [hafter] at hnote
  have hs₂ : Since t 0 s₁ ((s₁.note t e).note t .heldReleased) :=
    (Since.note hg ha).trans (since_release _ t)
  refine ⟨⟨.inl hat₂.undecided, hat₂.lock.mpr rfl⟩, hat₂.release hl, hs₁.trans hs₂, ?_⟩
  exact ⟨[⟨t, .noted .heldReleased, _, _⟩], _, s₁.history, rfl, rfl, rfl, by simp⟩

theorem touch_spec (hat : At t p s) (hl : p.lock = false) (hg : p.gate = true) :
    env.rules.wp t touch (fun _ s' => At t p s' ∧ Since t 0 s s' ∧ Changed s' t .touched) s := by
  refine locked_spec hat hl id (fun _ => rfl) nofun nofun ?_
  exact fun s₁ hat₁ => ⟨hat₁.lock.mpr rfl, hat₁.gate.mpr hg⟩

theorem rejected_spec (hat : At t p s) (hl : p.lock = false) :
    env.rules.wp t rejected (fun _ s' => At t p s' ∧ Since t 0 s s') s := by
  refine Rules.wp_mono (locked_spec hat hl id (fun _ => rfl) nofun nofun ?_) fun _ _ h =>
    ⟨h.1, h.2.1⟩
  exact fun s₁ hat₁ => hat₁.lock.mpr rfl

theorem forget_spec (hat : At t p s) (hl : p.lock = false) :
    env.rules.wp t forget (fun _ s' => At t p s' ∧ Since t 0 s s' ∧ s'.Did t (.noted .forgotten))
      s := by
  refine Rules.wp_mono (locked_spec hat hl id (fun _ => rfl) nofun nofun ?_) ?_
  · exact fun _ hat₁ => hat₁.lock.mpr rfl
  · rintro _ s' ⟨hat', hs', newer, x, older, hhistory, hxt, hxa, -⟩
    exact ⟨hat', hs', x, by simp [hhistory], hxt, hxa⟩

theorem expireIfIdle_spec (hat : At t p s) (hl : p.lock = false) :
    env.rules.wp t env.unlock.expireIfIdle (fun _ s' => At t p s' ∧ Since t 0 s s') s := by
  unfold expireIfIdle
  cases hidle : env.unlock.idle with
  | none => exact ⟨hat, .refl t s⟩
  | some idle =>
    refine wp_held hat hl ?_
    intro a s₁ hat₁ hs₁
    refine (Rules.wp_get _ _ _).mpr ?_
    split_ifs with hover
    · refine wp_note hat₁.undecided ⟨hat₁.lock.mpr rfl, idle, hidle, hover⟩ ?_
      have hat₂ : At t { p with lock := true } (s₁.note t .expired) :=
        hat₁.note (e := .expired) id
      have hs₂ : Since t 0 s₁ ((s₁.note t .expired).note t .heldReleased) :=
        (Since.note (e := .expired) nofun nofun).trans (since_release _ t)
      exact ⟨⟨.inl hat₂.undecided, hat₂.lock.mpr rfl⟩, hat₂.release hl, hs₁.trans hs₂⟩
    · exact ⟨⟨.inl hat₁.undecided, hat₁.lock.mpr rfl⟩, hat₁.release hl,
        hs₁.trans (since_release s₁ t)⟩

end Unlock

/-! ### One call of `lpass` -/

namespace LpassCli

variable {cli : LpassCli}

/-- What a client needs of the thread it runs on, before it may ask. -/
def Usable (env : Env) (cli : LpassCli) (t : ℕ) (p : Position) (s : Stage runtime) : Prop :=
  cli.source = .unlock → p.gate = true ∧ p.call = some .unlock ∧ ∃ item, Cleared s t env item

theorem Usable.mono (h : Usable env cli t p s) (hs : s.history <:+ s'.history) :
    Usable env cli t p s' := by
  intro hsource
  obtain ⟨hg, hc, hcleared⟩ := h hsource
  exact ⟨hg, hc, cleared_mono hcleared hs⟩

theorem held_spec (hat : At t p s) (hl : p.lock = false) :
    env.rules.wp t cli.held (fun _ s' => At t p s' ∧ Ran t cli.source s s') s := by
  unfold held
  split
  · exact ⟨hat, .refl t _ s⟩
  · exact ⟨hat, .refl t _ s⟩
  · exact Rules.wp_seq (Unlock.password_spec cli.unlock false hat hl nofun) fun _ _ h => h
  · exact Rules.wp_seq (Unlock.password_spec cli.unlock false hat hl nofun) fun _ _ h => h

theorem asked_spec (hat : At t p s) (hl : p.lock = false) (hu : Usable env cli t p s) :
    env.rules.wp t cli.asked (fun _ s' => At t p s' ∧ Ran t cli.source s s') s := by
  unfold asked
  split
  · rename_i hsource
    refine Rules.wp_seq (Unlock.password_spec cli.unlock true hat hl fun _ => ?_) fun _ _ h => h
    exact ⟨hsource, hu hsource⟩
  · exact ⟨hat, .refl t _ s⟩

theorem rejected_spec (hat : At t p s) (hl : p.lock = false) :
    env.rules.wp t cli.rejected (fun _ s' => At t p s' ∧ Ran t cli.source s s') s := by
  unfold rejected
  split
  · exact Rules.wp_mono (Unlock.rejected_spec hat hl) fun _ _ h => ⟨h.1, .of_since h.2⟩
  · exact Rules.wp_mono (Unlock.rejected_spec hat hl) fun _ _ h => ⟨h.1, .of_since h.2⟩
  · exact ⟨hat, .refl t _ s⟩

theorem used_spec (hat : At t p s) (hl : p.lock = false) (hu : Usable env cli t p s) :
    env.rules.wp t cli.used (fun _ s' => At t p s' ∧ Ran t cli.source s s' ∧
      (cli.source = .unlock → Changed s' t .touched)) s := by
  unfold used
  split
  · rename_i hsource
    exact Rules.wp_mono (Unlock.touch_spec hat hl (hu hsource).1) fun _ _ h =>
      ⟨h.1, .of_since h.2.1, fun _ => h.2.2⟩
  · rename_i hsource
    exact ⟨hat, .refl t _ s, fun h => absurd h hsource⟩

theorem rejectIfWrong_spec (out : CmdOutput) (hat : At t p s) (hl : p.lock = false) :
    env.rules.wp t (cli.rejectIfWrong out) (fun _ s' => At t p s' ∧ Ran t cli.source s s') s := by
  unfold rejectIfWrong
  split_ifs
  · exact rejected_spec hat hl
  · exact ⟨hat, .refl t _ s⟩

theorem exec_spec (source : MasterPasswordSource) (args : List String) (password : Option Bytes)
    (maxBytes : ℕ) (hat : At t p s) (hl : p.lock = false) :
    env.rules.wp t (exec args password maxBytes) (fun _ s' => At t p s' ∧ Ran t source s s') s := by
  refine wp_call nofun nofun hat trivial ?_ nofun fun a s' h => ⟨h.at id, .of_since h.since⟩
  exact fun hlock => absurd (hl.symm.trans hlock) Bool.false_ne_true

theorem retry_spec (args : List String) (maxBytes : ℕ) (out : CmdOutput) (hat : At t p s)
    (hl : p.lock = false) (hu : Usable env cli t p s) :
    env.rules.wp t (cli.retry args maxBytes out)
      (fun _ s' => At t p s' ∧ Ran t cli.source s s') s := by
  unfold retry
  split_ifs
  · refine Rules.wp_seq (asked_spec hat hl hu) ?_
    rintro (e | _ | password) s₁ ⟨hat₁, hran₁⟩
    · exact ⟨hat₁, hran₁⟩
    · exact ⟨hat₁, hran₁⟩
    · refine Rules.wp_mono (exec_spec cli.source args _ maxBytes hat₁ hl) ?_
      exact fun _ s₂ h => ⟨h.1, hran₁.trans h.2⟩
  · exact ⟨hat, .refl t _ s⟩

theorem run_spec (args : List String) (maxBytes : ℕ) (hat : At t p s) (hl : p.lock = false)
    (hu : Usable env cli t p s) :
    env.rules.wp t (cli.run args maxBytes) (fun r s' => At t p s' ∧ Ran t cli.source s s' ∧
      ∀ out, cli.source = .unlock → r = .ok out → Changed s' t .touched) s := by
  refine Rules.wp_seq (held_spec hat hl) ?_
  rintro held s₁ ⟨hat₁, hran₁⟩
  refine Rules.wp_seq (exec_spec cli.source args held maxBytes hat₁ hl) ?_
  rintro (e | out) s₂ ⟨hat₂, hran₂⟩
  · exact ⟨hat₂, hran₁.trans hran₂, nofun⟩
  have hran : Ran t cli.source s s₂ := hran₁.trans hran₂
  refine Rules.wp_seq (retry_spec args maxBytes out hat₂ hl (hu.mono hran.history)) ?_
  rintro (e | out) s₃ ⟨hat₃, hran₃⟩
  · exact ⟨hat₃, hran.trans hran₃, nofun⟩
  refine Rules.wp_seq (rejectIfWrong_spec out hat₃ hl) ?_
  rintro _ s₄ ⟨hat₄, hran₄⟩
  have hran' : Ran t cli.source s s₄ := (hran.trans hran₃).trans hran₄
  refine Rules.wp_seq (used_spec hat₄ hl (hu.mono hran'.history)) ?_
  rintro _ s₅ ⟨hat₅, hran₅, htouched⟩
  exact ⟨hat₅, hran'.trans hran₅, fun _ hsource _ => htouched hsource⟩

structure Showed (cli : LpassCli) (t : ℕ) (p : Position) (item field : String)
    (result : Except LpassError Bytes) (s s' : Stage runtime) : Prop where
  at' : At t p s'
  ran : Ran t cli.source s s'
  returned : s'.Did t (.noted (.returned cli.source item field result))
  unfetched : (∀ value, result ≠ .ok value) → Unfetched s t → Unfetched s' t

theorem field_of_handsOver {source : MasterPasswordSource} {item field : String}
    {result : Except LpassError Bytes}
    (h : HandsOver (.noted (.returned source item field result))) : field = "Private Key" := by
  cases result with
  | error e => exact h.elim
  | ok value => exact h

theorem value_of_handsOver {source : MasterPasswordSource} {item field : String}
    {result : Except LpassError Bytes}
    (h : HandsOver (.noted (.returned source item field result))) : ∃ value, result = .ok value := by
  cases result with
  | error e => exact h.elim
  | ok value => exact ⟨value, rfl⟩

theorem showField_spec {item field : String} (hat : At t p s) (hl : p.lock = false)
    (hcall : p.call = none)
    (hsource : cli.source = .unlock → p.gate = true ∧ ∃ item, Cleared s t env item)
    (hprivate : field = "Private Key" → Cleared s t env item)
    (hpassphrase : field = "Passphrase" → Matched s t env item)
    (hfirst : field = "Private Key" → Unfetched s t) :
    env.rules.wp t (cli.showField item field) (fun r s' => Showed cli t p item field r s s') s := by
  have hmay : MayCall s t env cli.source item field :=
    ⟨fun h => hat.gate.mpr (hsource h).1, hat.unlocked hl, hat.call.trans hcall, hprivate,
      hpassphrase⟩
  refine wp_note hat.undecided hmay ?_
  have hat₁ : At t { p with call := some cli.source } (s.note t (.called cli.source item field)) :=
    hat.note (e := .called cli.source item field) id
  have hs₁ : Since t 0 s (s.note t (.called cli.source item field)) := .note nofun nofun
  have hu : Usable env cli t { p with call := some cli.source }
      (s.note t (.called cli.source item field)) := fun h =>
    ⟨(hsource h).1, congrArg some h, cleared_mono (hsource h).2 hs₁.history⟩
  refine Rules.wp_seq (Rules.wp_emits (cli.run_emits _ _) (run_spec _ _ hat₁ hl hu)) ?_
  rintro out s₂ ⟨⟨hat₂, hran₂, htouched⟩, hown⟩
  have hunfetched : Unfetched s t → Unfetched s₂ t := by
    intro h x hx hxt
    rcases hown.own hx hxt with hx | hcall
    · rcases List.mem_cons.mp hx with rfl | hx
      · exact id
      · exact h x hx hxt
    · exact not_handsOver_of_inCall hcall
  have hcalled : Called s₂ t cli.source item field := by
    obtain ⟨newer, hs₂, hnewer⟩ := hown
    refine ⟨newer, _, s.history, hs₂, rfl, rfl, fun x hx hxt source item field hxa => ?_⟩
    have hcall := hnewer x hx hxt
    rw [hxa] at hcall
    exact hcall
  refine wp_note hat₂.undecided ⟨hat₂.call, hcalled, fun hover => hunfetched (hfirst ?_), ?_⟩ ?_
  · exact field_of_handsOver hover
  · intro value hunlock hok
    cases out with
    | error e => cases hok
    | ok out => exact htouched out hunlock rfl
  have hat₃ : At t p (s₂.note t (.returned cli.source item field (shown item out))) := by
    have hnote := hat₂.note (e := .returned cli.source item field (shown item out)) id
    have hp : Position.after { p with call := some cli.source }
        (.returned cli.source item field (shown item out)) = p := by
      obtain ⟨gate, lock, call⟩ := p
      exact congrArg (Position.mk gate lock) hcall.symm
    rwa [hp] at hnote
  have hs₃ : Since t 0 s₂ (s₂.note t (.returned cli.source item field (shown item out))) :=
    .note nofun nofun
  refine ⟨hat₃, ((Ran.of_since hs₁).trans hran₂).trans (.of_since hs₃), s₂.did_push_self t _ _,
    fun hnone h x hx hxt => ?_⟩
  rcases List.mem_cons.mp hx with rfl | hx
  · exact fun hover => (value_of_handsOver hover).elim hnone
  · exact hunfetched h x hx hxt

theorem ls_spec (hat : At t p s) (hl : p.lock = false) (hu : Usable env cli t p s) :
    env.rules.wp t cli.ls (fun _ s' => At t p s' ∧ Ran t cli.source s s') s := by
  refine Rules.wp_seq (run_spec _ _ hat hl hu) ?_
  rintro out s₁ ⟨hat₁, hran₁, -⟩
  refine wp_note hat₁.undecided (fun _ => isItemId_of_parsed) ?_
  have hs₂ : Since t 0 s₁ (s₁.note t (.listed cli.source (parsed out))) := .note nofun nofun
  exact ⟨hat₁.note (e := .listed cli.source (parsed out)) id, hran₁.trans (.of_since hs₂)⟩

end LpassCli

end LastpassSshAgent
