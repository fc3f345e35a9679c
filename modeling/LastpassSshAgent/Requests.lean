import LastpassSshAgent.Clients

/-!
# Signing requests keep the rules

Each function of the signing path, from the passphrase up to the whole request, is
run from where a thread may call it, and leaves on record what the next one needs.
-/

namespace LastpassSshAgent

open Resumption

variable {env : Env} {t : ℕ} {s s' : Stage runtime} {g : Bool} {job : Job} {item : String}

/-- Between calls a request holds at most the gate. -/
abbrev free (g : Bool) : Position := ⟨g, false, none⟩

theorem interacting_of_at (hat : At t (free true) s) : Interacting s t :=
  ⟨hat.gate.mpr rfl, hat.unlocked rfl, hat.call⟩

theorem Matched.serves (h : Matched s t env item) : ∃ job, Serves s t env job := by
  obtain ⟨job, key, hjob, -⟩ := h
  exact ⟨job, hjob⟩

/-! ### The passphrase -/

namespace Unlocker

variable {entry : KeyEntry} {encrypted : PrivateKey}

theorem fromSaved_some {unlocker : Unlocker} {saved : Except String (Option Bytes)}
    {key : PrivateKey} (h : unlocker.fromSaved encrypted saved = some key) :
    ∃ secret, unlocker.ssh.decrypt encrypted secret = .ok key := by
  unfold fromSaved at h
  split at h
  · rename_i secret
    split_ifs at h
    refine ⟨secret, ?_⟩
    cases hd : unlocker.ssh.decrypt encrypted secret with
    | error e => simp [hd, Except.toOption] at h
    | ok key' => simpa [hd, Except.toOption] using h
  · cases h

theorem ask_spec (hat : At t (free g) s) (hm : Matched s t env item) :
    env.rules.wp t (env.unlocker.ask entry g)
      (fun r s' => At t (free r.2) s' ∧ r.2 = true ∧ Since t 0 s s') s := by
  refine wp_enter (p := free g) hat rfl (fun _ => hm.serves) ?_
  intro s₁ hat₁ hs₁ _ _
  refine wp_call nofun nofun hat₁ ⟨interacting_of_at hat₁, item, hm.mono hs₁.history⟩ nofun nofun ?_
  intro a s₂ h
  have hs₂ : Since t 0 s s₂ := hs₁.trans h.since
  rcases a with e | typed
  · exact ⟨h.at id, rfl, hs₂⟩
  · dsimp only
    split_ifs
    · exact ⟨h.at id, rfl, hs₂⟩
    · exact ⟨h.at id, rfl, hs₂⟩

/-- What unlocking leaves behind: the key, when there is one, came of the encrypted one. -/
structure Unlocked (env : Env) (t : ℕ) (encrypted : PrivateKey)
    (r : Except String PrivateKey × Bool) (s s' : Stage runtime) : Prop where
  at' : At t (free r.2) s'
  since : Since t 0 s s'
  key : ∀ key, r.1 = .ok key → ∃ secret, env.ssh.decrypt encrypted secret = .ok key

theorem askAndSave_spec (hat : At t (free g) s) (hm : Matched s t env item) :
    env.rules.wp t (env.unlocker.askAndSave entry encrypted g)
      (fun r s' => Unlocked env t encrypted r s s') s := by
  refine Rules.wp_seq (ask_spec hat hm) ?_
  rintro ⟨e | typed, gate⟩ s₁ ⟨hat₁, hgate, hs₁⟩
  · exact ⟨hat₁, hs₁, nofun⟩
  dsimp only at hat₁ hgate ⊢
  subst hgate
  cases hd : decrypt env.unlocker.ssh encrypted typed with
  | error e => exact ⟨hat₁, hs₁, nofun⟩
  | ok key =>
    refine wp_call nofun nofun hat₁ ⟨interacting_of_at hat₁, item, hm.mono hs₁.history⟩
      nofun nofun ?_
    intro a s₂ h
    refine ⟨h.at id, hs₁.trans h.since, fun key' hkey => ?_⟩
    exact Except.ok.inj hkey ▸ ⟨typed, decrypt_eq_ok.mp hd⟩

theorem unlockFromStore_spec (hat : At t (free g) s) (hm : Matched s t env item) :
    env.rules.wp t (env.unlocker.unlockFromStore entry encrypted g)
      (fun r s' => Unlocked env t encrypted r s s') s := by
  refine wp_enter (p := free g) hat rfl (fun _ => hm.serves) ?_
  intro s₁ hat₁ hs₁ _ _
  refine wp_call nofun nofun hat₁ ⟨interacting_of_at hat₁, item, hm.mono hs₁.history⟩ nofun nofun ?_
  intro saved s₂ h
  have hs₂ : Since t 0 s s₂ := hs₁.trans h.since
  split
  · rename_i key hkey
    refine ⟨h.at id, hs₂, fun key' hkey' => ?_⟩
    exact Except.ok.inj hkey' ▸ fromSaved_some hkey
  · refine Rules.wp_mono (askAndSave_spec (h.at id) (hm.mono hs₂.history)) ?_
    exact fun _ _ hu => ⟨hu.at', hs₂.trans hu.since, hu.key⟩

theorem fallBack_spec (hat : At t (free g) s) (hm : Matched s t env item) :
    env.rules.wp t (env.unlocker.fallBack entry encrypted g)
      (fun r s' => Unlocked env t encrypted r s s') s := by
  unfold fallBack
  split
  · exact ⟨hat, .refl t s, nofun⟩
  · refine Rules.wp_seq (ask_spec hat hm) ?_
    rintro ⟨answer, gate⟩ s₁ ⟨hat₁, -, hs₁⟩
    refine ⟨hat₁, hs₁, fun key hkey => ?_⟩
    rcases answer with e | typed
    · cases hkey
    · exact ⟨typed, decrypt_eq_ok.mp hkey⟩
  · exact unlockFromStore_spec hat hm
  · exact unlockFromStore_spec hat hm

theorem unlock_spec (hat : At t (free g) s) (hm : Matched s t env entry.itemId) :
    env.rules.wp t (env.unlocker.unlock entry encrypted g)
      (fun r s' => Unlocked env t encrypted r s s') s := by
  have hfield : "Passphrase" ≠ "Private Key" := by decide
  refine Rules.wp_seq (LpassCli.showField_spec hat rfl rfl nofun (fun h => absurd h hfield)
    (fun _ => hm) (fun h => absurd h hfield)) ?_
  rintro (e | stored) s₁ h₁
  · exact ⟨h₁.at', h₁.ran.since nofun, nofun⟩
  have hs₁ : Since t 0 s s₁ := h₁.ran.since nofun
  dsimp only
  split_ifs
  · refine Rules.wp_mono (fallBack_spec h₁.at' (hm.mono hs₁.history)) ?_
    exact fun _ _ hu => ⟨hu.at', hs₁.trans hu.since, hu.key⟩
  · exact ⟨h₁.at', hs₁, fun key hkey => ⟨stored, decrypt_eq_ok.mp hkey⟩⟩

end Unlocker

namespace LpassAgent

/-! ### Approval -/

/-- What asking for approval leaves behind: an answer to go on with, or a denial
after which nothing has changed. -/
structure Judged (t : ℕ) (job : Job) (r : Except AgentError Answer × Bool)
    (s s' : Stage runtime) : Prop where
  stands : Stands t (free r.2) s'
  since : Since t 0 s s'
  answer : ∀ answer, r.1 = .ok answer →
    Undecided s' t ∧ Answered s' t job answer ∧ Approved s' t job
  denied : r.1 = .error .failure → Idle s' t

theorem Judged.since_trans {s₁ : Stage runtime} {r : Except AgentError Answer × Bool}
    (hs : Since t 0 s s₁) (h : Judged t job r s₁ s') : Judged t job r s s' :=
  ⟨h.stands, hs.trans h.since, h.answer, h.denied⟩

theorem namedBindings_spec (hat : At t (free g) s) (hi : Untried s t) :
    env.rules.wp t (env.session job.peer job.bindings).namedBindings
      (fun named s' => At t (free g) s' ∧ Since t 0 s s' ∧ Untried s' t ∧
        ∃ names, named = nameBindings job.bindings names) s := by
  unfold namedBindings
  split_ifs with hempty
  · have hnil : job.bindings = [] := List.isEmpty_iff.mp hempty
    exact ⟨hat, .refl t s, hi, [], by rw [hnil]; rfl⟩
  · exact wp_call nofun nofun hat trivial nofun nofun fun names s' h =>
      ⟨h.at id, h.since, h.untried nofun hi, names, rfl⟩

theorem about_context (w : World) (names : List (Option String)) :
    About env job ((env.session job.peer job.bindings).context w job.entry
      (nameBindings job.bindings names)) := ⟨w.processes, names, rfl⟩

theorem answerRemembered_spec {ctx : ConfirmContext} {answered : String × ℕ} (hat : At t (free g) s)
    (hserve : Serves s t env job) (habout : About env job ctx)
    (ha : rememberedAnswer s.shared ctx = some answered) :
    env.rules.wp t (answerRemembered answered g) (fun r s' => Judged t job r s s') s := by
  obtain ⟨question, hquestion, hq⟩ := Option.bind_eq_some_iff.mp ha
  obtain ⟨epoch, hrecalled, rfl⟩ := Option.map_eq_some_iff.mp hq
  refine wp_note hat.undecided ⟨⟨job, ctx, hserve, habout, hquestion⟩, hrecalled⟩ ?_
  have hat₁ : At t (free g) (s.note t (.recalled question epoch)) :=
    hat.note (e := .recalled question epoch) id
  have hdid := s.did_push_self t (.noted (.recalled question epoch)) s.shared
  refine ⟨hat₁.toStands, .note nofun nofun, ?_, nofun⟩
  rintro answer heq
  obtain rfl := Except.ok.inj heq
  exact ⟨hat₁.undecided, ⟨question, hdid⟩, .inr (.inr ⟨_, _, hdid⟩)⟩

theorem confirm_spec {ctx : ConfirmContext} (hat : At t (free true) s) (hi : Untried s t)
    (hserve : Serves s t env job) (habout : About env job ctx) :
    env.rules.wp t (confirm ctx true) (fun r s' => Judged t job r s s') s := by
  refine wp_call nofun nofun hat ⟨interacting_of_at hat, hi, job, hserve, habout⟩ nofun nofun ?_
  intro decision s' h
  cases decision with
  | approve =>
    have hat' : At t (free true) s' := h.at nofun
    refine ⟨hat'.toStands, h.since, ?_, nofun⟩
    rintro answer heq
    obtain rfl := Except.ok.inj heq
    exact ⟨hat'.undecided, ⟨hat'.gate.mpr rfl, ctx, _, h.entry, rfl, rfl, rfl, rfl⟩,
      .inr (.inl ⟨ctx, _, h.entry, rfl, rfl⟩)⟩
  | deny => exact ⟨h.toStands, h.since, nofun, fun _ => h.idle hi.idle⟩

theorem approvalUnderGate_spec (names : List (Option String)) (hat : At t (free g) s)
    (hi : Untried s t) (hserve : Serves s t env job) :
    env.rules.wp t ((env.session job.peer job.bindings).approvalUnderGate job.entry
      (nameBindings job.bindings names) g) (fun r s' => Judged t job r s s') s := by
  refine wp_enter (p := free g) hat rfl (fun _ => ⟨job, hserve⟩) ?_
  intro s₁ hat₁ hs₁ hi₁ _
  have hserve₁ := hserve.mono hs₁.history
  refine (Rules.wp_get _ _ _).mpr ?_
  split
  · rename_i answered ha
    refine Rules.wp_mono (answerRemembered_spec hat₁ hserve₁ (about_context _ names) ha) ?_
    exact fun _ _ => .since_trans hs₁
  · refine Rules.wp_mono (confirm_spec hat₁ (hi₁ hi) hserve₁ (about_context _ names)) ?_
    exact fun _ _ => .since_trans hs₁

theorem approvalFor_spec (hat : At t (free g) s) (hi : Untried s t) (hserve : Serves s t env job) :
    env.rules.wp t ((env.session job.peer job.bindings).approvalFor job.entry g)
      (fun r s' => Judged t job r s s') s := by
  refine Rules.wp_seq (namedBindings_spec hat hi) ?_
  rintro _ s₁ ⟨hat₁, hs₁, hi₁, names, rfl⟩
  have hserve₁ := hserve.mono hs₁.history
  refine (Rules.wp_get _ _ _).mpr ?_
  split
  · rename_i answered ha
    refine Rules.wp_mono (answerRemembered_spec hat₁ hserve₁ (about_context _ names) ha) ?_
    exact fun _ _ => .since_trans hs₁
  · refine Rules.wp_mono (approvalUnderGate_spec names hat₁ hi₁ hserve₁) ?_
    exact fun _ _ => .since_trans hs₁

theorem answerFor_spec (hat : At t (free g) s) (hi : Untried s t) (hserve : Serves s t env job) :
    env.rules.wp t ((env.session job.peer job.bindings).answerFor job.entry g)
      (fun r s' => Judged t job r s s') s := by
  unfold answerFor
  split_ifs with hconfirm
  · exact approvalFor_spec hat hi hserve
  · have hoff : job.entry.confirm = false := by simpa using hconfirm
    refine ⟨hat.toStands, .refl t s, ?_, nofun⟩
    rintro answer heq
    obtain rfl := Except.ok.inj heq
    exact ⟨hat.undecided, hoff, .inl hoff⟩

theorem answerFor_emits (agent : LpassAgent) (entry : KeyEntry) :
    (agent.answerFor entry g).Emits fun act => ¬ HandsOver act := by
  have hawait : ∀ q : Query, (await q).Emits fun act => ¬ HandsOver act :=
    fun _ => ⟨id, fun _ => ⟨id, trivial⟩⟩
  have hworld : world.Emits fun act => ¬ HandsOver act := fun _ => trivial
  have hrecall : ∀ answered, (answerRemembered answered g).Emits fun act => ¬ HandsOver act :=
    fun _ => ⟨id, trivial⟩
  have hunder : ∀ named, (agent.approvalUnderGate entry named g).Emits fun act => ¬ HandsOver act := by
    intro named
    have henter : (InteractionGate.enter g).Emits fun act => ¬ HandsOver act := by
      cases g
      · exact (hawait .gate).bind fun _ => trivial
      · trivial
    refine henter.bind fun gate => hworld.bind fun w => ?_
    split
    · exact ⟨id, trivial⟩
    · refine (hawait _).bind fun decision => ?_
      cases decision
      · exact fun _ => trivial
      · trivial
  unfold answerFor
  split_ifs
  · have hnamed : agent.namedBindings.Emits fun act => ¬ HandsOver act := by
      unfold namedBindings
      split_ifs
      · trivial
      · exact (hawait _).bind fun _ => trivial
    refine hnamed.bind fun named => hworld.bind fun w => ?_
    split
    · exact hrecall _
    · exact hunder named
  · trivial

/-! ### The private key -/

/-- What fetching leaves behind. The request is said to have asked when it has. -/
structure FetchDone (t : ℕ) (job : Job) (r : Fetch × Bool) (s s' : Stage runtime) : Prop where
  at' : At t (free r.2) s'
  asked : ∃ n, Since t n s s' ∧ (r.1.asked = true ↔ 0 < n) ∧
    (0 < n → s'.Did t (.noted .asked))
  key : ∀ pem, r.1.key = .ok pem →
    ∃ source, s'.Did t (.noted (.returned source job.entry.itemId "Private Key" (.ok pem)))

theorem private_ne_passphrase : "Private Key" ≠ "Passphrase" := by decide

theorem fetchAsking_spec (hat : At t (free g) s) (hc : Cleared s t env job.entry.itemId)
    (hfirst : Unfetched s t) (peer : Option PeerInfo) (bindings : List SessionBinding) :
    env.rules.wp t ((env.session peer bindings).fetchAsking job.entry g)
      (fun r s' => FetchDone t job r s s') s := by
  have hserve : ∃ job, Serves s t env job := by
    obtain ⟨job', h, -⟩ := hc
    exact ⟨job', h⟩
  refine wp_enter (p := free g) hat rfl (fun _ => hserve) ?_
  intro s₁ hat₁ hs₁ _ hfirst₁
  have hc₁ := hc.mono hs₁.history
  refine (Rules.wp_get _ _ _).mpr ?_
  refine Rules.wp_seq (LpassCli.showField_spec hat₁ rfl rfl
    (fun _ => ⟨rfl, _, hc₁⟩) (fun _ => hc₁) (fun h => absurd h private_ne_passphrase)
    (fun _ => hfirst₁ hfirst)) ?_
  intro key s₂ h
  obtain ⟨n, hn, hdid⟩ := h.ran
  have hunlocks : s₂.shared.epoch.unlocks = s₁.shared.epoch.unlocks + n :=
    hn.unlocks (hat₁.gate.mpr rfl)
  refine (Rules.wp_get _ _ _).mpr ⟨h.at', ⟨n, Nat.zero_add n ▸ hs₁.trans hn, ?_, ?_⟩, ?_⟩
  · simp [hunlocks, Nat.pos_iff_ne_zero]
  · exact fun hpos => (hdid hpos).2
  · rintro pem rfl
    exact ⟨_, h.returned⟩

theorem fetchPrivateKey_spec (hat : At t (free g) s) (hc : Cleared s t env job.entry.itemId)
    (hfirst : Unfetched s t) (peer : Option PeerInfo) (bindings : List SessionBinding) :
    env.rules.wp t ((env.session peer bindings).fetchPrivateKey job.entry g)
      (fun r s' => FetchDone t job r s s') s := by
  refine Rules.wp_seq (LpassCli.showField_spec hat rfl rfl nofun
    (fun _ => hc) (fun h => absurd h private_ne_passphrase) (fun _ => hfirst)) ?_
  intro key s₁ h
  have hs₁ : Since t 0 s s₁ := h.ran.since nofun
  split
  · refine Rules.wp_mono (fetchAsking_spec h.at' (hc.mono hs₁.history)
      (h.unfetched nofun hfirst) peer bindings) ?_
    rintro r s₂ ⟨hat₂, ⟨n, hn, hasked, hdid⟩, hkey⟩
    exact ⟨hat₂, ⟨n, Nat.zero_add n ▸ hs₁.trans hn, hasked, hdid⟩, hkey⟩
  · refine ⟨h.at', ⟨0, hs₁, by simp, nofun⟩, ?_⟩
    rintro pem rfl
    exact ⟨_, h.returned⟩

variable {agent : LpassAgent}

theorem discardRemembered_spec {why : String} (hat : At t (free g) s)
    (hserve : Serves s t env job) :
    env.rules.wp t (agent.discardRemembered job.entry.itemId why)
      (fun _ s' => At t (free g) s' ∧ Since t 0 s s') s := by
  unfold discardRemembered
  split
  · exact ⟨hat, .refl t s⟩
  · exact ⟨⟨.inl hat.undecided, job, hserve, rfl⟩,
      hat.note (e := .discarded job.entry.itemId why) id, .note nofun nofun⟩

/-! ### The signature -/

structure SignDone (t : ℕ) (env : Env) (job : Job) (r : Except String Signature × Bool)
    (s s' : Stage runtime) : Prop where
  at' : At t (free r.2) s'
  since : Since t 0 s s'
  signs : ∀ signature, r.1 = .ok signature → Signs s' t env job signature

variable {peer : Option PeerInfo} {bindings : List SessionBinding}

theorem signMatched_spec {key : PrivateKey} (hat : At t (free g) s)
    (hserve : Serves s t env job) (ha : Approved s t job) (hk : Fetched s t env job key) :
    env.rules.wp t ((env.session peer bindings).signMatched job.entry key job.request.data
      job.request.flags g) (fun r s' => SignDone t env job r s s') s := by
  unfold signMatched
  split_ifs
  · have hm : Matched s t env job.entry.itemId := ⟨job, key, hserve, ha, hk, rfl⟩
    refine Rules.wp_seq (Unlocker.unlock_spec hat hm) ?_
    rintro ⟨unlocked, gate⟩ s₁ h
    refine ⟨h.at', h.since, fun signature hsign => ?_⟩
    rcases unlocked with e | key'
    · cases hsign
    · obtain ⟨secret, hsecret⟩ := h.key key' rfl
      exact ⟨key, key', hk.mono h.since.history, .inr ⟨secret, hsecret⟩, mapError_eq_ok.mp hsign⟩
  · exact ⟨hat, .refl t s, fun signature hsign => ⟨key, key, hk, .inl rfl, mapError_eq_ok.mp hsign⟩⟩

theorem signFetched_spec {pem : Bytes} (hat : At t (free g) s) (hserve : Serves s t env job)
    (ha : Approved s t job)
    (hpem : ∃ source, s.Did t (.noted (.returned source job.entry.itemId "Private Key" (.ok pem)))) :
    env.rules.wp t ((env.session peer bindings).signFetched job.entry pem job.request.data
      job.request.flags g) (fun r s' => SignDone t env job r s s') s := by
  unfold signFetched
  split_ifs
  · exact ⟨hat, .refl t s, nofun⟩
  split
  · exact ⟨hat, .refl t s, nofun⟩
  · rename_i key hkey
    split_ifs with hmatch
    · obtain ⟨source, hdid⟩ := hpem
      exact signMatched_spec hat hserve ha ⟨source, pem, hdid, hkey, hmatch⟩
    · refine Rules.wp_seq (discardRemembered_spec hat hserve) ?_
      exact fun _ s₁ h => ⟨h.1, h.2, nofun⟩

theorem signWith_spec {fetched : Except LpassError Bytes} (hat : At t (free g) s)
    (hserve : Serves s t env job) (ha : Approved s t job)
    (hpem : ∀ pem, fetched = .ok pem →
      ∃ source, s.Did t (.noted (.returned source job.entry.itemId "Private Key" (.ok pem)))) :
    env.rules.wp t ((env.session peer bindings).signWith job.entry fetched job.request.data
      job.request.flags g) (fun r s' => SignDone t env job r s s') s := by
  rcases fetched with e | pem
  · unfold signWith
    dsimp only
    split_ifs
    · refine Rules.wp_seq (discardRemembered_spec hat hserve) ?_
      exact fun _ s₁ h => ⟨h.1, h.2, nofun⟩
    · exact ⟨hat, .refl t s, nofun⟩
  · exact signFetched_spec hat hserve ha (hpem pem rfl)

/-! ### The request -/

/-- A request that has its result stands where it may be answered. -/
structure Decided (t : ℕ) (env : Env) (result : Except AgentError Signature) (g : Bool)
    (s s' : Stage runtime) : Prop where
  stands : Stands t (free g) s'
  since : ∃ n, Since t n s s'
  reply : MayReply s' t env result

theorem release_spec {answer : Answer} {asked : Bool} {signed : Except String Signature}
    (hat : At t (free g) s) (hserve : Serves s t env job) (ha : Answered s t job answer)
    (hasked : asked = true ↔ s.Did t (.noted .asked))
    (hsigns : ∀ signature, signed = .ok signature → Signs s t env job signature) :
    env.rules.wp t ((env.session peer bindings).release answer asked signed)
      (fun result s' => Decided t env result g s s') s := by
  refine (Rules.wp_get _ _ _).mpr ?_
  refine wp_note hat.undecided ⟨job, hserve, ha, hasked⟩ ?_
  have hs₁ : Since t 0 s (s.note t (.settled answer asked signed.isOk)) := .note nofun nofun
  have hstand₁ : Stands t (free g) (s.note t (.settled answer asked signed.isOk)) :=
    hat.toStands.note (.settled answer asked signed.isOk)
  have hfail : MayReply (s.note t (.settled answer asked signed.isOk)) t env (.error .failure) := by
    refine .inl ⟨⟨job, hserve.mono hs₁.history⟩, ⟨_, _, _, s.did_push_self t _ _⟩, ?_⟩
    rintro ctx ⟨x, hx, hxt, hxa⟩
    rcases List.mem_cons.mp hx with rfl | hx
    · cases hxa
    · have hno := hat.undecided x hx hxt
      rw [hxa] at hno
      exact hno rfl
  split
  · rename_i signature hverdict
    have hs₂ : Since t 0 (s.note t (.settled answer asked true))
        ((s.note t (.settled answer asked true)).note t .issued) := .note nofun nofun
    have hreleased : Released (s.note t (.settled answer asked true)) t :=
      ⟨_, List.mem_cons_self, rfl, answer, asked, rfl, hverdict⟩
    refine ⟨⟨.inr trivial, hreleased, ?_⟩, hstand₁.note .issued, ⟨0, hs₁.trans hs₂⟩, job, ?_, ?_, ?_⟩
    · rintro result ⟨x, hx, hxt, hxa⟩
      rcases List.mem_cons.mp hx with rfl | hx
      · cases hxa
      · have hno := hat.undecided x hx hxt
        rw [hxa] at hno
        exact hno trivial
    · exact hserve.mono (hs₁.trans hs₂).history
    · exact ⟨_, List.mem_cons_of_mem _ List.mem_cons_self, rfl, answer, asked, rfl, hverdict⟩
    · exact (hsigns signature rfl).mono (hs₁.trans hs₂).history
  · exact ⟨hstand₁, ⟨0, hs₁⟩, hfail⟩
  · exact ⟨hstand₁, ⟨0, hs₁⟩, hfail⟩

theorem signApproved_spec {answer : Answer} (hat : At t (free g) s) (hserve : Serves s t env job)
    (ha : Answered s t job answer) (happroved : Approved s t job)
    (hasked : ¬ s.Did t (.noted .asked)) (hfirst : Unfetched s t) :
    env.rules.wp t ((env.session peer bindings).signApproved job.entry job.request answer g)
      (fun r s' => Decided t env r.1 r.2 s s') s := by
  have hc : Cleared s t env job.entry.itemId := ⟨job, hserve, happroved, rfl⟩
  refine Rules.wp_seq (fetchPrivateKey_spec hat hc hfirst peer bindings) ?_
  rintro ⟨fetch, gate₁⟩ s₁ ⟨hat₁, ⟨n, hn, hasked₁, hdid⟩, hkey⟩
  refine Rules.wp_seq (signWith_spec hat₁ (hserve.mono hn.history) (happroved.mono hn.history)
    hkey) ?_
  rintro ⟨signed, gate₂⟩ s₂ h₂
  have hs₂ : Since t n s s₂ := hn.trans h₂.since
  have hiff : fetch.asked = true ↔ s₂.Did t (.noted .asked) := by
    constructor
    · exact fun h => (hdid (hasked₁.mp h)).mono h₂.since.history
    · intro h
      by_contra hno
      have h0 : n = 0 := Nat.eq_zero_of_not_pos fun hpos => hno (hasked₁.mpr hpos)
      exact (h0 ▸ hs₂).unasked hasked h
  have ha₂ : Answered s₂ t job answer := ha.mono hs₂.history hs₂.gate
  refine Rules.wp_seq (release_spec h₂.at' (hserve.mono hs₂.history) ha₂ hiff h₂.signs) ?_
  rintro result s₃ ⟨hstand, ⟨m, hm⟩, hreply⟩
  exact ⟨hstand, ⟨n + m, hs₂.trans hm⟩, hreply⟩

theorem signEntry_spec (hat : At t (free g) s) (hi : Untried s t) (hserve : Serves s t env job)
    (hasked : ¬ s.Did t (.noted .asked)) (hfirst : Unfetched s t) :
    env.rules.wp t ((env.session job.peer job.bindings).signEntry job.entry job.request g)
      (fun r s' => Decided t env r.1 r.2 s s') s := by
  refine Rules.wp_seq (Rules.wp_emits (answerFor_emits _ _) (answerFor_spec hat hi hserve)) ?_
  rintro ⟨⟨⟩ | answer, gate⟩ s₁ ⟨h₁, hown⟩
  · exact ⟨h₁.stands, ⟨0, h₁.since⟩, .inr (h₁.denied rfl)⟩
  · obtain ⟨hundecided, ha, happroved⟩ := h₁.answer answer rfl
    have hfirst₁ : Unfetched s₁ t := fun x hx hxt =>
      (hown.own hx hxt).elim (fun hx => hfirst x hx hxt) id
    refine Rules.wp_mono (signApproved_spec ⟨h₁.stands, hundecided⟩
      (hserve.mono h₁.since.history) ha happroved (h₁.since.unasked hasked) hfirst₁) ?_
    rintro r s₂ ⟨hstand, ⟨n, hn⟩, hreply⟩
    exact ⟨hstand, ⟨0 + n, h₁.since.trans hn⟩, hreply⟩

theorem signRequest_spec {request : SignRequest} (hat : At t (free g) s) (hi : Untried s t)
    (hstarted : ∃ x ∈ s.history, x.tid = t ∧ x.act = .started (.sign peer bindings request) ∧
      x.after = s.shared)
    (hasked : ¬ s.Did t (.noted .asked)) (hfirst : Unfetched s t) :
    env.rules.wp t ((env.session peer bindings).signRequest request g)
      (fun r s' => Decided t env r.1 r.2 s s') s := by
  obtain ⟨x, hx, hxt, hxa, hafter⟩ := hstarted
  refine (Rules.wp_get _ _ _).mpr ?_
  split
  · exact ⟨hat.toStands, ⟨0, .refl t s⟩, .inr hi.idle⟩
  · rename_i entry hlookup
    split_ifs with hbound
    · exact ⟨hat.toStands, ⟨0, .refl t s⟩, .inr hi.idle⟩
    · have hserve : Serves s t env ⟨peer, bindings, request, entry⟩ :=
        ⟨by simpa using hbound, x, hx, hxt, hxa, hafter ▸ hlookup⟩
      exact signEntry_spec hat hi hserve hasked hfirst

/-- What a thread's end has to find. -/
structure Closed (t : ℕ) (s s' : Stage runtime) : Prop where
  gate : s'.shared.gate ≠ some t
  lock : s'.shared.heldLock ≠ some t
  started : ∀ task, s'.Did t (.started task) → s.Did t (.started task)

theorem sign_spec {request : SignRequest} (hat : At t (free false) s) (hi : Untried s t)
    (hstarted : ∃ x ∈ s.history, x.tid = t ∧ x.act = .started (.sign peer bindings request) ∧
      x.after = s.shared)
    (hasked : ¬ s.Did t (.noted .asked)) (hfirst : Unfetched s t) :
    env.rules.wp t ((env.session peer bindings).sign request) (fun _ s' => Closed t s s') s := by
  refine Rules.wp_seq (signRequest_spec hat hi hstarted hasked hfirst) ?_
  rintro ⟨result, gate⟩ s₁ ⟨hstand, ⟨n, hn⟩, hreply⟩
  refine ⟨⟨.inr trivial, hreply⟩, ?_⟩
  have hstand₂ : Stands t (free gate) (s₁.note t (.replied result)) :=
    hstand.note (.replied result)
  have hdid : (s₁.note t (.replied result)).Did t (.noted (.replied result)) :=
    s₁.did_push_self t _ _
  cases gate with
  | false => exact ⟨hstand₂.ungated rfl, hstand₂.unlocked rfl,
      fun task h => hn.started task (started_note h)⟩
  | true =>
    refine ⟨⟨.inr trivial, hstand₂.gate.mpr rfl, result, hdid⟩, ?_⟩
    have hstand₃ : Stands t (free false) ((s₁.note t (.replied result)).note t .gateReleased) :=
      hstand₂.note .gateReleased
    exact ⟨hstand₃.ungated rfl, hstand₃.unlocked rfl,
      fun task h => hn.started task (started_note (started_note h))⟩

end LpassAgent

end LastpassSshAgent
