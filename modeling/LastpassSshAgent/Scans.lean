import LastpassSshAgent.Requests

/-!
# Every task keeps the rules

A scan goes through the client that cannot ask, and writes down only what it has
read itself. With that, and the signing path, the wired agent upholds its rules
under every schedule.
-/

namespace LastpassSshAgent

open Resumption

variable {env : Env} {t : ℕ} {s s' : Stage runtime}

/-! ### Discovery -/

theorem quiet_showField_spec {item field : String} (hat : At t (free false) s)
    (hprivate : field ≠ "Private Key") (hpassphrase : field ≠ "Passphrase") :
    env.rules.wp t (env.quiet.showField item field) (fun r s' => At t (free false) s' ∧
      Since t 0 s s' ∧ s'.Did t (.noted (.returned .heldOnly item field r))) s := by
  refine Rules.wp_mono (LpassCli.showField_spec hat rfl rfl nofun
    (fun h => absurd h hprivate) (fun h => absurd h hpassphrase) (fun h => absurd h hprivate)) ?_
  exact fun _ s₁ h => ⟨h.at', h.ran.since nofun, h.returned⟩

theorem joinProbes_spec (fuel : ℕ) (probes items found : List ItemSummary)
    (hat : At t (free false) s) :
    env.rules.wp t (joinProbes env.quiet fuel probes items found)
      (fun _ s' => At t (free false) s' ∧ Since t 0 s s') s := by
  induction fuel generalizing probes items found s with
  | zero => exact ⟨hat, .refl t s⟩
  | succ fuel ih =>
    unfold joinProbes
    dsimp only
    split_ifs with hempty
    · exact ⟨hat, .refl t s⟩
    have hpos : 0 < (probes ++ items.take (MAX_DISCOVERY_PROBES - probes.length)).length := by
      rw [List.length_pos_iff]
      exact fun hnil => hempty (List.isEmpty_iff.mpr hnil)
    refine wp_call (by simp) (by simp) hat trivial (by simp) ?_ ?_
    · rintro count hcount
      exact Query.nextProbe.inj hcount ▸ hpos
    intro index s₁ h₁
    split
    · exact ⟨h₁.at id, h₁.since⟩
    refine Rules.wp_seq (quiet_showField_spec (h₁.at id) (by decide) (by decide)) ?_
    rintro answer s₂ ⟨hat₂, hs₂, -⟩
    split
    · exact ⟨hat₂, h₁.since.trans hs₂⟩
    · refine Rules.wp_mono (ih _ _ _ hat₂) ?_
      exact fun _ s₃ h₃ => ⟨h₃.1, (h₁.since.trans hs₂).trans h₃.2⟩

theorem discoverSshKeyItems_spec (hat : At t (free false) s) :
    env.rules.wp t (discoverSshKeyItems env.quiet)
      (fun _ s' => At t (free false) s' ∧ Since t 0 s s') s := by
  refine Rules.wp_seq (LpassCli.ls_spec hat rfl nofun) ?_
  rintro (e | candidates) s₁ ⟨hat₁, hran₁⟩
  · exact ⟨hat₁, hran₁.since nofun⟩
  · refine Rules.wp_seq (joinProbes_spec _ _ _ _ hat₁) ?_
    exact fun _ s₂ h₂ => ⟨h₂.1, (hran₁.since nofun).trans h₂.2⟩

theorem effectiveKeys_spec (config : Config) (hat : At t (free false) s) :
    env.rules.wp t (effectiveKeys env.quiet config)
      (fun _ s' => At t (free false) s' ∧ Since t 0 s s') s := by
  unfold effectiveKeys
  split_ifs
  · refine Rules.wp_seq (discoverSshKeyItems_spec hat) ?_
    rintro (e | found) s₁ h₁
    · exact h₁
    · dsimp only
      split_ifs
      · exact h₁
      · exact h₁
  · exact ⟨hat, .refl t s⟩

/-! ### The scan -/

def ReadEntry (s : Stage runtime) (t : ℕ) (env : Env) (entry : KeyEntry) : Prop :=
  ∃ raw, s.Did t (.noted (.returned .heldOnly entry.itemId "Public Key" (.ok raw))) ∧
    accept env.ssh raw = .ok entry.publicKey

theorem ReadEntry.mono {entry : KeyEntry} (h : ReadEntry s t env entry)
    (hs : s.history <:+ s'.history) : ReadEntry s' t env entry := by
  obtain ⟨raw, h, hk⟩ := h
  exact ⟨raw, h.mono hs, hk⟩

theorem inspectKeys_spec (config : Config) (seen : Seen) (keys : List KeyConfig)
    (hat : At t (free false) s) :
    env.rules.wp t (inspectKeys env.ssh env.quiet config seen keys)
      (fun inspected s' => At t (free false) s' ∧ Since t 0 s s' ∧
        ∀ entry, .usable entry ∈ inspected → ReadEntry s' t env entry) s := by
  induction keys generalizing seen s with
  | nil => exact ⟨hat, .refl t s, nofun⟩
  | cons key keys ih =>
    refine Rules.wp_seq (quiet_showField_spec hat (by decide) (by decide)) ?_
    rintro answer s₁ ⟨hat₁, hs₁, hdid⟩
    refine Rules.wp_seq (ih _ hat₁) ?_
    rintro rest s₂ ⟨hat₂, hs₂, hrest⟩
    refine ⟨hat₂, hs₁.trans hs₂, fun entry hentry => ?_⟩
    rcases List.mem_cons.mp hentry with hfirst | hentry
    · obtain ⟨raw, publicKey, rfl, haccept, rfl⟩ := inspect_usable hfirst.symm
      exact ⟨raw, hdid.mono hs₂.history, haccept⟩
    · exact hrest entry hentry

theorem loadComplete_spec (config : Config) (keys : List KeyConfig) (hat : At t (free false) s) :
    env.rules.wp t (KeyStore.loadComplete env.ssh env.quiet config keys)
      (fun loaded s' => At t (free false) s' ∧ Since t 0 s s' ∧
        ∀ store, loaded = some store → ∀ entry ∈ store.entries, ReadEntry s' t env entry) s := by
  refine Rules.wp_seq (inspectKeys_spec config [] keys hat) ?_
  rintro inspected s₁ ⟨hat₁, hs₁, hread⟩
  refine ⟨hat₁, hs₁, fun store hstore entry hentry => ?_⟩
  obtain ⟨entries, hcollect, hfinish⟩ := Option.bind_eq_some_iff.mp hstore
  unfold KeyStore.finishComplete at hfinish
  split_ifs at hfinish
  obtain rfl := Option.some.inj hfinish
  exact hread entry (KeyStore.mem_collectComplete hcollect hentry)

theorem refreshNow_spec (hat : At t (free false) s) (hstart : s.Did t (.started .refresh)) :
    env.rules.wp t env.refresher.refreshNow
      (fun _ s' => At t (free false) s' ∧ Since t 0 s s') s := by
  refine Rules.wp_seq (Rules.wp_and_free (effectiveKeys_spec _ hat) effectiveKeys_free) ?_
  rintro (e | keys) s₁ ⟨⟨hat₁, hs₁⟩, hwanted⟩
  · exact ⟨hat₁, hs₁⟩
  refine Rules.wp_seq (Rules.wp_and_free (loadComplete_spec _ keys hat₁)
    KeyStore.loadComplete_free) ?_
  rintro (_ | store) s₂ ⟨⟨hat₂, hs₂, hread⟩, hloaded⟩
  · exact ⟨hat₂, hs₁.trans hs₂⟩
  have hs : Since t 0 s s₂ := hs₁.trans hs₂
  have hload : Loaded s₂ t .heldOnly env.ssh env.config store := by
    obtain ⟨hne, answers, hscan, hcollect⟩ := hloaded store rfl
    exact ⟨keys, answers, (hwanted keys rfl).mono hs₂.history, hscan, hcollect, hne⟩
  refine wp_note hat₂.undecided ⟨hstart.mono hs.history, hload⟩ ?_
  have hat₃ : At t (free false) (s₂.note t (.replaced store)) :=
    hat₂.note (e := .replaced store) id
  have hs₃ : Since t 0 s₂ (s₂.note t (.replaced store)) := .note nofun nofun
  refine ⟨⟨.inl hat₃.undecided, rfl, ?_, store, s₂.last_push_self t _ _, rfl⟩,
    hat₃.note (e := .saved _ _) id, (hs.trans hs₃).trans (Since.note (e := .saved _ _) nofun nofun)⟩
  intro listed hlisted
  obtain ⟨entry, hentry, rfl⟩ := List.mem_map.mp hlisted
  obtain ⟨raw, hdid, haccept⟩ := hread store rfl entry hentry
  exact ⟨raw, entry.publicKey, hdid.mono hs₃.history, haccept, rfl⟩

theorem scan_spec (hat : At t (free false) s) (hstart : s.Did t (.started .refresh)) :
    env.rules.wp t env.refresher.scan
      (fun _ s' => At t (free false) s' ∧ Since t 0 s s') s := by
  refine Rules.wp_seq (refreshNow_spec hat hstart) ?_
  rintro _ s₁ ⟨hat₁, hs₁⟩
  exact ⟨⟨.inl hat₁.undecided, trivial⟩, hat₁.note (e := .scanned) id,
    hs₁.trans (Since.note (e := .scanned) nofun nofun)⟩

/-! ### The wired agent -/

theorem live_of_locked (h : env.rules.Lawful env.Starts s)
    (hlock : s.shared.gate = some t ∨ s.shared.heldLock = some t) : s.Live t := by
  induction h with
  | start hx =>
    rcases hlock with hlock | hlock
    · exact absurd (hx.gate.symm.trans hlock) nofun
    · exact absurd (hx.heldLock.symm.trans hlock) nofun
  | @act s s' u act _ hl ih =>
    by_cases hut : u = t
    · subst hut
      refine ⟨act, hl.last_self, ?_⟩
      rintro rfl
      cases hl with
      | ended _ hr => exact hlock.elim hr.2.1 hr.2.2.1
    · have hspares := spares_of_legal hl hut
      obtain ⟨act', hlast, hact⟩ := ih (hlock.imp hspares.gate.mp hspares.lock.mp)
      exact ⟨act', (hl.last_of_ne hut).trans hlast, hact⟩
  | drift d _ ih =>
    have hspares := World.Spares.drift t d
    exact ih (hlock.imp (hspares _).gate.mp (hspares _).lock.mp)

theorem at_start {task : Task} {x : World} (h : env.rules.Lawful env.Starts s)
    (hlast : s.last t = none) (hx : World.launch task s.shared = some x) :
    At t (free false) (s.push t (.started task) x) := by
  have hfree : ∀ act, s.last t ≠ some act := fun act ha => nomatch hlast.symm.trans ha
  have hlive : ¬ s.Live t := fun ⟨act, ha, _⟩ => hfree act ha
  have hspares := World.Spares.launch hx t
  refine ⟨⟨?_, ?_, ?_⟩, ?_⟩
  · refine iff_of_false (fun hg => hlive (live_of_locked h (.inl (hspares.gate.mp hg)))) nofun
  · refine iff_of_false (fun hl => hlive (live_of_locked h (.inr (hspares.lock.mp hl)))) nofun
  · have hfilter : (s.history.filter fun y => y.tid == t) = [] := by
      rw [List.filter_eq_nil_iff]
      intro y hy
      simpa using Stage.last_eq_none.mp hlast y hy
    rw [calling_push, calling, hfilter]
    rfl
  · intro y hy hyt
    rcases List.mem_cons.mp hy with rfl | hy
    · exact id
    · exact absurd hyt (Stage.last_eq_none.mp hlast y hy)

theorem own_start {task : Task} {x : World} {act : Act runtime} (hlast : s.last t = none)
    (h : (s.push t (.started task) x).Did t act) : act = .started task := by
  obtain ⟨y, hy, hyt, rfl⟩ := h
  rcases List.mem_cons.mp hy with rfl | hy
  · rfl
  · exact absurd hyt (Stage.last_eq_none.mp hlast y hy)

theorem ended_of_at (hat : At t (free false) s) (hf : ¬ s.Did t (.started .forget)) :
    env.rules.allowed s t .ended :=
  ⟨.inl hat.undecided, hat.ungated rfl, hat.unlocked rfl, fun h => absurd h hf⟩

/-- Every task of the wired agent keeps the rules. -/
theorem Env.upheld (env : Env) : env.rules.Upheld env.Starts env.code := by
  intro task t s x h hlast hx
  have hat : At t (free false) (s.push t (.started task) x) := at_start h hlast hx
  have hforget : task ≠ .forget → ∀ {s'}, Since t 0 (s.push t (.started task) x) s' →
      ¬ s'.Did t (.started .forget) := fun hne _ hs hd =>
    hne (Act.started.inj (own_start hlast (hs.started _ hd))).symm
  cases task with
  | sign peer bindings request =>
    have hxs : x = s.shared := (Option.some.inj hx).symm
    have hnew : Untried s t :=
      ⟨fun y hy hyt => absurd hyt (Stage.last_eq_none.mp hlast y hy),
        fun y hy hyt => absurd hyt (Stage.last_eq_none.mp hlast y hy)⟩
    have hi : Untried (s.push t (.started (.sign peer bindings request)) x) t :=
      hnew.push (hxs ▸ rfl) nofun
    have hfirst : Unfetched (s.push t (.started (.sign peer bindings request)) x) t := by
      intro y hy hyt
      rw [own_start hlast ⟨y, hy, hyt, rfl⟩]
      exact id
    refine Rules.wp_mono (LpassAgent.sign_spec hat hi ⟨_, List.mem_cons_self, rfl, rfl, rfl⟩
      (fun hd => nomatch own_start hlast hd) hfirst) ?_
    intro _ s' hclosed
    refine ⟨.inr trivial, hclosed.gate, hclosed.lock, fun hd => ?_⟩
    exact nomatch own_start hlast (hclosed.started _ hd)
  | refresh =>
    refine Rules.wp_mono (scan_spec hat (s.did_push_self t _ x)) ?_
    exact fun _ s' hdone => ended_of_at hdone.1 (hforget nofun hdone.2)
  | probe item =>
    refine Rules.wp_seq (quiet_showField_spec hat (by decide) (by decide)) ?_
    exact fun _ s' hdone => ended_of_at hdone.1 (hforget nofun hdone.2.1)
  | forget =>
    refine Rules.wp_mono (Unlock.forget_spec hat rfl) ?_
    rintro _ s' ⟨hat', -, hdid⟩
    exact ⟨.inl hat'.undecided, hat'.ungated rfl, hat'.unlocked rfl, fun _ => hdid⟩
  | expire =>
    refine Rules.wp_mono (Unlock.expireIfIdle_spec hat rfl) ?_
    exact fun _ s' hdone => ended_of_at hdone.1 (hforget nofun hdone.2)

/-- What every schedule of the wired agent leads to. -/
theorem Env.orderly {env : Env} {P : Pool runtime} (h : env.Reachable P) :
    env.rules.Orderly env.Starts P := env.upheld.orderly h

end LastpassSshAgent
