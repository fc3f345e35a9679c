import LastpassSshAgent.Histories
import LastpassSshAgent.Start

/-!
# No key is lost because the vault could not answer

A scan that comes to no set leaves everything as it was. One that replaces the served
set has every key it was for, but those the vault gave its verdict on, and writes down
what it serves. A start or a list writes a set down only with every key in it.
-/

namespace LastpassSshAgent

open Resumption

variable {ssh : Ssh} {toml : Toml} {config : Config} {client : LpassCli} {t : ℕ}
  {s s' : Stage runtime}

/-! ### A run with nothing else running -/

def Unchanged (w w' : World) : Prop := w'.served = w.served ∧ w'.identities = w.identities

theorem unchanged_of_runs {α : Type} {p : Async α} {a : α} (h : Runs t p s a s')
    (hp : p.Emits Sparing) : Unchanged s.shared s'.shared := by
  refine h.rel (fun _ => ⟨rfl, rfl⟩) ?_ (fun e w he => he w) ?_ hp
  · exact fun _ _ _ hxy hyz => ⟨hyz.1.trans hxy.1, hyz.2.trans hxy.2⟩
  · intro q a w w' heffect
    rw [World.effect_eq heffect]
    exact ⟨rfl, rfl⟩

/-- What `w'` serves has every key the scan of thread `t` was for, but those the vault
gave its verdict on, and is what the file gets where it can be written. -/
structure Replaced (s' : Stage runtime) (t : ℕ) (refresher : Refresher) (w : World) : Prop where
  complete : Complete s' t refresher.client.source refresher.ssh refresher.config s'.shared.served
  written : s'.shared.identities = Identities.save s'.shared.diskWorks
    (Identities.encode refresher.toml (s'.shared.served.remember refresher.ssh)) w.identities

theorem Unchanged.trans {w w' w'' : World} (h : Unchanged w w') (h' : Unchanged w' w'') :
    Unchanged w w'' := ⟨h'.1.trans h.1, h'.2.trans h.2⟩

theorem refreshNow_runs {refresher : Refresher} (h : Runs t refresher.refreshNow s () s') :
    Unchanged s.shared s'.shared ∨ Replaced s' t refresher s.shared := by
  obtain ⟨keys, s₁, hkeys, h⟩ := runs_bind.mp h
  have hwanted := Rules.wp_runs hkeys effectiveKeys_free
  have hspared := unchanged_of_runs hkeys effectiveKeys_emits
  cases keys with
  | error e =>
    cases h
    exact .inl hspared
  | ok keys =>
    obtain ⟨loaded, s₂, hloaded, h⟩ := runs_bind.mp h
    obtain ⟨hload, hhistory⟩ :=
      Rules.wp_runs hloaded (Rules.wp_history KeyStore.loadComplete_free)
    have hspared₂ := hspared.trans (unchanged_of_runs hloaded (KeyStore.loadComplete_emits keys))
    cases loaded with
    | none =>
      cases h
      exact .inl hspared₂
    | some store =>
      obtain ⟨-, answers, hscan, hcollect⟩ := hload store rfl
      have hends : Runs (I := runtime) t (.emit (Event.replaced store) (.emit (Event.saved (store.remember refresher.ssh)
          (Identities.encode refresher.toml (store.remember refresher.ssh))) (.done ())))
          s₂ () s' := h
      cases hends with
      | emit h =>
        cases h with
        | emit h =>
          cases h
          refine .inr ⟨⟨keys, ?_, ?_⟩, ?_⟩
          · exact (hwanted keys rfl).mono
              (hhistory.trans ((List.suffix_cons _ _).trans (List.suffix_cons _ _)))
          · exact (hscan.mono ((List.suffix_cons _ _).trans (List.suffix_cons _ _))).held hcollect
          · change Identities.save _ _ s₂.shared.identities = _
            rw [hspared₂.2]
            rfl

/-! ### The commands -/

/-- What a command leaves: the served set, and the file either as it was or holding every
key the scan was for. -/
structure Listed (s' : Stage runtime) (t : ℕ) (command : Command) (w : World) : Prop where
  served : s'.shared.served = w.served
  file : s'.shared.identities = w.identities ∨ ∃ keys store,
    Wanted s' t command.client.source command.config keys ∧
    (∀ key ∈ keys, Holds s' t command.client.source command.ssh command.config store key) ∧
    s'.shared.identities = Identities.save s'.shared.diskWorks
      (Identities.encode command.toml (store.remember command.ssh)) w.identities

variable {command : Command}

theorem Unchanged.listed (h : Unchanged s.shared s'.shared) : Listed s' t command s.shared :=
  ⟨h.1, .inl h.2⟩

theorem scannedStore_free : Rules.free.wp t command.scannedStore (fun r s' => ∀ store wanted,
    r = .ok (store, wanted) → ∃ keys answers, wanted = keys.length ∧
      Wanted s' t command.client.source command.config keys ∧
      Scan s' t command.client.source keys answers ∧
      KeyStore.collect (inspectAnswers command.ssh command.config [] answers) =
        .ok store.entries) s := by
  refine Rules.wp_seq effectiveKeys_free fun keys s₁ hwanted => ?_
  cases keys with
  | error e => exact fun store wanted h => nomatch h
  | ok keys =>
    refine Rules.wp_seq (Rules.wp_history KeyStore.load_free) fun loaded s₂ hload => ?_
    intro store wanted h
    cases loaded with
    | error e => cases h
    | ok loaded =>
      obtain ⟨rfl, rfl⟩ := Prod.mk.inj (Except.ok.inj h)
      obtain ⟨answers, hscan, hcollect⟩ := hload.1 loaded rfl
      exact ⟨keys, answers, rfl, (hwanted keys rfl).mono hload.2, hscan, hcollect⟩

theorem scannedStore_emits : command.scannedStore.Emits Sparing := by
  refine effectiveKeys_emits.bind ?_
  rintro (e | keys)
  · trivial
  · exact (KeyStore.load_emits keys).bind fun _ => trivial

/-- The count never goes below zero, and what is written has every key. -/
theorem rememberIfComplete_runs {keys : List KeyConfig} {store : KeyStore}
    {answers : List (KeyConfig × Except LpassError Bytes)} {r : Except Panic Unit}
    (hwanted : Wanted s t command.client.source command.config keys)
    (hscan : Scan s t command.client.source keys answers)
    (hcollect : KeyStore.collect (inspectAnswers command.ssh command.config [] answers) =
      .ok store.entries)
    (h : Runs t (command.rememberIfComplete store keys.length) s r s') :
    r = .ok () ∧ Listed s' t command s.shared := by
  obtain ⟨hle, hheld⟩ := hscan.held_all hcollect
  have hsub : checkedSub keys.length store.entries.length =
      some (keys.length - store.entries.length) := if_pos hle
  rw [Command.rememberIfComplete, hsub] at h
  dsimp only at h
  split_ifs at h with hskipped
  · have hends : Runs (I := runtime) t (.emit (Event.saved (store.remember command.ssh)
        (Identities.encode command.toml (store.remember command.ssh))) (.done (.ok ()))) s r s' := h
    cases hends with
    | emit h =>
      cases h
      have hsuffix : s.history <:+ (s.note t (.saved (store.remember command.ssh)
          (Identities.encode command.toml (store.remember command.ssh)))).history :=
        List.suffix_cons _ _
      refine ⟨rfl, rfl, .inr ⟨keys, store, hwanted.mono hsuffix, fun key hkey => ?_, rfl⟩⟩
      obtain ⟨raw, publicKey, hdid, haccept, hmem⟩ := hheld (by omega) key hkey
      exact ⟨raw, publicKey, hdid.mono hsuffix, haccept, hmem⟩
  · cases h
    exact ⟨rfl, rfl, .inl rfl⟩

theorem Listed.of_unchanged {w w' : World} (h : Listed s' t command w') (hw : Unchanged w w') :
    Listed s' t command w := by
  refine ⟨h.served.trans hw.1, ?_⟩
  rw [← hw.2]
  exact h.file

theorem remember_of_scanned {store : KeyStore} {wanted : ℕ} {s₁ : Stage runtime}
    {r : Except Panic Unit} (hscanned : Runs t command.scannedStore s (.ok (store, wanted)) s₁)
    (h : Runs t (command.rememberIfComplete store wanted) s₁ r s') :
    r = .ok () ∧ Listed s' t command s.shared := by
  obtain ⟨keys, answers, rfl, hwanted, hscan, hcollect⟩ :=
    Rules.wp_runs hscanned scannedStore_free store wanted rfl
  obtain ⟨hr, hlisted⟩ := rememberIfComplete_runs hwanted hscan hcollect h
  exact ⟨hr, hlisted.of_unchanged (unchanged_of_runs hscanned scannedStore_emits)⟩

theorem list_runs {parent : Except Error Unit} {r : Except Panic (Except Error KeyStore)}
    (h : Runs t (command.list parent) s r s') :
    (∃ result, r = .ok result) ∧ Listed s' t command s.shared := by
  obtain ⟨scanned, s₁, hscanned, h⟩ := runs_bind.mp h
  have hspared := unchanged_of_runs hscanned scannedStore_emits
  cases scanned with
  | error e =>
    cases h
    exact ⟨⟨_, rfl⟩, hspared.listed⟩
  | ok scanned =>
    cases parent with
    | error e =>
      cases h
      exact ⟨⟨_, rfl⟩, hspared.listed⟩
    | ok _ =>
      obtain ⟨remembered, s₂, hremembered, h⟩ := runs_bind.mp h
      obtain ⟨rfl, hlisted⟩ := remember_of_scanned hscanned hremembered
      cases h
      exact ⟨⟨_, rfl⟩, hlisted⟩

/-- A start either takes its set from the file, or scans. -/
theorem startStore_runs {r : Except Error (KeyStore × Option ℕ)}
    (h : Runs t command.startStore s r s') : Unchanged s.shared s'.shared ∧
      ∀ store wanted, r = .ok (store, some wanted) →
        Runs t command.scannedStore s (.ok (store, wanted)) s' := by
  obtain ⟨w, s₁, hworld, h⟩ := runs_bind.mp h
  cases hworld with
  | read hworld =>
    cases hworld
    cases hstore : rememberedStore command.ssh command.toml command.rememberedAt command.config
        s.shared.identities with
    | error e =>
      rw [hstore] at h
      cases h
      exact ⟨⟨rfl, rfl⟩, nofun⟩
    | ok remembered =>
      rw [hstore] at h
      cases remembered with
      | some store =>
        cases h
        exact ⟨⟨rfl, rfl⟩, nofun⟩
      | none =>
        obtain ⟨scanned, s₂, hscanned, h⟩ := runs_bind.mp h
        cases h
        refine ⟨unchanged_of_runs hscanned scannedStore_emits, fun store wanted hr => ?_⟩
        cases scanned with
        | error e => cases hr
        | ok scanned =>
          obtain ⟨rfl, hwanted⟩ := Prod.mk.inj (Except.ok.inj hr)
          obtain rfl := Option.some.inj hwanted
          exact hscanned

theorem start_runs {bound : Except Error Unit} {r : Except Panic (Except Error KeyStore)}
    (h : Runs t (command.start bound) s r s') :
    (∃ result, r = .ok result) ∧ Listed s' t command s.shared := by
  obtain ⟨loaded, s₁, hloaded, h⟩ := runs_bind.mp h
  obtain ⟨hspared, hscanned⟩ := startStore_runs hloaded
  cases loaded with
  | error e =>
    cases h
    exact ⟨⟨_, rfl⟩, hspared.listed⟩
  | ok loaded =>
    obtain ⟨store, scannedFor⟩ := loaded
    cases bound with
    | error e =>
      cases scannedFor with
      | none =>
        cases h
        exact ⟨⟨_, rfl⟩, hspared.listed⟩
      | some wanted =>
        cases h
        exact ⟨⟨_, rfl⟩, hspared.listed⟩
    | ok _ =>
      cases scannedFor with
      | none =>
        cases h
        exact ⟨⟨_, rfl⟩, hspared.listed⟩
      | some wanted =>
        obtain ⟨remembered, s₂, hremembered, h⟩ := runs_bind.mp h
        obtain ⟨rfl, hlisted⟩ := remember_of_scanned (hscanned store wanted rfl) hremembered
        cases h
        exact ⟨⟨_, rfl⟩, hlisted⟩

/-! ### Among other threads -/

variable {env : Env} {x : Entry runtime} {newer older : List (Entry runtime)}

def Renews : Act runtime → Prop
  | .noted (.replaced _) => True
  | .noted (.saved _ _) => True
  | _ => False

theorem spared_of_refresh (h : env.Lawful s) (hx : x ∈ s.history)
    (hstart : s.Did x.tid (.started .refresh)) (hrenews : ¬ Renews x.act) :
    Unchanged x.before x.after := by
  obtain ⟨s₀, s₁, -, hb, ha, -, hl, hlead⟩ := h.entry hx
  rw [← hb, ← ha]
  obtain ⟨u, act, before, after⟩ := x
  dsimp only at hl hrenews hstart
  have hhistory : s₀.history <:+ s.history :=
    (hl.history ▸ List.suffix_cons _ _ : s₀.history <:+ s₁.history).trans hlead.history
  cases hl with
  | started _ hlaunch =>
    rw [Stage.push_shared, World.launch_eq hlaunch]
    exact ⟨rfl, rfl⟩
  | began _ _ => exact ⟨rfl, rfl⟩
  | answered _ heffect =>
    rw [Stage.push_shared, World.effect_eq heffect]
    exact ⟨rfl, rfl⟩
  | @noted e _ hmay =>
    refine ⟨World.apply_served ?_, World.apply_identities ?_ ?_⟩
    · rintro store rfl
      exact hrenews trivial
    · rintro item why rfl
      obtain ⟨job, ⟨-, y, hy, hyt, hya, -⟩, -⟩ := hmay.2
      obtain ⟨z, hz, hzt, hza⟩ := hstart
      obtain rfl := Rules.Lawful.started_unique h (hhistory.subset hy) hz (hyt.trans hzt.symm) hya hza
      exact absurd (hya.symm.trans hza) nofun
    · rintro remembered encoded rfl
      exact hrenews trivial
  | ended _ _ => exact ⟨rfl, rfl⟩

theorem complete_of_replaced {store : KeyStore} (h : env.Lawful s)
    (hs : s.history = newer ++ x :: older) (ha : x.act = .noted (.replaced store)) :
    x.after.served = store ∧ s.Did x.tid (.started .refresh) ∧
      Complete ⟨x.before, older⟩ x.tid .heldOnly env.ssh env.config store := by
  obtain ⟨s₀, hn⟩ := noted_of_cut h hs ha
  obtain ⟨hstart, hload⟩ := hn.may
  obtain rfl : s₀ = ⟨x.before, older⟩ := by rw [← hn.before, ← hn.history]
  exact ⟨by rw [hn.after]; rfl, hstart.mono (suffix_of_cut hs), hload.complete⟩

/-- A save follows its own thread's replacement, and writes down that set. -/
theorem replaced_of_saved {remembered : Remembered} {encoded : Except Error Bytes}
    (h : env.Lawful s) (hs : s.history = newer ++ x :: older)
    (ha : x.act = .noted (.saved remembered encoded)) :
    ∃ mid y rest store, older = mid ++ y :: rest ∧ y.tid = x.tid ∧ (∀ z ∈ mid, z.tid ≠ x.tid) ∧
      y.act = .noted (.replaced store) ∧ x.after.identities = Identities.save x.before.diskWorks
        (Identities.encode env.toml (store.remember env.ssh)) x.before.identities := by
  obtain ⟨s₀, hn⟩ := noted_of_cut h hs ha
  obtain ⟨rfl, -, store, hlast, rfl⟩ := hn.may
  obtain ⟨mid, y, rest, hcut, hyt, hya, hmid⟩ := Stage.cut_of_last hlast
  exact ⟨mid, y, rest, store, hn.history ▸ hcut, hyt, hmid, hya, by rw [hn.after]; rfl⟩

/-- What becomes of the served set and of the file: alone, whatever the vault answers,
and among any other threads, in every state of every run. -/
structure KeepsKeys (env : Env) (P : Pool runtime) : Prop where
  /-- A scan leaves both as they were, or serves and writes down a complete set. -/
  refresh : ∀ (refresher : Refresher) t w s', Runs t refresher.refreshNow ⟨w, []⟩ () s' →
    Unchanged w s'.shared ∨ Replaced s' t refresher w
  /-- A start or a list does not panic, and writes down only a set with every key. -/
  start : ∀ (command : Command) bound t w r s', Runs t (command.start bound) ⟨w, []⟩ r s' →
    (∃ result, r = .ok result) ∧ Listed s' t command w
  list : ∀ (command : Command) parent t w r s', Runs t (command.list parent) ⟨w, []⟩ r s' →
    (∃ result, r = .ok result) ∧ Listed s' t command w
  /-- Among other threads a scan touches neither but by those two acts. -/
  spared : ∀ x ∈ P.stage.history, P.stage.Did x.tid (.started .refresh) → ¬ Renews x.act →
    Unchanged x.before x.after
  replaced : ∀ newer x older store, P.stage.history = newer ++ x :: older →
    x.act = .noted (.replaced store) →
    x.after.served = store ∧ P.stage.Did x.tid (.started .refresh) ∧
      Complete ⟨x.before, older⟩ x.tid .heldOnly env.ssh env.config store
  saved : ∀ newer x older remembered encoded, P.stage.history = newer ++ x :: older →
    x.act = .noted (.saved remembered encoded) →
    ∃ mid y rest store, older = mid ++ y :: rest ∧ y.tid = x.tid ∧ (∀ z ∈ mid, z.tid ≠ x.tid) ∧
      y.act = .noted (.replaced store) ∧ x.after.identities = Identities.save x.before.diskWorks
        (Identities.encode env.toml (store.remember env.ssh)) x.before.identities

/-- No key is lost because the vault could not answer. -/
theorem keys_kept {P : Pool runtime} (h : env.Reachable P) : KeepsKeys env P where
  refresh _ _ _ _ := refreshNow_runs
  start _ _ _ _ _ _ := start_runs
  list _ _ _ _ _ _ := list_runs
  spared _ := spared_of_refresh (Env.lawful h)
  replaced _ _ _ _ := complete_of_replaced (Env.lawful h)
  saved _ _ _ _ _ := replaced_of_saved (Env.lawful h)

/-- The vault has lost one of the two keys served, and a scan finds out. -/
def losing : List (Move runtime) :=
  [.spawn 0 .refresh, Sample.go 0, Sample.vault 0 (utf8 Sample.plainText), Sample.go 0,
    .reply 0 (Sample.answer (.exited (some 1) []
      (utf8 "Error: Could not find specified account(s).")) [2])]

def Losing (history : List (Entry runtime)) : Prop :=
  ∃ x ∈ history[3]?, x.act = .noted (.replaced ⟨Sample.served.entries.take 1⟩) ∧
    ∃ y ∈ history[2]?, y.after.identities =
      .regular (utf8 (Sample.render ⟨[⟨"11", "plain", Sample.plainText⟩]⟩))

instance (history : List (Entry runtime)) : Decidable (Losing history) :=
  inferInstanceAs (Decidable (∃ x ∈ history[3]?, _))

theorem keys_kept_losing :
    ∃ P, Sample.env.Reachable P ∧ Losing P.stage.history ∧ KeepsKeys Sample.env P := by
  obtain ⟨P, hP, hrun⟩ := Pool.exists_of_plays (p := fun P => Losing P.stage.history)
    Sample.reachable_start (show ∃ P ∈ Pool.plays Sample.env.code (.start Sample.world) losing,
      Losing P.stage.history by decide +kernel)
  exact ⟨P, hP, hrun, keys_kept hP⟩

end LastpassSshAgent
