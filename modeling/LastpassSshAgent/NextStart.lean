import LastpassSshAgent.Rebuilt

/-!
# The start after a refresh

What a refresh writes is read back as the set it serves, when that set has every pinned
key and no item twice. A start then serves it without a word to the vault; short of that
it scans.
-/

namespace LastpassSshAgent

open Resumption

section

variable {env : Env} {s : Stage runtime} {t : ℕ} {store : KeyStore} {bytes : Bytes}

/-! ### What was written -/

def Wrote (history : List (Entry runtime)) (store : KeyStore) (bytes : Bytes) : Prop :=
  ∃ newer x mid y rest remembered, history = newer ++ x :: (mid ++ y :: rest) ∧
    x.act = .noted (.saved remembered (.ok bytes)) ∧ x.after.identities = .regular bytes ∧
    y.tid = x.tid ∧ (∀ z ∈ mid, z.tid ≠ x.tid) ∧ y.act = .noted (.replaced store)

theorem loaded_of_wrote (h : env.Lawful s) (hw : Wrote s.history store bytes) :
    ∃ s₀ t, env.Lawful s₀ ∧ Loaded s₀ t .heldOnly env.ssh env.config store ∧
      Identities.encode env.toml (store.remember env.ssh) = .ok bytes := by
  obtain ⟨newer, x, mid, y, rest, remembered, hs, hxa, -, hyt, hmid, hya⟩ := hw
  obtain ⟨s₀, hn⟩ := noted_of_cut h hs hxa
  obtain ⟨hencoded, -, served, hlast, rfl⟩ := hn.may
  have hfind : s₀.last x.tid = some y.act := by
    have hskip : mid.find? (fun z => z.tid == x.tid) = none := by
      rw [List.find?_eq_none]
      intro z hz
      simpa using hmid z hz
    rw [Stage.last, hn.history, List.find?_append, hskip, Option.none_or,
      List.find?_cons_of_pos (by simpa using hyt)]
    rfl
  obtain rfl : served = store := by
    have hact : (Act.noted (.replaced served) : Act runtime) = .noted (.replaced store) :=
      Option.some.inj (hlast.symm.trans (hfind.trans (congrArg some hya)))
    exact Event.replaced.inj (Act.noted.inj hact)
  have hcut : s.history = (newer ++ x :: mid) ++ y :: rest := by rw [hs]; simp
  obtain ⟨s₁, hn₁⟩ := noted_of_cut h hcut hya
  exact ⟨s₁, y.tid, hn₁.lawful, hn₁.may.2, hencoded.symm⟩

theorem isItemId_of_loaded (h : env.Lawful s)
    (hpinned : ∀ key ∈ env.config.keys, isItemId key.id = true)
    (hload : Loaded s t .heldOnly env.ssh env.config store) :
    ∀ entry ∈ store.entries, isItemId entry.itemId = true := by
  obtain ⟨keys, answers, hwanted, hscan, hcollect, -⟩ := hload
  have hkeys : ∀ key ∈ keys, isItemId key.id = true := by
    intro key hkey
    by_cases hnone : env.config.keys = []
    · obtain ⟨items, ⟨x, hx, -, hxa⟩, -, hprobed⟩ := hwanted.listed hnone
      obtain ⟨item, hitem, rfl, -⟩ := hprobed key hkey
      obtain ⟨newer, older, hs⟩ := List.append_of_mem hx
      obtain ⟨s₀, hn⟩ := noted_of_cut h hs hxa
      exact hn.may items rfl item hitem
    · rw [hwanted.pinned hnone] at hkey
      exact hpinned key hkey
  have hentries := KeyStore.usables_of_collect (KeyStore.collectComplete_iff.mp hcollect).1
  obtain ⟨kept, hsub, heq⟩ := (usables_served env.ssh env.config [] answers).ordered
  intro entry hentry
  rw [hentries, heq] at hentry
  obtain ⟨pair, hpair, rfl⟩ := List.mem_map.mp hentry
  refine hkeys pair.1 ?_
  rw [← hscan.keys]
  exact hsub.subset (List.mem_map_of_mem hpair)

/-! ### What is read back -/

def Covers (config : Config) (store : KeyStore) : Prop :=
  (∀ key ∈ config.keys, ∃ entry ∈ store.entries, entry.itemId = key.id) ∧
    (store.entries.map KeyEntry.itemId).Nodup

instance (config : Config) (store : KeyStore) : Decidable (Covers config store) :=
  inferInstanceAs (Decidable (_ ∧ _))

/-- The file answers one id one way, so with nothing skipped no id was wanted twice. -/
theorem nodup_of_skippedKeys {ssh : Ssh} {config : Config} {remembered : Remembered}
    {wanted : List KeyConfig} {seen : Seen}
    (h : skippedKeys ssh config seen (KeyStore.fileAnswers remembered wanted) = []) :
    (wanted.map KeyConfig.id).Nodup ∧ ∀ key ∈ wanted, ∃ raw publicKey,
      KeyStore.fileAnswer remembered key = .ok raw ∧ accept ssh raw = .ok publicKey ∧
      Fresh seen publicKey := by
  induction wanted generalizing seen with
  | nil => exact ⟨List.nodup_nil, nofun⟩
  | cons key wanted ih =>
    have hcons : KeyStore.fileAnswers remembered (key :: wanted) =
        (key, KeyStore.fileAnswer remembered key) :: KeyStore.fileAnswers remembered wanted := rfl
    rw [hcons] at h
    rcases inspect_cases ssh config seen key (KeyStore.fileAnswer remembered key) with
      ⟨raw, publicKey, hanswer, haccept, hfresh, hinspect⟩ | ⟨issue, hinspect⟩
    · rw [skippedKeys_cons_usable hinspect] at h
      obtain ⟨hnodup, hlater⟩ := ih h
      refine ⟨List.nodup_cons.mpr ⟨fun hmem => ?_, hnodup⟩, fun other hother => ?_⟩
      · obtain ⟨other, hother, hid⟩ := List.mem_map.mp hmem
        obtain ⟨raw', publicKey', hanswer', haccept', hfresh'⟩ := hlater other hother
        have hsame : KeyStore.fileAnswer remembered other = KeyStore.fileAnswer remembered key := by
          rw [KeyStore.fileAnswer, KeyStore.fileAnswer, hid]
        rw [hsame, hanswer] at hanswer'
        obtain rfl := Except.ok.inj hanswer'
        obtain rfl := Except.ok.inj (haccept.symm.trans haccept')
        exact hfresh' (publicKey.keyData, key.id) (by simp) rfl
      · rcases List.mem_cons.mp hother with rfl | hother
        · exact ⟨raw, publicKey, hanswer, haccept, hfresh⟩
        · obtain ⟨raw', publicKey', hanswer', haccept', hfresh'⟩ := hlater other hother
          exact ⟨raw', publicKey', hanswer', haccept',
            fun known hknown => hfresh' known (List.mem_append_left _ hknown)⟩
    · rw [skippedKeys_cons_unusable hinspect] at h
      cases h

theorem covers_iff {config : Config} (hne : store.entries ≠ [])
    (hids : (store.entries.map KeyEntry.itemId).Nodup) : Covers config store ↔
      ¬ (store.entries = [] ∨ (config.keys.filter fun key =>
        decide (∀ entry ∈ store.entries, entry.itemId ≠ key.id)) ≠ []) := by
  rw [Covers, not_or, not_not, List.filter_eq_nil_iff]
  simp only [decide_eq_true_eq, not_forall, not_not, exists_prop]
  exact ⟨fun hcovers => ⟨hne, hcovers.1⟩, fun hcovers => ⟨hcovers.2, hids⟩⟩

theorem nodup_of_noneSkipped {ssh : Ssh} {config : Config}
    {answers : List (KeyConfig × Except LpassError Bytes)}
    (hpinned : (config.keys.map KeyConfig.id).Nodup) (hasks : Asks config (answers.map Prod.fst))
    (hstore : store.entries = usables (inspectAnswers ssh config [] answers))
    (hskipped : skippedKeys ssh config [] (KeyStore.fileAnswers (store.remember ssh)
      (KeyStore.wantedFrom (store.remember ssh) config)) = []) :
    (store.entries.map KeyEntry.itemId).Nodup := by
  by_cases hnone : config.keys = []
  · have hlisted : (KeyStore.wantedFrom (store.remember ssh) config).map KeyConfig.id =
        store.entries.map KeyEntry.itemId := by
      rw [KeyStore.wantedFrom, hnone, KeyStore.remember]
      simp [KeyConfig.discovered]
    rw [← hlisted]
    exact (nodup_of_skippedKeys hskipped).1
  · rw [hasks.pinned hnone |>.symm, List.map_map] at hpinned
    rw [hstore]
    exact (ids_split [] hpinned).1.nodup hpinned

theorem load_of_loaded {debug : String → String} {os : Os} (h : env.Lawful s)
    (hvalid : env.config.validate debug os = .ok ()) (htoml : env.toml.RoundTrips)
    (hload : Loaded s t .heldOnly env.ssh env.config store)
    (hencoded : Identities.encode env.toml (store.remember env.ssh) = .ok bytes)
    (hsize : bytes.length ≤ Identities.MAX_BYTES) :
    Identities.load env.toml env.rememberedAt (.regular bytes) =
      .ok (some (store.remember env.ssh)) := by
  refine Identities.load_encode htoml _ hencoded hsize fun known hknown => ?_
  obtain ⟨entry, hentry, rfl⟩ := List.mem_map.mp hknown
  exact isItemId_of_loaded h (Config.isItemId_of_validate hvalid) hload entry hentry

/-- What a scan wrote is read back whole where it covers, and not at all elsewhere. -/
theorem rememberedStore_of_loaded {debug : String → String} {os : Os} (h : env.Lawful s)
    (hvalid : env.config.validate debug os = .ok ()) (htoml : env.toml.RoundTrips)
    (htext : env.ssh.PublicTextRoundTrips) (hnothing : env.ssh.RefusesNothing)
    (hload : Loaded s t .heldOnly env.ssh env.config store)
    (hencoded : Identities.encode env.toml (store.remember env.ssh) = .ok bytes)
    (hsize : bytes.length ≤ Identities.MAX_BYTES) :
    rememberedStore env.ssh env.toml env.rememberedAt env.config (.regular bytes) =
      .ok (if Covers env.config store then some store else none) := by
  have hread := load_of_loaded h hvalid htoml hload hencoded hsize
  have hpinned := Config.nodup_of_validate hvalid
  obtain ⟨keys, answers, hwanted, hscan, hcollect, hne⟩ := hload
  have hstore := KeyStore.usables_of_collect (KeyStore.collectComplete_iff.mp hcollect).1
  have hasks := Asks.of_wanted hwanted
  rw [← hscan.keys] at hasks
  by_cases hids : (store.entries.map KeyEntry.itemId).Nodup
  · rw [rememberedStore_of_load hread
      (fromRemembered_remember htext hnothing hasks hpinned hstore hids)]
    simp only [covers_iff hne hids, ite_not]
  · rw [rememberedStore_of_load hread (KeyStore.fromRemembered_eq _ _ _),
      if_neg fun hcovers : Covers env.config store => hids hcovers.2]
    refine congrArg Except.ok (if_pos (.inr fun hskipped => hids ?_))
    exact nodup_of_noneSkipped hpinned hasks hstore hskipped

/-! ### The next start -/

/-- A start that finds this file serves the set, and calls nobody. -/
def ServesUnasked (env : Env) (store : KeyStore) (file : File) : Prop :=
  rememberedStore env.ssh env.toml env.rememberedAt env.config file = .ok (some store) ∧
    ∀ client w t r s', w.identities = file →
      Runs t (Command.startStore ⟨env.ssh, env.toml, env.config, client, env.rememberedAt⟩)
        ⟨w, []⟩ r s' → r = .ok (store, none) ∧ s'.history = []

theorem servesUnasked_of_remembered {file : File}
    (h : rememberedStore env.ssh env.toml env.rememberedAt env.config file = .ok (some store)) :
    ServesUnasked env store file := by
  refine ⟨h, fun client w t r s' hw hruns => ?_⟩
  obtain ⟨w', s₁, hworld, hruns⟩ := runs_bind.mp hruns
  cases hworld with
  | read hworld =>
    cases hworld
    subst hw
    dsimp only at hruns
    rw [h] at hruns
    cases hruns
    exact ⟨rfl, rfl⟩

/-- What a refresh has written serves the next start unasked exactly when it covers;
otherwise that start asks the vault. -/
theorem written_serves_next_start {debug : String → String} {os : Os} {P : Pool runtime}
    (h : env.Reachable P) (hvalid : env.config.validate debug os = .ok ())
    (htoml : env.toml.RoundTrips) (htext : env.ssh.PublicTextRoundTrips)
    (hnothing : env.ssh.RefusesNothing) (hw : Wrote P.stage.history store bytes)
    (hsize : bytes.length ≤ Identities.MAX_BYTES) :
    (ServesUnasked env store (.regular bytes) ↔ Covers env.config store) ∧
      (¬ Covers env.config store → rememberedStore env.ssh env.toml env.rememberedAt env.config
        (.regular bytes) = .ok none) := by
  obtain ⟨s₀, t, h₀, hload, hencoded⟩ := loaded_of_wrote (Env.lawful h) hw
  have hread := rememberedStore_of_loaded h₀ hvalid htoml htext hnothing hload hencoded hsize
  by_cases hcovers : Covers env.config store
  · rw [if_pos hcovers] at hread
    exact ⟨iff_of_true (servesUnasked_of_remembered hread) hcovers, fun hnot => absurd hcovers hnot⟩
  · rw [if_neg hcovers] at hread
    refine ⟨iff_of_false (fun hserves => ?_) hcovers, fun _ => hread⟩
    exact absurd (hread.symm.trans hserves.1) nofun

end

/-! ### Two scans -/

/-- The act `i` places from the end is a save, right after its thread's replacement. -/
def WroteAt (i : ℕ) (history : List (Entry runtime)) (store : KeyStore) (remembered : Remembered)
    (bytes : Bytes) : Prop :=
  ∃ x ∈ history[i]?, (x.act = .noted (.saved remembered (.ok bytes)) ∧
      x.after.identities = .regular bytes) ∧
    ∃ y ∈ (history.drop (i + 1))[0]?, y.tid = x.tid ∧ y.act = .noted (.replaced store)

instance (i : ℕ) (history : List (Entry runtime)) (store : KeyStore) (remembered : Remembered)
    (bytes : Bytes) : Decidable (WroteAt i history store remembered bytes) :=
  inferInstanceAs (Decidable (∃ x ∈ history[i]?, _))

theorem wrote_of_at {i : ℕ} {history : List (Entry runtime)} {store : KeyStore}
    {remembered : Remembered} {bytes : Bytes} (h : WroteAt i history store remembered bytes) :
    Wrote history store bytes := by
  obtain ⟨x, hx, ⟨hxa, hfile⟩, y, hy, hyt, hya⟩ := h
  have hdrop := cut_of_getElem? hy
  rw [List.take_zero, List.nil_append] at hdrop
  refine ⟨history.take i, x, [], y, (history.drop (i + 1)).drop (0 + 1), remembered, ?_, hxa,
    hfile, hyt, fun z hz => absurd hz List.not_mem_nil, hya⟩
  rw [List.nil_append, ← hdrop]
  exact cut_of_getElem? hx

namespace Sample

theorem roundTrips : toml.RoundTrips := by
  intro remembered text h
  have hsets : ∀ set ∈ sets, toml.decode (render set) = .ok set := by decide +kernel
  have hencode : (if remembered ∈ sets then .ok (render remembered) else .error "unsupported") =
      (Except.ok text : Except String String) := h
  split_ifs at hencode with hmem
  obtain rfl := Except.ok.inj hencode
  exact hsets remembered hmem

def keeping : List (Resumption.Move runtime) :=
  [.spawn 0 .refresh, go 0, vault 0 (utf8 plainText), go 0, vault 0 (utf8 encryptedText)]

def written (n : ℕ) : Remembered := (KeyStore.mk (served.entries.take n)).remember ssh

end Sample

theorem written_serves_next_start_both : ∃ P, Sample.env.Reachable P ∧
    Wrote P.stage.history Sample.served (utf8 (Sample.render (Sample.written 2))) ∧
    ServesUnasked Sample.env Sample.served (.regular (utf8 (Sample.render (Sample.written 2)))) := by
  obtain ⟨P, hP, hrun⟩ := Pool.exists_of_plays (p := fun P => WroteAt 2 P.stage.history
      Sample.served (Sample.written 2) (utf8 (Sample.render (Sample.written 2))))
    Sample.reachable_start
    (show ∃ P ∈ Pool.plays Sample.env.code (.start Sample.world) Sample.keeping,
      WroteAt 2 P.stage.history Sample.served (Sample.written 2)
        (utf8 (Sample.render (Sample.written 2))) by decide +kernel)
  refine ⟨P, hP, wrote_of_at hrun, ?_⟩
  exact (written_serves_next_start hP Sample.valid Sample.roundTrips Sample.publicTextRoundTrips
    Sample.refusesNothing (wrote_of_at hrun) (by decide +kernel)).1.mpr (by decide)

/-- With a pinned key gone from the vault, every start after the scan asks again. -/
theorem written_may_not_serve : ¬ ∀ (env : Env) (debug : String → String) (os : Os) (P : Pool runtime)
    (store : KeyStore) (bytes : Bytes), env.Reachable P → env.config.validate debug os = .ok () →
    env.toml.RoundTrips → env.ssh.PublicTextRoundTrips → env.ssh.RefusesNothing →
    Wrote P.stage.history store bytes → bytes.length ≤ Identities.MAX_BYTES →
    ServesUnasked env store (.regular bytes) := by
  intro hall
  obtain ⟨P, hP, hrun⟩ := Pool.exists_of_plays (p := fun P => WroteAt 2 P.stage.history
      ⟨Sample.served.entries.take 1⟩ (Sample.written 1) (utf8 (Sample.render (Sample.written 1))))
    Sample.reachable_start
    (show ∃ P ∈ Pool.plays Sample.env.code (.start Sample.world) losing,
      WroteAt 2 P.stage.history ⟨Sample.served.entries.take 1⟩ (Sample.written 1)
        (utf8 (Sample.render (Sample.written 1))) by decide +kernel)
  have hserves := hall Sample.env id .macos P _ _ hP Sample.valid Sample.roundTrips
    Sample.publicTextRoundTrips Sample.refusesNothing (wrote_of_at hrun) (by decide +kernel)
  have hasks : rememberedStore Sample.ssh Sample.toml Sample.env.rememberedAt Sample.config
      (.regular (utf8 (Sample.render (Sample.written 1)))) = .ok none := by decide +kernel
  exact absurd (hasks.symm.trans hserves.1) nofun

end LastpassSshAgent
