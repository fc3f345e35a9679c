import LastpassSshAgent.Builders
import LastpassSshAgent.KeysKept

/-!
# What is written down builds the same set again

The file says of each key it lists what the vault said. Reading it back takes the same
steps as the scan it is from, so it comes to the same entries in the same order; names
were escaped on the way in, and escaping them again changes nothing.
-/

namespace LastpassSshAgent

open Resumption

section

variable {ssh : Ssh} {config : Config} {seen : Seen} {key : KeyConfig} {raw : Bytes}
  {publicKey : PublicKey} {store : KeyStore} {entry : KeyEntry}
  {answers : List (KeyConfig × Except LpassError Bytes)}

theorem accept_remembered (htext : ssh.PublicTextRoundTrips) (hnothing : ssh.RefusesNothing)
    (h : accept ssh raw = .ok publicKey) :
    accept ssh (utf8 (ssh.publicToOpenssh publicKey)) = .ok publicKey := by
  have hsign := canSign_of_accept h
  have hparsed : ssh.publicFromOpenssh (trim (fromUtf8Lossy raw)) = .ok publicKey := by
    unfold accept at h
    split_ifs at h
    split at h
    · cases h
    · rename_i parsed hparsed
      split_ifs at h
      rwa [Except.ok.inj h] at hparsed
  have hagain := htext _ _ hparsed
  have hne : (utf8 (ssh.publicToOpenssh publicKey)).isEmpty = false := by
    rw [List.isEmpty_eq_false_iff]
    intro hnil
    rw [utf8_eq_nil hnil] at hagain
    exact hnothing publicKey hagain
  rw [accept, hne, fromUtf8Lossy_utf8, hagain]
  simp [hsign]

/-! ### What the file says of each key -/

namespace KeyStore

theorem fileAnswer_of_mem (hids : (store.entries.map KeyEntry.itemId).Nodup)
    (hentry : entry ∈ store.entries) (hkey : entry.itemId = key.id) :
    fileAnswer (store.remember ssh) key = .ok (utf8 (ssh.publicToOpenssh entry.publicKey)) := by
  have hmap : ((store.remember ssh).keys.map RememberedKey.id).Nodup := by
    rw [remember, List.map_map]
    exact hids
  have hfind : (store.remember ssh).keys.find? (fun known => known.id == key.id) =
      some ⟨entry.itemId, entry.name, ssh.publicToOpenssh entry.publicKey⟩ :=
    (find?_of_nodup hmap).mpr ⟨List.mem_map_of_mem hentry, hkey⟩
  rw [fileAnswer, hfind]

theorem fileAnswer_of_absent (habsent : ∀ entry ∈ store.entries, entry.itemId ≠ key.id) :
    fileAnswer (store.remember ssh) key = .error (.itemNotFound key.id) := by
  have hfind : (store.remember ssh).keys.find? (fun known => known.id == key.id) = none := by
    rw [List.find?_eq_none]
    intro known hknown
    obtain ⟨entry, hentry, rfl⟩ := List.mem_map.mp hknown
    simpa using habsent entry hentry
  rw [fileAnswer, hfind]

end KeyStore

open KeyStore

theorem inspect_remembered (config : Config) (key : KeyConfig) (htext : ssh.PublicTextRoundTrips) (hnothing : ssh.RefusesNothing)
    (hids : (store.entries.map KeyEntry.itemId).Nodup) (haccept : accept ssh raw = .ok publicKey)
    (hfresh : Fresh seen publicKey) (hentry : entry ∈ store.entries)
    (hkey : entry.itemId = key.id) (hpublic : entry.publicKey = publicKey) :
    inspect ssh config seen key (fileAnswer (store.remember ssh) key) =
      (.usable (key.entry config publicKey), seen ++ [(publicKey.keyData, key.id)]) := by
  rw [fileAnswer_of_mem hids hentry hkey, hpublic]
  exact inspect_of_fresh (accept_remembered htext hnothing haccept) hfresh

/-! ### Pinned keys -/

theorem ids_split (seen : Seen) (hids : (answers.map fun pair => pair.1.id).Nodup) :
    ((usables (inspectAnswers ssh config seen answers)).map KeyEntry.itemId).Sublist
      (answers.map fun pair => pair.1.id) ∧
    (∀ key ∈ skippedKeys ssh config seen answers, key.id ∈ answers.map fun pair => pair.1.id) ∧
    ∀ key ∈ skippedKeys ssh config seen answers,
      ∀ entry ∈ usables (inspectAnswers ssh config seen answers), entry.itemId ≠ key.id := by
  induction answers generalizing seen with
  | nil => exact ⟨List.Sublist.refl _, nofun, nofun⟩
  | cons first rest ih =>
    obtain ⟨key, answer⟩ := first
    obtain ⟨hnew, hrest⟩ := List.nodup_cons.mp hids
    rcases inspect_cases ssh config seen key answer with
      ⟨raw, publicKey, rfl, -, -, h⟩ | ⟨issue, h⟩
    · rw [usables_cons_usable h, skippedKeys_cons_usable h]
      obtain ⟨hsub, hskipped, hapart⟩ := ih (seen ++ [(publicKey.keyData, key.id)]) hrest
      refine ⟨hsub.cons_cons key.id, fun other hother => List.mem_cons_of_mem _ (hskipped other hother),
        fun other hother entry hentry => ?_⟩
      rcases List.mem_cons.mp hentry with rfl | hentry
      · intro heq
        have hmem := hskipped other hother
        rw [← show key.id = other.id from heq] at hmem
        exact hnew hmem
      · exact hapart other hother entry hentry
    · rw [usables_cons_unusable h, skippedKeys_cons_unusable h]
      obtain ⟨hsub, hskipped, hapart⟩ := ih seen hrest
      refine ⟨hsub.cons key.id, ?_, ?_⟩
      · refine List.forall_mem_cons.mpr ⟨List.mem_cons_self, fun other hother => ?_⟩
        exact List.mem_cons_of_mem _ (hskipped other hother)
      · refine List.forall_mem_cons.mpr ⟨fun entry hentry heq => ?_, hapart⟩
        have hmem := hsub.subset (List.mem_map_of_mem hentry)
        rw [heq] at hmem
        exact hnew hmem

/-- Asked for the same keys, the file gives the same entries and skips the same keys. -/
theorem rescan_pinned (htext : ssh.PublicTextRoundTrips) (hnothing : ssh.RefusesNothing)
    (hids : (store.entries.map KeyEntry.itemId).Nodup)
    (hkept : ∀ entry ∈ usables (inspectAnswers ssh config seen answers), entry ∈ store.entries)
    (hskipped : ∀ key ∈ skippedKeys ssh config seen answers,
      ∀ entry ∈ store.entries, entry.itemId ≠ key.id) :
    usables (inspectAnswers ssh config seen
        (fileAnswers (store.remember ssh) (answers.map Prod.fst))) =
      usables (inspectAnswers ssh config seen answers) ∧
    skippedKeys ssh config seen (fileAnswers (store.remember ssh) (answers.map Prod.fst)) =
      skippedKeys ssh config seen answers := by
  induction answers generalizing seen with
  | nil => exact ⟨rfl, rfl⟩
  | cons first rest ih =>
    obtain ⟨key, answer⟩ := first
    have hcons : fileAnswers (store.remember ssh) (((key, answer) :: rest).map Prod.fst) =
        (key, fileAnswer (store.remember ssh) key) ::
          fileAnswers (store.remember ssh) (rest.map Prod.fst) := rfl
    rw [hcons]
    rcases inspect_cases ssh config seen key answer with
      ⟨raw, publicKey, rfl, haccept, hfresh, h⟩ | ⟨issue, h⟩
    · rw [usables_cons_usable h] at hkept
      rw [skippedKeys_cons_usable h] at hskipped
      obtain ⟨hentry, hkept⟩ := List.forall_mem_cons.mp hkept
      have hfile := inspect_remembered config key htext hnothing hids haccept
        hfresh hentry rfl rfl
      obtain ⟨husables, hskips⟩ := ih hkept hskipped
      rw [usables_cons_usable h, usables_cons_usable hfile, skippedKeys_cons_usable h,
        skippedKeys_cons_usable hfile, husables, hskips]
      exact ⟨rfl, rfl⟩
    · rw [usables_cons_unusable h] at hkept
      rw [skippedKeys_cons_unusable h] at hskipped
      obtain ⟨habsent, hskipped⟩ := List.forall_mem_cons.mp hskipped
      have hfile : inspect ssh config seen key (fileAnswer (store.remember ssh) key) =
          (.unusable key.id (escapeForDisplay key.displayName) (.fetch (.itemNotFound key.id)),
            seen) := by
        rw [fileAnswer_of_absent habsent, inspect_error]
      obtain ⟨husables, hskips⟩ := ih hkept hskipped
      rw [usables_cons_unusable h, usables_cons_unusable hfile, skippedKeys_cons_unusable h,
        skippedKeys_cons_unusable hfile, husables, hskips]
      exact ⟨rfl, rfl⟩

theorem skippedKeys_eq_filter
    (hkept : ∀ entry ∈ usables (inspectAnswers ssh config seen answers), entry ∈ store.entries)
    (hskipped : ∀ key ∈ skippedKeys ssh config seen answers,
      ∀ entry ∈ store.entries, entry.itemId ≠ key.id) :
    skippedKeys ssh config seen answers = (answers.map Prod.fst).filter fun key =>
      decide (∀ entry ∈ store.entries, entry.itemId ≠ key.id) := by
  induction answers generalizing seen with
  | nil => rfl
  | cons first rest ih =>
    obtain ⟨key, answer⟩ := first
    rw [List.map_cons]
    rcases inspect_cases ssh config seen key answer with
      ⟨raw, publicKey, rfl, -, -, h⟩ | ⟨issue, h⟩
    · rw [usables_cons_usable h] at hkept
      rw [skippedKeys_cons_usable h] at hskipped ⊢
      obtain ⟨hentry, hkept⟩ := List.forall_mem_cons.mp hkept
      rw [List.filter_cons_of_neg, ih hkept hskipped]
      rw [decide_eq_true_iff]
      exact fun habsent => habsent _ hentry rfl
    · rw [usables_cons_unusable h] at hkept
      rw [skippedKeys_cons_unusable h] at hskipped ⊢
      obtain ⟨habsent, hskipped⟩ := List.forall_mem_cons.mp hskipped
      rw [List.filter_cons_of_pos, ih hkept hskipped]
      exact decide_eq_true habsent

/-! ### Discovered keys -/

def relisted (entries : List KeyEntry) : List KeyConfig :=
  entries.map fun entry => .discovered entry.itemId entry.name

theorem entry_relisted (config : Config) (id name : String) (publicKey : PublicKey) :
    KeyConfig.entry config (.discovered id (escapeForDisplay name)) publicKey =
      KeyConfig.entry config (.discovered id name) publicKey := by
  have hname : escapeForDisplay (KeyConfig.discovered id (escapeForDisplay name)).displayName =
      escapeForDisplay (KeyConfig.discovered id name).displayName := escapeForDisplay_idem name
  rw [KeyConfig.entry, KeyConfig.entry, hname]
  rfl

/-- Asked for what it lists, the file gives all of it. -/
theorem rescan_discovered (htext : ssh.PublicTextRoundTrips) (hnothing : ssh.RefusesNothing)
    (hids : (store.entries.map KeyEntry.itemId).Nodup)
    (hkept : ∀ entry ∈ usables (inspectAnswers ssh config seen answers), entry ∈ store.entries)
    (hdiscovered : ∀ pair ∈ answers, ∃ id name, pair.1 = .discovered id name) :
    usables (inspectAnswers ssh config seen (fileAnswers (store.remember ssh)
        (relisted (usables (inspectAnswers ssh config seen answers))))) =
      usables (inspectAnswers ssh config seen answers) ∧
    skippedKeys ssh config seen (fileAnswers (store.remember ssh)
        (relisted (usables (inspectAnswers ssh config seen answers)))) = [] := by
  induction answers generalizing seen with
  | nil => exact ⟨rfl, rfl⟩
  | cons first rest ih =>
    obtain ⟨key, answer⟩ := first
    obtain ⟨⟨id, name, rfl⟩, hrest⟩ := List.forall_mem_cons.mp hdiscovered
    rcases inspect_cases ssh config seen (.discovered id name) answer with
      ⟨raw, publicKey, rfl, haccept, hfresh, h⟩ | ⟨issue, h⟩
    · rw [usables_cons_usable h] at hkept ⊢
      obtain ⟨hentry, hkept⟩ := List.forall_mem_cons.mp hkept
      obtain ⟨husables, hskips⟩ := ih hkept hrest
      have hcons : ∀ entries, fileAnswers (store.remember ssh)
          (relisted (KeyConfig.entry config (.discovered id name) publicKey :: entries)) =
          (.discovered id (escapeForDisplay name),
            fileAnswer (store.remember ssh) (.discovered id (escapeForDisplay name))) ::
              fileAnswers (store.remember ssh) (relisted entries) := fun _ => rfl
      have hfile := inspect_remembered config
        (.discovered id (escapeForDisplay name)) htext hnothing hids haccept hfresh hentry
        rfl rfl
      have hid : (KeyConfig.discovered id (escapeForDisplay name)).id =
          (KeyConfig.discovered id name).id := rfl
      rw [entry_relisted, hid] at hfile
      rw [hcons, usables_cons_usable hfile, skippedKeys_cons_usable hfile, husables, hskips]
      exact ⟨rfl, rfl⟩
    · rw [usables_cons_unusable h] at hkept ⊢
      exact ih hkept hrest

/-! ### Either way -/

/-- The keys a scan may set out to load. -/
structure Asks (config : Config) (keys : List KeyConfig) : Prop where
  pinned : config.keys ≠ [] → keys = config.keys
  discovered : config.keys = [] → ∀ key ∈ keys, ∃ id name, key = .discovered id name

theorem Asks.of_wanted {s : Stage runtime} {t : ℕ} {source : MasterPasswordSource}
    {keys : List KeyConfig} (h : Wanted s t source config keys) : Asks config keys := by
  refine ⟨h.pinned, fun hnone key hkey => ?_⟩
  obtain ⟨items, -, -, hprobed⟩ := h.listed hnone
  obtain ⟨item, -, heq, -⟩ := hprobed key hkey
  exact ⟨item.id, item.name, heq⟩

/-- What a set is written down as builds that set, short of the pinned keys it lacks. -/
theorem fromRemembered_remember (htext : ssh.PublicTextRoundTrips)
    (hnothing : ssh.RefusesNothing) (hasks : Asks config (answers.map Prod.fst))
    (hpinned : (config.keys.map KeyConfig.id).Nodup)
    (hstore : store.entries = usables (inspectAnswers ssh config [] answers))
    (hids : (store.entries.map KeyEntry.itemId).Nodup) :
    fromRemembered ssh (store.remember ssh) config =
      ⟨store, config.keys.filter fun key =>
        decide (∀ entry ∈ store.entries, entry.itemId ≠ key.id)⟩ := by
  have hkept : ∀ entry ∈ usables (inspectAnswers ssh config [] answers), entry ∈ store.entries :=
    fun entry hentry => hstore ▸ hentry
  rw [fromRemembered_eq]
  by_cases hnone : config.keys = []
  · have hwanted : wantedFrom (store.remember ssh) config = relisted store.entries := by
      rw [wantedFrom, hnone, remember, relisted]
      simp
    have hdiscovered : ∀ pair ∈ answers, ∃ id name, pair.1 = .discovered id name :=
      fun pair hpair => hasks.discovered hnone pair.1 (List.mem_map_of_mem hpair)
    obtain ⟨husables, hskips⟩ := rescan_discovered htext hnothing hids hkept hdiscovered
    rw [hwanted, hstore, husables, hskips, hnone, ← hstore]
    rfl
  · have hwanted : wantedFrom (store.remember ssh) config = answers.map Prod.fst := by
      rw [wantedFrom, hasks.pinned hnone, if_neg fun h => hnone (List.isEmpty_iff.mp h)]
    have hkeys : (answers.map fun pair => pair.1.id).Nodup := by
      rw [← hasks.pinned hnone, List.map_map] at hpinned
      exact hpinned
    have hskipped : ∀ key ∈ skippedKeys ssh config [] answers,
        ∀ entry ∈ store.entries, entry.itemId ≠ key.id := by
      rw [hstore]
      exact (ids_split [] hkeys).2.2
    obtain ⟨husables, hskips⟩ := rescan_pinned htext hnothing hids hkept hskipped
    rw [hwanted, husables, hskips, skippedKeys_eq_filter hkept hskipped, hasks.pinned hnone,
      ← hstore]

/-- The set a start or a list comes to is the set that what it writes down builds; what
the file cannot supply is the pinned keys that were skipped, in their order. -/
theorem remembered_reproduces {debug : String → String} {os : Os} {command : Command} {t : ℕ}
    {s s' : Stage runtime} {wanted : ℕ} (hvalid : command.config.validate debug os = .ok ())
    (htext : command.ssh.PublicTextRoundTrips) (hnothing : command.ssh.RefusesNothing)
    (h : Runs t command.scannedStore s (.ok (store, wanted)) s')
    (hids : (store.entries.map KeyEntry.itemId).Nodup) :
    fromRemembered command.ssh (store.remember command.ssh) command.config =
      ⟨store, command.config.keys.filter fun key =>
        decide (∀ entry ∈ store.entries, entry.itemId ≠ key.id)⟩ := by
  obtain ⟨keys, answers, -, hwanted, hscan, hcollect⟩ :=
    Rules.wp_runs h scannedStore_free store wanted rfl
  have hasks := Asks.of_wanted hwanted
  rw [← hscan.keys] at hasks
  exact fromRemembered_remember htext hnothing hasks (Config.nodup_of_validate hvalid)
    (usables_of_collect hcollect) hids

end

namespace Sample

theorem publicTextRoundTrips : ssh.PublicTextRoundTrips := by
  intro text key h
  have hparse : ∀ text key, ssh.publicFromOpenssh text = .ok key → key = plain ∨ key = encrypted := by
    intro text key h
    simp only [ssh] at h
    split_ifs at h
    · exact .inl (Except.ok.inj h).symm
    · exact .inr (Except.ok.inj h).symm
  rcases hparse _ _ h with rfl | rfl
  · decide +kernel
  · decide +kernel

theorem refusesNothing : ssh.RefusesNothing := by
  intro key hkey
  have hrefused : ssh.publicFromOpenssh "" = .error "invalid Base64 encoding" := by decide +kernel
  rw [hrefused] at hkey
  cases hkey

theorem valid : config.validate id .macos = .ok () := by decide

def lost : (q : Query) → q.Answer
  | .lpass args password maxBytes =>
    if "11" ∈ args then answer (.exited (some 0) (utf8 plainText) []) [2] (.lpass args password maxBytes)
    else answer (.exited (some 1) [] (utf8 "Error: Could not find specified account(s).")) [2]
      (.lpass args password maxBytes)
  | q => answer .timeout [2] q

def command : Command := ⟨ssh, toml, config, env.asking, env.rememberedAt⟩

end Sample

theorem remembered_reproduces_lost : ∃ store s', Runs 0 Sample.command.scannedStore
      ⟨Sample.world, []⟩ (.ok (store, 2)) s' ∧
    KeyStore.fromRemembered Sample.ssh (store.remember Sample.ssh) Sample.config =
      ⟨store, [{ id := "22", name := some "encrypted" }]⟩ := by
  obtain ⟨⟨r, s'⟩, hperform, hr⟩ : ∃ r ∈ Program.perform 0 Sample.lost
      Sample.command.scannedStore ⟨Sample.world, []⟩,
        r.1 = .ok (⟨Sample.served.entries.take 1⟩, 2) := by decide +kernel
  obtain rfl : r = .ok (⟨Sample.served.entries.take 1⟩, 2) := hr
  have hruns := runs_of_perform hperform
  refine ⟨_, s', hruns, ?_⟩
  have hmissing : (Sample.config.keys.filter fun key => decide (∀ entry ∈
      Sample.served.entries.take 1, entry.itemId ≠ key.id)) =
        [{ id := "22", name := some "encrypted" }] := by decide
  rw [← hmissing]
  exact remembered_reproduces Sample.valid Sample.publicTextRoundTrips Sample.refusesNothing hruns
    (by decide)

end LastpassSshAgent
