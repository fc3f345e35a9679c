import LastpassSshAgent.Completeness
import Mathlib.Data.List.Nodup

/-!
# The three builders of a served set

A set comes from a start's scan, from a refresh's, or from the identities file. All
three admit a key by one policy, and the file can be read as one more way the vault
answers. The set is in the order of the keys it was wanted for, and lists no public key
twice; the two scans differ only in what they skip.
-/

namespace LastpassSshAgent

open Resumption

variable {ssh : Ssh} {config : Config} {seen : Seen} {key : KeyConfig} {raw : Bytes}
  {publicKey : PublicKey} {answer : Except LpassError Bytes}
  {answers : List (KeyConfig × Except LpassError Bytes)} {inspected : List KeyInspection}
  {entries : List KeyEntry}

/-! ### One key -/

def Fresh (seen : Seen) (publicKey : PublicKey) : Prop := ∀ known ∈ seen, known.1 ≠ publicKey.keyData

theorem unique_cases (seen : Seen) (publicKey : PublicKey) (itemId : String) :
    (Fresh seen publicKey ∧
      unique seen publicKey itemId = (.ok publicKey, seen ++ [(publicKey.keyData, itemId)])) ∨
    ¬ Fresh seen publicKey ∧
      ∃ otherItem, unique seen publicKey itemId = (.error (.duplicate otherItem), seen) := by
  unfold unique
  split
  · rename_i known otherItem hfind
    have hknown : known = publicKey.keyData := by simpa using List.find?_some hfind
    exact .inr ⟨fun hfresh => hfresh _ (List.mem_of_find?_eq_some hfind) hknown, otherItem, rfl⟩
  · rename_i hnone
    refine .inl ⟨fun known hknown => ?_, rfl⟩
    simpa using List.find?_eq_none.mp hnone known hknown

theorem unique_of_fresh (h : Fresh seen publicKey) (itemId : String) :
    unique seen publicKey itemId = (.ok publicKey, seen ++ [(publicKey.keyData, itemId)]) := by
  rcases unique_cases seen publicKey itemId with ⟨-, hunique⟩ | ⟨hseen, -⟩
  · exact hunique
  · exact absurd h hseen

theorem inspect_error (e : LpassError) : inspect ssh config seen key (.error e) =
    (.unusable key.id (escapeForDisplay key.displayName) (.fetch e), seen) := rfl

theorem inspect_of_fresh (haccept : accept ssh raw = .ok publicKey) (h : Fresh seen publicKey) :
    inspect ssh config seen key (.ok raw) =
      (.usable (key.entry config publicKey), seen ++ [(publicKey.keyData, key.id)]) := by
  simp only [inspect, acceptUnique, haccept, unique_of_fresh h]

theorem inspect_cases (ssh : Ssh) (config : Config) (seen : Seen) (key : KeyConfig)
    (answer : Except LpassError Bytes) :
    (∃ raw publicKey, answer = .ok raw ∧ accept ssh raw = .ok publicKey ∧ Fresh seen publicKey ∧
      inspect ssh config seen key answer =
        (.usable (key.entry config publicKey), seen ++ [(publicKey.keyData, key.id)])) ∨
    ∃ issue, inspect ssh config seen key answer =
      (.unusable key.id (escapeForDisplay key.displayName) issue, seen) := by
  cases answer with
  | error e => exact .inr ⟨.fetch e, rfl⟩
  | ok raw =>
    cases haccept : accept ssh raw with
    | error issue =>
      refine .inr ⟨issue, ?_⟩
      simp only [inspect, acceptUnique, haccept]
    | ok publicKey =>
      rcases unique_cases seen publicKey key.id with ⟨hfresh, -⟩ | ⟨-, otherItem, hunique⟩
      · exact .inl ⟨raw, publicKey, rfl, haccept, hfresh, inspect_of_fresh haccept hfresh⟩
      · refine .inr ⟨.duplicate otherItem, ?_⟩
        simp only [inspect, acceptUnique, haccept, hunique]

theorem canSign_of_accept (h : accept ssh raw = .ok publicKey) :
    canSign publicKey.keyData.algorithm = true := by
  unfold accept at h
  split_ifs at h
  split at h
  · cases h
  · split_ifs at h with hsign
    obtain rfl := Except.ok.inj h
    exact hsign

/-! ### A whole scan -/

def usables : List KeyInspection → List KeyEntry
  | [] => []
  | .usable entry :: rest => entry :: usables rest
  | .unusable _ _ _ :: rest => usables rest

def skippedKeys (ssh : Ssh) (config : Config) :
    Seen → List (KeyConfig × Except LpassError Bytes) → List KeyConfig
  | _, [] => []
  | seen, (key, answer) :: rest =>
    match inspect ssh config seen key answer with
    | (.usable _, seen) => skippedKeys ssh config seen rest
    | (.unusable _ _ _, seen) => key :: skippedKeys ssh config seen rest

/-- What a set built for `wanted` is. -/
structure ServedFor (config : Config) (wanted : List KeyConfig) (entries : List KeyEntry) :
    Prop where
  distinct : (entries.map fun entry => entry.publicKey.keyData).Nodup
  signable : ∀ entry ∈ entries, canSign entry.publicKey.keyData.algorithm = true
  ordered : ∃ kept : List (KeyConfig × PublicKey), (kept.map Prod.fst).Sublist wanted ∧
    entries = kept.map fun pair => pair.1.entry config pair.2

theorem usables_cons_usable {rest : List (KeyConfig × Except LpassError Bytes)}
    {entry : KeyEntry} {seen' : Seen}
    (h : inspect ssh config seen key answer = (.usable entry, seen')) :
    usables (inspectAnswers ssh config seen ((key, answer) :: rest)) =
      entry :: usables (inspectAnswers ssh config seen' rest) := by
  rw [inspectAnswers, h]
  rfl

theorem usables_cons_unusable {rest : List (KeyConfig × Except LpassError Bytes)}
    {itemId name : String} {issue : KeyIssue} {seen' : Seen}
    (h : inspect ssh config seen key answer = (.unusable itemId name issue, seen')) :
    usables (inspectAnswers ssh config seen ((key, answer) :: rest)) =
      usables (inspectAnswers ssh config seen' rest) := by
  rw [inspectAnswers, h]
  rfl

theorem skippedKeys_cons_usable {rest : List (KeyConfig × Except LpassError Bytes)}
    {entry : KeyEntry} {seen' : Seen}
    (h : inspect ssh config seen key answer = (.usable entry, seen')) :
    skippedKeys ssh config seen ((key, answer) :: rest) = skippedKeys ssh config seen' rest := by
  rw [skippedKeys, h]

theorem skippedKeys_cons_unusable {rest : List (KeyConfig × Except LpassError Bytes)}
    {itemId name : String} {issue : KeyIssue} {seen' : Seen}
    (h : inspect ssh config seen key answer = (.unusable itemId name issue, seen')) :
    skippedKeys ssh config seen ((key, answer) :: rest) =
      key :: skippedKeys ssh config seen' rest := by
  rw [skippedKeys, h]

theorem usables_distinct (seen : Seen) (answers : List (KeyConfig × Except LpassError Bytes)) :
    ((usables (inspectAnswers ssh config seen answers)).map
      fun entry => entry.publicKey.keyData).Nodup ∧
    ∀ entry ∈ usables (inspectAnswers ssh config seen answers), Fresh seen entry.publicKey := by
  induction answers generalizing seen with
  | nil => exact ⟨List.nodup_nil, nofun⟩
  | cons first rest ih =>
    obtain ⟨key, answer⟩ := first
    rcases inspect_cases ssh config seen key answer with
      ⟨raw, publicKey, rfl, haccept, hfresh, h⟩ | ⟨issue, h⟩
    · rw [usables_cons_usable h]
      obtain ⟨hnodup, hlater⟩ := ih (seen ++ [(publicKey.keyData, key.id)])
      refine ⟨List.nodup_cons.mpr ⟨fun hmem => ?_, hnodup⟩, fun entry hentry => ?_⟩
      · obtain ⟨entry, hentry, heq⟩ := List.mem_map.mp hmem
        exact hlater entry hentry (publicKey.keyData, key.id) (by simp) heq.symm
      · rcases List.mem_cons.mp hentry with rfl | hentry
        · exact hfresh
        · exact fun known hknown => hlater entry hentry known (List.mem_append_left _ hknown)
    · rw [usables_cons_unusable h]
      exact ih seen

theorem usables_served (ssh : Ssh) (config : Config) (seen : Seen)
    (answers : List (KeyConfig × Except LpassError Bytes)) :
    ServedFor config (answers.map Prod.fst) (usables (inspectAnswers ssh config seen answers)) := by
  have hkept : ∃ kept : List (KeyConfig × PublicKey),
      (kept.map Prod.fst).Sublist (answers.map Prod.fst) ∧
      (∀ pair ∈ kept, canSign pair.2.keyData.algorithm = true) ∧
      usables (inspectAnswers ssh config seen answers) =
        kept.map fun pair => pair.1.entry config pair.2 := by
    induction answers generalizing seen with
    | nil => exact ⟨[], List.Sublist.refl _, nofun, rfl⟩
    | cons first rest ih =>
      obtain ⟨key, answer⟩ := first
      rcases inspect_cases ssh config seen key answer with
        ⟨raw, publicKey, rfl, haccept, -, h⟩ | ⟨issue, h⟩
      · obtain ⟨kept, hsub, hsign, heq⟩ := ih (seen ++ [(publicKey.keyData, key.id)])
        refine ⟨(key, publicKey) :: kept, hsub.cons_cons key, ?_, ?_⟩
        · exact List.forall_mem_cons.mpr ⟨canSign_of_accept haccept, hsign⟩
        · rw [usables_cons_usable h, heq]
          rfl
      · obtain ⟨kept, hsub, hsign, heq⟩ := ih seen
        exact ⟨kept, hsub.cons key, hsign, (usables_cons_unusable h).trans heq⟩
  obtain ⟨kept, hsub, hsign, heq⟩ := hkept
  refine ⟨(usables_distinct seen answers).1, fun entry hentry => ?_, kept, hsub, heq⟩
  rw [heq] at hentry
  obtain ⟨pair, hpair, rfl⟩ := List.mem_map.mp hentry
  exact hsign pair hpair

/-! ### What the two scans keep -/

/-- Whatever was skipped was skipped on the vault's verdict. -/
def OnVerdicts (inspected : List KeyInspection) : Prop :=
  ∀ itemId name issue, .unusable itemId name issue ∈ inspected → isVerdict issue = true

namespace KeyStore

theorem usables_of_collect (h : collect inspected = .ok entries) : entries = usables inspected := by
  induction inspected generalizing entries with
  | nil => exact (Except.ok.inj h).symm
  | cons inspection rest ih =>
    cases inspection with
    | usable entry =>
      obtain ⟨others, hothers, rfl⟩ := collect_usable h
      rw [ih hothers]
      rfl
    | unusable itemId name issue => exact ih (collect_unusable h)

theorem collect_of_verdict {itemId name : String} {issue : KeyIssue} {rest : List KeyInspection}
    (h : isVerdict issue = true) : collect (.unusable itemId name issue :: rest) = collect rest := by
  cases issue with
  | fetch e =>
    cases e with
    | itemNotFound item => rfl
    | fieldNotFound item field => rfl
    | _ => exact absurd h nofun
  | duplicate other => exact absurd h nofun
  | _ => rfl

/-- The strict policy keeps what the lenient one does, when it keeps anything. -/
theorem collectComplete_iff : collectComplete inspected = some entries ↔
    collect inspected = .ok entries ∧ OnVerdicts inspected := by
  induction inspected generalizing entries with
  | nil => simp [collectComplete, collect, OnVerdicts]
  | cons inspection rest ih =>
    cases inspection with
    | usable entry =>
      have hrest : OnVerdicts (.usable entry :: rest) ↔ OnVerdicts rest := by simp [OnVerdicts]
      rw [hrest]
      constructor
      · intro h
        obtain ⟨others, hothers, rfl⟩ := Option.map_eq_some_iff.mp h
        obtain ⟨hcollect, hverdicts⟩ := ih.mp hothers
        refine ⟨?_, hverdicts⟩
        rw [collect, hcollect]
        rfl
      · rintro ⟨h, hverdicts⟩
        obtain ⟨others, hothers, rfl⟩ := collect_usable h
        rw [collectComplete, ih.mpr ⟨hothers, hverdicts⟩]
        rfl
    | unusable itemId name issue =>
      rw [collectComplete]
      by_cases hverdict : isVerdict issue = true
      · have hrest : OnVerdicts (.unusable itemId name issue :: rest) ↔ OnVerdicts rest := by
          refine ⟨fun h _ _ _ hmem => h _ _ _ (List.mem_cons_of_mem _ hmem), fun h _ _ _ hmem => ?_⟩
          rcases List.mem_cons.mp hmem with heq | hmem
          · obtain ⟨-, -, rfl⟩ := KeyInspection.unusable.inj heq
            exact hverdict
          · exact h _ _ _ hmem
        rw [if_pos hverdict, hrest, collect_of_verdict hverdict]
        exact ih
      · rw [if_neg hverdict]
        refine iff_of_false (Option.some_ne_none entries).symm fun h => hverdict ?_
        exact h.2 itemId name issue List.mem_cons_self

def loadFrom (ssh : Ssh) (config : Config) (answers : List (KeyConfig × Except LpassError Bytes)) :
    Except Error KeyStore :=
  (collect (inspectAnswers ssh config [] answers)).bind finishLoad

def loadCompleteFrom (ssh : Ssh) (config : Config)
    (answers : List (KeyConfig × Except LpassError Bytes)) : Option KeyStore :=
  (collectComplete (inspectAnswers ssh config [] answers)).bind finishComplete

theorem loadFrom_eq_ok {store : KeyStore} : loadFrom ssh config answers = .ok store ↔
    collect (inspectAnswers ssh config [] answers) = .ok store.entries ∧ store.entries ≠ [] := by
  obtain ⟨entries⟩ := store
  unfold loadFrom
  cases collect (inspectAnswers ssh config [] answers) with
  | error e => simp [Except.bind]
  | ok others =>
    have hfinish : (Except.ok others : Except Error (List KeyEntry)).bind finishLoad =
        if others.isEmpty then _ else .ok ⟨others⟩ := rfl
    rw [hfinish]
    split_ifs with hempty
    · rw [List.isEmpty_iff.mp hempty]
      simp
    · simp only [Except.ok.injEq, KeyStore.mk.injEq, iff_self_and]
      rintro rfl rfl
      exact hempty rfl

theorem loadCompleteFrom_eq_some {store : KeyStore} : loadCompleteFrom ssh config answers = some store ↔
    collectComplete (inspectAnswers ssh config [] answers) = some store.entries ∧
      store.entries ≠ [] := by
  obtain ⟨entries⟩ := store
  unfold loadCompleteFrom finishComplete
  simp only [Option.bind_eq_some_iff]
  constructor
  · rintro ⟨others, hcollect, hfinish⟩
    split_ifs at hfinish with hempty
    obtain rfl := KeyStore.mk.inj (Option.some.inj hfinish)
    exact ⟨hcollect, fun hnil => hempty (List.isEmpty_iff.mpr hnil)⟩
  · rintro ⟨hcollect, hne⟩
    exact ⟨entries, hcollect, if_neg fun hempty => hne (List.isEmpty_iff.mp hempty)⟩

/-! ### The file as the vault -/

/-- What the identities file says when it is asked for a public key. -/
def fileAnswer (remembered : Remembered) (key : KeyConfig) : Except LpassError Bytes :=
  match remembered.keys.find? fun known => known.id == key.id with
  | none => .error (.itemNotFound key.id)
  | some known => .ok (utf8 known.publicKey)

def fileAnswers (remembered : Remembered) (wanted : List KeyConfig) :
    List (KeyConfig × Except LpassError Bytes) :=
  wanted.map fun key => (key, fileAnswer remembered key)

theorem fst_fileAnswers (remembered : Remembered) (wanted : List KeyConfig) :
    (fileAnswers remembered wanted).map Prod.fst = wanted := by
  rw [fileAnswers, List.map_map]
  exact List.map_id wanted

/-- Rebuilding a set is a scan that the file answers. -/
theorem rebuild_eq (remembered : Remembered) (seen : Seen) (wanted : List KeyConfig) :
    rebuild ssh remembered config seen wanted =
      (usables (inspectAnswers ssh config seen (fileAnswers remembered wanted)),
        skippedKeys ssh config seen (fileAnswers remembered wanted)) := by
  induction wanted generalizing seen with
  | nil => rfl
  | cons key wanted ih =>
    have hcons : fileAnswers remembered (key :: wanted) =
        (key, fileAnswer remembered key) :: fileAnswers remembered wanted := rfl
    rw [hcons]
    cases hfind : remembered.keys.find? fun known => known.id == key.id with
    | none =>
      have hfile : fileAnswer remembered key = .error (.itemNotFound key.id) := by
        rw [fileAnswer, hfind]
      have hinspect : inspect ssh config seen key (fileAnswer remembered key) =
          (.unusable key.id (escapeForDisplay key.displayName) (.fetch (.itemNotFound key.id)),
            seen) := by
        rw [hfile, inspect_error]
      rw [usables_cons_unusable hinspect, skippedKeys_cons_unusable hinspect]
      simp only [rebuild, hfind, ih]
    | some known =>
      have hfile : fileAnswer remembered key = .ok (utf8 known.publicKey) := by
        rw [fileAnswer, hfind]
      rcases hunique : acceptUnique ssh seen (utf8 known.publicKey) key.id with ⟨issue | publicKey, seen'⟩
      · have hinspect : inspect ssh config seen key (fileAnswer remembered key) =
            (.unusable key.id (escapeForDisplay key.displayName) issue, seen') := by
          rw [hfile]
          simp only [inspect, hunique]
        rw [usables_cons_unusable hinspect, skippedKeys_cons_unusable hinspect]
        simp only [rebuild, hfind, hunique, ih]
      · have hinspect : inspect ssh config seen key (fileAnswer remembered key) =
            (.usable (key.entry config publicKey), seen') := by
          rw [hfile]
          simp only [inspect, hunique]
        rw [usables_cons_usable hinspect, skippedKeys_cons_usable hinspect]
        simp only [rebuild, hfind, hunique, ih]

theorem fromRemembered_eq (ssh : Ssh) (remembered : Remembered) (config : Config) :
    fromRemembered ssh remembered config =
      ⟨⟨usables (inspectAnswers ssh config []
        (fileAnswers remembered (wantedFrom remembered config)))⟩,
        skippedKeys ssh config [] (fileAnswers remembered (wantedFrom remembered config))⟩ := by
  rw [fromRemembered, rebuild_eq]

/-! ### Looking a key up -/

theorem find?_of_nodup {α β : Type} [BEq β] [LawfulBEq β] {f : α → β} {l : List α}
    (h : (l.map f).Nodup) {a : α} {b : β} : l.find? (fun x => f x == b) = some a ↔
      a ∈ l ∧ f a = b := by
  constructor
  · intro hfind
    exact ⟨List.mem_of_find?_eq_some hfind, by simpa using List.find?_some hfind⟩
  · rintro ⟨ha, rfl⟩
    obtain ⟨x, hx⟩ : ∃ x, l.find? (fun x => f x == f a) = some x := by
      rw [← Option.isSome_iff_exists, List.find?_isSome]
      exact ⟨a, ha, by simp⟩
    have hfx : f x = f a := by simpa using List.find?_some hx
    rw [hx, List.inj_on_of_nodup_map h (List.mem_of_find?_eq_some hx) ha hfx]

/-- A public key is looked up to the one entry that has it. -/
theorem lookup_eq_some {store : KeyStore} {wanted : List KeyConfig} {keyData : KeyData}
    {entry : KeyEntry} (h : ServedFor config wanted store.entries) :
    store.lookup keyData = some entry ↔
      entry ∈ store.entries ∧ entry.publicKey.keyData = keyData :=
  find?_of_nodup h.distinct

theorem lookup_eq_none {store : KeyStore} {keyData : KeyData} : store.lookup keyData = none ↔
    ∀ entry ∈ store.entries, entry.publicKey.keyData ≠ keyData := by
  simp [lookup]

/-! ### The programs -/

variable {client : LpassCli} {keys : List KeyConfig} {t : ℕ} {s s' : Stage runtime}

theorem load_runs {r : Except Error KeyStore} (h : Runs t (load ssh client config keys) s r s') :
    ∃ answers, Scan s' t client.source keys answers ∧ r = loadFrom ssh config answers := by
  obtain ⟨inspected, s₁, hinspected, h⟩ := runs_bind.mp h
  cases h
  obtain ⟨answers, hkeys, rfl, hgiven⟩ := Rules.wp_runs hinspected inspectKeys_free
  exact ⟨answers, ⟨hkeys, hgiven⟩, rfl⟩

theorem loadComplete_runs {r : Option KeyStore}
    (h : Runs t (loadComplete ssh client config keys) s r s') :
    ∃ answers, Scan s' t client.source keys answers ∧ r = loadCompleteFrom ssh config answers := by
  obtain ⟨inspected, s₁, hinspected, h⟩ := runs_bind.mp h
  cases h
  obtain ⟨answers, hkeys, rfl, hgiven⟩ := Rules.wp_runs hinspected inspectKeys_free
  exact ⟨answers, ⟨hkeys, hgiven⟩, rfl⟩

end KeyStore

/-- What the three builders of a set promise of it, and of each other. -/
structure BuildersAgree (ssh : Ssh) (config : Config) : Prop where
  /-- The scans are functions of what the vault answers for each key. -/
  load : ∀ client keys t s r s', Runs t (KeyStore.load ssh client config keys) s r s' →
    ∃ answers, Scan s' t client.source keys answers ∧ r = KeyStore.loadFrom ssh config answers
  loadComplete : ∀ client keys t s r s',
    Runs t (KeyStore.loadComplete ssh client config keys) s r s' →
    ∃ answers, Scan s' t client.source keys answers ∧ r = KeyStore.loadCompleteFrom ssh config answers
  /-- Whichever of them built it, a set is in order and lists no public key twice. -/
  loaded : ∀ answers store, KeyStore.loadFrom ssh config answers = .ok store →
    ServedFor config (answers.map Prod.fst) store.entries
  loadedComplete : ∀ answers store, KeyStore.loadCompleteFrom ssh config answers = some store →
    ServedFor config (answers.map Prod.fst) store.entries
  rebuilt : ∀ remembered, ServedFor config (KeyStore.wantedFrom remembered config)
    (KeyStore.fromRemembered ssh remembered config).store.entries
  /-- A public key is looked up to the one entry that has it, if any does. -/
  lookup : ∀ (store : KeyStore) wanted keyData entry, ServedFor config wanted store.entries →
    (store.lookup keyData = some entry ↔
      entry ∈ store.entries ∧ entry.publicKey.keyData = keyData)
  lookup_none : ∀ (store : KeyStore) keyData, store.lookup keyData = none ↔
    ∀ entry ∈ store.entries, entry.publicKey.keyData ≠ keyData
  /-- The strict scan is the lenient one that skipped on verdicts only. -/
  strict : ∀ answers store, KeyStore.loadCompleteFrom ssh config answers = some store ↔
    KeyStore.loadFrom ssh config answers = .ok store ∧
      OnVerdicts (inspectAnswers ssh config [] answers)

theorem builders_agree (ssh : Ssh) (config : Config) : BuildersAgree ssh config := by
  have hloaded : ∀ answers store, KeyStore.loadFrom ssh config answers = .ok store →
      ServedFor config (answers.map Prod.fst) store.entries := by
    intro answers store h
    rw [KeyStore.usables_of_collect (KeyStore.loadFrom_eq_ok.mp h).1]
    exact usables_served _ _ [] answers
  have hstrict : ∀ answers store, KeyStore.loadCompleteFrom ssh config answers = some store ↔
      KeyStore.loadFrom ssh config answers = .ok store ∧
        OnVerdicts (inspectAnswers ssh config [] answers) := by
    intro answers store
    rw [KeyStore.loadCompleteFrom_eq_some, KeyStore.loadFrom_eq_ok, KeyStore.collectComplete_iff]
    exact and_right_comm
  refine ⟨fun _ _ _ _ _ _ => KeyStore.load_runs, fun _ _ _ _ _ _ => KeyStore.loadComplete_runs,
    hloaded, fun answers store h => hloaded answers store ((hstrict answers store).mp h).1, ?_,
    fun _ _ _ _ => KeyStore.lookup_eq_some, fun _ _ => KeyStore.lookup_eq_none, hstrict⟩
  intro remembered
  have hserved := usables_served ssh config []
    (KeyStore.fileAnswers remembered (KeyStore.wantedFrom remembered config))
  rw [KeyStore.fst_fileAnswers] at hserved
  rwa [KeyStore.fromRemembered_eq]

end LastpassSshAgent
