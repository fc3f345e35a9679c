import LastpassSshAgent.Advertised
import LastpassSshAgent.Doctor

/-!
# What a checklist says of a start

`doctor` and `start` scan the vault alike and make different things of it: lines, and a set
to serve. Where the one is complete the other passes, line by line.
-/

namespace LastpassSshAgent

open Resumption

/-! ### A scan and what is made of it -/

/-- The keys that are wanted and what the vault answers for each, or why there are none. -/
abbrev Found : Type := Except Error (List (KeyConfig × Except LpassError Bytes))

def askKeys (client : LpassCli) :
    List KeyConfig → Async (List (KeyConfig × Except LpassError Bytes))
  | [] => pure []
  | key :: keys => do
    let answer ← client.showField key.id "Public Key"
    let rest ← askKeys client keys
    pure ((key, answer) :: rest)

def scanKeys (client : LpassCli) (config : Config) : Async Found := do
  let keys ← effectiveKeys client config
  match keys with
  | .error e => pure (.error e)
  | .ok keys => do
    let answers ← askKeys client keys
    pure (.ok answers)

/-- The set a start serves after such a scan, and how many keys it set out to load. -/
def storeFrom (ssh : Ssh) (config : Config) (found : Found) : Except Error (KeyStore × ℕ) :=
  found.bind fun answers =>
    (KeyStore.loadFrom ssh config answers).map fun store => (store, answers.length)

def linesFrom (ssh : Ssh) (config : Config) : Found → List Check
  | .error e => [.failed "keys" e.display]
  | .ok answers => Doctor.keyLines ssh (inspectAnswers ssh config [] answers)

section

variable {ssh : Ssh} {client : LpassCli} {config : Config} {doctor : Doctor} {found : Found}
  {inspected : List KeyInspection} {entries : List KeyEntry} {store : KeyStore}

theorem inspectKeys_eq (seen : Seen) (keys : List KeyConfig) :
    inspectKeys ssh client config seen keys =
      (askKeys client keys).bind fun answers => .done (inspectAnswers ssh config seen answers) := by
  induction keys generalizing seen with
  | nil => rfl
  | cons key keys ih =>
    have hsteps : inspectKeys ssh client config seen (key :: keys) =
        (client.showField key.id "Public Key").bind fun answer =>
          (inspectKeys ssh client config (inspect ssh config seen key answer).2 keys).bind
            fun rest => .done ((inspect ssh config seen key answer).1 :: rest) := rfl
    have hasked : askKeys client (key :: keys) =
        (client.showField key.id "Public Key").bind fun answer =>
          (askKeys client keys).bind fun rest => .done ((key, answer) :: rest) := rfl
    rw [hsteps, hasked, Program.bind_bind]
    congr 1
    funext answer
    rw [ih, Program.bind_bind, Program.bind_bind]
    rfl

theorem checkKeys_eq : doctor.checkKeys client config =
    (scanKeys client config).bind fun found => .done (linesFrom doctor.ssh config found) := by
  have hsteps : doctor.checkKeys client config = (effectiveKeys client config).bind fun keys =>
      match keys with
      | .error e => .done [.failed "keys" e.display]
      | .ok keys => (inspectKeys doctor.ssh client config [] keys).bind fun inspected =>
          .done (Doctor.keyLines doctor.ssh inspected) := rfl
  rw [hsteps, scanKeys]
  change _ = ((effectiveKeys client config).bind _).bind _
  rw [Program.bind_bind]
  congr 1
  funext keys
  cases keys with
  | error e => rfl
  | ok keys =>
    dsimp only
    rw [inspectKeys_eq, Program.bind_bind]
    change _ = ((askKeys client keys).bind _).bind _
    rw [Program.bind_bind]
    rfl

theorem askKeys_asks (keys : List KeyConfig) :
    (askKeys client keys).Gives (fun _ => True) fun answers => answers.map Prod.fst = keys := by
  induction keys with
  | nil => rfl
  | cons key keys ih =>
    refine (Program.Keeps.any _).bind fun answer _ => ih.bind fun rest hrest => ?_
    exact congrArg (key :: ·) hrest

theorem scannedStore_eq {command : Command} : command.scannedStore =
    (scanKeys command.client command.config).bind fun found =>
      .done (storeFrom command.ssh command.config found) := by
  have hsteps : command.scannedStore = (effectiveKeys command.client command.config).bind fun keys =>
      match keys with
      | .error e => .done (.error e)
      | .ok keys =>
        ((inspectKeys command.ssh command.client command.config [] keys).bind fun inspected =>
          .done ((KeyStore.collect inspected).bind KeyStore.finishLoad)).bind fun store =>
            .done (store.map fun store => (store, keys.length)) := rfl
  rw [hsteps, scanKeys]
  change _ = ((effectiveKeys command.client command.config).bind _).bind _
  rw [Program.bind_bind]
  congr 1
  funext keys
  cases keys with
  | error e => rfl
  | ok keys =>
    have hasked : (askKeys command.client keys).Gives (fun _ => True) fun answers =>
        answers.map Prod.fst = keys := askKeys_asks keys
    have hlength := hasked.bind_congr
      (f := fun answers => .done ((KeyStore.loadFrom command.ssh command.config answers).map
        fun store => (store, keys.length)))
      (g := fun answers => .done (storeFrom command.ssh command.config (.ok answers)))
      fun answers hasked => by rw [← hasked, List.length_map]; rfl
    dsimp only
    rw [inspectKeys_eq, Program.bind_bind, Program.bind_bind]
    change _ = ((askKeys command.client keys).bind _).bind _
    rw [Program.bind_bind]
    exact hlength

theorem scanKeys_nonempty : (scanKeys client config).Gives (fun _ => True) fun found =>
    ∀ answers, found = .ok answers → answers ≠ [] := by
  have hkeys : (effectiveKeys client config).Gives (fun _ => True) fun r => r ≠ .ok [] := by
    unfold effectiveKeys
    split_ifs with hpinned
    · refine (Program.Keeps.any _).bind fun found _ => ?_
      cases found with
      | error e => exact nofun
      | ok found =>
        dsimp only
        split_ifs with hnone
        · exact nofun
        · intro h
          rw [List.map_eq_nil_iff.mp (Except.ok.inj h)] at hnone
          exact hnone rfl
    · intro h
      rw [Except.ok.inj h] at hpinned
      exact hpinned rfl
  refine hkeys.bind fun keys hne => ?_
  cases keys with
  | error e => exact fun answers h => nomatch h
  | ok keys =>
    refine (askKeys_asks keys).bind fun answers hasked answers' h hnil => hne ?_
    obtain rfl := Except.ok.inj h
    rw [← hasked, hnil]
    rfl

/-! ### Lines and keys -/

theorem keyLine_ok {inspection : KeyInspection} :
    (Doctor.keyLine ssh inspection).ok = true ↔ ∃ entry, inspection = .usable entry := by
  cases inspection with
  | usable entry => exact iff_of_true rfl ⟨entry, rfl⟩
  | unusable itemId name issue => exact iff_of_false Bool.false_ne_true nofun

/-- The lines that pass are those of the keys that can be served, in their order. -/
theorem passed_keyLines : (inspected.map (Doctor.keyLine ssh)).filter Check.ok =
    (usables inspected).map fun entry => Doctor.keyLine ssh (.usable entry) := by
  induction inspected with
  | nil => rfl
  | cons inspection rest ih =>
    cases inspection with
    | usable entry => exact congrArg (Doctor.keyLine ssh (.usable entry) :: ·) ih
    | unusable itemId name issue => exact ih

theorem length_usables_le : (usables inspected).length ≤ inspected.length := by
  induction inspected with
  | nil => exact le_rfl
  | cons inspection rest ih =>
    cases inspection with
    | usable entry => exact Nat.succ_le_succ ih
    | unusable itemId name issue => exact ih.trans (Nat.le_succ _)

theorem keyLines_passed_iff : (∀ check ∈ inspected.map (Doctor.keyLine ssh), check.ok = true) ↔
    ∃ entries, KeyStore.collect inspected = .ok entries ∧ entries.length = inspected.length := by
  induction inspected with
  | nil => exact iff_of_true nofun ⟨[], rfl, rfl⟩
  | cons inspection rest ih =>
    rw [List.map_cons, List.forall_mem_cons, ih, keyLine_ok]
    constructor
    · rintro ⟨⟨entry, rfl⟩, entries, hcollect, hlength⟩
      refine ⟨entry :: entries, ?_, congrArg Nat.succ hlength⟩
      rw [KeyStore.collect, hcollect]
      rfl
    · rintro ⟨entries, hcollect, hlength⟩
      have husable := KeyStore.usables_of_collect hcollect
      cases inspection with
      | usable entry =>
        obtain ⟨others, hothers, rfl⟩ := KeyStore.collect_usable hcollect
        exact ⟨⟨entry, rfl⟩, others, hothers, Nat.succ.inj hlength⟩
      | unusable itemId name issue =>
        have hle : (usables rest).length ≤ rest.length := length_usables_le
        rw [husable, show usables (.unusable itemId name issue :: rest) = usables rest from rfl,
          List.length_cons] at hlength
        omega

theorem ok_tooManyKeys {label : String} {served : ℕ} :
    ∀ check ∈ (Doctor.tooManyKeys label served).toList, check.ok = true := by
  intro check hcheck
  unfold Doctor.tooManyKeys at hcheck
  split_ifs at hcheck
  · obtain rfl := List.mem_singleton.mp hcheck
    rfl
  · cases hcheck

theorem length_inspectAnswers (seen : Seen) (answers : List (KeyConfig × Except LpassError Bytes)) :
    (inspectAnswers ssh config seen answers).length = answers.length := by
  induction answers generalizing seen with
  | nil => rfl
  | cons first rest ih => exact congrArg Nat.succ (ih _)

theorem storeFrom_eq_ok {wanted : ℕ} : storeFrom ssh config found = .ok (store, wanted) ↔
    ∃ answers, found = .ok answers ∧
      KeyStore.collect (inspectAnswers ssh config [] answers) = .ok store.entries ∧
      store.entries ≠ [] ∧ wanted = answers.length := by
  cases found with
  | error e => exact iff_of_false nofun (by rintro ⟨answers, h, -⟩; cases h)
  | ok answers =>
    have hmap : storeFrom ssh config (.ok answers) = .ok (store, wanted) ↔
        KeyStore.loadFrom ssh config answers = .ok store ∧ wanted = answers.length := by
      change (KeyStore.loadFrom ssh config answers).map _ = _ ↔ _
      cases KeyStore.loadFrom ssh config answers with
      | error e => simp [Except.map]
      | ok loaded => simp [Except.map, eq_comm]
    rw [hmap, KeyStore.loadFrom_eq_ok, and_assoc]
    constructor
    · intro h
      exact ⟨answers, rfl, h⟩
    · rintro ⟨_, hanswers, h⟩
      obtain rfl := Except.ok.inj hanswers
      exact h

theorem linesFrom_passed_iff (hne : ∀ answers, found = .ok answers → answers ≠ []) :
    (∀ check ∈ linesFrom ssh config found, check.ok = true) ↔
      ∃ store, storeFrom ssh config found = .ok (store, store.entries.length) := by
  cases found with
  | error e =>
    refine iff_of_false (fun h => ?_) fun ⟨store, h⟩ => ?_
    · exact Bool.false_ne_true (h _ List.mem_cons_self)
    · cases h
  | ok answers =>
    have hlines : linesFrom ssh config (.ok answers) =
        (inspectAnswers ssh config [] answers).map (Doctor.keyLine ssh) ++ _ := rfl
    rw [hlines, List.forall_mem_append, keyLines_passed_iff]
    constructor
    · rintro ⟨⟨entries, hcollect, hlength⟩, -⟩
      rw [length_inspectAnswers] at hlength
      refine ⟨⟨entries⟩, storeFrom_eq_ok.mpr ⟨answers, rfl, hcollect, fun hnil => ?_, hlength⟩⟩
      rw [show entries = [] from hnil, List.length_nil] at hlength
      exact hne answers rfl (List.eq_nil_of_length_eq_zero hlength.symm)
    · rintro ⟨store, hstore⟩
      obtain ⟨_, hanswers, hcollect, -, hlength⟩ := storeFrom_eq_ok.mp hstore
      obtain rfl := Except.ok.inj hanswers
      refine ⟨⟨store.entries, hcollect, ?_⟩, ok_tooManyKeys⟩
      rw [length_inspectAnswers, hlength]

theorem passed_linesFrom {wanted : ℕ} (h : storeFrom ssh config found = .ok (store, wanted)) :
    (linesFrom ssh config found).filter Check.ok =
      (store.entries.map fun entry => Doctor.keyLine ssh (.usable entry)) ++
        (Doctor.tooManyKeys "key count" store.entries.length).toList := by
  obtain ⟨answers, rfl, hcollect, -⟩ := storeFrom_eq_ok.mp h
  rw [KeyStore.usables_of_collect hcollect, linesFrom, Doctor.keyLines]
  rw [List.filter_append, passed_keyLines, List.countP_eq_length_filter, passed_keyLines,
    List.length_map, List.filter_eq_self.mpr ok_tooManyKeys]

/-! ### The rest of the checklist -/

theorem checkConfig_of_load (h : doctor.loader.loadOrDefault doctor.file = .ok config) :
    ∃ check, doctor.checkConfig = (check, some config) ∧ check.ok = true := by
  unfold ConfigLoader.loadOrDefault at h
  unfold Doctor.checkConfig ConfigLoader.loadOrDefault
  split at h
  · rename_i hmissing
    obtain rfl := Except.ok.inj h
    rw [hmissing]
    exact ⟨_, rfl, rfl⟩
  · rw [h]
    exact ⟨_, rfl, rfl⟩

theorem checkConfig_of_refused {e : ConfigError}
    (h : doctor.loader.loadOrDefault doctor.file = .error e) :
    ∃ check, doctor.checkConfig = (check, none) ∧ check.ok = false := by
  unfold ConfigLoader.loadOrDefault at h
  unfold Doctor.checkConfig
  split at h
  · cases h
  · rename_i hother
    rw [h]
    cases e with
    | missing => exact absurd h hother
    | read why => exact ⟨_, rfl, rfl⟩
    | parse why => exact ⟨_, rfl, rfl⟩
    | refused e => exact ⟨_, rfl, rfl⟩

theorem oneShotSource_of_load (h : doctor.loader.loadOrDefault doctor.file = .ok config) :
    ∃ client, doctor.oneShotSource config = .ok client := by
  have hconfirm : ¬ (config.confirm = .askpass ∧ config.askpass = none) := by
    intro hnone
    obtain ⟨⟨⟩, -, hrest⟩ := bind_eq_ok.mp (ConfigLoader.validate_of_loadOrDefault h)
    obtain ⟨⟨⟩, -, hrest⟩ := bind_eq_ok.mp hrest
    obtain ⟨⟨⟩, -, hrest⟩ := bind_eq_ok.mp hrest
    obtain ⟨⟨⟩, -, hrest⟩ := bind_eq_ok.mp hrest
    obtain ⟨⟨⟩, hchecked, -⟩ := bind_eq_ok.mp hrest
    rw [Config.checkConfirm, if_pos hnone] at hchecked
    cases hchecked
  unfold Doctor.oneShotSource Doctor.unlockFrom
  rw [if_neg hconfirm]
  split_ifs
  · exact ⟨_, rfl⟩
  · exact ⟨_, rfl⟩

theorem checkSocket_ok {socket : Bytes} (hsocket : doctor.socketPath config = .ok socket) :
    (doctor.checkSocket config).ok = true ↔ ∃ setup dir,
      doctor.socketDir socket = some (setup, .ok dir) ∧ SocketPath.validateDir setup dir = .ok () := by
  unfold Doctor.checkSocket
  rw [hsocket]
  dsimp only
  rcases doctor.socketDir socket with _ | ⟨setup, why | dir⟩
  · exact iff_of_false Bool.false_ne_true (by simp)
  · exact iff_of_false Bool.false_ne_true (by simp)
  · dsimp only
    cases hdir : SocketPath.validateDir setup dir with
    | error e => simp [Check.failed, hdir]
    | ok u => simp [Check.passed, hdir]

theorem checkRemembered_ok {socket : Bytes} (hsocket : doctor.socketPath config = .ok socket) :
    (∀ check ∈ doctor.checkRemembered config, check.ok = true) ↔ ∃ kept,
      rememberedStore doctor.ssh doctor.toml (Doctor.beside socket ".identities") config
        (doctor.identities socket) = .ok kept := by
  unfold Doctor.checkRemembered
  rw [hsocket]
  cases hload : Identities.load doctor.toml (Doctor.beside socket ".identities")
    (doctor.identities socket) with
  | error e =>
    have hstart : rememberedStore doctor.ssh doctor.toml (Doctor.beside socket ".identities") config
        (doctor.identities socket) = .error e := by
      rw [rememberedStore, hload]
      rfl
    rw [hstart]
    simp [bind, Except.bind, hload, Check.failed]
  | ok found =>
    cases found with
    | none =>
      have hstart : rememberedStore doctor.ssh doctor.toml (Doctor.beside socket ".identities")
          config (doctor.identities socket) = .ok none := by
        rw [rememberedStore, hload]
        rfl
      rw [hstart]
      simp [bind, Except.bind, hload, Check.passed]
    | some remembered =>
      rw [rememberedStore_of_load hload rfl]
      simp only [bind, Except.bind, hload, List.forall_mem_cons]
      exact iff_of_true ⟨rfl, ok_tooManyKeys⟩ ⟨_, rfl⟩

theorem masterPasswordCheck_ok {socket : Bytes} (hsocket : doctor.socketPath config = .ok socket) :
    (Doctor.masterPasswordCheck config.masterPassword doctor.storeAvailable
      (doctor.masterPasswordSeeded config)).ok = true ↔
    (config.masterPassword = .touchId → doctor.storeAvailable = true ∧ ∃ stored,
      Enclave.load (Doctor.beside socket ".master") (doctor.sealedAt socket) = .ok (some stored)) := by
  have hseeded : doctor.masterPasswordSeeded config = true ↔ ∃ stored,
      Enclave.load (Doctor.beside socket ".master") (doctor.sealedAt socket) = .ok (some stored) := by
    have hbind : (doctor.socketPath config >>= fun socket =>
          Enclave.load (Doctor.beside socket ".master") (doctor.sealedAt socket)) =
        Enclave.load (Doctor.beside socket ".master") (doctor.sealedAt socket) := by
      rw [hsocket]
      rfl
    unfold Doctor.masterPasswordSeeded
    rw [hbind]
    rcases Enclave.load (Doctor.beside socket ".master") (doctor.sealedAt socket) with
      e | _ | stored <;> simp
  unfold Doctor.masterPasswordCheck
  cases config.masterPassword with
  | prompt => exact iff_of_true rfl fun habsurd => by cases habsurd
  | touchId =>
    rw [← hseeded]
    cases doctor.storeAvailable with
    | false => simp [Check.failed]
    | true =>
      cases doctor.masterPasswordSeeded config with
      | false => simp [Check.failed]
      | true => simp [Check.passed]

/-! ### The whole of it -/

/-- The setup as a start would find it, where the vault lists as it did and is scanned as it
was. -/
structure Doctor.Ready (doctor : Doctor) (config : Config) (socket : Bytes)
    (listing : Except LpassError (List ItemSummary)) (found : Found) : Prop where
  closed : doctor.plaintextKey = none
  opens : (∃ items store, listing = .ok items ∧
      storeFrom doctor.ssh config found = .ok (store, store.entries.length)) ∨
    (listing = .error .locked ∧ doctor.session = true)
  binds : ∃ setup dir, doctor.socketDir socket = some (setup, .ok dir) ∧
    SocketPath.validateDir setup dir = .ok ()
  remembers : ∃ kept, rememberedStore doctor.ssh doctor.toml (Doctor.beside socket ".identities")
    config (doctor.identities socket) = .ok kept
  seeded : config.masterPassword = .touchId → doctor.storeAvailable = true ∧ ∃ stored,
    Enclave.load (Doctor.beside socket ".master") (doctor.sealedAt socket) = .ok (some stored)

theorem machineChecks_ok {socket : Bytes} (hsocket : doctor.socketPath config = .ok socket) :
    (∀ check ∈ doctor.machineChecks config, check.ok = true) ↔
      (∃ setup dir, doctor.socketDir socket = some (setup, .ok dir) ∧
        SocketPath.validateDir setup dir = .ok ()) ∧
      (∃ kept, rememberedStore doctor.ssh doctor.toml (Doctor.beside socket ".identities") config
        (doctor.identities socket) = .ok kept) ∧
      (config.masterPassword = .touchId → doctor.storeAvailable = true ∧ ∃ stored,
        Enclave.load (Doctor.beside socket ".master") (doctor.sealedAt socket) =
          .ok (some stored)) := by
  rw [Doctor.machineChecks, List.cons_append, List.forall_mem_cons, List.forall_mem_append,
    List.forall_mem_singleton, checkSocket_ok hsocket, checkRemembered_ok hsocket,
    masterPasswordCheck_ok hsocket]

theorem loginCheck_ok {listing : Except LpassError (List ItemSummary)} :
    (doctor.loginCheck listing).ok = true ↔
      (∃ items, listing = .ok items) ∨ (listing = .error .locked ∧ doctor.session = true) := by
  cases listing with
  | ok items => exact iff_of_true rfl (.inl ⟨items, rfl⟩)
  | error e =>
    cases e with
    | locked =>
      unfold Doctor.loginCheck
      dsimp only
      split_ifs with hsession
      · exact iff_of_true rfl (.inr ⟨rfl, hsession⟩)
      · exact iff_of_false Bool.false_ne_true (by simp [hsession])
    | _ => exact iff_of_false Bool.false_ne_true (by simp)

theorem outcome_ok {report : List Check} :
    Doctor.outcome report = .ok () ↔ ∀ check ∈ report, check.ok = true := by
  unfold Doctor.outcome
  rw [← List.all_eq_true]
  split_ifs with h
  · exact iff_of_true rfl h
  · exact iff_of_false nofun h

theorem checkPlaintextKey_ok : doctor.checkPlaintextKey.ok = true ↔ doctor.plaintextKey = none := by
  unfold Doctor.checkPlaintextKey
  cases doctor.plaintextKey with
  | none => exact iff_of_true rfl rfl
  | some path => exact iff_of_false Bool.false_ne_true nofun

def reportOf (doctor : Doctor) (config : Config) (first second : Check)
    (listing : Except LpassError (List ItemSummary)) (keys : List Check) : List Check :=
  first :: second :: [doctor.loginCheck listing] ++ doctor.checkPlaintextKey :: keys ++
    doctor.machineChecks config

theorem run_eq {binary : String} {socket : Bytes}
    (hload : doctor.loader.loadOrDefault doctor.file = .ok config)
    (hbinary : doctor.resolveBinary config.lpassPath = some binary)
    (hsocket : doctor.socketPath config = .ok socket)
    (hsource : doctor.oneShotSource config = .ok client) :
    ∃ first second, first.ok = true ∧ second.ok = true ∧
      doctor.run = client.ls.bind fun listing =>
        (if listing.isOk then (scanKeys client config).bind fun found =>
            .done (linesFrom doctor.ssh config found)
          else .done []).bind fun keys =>
            .done (reportOf doctor config first second listing keys,
              Doctor.outcome (reportOf doctor config first second listing keys)) := by
  obtain ⟨first, hfirst, hok⟩ := checkConfig_of_load hload
  have hsecond : doctor.checkLpassBinary (some config) =
      .ok (.passed "lpass binary" binary, some client) := by
    unfold Doctor.checkLpassBinary
    rw [show (some config).bind Config.lpassPath = config.lpassPath from rfl, hbinary]
    dsimp only
    rw [hsocket, hsource]
    rfl
  refine ⟨first, .passed "lpass binary" binary, hok, rfl, ?_⟩
  unfold Doctor.run
  rw [hfirst]
  dsimp only
  rw [hsecond]
  change ((client.ls.bind fun listing =>
    .done (some (doctor.loginCheck listing), listing.isOk)).bind _) = _
  rw [Program.bind_bind]
  congr 1
  funext listing
  rw [← checkKeys_eq]
  cases listing with
  | ok items => rfl
  | error e => rfl

/-- What a checklist says, in the terms of a start with the same configuration. -/
structure Doctor.Foretells (doctor : Doctor) (config : Config) (socket : Bytes)
    (report : List Check) (result : Except DoctorError Unit)
    (listing : Except LpassError (List ItemSummary)) (found : Found) : Prop where
  passes : result = .ok () ↔ doctor.Ready config socket listing found
  lines : listing.isOk = true → ∃ above below,
    report = above ++ linesFrom doctor.ssh config found ++ below
  serves : ∀ store wanted, storeFrom doctor.ssh config found = .ok (store, wanted) →
    (linesFrom doctor.ssh config found).filter Check.ok =
      (store.entries.map fun entry => Doctor.keyLine doctor.ssh (.usable entry)) ++
        (Doctor.tooManyKeys "key count" store.entries.length).toList

theorem foretells_of_report {first second : Check} {socket : Bytes}
    (hsocket : doctor.socketPath config = .ok socket) (hfirst : first.ok = true)
    (hsecond : second.ok = true) (listing : Except LpassError (List ItemSummary))
    (hne : ∀ answers, found = .ok answers → answers ≠ []) :
    let keys := if listing.isOk then linesFrom doctor.ssh config found else []
    doctor.Foretells config socket (reportOf doctor config first second listing keys)
      (Doctor.outcome (reportOf doctor config first second listing keys)) listing found := by
  intro keys
  refine ⟨?_, ?_, fun store wanted h => passed_linesFrom h⟩
  · rw [outcome_ok, reportOf, List.forall_mem_append, machineChecks_ok hsocket]
    simp only [List.cons_append, List.nil_append, List.forall_mem_cons, hfirst, hsecond,
      loginCheck_ok, checkPlaintextKey_ok, true_and]
    constructor
    · rintro ⟨⟨hlogin, hclosed, hkeys⟩, hbinds, hremembers, hseeded⟩
      refine ⟨hclosed, hlogin.imp_left ?_, hbinds, hremembers, hseeded⟩
      rintro ⟨items, rfl⟩
      obtain ⟨store, hstore⟩ := (linesFrom_passed_iff hne).mp hkeys
      exact ⟨items, store, rfl, hstore⟩
    · intro h
      refine ⟨⟨h.opens.imp_left fun ⟨items, _, hitems, _⟩ => ⟨items, hitems⟩, h.closed, ?_⟩,
        h.binds, h.remembers, h.seeded⟩
      rcases h.opens with ⟨items, store, rfl, hstore⟩ | ⟨rfl, -⟩
      · exact (linesFrom_passed_iff hne).mpr ⟨store, hstore⟩
      · rw [show keys = [] from rfl]
        exact fun check h => absurd h List.not_mem_nil
  · intro hopen
    rw [show keys = linesFrom doctor.ssh config found from if_pos hopen]
    exact ⟨first :: second :: [doctor.loginCheck listing] ++ [doctor.checkPlaintextKey],
      doctor.machineChecks config, by simp [reportOf]⟩

theorem exists_of_passed {acts : List (Act runtime)} {report : List Check}
    (h : doctor.run.Traces acts (report, .ok ())) : ∃ config binary socket,
      doctor.loader.loadOrDefault doctor.file = .ok config ∧
      doctor.resolveBinary config.lpassPath = some binary ∧
      doctor.socketPath config = .ok socket := by
  have hreported : ∀ {first second : Check} {config : Option Config} {client : Option LpassCli},
      doctor.checkConfig = (first, config) →
      doctor.checkLpassBinary config = .ok (second, client) → first.ok = true ∧ second.ok = true := by
    intro first second config client hfirst hsecond
    unfold Doctor.run at h
    rw [hfirst] at h
    dsimp only at h
    rw [hsecond] at h
    obtain ⟨login, _, rest, -, -, hafter⟩ := Program.traces_bind.mp h
    obtain ⟨keys, _, _, -, -, hdone⟩ := Program.traces_bind.mp hafter
    obtain ⟨-, hreport⟩ := Program.traces_done.mp hdone
    obtain ⟨-, hpassed⟩ := Prod.mk.inj hreport
    have hall := outcome_ok.mp hpassed.symm
    simp only [List.cons_append, List.forall_mem_cons] at hall
    exact ⟨hall.1, hall.2.1⟩
  cases hload : doctor.loader.loadOrDefault doctor.file with
  | error e =>
    obtain ⟨first, hfirst, hrefused⟩ := checkConfig_of_refused hload
    obtain ⟨second, client, hsecond⟩ : ∃ second client,
        doctor.checkLpassBinary none = .ok (second, client) := by
      unfold Doctor.checkLpassBinary
      split
      · exact ⟨_, _, rfl⟩
      · exact ⟨_, _, rfl⟩
    have hok := (hreported hfirst hsecond).1
    rw [hrefused] at hok
    cases hok
  | ok config =>
    obtain ⟨first, hfirst, -⟩ := checkConfig_of_load hload
    cases hbinary : doctor.resolveBinary config.lpassPath with
    | none =>
      obtain ⟨second, hsecond, hmissing⟩ : ∃ second,
          doctor.checkLpassBinary (some config) = .ok (second, none) ∧ second.ok = false := by
        unfold Doctor.checkLpassBinary
        rw [show (some config).bind Config.lpassPath = config.lpassPath from rfl, hbinary]
        exact ⟨_, rfl, rfl⟩
      have hok := (hreported hfirst hsecond).2
      rw [hmissing] at hok
      cases hok
    | some binary =>
      cases hsocket : doctor.socketPath config with
      | ok socket => exact ⟨config, binary, socket, rfl, hbinary, hsocket⟩
      | error e =>
        have hrefused : doctor.checkLpassBinary (some config) = .error e := by
          unfold Doctor.checkLpassBinary
          rw [show (some config).bind Config.lpassPath = config.lpassPath from rfl, hbinary]
          dsimp only
          rw [hsocket]
          rfl
        unfold Doctor.run at h
        rw [hfirst] at h
        dsimp only at h
        rw [hrefused] at h
        obtain ⟨-, hreport⟩ := Program.traces_done.mp h
        cases (Prod.mk.inj hreport).2

/-- A checklist passes exactly where the agent's own functions find nothing to refuse or to
skip, and its key lines are what a start would serve. -/
theorem doctor_foretells {acts : List (Act runtime)} {report : List Check}
    {result : Except DoctorError Unit} (h : doctor.run.Traces acts (report, result)) :
    (result = .ok () → ∃ config binary socket,
      doctor.loader.loadOrDefault doctor.file = .ok config ∧
      doctor.resolveBinary config.lpassPath = some binary ∧
      doctor.socketPath config = .ok socket) ∧
    (∀ config binary socket, doctor.loader.loadOrDefault doctor.file = .ok config →
      doctor.resolveBinary config.lpassPath = some binary → doctor.socketPath config = .ok socket →
      ∃ client listing found front back, doctor.oneShotSource config = .ok client ∧
        acts = front ++ back ∧ client.ls.Traces front listing ∧
        (if listing.isOk then (scanKeys client config).Traces back found else back = []) ∧
        doctor.Foretells config socket report result listing found) ∧
    ∀ (command : Command) acts r, command.scannedStore.Traces acts r ↔ ∃ found,
      (scanKeys command.client command.config).Traces acts found ∧
        r = storeFrom command.ssh command.config found := by
  refine ⟨fun hpassed => exists_of_passed (hpassed ▸ h), ?_, ?_⟩
  · intro config binary socket hload hbinary hsocket
    obtain ⟨client, hsource⟩ := oneShotSource_of_load hload
    obtain ⟨first, second, hfirst, hsecond, hrun⟩ := run_eq hload hbinary hsocket hsource
    rw [hrun] at h
    obtain ⟨listing, front, back, rfl, hlisting, h⟩ := Program.traces_bind.mp h
    obtain ⟨keys, scanned, rest, rfl, hkeys, h⟩ := Program.traces_bind.mp h
    obtain ⟨rfl, hreport⟩ := Program.traces_done.mp h
    obtain ⟨rfl, rfl⟩ := Prod.mk.inj hreport
    rw [List.append_nil]
    by_cases hopen : listing.isOk = true
    · rw [if_pos hopen] at hkeys
      obtain ⟨found, scanned, rest, rfl, hfound, hkeys⟩ := Program.traces_bind.mp hkeys
      obtain ⟨rfl, rfl⟩ := Program.traces_done.mp hkeys
      refine ⟨client, listing, found, front, scanned, hsource, by rw [List.append_nil], hlisting,
        by rwa [if_pos hopen], ?_⟩
      have hne := (scanKeys_nonempty.traces hfound).2
      have hforetells := foretells_of_report hsocket hfirst hsecond listing hne
      rwa [if_pos hopen] at hforetells
    · rw [if_neg hopen] at hkeys
      obtain ⟨rfl, rfl⟩ := Program.traces_done.mp hkeys
      refine ⟨client, listing, .error NO_SOCKET_PATH, front, [], hsource, rfl, hlisting,
        by rw [if_neg hopen], ?_⟩
      have hnone : ∀ answers, (.error NO_SOCKET_PATH : Found) = .ok answers → answers ≠ [] :=
        fun answers h => nomatch h
      have hforetells := foretells_of_report hsocket hfirst hsecond listing hnone
      rwa [if_neg hopen] at hforetells
  · intro command acts r
    rw [scannedStore_eq, Program.traces_bind]
    constructor
    · rintro ⟨found, front, rest, rfl, hfound, h⟩
      obtain ⟨rfl, rfl⟩ := Program.traces_done.mp h
      exact ⟨found, by rwa [List.append_nil], rfl⟩
    · rintro ⟨found, hfound, rfl⟩
      exact ⟨found, acts, [], by rw [List.append_nil], hfound, .done _⟩

end

namespace Sample

def besideAgent : Doctor where
  ssh := ssh
  toml := toml
  loader := { loader with home := some "/Users/u" }
  configPath := "/Users/u/config.toml"
  file := .text ""
  resolveBinary _ := some "/usr/bin/lpass"
  agentIsRunning := true
  session := true
  plaintextKey := none
  runtime := none
  socketDir _ := some (⟨"", "", 501⟩, .ok (some (.directory 501 0o700)))
  identities _ := .absent
  sealedAt _ := .absent
  storeAvailable := false

def socket : Bytes :=
  utf8 "/Users/u/Library/Application Support/lastpass-ssh-agent/agent.sock"

end Sample

/-- Beside an agent that keeps the vault locked a setup can still pass. -/
theorem doctor_foretells_locked : ∃ acts report,
    Sample.besideAgent.run.Traces acts (report, .ok ()) ∧
    ∃ listing found, Sample.besideAgent.Ready Sample.config Sample.socket listing found := by
  let answer := Sample.answer (.exited (some 1) [] (utf8 CmdOutput.noKeyText)) []
  have hpassed : (Sample.besideAgent.run.replay answer Sample.world).2.2 = .ok () := by
    decide +kernel
  have htraces := Program.traces_replay answer Sample.world Sample.besideAgent.run
  generalize Sample.besideAgent.run.replay answer Sample.world = played at hpassed htraces
  obtain ⟨acts, report, result⟩ := played
  obtain rfl : result = .ok () := hpassed
  obtain ⟨client, listing, found, front, back, -, -, -, -, hforetells⟩ :=
    (doctor_foretells htraces).2.1 Sample.config "/usr/bin/lpass" Sample.socket rfl rfl
      (by decide +kernel)
  exact ⟨acts, report, htraces, listing, found, hforetells.passes.mp rfl⟩

end LastpassSshAgent
