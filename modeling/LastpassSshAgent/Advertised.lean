import LastpassSshAgent.ItemIds
import LastpassSshAgent.Signatures

/-!
# The configuration is in force in every set served

A start takes its set from the file or from the vault, and scans replace it while requests
are under way. Whichever set a request meets was built for the keys the configuration asks
for, so that what it says about a key holds of every signature made with it.
-/

namespace LastpassSshAgent

open Resumption

/-- The vault has listed an item under this id and name, and has said that it is an SSH key. -/
def Discovered (did : Act runtime → Prop) (source : MasterPasswordSource) (key : KeyConfig) : Prop :=
  ∃ items item result, did (.noted (.listed source (.ok items))) ∧ item ∈ items ∧
    key = .discovered item.id item.name ∧
    did (.noted (.returned source item.id "NoteType" result)) ∧ judgeProbe result = .ok true

/-- A start that came to serve, from the state it found to the set. -/
structure Launch (env : Env) (store : KeyStore) where
  client : LpassCli
  bound : Except Error Unit
  found : World
  reads : List World
  acts : List (Act runtime)
  ran : ((env.command client).start bound).Sees (found :: reads) acts (.ok (.ok store))

/-- Where a set's keys have their names from, with nothing pinned: the file that the start
found, the start's own scan, or a later one. -/
inductive Named (env : Env) {store : KeyStore} (launch : Launch env store) (s : Stage runtime)
    (wanted : List KeyConfig) : Prop
  | remembered {remembered : Remembered}
      (hload : Identities.load env.toml env.rememberedAt launch.found.identities =
        .ok (some remembered))
      (hkeys : wanted = remembered.keys.map fun key => .discovered key.id key.name)
  | started (hkeys : ∀ key ∈ wanted, Discovered (· ∈ launch.acts) launch.client.source key)
  | scanned {t : ℕ} (hkeys : ∀ key ∈ wanted, Discovered (s.Did t) .heldOnly key)

/-- The keys a set is built for: the pinned ones, or those that were found. -/
structure Wants (env : Env) {store : KeyStore} (launch : Launch env store) (s : Stage runtime)
    (wanted : List KeyConfig) : Prop where
  pinned : env.config.keys ≠ [] → wanted = env.config.keys
  named : env.config.keys = [] → Named env launch s wanted

structure Policied (env : Env) {store : KeyStore} (launch : Launch env store) (s : Stage runtime) :
    Prop where
  serves : ∃ wanted, Wants env launch s wanted ∧
    ServedFor env.config wanted s.shared.served.entries
  nonempty : s.shared.served.entries ≠ []

/-- The key that an entry was made for, with what the configuration says about it. -/
structure Governs (env : Env) {store : KeyStore} (launch : Launch env store) (s : Stage runtime)
    (key : KeyConfig) (entry : KeyEntry) : Prop where
  wanted : ∃ wanted, Wants env launch s wanted ∧ key ∈ wanted
  made : ∃ publicKey, entry = key.entry env.config publicKey

section

variable {env : Env} {store : KeyStore} {launch : Launch env store} {s s' : Stage runtime}
  {wanted : List KeyConfig} {entry : KeyEntry}

theorem Discovered.mono {did did' : Act runtime → Prop} {source : MasterPasswordSource}
    {key : KeyConfig} (h : Discovered did source key) (hdid : ∀ act, did act → did' act) :
    Discovered did' source key := by
  obtain ⟨items, item, result, hlisted, hitem, hkey, hreturned, hjudge⟩ := h
  exact ⟨items, item, result, hdid _ hlisted, hitem, hkey, hdid _ hreturned, hjudge⟩

theorem Wants.of_pinned (h : env.config.keys ≠ []) : Wants env launch s env.config.keys :=
  ⟨fun _ => rfl, fun hnone => absurd hnone h⟩

theorem Wants.of_named (h : env.config.keys = []) (hnamed : Named env launch s wanted) :
    Wants env launch s wanted :=
  ⟨fun hne => absurd h hne, fun _ => hnamed⟩

theorem Wants.mono (h : Wants env launch s wanted) (hs : s.history <:+ s'.history) :
    Wants env launch s' wanted := by
  refine ⟨h.pinned, fun hnone => ?_⟩
  cases h.named hnone with
  | remembered hload hkeys => exact .remembered hload hkeys
  | started hkeys => exact .started hkeys
  | scanned hkeys => exact .scanned fun key hkey => (hkeys key hkey).mono fun act hd => hd.mono hs

theorem Wanted.wants {t : ℕ} (h : Wanted s t .heldOnly env.config wanted) : Wants env launch s wanted := by
  refine ⟨h.pinned, fun hnone => .scanned (t := t) fun key hkey => ?_⟩
  obtain ⟨items, hlisted, -, hprobed⟩ := h.listed hnone
  obtain ⟨item, hitem, rfl, result, hreturned, hjudge⟩ := hprobed key hkey
  exact ⟨items, item, result, hlisted, hitem, rfl, hreturned, hjudge⟩

theorem KeyStore.wants_wantedFrom {remembered : Remembered}
    (hload : Identities.load env.toml env.rememberedAt launch.found.identities =
      .ok (some remembered)) :
    Wants env launch s (wantedFrom remembered env.config) := by
  unfold wantedFrom
  split_ifs with hempty
  · exact .of_named (List.isEmpty_iff.mp hempty) (.remembered hload rfl)
  · exact .of_pinned fun hnone => hempty (List.isEmpty_iff.mpr hnone)

theorem Policied.governs (h : Policied env launch s) (hentry : entry ∈ s.shared.served.entries) :
    ∃ key, Governs env launch s key entry := by
  obtain ⟨wanted, hwants, hserved⟩ := h.serves
  obtain ⟨kept, hsub, heq⟩ := hserved.ordered
  rw [heq] at hentry
  obtain ⟨⟨key, publicKey⟩, hpair, rfl⟩ := List.mem_map.mp hentry
  exact ⟨key, ⟨wanted, hwants, hsub.subset (List.mem_map_of_mem (f := Prod.fst) hpair)⟩,
    publicKey, rfl⟩

theorem served_of_collect {ssh : Ssh} {config : Config} {entries : List KeyEntry}
    {answers : List (KeyConfig × Except LpassError Bytes)}
    (hcollect : KeyStore.collect (inspectAnswers ssh config [] answers) = .ok entries) :
    ServedFor config (answers.map Prod.fst) entries := by
  rw [KeyStore.usables_of_collect hcollect]
  exact usables_served ssh config [] answers

end

/-! ### The set a start comes to -/

section

variable {ssh : Ssh} {client : LpassCli} {config : Config} {command : Command}
  {acts : List (Act runtime)} {store : KeyStore}

/-- Where the states it reads are good, what a program returns is in `Q`. -/
abbrev Async.Gives {α : Type} (p : Async α) (Good : World → Prop) (Q : α → Prop) : Prop :=
  p.Keeps Good (fun _ => True) Q

theorem noted_of_showField {item field : String} {result : Except LpassError Bytes}
    (h : (client.showField item field).Traces acts result) :
    .noted (.returned client.source item field result) ∈ acts := by
  obtain ⟨⟨⟩, called, rest, rfl, -, h⟩ := Program.traces_bind.mp h
  obtain ⟨out, ran, rest, rfl, -, h⟩ := Program.traces_bind.mp h
  cases h with
  | emit h =>
    obtain ⟨rfl, rfl⟩ := Program.traces_done.mp h
    simp

theorem noted_of_ls {result : Except LpassError (List ItemSummary)}
    (h : client.ls.Traces acts result) : .noted (.listed client.source result) ∈ acts := by
  obtain ⟨out, ran, rest, rfl, -, h⟩ := Program.traces_bind.mp h
  cases h with
  | emit h =>
    obtain ⟨rfl, rfl⟩ := Program.traces_done.mp h
    simp

/-- What the loop adds was in the set or waiting for it, and was probed. -/
theorem probed_of_joinProbes {fuel : ℕ} {probes items found found' : List ItemSummary}
    (h : (joinProbes client fuel probes items found).Traces acts (.ok found')) :
    ∀ item ∈ found', item ∈ found ∨ (item ∈ probes ∨ item ∈ items) ∧ ∃ result,
      .noted (.returned client.source item.id "NoteType" result) ∈ acts ∧
        judgeProbe result = .ok true := by
  induction fuel generalizing probes items found acts with
  | zero =>
    obtain ⟨-, hfound⟩ := Program.traces_done.mp h
    obtain rfl := Except.ok.inj hfound
    exact fun item hitem => .inl hitem
  | succ fuel ih =>
    unfold joinProbes at h
    dsimp only at h
    generalize MAX_DISCOVERY_PROBES - probes.length = room at h
    split_ifs at h
    · obtain ⟨-, hfound⟩ := Program.traces_done.mp h
      obtain rfl := Except.ok.inj hfound
      exact fun item hitem => .inl hitem
    · obtain ⟨(index : ℕ), rest, rfl, hrest⟩ := Program.traces_ask.mp h
      cases hjoined : (probes ++ items.take room)[index]? with
      | none =>
        rw [hjoined] at hrest
        obtain ⟨-, hfound⟩ := Program.traces_done.mp hrest
        obtain rfl := Except.ok.inj hfound
        exact fun item hitem => .inl hitem
      | some joined =>
        rw [hjoined] at hrest
        obtain ⟨answer, front, rest, rfl, hanswer, hrest⟩ := Program.traces_bind.mp hrest
        have hreturned := noted_of_showField hanswer
        have hjoined' : joined ∈ probes ∨ joined ∈ items :=
          (List.mem_append.mp (List.mem_of_getElem? hjoined)).imp_right List.mem_of_mem_take
        cases hjudge : judgeProbe answer with
        | error e =>
          simp only [hjudge] at hrest
          obtain ⟨-, hfound⟩ := Program.traces_done.mp hrest
          cases hfound
        | ok isSshKey =>
          simp only [hjudge] at hrest
          intro item hitem
          rcases ih hrest item hitem with hfound | ⟨hwaited, result, hnoted, hresult⟩
          · split_ifs at hfound with hkey
            · rcases List.mem_append.mp hfound with hfound | hfound
              · exact .inl hfound
              · obtain rfl := List.mem_singleton.mp hfound
                subst hkey
                exact .inr ⟨hjoined', answer, by simp [hreturned], hjudge⟩
            · exact .inl hfound
          · refine .inr ⟨?_, result, by simp [hnoted], hresult⟩
            rcases hwaited with hprobe | hitems
            · exact (List.mem_append.mp (List.mem_of_mem_eraseIdx hprobe)).imp_right
                List.mem_of_mem_take
            · exact .inr (List.mem_of_mem_drop hitems)

theorem discovered_of_discover {found : List ItemSummary}
    (h : (discoverSshKeyItems client).Traces acts (.ok found)) :
    ∀ item ∈ found, Discovered (· ∈ acts) client.source (.discovered item.id item.name) := by
  obtain ⟨listing, front, rest, rfl, hls, h⟩ := Program.traces_bind.mp h
  cases listing with
  | error e => cases (Program.traces_done.mp h).2
  | ok items =>
    obtain ⟨probed, probing, done, rfl, hprobes, h⟩ := Program.traces_bind.mp h
    obtain ⟨rfl, hfound⟩ := Program.traces_done.mp h
    cases probed with
    | error e => cases hfound
    | ok probed =>
      obtain rfl := Except.ok.inj hfound
      intro item hitem
      obtain ⟨hwaited, result, hreturned, hjudge⟩ :=
        (probed_of_joinProbes hprobes item (List.mem_mergeSort.mp hitem)).resolve_left
          List.not_mem_nil
      refine ⟨items, item, result, ?_, hwaited.resolve_left List.not_mem_nil, rfl, ?_, hjudge⟩
      · exact List.mem_append_left _ (noted_of_ls hls)
      · simp [hreturned]

theorem keys_of_effectiveKeys {keys : List KeyConfig}
    (h : (effectiveKeys client config).Traces acts (.ok keys)) :
    (config.keys ≠ [] → keys = config.keys) ∧
      (config.keys = [] → ∀ key ∈ keys, Discovered (· ∈ acts) client.source key) := by
  unfold effectiveKeys at h
  split_ifs at h with hempty
  · refine ⟨fun hne => absurd (List.isEmpty_iff.mp hempty) hne, fun _ key hkey => ?_⟩
    obtain ⟨found, front, rest, rfl, hfound, h⟩ := Program.traces_bind.mp h
    cases found with
    | error e => cases (Program.traces_done.mp h).2
    | ok found =>
      dsimp only at h
      split_ifs at h
      · cases (Program.traces_done.mp h).2
      · obtain rfl := Except.ok.inj (Program.traces_done.mp h).2
        obtain ⟨item, hitem, rfl⟩ := List.mem_map.mp hkey
        exact (discovered_of_discover hfound item hitem).mono fun act => List.mem_append_left _
  · obtain rfl := Except.ok.inj (Program.traces_done.mp h).2
    exact ⟨fun _ => rfl, fun hnone => absurd (List.isEmpty_iff.mpr hnone) hempty⟩

theorem inspectKeys_answers {Good : World → Prop} (seen : Seen) (keys : List KeyConfig) :
    (inspectKeys ssh client config seen keys).Gives Good fun inspected =>
      ∃ answers, answers.map Prod.fst = keys ∧
        inspected = inspectAnswers ssh config seen answers := by
  induction keys generalizing seen with
  | nil => exact ⟨[], rfl, rfl⟩
  | cons key keys ih =>
    refine (Program.Keeps.any _).bind fun answer _ => (ih _).bind fun rest hrest => ?_
    obtain ⟨answers, rfl, rfl⟩ := hrest
    exact ⟨(key, answer) :: answers, rfl, rfl⟩

theorem KeyStore.served_of_load {keys : List KeyConfig}
    (h : (load ssh client config keys).Traces acts (.ok store)) :
    ServedFor config keys store.entries ∧ store.entries ≠ [] := by
  obtain ⟨inspected, front, rest, rfl, hinspected, h⟩ := Program.traces_bind.mp h
  obtain ⟨answers, rfl, rfl⟩ := ((inspectKeys_answers [] keys).traces hinspected).2
  obtain ⟨hcollect, hne⟩ := loadFrom_eq_ok.mp (Program.traces_done.mp h).2.symm
  exact ⟨served_of_collect hcollect, hne⟩

theorem served_of_scannedStore {wanted : ℕ}
    (h : command.scannedStore.Traces acts (.ok (store, wanted))) :
    ∃ keys front rest, acts = front ++ rest ∧
      (effectiveKeys command.client command.config).Traces front (.ok keys) ∧
      ServedFor command.config keys store.entries ∧ store.entries ≠ [] := by
  obtain ⟨asked, front, rest, rfl, hkeys, h⟩ := Program.traces_bind.mp h
  cases asked with
  | error e => cases (Program.traces_done.mp h).2
  | ok keys =>
    obtain ⟨loaded, loading, done, rfl, hloaded, h⟩ := Program.traces_bind.mp h
    cases loaded with
    | error e => cases (Program.traces_done.mp h).2
    | ok loaded =>
      obtain ⟨rfl, -⟩ := Prod.mk.inj (Except.ok.inj (Program.traces_done.mp h).2)
      exact ⟨keys, front, _, rfl, hkeys, KeyStore.served_of_load hloaded⟩

theorem served_of_rememberedStore {env : Env} {launched : KeyStore} {launch : Launch env launched}
    {s : Stage runtime} (h : rememberedStore env.ssh env.toml env.rememberedAt env.config
      launch.found.identities = .ok (some store)) :
    ∃ wanted, Wants env launch s wanted ∧ ServedFor env.config wanted store.entries ∧
      store.entries ≠ [] := by
  obtain ⟨found, hload, hstore⟩ := bind_eq_ok.mp h
  rcases found with _ | remembered
  · cases hstore
  · dsimp only at hstore
    split_ifs at hstore with hempty
    · cases hstore
    · cases hstore
    · obtain rfl := Option.some.inj (Except.ok.inj hstore)
      refine ⟨_, KeyStore.wants_wantedFrom hload,
        (builders_agree env.ssh env.config).rebuilt remembered, fun hnil => hempty ?_⟩
      exact List.isEmpty_iff.mpr hnil

/-- The set that a start serves is the one it came to, before it wrote anything down. -/
theorem startStore_of_start {bound : Except Error Unit} {reads : List World}
    (h : (command.start bound).Sees reads acts (.ok (.ok store))) :
    ∃ wanted seen later front rest, reads = seen ++ later ∧ acts = front ++ rest ∧
      command.startStore.Sees seen front (.ok (store, wanted)) := by
  obtain ⟨loaded, seen, later, front, rest, rfl, rfl, hloaded, h⟩ := Program.sees_bind.mp h
  have h := h.traces
  rcases loaded with e | ⟨store', wanted⟩
  · cases (Program.traces_done.mp h).2
  · refine ⟨wanted, seen, later, front, rest, rfl, rfl, ?_⟩
    rcases bound with e | ⟨⟩
    · cases (Program.traces_done.mp h).2
    · cases wanted with
      | none =>
        obtain rfl := Except.ok.inj (Except.ok.inj (Program.traces_done.mp h).2)
        exact hloaded
      | some wanted =>
        obtain ⟨remembered, writing, done, rfl, -, h⟩ := Program.traces_bind.mp h
        cases remembered with
        | error panic => cases (Program.traces_done.mp h).2
        | ok u =>
          obtain rfl := Except.ok.inj (Except.ok.inj (Program.traces_done.mp h).2)
          exact hloaded

theorem Launch.policied {env : Env} {w : World} (launch : Launch env w.served) :
    Policied env launch ⟨w, []⟩ := by
  obtain ⟨wanted, seen, later, front, rest, hreads, hacts, hstore⟩ :=
    startStore_of_start launch.ran
  cases hstore with
  | read x hstore =>
    obtain ⟨rfl, -⟩ := List.cons.inj hreads
    have hstore := hstore.traces
    dsimp only [Program.bind] at hstore
    split at hstore
    · cases (Program.traces_done.mp hstore).2
    · rename_i kept hkept
      obtain ⟨rfl, -⟩ := Prod.mk.inj (Except.ok.inj (Program.traces_done.mp hstore).2)
      obtain ⟨wanted, hwants, hserved, hne⟩ := served_of_rememberedStore (s := ⟨w, []⟩) hkept
      exact ⟨⟨wanted, hwants, hserved⟩, hne⟩
    · obtain ⟨scanned, scanning, done, hfront, hscanned, hstore⟩ := Program.traces_bind.mp hstore
      rcases scanned with e | ⟨store, count⟩
      · cases (Program.traces_done.mp hstore).2
      · obtain ⟨rfl, -⟩ := Prod.mk.inj (Except.ok.inj (Program.traces_done.mp hstore).2)
        obtain ⟨keys, asking, loading, rfl, hkeys, hserved, hne⟩ := served_of_scannedStore hscanned
        obtain ⟨hpinned, hfound⟩ := keys_of_effectiveKeys hkeys
        refine ⟨⟨keys, ⟨hpinned, fun hnone => .started fun key hkey => ?_⟩, hserved⟩, hne⟩
        refine (hfound hnone key hkey).mono fun act hact => ?_
        simp [hacts, hfront, hact]

end

/-! ### Every set served -/

section

variable {env : Env} {w : World} {launch : Launch env w.served} {s : Stage runtime}

theorem Loaded.policied {t : ℕ} {store : KeyStore}
    (h : Loaded s t .heldOnly env.ssh env.config store) :
    ∃ wanted, Wants env launch s wanted ∧ ServedFor env.config wanted store.entries ∧
      store.entries ≠ [] := by
  obtain ⟨keys, answers, hwanted, hscan, hcollect, hne⟩ := h
  have hserved := served_of_collect (KeyStore.collectComplete_iff.mp hcollect).1
  rw [hscan.keys] at hserved
  exact ⟨keys, hwanted.wants, hserved, hne⟩

theorem Policied.mono {s' : Stage runtime} (h : Policied env launch s) (hs : s.history <:+ s'.history)
    (hserved : s'.shared.served = s.shared.served) : Policied env launch s' := by
  obtain ⟨wanted, hwants, hfor⟩ := h.serves
  exact ⟨⟨wanted, hwants.mono hs, hserved ▸ hfor⟩, hserved ▸ h.nonempty⟩

theorem policied_of_legal {t : ℕ} {act : Act runtime} {s' : Stage runtime}
    (h : env.rules.Legal s t act s') (hs : Policied env launch s) : Policied env launch s' := by
  have hsuffix : s.history <:+ s'.history := h.history ▸ List.suffix_cons _ _
  cases h with
  | started _ hlaunch =>
    refine hs.mono hsuffix ?_
    rw [Stage.push_shared, World.launch_eq hlaunch]
  | began _ _ => exact hs.mono hsuffix rfl
  | answered _ heffect =>
    refine hs.mono hsuffix ?_
    rw [Stage.push_shared, World.effect_eq heffect]
  | @noted e _ hmay =>
    by_cases hstore : ∃ store, e = .replaced store
    · obtain ⟨store, rfl⟩ := hstore
      obtain ⟨wanted, hwants, hserved, hne⟩ := hmay.2.2.policied
      exact ⟨⟨wanted, hwants.mono hsuffix, hserved⟩, hne⟩
    · exact hs.mono hsuffix (World.apply_served fun store h => hstore ⟨store, h⟩)
  | ended _ _ => exact hs.mono hsuffix rfl

theorem policied_of_lawful (h : env.rules.Lawful (· = w) s) : Policied env launch s := by
  induction h with
  | start hw => exact hw ▸ launch.policied
  | act _ hlegal ih => exact policied_of_legal hlegal ih
  | drift d _ ih =>
    refine ih.mono (List.suffix_refl _) ?_
    cases d with
    | tick n => rfl
    | processes table => rfl
    | disk works => rfl

theorem Env.reachable_of_eq {P : Pool runtime} (hw : env.Starts w)
    (h : P.Reachable env.code (· = w)) : env.Reachable P := by
  obtain ⟨w', heq, hrun⟩ := h
  exact ⟨w', heq ▸ hw, hrun⟩

theorem Env.lawful_of_eq {P : Pool runtime} (hw : env.Starts w)
    (h : P.Reachable env.code (· = w)) : env.rules.Lawful (· = w) P.stage := by
  have hweaker : ∀ {s : Stage runtime}, env.rules.Lawful (· = w) s → env.Lawful s := by
    intro s hs
    induction hs with
    | start heq => exact .start (heq ▸ hw)
    | act _ hlegal ih => exact ih.act hlegal
    | drift d _ ih => exact ih.drift d
  have hupheld : env.rules.Upheld (· = w) env.code :=
    fun task t s w' hs hnew hlaunch => env.upheld task t s w' (hweaker hs) hnew hlaunch
  exact (hupheld.orderly h).lawful

/-- What the configuration is worth over a run: it admits every set ever served, and
every signature is made as it says for the key it is made with. -/
structure InForce (env : Env) {store : KeyStore} (launch : Launch env store) (P : Pool runtime) :
    Prop where
  served : Policied env launch P.stage
  always : ∀ newer x older, P.stage.history = newer ++ x :: older →
    Policied env launch ⟨x.before, older⟩ ∧ Policied env launch ⟨x.after, x :: older⟩
  /-- Where the key is to be confirmed the user has said yes, to this request or to its
  question in the present epoch. -/
  signed : ∀ t signature, P.stage.Did t (.noted (.replied (.ok signature))) →
    ∃ job key, Serves P.stage t env job ∧ Governs env launch P.stage key job.entry ∧
      (env.config.confirmRequired key = true → job.entry.confirm = true) ∧
      Covered P.stage t env job ∧
      ∃ privateKey, privateKey.publicKey.keyData = job.request.keyData ∧
        signWithKey env.ssh privateKey job.request.data job.request.flags = .ok signature

end

def Sample.launch : Launch env listing.served where
  client := env.asking
  bound := .ok ()
  found := listing
  reads := []
  acts := []
  ran := start_listing

end LastpassSshAgent
