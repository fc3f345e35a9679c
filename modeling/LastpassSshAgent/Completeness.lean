import LastpassSshAgent.Frames
import Mathlib.Data.List.Perm.Basic

/-!
# What a scan asked for, and what it was told

Every key a scan set out to load is in the set it comes to, unless the vault's own
answer was that there is no such key, or none that can be served. This is so for any
client, whatever the vault answers, and whatever else runs meanwhile.
-/

namespace LastpassSshAgent

open Resumption

/-! ### Answers -/

/-- The vault says that there is no key, or hands over none that can be served. -/
def VaultVerdict (ssh : Ssh) : Except LpassError Bytes → Prop
  | .ok raw => ∃ issue, accept ssh raw = .error issue
  | .error (.itemNotFound _) => True
  | .error (.fieldNotFound _ _) => True
  | .error _ => False

section Own

variable (s : Stage runtime) (t : ℕ) (source : MasterPasswordSource) (ssh : Ssh) (config : Config)

def Dismissed (item : ItemSummary) : Prop :=
  ∃ result, s.Did t (.noted (.returned source item.id "NoteType" result)) ∧
    judgeProbe result = .ok false

def Probed (item : ItemSummary) : Prop :=
  ∃ result, s.Did t (.noted (.returned source item.id "NoteType" result)) ∧
    judgeProbe result = .ok true

/-- The keys a scan by thread `t` is for: the pinned ones, or every SSH key of the
vault's listing. -/
structure Wanted (keys : List KeyConfig) : Prop where
  pinned : config.keys ≠ [] → keys = config.keys
  listed : config.keys = [] → ∃ items, s.Did t (.noted (.listed source (.ok items))) ∧
    (∀ item ∈ items, KeyConfig.discovered item.id item.name ∈ keys ∨ Dismissed s t source item) ∧
    ∀ key ∈ keys, ∃ item ∈ items, key = .discovered item.id item.name ∧ Probed s t source item

def Holds (store : KeyStore) (key : KeyConfig) : Prop :=
  ∃ raw publicKey, s.Did t (.noted (.returned source key.id "Public Key" (.ok raw))) ∧
    accept ssh raw = .ok publicKey ∧ key.entry config publicKey ∈ store.entries

def Judged (key : KeyConfig) : Prop :=
  ∃ result, s.Did t (.noted (.returned source key.id "Public Key" result)) ∧ VaultVerdict ssh result

/-- The set has every key a scan by thread `t` was for, but those the vault gave its
verdict on. -/
def Complete (store : KeyStore) : Prop :=
  ∃ keys, Wanted s t source config keys ∧
    ∀ key ∈ keys, Holds s t source ssh config store key ∨ Judged s t source ssh key

end Own

/-! ### A whole scan, answered -/

/-- What comes of the keys of a scan, given the answer to each. -/
def inspectAnswers (ssh : Ssh) (config : Config) :
    Seen → List (KeyConfig × Except LpassError Bytes) → List KeyInspection
  | _, [] => []
  | seen, (key, answer) :: rest =>
    (inspect ssh config seen key answer).1 ::
      inspectAnswers ssh config (inspect ssh config seen key answer).2 rest

variable {ssh : Ssh} {config : Config} {seen : Seen} {key : KeyConfig}
  {answer : Except LpassError Bytes} {answers : List (KeyConfig × Except LpassError Bytes)}
  {entries : List KeyEntry}

theorem duplicate_of_unique {publicKey : PublicKey} {itemId : String} {issue : KeyIssue}
    (h : (unique seen publicKey itemId).1 = .error issue) : ∃ other, issue = .duplicate other := by
  unfold unique at h
  split at h
  · exact ⟨_, (Except.error.inj h).symm⟩
  · cases h

theorem verdict_of_inspect {itemId name : String} {issue : KeyIssue}
    (h : (inspect ssh config seen key answer).1 = .unusable itemId name issue)
    (hv : isVerdict issue = true) : VaultVerdict ssh answer := by
  cases answer with
  | error e =>
    obtain ⟨-, -, rfl⟩ := KeyInspection.unusable.inj h
    cases e with
    | itemNotFound item => trivial
    | fieldNotFound item field => trivial
    | _ => exact absurd hv nofun
  | ok raw =>
    cases haccept : accept ssh raw with
    | error issue' => exact ⟨issue', haccept⟩
    | ok publicKey =>
      -- only a duplicate is refused after that, and that is no verdict
      simp only [inspect, acceptUnique, haccept] at h
      cases hunique : (unique seen publicKey key.id).1 with
      | ok publicKey' =>
        rw [hunique] at h
        cases h
      | error issue' =>
        rw [hunique] at h
        obtain ⟨-, -, rfl⟩ := KeyInspection.unusable.inj h
        obtain ⟨other, rfl⟩ := duplicate_of_unique hunique
        exact absurd hv nofun

namespace KeyStore

/-- A complete set has each key, or the vault's verdict on it. -/
theorem held_of_collectComplete
    (h : collectComplete (inspectAnswers ssh config seen answers) = some entries) :
    ∀ pair ∈ answers, (∃ raw publicKey, pair.2 = .ok raw ∧ accept ssh raw = .ok publicKey ∧
      pair.1.entry config publicKey ∈ entries) ∨ VaultVerdict ssh pair.2 := by
  induction answers generalizing seen entries with
  | nil => exact nofun
  | cons first rest ih =>
    obtain ⟨key, answer⟩ := first
    intro pair hpair
    rw [inspectAnswers] at h
    cases hfirst : (inspect ssh config seen key answer).1 with
    | usable entry =>
      obtain ⟨raw, publicKey, rfl, haccept, rfl⟩ := inspect_usable hfirst
      rw [hfirst] at h
      obtain ⟨others, hothers, rfl⟩ := Option.map_eq_some_iff.mp h
      rcases List.mem_cons.mp hpair with rfl | hpair
      · exact .inl ⟨raw, publicKey, rfl, haccept, List.mem_cons_self⟩
      · rcases ih hothers pair hpair with ⟨raw', publicKey', hraw, haccept', hmem⟩ | hverdict
        · exact .inl ⟨raw', publicKey', hraw, haccept', List.mem_cons_of_mem _ hmem⟩
        · exact .inr hverdict
    | unusable itemId name issue =>
      rw [hfirst, collectComplete] at h
      split_ifs at h with hv
      rcases List.mem_cons.mp hpair with rfl | hpair
      · exact .inr (verdict_of_inspect hfirst hv)
      · exact ih h pair hpair

theorem collect_usable {entry : KeyEntry} {rest : List KeyInspection}
    (h : collect (.usable entry :: rest) = .ok entries) :
    ∃ others, collect rest = .ok others ∧ entries = entry :: others := by
  rw [collect] at h
  cases hrest : collect rest with
  | error e =>
    rw [hrest] at h
    cases h
  | ok others =>
    rw [hrest] at h
    exact ⟨others, rfl, (Except.ok.inj h).symm⟩

theorem collect_unusable {itemId name : String} {issue : KeyIssue} {rest : List KeyInspection}
    (h : collect (.unusable itemId name issue :: rest) = .ok entries) :
    collect rest = .ok entries := by
  cases issue with
  | duplicate other => cases h
  | fetch e =>
    cases e with
    | notLoggedIn => cases h
    | locked => cases h
    | wrongMasterPassword => cases h
    | noMasterPassword why => cases h
    | _ => exact h
  | _ => exact h

/-- A set loaded with nothing skipped has every key; nothing can be in it twice. -/
theorem held_of_collect (h : collect (inspectAnswers ssh config seen answers) = .ok entries) :
    entries.length ≤ answers.length ∧ (answers.length ≤ entries.length →
      ∀ pair ∈ answers, ∃ raw publicKey, pair.2 = .ok raw ∧ accept ssh raw = .ok publicKey ∧
        pair.1.entry config publicKey ∈ entries) := by
  induction answers generalizing seen entries with
  | nil =>
    obtain rfl := Except.ok.inj h
    exact ⟨Nat.le_refl _, fun _ => nofun⟩
  | cons first rest ih =>
    obtain ⟨key, answer⟩ := first
    rw [inspectAnswers] at h
    cases hfirst : (inspect ssh config seen key answer).1 with
    | usable entry =>
      obtain ⟨raw, publicKey, rfl, haccept, rfl⟩ := inspect_usable hfirst
      rw [hfirst] at h
      obtain ⟨others, hothers, rfl⟩ := collect_usable h
      obtain ⟨hlength, hheld⟩ := ih hothers
      refine ⟨Nat.succ_le_succ hlength, fun hle pair hpair => ?_⟩
      rcases List.mem_cons.mp hpair with rfl | hpair
      · exact ⟨raw, publicKey, rfl, haccept, List.mem_cons_self⟩
      · obtain ⟨raw', publicKey', hraw, haccept', hmem⟩ := hheld (Nat.le_of_succ_le_succ hle) pair hpair
        exact ⟨raw', publicKey', hraw, haccept', List.mem_cons_of_mem _ hmem⟩
    | unusable itemId name issue =>
      rw [hfirst] at h
      obtain ⟨hlength, -⟩ := ih (collect_unusable h)
      refine ⟨Nat.le_succ_of_le hlength, fun hle => ?_⟩
      exact absurd (hle.trans hlength) (Nat.not_succ_le_self _)

end KeyStore

/-! ### What happens inside a call -/

/-- The acts of one run of `lpass`, from looking at what is held to stamping it. -/
def InCall : Act runtime → Prop
  | .began _ => True
  | .answered _ _ => True
  | .noted .asked => True
  | .noted (.holding _ _) => True
  | .noted .touched => True
  | .noted .rejected => True
  | .noted .heldReleased => True
  | _ => False

/-- What a vault client awaits: its lock, `lpass`, and the master password. -/
def Query.OfClient : Query → Prop
  | .held => True
  | .lpass _ _ _ => True
  | .masterStore => True
  | .prompt request => request = .master
  | _ => False

def Calls : Act runtime → Prop
  | .began q => q.OfClient
  | .answered q _ => q.OfClient
  | act => InCall act

theorem inCall_of_calls {act : Act runtime} (h : Calls act) : InCall act := by
  cases act with
  | began q => trivial
  | answered q a => trivial
  | _ => exact h

def CallsWith (args : List String) : Act runtime → Prop
  | .began (.lpass args' _ _) => args' = args
  | act => Calls act

theorem calls_of_callsWith {args : List String} {act : Act runtime} (h : CallsWith args act) :
    Calls act := by
  cases act with
  | began q =>
    cases q with
    | lpass args' password maxBytes => trivial
    | _ => exact h
  | _ => exact h

theorem await_calls {args : List String} {q : Query} (hq : CallsWith args (.began q)) :
    (await q).Emits (CallsWith args) :=
  ⟨hq, fun _ => ⟨calls_of_callsWith hq, trivial⟩⟩

theorem resolve_calls (args : List String) (kind : MasterPassword) (skip : Bool) :
    (resolve kind skip).Emits (CallsWith args) := by
  have hprompt : askPrompt.Emits (CallsWith args) := by
    refine (await_calls (q := .prompt .master) rfl).bind ?_
    rintro (e | typed)
    · trivial
    · dsimp only
      split_ifs <;> trivial
  refine Program.Emits.bind ?_ fun stored => ?_
  · unfold askStore
    split_ifs
    · refine (await_calls (q := .masterStore) trivial).bind ?_
      rintro (e | _ | secret) <;> trivial
    · trivial
  · cases stored with
    | some secret => trivial
    | none => exact hprompt

theorem password_calls (args : List String) (unlock : Unlock) (ask : Bool) :
    (unlock.password ask).Emits (CallsWith args) := by
  have hask : unlock.askHolding.Emits (CallsWith args) := by
    refine ⟨trivial, fun w => (resolve_calls args unlock.source w.storeRejected).bind ?_⟩
    rintro (e | ⟨secret, source⟩)
    · exact ⟨trivial, trivial⟩
    · exact ⟨trivial, trivial, trivial⟩
  refine (await_calls (q := .held) trivial).bind fun _ =>
    Program.Emits.bind (p := world) (fun _ => trivial) fun w => ?_
  split
  · exact ⟨trivial, trivial⟩
  · split_ifs
    · exact hask
    · exact ⟨trivial, trivial⟩

namespace LpassCli

theorem exec_calls (args : List String) (password : Option Bytes) (maxBytes : ℕ) :
    (exec args password maxBytes).Emits (CallsWith args) := ⟨rfl, fun _ => ⟨trivial, trivial⟩⟩

theorem run_callsWith (cli : LpassCli) (args : List String) (maxBytes : ℕ) :
    (cli.run args maxBytes).Emits (CallsWith args) := by
  have hheld : cli.held.Emits (CallsWith args) := by
    unfold held
    split
    · trivial
    · trivial
    · exact (password_calls args cli.unlock false).bind fun _ => trivial
    · exact (password_calls args cli.unlock false).bind fun _ => trivial
  have hasked : cli.asked.Emits (CallsWith args) := by
    unfold asked
    split
    · exact (password_calls args cli.unlock true).bind fun _ => trivial
    · trivial
  have hretry : ∀ out, (cli.retry args maxBytes out).Emits (CallsWith args) := by
    intro out
    unfold retry
    split_ifs
    · refine hasked.bind ?_
      rintro (e | _ | password)
      · trivial
      · trivial
      · exact exec_calls args (some password) maxBytes
    · trivial
  have hreject : ∀ out, (cli.rejectIfWrong out).Emits (CallsWith args) := by
    intro out
    unfold rejectIfWrong rejected
    split_ifs
    · split
      · exact ⟨trivial, fun _ => ⟨trivial, trivial, trivial, trivial⟩⟩
      · exact ⟨trivial, fun _ => ⟨trivial, trivial, trivial, trivial⟩⟩
      · trivial
    · trivial
  have hused : cli.used.Emits (CallsWith args) := by
    unfold used
    split
    · exact ⟨trivial, fun _ => ⟨trivial, trivial, trivial, trivial⟩⟩
    · trivial
  refine hheld.bind fun password => (exec_calls args password maxBytes).bind ?_
  rintro (e | out)
  · trivial
  refine (hretry out).bind ?_
  rintro (e | out)
  · trivial
  exact (hreject out).bind fun _ => hused.bind fun _ => trivial

theorem run_calls (cli : LpassCli) (args : List String) (maxBytes : ℕ) :
    (cli.run args maxBytes).Emits Calls :=
  (cli.run_callsWith args maxBytes).mono fun _ => calls_of_callsWith

theorem run_emits (cli : LpassCli) (args : List String) (maxBytes : ℕ) :
    (cli.run args maxBytes).Emits InCall := (cli.run_calls args maxBytes).mono fun _ => inCall_of_calls

end LpassCli

/-- An act that touches neither the served set nor the file. -/
def Sparing : Act runtime → Prop
  | .noted e => ∀ w, (World.apply e w).served = w.served ∧
      (World.apply e w).identities = w.identities
  | _ => True

theorem sparing_of_inCall {act : Act runtime} (h : InCall act) : Sparing act := by
  cases act with
  | noted e =>
    refine fun w => ⟨World.apply_served ?_, World.apply_identities ?_ ?_⟩
    · rintro store rfl
      exact h
    · rintro item why rfl
      exact h
    · rintro remembered encoded rfl
      exact h
  | _ => trivial

/-! ### What the programs put on record -/

variable {s : Stage runtime} {t : ℕ} {client : LpassCli}

theorem showField_free (item field : String) : Rules.free.wp t (client.showField item field)
    (fun r s' => s'.Did t (.noted (.returned client.source item field r))) s := by
  refine Rules.wp_seq (Rules.wp_free _ _) fun _ s₀ _ => ?_
  refine Rules.wp_seq (Rules.wp_free _ _) fun out s₁ _ => ⟨trivial, ?_⟩
  exact s₁.did_push_self t _ _

theorem ls_free : Rules.free.wp t client.ls
    (fun r s' => s'.Did t (.noted (.listed client.source r))) s := by
  refine Rules.wp_seq (Rules.wp_free _ _) fun out s₁ _ => ⟨trivial, ?_⟩
  exact s₁.did_push_self t _ _

theorem showField_emits (item field : String) : (client.showField item field).Emits Sparing := by
  refine Program.Emits.bind (p := note (.called client.source item field))
    ⟨fun w => ⟨rfl, rfl⟩, trivial⟩ fun _ => ?_
  refine Program.Emits.bind ?_ fun out => ⟨fun w => ⟨rfl, rfl⟩, trivial⟩
  exact (client.run_emits _ _).mono fun _ => sparing_of_inCall

theorem ls_emits : client.ls.Emits Sparing := by
  refine Program.Emits.bind ?_ fun out => ⟨fun w => ⟨rfl, rfl⟩, trivial⟩
  exact (client.run_emits _ _).mono fun _ => sparing_of_inCall

theorem pending_perm {probes items : List ItemSummary} {index room : ℕ} {item : ItemSummary}
    (hitem : (probes ++ items.take room)[index]? = some item) :
    (probes ++ items).Perm
      (item :: ((probes ++ items.take room).eraseIdx index ++ items.drop room)) := by
  obtain ⟨hindex, rfl⟩ := List.getElem?_eq_some_iff.mp hitem
  have hperm := (List.getElem_cons_eraseIdx_perm hindex).append_right (items.drop room)
  rw [List.append_assoc probes, List.take_append_drop] at hperm
  exact hperm.symm

/-- `found'` settles the items pending: each is found, or dismissed. -/
structure Settles (s : Stage runtime) (t : ℕ) (source : MasterPasswordSource)
    (pending found found' : List ItemSummary) : Prop where
  kept : found ⊆ found'
  settled : ∀ item ∈ pending, item ∈ found' ∨ Dismissed s t source item
  probed : ∀ item ∈ found', item ∈ found ∨ item ∈ pending ∧ Probed s t source item

/-- What settles the rest settles all, once one item has had its answer. -/
theorem Settles.of_probe {source : MasterPasswordSource} {pending rest found found' : List ItemSummary}
    {item : ItemSummary} {isSshKey : Bool}
    (h : Settles s t source rest (if isSshKey then found ++ [item] else found) found')
    (hperm : pending.Perm (item :: rest))
    (hanswer : s.Did t (.noted (.returned source item.id "NoteType" answer)))
    (hjudged : judgeProbe answer = .ok isSshKey) : Settles s t source pending found found' := by
  have hsettled : ∀ other ∈ pending, other ≠ item →
      other ∈ found' ∨ Dismissed s t source other := by
    intro other hother hne
    exact h.settled other ((List.mem_cons.mp (hperm.mem_iff.mp hother)).resolve_left hne)
  have hpending : ∀ other ∈ rest, other ∈ pending := fun other hother =>
    hperm.mem_iff.mpr (List.mem_cons_of_mem item hother)
  cases isSshKey with
  | false =>
    refine ⟨h.kept, fun other hother => ?_, fun other hother => ?_⟩
    · by_cases hitem : other = item
      · exact .inr ⟨answer, hitem ▸ hanswer, hjudged⟩
      · exact hsettled other hother hitem
    · exact (h.probed other hother).imp id fun hrest => ⟨hpending other hrest.1, hrest.2⟩
  | true =>
    have hkept : found ++ [item] ⊆ found' := h.kept
    refine ⟨fun other hother => hkept (List.mem_append_left _ hother), fun other hother => ?_,
      fun other hother => ?_⟩
    · by_cases hitem : other = item
      · exact .inl (hkept (by simp [hitem]))
      · exact hsettled other hother hitem
    · have hfound : other ∈ found ++ [item] ∨ other ∈ rest ∧ Probed s t source other :=
        h.probed other hother
      rcases hfound with hfound | hrest
      · rcases List.mem_append.mp hfound with hfound | hfound
        · exact .inl hfound
        · obtain rfl := List.mem_singleton.mp hfound
          exact .inr ⟨hperm.mem_iff.mpr List.mem_cons_self, answer, hanswer, hjudged⟩
      · exact .inr ⟨hpending other hrest.1, hrest.2⟩

/-- Every item is settled: found, or dismissed. -/
theorem joinProbes_free {fuel : ℕ} {probes items found : List ItemSummary}
    (hfuel : probes.length + items.length ≤ fuel) :
    Rules.free.wp t (joinProbes client fuel probes items found) (fun r s' => ∀ found',
      r = .ok found' → Settles s' t client.source (probes ++ items) found found') s := by
  induction fuel generalizing probes items found s with
  | zero =>
    obtain rfl : probes = [] := List.length_eq_zero_iff.mp (by omega)
    obtain rfl : items = [] := List.length_eq_zero_iff.mp (by omega)
    intro found' hfound
    obtain rfl := Except.ok.inj hfound
    exact ⟨List.Subset.refl _, nofun, fun item => .inl⟩
  | succ fuel ih =>
    unfold joinProbes
    dsimp only
    split_ifs with hempty
    · have hpending := List.isEmpty_iff.mp hempty
      obtain ⟨rfl, htake⟩ := List.append_eq_nil_iff.mp hpending
      obtain rfl : items = [] := by simpa [MAX_DISCOVERY_PROBES] using htake
      intro found' hfound
      obtain rfl := Except.ok.inj hfound
      exact ⟨List.Subset.refl _, nofun, fun item => .inl⟩
    · refine ⟨trivial, fun s₁ _ => ⟨trivial, fun (index : ℕ) x hx => ?_⟩⟩
      dsimp only [Program.bind]
      cases hitem : (probes ++ items.take (MAX_DISCOVERY_PROBES - probes.length))[index]? with
      | none =>
        -- the set of probes hands over one of its own
        have hrange := List.getElem?_eq_none_iff.mp hitem
        have hindex : index < (probes ++
            items.take (MAX_DISCOVERY_PROBES - probes.length)).length := by
          by_contra hlarge
          exact absurd ((if_neg hlarge).symm.trans hx) nofun
        exact absurd hrange (not_le.mpr hindex)
      | some item =>
        have hperm := pending_perm hitem
        refine Rules.wp_seq (showField_free item.id "NoteType") fun answer s₂ hanswer => ?_
        cases hjudged : judgeProbe answer with
        | error e => exact fun found' hfound => nomatch hfound
        | ok isSshKey =>
          have hlength := hperm.length_eq
          simp only [List.length_append, List.length_cons] at hlength hfuel
          refine Rules.wp_mono (Rules.wp_history (ih (by omega))) fun r s₃ h found' hfound => ?_
          exact (h.1 found' hfound).of_probe hperm (hanswer.mono h.2) hjudged

theorem joinProbes_emits (fuel : ℕ) (probes items found : List ItemSummary) :
    (joinProbes client fuel probes items found).Emits Sparing := by
  induction fuel generalizing probes items found with
  | zero => trivial
  | succ fuel ih =>
    unfold joinProbes
    dsimp only
    split_ifs
    · trivial
    · refine ⟨trivial, fun index => ⟨trivial, ?_⟩⟩
      dsimp only [Program.bind]
      split
      · trivial
      · refine (showField_emits _ _).bind fun answer => ?_
        split
        · trivial
        · exact ih _ _ _

theorem discoverSshKeyItems_free : Rules.free.wp t (discoverSshKeyItems client) (fun r s' =>
    ∀ found, r = .ok found → ∃ items, s'.Did t (.noted (.listed client.source (.ok items))) ∧
      (∀ item ∈ items, item ∈ found ∨ Dismissed s' t client.source item) ∧
      ∀ item ∈ found, item ∈ items ∧ Probed s' t client.source item) s := by
  refine Rules.wp_seq ls_free fun listing s₁ hlisted => ?_
  cases listing with
  | error e => exact fun found hfound => nomatch hfound
  | ok items =>
    refine Rules.wp_seq (Rules.wp_history (joinProbes_free (by simp))) fun r s₂ h => ?_
    intro found hfound
    cases r with
    | error e => cases hfound
    | ok found' =>
      obtain rfl := Except.ok.inj hfound
      have hsettles := h.1 found' rfl
      refine ⟨items, hlisted.mono h.2, fun item hitem => ?_, fun item hitem => ?_⟩
      · rw [List.mem_mergeSort]
        exact hsettles.settled item hitem
      · exact (hsettles.probed item (List.mem_mergeSort.mp hitem)).resolve_left List.not_mem_nil

theorem discoverSshKeyItems_emits : (discoverSshKeyItems client).Emits Sparing := by
  refine ls_emits.bind ?_
  rintro (e | items)
  · trivial
  · exact (joinProbes_emits _ _ _ _).bind fun _ => trivial

theorem effectiveKeys_free : Rules.free.wp t (effectiveKeys client config) (fun r s' =>
    ∀ keys, r = .ok keys → Wanted s' t client.source config keys) s := by
  unfold effectiveKeys
  split_ifs with hempty
  · refine Rules.wp_seq discoverSshKeyItems_free fun found s₁ h => ?_
    cases found with
    | error e => exact fun keys hkeys => nomatch hkeys
    | ok found =>
      dsimp only
      split_ifs
      · exact fun keys hkeys => nomatch hkeys
      · intro keys hkeys
        obtain rfl := Except.ok.inj hkeys
        obtain ⟨items, hlisted, hsettled, hprobed⟩ := h found rfl
        refine ⟨fun hpinned => absurd (List.isEmpty_iff.mp hempty) hpinned, fun _ =>
          ⟨items, hlisted, fun item hitem => ?_, fun key hkey => ?_⟩⟩
        · exact (hsettled item hitem).imp (List.mem_map_of_mem) id
        · obtain ⟨item, hitem, rfl⟩ := List.mem_map.mp hkey
          exact ⟨item, (hprobed item hitem).1, rfl, (hprobed item hitem).2⟩
  · intro keys hkeys
    obtain rfl := Except.ok.inj hkeys
    exact ⟨fun _ => rfl, fun hnone => absurd (List.isEmpty_iff.mpr hnone) hempty⟩

theorem effectiveKeys_emits : (effectiveKeys client config).Emits Sparing := by
  unfold effectiveKeys
  split_ifs
  · refine discoverSshKeyItems_emits.bind ?_
    rintro (e | found)
    · trivial
    · dsimp only
      split_ifs
      · trivial
      · trivial
  · trivial

theorem inspectKeys_free {keys : List KeyConfig} : Rules.free.wp t
    (inspectKeys ssh client config seen keys) (fun inspected s' => ∃ answers,
      answers.map Prod.fst = keys ∧ inspected = inspectAnswers ssh config seen answers ∧
      ∀ pair ∈ answers,
        s'.Did t (.noted (.returned client.source pair.1.id "Public Key" pair.2))) s := by
  induction keys generalizing seen s with
  | nil => exact ⟨[], rfl, rfl, nofun⟩
  | cons key keys ih =>
    refine Rules.wp_seq (showField_free key.id "Public Key") fun answer s₁ hanswer => ?_
    refine Rules.wp_seq (Rules.wp_history ih) fun rest s₂ h => ?_
    obtain ⟨⟨answers, rfl, rfl, hanswers⟩, hhistory⟩ := h
    refine ⟨(key, answer) :: answers, rfl, rfl, fun pair hpair => ?_⟩
    rcases List.mem_cons.mp hpair with rfl | hpair
    · exact hanswer.mono hhistory
    · exact hanswers pair hpair

theorem inspectKeys_emits (seen : Seen) (keys : List KeyConfig) :
    (inspectKeys ssh client config seen keys).Emits Sparing := by
  induction keys generalizing seen with
  | nil => trivial
  | cons key keys ih =>
    exact (showField_emits _ _).bind fun answer => (ih _).bind fun _ => trivial

/-- The answers a set came of, one to each key, all given to thread `t`. -/
structure Scan (s : Stage runtime) (t : ℕ) (source : MasterPasswordSource) (keys : List KeyConfig)
    (answers : List (KeyConfig × Except LpassError Bytes)) : Prop where
  keys : answers.map Prod.fst = keys
  given : ∀ pair ∈ answers, s.Did t (.noted (.returned source pair.1.id "Public Key" pair.2))

namespace KeyStore

theorem loadComplete_free {keys : List KeyConfig} : Rules.free.wp t
    (KeyStore.loadComplete ssh client config keys) (fun r s' => ∀ store, r = some store →
      store.entries ≠ [] ∧ ∃ answers, Scan s' t client.source keys answers ∧
        collectComplete (inspectAnswers ssh config [] answers) = some store.entries) s := by
  refine Rules.wp_seq inspectKeys_free fun inspected s₁ h store hstore => ?_
  obtain ⟨answers, hkeys, rfl, hgiven⟩ := h
  obtain ⟨entries, hcollect, hfinish⟩ := Option.bind_eq_some_iff.mp hstore
  unfold finishComplete at hfinish
  split_ifs at hfinish with hempty
  obtain rfl := Option.some.inj hfinish
  exact ⟨fun hnil => hempty (List.isEmpty_iff.mpr hnil), answers, ⟨hkeys, hgiven⟩, hcollect⟩

theorem load_free {keys : List KeyConfig} : Rules.free.wp t
    (KeyStore.load ssh client config keys) (fun r s' => ∀ store, r = .ok store →
      ∃ answers, Scan s' t client.source keys answers ∧
        collect (inspectAnswers ssh config [] answers) = .ok store.entries) s := by
  refine Rules.wp_seq inspectKeys_free fun inspected s₁ h store hstore => ?_
  obtain ⟨answers, hkeys, rfl, hgiven⟩ := h
  cases hcollect : collect (inspectAnswers ssh config [] answers) with
  | error e =>
    rw [hcollect] at hstore
    cases hstore
  | ok entries =>
    rw [hcollect] at hstore
    have hfinish : finishLoad entries = .ok store := hstore
    unfold finishLoad at hfinish
    split_ifs at hfinish
    obtain rfl := Except.ok.inj hfinish
    exact ⟨answers, ⟨hkeys, hgiven⟩, hcollect⟩

theorem loadComplete_emits (keys : List KeyConfig) :
    (KeyStore.loadComplete ssh client config keys).Emits Sparing :=
  (inspectKeys_emits [] keys).bind fun _ => trivial

theorem load_emits (keys : List KeyConfig) :
    (KeyStore.load ssh client config keys).Emits Sparing :=
  (inspectKeys_emits [] keys).bind fun _ => trivial

end KeyStore

/-! ### Complete sets -/

theorem Dismissed.mono {s' : Stage runtime} {source : MasterPasswordSource} {item : ItemSummary}
    (h : Dismissed s t source item) (hs : s.history <:+ s'.history) : Dismissed s' t source item := by
  obtain ⟨result, hd, hjudged⟩ := h
  exact ⟨result, hd.mono hs, hjudged⟩

theorem Wanted.mono {s' : Stage runtime} {source : MasterPasswordSource} {keys : List KeyConfig}
    (h : Wanted s t source config keys) (hs : s.history <:+ s'.history) :
    Wanted s' t source config keys := by
  refine ⟨h.pinned, fun hnone => ?_⟩
  obtain ⟨items, hlisted, hsettled, hprobed⟩ := h.listed hnone
  refine ⟨items, hlisted.mono hs, fun item hitem => ?_, fun key hkey => ?_⟩
  · exact (hsettled item hitem).imp id fun hdismissed => hdismissed.mono hs
  · obtain ⟨item, hitem, heq, result, hd, hjudged⟩ := hprobed key hkey
    exact ⟨item, hitem, heq, result, hd.mono hs, hjudged⟩

theorem Scan.mono {s' : Stage runtime} {source : MasterPasswordSource} {keys : List KeyConfig}
    (h : Scan s t source keys answers) (hs : s.history <:+ s'.history) :
    Scan s' t source keys answers :=
  ⟨h.keys, fun pair hpair => (h.given pair hpair).mono hs⟩

theorem Scan.held {source : MasterPasswordSource} {keys : List KeyConfig} {store : KeyStore}
    (h : Scan s t source keys answers)
    (hcollect : KeyStore.collectComplete (inspectAnswers ssh config [] answers) =
      some store.entries) :
    ∀ key ∈ keys, Holds s t source ssh config store key ∨ Judged s t source ssh key := by
  intro key hkey
  rw [← h.keys] at hkey
  obtain ⟨pair, hpair, rfl⟩ := List.mem_map.mp hkey
  have hgiven := h.given pair hpair
  rcases KeyStore.held_of_collectComplete hcollect pair hpair with ⟨raw, publicKey, hraw, haccept, hmem⟩ | hverdict
  · exact .inl ⟨raw, publicKey, hraw ▸ hgiven, haccept, hmem⟩
  · exact .inr ⟨pair.2, hgiven, hverdict⟩

/-- The set is what a whole scan by thread `t` came to. -/
def Loaded (s : Stage runtime) (t : ℕ) (source : MasterPasswordSource) (ssh : Ssh) (config : Config)
    (store : KeyStore) : Prop :=
  ∃ keys answers, Wanted s t source config keys ∧ Scan s t source keys answers ∧
    KeyStore.collectComplete (inspectAnswers ssh config [] answers) = some store.entries ∧
    store.entries ≠ []

theorem Loaded.complete {source : MasterPasswordSource} {store : KeyStore}
    (h : Loaded s t source ssh config store) : Complete s t source ssh config store := by
  obtain ⟨keys, answers, hwanted, hscan, hcollect, -⟩ := h
  exact ⟨keys, hwanted, hscan.held hcollect⟩

theorem Scan.held_all {source : MasterPasswordSource} {keys : List KeyConfig} {store : KeyStore}
    (h : Scan s t source keys answers)
    (hcollect : KeyStore.collect (inspectAnswers ssh config [] answers) = .ok store.entries) :
    store.entries.length ≤ keys.length ∧ (keys.length ≤ store.entries.length →
      ∀ key ∈ keys, Holds s t source ssh config store key) := by
  have hlength : keys.length = answers.length := by rw [← h.keys, List.length_map]
  rw [hlength]
  obtain ⟨hle, hheld⟩ := KeyStore.held_of_collect hcollect
  refine ⟨hle, fun hall key hkey => ?_⟩
  rw [← h.keys] at hkey
  obtain ⟨pair, hpair, rfl⟩ := List.mem_map.mp hkey
  obtain ⟨raw, publicKey, hraw, haccept, hmem⟩ := hheld hall pair hpair
  exact ⟨raw, publicKey, hraw ▸ h.given pair hpair, haccept, hmem⟩

end LastpassSshAgent
