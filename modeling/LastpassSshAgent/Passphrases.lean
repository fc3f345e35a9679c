import LastpassSshAgent.Completeness
import LastpassSshAgent.Resumption.Traces

/-!
# The vault's passphrase is authoritative

A passphrase the vault holds decides the matter, and so does a vault that fails. What
asks the user or the platform's store comes after an empty field only, and a passphrase
is stored once, right after it decrypted the key.
-/

namespace LastpassSshAgent

open Resumption

def storesPassphrase : Act runtime → Bool
  | .began (.storeSet _ _) => true
  | _ => false

def Query.ForKey : Query → Prop
  | .storeGet _ => True
  | .storeSet _ _ => True
  | .prompt request => request.masterPassword = false
  | _ => False

def Typed (ssh : Ssh) (entry : KeyEntry) (acts : List (Act runtime))
    (answer : Except PromptError Bytes) : Prop :=
  Act.answered (I := runtime) (.prompt (.new ssh entry)) answer ∈ acts

def Saved (ssh : Ssh) (entry : KeyEntry) (acts : List (Act runtime))
    (saved : Except String (Option Bytes)) : Prop :=
  Act.answered (I := runtime) (.storeGet (entry.fingerprint ssh)) saved ∈ acts

/-- What is stored, if anything is: once, the passphrase that decrypted the key just
before, under the fingerprint the key is advertised by. -/
structure Stores (ssh : Ssh) (entry : KeyEntry) (encrypted : PrivateKey)
    (acts : List (Act runtime)) (result : Except String PrivateKey) : Prop where
  once : acts.countP storesPassphrase ≤ 1
  verified : ∀ fingerprint secret, .began (.storeSet fingerprint secret) ∈ acts →
    fingerprint = entry.fingerprint ssh ∧
    (∃ front back, acts = front ++ .answered (.prompt (.new ssh entry)) (Except.ok secret) ::
      .began (.storeSet fingerprint secret) :: back) ∧
    ∃ key, ssh.decrypt encrypted secret = .ok key ∧ result = .ok key

/-- What `unlock` comes to, from the vault's answer and what the thread does after it. -/
structure UnlockOutcome (ssh : Ssh) (entry : KeyEntry) (encrypted : PrivateKey)
    (stored : Except LpassError Bytes) (acts : List (Act runtime))
    (result : Except String PrivateKey) : Prop where
  vault : ∀ v, stored = .ok v → v ≠ [] → result = Unlocker.decrypt ssh encrypted v ∧ acts = []
  refused : ∀ e, stored = .error e → (∃ why, result = .error why) ∧ acts = []
  noFallback : stored = .ok [] → entry.passphraseFallback = .error →
    (∃ why, result = .error why) ∧ acts = []
  promptOnly : entry.passphraseFallback = .prompt →
    ∀ fingerprint, .began (.storeGet fingerprint) ∉ acts ∧ ∀ secret,
      .began (.storeSet fingerprint secret) ∉ acts
  unlocked : ∀ key, result = .ok key → ∃ secret, ssh.decrypt encrypted secret = .ok key ∧
    (stored = .ok secret ∧ secret ≠ [] ∨
      Saved ssh entry acts (.ok (some secret)) ∧ secret.length ≤ MAX_PASSPHRASE_BYTES ∨
      Typed ssh entry acts (.ok secret))
  failed : ∀ why, result = .error why → stored = .ok [] → entry.passphraseFallback ≠ .error →
    ∃ answer, Typed ssh entry acts answer ∧ ∀ typed, answer = .ok typed →
      typed = [] ∨ ∃ e, ssh.decrypt encrypted typed = .error e
  stores : Stores ssh entry encrypted acts result

/-! ### What the calls do -/

section

variable {unlocker : Unlocker} {entry : KeyEntry} {encrypted : PrivateKey} {gate gate' : Bool}
  {acts : List (Act runtime)}

def Enters (acts : List (Act runtime)) : Prop :=
  ∀ act ∈ acts, act = .began .gate ∨ act = .answered .gate ()

theorem traces_enter (h : (InteractionGate.enter gate).Traces acts gate') : Enters acts := by
  unfold InteractionGate.enter at h
  split_ifs at h
  · obtain ⟨rfl, -⟩ := Program.traces_done.mp h
    exact nofun
  · obtain ⟨a, rest, rfl, hdone⟩ := Program.traces_ask.mp h
    obtain ⟨rfl, -⟩ := Program.traces_done.mp hdone
    exact List.forall_mem_cons.mpr ⟨.inl rfl, List.forall_mem_cons.mpr ⟨.inr rfl, nofun⟩⟩

theorem traces_askUser {result : Except String Bytes}
    (h : (unlocker.ask entry gate).Traces acts (result, gate')) :
    ∃ entering, ∃ answer : Except PromptError Bytes, Enters entering ∧
      acts = entering ++ [.began (.prompt (.new unlocker.ssh entry)),
        .answered (.prompt (.new unlocker.ssh entry)) answer] ∧
      (∀ typed, result = .ok typed → answer = .ok typed) ∧
      ∀ why, result = .error why → ∀ typed, answer = .ok typed → typed = [] := by
  obtain ⟨gate₁, entering, rest, rfl, henter, hask⟩ := Program.traces_bind.mp h
  obtain ⟨answer, rest, rfl, hanswer⟩ := Program.traces_ask.mp hask
  rcases answer with e | typed
  · obtain ⟨rfl, heq⟩ := Program.traces_done.mp hanswer
    obtain ⟨rfl, -⟩ := Prod.mk.inj heq
    exact ⟨entering, .error e, traces_enter henter, rfl, nofun, nofun⟩
  · have hchosen : (if typed.isEmpty then pure (.error "no passphrase entered", gate₁)
        else pure (.ok typed, gate₁) : Async (Except String Bytes × Bool)).Traces rest (result, gate') :=
      hanswer
    split_ifs at hchosen with hempty
    · obtain ⟨rfl, heq⟩ := Program.traces_done.mp hchosen
      obtain ⟨rfl, -⟩ := Prod.mk.inj heq
      refine ⟨entering, .ok typed, traces_enter henter, rfl, nofun, fun _ _ typed' htyped => ?_⟩
      obtain rfl := Except.ok.inj htyped
      exact List.isEmpty_iff.mp hempty
    · obtain ⟨rfl, heq⟩ := Program.traces_done.mp hchosen
      obtain ⟨rfl, -⟩ := Prod.mk.inj heq
      refine ⟨entering, .ok typed, traces_enter henter, rfl, fun typed' heq => ?_, nofun⟩
      rw [Except.ok.inj heq]

theorem traces_askAndSave {result : Except String PrivateKey}
    (h : (unlocker.askAndSave entry encrypted gate).Traces acts (result, gate')) :
    ∃ entering, ∃ answer : Except PromptError Bytes, ∃ saving, Enters entering ∧
      acts = entering ++ [.began (.prompt (.new unlocker.ssh entry)),
        .answered (.prompt (.new unlocker.ssh entry)) answer] ++ saving ∧
      ((∃ typed key stored, answer = .ok typed ∧ unlocker.ssh.decrypt encrypted typed = .ok key ∧
          result = .ok key ∧ saving = [.began (.storeSet (entry.fingerprint unlocker.ssh) typed),
            .answered (.storeSet (entry.fingerprint unlocker.ssh) typed) stored]) ∨
        (∃ why, result = .error why) ∧ saving = [] ∧ ∀ typed, answer = .ok typed →
          typed = [] ∨ ∃ e, unlocker.ssh.decrypt encrypted typed = .error e) := by
  obtain ⟨⟨asked, gate₁⟩, front, rest, rfl, hask, hrest⟩ := Program.traces_bind.mp h
  obtain ⟨entering, answer, hentering, rfl, hok, herror⟩ := traces_askUser hask
  rcases asked with e | typed
  · obtain ⟨rfl, heq⟩ := Program.traces_done.mp hrest
    obtain ⟨rfl, -⟩ := Prod.mk.inj heq
    exact ⟨entering, answer, [], hentering, rfl,
      .inr ⟨⟨e, rfl⟩, rfl, fun typed htyped => .inl (herror e rfl typed htyped)⟩⟩
  · obtain rfl := hok typed rfl
    cases hkey : unlocker.ssh.decrypt encrypted typed with
    | error e =>
      have hdone : (Program.done (.error s!"decrypting private key: {e}", gate₁) :
          Async (Except String PrivateKey × Bool)).Traces rest (result, gate') := by
        simpa [Unlocker.decrypt, hkey, Except.mapError] using hrest
      obtain ⟨rfl, heq⟩ := Program.traces_done.mp hdone
      obtain ⟨rfl, -⟩ := Prod.mk.inj heq
      refine ⟨entering, .ok typed, [], hentering, rfl,
        .inr ⟨⟨_, rfl⟩, rfl, fun typed' htyped => .inr ⟨e, ?_⟩⟩⟩
      rw [← Except.ok.inj htyped, hkey]
    | ok key =>
      have hsave : (do
          let _ : Except String Unit ← await (.storeSet (entry.fingerprint unlocker.ssh) typed)
          pure (.ok key, gate₁) :
          Async (Except String PrivateKey × Bool)).Traces rest (result, gate') := by
        simpa [Unlocker.decrypt, hkey, Except.mapError] using hrest
      obtain ⟨stored, rest, rfl, hdone⟩ := Program.traces_ask.mp hsave
      obtain ⟨rfl, heq⟩ := Program.traces_done.mp hdone
      obtain ⟨rfl, -⟩ := Prod.mk.inj heq
      exact ⟨entering, .ok typed, _, hentering, rfl, .inl ⟨typed, key, stored, rfl, hkey, rfl, rfl⟩⟩

theorem fromSaved_eq_some {saved : Except String (Option Bytes)} {key : PrivateKey}
    (h : unlocker.fromSaved encrypted saved = some key) : ∃ secret, saved = .ok (some secret) ∧
      secret.length ≤ MAX_PASSPHRASE_BYTES ∧ unlocker.ssh.decrypt encrypted secret = .ok key := by
  unfold Unlocker.fromSaved at h
  split at h
  · rename_i secret
    split_ifs at h with hlong
    refine ⟨secret, rfl, Nat.not_lt.mp hlong, ?_⟩
    cases hkey : unlocker.ssh.decrypt encrypted secret with
    | error e => simp [hkey, Except.toOption] at h
    | ok key' =>
      obtain rfl : key' = key := by simpa [hkey, Except.toOption] using h
      rfl
  · cases h

theorem traces_unlockFromStore {result : Except String PrivateKey}
    (h : (unlocker.unlockFromStore entry encrypted gate).Traces acts (result, gate')) :
    ∃ entering, ∃ saved : Except String (Option Bytes), ∃ gate₁ rest, Enters entering ∧
      acts = entering ++ .began (.storeGet (entry.fingerprint unlocker.ssh)) ::
        .answered (.storeGet (entry.fingerprint unlocker.ssh)) saved :: rest ∧
      ((∃ key, unlocker.fromSaved encrypted saved = some key ∧ result = .ok key ∧ rest = []) ∨
        (unlocker.askAndSave entry encrypted gate₁).Traces rest (result, gate')) := by
  obtain ⟨gate₁, entering, rest, rfl, henter, hget⟩ := Program.traces_bind.mp h
  obtain ⟨saved, rest, rfl, hsaved⟩ := Program.traces_ask.mp hget
  refine ⟨entering, saved, gate₁, rest, traces_enter henter, rfl, ?_⟩
  cases hkey : unlocker.fromSaved encrypted saved with
  | some key =>
    have hdone : (Program.done (.ok key, gate₁) :
        Async (Except String PrivateKey × Bool)).Traces rest (result, gate') := by
      simpa [hkey] using hsaved
    obtain ⟨rfl, heq⟩ := Program.traces_done.mp hdone
    obtain ⟨rfl, -⟩ := Prod.mk.inj heq
    exact .inl ⟨key, rfl, rfl, rfl⟩
  | none => exact .inr (by simpa [hkey] using hsaved)

end

/-! ### What is stored -/

section

variable {ssh : Ssh} {entry : KeyEntry} {encrypted : PrivateKey} {acts : List (Act runtime)}
  {result : Except String PrivateKey}

def StoresNothing (acts : List (Act runtime)) : Prop :=
  ∀ act ∈ acts, storesPassphrase act = false

theorem Enters.storesNothing (h : Enters acts) : StoresNothing acts := by
  intro act hact
  rcases h act hact with rfl | rfl
  · rfl
  · rfl

theorem StoresNothing.countP (h : StoresNothing acts) : acts.countP storesPassphrase = 0 :=
  List.countP_eq_zero.mpr fun act hact => by simp [h act hact]

theorem StoresNothing.append {acts' : List (Act runtime)} (h : StoresNothing acts)
    (h' : StoresNothing acts') : StoresNothing (acts ++ acts') := by
  intro act hact
  exact (List.mem_append.mp hact).elim (h act) (h' act)

theorem StoresNothing.stores (h : StoresNothing acts) : Stores ssh entry encrypted acts result where
  once := h.countP.trans_le (Nat.zero_le 1)
  verified _ _ hset := Bool.noConfusion (h _ hset)

theorem stores_of_saved (entry : KeyEntry) {front back : List (Act runtime)} {typed : Bytes}
    {key : PrivateKey} (hfront : StoresNothing front) (hback : StoresNothing back)
    (hkey : ssh.decrypt encrypted typed = .ok key) :
    Stores ssh entry encrypted (front ++ .answered (.prompt (.new ssh entry)) (Except.ok typed) ::
      .began (.storeSet (entry.fingerprint ssh) typed) :: back) (.ok key) where
  once := by
    rw [List.countP_append, List.countP_cons_of_neg Bool.false_ne_true, List.countP_cons_of_pos rfl,
      hfront.countP, hback.countP]
  verified fingerprint secret hset := by
    rw [List.mem_append, List.mem_cons, List.mem_cons] at hset
    rcases hset with hset | hset | hset | hset
    · exact Bool.noConfusion (hfront _ hset)
    · cases hset
    · obtain ⟨rfl, rfl⟩ := Query.storeSet.inj (Act.began.inj hset)
      exact ⟨rfl, ⟨front, back, rfl⟩, key, hkey, rfl⟩
    · exact Bool.noConfusion (hback _ hset)

end

/-! ### The outcome -/

section

variable {unlocker : Unlocker} {entry : KeyEntry} {encrypted : PrivateKey} {gate gate' : Bool}
  {acts : List (Act runtime)} {result : Except String PrivateKey}

theorem storesNothing_read {fingerprint : String} {saved : Except String (Option Bytes)} :
    StoresNothing [.began (.storeGet fingerprint), .answered (.storeGet fingerprint) saved] := by
  intro act hact
  rcases List.mem_pair.mp hact with rfl | rfl
  · rfl
  · rfl

theorem storesNothing_prompt (request : PassphraseRequest) (answer : Except PromptError Bytes) :
    StoresNothing [.began (.prompt request), .answered (.prompt request) answer] := by
  intro act hact
  rcases List.mem_pair.mp hact with rfl | rfl
  · rfl
  · rfl

theorem decrypt_eq_error {ssh : Ssh} {secret : Bytes} {why : String}
    (h : Unlocker.decrypt ssh encrypted secret = .error why) :
    ∃ e, ssh.decrypt encrypted secret = .error e := by
  cases hkey : ssh.decrypt encrypted secret with
  | error e => exact ⟨e, rfl⟩
  | ok key =>
    rw [Unlocker.decrypt_eq_ok.mpr hkey] at h
    cases h

theorem UnlockOutcome.of_store {ssh : Ssh}
    (hfallback : entry.passphraseFallback = .keychain ∨ entry.passphraseFallback = .secretService)
    (hunlocked : ∀ key, result = .ok key → ∃ secret, ssh.decrypt encrypted secret = .ok key ∧
      (Saved ssh entry acts (.ok (some secret)) ∧ secret.length ≤ MAX_PASSPHRASE_BYTES ∨
        Typed ssh entry acts (.ok secret)))
    (hfailed : ∀ why, result = .error why → ∃ answer, Typed ssh entry acts answer ∧
      ∀ typed, answer = .ok typed → typed = [] ∨ ∃ e, ssh.decrypt encrypted typed = .error e)
    (hstores : Stores ssh entry encrypted acts result) :
    UnlockOutcome ssh entry encrypted (.ok []) acts result where
  vault v hv hne := absurd (Except.ok.inj hv).symm hne
  refused := nofun
  noFallback _ heq := by
    rcases hfallback with hstore | hstore
    · exact nomatch heq.symm.trans hstore
    · exact nomatch heq.symm.trans hstore
  promptOnly heq := by
    rcases hfallback with hstore | hstore
    · exact nomatch heq.symm.trans hstore
    · exact nomatch heq.symm.trans hstore
  unlocked key hkey := by
    obtain ⟨secret, hdecrypts, hfrom⟩ := hunlocked key hkey
    exact ⟨secret, hdecrypts, .inr hfrom⟩
  failed why hwhy _ _ := hfailed why hwhy
  stores := hstores

theorem outcome_of_store (hfallback : entry.passphraseFallback = .keychain ∨
    entry.passphraseFallback = .secretService)
    (h : (unlocker.unlockFromStore entry encrypted gate).Traces acts (result, gate')) :
    UnlockOutcome unlocker.ssh entry encrypted (.ok []) acts result := by
  obtain ⟨entering, saved, gate₁, rest, henters, rfl, hrest⟩ := traces_unlockFromStore h
  have hread : StoresNothing (entering ++ [.began (.storeGet (entry.fingerprint unlocker.ssh)),
      .answered (.storeGet (entry.fingerprint unlocker.ssh)) saved]) :=
    henters.storesNothing.append storesNothing_read
  rcases hrest with ⟨key, hkey, rfl, rfl⟩ | hask
  · obtain ⟨secret, rfl, hlength, hdecrypts⟩ := fromSaved_eq_some hkey
    refine .of_store hfallback (fun key' hok => ?_) nofun hread.stores
    obtain rfl := Except.ok.inj hok
    exact ⟨secret, hdecrypts, .inl ⟨by simp [Saved], hlength⟩⟩
  · obtain ⟨entering', answer, saving, henters', rfl, hanswer⟩ := traces_askAndSave hask
    rcases hanswer with ⟨typed, key, stored, rfl, hkey, rfl, rfl⟩ | ⟨⟨why, rfl⟩, rfl, hrefused⟩
    · refine .of_store hfallback (fun key' hok => ?_) nofun ?_
      · obtain rfl := Except.ok.inj hok
        exact ⟨typed, hkey, .inr (by simp [Typed])⟩
      · have hfront : StoresNothing (entering ++
            [.began (.storeGet (entry.fingerprint unlocker.ssh)),
              .answered (.storeGet (entry.fingerprint unlocker.ssh)) saved] ++
            (entering' ++ [.began (.prompt (.new unlocker.ssh entry))])) :=
          hread.append (henters'.storesNothing.append fun act hact => by
            rw [List.mem_singleton.mp hact]
            rfl)
        have hback : StoresNothing
            [.answered (.storeSet (entry.fingerprint unlocker.ssh) typed) stored] :=
          fun act hact => by
            rw [List.mem_singleton.mp hact]
            rfl
        have hstores := stores_of_saved entry hfront hback hkey
        simpa only [List.append_assoc, List.cons_append, List.nil_append] using hstores
    · have hnothing := hread.append (henters'.storesNothing.append
        (storesNothing_prompt (.new unlocker.ssh entry) answer))
      refine .of_store hfallback nofun (fun _ _ => ⟨answer, by simp [Typed], hrefused⟩)
        (StoresNothing.stores ?_)
      simpa only [List.append_assoc, List.cons_append, List.nil_append, List.append_nil]
        using hnothing

theorem outcome_of_prompt (hfallback : entry.passphraseFallback = .prompt)
    {asked : Except String Bytes} (h : (unlocker.ask entry gate).Traces acts (asked, gate')) :
    UnlockOutcome unlocker.ssh entry encrypted (.ok []) acts
      (asked.bind (Unlocker.decrypt unlocker.ssh encrypted)) := by
  obtain ⟨entering, answer, henters, rfl, hok, hempty⟩ := traces_askUser h
  have hstores := henters.storesNothing.append
    (storesNothing_prompt (.new unlocker.ssh entry) answer)
  refine {
    vault := fun v hv hne => absurd (Except.ok.inj hv).symm hne
    refused := nofun
    noFallback := fun _ heq => by rw [hfallback] at heq; cases heq
    promptOnly := fun _ fingerprint => ⟨?_, fun secret hset => Bool.noConfusion (hstores _ hset)⟩
    unlocked := ?_
    failed := ?_
    stores := hstores.stores }
  · intro hget
    rcases List.mem_append.mp hget with hget | hget
    · rcases henters _ hget with heq | heq <;> cases heq
    · rcases List.mem_pair.mp hget with heq | heq <;> cases heq
  · intro key hkey
    rcases asked with e | typed
    · cases hkey
    · obtain rfl := hok typed rfl
      exact ⟨typed, Unlocker.decrypt_eq_ok.mp hkey, .inr (.inr (by simp [Typed]))⟩
  · intro why hwhy _ _
    refine ⟨answer, by simp [Typed], fun typed htyped => ?_⟩
    rcases asked with e | typed'
    · exact .inl (hempty e rfl typed htyped)
    · obtain rfl := Except.ok.inj ((hok typed' rfl).symm.trans htyped)
      exact .inr (decrypt_eq_error hwhy)

/-- What the vault's answer decides by itself. -/
theorem outcome_of_vault {stored : Except LpassError Bytes}
    (hvault : ∀ v, stored = .ok v → v ≠ [] → result = Unlocker.decrypt unlocker.ssh encrypted v)
    (hrefused : ∀ e, stored = .error e → ∃ why, result = .error why)
    (hfallback : stored = .ok [] → entry.passphraseFallback = .error ∧ ∃ why, result = .error why) :
    UnlockOutcome unlocker.ssh entry encrypted stored [] result := by
  refine {
    vault := fun v hv hne => ⟨hvault v hv hne, rfl⟩
    refused := fun e he => ⟨hrefused e he, rfl⟩
    noFallback := fun hempty _ => ⟨(hfallback hempty).2, rfl⟩
    promptOnly := fun _ _ => ⟨List.not_mem_nil, fun _ => List.not_mem_nil⟩
    unlocked := ?_
    failed := fun _ _ hempty hne => absurd (hfallback hempty).1 hne
    stores := StoresNothing.stores nofun }
  rintro key rfl
  rcases stored with e | v
  · obtain ⟨why, heq⟩ := hrefused e rfl
    cases heq
  · by_cases hv : v = []
    · subst hv
      obtain ⟨-, why, heq⟩ := hfallback rfl
      cases heq
    · exact ⟨v, Unlocker.decrypt_eq_ok.mp (hvault v rfl hv).symm, .inl ⟨rfl, hv⟩⟩

theorem outcome_of_fallBack (h : (unlocker.fallBack entry encrypted gate).Traces acts (result, gate')) :
    UnlockOutcome unlocker.ssh entry encrypted (.ok []) acts result := by
  unfold Unlocker.fallBack at h
  split at h
  · rename_i hfallback
    obtain ⟨rfl, heq⟩ := Program.traces_done.mp h
    obtain ⟨rfl, -⟩ := Prod.mk.inj heq
    exact outcome_of_vault (fun v hv hne => absurd (Except.ok.inj hv).symm hne) nofun
      fun _ => ⟨hfallback, _, rfl⟩
  · rename_i hfallback
    obtain ⟨⟨asked, gate₁⟩, front, rest, rfl, hask, hrest⟩ := Program.traces_bind.mp h
    obtain ⟨rfl, heq⟩ := Program.traces_done.mp hrest
    obtain ⟨rfl, -⟩ := Prod.mk.inj heq
    rw [List.append_nil]
    exact outcome_of_prompt hfallback hask
  · rename_i hfallback
    exact outcome_of_store (.inl hfallback) h
  · rename_i hfallback
    exact outcome_of_store (.inr hfallback) h

theorem outcome_of_unlock (h : (unlocker.unlock entry encrypted gate).Traces acts (result, gate')) :
    ∃ fetching stored rest, acts = fetching ++ rest ∧
      (unlocker.lpass.showField entry.itemId "Passphrase").Traces fetching stored ∧
      UnlockOutcome unlocker.ssh entry encrypted stored rest result := by
  obtain ⟨stored, fetching, rest, rfl, hfetching, hrest⟩ := Program.traces_bind.mp h
  refine ⟨fetching, stored, rest, rfl, hfetching, ?_⟩
  rcases stored with e | v
  · obtain ⟨rfl, heq⟩ := Program.traces_done.mp hrest
    obtain ⟨rfl, -⟩ := Prod.mk.inj heq
    exact outcome_of_vault nofun (fun _ _ => ⟨_, rfl⟩) nofun
  · cases v with
    | nil => exact outcome_of_fallBack hrest
    | cons b v =>
      obtain ⟨rfl, heq⟩ := Program.traces_done.mp hrest
      obtain ⟨rfl, -⟩ := Prod.mk.inj heq
      refine outcome_of_vault (fun v' hv _ => ?_) nofun nofun
      rw [Except.ok.inj hv]

theorem not_forKey_of_fetching {fetching : List (Act runtime)} {stored : Except LpassError Bytes}
    (h : (unlocker.lpass.showField entry.itemId "Passphrase").Traces fetching stored) {q : Query}
    (hq : .began q ∈ fetching) : ¬ q.ForKey := by
  have hcalls : (unlocker.lpass.showField entry.itemId "Passphrase").Emits
      fun act => ∀ q : Query, act = .began q → q.OfClient := by
    refine Program.Emits.bind (p := note _) ⟨nofun, trivial⟩ fun _ => ?_
    refine Program.Emits.bind ?_ fun out => ⟨nofun, trivial⟩
    refine (unlocker.lpass.run_calls _ _).mono ?_
    rintro act hact q rfl
    exact hact
  have hclient := h.emits hcalls _ hq q rfl
  intro hkey
  cases q with
  | prompt request =>
    obtain rfl : request = .master := hclient
    cases hkey
  | storeGet fingerprint => exact hclient
  | storeSet fingerprint secret => exact hclient
  | _ => exact hkey

end

/-- Whatever the other threads do, `unlock` comes to what the vault says of the passphrase,
and where it says nothing to what is saved or typed. -/
theorem vault_passphrase_authoritative (unlocker : Unlocker) (entry : KeyEntry)
    (encrypted : PrivateKey) (gate : Bool) (t : ℕ) (s : Stage runtime) :
    Rules.free.wp t (unlocker.unlock entry encrypted gate) (fun r s' => ∃ fetching stored acts,
      (unlocker.lpass.showField entry.itemId "Passphrase").Traces fetching stored ∧
      (∀ q, .began q ∈ fetching → ¬ q.ForKey) ∧
      s'.acts t = (fetching ++ acts).reverse ++ s.acts t ∧
      UnlockOutcome unlocker.ssh entry encrypted stored acts r.1) s := by
  refine Rules.wp_mono (Rules.wp_traces (Rules.wp_free _ _)) ?_
  rintro ⟨result, gate'⟩ s' ⟨-, acts, htraces, hacts⟩
  obtain ⟨fetching, stored, rest, rfl, hfetching, houtcome⟩ := outcome_of_unlock htraces
  exact ⟨fetching, stored, rest, hfetching, fun q => not_forKey_of_fetching hfetching, hacts, houtcome⟩

end LastpassSshAgent
