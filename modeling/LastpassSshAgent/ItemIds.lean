import LastpassSshAgent.Resumption.Keeps
import LastpassSshAgent.Discards

/-!
# No item id reaches `lpass` as an option

Ids come from the configuration, from a listing, and from the identities file, and each of
the three checks them as it reads them. Every program of the agent keeps to ids so checked:
in what it asks of `lpass`, in the sets it serves and in those it writes down, so that no
file it wrote is refused for its ids.
-/

namespace LastpassSshAgent

open Resumption

def KeyStore.Numeric (store : KeyStore) : Prop :=
  ∀ entry ∈ store.entries, isItemId entry.itemId = true

def Remembered.Numeric (remembered : Remembered) : Prop :=
  ∀ key ∈ remembered.keys, isItemId key.id = true

def NumericArgs (args : List String) : Prop :=
  args = ["ls", "--color=never"] ∨
    ∃ field item, args = ["show", "--field=" ++ field, item] ∧ isItemId item = true

/-- What a set was written down as reads back as that set if it fits, and is in no case
refused for its ids. -/
def ReadsBack (toml : Toml) (remembered : Remembered) (encoded : Except Error Bytes) : Prop :=
  ∀ bytes, encoded = .ok bytes →
    Identities.decode toml (bytes.take (Identities.MAX_BYTES + 1)) ≠
      .error "an item id that is not one" ∧
    (bytes.length ≤ Identities.MAX_BYTES → ∀ path,
      Identities.load toml path (.regular bytes) = .ok (some remembered))

/-- An act that names item ids only, and if it writes a set down, one that reads back. -/
def NumericAct (toml : Toml) : Act runtime → Prop
  | .started (.probe item) => isItemId item = true
  | .began (.lpass args _ _) => NumericArgs args
  | .noted (.called _ item _) => isItemId item = true
  | .noted (.listed _ result) => ∀ items, result = .ok items → ∀ item ∈ items, isItemId item.id = true
  | .noted (.replaced store) => store.Numeric
  | .noted (.saved remembered encoded) => remembered.Numeric ∧ ReadsBack toml remembered encoded
  | _ => True

/-! ### Written down and read back -/

theorem Identities.numeric_of_load {toml : Toml} {path : String} {file : File}
    {remembered : Remembered} (h : load toml path file = .ok (some remembered)) :
    remembered.Numeric := by
  obtain ⟨bytes, rfl, hdecode⟩ := load_eq_some.mp h
  obtain ⟨-, text, -, -, hids⟩ := decode_eq_ok.mp hdecode
  exact hids

theorem Identities.decode_take_encode {toml : Toml} (htoml : toml.RoundTrips)
    {remembered : Remembered} {bytes : Bytes} (he : encode toml remembered = .ok bytes)
    (hids : remembered.Numeric) :
    decode toml (bytes.take (MAX_BYTES + 1)) = .ok remembered ∨
      decode toml (bytes.take (MAX_BYTES + 1)) = .error "larger than anything this writes" := by
  rw [decode_take]
  by_cases hsize : bytes.length ≤ MAX_BYTES
  · obtain ⟨text, htext, rfl⟩ := encode_eq_ok.mp he
    exact .inl (decode_eq_ok.mpr ⟨hsize, text, fromUtf8_utf8 text, htoml _ _ htext, hids⟩)
  · exact .inr (if_pos (Nat.lt_of_not_le hsize))

theorem readsBack_encode {toml : Toml} (htoml : toml.RoundTrips) {remembered : Remembered}
    (hids : remembered.Numeric) : ReadsBack toml remembered (Identities.encode toml remembered) := by
  intro bytes he
  refine ⟨fun hrefused => ?_, fun hsize path => Identities.load_encode htoml path he hsize hids⟩
  rcases Identities.decode_take_encode htoml he hids with hdecode | hdecode
  · rw [hdecode] at hrefused
    cases hrefused
  · rw [hdecode] at hrefused
    simp at hrefused

namespace KeyStore

theorem Numeric.remember {store : KeyStore} (h : store.Numeric) (ssh : Ssh) :
    (store.remember ssh).Numeric := by
  intro key hkey
  obtain ⟨entry, hentry, rfl⟩ := List.mem_map.mp hkey
  exact h entry hentry

theorem Numeric.lookup {store : KeyStore} (h : store.Numeric) {keyData : KeyData}
    {entry : KeyEntry} (hentry : store.lookup keyData = some entry) :
    isItemId entry.itemId = true :=
  h entry (List.mem_of_find?_eq_some hentry)

theorem mem_rebuild {ssh : Ssh} {remembered : Remembered} {config : Config} {seen : Seen}
    {wanted : List KeyConfig} {entry : KeyEntry}
    (h : entry ∈ (rebuild ssh remembered config seen wanted).1) :
    ∃ key ∈ wanted, entry.itemId = key.id := by
  induction wanted generalizing seen with
  | nil => cases h
  | cons key wanted ih =>
    rw [rebuild] at h
    split at h
    · obtain ⟨other, hother, hid⟩ := ih h
      exact ⟨other, List.mem_cons_of_mem _ hother, hid⟩
    · split at h
      · rcases List.mem_cons.mp h with rfl | h
        · exact ⟨key, List.mem_cons_self, rfl⟩
        · obtain ⟨other, hother, hid⟩ := ih h
          exact ⟨other, List.mem_cons_of_mem _ hother, hid⟩
      · obtain ⟨other, hother, hid⟩ := ih h
        exact ⟨other, List.mem_cons_of_mem _ hother, hid⟩

theorem fromRemembered_numeric {ssh : Ssh} {remembered : Remembered} {config : Config}
    (hfile : remembered.Numeric) (hpinned : ∀ key ∈ config.keys, isItemId key.id = true) :
    (fromRemembered ssh remembered config).store.Numeric := by
  intro entry hentry
  obtain ⟨key, hkey, hid⟩ := mem_rebuild hentry
  rw [hid]
  unfold wantedFrom at hkey
  split_ifs at hkey
  · obtain ⟨known, hknown, rfl⟩ := List.mem_map.mp hkey
    exact hfile known hknown
  · exact hpinned key hkey

end KeyStore

theorem numeric_of_rememberedStore {ssh : Ssh} {toml : Toml} {path : String} {config : Config}
    {file : File} {store : KeyStore} (hpinned : ∀ key ∈ config.keys, isItemId key.id = true)
    (h : rememberedStore ssh toml path config file = .ok (some store)) : store.Numeric := by
  obtain ⟨found, hload, hstore⟩ := bind_eq_ok.mp h
  rcases found with _ | remembered
  · cases hstore
  · dsimp only at hstore
    split_ifs at hstore
    · cases hstore
    · cases hstore
    · obtain rfl := Option.some.inj (Except.ok.inj hstore)
      exact KeyStore.fromRemembered_numeric (Identities.numeric_of_load hload) hpinned

/-! ### What the clients do -/

section

variable {Good : World → Prop} {toml : Toml} {client : LpassCli}

theorem numericAct_of_callsWith {args : List String} (hargs : NumericArgs args)
    {act : Act runtime} (h : CallsWith args act) : NumericAct toml act := by
  cases act with
  | began q =>
    cases q with
    | lpass args' password maxBytes =>
      obtain rfl : args' = args := h
      exact hargs
    | _ => trivial
  | noted e =>
    cases e with
    | asked => trivial
    | holding secret source => trivial
    | touched => trivial
    | rejected => trivial
    | heldReleased => trivial
    | _ => exact h.elim
  | answered q a => trivial
  | started task => exact h.elim
  | ended => exact h.elim

theorem run_numeric {args : List String} (hargs : NumericArgs args) (maxBytes : ℕ) :
    (client.run args maxBytes).Keeps Good (NumericAct toml) fun _ => True :=
  ((client.run_callsWith args maxBytes).mono fun _ => numericAct_of_callsWith hargs).keeps

theorem showField_numeric {item : String} (hitem : isItemId item = true) (field : String) :
    (client.showField item field).Keeps Good (NumericAct toml) fun _ => True := by
  refine (Program.Keeps.tell (I := runtime) (e := Event.called client.source item field) hitem).bind fun _ _ => ?_
  refine (run_numeric (.inr ⟨field, item, rfl, hitem⟩) _).bind fun out _ => ?_
  exact ⟨trivial, trivial⟩

theorem ls_numeric : client.ls.Keeps Good (NumericAct toml)
    (fun r => ∀ items, r = .ok items → ∀ item ∈ items, isItemId item.id = true) := by
  refine (run_numeric (.inl rfl) _).bind fun out _ => ?_
  have hparsed : ∀ items, LpassCli.parsed out = .ok items → ∀ item ∈ items, isItemId item.id = true :=
    fun items => LpassCli.isItemId_of_parsed
  exact ⟨hparsed, hparsed⟩

/-! ### What a scan does -/

theorem joinProbes_numeric {fuel : ℕ} {probes items found : List ItemSummary}
    (hprobes : ∀ item ∈ probes, isItemId item.id = true)
    (hitems : ∀ item ∈ items, isItemId item.id = true)
    (hfound : ∀ item ∈ found, isItemId item.id = true) :
    (joinProbes client fuel probes items found).Keeps Good (NumericAct toml)
      (fun r => ∀ found, r = .ok found → ∀ item ∈ found, isItemId item.id = true) := by
  induction fuel generalizing probes items found with
  | zero => exact fun found' h => Except.ok.inj h ▸ hfound
  | succ fuel ih =>
    have hpending : ∀ item ∈ probes ++ items.take (MAX_DISCOVERY_PROBES - probes.length),
        isItemId item.id = true := by
      intro item hitem
      rcases List.mem_append.mp hitem with hitem | hitem
      · exact hprobes item hitem
      · exact hitems item (List.mem_of_mem_take hitem)
    unfold joinProbes
    dsimp only
    split_ifs
    · exact fun found' h => Except.ok.inj h ▸ hfound
    refine ⟨trivial, fun index => ⟨trivial, ?_⟩⟩
    dsimp only [Program.bind]
    split
    · exact fun found' h => Except.ok.inj h ▸ hfound
    · rename_i item hitem
      have hid := hpending item (List.mem_of_getElem? hitem)
      refine (showField_numeric hid "NoteType").bind fun answer _ => ?_
      split
      · exact fun found' h => absurd h (by simp)
      · apply ih
        · exact fun other hother => hpending other (List.mem_of_mem_eraseIdx hother)
        · exact fun other hother => hitems other (List.mem_of_mem_drop hother)
        · split_ifs
          · intro other hother
            rcases List.mem_append.mp hother with hother | hother
            · exact hfound other hother
            · exact List.mem_singleton.mp hother ▸ hid
          · exact hfound

theorem discoverSshKeyItems_numeric :
    (discoverSshKeyItems client).Keeps Good (NumericAct toml)
      (fun r => ∀ found, r = .ok found → ∀ item ∈ found, isItemId item.id = true) := by
  refine ls_numeric.bind fun listing hlisting => ?_
  cases listing with
  | error e => exact fun found h => nomatch h
  | ok items =>
    have hitems := hlisting items rfl
    refine (joinProbes_numeric (by simp) hitems (by simp)).bind fun r hr => ?_
    cases r with
    | error e => exact fun found h => nomatch h
    | ok found =>
      intro sorted hsorted item hitem
      obtain rfl := Except.ok.inj hsorted
      exact hr found rfl item (List.mem_mergeSort.mp hitem)

variable {ssh : Ssh} {config : Config}

theorem effectiveKeys_numeric (hpinned : ∀ key ∈ config.keys, isItemId key.id = true) :
    (effectiveKeys client config).Keeps Good (NumericAct toml)
      (fun r => ∀ keys, r = .ok keys → ∀ key ∈ keys, isItemId key.id = true) := by
  unfold effectiveKeys
  split_ifs
  · refine discoverSshKeyItems_numeric.bind fun r hr => ?_
    cases r with
    | error e => exact fun keys h => nomatch h
    | ok found =>
      dsimp only
      split_ifs
      · exact fun keys h => nomatch h
      · intro keys hkeys key hkey
        obtain rfl := Except.ok.inj hkeys
        obtain ⟨item, hitem, rfl⟩ := List.mem_map.mp hkey
        exact hr found rfl item hitem
  · exact fun keys h => Except.ok.inj h ▸ hpinned

theorem inspectKeys_numeric {seen : Seen} {keys : List KeyConfig}
    (hkeys : ∀ key ∈ keys, isItemId key.id = true) :
    (inspectKeys ssh client config seen keys).Keeps Good (NumericAct toml)
      (fun inspected => ∀ entry ∈ usables inspected, isItemId entry.itemId = true) := by
  induction keys generalizing seen with
  | nil => exact fun entry hentry => nomatch hentry
  | cons key keys ih =>
    obtain ⟨hkey, hkeys⟩ := List.forall_mem_cons.mp hkeys
    refine (showField_numeric hkey "Public Key").bind fun answer _ => ?_
    refine (ih hkeys).bind fun rest hrest => ?_
    intro entry hentry
    cases hfirst : (inspect ssh config seen key answer).1 with
    | unusable itemId name issue =>
      rw [hfirst] at hentry
      exact hrest entry hentry
    | usable first =>
      rw [hfirst] at hentry
      rcases List.mem_cons.mp hentry with rfl | hentry
      · obtain ⟨raw, publicKey, -, -, rfl⟩ := inspect_usable hfirst
        exact hkey
      · exact hrest entry hentry

namespace KeyStore

theorem load_numeric {keys : List KeyConfig} (hkeys : ∀ key ∈ keys, isItemId key.id = true) :
    (load ssh client config keys).Keeps Good (NumericAct toml)
      (fun r => ∀ store, r = .ok store → store.Numeric) := by
  refine (inspectKeys_numeric hkeys).bind fun inspected hinspected store hstore => ?_
  cases hcollect : collect inspected with
  | error e =>
    rw [hcollect] at hstore
    cases hstore
  | ok entries =>
    rw [hcollect] at hstore
    have hfinish : finishLoad entries = .ok store := hstore
    unfold finishLoad at hfinish
    split_ifs at hfinish
    obtain rfl := Except.ok.inj hfinish
    rw [usables_of_collect hcollect]
    exact hinspected

theorem loadComplete_numeric {keys : List KeyConfig}
    (hkeys : ∀ key ∈ keys, isItemId key.id = true) :
    (loadComplete ssh client config keys).Keeps Good (NumericAct toml)
      (fun r => ∀ store, r = some store → store.Numeric) := by
  refine (inspectKeys_numeric hkeys).bind fun inspected hinspected store hstore => ?_
  obtain ⟨entries, hcollect, hfinish⟩ := Option.bind_eq_some_iff.mp hstore
  unfold finishComplete at hfinish
  split_ifs at hfinish
  obtain rfl := Option.some.inj hfinish
  rw [usables_of_collect (collectComplete_iff.mp hcollect).1]
  exact hinspected

end KeyStore

theorem saveBestEffort_numeric (htoml : toml.RoundTrips) {remembered : Remembered}
    (hids : remembered.Numeric) :
    (Refresher.saveBestEffort toml remembered).Keeps Good (NumericAct toml) fun _ => True :=
  ⟨⟨hids, readsBack_encode htoml hids⟩, trivial⟩

end

/-! ### What the refresher, `start` and `list` do -/

section

variable {Good : World → Prop}

theorem refreshNow_numeric {refresher : Refresher} (htoml : refresher.toml.RoundTrips)
    (hpinned : ∀ key ∈ refresher.config.keys, isItemId key.id = true) :
    refresher.refreshNow.Keeps Good (NumericAct refresher.toml) fun _ => True := by
  refine (effectiveKeys_numeric hpinned).bind fun keys hkeys => ?_
  cases keys with
  | error e => trivial
  | ok keys =>
    refine (KeyStore.loadComplete_numeric (hkeys keys rfl)).bind fun loaded hloaded => ?_
    cases loaded with
    | none => trivial
    | some store =>
      have hstore := hloaded store rfl
      exact ⟨hstore, saveBestEffort_numeric htoml (hstore.remember refresher.ssh)⟩

theorem scan_numeric (refresher : Refresher) (htoml : refresher.toml.RoundTrips)
    (hpinned : ∀ key ∈ refresher.config.keys, isItemId key.id = true) :
    refresher.scan.Keeps Good (NumericAct refresher.toml) fun _ => True :=
  (refreshNow_numeric htoml hpinned).bind fun _ _ => ⟨trivial, trivial⟩

variable {command : Command}

theorem rememberIfComplete_numeric (htoml : command.toml.RoundTrips) {store : KeyStore}
    (hstore : store.Numeric) (wanted : ℕ) :
    (command.rememberIfComplete store wanted).Keeps Good (NumericAct command.toml)
      fun _ => True := by
  unfold Command.rememberIfComplete
  split
  · trivial
  · split_ifs
    · exact (saveBestEffort_numeric htoml (hstore.remember command.ssh)).bind fun _ _ => trivial
    · trivial

theorem scannedStore_numeric (hpinned : ∀ key ∈ command.config.keys, isItemId key.id = true) :
    command.scannedStore.Keeps Good (NumericAct command.toml)
      (fun r => ∀ store wanted, r = .ok (store, wanted) → store.Numeric) := by
  refine (effectiveKeys_numeric hpinned).bind fun keys hkeys => ?_
  cases keys with
  | error e => exact fun store wanted h => nomatch h
  | ok keys =>
    refine (KeyStore.load_numeric (hkeys keys rfl)).bind fun loaded hloaded => ?_
    intro store wanted h
    cases loaded with
    | error e => cases h
    | ok loaded =>
      obtain ⟨rfl, -⟩ := Prod.mk.inj (Except.ok.inj h)
      exact hloaded loaded rfl

theorem startStore_numeric (hpinned : ∀ key ∈ command.config.keys, isItemId key.id = true) :
    command.startStore.Keeps Good (NumericAct command.toml)
      (fun r => ∀ store wanted, r = .ok (store, wanted) → store.Numeric) := by
  intro w _
  dsimp only [Program.bind]
  split
  · exact fun store wanted h => nomatch h
  · rename_i kept hkept
    intro store wanted h
    obtain ⟨rfl, -⟩ := Prod.mk.inj (Except.ok.inj h)
    exact numeric_of_rememberedStore hpinned hkept
  · refine (scannedStore_numeric hpinned).bind fun scanned hscanned => ?_
    intro store wanted h
    cases scanned with
    | error e => cases h
    | ok scanned =>
      obtain ⟨rfl, -⟩ := Prod.mk.inj (Except.ok.inj h)
      exact hscanned scanned.1 scanned.2 rfl

def NumericResult (r : Except Panic (Except Error KeyStore)) : Prop :=
  ∀ store, r = .ok (.ok store) → store.Numeric

theorem remembering_numeric (htoml : command.toml.RoundTrips) {store : KeyStore}
    (hstore : store.Numeric) (wanted : ℕ) :
    (command.rememberIfComplete store wanted >>= fun remembered =>
      pure (remembered.map fun _ => .ok store)).Keeps Good (NumericAct command.toml)
        NumericResult := by
  refine (rememberIfComplete_numeric htoml hstore wanted).bind fun remembered _ => ?_
  intro store' h
  cases remembered with
  | error panic => cases h
  | ok u => exact Except.ok.inj (Except.ok.inj h) ▸ hstore

theorem start_numeric (command : Command) (htoml : command.toml.RoundTrips)
    (hpinned : ∀ key ∈ command.config.keys, isItemId key.id = true) (bound : Except Error Unit) :
    (command.start bound).Keeps Good (NumericAct command.toml) NumericResult := by
  refine (startStore_numeric hpinned).bind fun loaded hloaded => ?_
  cases loaded with
  | error e => exact fun store h => nomatch Except.ok.inj h
  | ok loaded =>
    obtain ⟨store, wanted⟩ := loaded
    have hstore := hloaded store wanted rfl
    cases bound with
    | error e => exact fun store h => nomatch Except.ok.inj h
    | ok u =>
      cases wanted with
      | none => exact fun store' h => Except.ok.inj (Except.ok.inj h) ▸ hstore
      | some wanted => exact remembering_numeric htoml hstore wanted

theorem list_numeric (command : Command) (htoml : command.toml.RoundTrips)
    (hpinned : ∀ key ∈ command.config.keys, isItemId key.id = true) (parent : Except Error Unit) :
    (command.list parent).Keeps Good (NumericAct command.toml) NumericResult := by
  refine (scannedStore_numeric hpinned).bind fun scanned hscanned => ?_
  cases scanned with
  | error e => exact fun store h => nomatch Except.ok.inj h
  | ok scanned =>
    obtain ⟨store, wanted⟩ := scanned
    cases parent with
    | error e => exact fun store h => nomatch Except.ok.inj h
    | ok u => exact remembering_numeric htoml (hscanned store wanted rfl) wanted

end

/-! ### What a signing request does -/

section

variable {Good : World → Prop} {toml : Toml}

theorem enter_numeric (gate : Bool) :
    (InteractionGate.enter gate).Keeps Good (NumericAct toml) fun _ => True := by
  unfold InteractionGate.enter
  split_ifs
  · trivial
  · exact ⟨trivial, fun _ => ⟨trivial, trivial⟩⟩

theorem drop_numeric (gate : Bool) :
    (InteractionGate.drop gate).Keeps Good (NumericAct toml) fun _ => True := by
  unfold InteractionGate.drop
  split_ifs
  · exact ⟨trivial, trivial⟩
  · trivial

namespace Unlocker

variable {unlocker : Unlocker} {entry : KeyEntry} {encrypted : PrivateKey}

theorem ask_numeric (gate : Bool) :
    (unlocker.ask entry gate).Keeps Good (NumericAct toml) fun _ => True := by
  refine (enter_numeric gate).bind fun gate _ => ⟨trivial, fun answer => ⟨trivial, ?_⟩⟩
  cases answer with
  | error e => trivial
  | ok typed =>
    dsimp only [Program.bind]
    split_ifs
    · trivial
    · trivial

theorem unlockFromStore_numeric (gate : Bool) :
    (unlocker.unlockFromStore entry encrypted gate).Keeps Good (NumericAct toml)
      fun _ => True := by
  refine (enter_numeric gate).bind fun gate _ => ⟨trivial, fun saved => ⟨trivial, ?_⟩⟩
  dsimp only [Program.bind]
  split
  · trivial
  · refine (ask_numeric gate).bind fun r _ => ?_
    obtain ⟨answer, gate⟩ := r
    cases answer with
    | error e => trivial
    | ok typed =>
      dsimp only
      split
      · trivial
      · exact ⟨trivial, fun _ => ⟨trivial, trivial⟩⟩

theorem fallBack_numeric (gate : Bool) :
    (unlocker.fallBack entry encrypted gate).Keeps Good (NumericAct toml) fun _ => True := by
  unfold fallBack
  split
  · trivial
  · exact (ask_numeric gate).bind fun _ _ => trivial
  · exact unlockFromStore_numeric gate
  · exact unlockFromStore_numeric gate

theorem unlock_numeric (hitem : isItemId entry.itemId = true) (gate : Bool) :
    (unlocker.unlock entry encrypted gate).Keeps Good (NumericAct toml) fun _ => True := by
  refine (showField_numeric hitem "Passphrase").bind fun stored _ => ?_
  cases stored with
  | error e => trivial
  | ok stored =>
    dsimp only
    split_ifs
    · exact fallBack_numeric gate
    · trivial

end Unlocker

namespace LpassAgent

variable {agent : LpassAgent} {entry : KeyEntry}

theorem answerRemembered_numeric (answered : String × ℕ) (gate : Bool) :
    (answerRemembered answered gate).Keeps Good (NumericAct toml) fun _ => True :=
  ⟨trivial, trivial⟩

theorem approvalUnderGate_numeric (named : List SessionBinding) (gate : Bool) :
    (agent.approvalUnderGate entry named gate).Keeps Good (NumericAct toml) fun _ => True := by
  refine (enter_numeric gate).bind fun gate _ w _ => ?_
  dsimp only [Program.bind]
  split
  · exact answerRemembered_numeric _ gate
  · refine ⟨trivial, fun decision => ⟨trivial, ?_⟩⟩
    cases decision with
    | approve => exact fun _ _ => trivial
    | deny => trivial

theorem answerFor_numeric (gate : Bool) :
    (agent.answerFor entry gate).Keeps Good (NumericAct toml) fun _ => True := by
  have hnamed : agent.namedBindings.Keeps Good (NumericAct toml) fun _ => True := by
    unfold namedBindings
    split_ifs
    · trivial
    · exact ⟨trivial, fun _ => ⟨trivial, trivial⟩⟩
  unfold answerFor
  split_ifs
  · refine hnamed.bind fun named _ w _ => ?_
    dsimp only [Program.bind]
    split
    · exact answerRemembered_numeric _ gate
    · exact approvalUnderGate_numeric named gate
  · trivial

theorem fetchPrivateKey_numeric (hitem : isItemId entry.itemId = true) (gate : Bool) :
    (agent.fetchPrivateKey entry gate).Keeps Good (NumericAct toml) fun _ => True := by
  have hasking : ∀ gate, (agent.fetchAsking entry gate).Keeps Good (NumericAct toml)
      fun _ => True := by
    intro gate
    refine (enter_numeric gate).bind fun gate _ w _ => ?_
    exact (showField_numeric hitem "Private Key").bind fun key _ w _ => trivial
  refine (showField_numeric hitem "Private Key").bind fun key _ => ?_
  split
  · exact hasking gate
  · trivial

theorem discardRemembered_numeric (item why : String) :
    (agent.discardRemembered item why).Keeps Good (NumericAct toml) fun _ => True := by
  unfold discardRemembered
  split
  · trivial
  · exact ⟨trivial, trivial⟩

theorem signFetched_numeric (hitem : isItemId entry.itemId = true) (pem data : Bytes)
    (flags : UInt32) (gate : Bool) :
    (agent.signFetched entry pem data flags gate).Keeps Good (NumericAct toml) fun _ => True := by
  unfold signFetched
  split_ifs
  · trivial
  split
  · trivial
  · split_ifs
    · unfold signMatched
      split_ifs
      · exact (Unlocker.unlock_numeric hitem gate).bind fun _ _ => trivial
      · trivial
    · exact (discardRemembered_numeric _ _).bind fun _ _ => trivial

theorem signWith_numeric (hitem : isItemId entry.itemId = true)
    (fetched : Except LpassError Bytes) (data : Bytes) (flags : UInt32) (gate : Bool) :
    (agent.signWith entry fetched data flags gate).Keeps Good (NumericAct toml) fun _ => True := by
  unfold signWith
  split
  · exact signFetched_numeric hitem _ data flags gate
  · split_ifs
    · exact (discardRemembered_numeric _ _).bind fun _ _ => trivial
    · trivial

theorem release_numeric (answer : Answer) (asked : Bool) (signed : Except String Signature) :
    (agent.release answer asked signed).Keeps Good (NumericAct toml) fun _ => True := by
  refine fun w _ => ⟨trivial, ?_⟩
  dsimp only [Program.bind]
  split
  · split_ifs
    · exact ⟨trivial, trivial⟩
    · trivial
  · trivial
  · trivial

theorem signEntry_numeric (hitem : isItemId entry.itemId = true) (request : SignRequest)
    (gate : Bool) :
    (agent.signEntry entry request gate).Keeps Good (NumericAct toml) fun _ => True := by
  refine (answerFor_numeric gate).bind fun r _ => ?_
  obtain ⟨answer, gate⟩ := r
  cases answer with
  | error e => trivial
  | ok answer =>
    refine (fetchPrivateKey_numeric hitem gate).bind fun r _ => ?_
    obtain ⟨fetch, gate⟩ := r
    refine (signWith_numeric hitem _ _ _ gate).bind fun r _ => ?_
    obtain ⟨signed, gate⟩ := r
    exact (release_numeric _ _ _).bind fun _ _ => trivial

/-- A request is about an entry of the set served when it began. -/
theorem sign_numeric (hserved : ∀ w, Good w → w.served.Numeric) (request : SignRequest) :
    (agent.sign request).Keeps Good (NumericAct toml) fun _ => True := by
  have hrequest : (agent.signRequest request InteractionGate.new).Keeps Good (NumericAct toml)
      fun _ => True := by
    intro w hw
    dsimp only [Program.bind]
    split
    · trivial
    · rename_i entry hentry
      split_ifs
      · trivial
      · exact signEntry_numeric ((hserved w hw).lookup hentry) request _
  refine hrequest.bind fun r _ => ?_
  obtain ⟨result, gate⟩ := r
  exact ⟨trivial, drop_numeric gate⟩

end LpassAgent

end

/-! ### What the agent does -/

/-- The command an agent is started with, or its vault listed with, on some client. -/
def Env.command (env : Env) (client : LpassCli) : Command :=
  ⟨env.ssh, env.toml, env.config, client, env.rememberedAt⟩

/-- The world of an agent that has started: it serves what `start` came to. -/
structure Env.Started (env : Env) (w : World) : Prop where
  starts : env.Starts w
  served : ∃ client bound acts,
    ((env.command client).start bound).Traces acts (.ok (.ok w.served))

/-- Each probe is of an item that a listing has named: discovery starts no others. -/
def ProbesListed (history : List (Entry runtime)) : Prop :=
  ∀ newer x older item, history = newer ++ x :: older → x.act = .started (.probe item) →
    ∃ y ∈ older, ∃ source items, y.act = .noted (.listed source (.ok items)) ∧
      ∃ listed ∈ items, listed.id = item

section

variable {env : Env}

theorem code_numeric (htoml : env.toml.RoundTrips)
    (hpinned : ∀ key ∈ env.config.keys, isItemId key.id = true) (task : Task)
    (htask : NumericAct env.toml (.started task)) :
    (env.code task).Keeps (fun w : World => w.served.Numeric) (NumericAct env.toml) fun _ => True := by
  cases task with
  | sign peer bindings request => exact LpassAgent.sign_numeric (fun w hw => hw) request
  | refresh => exact scan_numeric env.refresher htoml hpinned
  | probe item => exact (showField_numeric htask "NoteType").bind fun _ _ => trivial
  | forget => exact ⟨trivial, fun _ => ⟨trivial, trivial, trivial, trivial⟩⟩
  | expire =>
    show (env.unlock.expireIfIdle).Keeps _ _ _
    unfold Unlock.expireIfIdle
    split
    · trivial
    · refine ⟨trivial, fun _ => ⟨trivial, fun w _ => ?_⟩⟩
      dsimp only [Program.bind]
      split_ifs
      · exact ⟨trivial, trivial, trivial⟩
      · exact ⟨trivial, trivial⟩

theorem served_apply {e : Event} {w : World} (hstore : ∀ store, e ≠ .replaced store) :
    (World.apply e w).served = w.served := by
  cases e with
  | replaced store => exact absurd rfl (hstore store)
  | rejected =>
    simp only [World.apply, World.reject]
    split
    · rfl
    · rfl
  | _ => rfl

theorem served_effect {t : ℕ} {q : Query} {a : q.Answer} {w w' : World}
    (h : World.effect t q a w = some w') : w'.served = w.served := by
  cases q with
  | gate =>
    simp only [World.effect] at h
    split_ifs at h
    exact Option.some.inj h ▸ rfl
  | held =>
    simp only [World.effect] at h
    split_ifs at h
    exact Option.some.inj h ▸ rfl
  | nextProbe count =>
    simp only [World.effect] at h
    split_ifs at h
    exact Option.some.inj h ▸ rfl
  | _ => exact Option.some.inj h ▸ rfl

theorem served_launch {task : Task} {w w' : World} (h : World.launch task w = some w') :
    w'.served = w.served := by
  cases task with
  | refresh =>
    simp only [World.launch] at h
    split_ifs at h
    exact Option.some.inj h ▸ rfl
  | _ => exact Option.some.inj h ▸ rfl

theorem preserved_numeric (htoml : env.toml.RoundTrips)
    (hpinned : ∀ key ∈ env.config.keys, isItemId key.id = true) :
    Preserved (I := runtime) env.Started (fun w : World => w.served.Numeric) (NumericAct env.toml) where
  init w hw := by
    obtain ⟨client, bound, acts, htraces⟩ := hw.served
    have hstart := (start_numeric (env.command client) htoml hpinned bound).traces htraces
    exact hstart.2 w.served rfl
  noted e w he hw := by
    by_cases hstore : ∃ store, e = .replaced store
    · obtain ⟨store, rfl⟩ := hstore
      exact he
    · show (World.apply e w).served.Numeric
      rw [served_apply (fun store h => hstore ⟨store, h⟩)]
      exact hw
  answered t q a w w' h hw := served_effect h ▸ hw
  launched task w w' h hw := served_launch h ▸ hw
  drift d w hw := by
    cases d with
    | tick n => exact hw
    | processes table => exact hw
    | disk works => exact hw

theorem starts_of_probesListed {P : Pool runtime} (h : ProbesListed P.stage.history) :
    P.Starts (NumericAct env.toml) := by
  intro newer x older hcut holder task hx
  rw [hx]
  cases task with
  | probe item =>
    obtain ⟨y, hy, source, items, hya, listed, hlisted, rfl⟩ := h newer x older item hcut hx
    have hact := holder y hy
    rw [hya] at hact
    exact hact items rfl listed hlisted
  | _ => trivial

/-- Item ids only, in all that `start`, `list`, scans and requests do and come to. -/
structure ItemIdsOnly (env : Env) : Prop where
  start : ∀ client bound acts r, ((env.command client).start bound).Traces acts r →
    (∀ act ∈ acts, NumericAct env.toml act) ∧ NumericResult r
  list : ∀ client parent acts r, ((env.command client).list parent).Traces acts r →
    (∀ act ∈ acts, NumericAct env.toml act) ∧ NumericResult r
  agent : ∀ P : Pool runtime, P.Reachable env.code env.Started → ProbesListed P.stage.history →
    P.stage.shared.served.Numeric ∧ ∀ x ∈ P.stage.history, NumericAct env.toml x.act ∧
      x.before.served.Numeric ∧ x.after.served.Numeric

/-- With a configuration that loaded, every item the agent asks `lpass` for, serves, or writes
down has an id of decimal digits, and what it wrote is not refused for its ids. -/
theorem item_ids_only {loader : ConfigLoader} {file : ConfigFile}
    (hload : loader.loadOrDefault file = .ok env.config) (htoml : env.toml.RoundTrips) :
    ItemIdsOnly env := by
  have hpinned := Config.isItemId_of_validate (ConfigLoader.validate_of_loadOrDefault hload)
  constructor
  · intro client bound acts r htraces
    exact (start_numeric (env.command client) htoml hpinned bound).traces htraces
  · intro client parent acts r htraces
    exact (list_numeric (env.command client) htoml hpinned parent).traces htraces
  · intro P hreachable hprobes
    have hclean := hreachable.clean (preserved_numeric htoml hpinned) trivial
      (code_numeric htoml hpinned) (starts_of_probesListed hprobes)
    exact ⟨hclean.stage.shared, fun x hx => ⟨hclean.stage.acts x hx, hclean.stage.states x hx⟩⟩

end

/-! ### A start from the file, and a scan -/

theorem start_of_kept {command : Command} {w : World} {store : KeyStore}
    (h : rememberedStore command.ssh command.toml command.rememberedAt command.config w.identities =
      .ok (some store)) : (command.start (.ok ())).Sees [w] [] (.ok (.ok store)) := by
  have hstart : command.startStore.Sees [w] [] (.ok (store, none)) := by
    refine Program.Sees.read (I := runtime) w ?_
    dsimp only [Program.bind]
    rw [h]
    exact .done _
  exact Program.sees_bind.mpr ⟨_, [w], [], [], [], rfl, rfl, hstart, .done _⟩

namespace Sample

def loader : ConfigLoader where
  table _ := .ok []
  parse _ := .ok config
  home := none
  os := .macos
  debug := id

theorem loads : loader.loadOrDefault (.text "remember_approvals = true") = .ok env.config := rfl

theorem kept_listing : rememberedStore ssh toml env.rememberedAt config listing.identities =
    .ok (some served) := by
  have hencode : Identities.encode toml (written 2) = .ok (utf8 (render (written 2))) := rfl
  have hload := Identities.load_encode roundTrips env.rememberedAt hencode (by decide +kernel)
    (by decide)
  rw [rememberedStore, show listing.identities = .regular (utf8 (render (written 2))) from rfl,
    hload]
  decide +kernel

theorem start_listing :
    ((env.command env.asking).start (.ok ())).Sees [listing] [] (.ok (.ok served)) :=
  start_of_kept kept_listing

theorem started_listing : env.Started listing :=
  ⟨⟨rfl, rfl, nofun, rfl, fun _ => rfl, rfl⟩, env.asking, .ok (), [], start_listing.traces⟩

end Sample

def startsProbe : Act runtime → Bool
  | .started (.probe _) => true
  | _ => false

/-- No probe has been started, and `lpass` is running to show the public half of key 11. -/
def ShowsPinned (history : List (Entry runtime)) : Prop :=
  (∀ x ∈ history, startsProbe x.act = false) ∧
    (∃ x ∈ history, x.act = .noted (.called .heldOnly "11" "Public Key")) ∧
    ∃ x ∈ history, x.act =
      .began (.lpass ["show", "--field=Public Key", "11"] none MAX_FIELD_BYTES)

instance (history : List (Entry runtime)) : Decidable (ShowsPinned history) :=
  inferInstanceAs (Decidable (_ ∧ _))

theorem ShowsPinned.probesListed {history : List (Entry runtime)} (h : ShowsPinned history) :
    ProbesListed history := by
  intro newer x older item hcut hx
  have hnone := h.1 x (by rw [hcut]; simp)
  rw [hx] at hnone
  exact Bool.noConfusion hnone

theorem item_ids_only_pinned : ∃ P : Pool runtime, P.Reachable Sample.env.code Sample.env.Started ∧
    ShowsPinned P.stage.history ∧ ∀ x ∈ P.stage.history, NumericAct Sample.toml x.act := by
  obtain ⟨P, hP, hrun⟩ := Pool.exists_of_plays (p := fun P => ShowsPinned P.stage.history)
    (show (Pool.start Sample.listing).Reachable Sample.env.code Sample.env.Started from
      ⟨Sample.listing, Sample.started_listing, .refl⟩)
    (show ∃ P ∈ Pool.plays Sample.env.code (.start Sample.listing)
        [.spawn 0 Task.refresh, Sample.go 0], ShowsPinned P.stage.history by decide +kernel)
  have hids := (item_ids_only Sample.loads Sample.roundTrips).agent P hP hrun.probesListed
  exact ⟨P, hP, hrun, fun x hx => (hids.2 x hx).1⟩

end LastpassSshAgent
