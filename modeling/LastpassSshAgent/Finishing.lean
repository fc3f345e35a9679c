import LastpassSshAgent.Interactions
import LastpassSshAgent.Resumption.Costs

/-!
# Every request comes to its end

A request reaches the user a few times at the most, whatever the vault and the stores say.
No schedule of answers goes on for ever, and where it stops every request has had its one
reply.
-/

namespace LastpassSshAgent

open Resumption

/-! ### What is paid for -/

/-- What is awaited, whatever it is about. -/
inductive Kind where
  | gate
  | held
  | lpass
  | masterStore
  | masterPassword
  | passphrase
  | confirm
  | names
  | storeGet
  | storeSet
  | nextProbe
  deriving DecidableEq, Repr

def Query.kind : Query → Kind
  | .gate => .gate
  | .held => .held
  | .lpass _ _ _ => .lpass
  | .masterStore => .masterStore
  | .prompt request => if request.masterPassword then .masterPassword else .passphrase
  | .confirm _ => .confirm
  | .namesFor _ => .names
  | .storeGet _ => .storeGet
  | .storeSet _ _ => .storeSet
  | .nextProbe _ => .nextProbe

/-- What each kind of await costs, and what a reply does. -/
structure Tariff where
  await : Kind → ℕ
  reply : ℕ

namespace Tariff

variable (tariff : Tariff)

def price : Price runtime where
  query q := tariff.await q.kind
  event
    | .replied _ => tariff.reply
    | _ => 0

def gate (held : Bool) : ℕ := if held then 0 else tariff.await .gate

def quietCall : ℕ := 2 * tariff.await .held + tariff.await .lpass

def askingCall : ℕ := 4 * tariff.await .held + 2 * tariff.await .lpass +
  tariff.await .masterStore + tariff.await .masterPassword

def approval : ℕ := tariff.await .names + tariff.await .confirm

def unlocking : ℕ := tariff.await .storeGet + tariff.await .passphrase + tariff.await .storeSet

def request : ℕ := tariff.gate false + tariff.approval + tariff.quietCall + tariff.askingCall +
  tariff.quietCall + tariff.unlocking + tariff.reply

end Tariff

variable {tariff : Tariff} {n : ℕ} {α : Type}

abbrev Async.Costs (p : Async α) (tariff : Tariff) (n : ℕ) (left : α → ℕ) : Prop :=
  Program.Costs tariff.price p n left

theorem costs_note (e : Event) (h : ∀ result, e ≠ .replied result) :
    (note e).Costs tariff 0 fun _ => 0 := by
  refine ⟨0, ?_, le_rfl⟩
  cases e with
  | replied result => exact absurd rfl (h result)
  | _ => exact le_rfl

theorem costs_await (q : Query) : (await q).Costs tariff (tariff.await q.kind) fun _ => 0 :=
  ⟨0, le_rfl, fun _ => le_rfl⟩

theorem costs_world : world.Costs tariff 0 fun _ => 0 := fun _ => le_rfl

namespace InteractionGate

theorem enter_costs (held : Bool) : (enter held).Costs tariff (tariff.gate held) tariff.gate := by
  unfold enter
  split_ifs with hheld
  · exact Nat.zero_le _
  · refine (costs_await .gate).seq (k := 0) (fun _ => Nat.zero_le _) ?_
    simp [Tariff.gate, hheld, Query.kind]

end InteractionGate

/-! ### The master password -/

theorem askStore_costs (source : MasterPassword) (skip : Bool) :
    (askStore source skip).Costs tariff (tariff.await .masterStore) fun _ => 0 := by
  unfold askStore
  split_ifs
  · refine (costs_await .masterStore).seq (k := 0) (fun answer => ?_) le_rfl
    rcases answer with e | _ | secret <;> exact le_rfl
  · exact Nat.zero_le _

theorem askPrompt_costs : askPrompt.Costs tariff (tariff.await .masterPassword) fun _ => 0 := by
  refine (costs_await (.prompt .master)).seq (k := 0) (fun answer => ?_) le_rfl
  rcases answer with e | typed
  · exact le_rfl
  · dsimp only
    split_ifs <;> exact le_rfl

theorem resolve_costs (source : MasterPassword) (skip : Bool) : (resolve source skip).Costs tariff
    (tariff.await .masterStore + tariff.await .masterPassword) fun _ => 0 := by
  refine (askStore_costs source skip).seq (fun stored => ?_) le_rfl
  cases stored with
  | some secret => exact Nat.zero_le _
  | none => exact askPrompt_costs

namespace Unlock

variable (unlock : Unlock)

theorem askHolding_costs : unlock.askHolding.Costs tariff
    (tariff.await .masterStore + tariff.await .masterPassword) fun _ => 0 := by
  refine (costs_note .asked nofun).seq (fun _ => costs_world.seq (fun w =>
    (resolve_costs _ _).seq (k := 0) (fun resolved => ?_) le_rfl) (Nat.zero_add _).le)
    (Nat.zero_add _).le
  cases resolved with
  | error e => exact (costs_note .heldReleased nofun).seq (fun _ => le_rfl) le_rfl
  | ok found =>
    exact (costs_note (.holding _ _) nofun).seq (k := 0)
      (fun _ => (costs_note .heldReleased nofun).seq (k := 0) (fun _ => le_rfl) le_rfl) le_rfl

theorem password_costs (ask : Bool) : (unlock.password ask).Costs tariff (tariff.await .held +
    if ask then tariff.await .masterStore + tariff.await .masterPassword else 0) fun _ => 0 := by
  refine (costs_await .held).seq (fun _ => costs_world.seq (fun w => ?_) (Nat.zero_add _).le) le_rfl
  cases w.held with
  | some current =>
    exact (costs_note .heldReleased nofun).seq (k := 0) (fun _ => le_rfl) (Nat.zero_le _)
  | none =>
    dsimp only
    split_ifs
    · exact unlock.askHolding_costs
    · exact (costs_note .heldReleased nofun).seq (k := 0) (fun _ => le_rfl) le_rfl

theorem locked_costs (e : Event) (h : ∀ result, e ≠ .replied result) : (do
    let _ ← await .held
    note e
    note .heldReleased : Async Unit).Costs tariff (tariff.await .held) fun _ => 0 :=
  (costs_await .held).seq (k := 0) (fun _ => (costs_note e h).seq (k := 0)
    (fun _ => costs_note .heldReleased nofun) le_rfl) le_rfl

end Unlock

/-! ### Calls of `lpass` -/

namespace LpassCli

variable (cli : LpassCli)

theorem held_costs : cli.held.Costs tariff (tariff.await .held) fun _ => 0 := by
  have hunlock : (do
      let held ← cli.unlock.password false
      pure held.toOption.join : Async (Option Bytes)).Costs tariff (tariff.await .held) fun _ => 0 :=
    (cli.unlock.password_costs false).seq (k := 0) (fun _ => le_rfl) le_rfl
  unfold held
  cases cli.source with
  | none => exact Nat.zero_le _
  | fixed secret => exact Nat.zero_le _
  | unlock => exact hunlock
  | heldOnly => exact hunlock

theorem exec_costs (args : List String) (password : Option Bytes) (maxBytes : ℕ) :
    (exec args password maxBytes).Costs tariff (tariff.await .lpass) fun _ => 0 :=
  (costs_await _).seq (k := 0) (fun _ => le_rfl) le_rfl

theorem rejectIfWrong_costs (out : CmdOutput) :
    (cli.rejectIfWrong out).Costs tariff (tariff.await .held) fun _ => 0 := by
  unfold rejectIfWrong rejected
  split_ifs
  · cases cli.source with
    | unlock => exact Unlock.locked_costs .rejected nofun
    | heldOnly => exact Unlock.locked_costs .rejected nofun
    | _ => exact Nat.zero_le _
  · exact Nat.zero_le _

theorem showField_costs {k : ℕ} (item field : String)
    (h : ∀ args maxBytes, (cli.run args maxBytes).Costs tariff k fun _ => 0) :
    (cli.showField item field).Costs tariff k fun _ => 0 := by
  refine (costs_note (.called cli.source item field) nofun).seq (fun _ => ?_) (Nat.zero_add k).le
  refine (h _ _).seq (k := 0) (fun out => ?_) le_rfl
  exact (costs_note (.returned cli.source item field (shown item out)) nofun).seq (k := 0)
    (fun _ => le_rfl) le_rfl

theorem quietCall_costs (unlock : Unlock) (item field : String) :
    (showField ⟨.heldOnly, unlock⟩ item field).Costs tariff tariff.quietCall fun _ => 0 := by
  refine showField_costs _ item field fun args maxBytes => ?_
  refine (held_costs _).seq (fun held => (exec_costs args held maxBytes).seq
    (k := tariff.await .held) (fun first => ?_) le_rfl) (by unfold Tariff.quietCall; omega)
  cases first with
  | error e => exact Nat.zero_le _
  | ok out =>
    have hretry : (retry ⟨.heldOnly, unlock⟩ args maxBytes out).Costs tariff 0 fun _ => 0 := by
      unfold retry
      split_ifs <;> exact le_rfl
    refine hretry.seq (fun second => ?_) (Nat.zero_add _).le
    cases second with
    | error e => exact Nat.zero_le _
    | ok out => exact (rejectIfWrong_costs _ out).seq (k := 0) (fun _ => le_rfl) le_rfl

theorem askingCall_costs (unlock : Unlock) (item field : String) :
    (showField ⟨.unlock, unlock⟩ item field).Costs tariff tariff.askingCall fun _ => 0 := by
  refine showField_costs _ item field fun args maxBytes => ?_
  refine (held_costs _).seq (fun held => (exec_costs args held maxBytes).seq
    (k := 3 * tariff.await .held + tariff.await .lpass + tariff.await .masterStore +
      tariff.await .masterPassword) (fun first => ?_) le_rfl) (by unfold Tariff.askingCall; omega)
  cases first with
  | error e => exact Nat.zero_le _
  | ok out =>
    have hretry : (retry ⟨.unlock, unlock⟩ args maxBytes out).Costs tariff
        (tariff.await .held + (tariff.await .masterStore + tariff.await .masterPassword) +
          tariff.await .lpass) fun _ => 0 := by
      unfold retry
      split_ifs
      · have hasked : (asked ⟨.unlock, unlock⟩).Costs tariff (tariff.await .held +
            (tariff.await .masterStore + tariff.await .masterPassword)) fun _ => 0 :=
          (unlock.password_costs true).seq (k := 0) (fun _ => le_rfl) le_rfl
        refine hasked.seq (fun password => ?_) le_rfl
        rcases password with e | _ | password
        · exact Nat.zero_le _
        · exact Nat.zero_le _
        · exact exec_costs _ _ _
      · exact Nat.zero_le _
    refine hretry.seq (k := 2 * tariff.await .held) (fun second => ?_) (by omega)
    cases second with
    | error e => exact Nat.zero_le _
    | ok out =>
      exact (rejectIfWrong_costs _ out).seq (k := tariff.await .held) (fun _ =>
        (Unlock.locked_costs .touched nofun).seq (k := 0) (fun _ => le_rfl) le_rfl) (by omega)

end LpassCli

/-! ### Decrypting -/

namespace Unlocker

variable (unlocker : Unlocker) (entry : KeyEntry) (encrypted : PrivateKey) (gate : Bool)

theorem ask_costs : (unlocker.ask entry gate).Costs tariff
    (tariff.gate gate + tariff.await .passphrase) fun r => tariff.gate r.2 := by
  refine (InteractionGate.enter_costs gate).andThen (fun gate => ?_) le_rfl
  refine ((costs_await (.prompt (.new unlocker.ssh entry))).add (tariff.gate gate)).mono
    (Nat.add_comm _ _).le (fun _ => le_rfl) |>.bind fun answer => ?_
  rcases answer with e | typed
  · exact (Nat.zero_add _).ge
  · dsimp only
    split_ifs <;> exact (Nat.zero_add _).ge

theorem askAndSave_costs : (unlocker.askAndSave entry encrypted gate).Costs tariff
    (tariff.gate gate + tariff.await .passphrase + tariff.await .storeSet)
    fun r => tariff.gate r.2 := by
  refine (ask_costs unlocker entry gate).andThen (fun r => ?_) le_rfl
  obtain ⟨answer, gate⟩ := r
  cases answer with
  | error e => exact Nat.le_add_right _ _
  | ok typed =>
    dsimp only
    split
    · exact Nat.le_add_right _ _
    · refine ((costs_await (.storeSet _ typed)).add (tariff.gate gate)).mono
        (Nat.add_comm _ _).le (fun _ => le_rfl) |>.bind fun _ => ?_
      exact (Nat.zero_add _).ge

theorem unlockFromStore_costs : (unlocker.unlockFromStore entry encrypted gate).Costs tariff
    (tariff.gate gate + tariff.unlocking) fun r => tariff.gate r.2 := by
  refine (InteractionGate.enter_costs gate).andThen (fun gate => ?_) le_rfl
  have hget : (await (.storeGet (entry.fingerprint unlocker.ssh))).Costs tariff
      (tariff.await .storeGet) fun _ => 0 := costs_await _
  refine hget.seq (k := tariff.gate gate + tariff.await .passphrase + tariff.await .storeSet)
    (fun saved => ?_) (by unfold Tariff.unlocking; omega)
  split
  · exact Program.Costs.pure (by dsimp only; omega)
  · exact askAndSave_costs unlocker entry encrypted gate

theorem fallBack_costs : (unlocker.fallBack entry encrypted gate).Costs tariff
    (tariff.gate gate + tariff.unlocking) fun r => tariff.gate r.2 := by
  unfold fallBack
  cases entry.passphraseFallback with
  | error => exact Nat.le_add_right _ _
  | prompt =>
    refine (ask_costs unlocker entry gate).andThen (k := 0) (fun r => le_rfl) ?_
    unfold Tariff.unlocking
    omega
  | keychain => exact unlockFromStore_costs unlocker entry encrypted gate
  | secretService => exact unlockFromStore_costs unlocker entry encrypted gate

theorem unlock_costs {held : Unlock} (hlpass : unlocker.lpass = ⟨.heldOnly, held⟩) :
    (unlocker.unlock entry encrypted gate).Costs tariff
      (tariff.quietCall + (tariff.gate gate + tariff.unlocking)) fun r => tariff.gate r.2 := by
  unfold unlock
  rw [hlpass]
  refine (LpassCli.quietCall_costs held _ _).seq (fun stored => ?_) le_rfl
  cases stored with
  | error e => exact Nat.le_add_right _ _
  | ok stored =>
    dsimp only
    split_ifs
    · exact fallBack_costs unlocker entry encrypted gate
    · exact Nat.le_add_right _ _

end Unlocker

/-! ### Signing -/

/-- An agent that keeps to two views of one vault. -/
structure LpassAgent.Wired (agent : LpassAgent) (unlock : Unlock) : Prop where
  quiet : agent.lpass = ⟨.heldOnly, unlock⟩
  asking : agent.asking = ⟨.unlock, unlock⟩
  unlocker : agent.unlocker.lpass = ⟨.heldOnly, unlock⟩

theorem Env.wired (env : Env) (peer : Option PeerInfo) (bindings : List SessionBinding) :
    (env.session peer bindings).Wired env.unlock := ⟨rfl, rfl, rfl⟩

namespace LpassAgent

variable {agent : LpassAgent} {unlock : Unlock} (entry : KeyEntry) (gate : Bool)

theorem namedBindings_costs :
    agent.namedBindings.Costs tariff (tariff.await .names) fun _ => 0 := by
  unfold namedBindings
  split_ifs
  · exact Nat.zero_le _
  · exact (costs_await (.namesFor _)).seq (k := 0) (fun _ => le_rfl) le_rfl

theorem answerRemembered_costs (answered : String × ℕ) :
    (answerRemembered answered gate).Costs tariff (tariff.gate gate) fun r => tariff.gate r.2 :=
  (costs_note (.recalled answered.1 answered.2) nofun).seq (fun _ => le_rfl) (Nat.zero_add _).le

theorem confirm_costs (ctx : ConfirmContext) : (confirm ctx gate).Costs tariff
    (tariff.await .confirm + tariff.gate gate) fun r => tariff.gate r.2 := by
  refine (costs_await (.confirm ctx)).seq (fun decision => ?_) le_rfl
  cases decision with
  | approve => exact costs_world.seq (fun _ => le_rfl) (Nat.zero_add _).le
  | deny => exact le_rfl

theorem approvalUnderGate_costs (named : List SessionBinding) :
    (agent.approvalUnderGate entry named gate).Costs tariff
      (tariff.gate gate + tariff.await .confirm) fun r => tariff.gate r.2 := by
  refine (InteractionGate.enter_costs gate).andThen (fun gate => ?_) le_rfl
  refine costs_world.seq (fun w => ?_) (Nat.zero_add _).le
  split
  · exact (answerRemembered_costs gate _).mono (Nat.le_add_right _ _) fun _ => le_rfl
  · exact (confirm_costs gate _).mono (Nat.add_comm _ _).le fun _ => le_rfl

theorem answerFor_costs : (agent.answerFor entry gate).Costs tariff
    (tariff.gate gate + tariff.approval) fun r => tariff.gate r.2 := by
  unfold answerFor
  split_ifs
  · refine namedBindings_costs.seq (k := tariff.gate gate + tariff.await .confirm) (fun named => ?_)
      (by unfold Tariff.approval; omega)
    refine costs_world.seq (fun w => ?_) (Nat.zero_add _).le
    split
    · exact (answerRemembered_costs gate _).mono (Nat.le_add_right _ _) fun _ => le_rfl
    · exact approvalUnderGate_costs entry gate named
  · exact Nat.le_add_right _ _

theorem fetchAsking_costs (h : agent.Wired unlock) : (agent.fetchAsking entry gate).Costs tariff
    (tariff.gate gate + tariff.askingCall) fun r => tariff.gate r.2 := by
  refine (InteractionGate.enter_costs gate).andThen (fun gate => ?_) le_rfl
  refine costs_world.seq (fun before => ?_) (Nat.zero_add _).le
  rw [h.asking]
  refine (LpassCli.askingCall_costs unlock _ _).seq (fun key => ?_) (Nat.add_comm _ _).le
  exact costs_world.seq (fun _ => le_rfl) (Nat.zero_add _).le

theorem fetchPrivateKey_costs (h : agent.Wired unlock) :
    (agent.fetchPrivateKey entry gate).Costs tariff
      (tariff.quietCall + (tariff.gate gate + tariff.askingCall)) fun r => tariff.gate r.2 := by
  unfold fetchPrivateKey
  rw [h.quiet]
  refine (LpassCli.quietCall_costs unlock _ _).seq (fun key => ?_) le_rfl
  split
  · exact fetchAsking_costs entry gate h
  · exact Nat.le_add_right _ _

theorem discardRemembered_costs (itemId why : String) :
    (agent.discardRemembered itemId why).Costs tariff 0 fun _ => 0 := by
  unfold discardRemembered
  split
  · exact le_rfl
  · exact costs_note (.discarded itemId why) nofun

theorem signMatched_costs (h : agent.Wired unlock) (key : PrivateKey) (data : Bytes)
    (flags : UInt32) : (agent.signMatched entry key data flags gate).Costs tariff
      (tariff.quietCall + (tariff.gate gate + tariff.unlocking)) fun r => tariff.gate r.2 := by
  unfold signMatched
  split_ifs
  · refine (Unlocker.unlock_costs _ entry key gate h.unlocker).andThen (k := 0) (fun r => ?_) le_rfl
    exact le_rfl
  · exact Program.Costs.pure (by dsimp only; omega)

theorem signFetched_costs (h : agent.Wired unlock) (pem data : Bytes) (flags : UInt32) :
    (agent.signFetched entry pem data flags gate).Costs tariff
      (tariff.quietCall + (tariff.gate gate + tariff.unlocking)) fun r => tariff.gate r.2 := by
  unfold signFetched
  split_ifs
  · exact Program.Costs.pure (by dsimp only; omega)
  · split
    · exact Program.Costs.pure (by dsimp only; omega)
    · split_ifs
      · exact signMatched_costs entry gate h _ data flags
      · exact (discardRemembered_costs _ _).seq (k := tariff.gate gate) (fun _ => le_rfl) (by omega)

theorem signWith_costs (h : agent.Wired unlock) (fetched : Except LpassError Bytes) (data : Bytes)
    (flags : UInt32) : (agent.signWith entry fetched data flags gate).Costs tariff
      (tariff.quietCall + (tariff.gate gate + tariff.unlocking)) fun r => tariff.gate r.2 := by
  cases fetched with
  | ok pem => exact signFetched_costs entry gate h pem data flags
  | error e =>
    unfold signWith
    dsimp only
    split_ifs
    · exact (discardRemembered_costs _ _).seq (k := tariff.gate gate) (fun _ => le_rfl) (by omega)
    · exact Program.Costs.pure (by dsimp only; omega)

theorem release_costs (answer : Answer) (asked : Bool) (signed : Except String Signature) :
    (agent.release answer asked signed).Costs tariff 0 fun _ => 0 := by
  refine costs_world.seq (k := 0) (fun w => ?_) le_rfl
  refine (costs_note (.settled answer asked signed.isOk) nofun).seq (k := 0) (fun _ => ?_) le_rfl
  split
  · split_ifs
    · exact (costs_note .issued nofun).seq (k := 0) (fun _ => le_rfl) le_rfl
    · exact le_rfl
  · exact le_rfl
  · exact le_rfl

theorem signApproved_costs (h : agent.Wired unlock) (request : SignRequest) (answer : Answer) :
    (agent.signApproved entry request answer gate).Costs tariff
      (tariff.gate gate + tariff.quietCall + tariff.askingCall + tariff.quietCall +
        tariff.unlocking) fun r => tariff.gate r.2 := by
  refine (fetchPrivateKey_costs entry gate h).andThen
    (k := tariff.quietCall + tariff.unlocking) (fun r => ?_) (by omega)
  obtain ⟨fetch, gate⟩ := r
  refine ((signWith_costs entry gate h fetch.key request.data request.flags).mono
    (by dsimp only; omega) fun _ => le_rfl).bind fun r => ?_
  obtain ⟨signed, gate⟩ := r
  exact (release_costs answer fetch.asked signed).seq (k := tariff.gate gate) (fun _ => le_rfl)
    (Nat.zero_add _).le

theorem signRequest_costs (h : agent.Wired unlock) (request : SignRequest) :
    (agent.signRequest request InteractionGate.new).Costs tariff
      (tariff.gate false + tariff.approval + tariff.quietCall + tariff.askingCall +
        tariff.quietCall + tariff.unlocking) fun _ => 0 := by
  refine costs_world.seq (fun w => ?_) (Nat.zero_add _).le
  split
  · exact Nat.zero_le _
  · rename_i entry _
    split_ifs
    · exact Nat.zero_le _
    · refine (answerFor_costs entry InteractionGate.new).andThen (k := tariff.quietCall +
        tariff.askingCall + tariff.quietCall + tariff.unlocking) (fun r => ?_)
        (by unfold InteractionGate.new; omega)
      obtain ⟨answer, gate⟩ := r
      cases answer with
      | error e => exact Nat.zero_le _
      | ok answer =>
        exact (signApproved_costs entry gate h request answer).mono (by dsimp only; omega)
          fun _ => Nat.zero_le _

theorem sign_costs (h : agent.Wired unlock) (request : SignRequest) :
    (agent.sign request).Costs tariff tariff.request fun _ => 0 := by
  refine (signRequest_costs h request).seq (k := tariff.reply) (fun r => ?_) le_rfl
  obtain ⟨result, gate⟩ := r
  have hreply : (note (.replied result)).Costs tariff tariff.reply fun _ => 0 := ⟨0, le_rfl, le_rfl⟩
  refine hreply.seq (k := 0) (fun _ => ?_) le_rfl
  unfold InteractionGate.drop
  split_ifs
  · exact costs_note .gateReleased nofun
  · exact le_rfl

end LpassAgent

/-! ### How often a request asks -/

def isReply : Act runtime → Bool
  | .noted (.replied _) => true
  | _ => false

def awaits (kind : Kind) : Act runtime → Bool
  | .began q => q.kind = kind
  | _ => false

def isAwait : Act runtime → Bool
  | .began _ => true
  | _ => false

def Tariff.counting (kind : Kind) : Tariff := ⟨fun k => if k = kind then 1 else 0, 0⟩

def Tariff.awaiting : Tariff := ⟨fun _ => 1, 0⟩

def Tariff.replying : Tariff := ⟨fun _ => 0, 1⟩

theorem acts_eq_countP {p : Act runtime → Bool} (h : ∀ act, tariff.price.act act = (p act).toNat)
    (acts : List (Act runtime)) : tariff.price.acts acts = acts.countP p := by
  induction acts with
  | nil => rfl
  | cons act acts ih =>
    rw [Price.acts_cons, ih, h, List.countP_cons, Nat.add_comm]
    cases p act <;> rfl

theorem acts_counting (kind : Kind) (acts : List (Act runtime)) :
    (Tariff.counting kind).price.acts acts = acts.countP (awaits kind) := by
  refine acts_eq_countP (fun act => ?_) acts
  cases act with
  | began q =>
    by_cases hq : q.kind = kind <;> simp [Tariff.counting, Tariff.price, awaits, hq]
  | noted e => cases e <;> rfl
  | _ => rfl

theorem acts_awaiting (acts : List (Act runtime)) :
    Tariff.awaiting.price.acts acts = acts.countP isAwait := by
  refine acts_eq_countP (fun act => ?_) acts
  cases act with
  | noted e => cases e <;> rfl
  | _ => rfl

theorem acts_replying (acts : List (Act runtime)) :
    Tariff.replying.price.acts acts = acts.countP isReply := by
  refine acts_eq_countP (fun act => ?_) acts
  cases act with
  | noted e => cases e <;> rfl
  | _ => rfl

/-- How often a request awaits each kind at the most. -/
def Kind.limit : Kind → ℕ
  | .held => 8
  | .lpass => 4
  | .nextProbe => 0
  | _ => 1

theorem request_counting (kind : Kind) : (Tariff.counting kind).request = kind.limit := by
  cases kind <;> rfl

def Requests (P : Pool runtime) (t : ℕ) : Prop :=
  ∃ peer bindings request, .started (.sign peer bindings request) ∈ P.stage.acts t

variable {env : Env} {P P' : Pool runtime} {t : ℕ}

theorem Requests.paid (h : env.Reachable P) (hrequests : Requests P t) (tariff : Tariff) :
    tariff.price.acts (P.stage.acts t) ≤ tariff.request := by
  obtain ⟨peer, bindings, request, hstarted⟩ := hrequests
  exact Pool.Reachable.paid h hstarted (LpassAgent.sign_costs (env.wired peer bindings) request)

/-- However often it is refused, and whatever else goes on: a request asks the user to approve
it once, for the master password once and for a passphrase once at the most, waits for its
turn once, and awaits twenty things in all. -/
theorem asks_at_most (h : env.Reachable P) (hrequests : Requests P t) :
    (∀ kind, (P.stage.acts t).countP (awaits kind) ≤ kind.limit) ∧
      (P.stage.acts t).countP isAwait ≤ 20 := by
  constructor
  · intro kind
    rw [← acts_counting, ← request_counting]
    exact hrequests.paid h _
  · rw [← acts_awaiting]
    exact hrequests.paid h _

/-! ### Where nothing can be answered -/

/-- No thread can be answered, whatever drifts. -/
def Finished (P : Pool runtime) : Prop := ∀ P', ¬P.Goes P'

theorem Finished.not_waiting (hP : Finished P) (h : env.Reachable P) {q : Query}
    {next : q.Answer → Async Unit} : P.threads t ≠ some (.await q next) := by
  intro ht
  obtain ⟨u, q', next', hu, -, a, x, hx⟩ := progress_of_waiting h ht
  exact hP _ ⟨[], .answer hu hx⟩

theorem Finished.unlocked (hP : Finished P) (h : env.Reachable P) :
    P.stage.shared.gate = none ∧ P.stage.shared.heldLock = none := by
  have hfree : ∀ t, ¬(P.stage.shared.gate = some t ∨ P.stage.shared.heldLock = some t) := by
    intro t hlock
    obtain ⟨q, next, ht, -⟩ := awaits_of_live h (live_of_locked (Env.lawful h) hlock)
    exact hP.not_waiting h ht
  exact ⟨Option.eq_none_iff_forall_ne_some.mpr fun t ht => hfree t (.inl ht),
    Option.eq_none_iff_forall_ne_some.mpr fun t ht => hfree t (.inr ht)⟩

theorem replies_of_traces {agent : LpassAgent} {request : SignRequest}
    {acts : List (Act runtime)} (h : (agent.sign request).Traces acts ()) :
    0 < acts.countP isReply := by
  obtain ⟨⟨result, gate⟩, front, rest, rfl, -, hrest⟩ := Program.traces_bind.mp h
  cases hrest with
  | emit _ => exact List.countP_pos_iff.mpr ⟨.noted (.replied result), by simp, rfl⟩

theorem Finished.replied (hP : Finished P) (h : env.Reachable P) (hrequests : Requests P t) :
    (P.stage.acts t).countP isReply = 1 ∧ P.threads t = some (.done ()) := by
  have hle : (P.stage.acts t).countP isReply ≤ 1 := by
    rw [← acts_replying]
    exact hrequests.paid h _
  obtain ⟨peer, bindings, request, hstarted⟩ := hrequests
  cases hp : P.threads t with
  | none =>
    rw [h.traced.none t hp] at hstarted
    cases hstarted
  | some p =>
    obtain ⟨task, acts, act, hthread⟩ := h.traced.threads t p hp
    have hrests := hthread.rests
    cases p with
    | done a =>
      obtain rfl := Option.some.inj hrests
      have htask : task = .sign peer bindings request := by
        have hmem : .started (.sign peer bindings request) ∉ acts.reverse := fun hmem =>
          hthread.leaves.not_started _ (List.mem_reverse.mp hmem)
        rw [hthread.acts] at hstarted
        simpa [hmem, eq_comm] using hstarted
      subst htask
      have hpos := replies_of_traces hthread.leaves.traces_done
      rw [hthread.acts, List.countP_cons, List.countP_append, List.countP_reverse] at hle ⊢
      refine ⟨?_, rfl⟩
      simp only [isReply, List.countP_cons, List.countP_nil] at hle hpos ⊢
      omega
    | await q next => exact absurd hp (hP.not_waiting h)
    | read next => cases hrests
    | emit e next => cases hrests

/-- From wherever the agent is, its threads can be answered so often only, whatever the
answers are and whatever drifts in between. Where no more can be answered nothing is locked,
and every request has ended with one reply; and such a place is always within reach. -/
theorem every_request_answered (h : env.Reachable P) :
    (∀ pools : ℕ → Pool runtime, pools 0 = P → ¬∀ n, (pools n).Goes (pools (n + 1))) ∧
    (∃ P', Relation.ReflTransGen Pool.Goes P P' ∧ Finished P') ∧
    ∀ P', Relation.ReflTransGen Pool.Goes P P' → Finished P' →
      (P'.stage.shared.gate = none ∧ P'.stage.shared.heldLock = none) ∧
      ∀ t, Requests P' t →
        (P'.stage.acts t).countP isReply = 1 ∧ P'.threads t = some (.done ()) := by
  have hreachable : ∀ P', Relation.ReflTransGen Pool.Goes P P' → env.Reachable P' := by
    intro P' hgoes
    induction hgoes with
    | refl => exact h
    | tail _ hgoes ih => exact ih.goes hgoes
  refine ⟨h.drains, h.settles, fun P' hgoes hfinished => ?_⟩
  have h' := hreachable P' hgoes
  exact ⟨hfinished.unlocked h', fun t hrequests => hfinished.replied h' hrequests⟩

/-! ### A request that asks for everything -/

namespace Sample

def task : Task := .sign (some ⟨some 7, 501⟩) [] ⟨plain.keyData, [5], 0⟩

/-- The user approves, and the vault has to be asked for with the master password. -/
def asks : List (Move runtime) :=
  [.spawn 0 task, go 0, go 0, go 0, go 0, go 0, go 0, go 0]

def Asking (P : Pool runtime) : Prop :=
  (∃ act ∈ P.stage.acts 0, act = .started task) ∧
    (P.stage.acts 0).countP (awaits .confirm) = 1 ∧
    (P.stage.acts 0).countP (awaits .masterPassword) = 1

instance (P : Pool runtime) : Decidable (Asking P) := inferInstanceAs (Decidable (_ ∧ _))

theorem exists_asking : ∃ P, Sample.env.Reachable P ∧ Asking P :=
  Pool.exists_of_plays (p := Asking) reachable_start
    (show ∃ P ∈ Pool.plays Sample.env.code (.start world) asks, Asking P by decide +kernel)

theorem requests_of_asking (h : Asking P) : Requests P 0 := by
  obtain ⟨⟨act, hmem, rfl⟩, -⟩ := h
  exact ⟨_, _, _, hmem⟩

end Sample

theorem asks_at_most_once : ∃ P, Sample.env.Reachable P ∧ Sample.Asking P ∧
    (P.stage.acts 0).countP isAwait ≤ 20 := by
  obtain ⟨P, hP, hasking⟩ := Sample.exists_asking
  exact ⟨P, hP, hasking, (asks_at_most hP (Sample.requests_of_asking hasking)).2⟩

theorem every_request_answered_asking : ∃ P P', Sample.env.Reachable P ∧ Sample.Asking P ∧
    Relation.ReflTransGen Pool.Goes P P' ∧ Finished P' ∧ P'.stage.shared.gate = none := by
  obtain ⟨P, hP, hasking⟩ := Sample.exists_asking
  obtain ⟨-, ⟨P', hgoes, hfinished⟩, hends⟩ := every_request_answered hP
  exact ⟨P, P', hP, hasking, hgoes, hfinished, (hends P' hgoes hfinished).1.1⟩

end LastpassSshAgent
