import LastpassSshAgent.Frames
import LastpassSshAgent.Resumption.Reports

/-!
# Calls that share the held password

Any number of asks, uses, rejections, screen locks, expiries and runs of `lpass`, each a
thread of its own, and nothing else of the agent. The rules say what each may do once it
has the lock, and what a call returns for what it found held.
-/

namespace LastpassSshAgent

open Resumption

inductive VaultCall where
  | password (ask : Bool)
  | touch
  | rejected
  | forget
  | expire
  | run (source : MasterPasswordSource) (args : List String) (maxBytes : ℕ)
  deriving DecidableEq, Repr

structure Supplied where
  ask : Bool
  result : Except String (Option Bytes)
  deriving DecidableEq

abbrev vaultCalls : Interface := runtime.reporting VaultCall Supplied

namespace VaultCall

def code (unlock : Unlock) : VaultCall → Program vaultCalls Unit
  | .password ask => (unlock.password ask).reporting VaultCall (Supplied.mk ask)
  | .touch => Unlock.touch.within VaultCall Supplied
  | .rejected => Unlock.rejected.within VaultCall Supplied
  | .forget => Unlock.forget.within VaultCall Supplied
  | .expire => unlock.expireIfIdle.within VaultCall Supplied
  | .run source args maxBytes =>
    (((LpassCli.mk source unlock).run args maxBytes).within VaultCall Supplied).bind fun _ =>
      .done ()

/-- The world as `Unlock::new` leaves it. -/
structure Fresh (w : World) : Prop where
  heldLock : w.heldLock = none
  held : w.held = none
  storeRejected : w.storeRejected = false
  epoch : w.epoch = {}

/-- The pools of calls, under every schedule and whatever the stores and `lpass` answer. -/
def Reachable (unlock : Unlock) (P : Pool vaultCalls) : Prop :=
  P.Reachable (code unlock) Fresh

end VaultCall

instance (act : Act vaultCalls) (e : Event ⊕ Supplied) : Decidable (act = .noted e) :=
  match act with
  | .noted e' => decidable_of_iff (e' = e) ⟨congrArg _, Act.noted.inj⟩
  | .started _ => isFalse nofun
  | .began _ => isFalse nofun
  | .answered _ _ => isFalse nofun
  | .ended => isFalse nofun

instance (act : Act vaultCalls) (call : VaultCall) : Decidable (act = .started call) :=
  match act with
  | .started call' => decidable_of_iff (call' = call) ⟨congrArg _, Act.started.inj⟩
  | .began _ => isFalse nofun
  | .answered _ _ => isFalse nofun
  | .noted _ => isFalse nofun
  | .ended => isFalse nofun

/-! ### What the sources are worth -/

def usable : Except String (Option Bytes) → Option Bytes
  | .ok (some secret) => if MAX_PASSPHRASE_BYTES < secret.length then none else some secret
  | .ok none => none
  | .error _ => none

def typed : Except PromptError Bytes → Option Bytes
  | .ok secret => if secret.isEmpty then none else some secret
  | .error _ => none

/-- What an ask consults first. -/
def Unlock.consults (unlock : Unlock) (w : World) : Query :=
  if unlock.source = .touchId ∧ w.storeRejected = false then .masterStore else .prompt .master

theorem Unlock.unrejected_of_consults {unlock : Unlock} {w : World}
    (h : unlock.consults w = .masterStore) : w.storeRejected = false := by
  unfold consults at h
  split_ifs at h with hstore
  exact hstore.2

/-- What a call of `password` returns for what it leaves held. -/
def Comes (ask : Bool) (held : Option Held) (result : Except String (Option Bytes)) : Prop :=
  match held with
  | some current => result = .ok (some current.secret)
  | none => if ask then ∃ e, result = .error e else result = .ok none

/-- A thread that read the password, fed it to `lpass`, was told that it is wrong and has
just been granted the lock. Newest first. -/
def Told (own : List (Entry vaultCalls)) : Prop :=
  ∃ granted waited answered fed read rest args maxBytes run out,
    own = granted :: waited :: answered :: fed :: read :: rest ∧
    granted.act = .answered .held () ∧ waited.act = .began .held ∧
    answered.act = .answered (.lpass args (read.before.held.map Held.secret) maxBytes) run ∧
    fed.act = .began (.lpass args (read.before.held.map Held.secret) maxBytes) ∧
    read.act = .noted (.inl .heldReleased) ∧
    CmdOutput.of (read.before.held.map Held.secret).isSome maxBytes run = .ok out ∧
    out.wasRejected = true

namespace VaultCall

/-! ### The rules -/

section

variable (unlock : Unlock) (s : Stage vaultCalls) (t : ℕ)

def Granted : Prop := s.shared.heldLock = some t ∧ s.last t = some (.answered .held ())

def Vacant : Prop := s.shared.heldLock = some t ∧ s.shared.held = none

/-- Thread `t` is a call of `password`, and `acts` is all it has done since it began. -/
def Only (acts : List (Act vaultCalls)) : Prop :=
  ∀ ask, s.Did t (.started (.password ask)) → s.acts t = acts ++ [.started (.password ask)]

/-- What this thread is may ask for the master password. -/
def MayAsk : Prop :=
  s.Did t (.started (.password true)) ∨
    ∃ args maxBytes, s.Did t (.started (.run .unlock args maxBytes))

def MayBegin : Query → Prop
  | .held => s.shared.heldLock ≠ some t ∧ Only s t []
  | .lpass _ _ _ => s.shared.heldLock ≠ some t ∧
      ∃ source args maxBytes, s.Did t (.started (.run source args maxBytes))
  | .masterStore => Vacant s t ∧ s.last t = some (.noted (.inl .asked)) ∧
      unlock.consults s.shared = .masterStore
  | .prompt request => Vacant s t ∧ request = .master ∧
      ((s.last t = some (.noted (.inl .asked)) ∧ unlock.consults s.shared = .prompt .master) ∨
        ∃ answer, s.last t = some (.answered .masterStore answer) ∧ usable answer = none)
  | _ => False

/-- Where the password about to be held was had from. -/
def Sourced (secret : Bytes) : Source → Prop
  | .store => ∃ answer, s.last t = some (.answered .masterStore answer) ∧ usable answer = some secret
  | .prompt => ∃ request answer, s.last t = some (.answered (.prompt request) answer) ∧
      typed answer = some secret

/-- What the lock is given back after. -/
def MayRelease : Prop :=
  (s.last t = some (.answered .held ()) ∧
      (s.Did t (.started (.password true)) → s.shared.held ≠ none)) ∨
    (∃ request answer, s.last t = some (.answered (.prompt request) answer) ∧
      typed answer = none ∧ s.shared.held = none) ∨
    (∃ secret source, s.last t = some (.noted (.inl (.holding secret source)))) ∨
    s.last t = some (.noted (.inl .touched)) ∨ s.last t = some (.noted (.inl .rejected)) ∨
    s.last t = some (.noted (.inl .forgotten)) ∨ s.last t = some (.noted (.inl .expired))

def MayNote : Event → Prop
  | .heldReleased => s.shared.heldLock = some t ∧ MayRelease s t
  | .asked => Granted s t ∧ s.shared.held = none ∧ MayAsk s t ∧
      Only s t [.answered .held (), .began .held]
  | .holding secret source => Vacant s t ∧ Sourced s t secret source
  | .touched => Granted s t ∧ (s.Did t (.started .touch) ∨
      ∃ args maxBytes, s.Did t (.started (.run .unlock args maxBytes)))
  | .rejected => Granted s t ∧ (s.Did t (.started .rejected) ∨
      ∃ source args maxBytes, s.Did t (.started (.run source args maxBytes)) ∧ Told (s.own t))
  | .forgotten => Granted s t ∧ s.Did t (.started .forget)
  | .expired => Granted s t ∧ s.Did t (.started .expire)
  | _ => False

def MayReport (supplied : Supplied) : Prop :=
  ∃ released rest, s.own t = released :: rest ∧ released.act = .noted (.inl .heldReleased) ∧
    s.Did t (.started (.password supplied.ask)) ∧
    Comes supplied.ask released.before.held supplied.result

def MayAct : Act vaultCalls → Prop
  | .began q => MayBegin unlock s t q
  | .noted (.inl e) => MayNote s t e
  | .noted (.inr supplied) => MayReport s t supplied
  | .ended => s.shared.heldLock ≠ some t ∧ ∀ ask, s.Did t (.started (.password ask)) →
      ∃ supplied, s.last t = some (.noted (.inr supplied))
  | _ => True

end

def rules (unlock : Unlock) : Rules vaultCalls where
  allowed s t act := MayAct unlock s t act
  pause _ _ _ := True

abbrev Lawful (unlock : Unlock) (s : Stage vaultCalls) : Prop := (rules unlock).Lawful Fresh s

/-! ### What the others leave alone -/

/-- What a change that is not thread `t`'s own leaves of the lock, and of what it guards. -/
structure Still (t : ℕ) (w x : World) : Prop where
  lock : x.heldLock = some t ↔ w.heldLock = some t
  held : w.heldLock = some t → x.held = w.held
  rejected : w.heldLock = some t → x.storeRejected = w.storeRejected

namespace Still

variable {t u : ℕ} {w x y : World}

theorem refl (t : ℕ) (w : World) : Still t w w := ⟨Iff.rfl, fun _ => rfl, fun _ => rfl⟩

theorem trans (h : Still t w x) (h' : Still t x y) : Still t w y where
  lock := h'.lock.trans h.lock
  held hl := (h'.held (h.lock.mpr hl)).trans (h.held hl)
  rejected hl := (h'.rejected (h.lock.mpr hl)).trans (h.rejected hl)

theorem drift (t : ℕ) (d : Drift) (w : World) : Still t w (World.drift d w) := by
  cases d <;> exact ⟨Iff.rfl, fun _ => rfl, fun _ => rfl⟩

theorem of_locked (hu : u ≠ t) (hw : w.heldLock = some u) (hx : x.heldLock ≠ some t) :
    Still t w x := by
  have hne : w.heldLock ≠ some t := by
    rw [hw]
    exact fun h => hu (Option.some.inj h)
  exact ⟨iff_of_false hx hne, fun h => absurd h hne, fun h => absurd h hne⟩

theorem answer {q : Query} {a : q.Answer} (h : World.effect u q a w = some x) (hh : q ≠ .held) :
    Still t w x := by
  by_cases hg : q = .gate
  · subst hg
    obtain ⟨-, rfl⟩ := World.effect_gate (a := a) h
    exact ⟨Iff.rfl, fun _ => rfl, fun _ => rfl⟩
  · rw [World.effect_call hg hh h]
    exact refl t w

theorem effect {q : Query} {a : q.Answer} (h : World.effect u q a w = some x) (hu : u ≠ t) :
    Still t w x := by
  by_cases hh : q = .held
  · subst hh
    obtain ⟨hnone, rfl⟩ := World.effect_held (a := a) h
    exact ⟨by simp [hnone, hu], by simp [hnone], by simp [hnone]⟩
  · exact answer h hh

end Still

variable {unlock : Unlock} {s s' : Stage vaultCalls} {t u : ℕ}

theorem locked_of_mayNote {e : Event} (h : MayNote s t e) : s.shared.heldLock = some t := by
  cases e with
  | asked => exact h.1.1
  | holding secret source => exact h.1.1
  | heldReleased => exact h.1
  | touched => exact h.1.1
  | rejected => exact h.1.1
  | forgotten => exact h.1.1
  | expired => exact h.1.1
  | _ => exact h.elim

theorem legal_still {act : Act vaultCalls} (h : (rules unlock).Legal s u act s') (hu : u ≠ t) :
    Still t s.shared s'.shared := by
  cases h with
  | started _ hx => exact Option.some.inj hx ▸ .refl t _
  | began _ _ => exact .refl t _
  | answered _ hx => exact .effect hx hu
  | @noted e _ hr =>
    cases e with
    | inr supplied => exact .refl t _
    | inl e =>
      have hlock : s.shared.heldLock = some u := locked_of_mayNote hr
      refine .of_locked hu hlock ?_
      by_cases he : e = .heldReleased
      · subst he
        exact nofun
      · show (World.apply e s.shared).heldLock ≠ some t
        rw [World.apply_heldLock he, hlock]
        exact fun h => hu (Option.some.inj h)
  | ended _ _ => exact .refl t _

theorem others_still (h : (rules unlock).Others t s s') : Still t s.shared s'.shared := by
  induction h with
  | refl => exact .refl t _
  | act _ hu h ih => exact ih.trans (legal_still h hu)
  | drift d _ ih => exact ih.trans (.drift t d _)

/-! ### Calls to run -/

instance (s : Stage vaultCalls) (t : ℕ) (e : Event ⊕ Supplied) : Decidable (s.Did t (.noted e)) :=
  inferInstanceAs (Decidable (∃ x ∈ s.history, x.tid = t ∧ x.act = .noted e))

def touchId : Unlock := ⟨.touchId, none⟩

theorem fresh_world : Fresh Sample.world := ⟨rfl, rfl, rfl, rfl⟩

theorem reachable_world (unlock : Unlock) : Reachable unlock (.start Sample.world) :=
  ⟨Sample.world, fresh_world, .refl⟩

/-- Thread `t` goes on, told what the sample user and an empty store tell it. -/
def go (t : ℕ) : Move vaultCalls := .reply t (Sample.answer .timeout [2])

end VaultCall

end LastpassSshAgent
