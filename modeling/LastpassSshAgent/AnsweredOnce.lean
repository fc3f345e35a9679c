import LastpassSshAgent.Stepwise

/-!
# An answered question is not asked twice

Whoever files an answer has had the gate since before its prompt, so between a look at the
epoch under the gate and what is done about it nothing is filed. Everything filed is then in
the current epoch or dead, and a prompt is shown only for a question that has not been filed
in the current one.
-/

namespace LastpassSshAgent

open Resumption

namespace Stepwise

section

variable (s : Stage stepwise) (t : ℕ)

def Filed (question : String) (epoch : ℕ) : Prop :=
  ∃ x ∈ s.history, x.act = .answered (.file question epoch) ()

def mark : Act stepwise → Option (Option Settling)
  | .noted (.settling settling) => some (some settling)
  | .noted .settled => some none
  | _ => none

def settles : Option Settling := ((s.acts t).findSome? mark).join

def IsGiven : Answer → Prop
  | .given _ _ => True
  | _ => False

def SettlesGiven : Prop := ∃ settling, settles s t = some settling ∧ IsGiven settling.answer

/-- Thread `t` is settling a signature on a yes to `question`, which belongs to `epoch`. -/
def SettlesIn (question : String) (epoch : ℕ) : Prop :=
  ∃ answeredIn asked, settles s t = some ⟨.given (some question) answeredIn, ⟨asked, true⟩⟩ ∧
    epoch = if asked then answeredIn + 1 else answeredIn

def Unfiled (ctx : ConfirmContext) : Prop :=
  ∀ question, approvalQuestion ctx = some question → ¬ Filed s question s.shared.epoch.locks

def MayBegin : Query → Prop
  | .confirm ctx => s.shared.gate = some t ∧ Unfiled s ctx
  | .file question epoch => s.shared.gate = some t ∧ epoch = s.shared.epoch.locks ∧
      SettlesIn s t question epoch
  | .release => s.shared.gate = some t ∧ ¬ SettlesGiven s t
  | _ => True

def MayNote : Event → Prop
  | .settling settling => IsGiven settling.answer → s.shared.gate = some t
  | .settled => True

def MayAct : Act stepwise → Prop
  | .began q => MayBegin s t q
  | .noted e => MayNote s t e
  | _ => True

end

def rules : Rules stepwise where
  allowed s t act := MayAct s t act
  pause _ _ _ := True

abbrev Lawful (s : Stage stepwise) : Prop := rules.Lawful Fresh s

/-! ### What one step can do -/

section

variable {s s' : Stage stepwise} {t u : ℕ} {act : Act stepwise}

theorem effect_gate {a : Unit} {w w' : Shared} (h : effect t .gate a w = some w') :
    w.gate = none ∧ w' = { w with gate := some t } := by
  simp only [effect] at h
  split_ifs at h with hgate
  exact ⟨hgate, (Option.some.inj h).symm⟩

theorem effect_release {a : Unit} {w w' : Shared} (h : effect t .release a w = some w') :
    w.gate = some t ∧ w' = { w with gate := none } := by
  simp only [effect] at h
  split_ifs at h with hgate
  exact ⟨hgate, (Option.some.inj h).symm⟩

/-- What a step of thread `t` makes of the shared state, and when it can be made. -/
inductive Changes (t : ℕ) (w : Shared) : Act stepwise → Shared → Prop
  | gate (h : w.gate = none) : Changes t w (.answered .gate ()) { w with gate := some t }
  | release (h : w.gate = some t) : Changes t w (.answered .release ()) { w with gate := none }
  | bump : Changes t w (.answered .bump ()) { w with epoch := w.epoch.bump }
  | file (question : String) (epoch : ℕ) : Changes t w (.answered (.file question epoch) ())
      { w with approvals := w.approvals.file question epoch }
  | none {act : Act stepwise} (h : ∀ question epoch, act ≠ .answered (.file question epoch) ()) :
      Changes t w act w

theorem changes_of_effect {q : Query} {a : q.Answer} {w w' : Shared}
    (h : effect t q a w = some w') : Changes t w (.answered q a) w' := by
  cases q with
  | gate =>
    obtain ⟨hgate, rfl⟩ := effect_gate h
    exact .gate hgate
  | release =>
    obtain ⟨hgate, rfl⟩ := effect_release h
    exact .release hgate
  | bump => exact Option.some.inj h ▸ .bump
  | file question epoch => exact Option.some.inj h ▸ .file question epoch
  | current =>
    obtain ⟨-, rfl⟩ := effect_current h
    exact .none (fun _ _ h => nomatch h)
  | lookup question =>
    obtain ⟨-, rfl⟩ := effect_lookup h
    exact .none (fun _ _ h => nomatch h)
  | snapshot => exact Option.some.inj h ▸ .none (fun _ _ h => nomatch h)
  | confirm ctx => exact Option.some.inj h ▸ .none (fun _ _ h => nomatch h)
  | fetch => exact Option.some.inj h ▸ .none (fun _ _ h => nomatch h)
  | sign => exact Option.some.inj h ▸ .none (fun _ _ h => nomatch h)

theorem changes_of_legal (h : rules.Legal s t act s') : Changes t s.shared act s'.shared := by
  cases h with
  | started _ hx => exact Option.some.inj hx ▸ .none nofun
  | began _ _ => exact .none nofun
  | answered _ hx => exact changes_of_effect hx
  | noted _ _ => exact .none nofun
  | ended _ _ => exact .none nofun

theorem Changes.gate_kept {w w' : Shared} (h : Changes t w act w') (hgate : w.gate = some t)
    (hact : act ≠ .answered .release ()) : w'.gate = some t := by
  cases h with
  | gate hnone => exact absurd (hnone.symm.trans hgate) nofun
  | release _ => exact absurd rfl hact
  | bump => exact hgate
  | file question epoch => exact hgate
  | none _ => exact hgate

theorem last_of_answered {q : Query} {a : q.Answer} (h : rules.Legal s t (.answered q a) s') :
    s.last t = some (.began q) := by
  cases h with
  | answered hl _ => exact hl

theorem may_of_legal (h : rules.Legal s t act s') : MayAct s t act := by
  cases h with
  | started _ _ => trivial
  | began _ h => exact h
  | answered _ _ => trivial
  | noted _ h => exact h
  | ended _ h => exact h

theorem Changes.locks {w w' : Shared} (h : Changes t w act w') :
    w.epoch.locks ≤ w'.epoch.locks := by
  cases h with
  | bump => exact Nat.le_succ _
  | _ => exact Nat.le_refl _

theorem filed_iff (h : rules.Legal s t act s') {question : String} {epoch : ℕ} :
    Filed s' question epoch ↔
      act = .answered (.file question epoch) () ∨ Filed s question epoch := by
  simp [Filed, h.history]

theorem settles_of_ne (h : rules.Legal s u act s') (hu : u ≠ t) : settles s' t = settles s t := by
  rw [settles, h.acts_of_ne hu]
  rfl

theorem settles_of_unmarked (h : rules.Legal s t act s') (hmark : mark act = none) :
    settles s' t = settles s t := by
  rw [settles, h.acts, List.findSome?_cons, hmark]
  rfl

/-! ### What holds wherever the steps lead -/

structure Sound (s : Stage stepwise) : Prop where
  filed : ∀ question epoch, Filed s question epoch → epoch ≤ s.shared.epoch.locks
  current : ∀ question, Filed s question s.shared.epoch.locks →
    s.shared.approvals.remembered question = some s.shared.epoch.locks
  remembered : ∀ question epoch, s.shared.approvals.remembered question = some epoch →
    Filed s question epoch
  /-- Nothing is filed while the one who is about to file waits, and what was is older. -/
  filing : ∀ u question epoch, s.last u = some (.began (.file question epoch)) →
    s.shared.gate = some u ∧ epoch ≤ s.shared.epoch.locks ∧ SettlesIn s u question epoch ∧
      ∀ question' epoch', Filed s question' epoch' → epoch' ≤ epoch
  confirming : ∀ u ctx, s.last u = some (.began (.confirm ctx)) →
    s.shared.gate = some u ∧ Unfiled s ctx
  settling : ∀ u, SettlesGiven s u → s.shared.gate = some u
  releasing : ∀ u, s.last u = some (.began .release) → ¬ SettlesGiven s u

theorem Sound.guarded (hs : Sound s) (h : rules.Legal s u act s') (hu : u ≠ t)
    (hgate : s.shared.gate = some t) : s'.shared.gate = some t ∧
      ∀ question epoch, act ≠ .answered (.file question epoch) () := by
  have hother : s.shared.gate ≠ some u := by
    rw [hgate]
    exact fun h => hu (Option.some.inj h).symm
  have hfile : ∀ question epoch, act ≠ .answered (.file question epoch) () := by
    rintro question epoch rfl
    exact hother (hs.filing u question epoch (last_of_answered h)).1
  refine ⟨?_, hfile⟩
  have hchanges := changes_of_legal h
  generalize s'.shared = w at hchanges ⊢
  cases hchanges with
  | gate hnone => exact absurd (hnone.symm.trans hgate) nofun
  | release hown => exact absurd hown hother
  | bump => exact hgate
  | file question epoch => exact hgate
  | none _ => exact hgate

theorem Sound.filed_current (hs : Sound s) {question : String} {epoch : ℕ}
    (h : Filed s question epoch) (hepoch : s.shared.epoch.locks ≤ epoch) :
    epoch = s.shared.epoch.locks :=
  Nat.le_antisymm (hs.filed question epoch h) hepoch

theorem Sound.filed_act (hs : Sound s) (h : rules.Legal s u act s') {question : String} {epoch : ℕ}
    (hfiled : Filed s' question epoch) : epoch ≤ s'.shared.epoch.locks := by
  have hlocks := (changes_of_legal h).locks
  rcases (filed_iff h).mp hfiled with rfl | hfiled
  · exact (hs.filing u question epoch (last_of_answered h)).2.1.trans hlocks
  · exact (hs.filed question epoch hfiled).trans hlocks

/-- Filing keeps what is in the current epoch, its own entry with it. -/
theorem Sound.file_current (hs : Sound s) {question other : String} {epoch : ℕ}
    (hlast : s.last u = some (.began (.file question epoch)))
    (hother : Filed s other s.shared.epoch.locks ∨
      other = question ∧ epoch = s.shared.epoch.locks) :
    (s.shared.approvals.file question epoch).remembered other = some s.shared.epoch.locks := by
  obtain ⟨-, hle, -, holder⟩ := hs.filing u question epoch hlast
  have hepoch : epoch = s.shared.epoch.locks := by
    rcases hother with hother | ⟨-, hepoch⟩
    · exact Nat.le_antisymm hle (holder other _ hother)
    · exact hepoch
  simp only [Approvals.file, hepoch]
  split_ifs with hsame
  · rfl
  · have hfiled := hother.resolve_right fun h => hsame h.1
    rw [hs.current other hfiled]
    simp

theorem file_inj {question question' : String} {epoch epoch' : ℕ}
    (h : (Act.answered (Query.file question epoch) () : Act stepwise) =
      .answered (Query.file question' epoch') ()) : question = question' ∧ epoch = epoch' := by
  cases h
  exact ⟨rfl, rfl⟩

theorem Sound.current_act (hs : Sound s) (h : rules.Legal s u act s') {question : String}
    (hfiled : Filed s' question s'.shared.epoch.locks) :
    s'.shared.approvals.remembered question = some s'.shared.epoch.locks := by
  have hbefore := (filed_iff h).mp hfiled
  have hchanges := changes_of_legal h
  generalize s'.shared = w at hchanges hbefore ⊢
  cases hchanges with
  | gate _ => exact hs.current question (hbefore.resolve_left nofun)
  | release _ => exact hs.current question (hbefore.resolve_left nofun)
  | bump =>
    have hle := hs.filed question _ (hbefore.resolve_left nofun)
    exact absurd hle (Nat.not_succ_le_self _)
  | file question' epoch =>
    refine hs.file_current (last_of_answered h) (hbefore.symm.imp id fun hact => ?_)
    obtain ⟨hquestion, hepoch⟩ := file_inj hact
    exact ⟨hquestion.symm, hepoch⟩
  | none hact => exact hs.current question (hbefore.resolve_left (hact question _))

theorem Sound.remembered_act (hs : Sound s) (h : rules.Legal s u act s') {question : String}
    {epoch : ℕ} (hremembered : s'.shared.approvals.remembered question = some epoch) :
    Filed s' question epoch := by
  rw [filed_iff h]
  have hchanges := changes_of_legal h
  generalize s'.shared = w at hchanges hremembered
  cases hchanges with
  | file question' epoch' =>
    simp only [Approvals.file] at hremembered
    split_ifs at hremembered with hsame
    · left
      rw [hsame, Option.some.inj hremembered]
    · right
      exact hs.remembered question epoch (Option.filter_eq_some_iff.mp hremembered).1
  | gate _ => exact .inr (hs.remembered question epoch hremembered)
  | release _ => exact .inr (hs.remembered question epoch hremembered)
  | bump => exact .inr (hs.remembered question epoch hremembered)
  | none _ => exact .inr (hs.remembered question epoch hremembered)

theorem settlesGiven_iff (h : settles s' t = settles s t) :
    SettlesGiven s' t ↔ SettlesGiven s t := by
  rw [SettlesGiven, SettlesGiven, h]

theorem began_shared {q : Query} (h : rules.Legal s t (.began q) s') : s'.shared = s.shared := by
  cases h
  rfl

theorem Sound.filing_act (hs : Sound s) (h : rules.Legal s u act s') {question : String}
    {epoch : ℕ} (hlast : s'.last t = some (.began (.file question epoch))) :
    s'.shared.gate = some t ∧ epoch ≤ s'.shared.epoch.locks ∧ SettlesIn s' t question epoch ∧
      ∀ question' epoch', Filed s' question' epoch' → epoch' ≤ epoch := by
  by_cases hut : u = t
  · subst hut
    obtain rfl : act = .began (.file question epoch) := Option.some.inj (h.last_self.symm.trans hlast)
    obtain ⟨hgate, rfl, hsettles⟩ : MayBegin s u (.file question epoch) := may_of_legal h
    have hshared := began_shared h
    refine ⟨by rw [hshared, hgate], by rw [hshared], ?_, fun question' epoch' hfiled => ?_⟩
    · rwa [SettlesIn, settles_of_unmarked h rfl]
    · exact hs.filed _ _ (((filed_iff h).mp hfiled).resolve_left nofun)
  · obtain ⟨hgate, hle, hsettles, holder⟩ :=
      hs.filing t question epoch ((h.last_of_ne hut).symm.trans hlast)
    obtain ⟨hgate', hfile⟩ := hs.guarded h hut hgate
    refine ⟨hgate', hle.trans (changes_of_legal h).locks, ?_, fun question' epoch' hfiled => ?_⟩
    · rwa [SettlesIn, settles_of_ne h hut]
    · exact holder _ _ (((filed_iff h).mp hfiled).resolve_left (hfile _ _))

theorem Sound.confirming_act (hs : Sound s) (h : rules.Legal s u act s') {ctx : ConfirmContext}
    (hlast : s'.last t = some (.began (.confirm ctx))) :
    s'.shared.gate = some t ∧ Unfiled s' ctx := by
  by_cases hut : u = t
  · subst hut
    obtain rfl : act = .began (.confirm ctx) := Option.some.inj (h.last_self.symm.trans hlast)
    obtain ⟨hgate, hunfiled⟩ : MayBegin s u (.confirm ctx) := may_of_legal h
    have hshared := began_shared h
    refine ⟨by rw [hshared, hgate], fun question hquestion hfiled => ?_⟩
    rw [hshared] at hfiled
    exact hunfiled question hquestion (((filed_iff h).mp hfiled).resolve_left nofun)
  · obtain ⟨hgate, hunfiled⟩ := hs.confirming t ctx ((h.last_of_ne hut).symm.trans hlast)
    obtain ⟨hgate', hfile⟩ := hs.guarded h hut hgate
    refine ⟨hgate', fun question hquestion hfiled => ?_⟩
    have hbefore := ((filed_iff h).mp hfiled).resolve_left (hfile _ _)
    have hepoch := hs.filed_current hbefore (changes_of_legal h).locks
    exact hunfiled question hquestion (hepoch ▸ hbefore)

/-- A mark changes nothing, and a given answer is settled under the gate. -/
theorem gate_of_marked (h : rules.Legal s t act s') (hmark : mark act ≠ none)
    (hgiven : SettlesGiven s' t) : s'.shared.gate = some t := by
  obtain ⟨settling, hsettles, hanswer⟩ := hgiven
  rw [settles, h.acts, List.findSome?_cons] at hsettles
  cases h with
  | started _ _ => exact absurd rfl hmark
  | began _ _ => exact absurd rfl hmark
  | answered _ _ => exact absurd rfl hmark
  | ended _ _ => exact absurd rfl hmark
  | @noted e _ hmay =>
    cases e with
    | settled => cases hsettles
    | settling settling' =>
      obtain rfl : settling' = settling := Option.some.inj hsettles
      exact hmay hanswer

theorem Sound.settling_act (hs : Sound s) (h : rules.Legal s u act s')
    (hgiven : SettlesGiven s' t) : s'.shared.gate = some t := by
  by_cases hut : u = t
  · subst hut
    by_cases hmark : mark act = none
    · have hbefore := (settlesGiven_iff (settles_of_unmarked h hmark)).mp hgiven
      refine (changes_of_legal h).gate_kept (hs.settling u hbefore) ?_
      rintro rfl
      exact hs.releasing u (last_of_answered h) hbefore
    · exact gate_of_marked h hmark hgiven
  · have hgate := hs.settling t ((settlesGiven_iff (settles_of_ne h hut)).mp hgiven)
    exact (hs.guarded h hut hgate).1

theorem Sound.releasing_act (hs : Sound s) (h : rules.Legal s u act s')
    (hlast : s'.last t = some (.began .release)) : ¬ SettlesGiven s' t := by
  by_cases hut : u = t
  · subst hut
    obtain rfl : act = .began .release := Option.some.inj (h.last_self.symm.trans hlast)
    rw [settlesGiven_iff (settles_of_unmarked h rfl)]
    exact (may_of_legal h).2
  · rw [settlesGiven_iff (settles_of_ne h hut)]
    exact hs.releasing t ((h.last_of_ne hut).symm.trans hlast)

theorem Sound.legal (hs : Sound s) (h : rules.Legal s u act s') : Sound s' where
  filed _ _ := hs.filed_act h
  current _ := hs.current_act h
  remembered _ _ := hs.remembered_act h
  filing _ _ _ := hs.filing_act h
  confirming _ _ := hs.confirming_act h
  settling _ := hs.settling_act h
  releasing _ := hs.releasing_act h

theorem Sound.drift (hs : Sound s) (d : Drift) : Sound (s.drift d) where
  filed question epoch h := (hs.filed question epoch h).trans (Nat.le_succ _)
  current question h := absurd (hs.filed question _ h) (Nat.not_succ_le_self _)
  remembered := hs.remembered
  filing u question epoch h := by
    obtain ⟨hgate, hle, hsettles, holder⟩ := hs.filing u question epoch h
    exact ⟨hgate, hle.trans (Nat.le_succ _), hsettles, holder⟩
  confirming u ctx h := by
    refine ⟨(hs.confirming u ctx h).1, fun question _ hfiled => ?_⟩
    exact absurd (hs.filed question _ hfiled) (Nat.not_succ_le_self _)
  settling := hs.settling
  releasing := hs.releasing

theorem sound (h : Lawful s) : Sound s := by
  induction h with
  | @start w hw =>
    refine ⟨?_, ?_, ?_, ?_, ?_, ?_, ?_⟩
    · simp [Filed]
    · simp [Filed]
    · intro question epoch h
      rw [hw.remembered] at h
      cases h
    · intro u question epoch h
      cases h
    · intro u ctx h
      cases h
    · rintro u ⟨settling, h, -⟩
      cases h
    · intro u h
      cases h
  | act _ h ih => exact ih.legal h
  | drift d _ ih => exact ih.drift d

end

/-! ### Waiting -/

section

variable {s s' s₁ : Stage stepwise} {t : ℕ} {gate : Bool} {settling : Option Settling} {β : Type}

theorem locks_legal {u : ℕ} {act : Act stepwise} (h : rules.Legal s u act s') :
    s.shared.epoch.locks ≤ s'.shared.epoch.locks := (changes_of_legal h).locks

theorem others_locks (h : rules.Others t s s₁) : s.shared.epoch.locks ≤ s₁.shared.epoch.locks :=
  h.leads.rel (r := fun w w' : Shared => w.epoch.locks ≤ w'.epoch.locks) (fun _ => Nat.le_refl _)
    (fun _ _ _ => Nat.le_trans) (fun _ _ _ _ => locks_legal) (fun _ _ => Nat.le_succ _)

theorem others_guarded (hs : Lawful s) (h : rules.Others t s s₁) (hgate : s.shared.gate = some t) :
    s₁.shared.gate = some t ∧
      ∀ question epoch, Filed s₁ question epoch → Filed s question epoch := by
  induction h with
  | refl => exact ⟨hgate, fun _ _ h => h⟩
  | act hothers hu hl ih =>
    obtain ⟨hgate', hfile⟩ := (sound (hothers.leads.lawful hs)).guarded hl hu ih.1
    refine ⟨hgate', fun question epoch h => ih.2 _ _ ?_⟩
    exact ((filed_iff hl).mp h).resolve_left (hfile _ _)
  | drift d _ ih => exact ih

theorem others_settles (h : rules.Others t s s₁) : settles s₁ t = settles s t := by
  rw [settles, h.acts]
  rfl

structure Told (t : ℕ) (q : Query) (a : q.Answer) (s s' : Stage stepwise) : Prop where
  lawful : Lawful s'
  live : s'.Live t
  settles : settles s' t = settles s t
  locks : s.shared.epoch.locks ≤ s'.shared.epoch.locks
  gate : q ≠ .release → s.shared.gate = some t → s'.shared.gate = some t
  filed : (∀ question epoch, q ≠ .file question epoch) → s.shared.gate = some t →
    ∀ question epoch, Filed s' question epoch → Filed s question epoch
  effect : ∃ w, effect t q a w = some s'.shared

theorem Told.of_others {q : Query} {a : q.Answer} {w : Shared} (hs : Lawful s) (hlive : s.Live t)
    (hmay : MayBegin s t q) (h : rules.Others t (s.begin t q) s₁)
    (hw : Stepwise.effect t q a s₁.shared = some w) :
    Told t q a s (s₁.push t (.answered q a) w) := by
  have hbegan : rules.Legal s t (.began q) (s.begin t q) := .began hlive hmay
  have hlast : s₁.last t = some (.began q) := h.last.trans hbegan.last_self
  have hanswered : rules.Legal s₁ t (.answered q a) (s₁.push t (.answered q a) w) :=
    .answered hlast hw
  have hlawful : Lawful s₁ := h.leads.lawful (.act hs hbegan)
  constructor
  · exact .act hlawful hanswered
  · exact .of_last hanswered.last_self nofun
  · exact (settles_of_unmarked hanswered rfl).trans
      ((others_settles h).trans (settles_of_unmarked hbegan rfl))
  · exact (others_locks h).trans (locks_legal hanswered)
  · intro hq hgate
    have hgate₁ := (others_guarded (.act hs hbegan) h hgate).1
    exact (changes_of_legal hanswered).gate_kept hgate₁ fun h => hq (Act.answered.inj h).1
  · intro hq hgate question epoch hfiled
    have hfiled₁ := ((filed_iff hanswered).mp hfiled).resolve_left
      fun h => hq question epoch (Act.answered.inj h).1
    have hbefore := (others_guarded (.act hs hbegan) h hgate).2 question epoch hfiled₁
    exact ((filed_iff hbegan).mp hbefore).resolve_left nofun
  · exact ⟨s₁.shared, hw⟩

theorem wp_step {q : Query} {f : q.Answer → Steps β} {Q : β → Stage stepwise → Prop}
    (hs : Lawful s) (hlive : s.Live t) (hmay : MayBegin s t q)
    (h : ∀ a s', Told t q a s s' → rules.wp t (f a) Q s') :
    rules.wp t ((step q).bind f) Q s := by
  refine (Rules.wp_ask _ _ _ _).mpr ⟨hmay, fun s₁ h₁ => ⟨trivial, fun a w hw => ?_⟩⟩
  exact h a _ (.of_others hs hlive hmay h₁ hw)

theorem Told.current {now : ℕ} (h : Told t .current now s s') : now = s'.shared.epoch.locks := by
  obtain ⟨w, hw⟩ := h.effect
  obtain ⟨rfl, hshared⟩ := effect_current hw
  rw [hshared]

theorem Told.lookup {question : String} {answeredIn : Option ℕ}
    (h : Told t (.lookup question) answeredIn s s') :
    answeredIn = s'.shared.approvals.remembered question := by
  obtain ⟨w, hw⟩ := h.effect
  obtain ⟨rfl, hshared⟩ := effect_lookup hw
  rw [hshared]

/-! ### What each program keeps to -/

/-- Thread `t` with what it knows of the gate, and what it is settling. -/
structure At (gate : Bool) (settling : Option Settling) (s : Stage stepwise) (t : ℕ) : Prop where
  lawful : Lawful s
  live : s.Live t
  gate : gate = true → s.shared.gate = some t
  settles : settles s t = settling

theorem At.told {q : Query} {a : q.Answer} (h : At gate settling s t) (ht : Told t q a s s')
    (hq : q ≠ .release) : At gate settling s' t where
  lawful := ht.lawful
  live := ht.live
  gate hgate := ht.gate hq (h.gate hgate)
  settles := ht.settles.trans h.settles

theorem At.step {q : Query} {f : q.Answer → Steps β} {Q : β → Stage stepwise → Prop}
    (h : At gate settling s t) (hmay : MayBegin s t q) (hq : q ≠ .release)
    (hnext : ∀ a s', Told t q a s s' → At gate settling s' t → rules.wp t (f a) Q s') :
    rules.wp t ((Stepwise.step q).bind f) Q s :=
  wp_step h.lawful h.live hmay fun a s' ht => hnext a s' ht (h.told ht hq)

theorem perform_spec {q : Query} (h : At gate settling s t) (hmay : MayBegin s t q)
    (hq : q ≠ .release) :
    rules.wp t (perform q) (fun _ s' => At gate settling s' t) s :=
  h.step hmay hq fun _ _ _ hat => hat

theorem rememberedIn_spec {question : String} (h : At gate settling s t) :
    rules.wp t (rememberedIn question) (fun r s' => At gate settling s' t ∧
      (gate = true → r = none → ¬ Filed s' question s'.shared.epoch.locks)) s := by
  refine h.step trivial nofun fun now s₁ hnow h₁ => ?_
  obtain rfl := hnow.current
  refine h₁.step trivial nofun fun answeredIn s₂ hlookup h₂ => ?_
  refine ⟨h₂, fun hgate hnone hfiled => ?_⟩
  -- nothing has been filed since the epoch was looked at, so it was current then
  have hbefore := hlookup.filed nofun (h₁.gate hgate) _ _ hfiled
  have hepoch := (sound h₁.lawful).filed_current hbefore hlookup.locks
  have hremembered := (sound h₂.lawful).current question hfiled
  rw [hlookup.lookup, hremembered, hepoch] at hnone
  simp at hnone

theorem lookUp_spec {ctx : ConfirmContext} (h : At gate settling s t) :
    rules.wp t (lookUp ctx) (fun r s' => At gate settling s' t ∧
      (gate = true → r = none → Unfiled s' ctx)) s := by
  unfold lookUp
  cases hquestion : approvalQuestion ctx with
  | none => exact ⟨h, fun _ _ question h => nomatch hquestion.symm.trans h⟩
  | some question =>
    refine Rules.wp_mono (rememberedIn_spec h) ?_
    rintro r s' ⟨h', hunfiled⟩
    refine ⟨h', fun hgate hnone question' hquestion' => ?_⟩
    obtain rfl := Option.some.inj (hquestion.symm.trans hquestion')
    exact hunfiled hgate hnone

theorem enter_spec (h : At gate settling s t) :
    rules.wp t (enter gate) (fun gate' s' => gate' = true ∧ At true settling s' t) s := by
  unfold enter
  split_ifs with hgate
  · exact ⟨rfl, hgate ▸ h⟩
  · refine h.step trivial nofun fun a s₁ ht h₁ => ?_
    obtain ⟨w, hw⟩ := ht.effect
    obtain ⟨-, hshared⟩ := effect_gate hw
    exact ⟨rfl, h₁.lawful, h₁.live, fun _ => by rw [hshared], h₁.settles⟩

theorem confirm_spec {ctx : ConfirmContext} (h : At true settling s t) (hunfiled : Unfiled s ctx) :
    rules.wp t (confirm ctx) (fun _ s' => At true settling s' t) s := by
  refine h.step ⟨h.gate rfl, hunfiled⟩ nofun fun decision s₁ _ h₁ => ?_
  cases decision with
  | approve => exact h₁.step trivial nofun fun _ _ _ h₂ => h₂
  | deny => exact h₁

/-- What a request has of the gate once it is answered. -/
def Answered (settling : Option Settling) (t : ℕ) (r : Option Answer × Bool)
    (s : Stage stepwise) : Prop :=
  At r.2 settling s t ∧ ∀ answer, r.1 = some answer → IsGiven answer → r.2 = true

theorem approvalUnderGate_spec (h : At gate settling s t) :
    rules.wp t (approvalUnderGate gate) (Answered settling t) s := by
  refine Rules.wp_seq (enter_spec h) ?_
  rintro _ s₁ ⟨rfl, h₁⟩
  refine h₁.step trivial nofun fun ctx s₂ _ h₂ => ?_
  refine Rules.wp_seq (lookUp_spec h₂) ?_
  rintro (_ | epoch) s₃ ⟨h₃, hunfiled⟩
  · refine Rules.wp_seq (confirm_spec h₃ (hunfiled rfl rfl)) fun answer s₄ h₄ => ?_
    exact ⟨h₄, fun _ _ _ => rfl⟩
  · refine ⟨h₃, fun answer hanswer hgiven => rfl⟩

theorem answerFor_spec (h : At gate settling s t) (confirm : Bool) :
    rules.wp t (answerFor confirm gate) (Answered settling t) s := by
  unfold answerFor
  split_ifs
  · refine h.step trivial nofun fun ctx s₁ _ h₁ => ?_
    refine Rules.wp_seq (lookUp_spec h₁) ?_
    rintro (_ | epoch) s₂ ⟨h₂, -⟩
    · exact approvalUnderGate_spec h₂
    · refine ⟨h₂, fun answer hanswer hgiven => ?_⟩
      obtain rfl := Option.some.inj hanswer
      exact hgiven.elim
  · refine ⟨h, fun answer hanswer hgiven => ?_⟩
    obtain rfl := Option.some.inj hanswer
    exact hgiven.elim

theorem vaultWork_spec (h : At gate settling s t) :
    rules.wp t (vaultWork gate) (fun r s' => At r.2 settling s' t ∧ (gate = true → r.2 = true)) s := by
  refine h.step trivial nofun fun reaches s₁ _ h₁ => ?_
  have henter : rules.wp t (enterIf reaches gate) (fun gate' s' => At gate' settling s' t ∧
      (gate = true → gate' = true)) s₁ := by
    unfold enterIf
    split_ifs
    · refine Rules.wp_mono (enter_spec h₁) ?_
      rintro _ s' ⟨rfl, h'⟩
      exact ⟨h', fun _ => rfl⟩
    · exact ⟨h₁, id⟩
  refine Rules.wp_seq henter fun gate' s₂ h₂ => ?_
  exact h₂.1.step trivial nofun fun outcome s₃ _ h₃ => ⟨h₃, h₂.2⟩

theorem rememberIn_spec {question : String} {answeredIn epoch : ℕ} {asked : Bool}
    (h : At true (some ⟨.given (some question) answeredIn, ⟨asked, true⟩⟩) s t)
    (hepoch : epoch = if asked then answeredIn + 1 else answeredIn) :
    rules.wp t (rememberIn question epoch)
      (fun _ s' => At true (some ⟨.given (some question) answeredIn, ⟨asked, true⟩⟩) s' t) s := by
  show rules.wp t (if !s.shared.approvals.enabled then _ else _) _ _
  split_ifs
  · exact h
  · refine h.step trivial nofun fun now s₁ hnow h₁ => ?_
    obtain rfl := hnow.current
    split_ifs with hne
    · exact h₁
    · have hnow' : epoch = s₁.shared.epoch.locks := by simpa using hne
      exact perform_spec h₁ ⟨h₁.gate rfl, hnow', answeredIn, asked, h₁.settles, hepoch⟩ nofun

theorem settle_spec {answer : Answer} {asked signed : Bool}
    (h : At gate (some ⟨answer, ⟨asked, signed⟩⟩) s t) (hgiven : IsGiven answer → gate = true) :
    rules.wp t (settle answer asked signed)
      (fun _ s' => At gate (some ⟨answer, ⟨asked, signed⟩⟩) s' t) s := by
  have hbump : rules.wp t (bumpIf asked)
      (fun _ s' => At gate (some ⟨answer, ⟨asked, signed⟩⟩) s' t) s := by
    unfold bumpIf
    split_ifs
    · exact perform_spec h trivial nofun
    · exact h
  refine Rules.wp_seq hbump fun _ s₁ h₁ => ?_
  cases answer with
  | notNeeded => exact h₁
  | remembered answeredIn =>
    dsimp only
    split_ifs
    · exact h₁
    · exact h₁.step trivial nofun fun _ _ _ h₂ => h₂
  | given question answeredIn =>
    obtain rfl := hgiven trivial
    cases question with
    | none => exact h₁
    | some question =>
      cases signed with
      | false => exact h₁
      | true => exact Rules.wp_seq (rememberIn_spec h₁ rfl) fun _ s₂ h₂ => h₂

theorem At.noted {e : Event} {settling' : Option Settling} (h : At gate settling s t)
    (hmay : MayNote s t e) (hmark : mark (.noted e) = some settling') :
    At gate settling' (s.note t e) t := by
  have hnoted : rules.Legal s t (.noted e) (s.note t e) := .noted h.live hmay
  refine ⟨.act h.lawful hnoted, .of_last hnoted.last_self nofun, h.gate, ?_⟩
  rw [Stepwise.settles, hnoted.acts, List.findSome?_cons, hmark]
  rfl

theorem drop_spec (h : At gate none s t) : rules.wp t (drop gate) (fun _ _ => True) s := by
  unfold drop
  split_ifs with hgate
  · refine wp_step h.lawful h.live ⟨h.gate hgate, ?_⟩ fun _ _ _ => trivial
    rintro ⟨settling, hsettles, -⟩
    exact nomatch h.settles.symm.trans hsettles
  · trivial

theorem signApproved_spec {answer : Answer} (h : At gate none s t)
    (hgiven : IsGiven answer → gate = true) :
    rules.wp t (signApproved answer gate) (fun _ _ => True) s := by
  refine Rules.wp_seq (vaultWork_spec h) ?_
  rintro ⟨outcome, gate'⟩ s₁ ⟨h₁, hgate'⟩
  have hmay : MayNote s₁ t (.settling ⟨answer, outcome⟩) :=
    fun hanswer => h₁.gate (hgate' (hgiven hanswer))
  refine (Rules.wp_tell _ _ _ _).mpr ⟨hmay, ?_⟩
  refine Rules.wp_seq (settle_spec (h₁.noted hmay rfl) fun h => hgate' (hgiven h)) fun _ s₂ h₂ => ?_
  exact (Rules.wp_tell _ _ _ _).mpr ⟨trivial, drop_spec (h₂.noted trivial rfl)⟩

theorem upheld : rules.Upheld Fresh code := by
  intro task t s w hs hnone hw
  cases task with
  | sign confirm =>
    have hstarted : rules.Legal s t (.started (.sign confirm)) (s.push t (.started (.sign confirm)) w) :=
      .started hnone hw
    have hat : At false none (s.push t (.started (.sign confirm)) w) t := by
      refine ⟨.act hs hstarted, .of_last hstarted.last_self nofun, nofun, ?_⟩
      have hacts : s.acts t = [] := by
        simpa [Stage.acts] using Stage.last_eq_none.mp hnone
      rw [settles_of_unmarked hstarted rfl, settles, hacts]
      rfl
    refine Rules.wp_seq (answerFor_spec hat confirm) ?_
    rintro ⟨_ | answer, gate⟩ s₁ ⟨h₁, hgiven⟩
    · exact drop_spec h₁
    · exact signApproved_spec h₁ (hgiven answer rfl)

end

/-! ### Answered once -/

/-- What is filed is filed while a signature on a yes is settled, and is not asked for again. -/
structure AnsweredOnce (P : Pool stepwise) : Prop where
  filed : ∀ newer x older question epoch, P.stage.history = newer ++ x :: older →
    x.act = .answered (.file question epoch) () → SettlesIn ⟨x.before, older⟩ x.tid question epoch
  /-- No prompt for a question goes up in the epoch the question has been filed in. -/
  shown : ∀ newer x older question epoch, P.stage.history = newer ++ x :: older →
    x.act = .answered (.file question epoch) () → ∀ y ∈ newer, ∀ ctx,
      y.act = .began (.confirm ctx) → approvalQuestion ctx = some question →
        y.before.epoch.locks ≠ epoch
  /-- Nor is one up from before. -/
  standing : ∀ question epoch, Filed P.stage question epoch →
    P.stage.shared.epoch.locks = epoch → ∀ u ctx,
      P.stage.last u = some (.began (.confirm ctx)) → approvalQuestion ctx ≠ some question
  /-- Filing drops nothing that was filed in the current epoch. -/
  retained : ∀ x ∈ P.stage.history, ∀ question epoch, x.act = .answered (.file question epoch) () →
    ∀ other, x.before.approvals.remembered other = some x.before.epoch.locks →
      x.after.approvals.remembered other = some x.before.epoch.locks
  /-- Given answers are settled one at a time. -/
  apart : ∀ t u, SettlesGiven P.stage t → SettlesGiven P.stage u → t = u

section

variable {P : Pool stepwise} {newer older : List (Entry stepwise)} {x : Entry stepwise}
  {question : String} {epoch : ℕ}

theorem filing_of_cut (h : Reachable P) (hcut : P.stage.history = newer ++ x :: older)
    (hact : x.act = .answered (.file question epoch) ()) : ∃ s₀ : Stage stepwise, Lawful s₀ ∧
      s₀ = ⟨x.before, older⟩ ∧ s₀.last x.tid = some (.began (.file question epoch)) ∧
      x.after = { x.before with approvals := x.before.approvals.file question epoch } := by
  obtain ⟨s₀, h₀, rfl, hbefore, heffect, hlast⟩ :=
    (upheld.orderly h).lawful.answered_of_cut hcut hact
  obtain ⟨shared, history⟩ := s₀
  exact ⟨_, h₀, by rw [← hbefore], hlast, (Option.some.inj heffect).symm⟩

theorem shown_of_filed (h : Reachable P) (hcut : P.stage.history = newer ++ x :: older)
    (hact : x.act = .answered (.file question epoch) ()) {y : Entry stepwise} (hy : y ∈ newer)
    {ctx : ConfirmContext} (hya : y.act = .began (.confirm ctx))
    (hquestion : approvalQuestion ctx = some question) : y.before.epoch.locks ≠ epoch := by
  rintro rfl
  obtain ⟨later, mid, rfl⟩ := List.append_of_mem hy
  have hcut' : P.stage.history = later ++ y :: (mid ++ x :: older) := by simp [hcut]
  obtain ⟨s₀, -, hhistory, hbefore, -, hmay⟩ := (upheld.orderly h).lawful.began_of_cut hcut' hya
  have hunfiled : Unfiled s₀ ctx := hmay.2
  refine hunfiled question hquestion ⟨x, ?_, ?_⟩
  · rw [hhistory]
    simp
  · rw [hbefore, hact]

/-- However requests and locks interleave, an answered question is not asked twice. -/
theorem answered_once (h : Reachable P) : AnsweredOnce P where
  filed newer x older question epoch hcut hact := by
    obtain ⟨s₀, h₀, rfl, hlast, -⟩ := filing_of_cut h hcut hact
    exact ((sound h₀).filing _ question epoch hlast).2.2.1
  shown newer x older question epoch hcut hact y hy ctx := shown_of_filed h hcut hact hy
  standing question epoch hfiled hepoch u ctx hlast hquestion := by
    have hunfiled := ((sound (upheld.orderly h).lawful).confirming u ctx hlast).2
    exact hunfiled question hquestion (hepoch ▸ hfiled)
  retained x hx question epoch hact other hremembered := by
    obtain ⟨newer, older, hcut⟩ := List.append_of_mem hx
    obtain ⟨s₀, h₀, rfl, hlast, hafter⟩ := filing_of_cut h hcut hact
    rw [hafter]
    exact (sound h₀).file_current hlast (.inl ((sound h₀).remembered other _ hremembered))
  apart t u ht hu := by
    have hs := sound (upheld.orderly h).lawful
    exact Option.some.inj ((hs.settling t ht).symm.trans (hs.settling u hu))

end

/-! ### One prompt for two requests -/

def ctx : ConfirmContext where
  keyName := "plain"
  fingerprint := "SHA256:0WfFJFesqXKxE3C4SGTzZ/+mb3AzYvhjoxgKemT4FQw"
  itemId := "11"
  peer := some ⟨some 7, 501⟩
  requester := some ⟨"/usr/bin/ssh", []⟩
  bindings := []

def fresh : Shared := ⟨none, {}, ⟨true, fun _ => none⟩⟩

theorem reachable_fresh : Reachable (.start fresh) := ⟨fresh, ⟨rfl, fun _ => rfl⟩, .refl⟩

/-- The vault is open, the user says yes, and `found` is what was remembered. -/
def answer (found : Option ℕ) : (q : Query) → q.Answer
  | .gate => ()
  | .release => ()
  | .snapshot => ctx
  | .current => (0 : ℕ)
  | .lookup _ => found
  | .confirm _ => Decision.approve
  | .fetch => false
  | .sign => ⟨false, true⟩
  | .bump => ()
  | .file _ _ => ()

def go (t : ℕ) : Move stepwise := .reply t (answer none)

/-- Request 2 looks its question up and waits for the gate; request 1 is asked, signs, files
the yes and gives the gate back; request 2 looks again. -/
def waiting : List (Move stepwise) :=
  [.spawn 1 (.sign true), .spawn 2 (.sign true), go 1, go 1, go 1, go 1, go 2, go 2, go 2,
    go 1, go 1, go 1, go 1, go 1, go 1, go 1, go 1, go 1, go 1, go 2, go 2, go 2,
    .reply 2 (answer (some 0))]

def isFile : Act stepwise → Bool
  | .answered (.file _ epoch) _ => epoch == 0
  | _ => false

def isFound : Act stepwise → Bool
  | .answered (.lookup _) (found : Option ℕ) => found == some 0
  | _ => false

def isPrompt : Act stepwise → Bool
  | .began (.confirm _) => true
  | _ => false

/-- Request 1 has filed its answer, request 2 has found it, and one prompt was shown. -/
def FoundFiled (history : List (Entry stepwise)) : Prop :=
  (∃ x ∈ history, x.tid = 1 ∧ isFile x.act = true) ∧
    (∃ x ∈ history, x.tid = 2 ∧ isFound x.act = true) ∧
    (history.filter fun x => isPrompt x.act).length = 1

instance (history : List (Entry stepwise)) : Decidable (FoundFiled history) :=
  inferInstanceAs (Decidable (_ ∧ _))

theorem answered_once_waiting :
    ∃ P, Reachable P ∧ FoundFiled P.stage.history ∧ AnsweredOnce P := by
  obtain ⟨P, hP, hrun⟩ := Pool.exists_of_plays (p := fun P => FoundFiled P.stage.history)
    reachable_fresh (show ∃ P ∈ Pool.plays code (.start fresh) waiting,
      FoundFiled P.stage.history by decide +kernel)
  exact ⟨P, hP, hrun, answered_once hP⟩

end Stepwise

end LastpassSshAgent
