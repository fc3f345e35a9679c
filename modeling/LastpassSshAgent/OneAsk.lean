import LastpassSshAgent.VaultHistories

/-!
# One ask per lock

Whoever finds nothing held asks, with the lock, and everybody behind is served from what
that comes to. The counter of unlocks counts the asks.
-/

namespace LastpassSshAgent

open Resumption

namespace VaultCall

variable {unlock : Unlock} {t u : ℕ} {s s' : Stage vaultCalls} {act prior : Act vaultCalls}

def Consults : Query → Prop
  | .masterStore => True
  | .prompt _ => True
  | _ => False

def Succeeds (x : Entry vaultCalls) : Prop :=
  ∃ secret source, x.act = .noted (.inl (.holding secret source))

/-- The first thing a resolve does: the store is asked, or the prompt without it. -/
def opens (x : Entry vaultCalls) (older : List (Entry vaultCalls)) : Bool :=
  match x.act with
  | .began .masterStore => true
  | .began (.prompt _) =>
    match (older.find? (·.tid == x.tid)).map Entry.act with
    | some (.answered .masterStore _) => false
    | _ => true
  | _ => false

def resolves : List (Entry vaultCalls) → ℕ
  | [] => 0
  | x :: older => resolves older + if opens x older then 1 else 0

/-! ### What comes next -/

theorem act_of_locked (h : Lawful unlock s) (hl : (rules unlock).Legal s t act s')
    (hlock : s.shared.heldLock = some t) (hlast : s.last t = some prior)
    (hbegan : ∀ q, prior ≠ .began q) :
    (∃ q, act = .began q ∧ Consults q ∧ MayBegin unlock s t q) ∨
      ∃ e, act = .noted (.inl e) ∧ MayNote s t e := by
  cases hl with
  | started hnone _ => exact absurd (hnone.symm.trans hlast) nofun
  | @began q _ hr =>
    refine .inl ⟨q, rfl, ?_, hr⟩
    cases q with
    | masterStore => trivial
    | prompt request => trivial
    | held => exact absurd hlock hr.1
    | lpass args password maxBytes => exact absurd hlock hr.1
    | _ => exact hr.elim
  | @answered q _ _ hq _ => exact absurd (Option.some.inj (hlast.symm.trans hq)) (hbegan q)
  | @noted e _ hr =>
    cases e with
    | inl e => exact .inr ⟨e, rfl, hr⟩
    | inr supplied =>
      obtain ⟨released, rest, hown, hact, -⟩ := hr
      exact absurd hlock (free_of_released h hown hact)
  | ended _ hr => exact absurd hlock hr.1

theorem begins_after (hlast : s.last t = some prior) {q : Query} (hr : MayBegin unlock s t q)
    (hq : Consults q) : (prior = .noted (.inl .asked) ∧ q = unlock.consults s.shared) ∨
      ∃ answer, prior = .answered .masterStore answer ∧ usable answer = none ∧ q = .prompt .master := by
  cases q with
  | masterStore => exact .inl ⟨Option.some.inj (hlast.symm.trans hr.2.1), hr.2.2.symm⟩
  | prompt request =>
    obtain ⟨-, rfl, ⟨hasked, hc⟩ | ⟨answer, hstore, hu⟩⟩ := hr
    · exact .inl ⟨Option.some.inj (hlast.symm.trans hasked), hc.symm⟩
    · exact .inr ⟨answer, Option.some.inj (hlast.symm.trans hstore), hu, rfl⟩
  | _ => exact hq.elim

theorem notes_after (hlast : s.last t = some prior) (hgranted : prior ≠ .answered .held ())
    {e : Event} (hr : MayNote s t e) : (e = .heldReleased ∧ MayRelease s t) ∨
      ∃ secret source, e = .holding secret source ∧ Sourced s t secret source := by
  have hno : ¬ Granted s t := fun h => hgranted (Option.some.inj (hlast.symm.trans h.2))
  cases e with
  | heldReleased => exact .inl ⟨rfl, hr.2⟩
  | holding secret source => exact .inr ⟨secret, source, rfl, hr.2⟩
  | asked => exact absurd hr.1 hno
  | touched => exact absurd hr.1 hno
  | rejected => exact absurd hr.1 hno
  | forgotten => exact absurd hr.1 hno
  | expired => exact absurd hr.1 hno
  | _ => exact hr.elim

theorem sourced_after (hlast : s.last t = some prior) {secret : Bytes} {source : Source}
    (h : Sourced s t secret source) :
    (source = .store ∧ ∃ answer, prior = .answered .masterStore answer ∧
        usable answer = some secret) ∨
      source = .prompt ∧ ∃ request answer, prior = .answered (.prompt request) answer ∧
        typed answer = some secret := by
  cases source with
  | store =>
    obtain ⟨answer, heq, hu⟩ := h
    exact .inl ⟨rfl, answer, Option.some.inj (hlast.symm.trans heq), hu⟩
  | prompt =>
    obtain ⟨request, answer, heq, ht⟩ := h
    exact .inr ⟨rfl, request, answer, Option.some.inj (hlast.symm.trans heq), ht⟩

theorem releases_after (hlast : s.last t = some prior) (h : MayRelease s t) :
    (prior = .answered .held () ∧ (s.Did t (.started (.password true)) → s.shared.held ≠ none)) ∨
      (∃ request answer, prior = .answered (.prompt request) answer ∧ typed answer = none) ∨
      ∃ e, prior = .noted (.inl e) ∧ e ≠ .asked := by
  have hsome : ∀ {a}, s.last t = some a → prior = a := fun ha =>
    Option.some.inj (hlast.symm.trans ha)
  rcases h with ⟨hg, hheld⟩ | ⟨request, answer, hp, ht, -⟩ | ⟨secret, source, hh⟩ | h | h | h | h
  · exact .inl ⟨hsome hg, hheld⟩
  · exact .inr (.inl ⟨request, answer, hsome hp, ht⟩)
  · exact .inr (.inr ⟨_, hsome hh, nofun⟩)
  · exact .inr (.inr ⟨_, hsome h, nofun⟩)
  · exact .inr (.inr ⟨_, hsome h, nofun⟩)
  · exact .inr (.inr ⟨_, hsome h, nofun⟩)
  · exact .inr (.inr ⟨_, hsome h, nofun⟩)

section after

variable (h : Lawful unlock s) (hl : (rules unlock).Legal s t act s')

include h hl

theorem act_after_asked (hlast : s.last t = some (.noted (.inl .asked))) :
    act = .began (unlock.consults s.shared) := by
  have hlock := (standing h hlast).1 trivial
  rcases act_of_locked h hl hlock hlast nofun with ⟨q, rfl, hq, hr⟩ | ⟨e, rfl, hr⟩
  · rcases begins_after hlast hr hq with ⟨-, rfl⟩ | ⟨answer, habsurd, -⟩
    · rfl
    · exact nomatch habsurd
  · rcases notes_after hlast nofun hr with ⟨rfl, hrelease⟩ | ⟨secret, source, rfl, hsource⟩
    · rcases releases_after hlast hrelease with ⟨hg, -⟩ | ⟨_, _, hp, -⟩ | ⟨e, he, hne⟩
      · exact nomatch hg
      · exact nomatch hp
      · exact absurd (Sum.inl.inj (Act.noted.inj he)).symm hne
    · rcases sourced_after hlast hsource with ⟨-, _, hs, -⟩ | ⟨-, _, _, hp, -⟩
      · exact nomatch hs
      · exact nomatch hp

theorem act_after_store {answer : Except String (Option Bytes)}
    (hlast : s.last t = some (.answered .masterStore answer)) :
    act = (usable answer).elim (.began (.prompt .master)) fun secret =>
      .noted (.inl (.holding secret .store)) := by
  have hlock := (standing h hlast).1 trivial
  rcases act_of_locked h hl hlock hlast nofun with ⟨q, rfl, hq, hr⟩ | ⟨e, rfl, hr⟩
  · rcases begins_after hlast hr hq with ⟨habsurd, -⟩ | ⟨answer', heq, hu, rfl⟩
    · exact nomatch habsurd
    · cases heq
      rw [hu]
      rfl
  · rcases notes_after hlast nofun hr with ⟨rfl, hrelease⟩ | ⟨secret, source, rfl, hsource⟩
    · rcases releases_after hlast hrelease with ⟨hg, -⟩ | ⟨_, _, hp, -⟩ | ⟨e, he, -⟩
      · exact nomatch hg
      · exact nomatch hp
      · exact nomatch he
    · rcases sourced_after hlast hsource with ⟨rfl, answer', hs, hu⟩ | ⟨-, _, _, hp, -⟩
      · cases hs
        rw [hu]
        rfl
      · exact nomatch hp

theorem act_after_prompt {request : PassphraseRequest} {answer : Except PromptError Bytes}
    (hlast : s.last t = some (.answered (.prompt request) answer)) :
    act = (typed answer).elim (.noted (.inl .heldReleased)) fun secret =>
      .noted (.inl (.holding secret .prompt)) := by
  have hlock := (standing h hlast).1 trivial
  rcases act_of_locked h hl hlock hlast nofun with ⟨q, rfl, hq, hr⟩ | ⟨e, rfl, hr⟩
  · rcases begins_after hlast hr hq with ⟨habsurd, -⟩ | ⟨answer', habsurd, -⟩
    · exact nomatch habsurd
    · exact nomatch habsurd
  · rcases notes_after hlast nofun hr with ⟨rfl, hrelease⟩ | ⟨secret, source, rfl, hsource⟩
    · rcases releases_after hlast hrelease with ⟨hg, -⟩ | ⟨_, answer', hp, hnone⟩ | ⟨e, he, -⟩
      · exact nomatch hg
      · cases hp
        rw [hnone]
        rfl
      · exact nomatch he
    · rcases sourced_after hlast hsource with ⟨-, _, hs, -⟩ | ⟨rfl, _, answer', hp, hsome⟩
      · exact nomatch hs
      · cases hp
        rw [hsome]
        rfl

/-- A call of `password` that finds something held gives the lock back at once; one that
finds nothing asks, if it may. -/
theorem act_after_granted {ask : Bool} (hdid : s.Did t (.started (.password ask)))
    (hlast : s.last t = some (.answered .held ())) :
    (act = .noted (.inl .heldReleased) ∧ (ask = true → s.shared.held ≠ none)) ∨
      act = .noted (.inl .asked) ∧ s.shared.held = none := by
  have hlock := (standing h hlast).1 trivial
  have honce : ∀ {call}, s.Did t (.started call) → call = .password ask := fun hcall =>
    h.started_once hcall hdid
  rcases act_of_locked h hl hlock hlast nofun with ⟨q, rfl, hq, hr⟩ | ⟨e, rfl, hr⟩
  · rcases begins_after hlast hr hq with ⟨habsurd, -⟩ | ⟨answer', habsurd, -⟩
    · exact nomatch habsurd
    · exact nomatch habsurd
  · cases e with
    | heldReleased =>
      refine .inl ⟨rfl, ?_⟩
      rintro rfl
      rcases releases_after hlast hr.2 with ⟨-, hheld⟩ | ⟨_, _, hp, -⟩ | ⟨e, he, -⟩
      · exact hheld hdid
      · exact nomatch hp
      · exact nomatch he
    | asked => exact .inr ⟨rfl, hr.2.1⟩
    | holding secret source =>
      rcases sourced_after hlast hr.2 with ⟨-, _, hs, -⟩ | ⟨-, _, _, hp, -⟩
      · exact nomatch hs
      · exact nomatch hp
    | touched =>
      rcases hr.2 with hcall | ⟨args, maxBytes, hcall⟩
      · exact nomatch honce hcall
      · exact nomatch honce hcall
    | rejected =>
      rcases hr.2 with hcall | ⟨source, args, maxBytes, hcall, -⟩
      · exact nomatch honce hcall
      · exact nomatch honce hcall
    | forgotten => exact nomatch honce hr.2
    | expired => exact nomatch honce hr.2
    | _ => exact hr.elim

theorem act_after_released {ask : Bool} {x : Entry vaultCalls} {rest : List (Entry vaultCalls)}
    (hdid : s.Did t (.started (.password ask))) (hown : s.own t = x :: rest)
    (hact : x.act = .noted (.inl .heldReleased)) :
    ∃ result, act = .noted (.inr ⟨ask, result⟩) ∧ Comes ask x.before.held result := by
  have hlast : s.last t = some (.noted (.inl .heldReleased)) := by
    rw [Stage.last_eq_own, hown]
    exact congrArg some hact
  have hfree := free_of_released h hown hact
  cases hl with
  | started hnone _ => exact absurd (hnone.symm.trans hlast) nofun
  | @began q _ hr =>
    cases q with
    | held =>
      have honly := hr.2 ask hdid
      rw [Stage.acts_eq_own, hown, List.map_cons, hact] at honly
      exact nomatch honly
    | masterStore => exact absurd hr.1.1 hfree
    | prompt request => exact absurd hr.1.1 hfree
    | lpass args password maxBytes =>
      obtain ⟨-, source, args, maxBytes, hrun⟩ := hr
      exact nomatch h.started_once hrun hdid
    | _ => exact hr.elim
  | answered hq _ => exact nomatch Option.some.inj (hlast.symm.trans hq)
  | @noted e _ hr =>
    cases e with
    | inl e => exact absurd (locked_of_mayNote hr) hfree
    | inr supplied =>
      obtain ⟨released, rest', hown', -, hsupplied, hcomes⟩ := hr
      obtain ⟨rfl, -⟩ := List.cons.inj (hown.symm.trans hown')
      obtain ⟨rfl⟩ := VaultCall.password.inj (h.started_once hsupplied hdid)
      exact ⟨supplied.result, rfl, hcomes⟩
  | ended _ hr =>
    obtain ⟨supplied, hreport⟩ := hr.2 ask hdid
    exact nomatch Option.some.inj (hlast.symm.trans hreport)

end after

/-! ### Who asks, and how often -/

theorem asked_of_asks (h : Lawful unlock s) (hlast : s.last t = some act) (ha : Asks act) :
    s.Did t (.noted (.inl .asked)) := by
  induction h generalizing act with
  | start _ => exact absurd hlast nofun
  | @act s s' u act' _ hl ih =>
    have hsuffix : s.history <:+ s'.history := hl.history ▸ List.suffix_cons _ _
    by_cases hut : u = t
    · subst hut
      obtain rfl := Option.some.inj (hl.last_self.symm.trans hlast)
      cases hl with
      | @began q _ hr =>
        cases q with
        | masterStore => exact (ih hr.2.1 trivial).mono hsuffix
        | prompt request =>
          rcases hr.2.2 with ⟨hasked, -⟩ | ⟨answer, hstore, -⟩
          · exact (ih hasked trivial).mono hsuffix
          · exact (ih hstore trivial).mono hsuffix
        | _ => exact ha.elim
      | @answered q a _ hq _ =>
        cases q with
        | masterStore => exact (ih hq trivial).mono hsuffix
        | prompt request => exact (ih hq trivial).mono hsuffix
        | _ => exact ha.elim
      | @noted e _ _ =>
        cases e with
        | inr supplied => exact ha.elim
        | inl e =>
          cases e with
          | asked => exact Stage.did_push_self _ _ _ _
          | _ => exact ha.elim
      | started _ _ => exact ha.elim
      | ended _ _ => exact ha.elim
    · exact (ih ((hl.last_of_ne hut).symm.trans hlast) ha).mono hsuffix
  | drift d _ ih => exact ih hlast ha

theorem asked_of_consults (h : Lawful unlock s) {q : Query} (hq : Consults q)
    (hdid : s.Did t (.began q)) : s.Did t (.noted (.inl .asked)) := by
  obtain ⟨x, hx, rfl, hact⟩ := hdid
  obtain ⟨newer, older, hs⟩ := List.append_of_mem hx
  obtain ⟨s₀, h₀, hh, -, -, hr⟩ := h.began_of_cut hs hact
  have hsuffix : s₀.history <:+ s.history := hh ▸ suffix_of_cut hs
  cases q with
  | masterStore => exact (asked_of_asks h₀ hr.2.1 trivial).mono hsuffix
  | prompt request =>
    rcases hr.2.2 with ⟨hasked, -⟩ | ⟨answer, hstore, -⟩
    · exact (asked_of_asks h₀ hasked trivial).mono hsuffix
    · exact (asked_of_asks h₀ hstore trivial).mono hsuffix
  | _ => exact hq.elim

theorem mayAsk_of_asked (h : Lawful unlock s) (hdid : s.Did t (.noted (.inl .asked))) :
    MayAsk s t := by
  obtain ⟨x, hx, rfl, hact⟩ := hdid
  obtain ⟨newer, older, hs⟩ := List.append_of_mem hx
  obtain ⟨s₀, -, hh, -, -, hr⟩ := h.noted_of_cut hs hact
  have hsuffix : s₀.history <:+ s.history := hh ▸ suffix_of_cut hs
  exact hr.2.2.1.imp (·.mono hsuffix) fun ⟨args, maxBytes, hcall⟩ =>
    ⟨args, maxBytes, hcall.mono hsuffix⟩

theorem ask_of_asked {ask : Bool} (h : Lawful unlock s) (hdid : s.Did t (.noted (.inl .asked)))
    (hcall : s.Did t (.started (.password ask))) : ask = true := by
  rcases mayAsk_of_asked h hdid with hask | ⟨args, maxBytes, hrun⟩
  · exact VaultCall.password.inj (h.started_once hcall hask)
  · exact nomatch h.started_once hcall hrun

theorem waits_first {ask : Bool} (h : Lawful unlock s) (hdid : s.Did t (.started (.password ask)))
    (hlast : s.last t = some (.began .held)) :
    s.acts t = [.began .held, .started (.password ask)] := by
  induction h with
  | start _ => exact absurd hlast nofun
  | @act s s' u act _ hl ih =>
    by_cases hut : u = t
    · subst hut
      rw [hl.acts]
      rw [Stage.did_iff, hl.acts, List.mem_cons, ← Stage.did_iff] at hdid
      obtain rfl := Option.some.inj (hl.last_self.symm.trans hlast)
      cases hl with
      | began _ hr => rw [hr.2 ask (hdid.resolve_left nofun), List.nil_append]
    · rw [hl.acts_of_ne hut]
      rw [Stage.did_iff, hl.acts_of_ne hut, ← Stage.did_iff] at hdid
      exact ih hdid ((hl.last_of_ne hut).symm.trans hlast)
  | drift d _ ih => exact ih hdid hlast

/-- A call of `password` that is granted the lock while something is held asks nobody, then
or ever. -/
theorem unasked_of_held {ask : Bool} {x : Entry vaultCalls} (h : Lawful unlock s)
    (hdid : s.Did x.tid (.started (.password ask))) (hx : x ∈ s.history)
    (hact : x.act = .answered .held ()) (hheld : x.before.held ≠ none) :
    ¬ s.Did x.tid (.noted (.inl .asked)) := by
  rintro ⟨y, hy, hyx, hasked⟩
  rcases cut_two hx hy with rfl | ⟨newer, older, hs, hmem⟩ | ⟨newer, older, hs, hmem⟩
  · exact nomatch hact.symm.trans hasked
  · -- It waits for the lock once, so it cannot have asked before.
    obtain ⟨s₀, h₀, hh, -, -, hlast⟩ := h.answered_of_cut hs hact
    obtain ⟨call, hcall⟩ := h₀.started (t := x.tid) (by simp [hlast])
    have hsuffix : s₀.history <:+ s.history := hh ▸ suffix_of_cut hs
    obtain rfl := h.started_once (hcall.mono hsuffix) hdid
    have hin : Act.noted (I := vaultCalls) (.inl .asked) ∈ s₀.acts x.tid :=
      Stage.did_iff.mp ⟨y, hh ▸ hmem, hyx, hasked⟩
    rw [waits_first h₀ hcall hlast] at hin
    simp at hin
  · obtain ⟨s₀, h₀, hh, -, -, hr⟩ := h.noted_of_cut hs hasked
    rw [hyx] at hr
    obtain ⟨⟨hlock, hlast⟩, hnone, -, honly⟩ := hr
    have hsuffix : s₀.history <:+ s.history := hh ▸ suffix_of_cut hs
    obtain ⟨call, hcall⟩ := h₀.started (t := x.tid) (by simp [hlast])
    obtain rfl := h.started_once (hcall.mono hsuffix) hdid
    have hacts := honly ask hcall
    have hown : x ∈ s₀.own x.tid := Stage.mem_own.mpr ⟨hh ▸ hmem, rfl⟩
    rw [Stage.acts_eq_own] at hacts
    obtain ⟨granted, rest, hcons, hgranted, hrest⟩ := List.map_eq_cons_iff.mp hacts
    obtain rfl : x = granted := by
      rw [hcons, List.mem_cons] at hown
      refine hown.resolve_right fun hin => ?_
      have hin' : x.act ∈ rest.map Entry.act := List.mem_map_of_mem hin
      rw [hrest, hact] at hin'
      simp at hin'
    obtain ⟨newer', older', hs'⟩ := List.append_of_mem hx
    obtain ⟨-, -, -, -, heffect, -⟩ := h.answered_of_cut hs' hact
    obtain ⟨-, hafter⟩ := World.effect_held (a := ()) heffect
    have hstill := still_since_own h₀ hcons
    rw [hafter] at hstill
    exact hheld ((hstill.held rfl).symm.trans hnone)

theorem legal_unlocks (h : (rules unlock).Legal s t act s') (ha : act ≠ .noted (.inl .asked)) :
    s'.shared.epoch.unlocks = s.shared.epoch.unlocks := by
  cases h with
  | started _ hx => rw [Stage.push_shared, ← Option.some.inj hx]
  | began _ _ => rfl
  | answered _ hx => rw [Stage.push_shared, World.effect_eq hx]
  | @noted e _ _ =>
    cases e with
    | inr supplied => rfl
    | inl e => exact World.apply_unlocks fun he => ha (he ▸ rfl)
  | ended _ _ => rfl

theorem asked_unique (h : Lawful unlock s) (ht : s.last t = some (.noted (.inl .asked)))
    (hu : s.shared.heldLock = some u) : t = u :=
  Option.some.inj (((standing h ht).1 trivial).symm.trans hu)

/-- The counter of unlocks is the number of resolves, but for one about to start. -/
def Counted (s : Stage vaultCalls) : Prop :=
  (s.shared.epoch.unlocks = resolves s.history ∧ ∀ t, s.last t ≠ some (.noted (.inl .asked))) ∨
    s.shared.epoch.unlocks = resolves s.history + 1 ∧ ∃ t, s.last t = some (.noted (.inl .asked))

theorem resolves_of_legal (hl : (rules unlock).Legal s t act s') : resolves s'.history =
    resolves s.history + if opens ⟨t, act, s.shared, s'.shared⟩ s.history then 1 else 0 := by
  rw [hl.history]
  rfl

theorem Counted.of_asked (hs : Lawful unlock s)
    (hl : (rules unlock).Legal s t (.noted (.inl .asked)) s') (h : Counted s) : Counted s' := by
  have hcount := resolves_of_legal hl
  have hunlocks : s'.shared.epoch.unlocks = s.shared.epoch.unlocks + 1 := by
    cases hl
    rfl
  obtain ⟨hlock, hgranted⟩ : Granted s t := by
    cases hl with
    | noted _ hr => exact hr.1
  rcases h with ⟨hn, -⟩ | ⟨-, u, hu⟩
  · exact .inr ⟨by rw [hunlocks, hn, hcount]; rfl, t, hl.last_self⟩
  · obtain rfl := asked_unique hs hu hlock
    exact nomatch hu.symm.trans hgranted

theorem Counted.after_asked (hs : Lawful unlock s) (hl : (rules unlock).Legal s t act s')
    (hnext : s.last t = some (.noted (.inl .asked))) (h : Counted s) : Counted s' := by
  have hcount := resolves_of_legal hl
  have hlock := (standing hs hnext).1 trivial
  obtain rfl := act_after_asked hs hl hnext
  have hunlocks := legal_unlocks hl nofun
  have hopens : opens ⟨t, .began (unlock.consults s.shared), s.shared, s'.shared⟩
      s.history = true := by
    have hfind : (s.history.find? (·.tid == t)).map Entry.act = _ := hnext
    unfold Unlock.consults
    split_ifs
    · rfl
    · simp only [opens, hfind]
  rcases h with ⟨-, hno⟩ | ⟨hn, -⟩
  · exact absurd hnext (hno t)
  · refine .inl ⟨by rw [hunlocks, hn, hcount, if_pos hopens], fun u hu => ?_⟩
    by_cases hut : t = u
    · subst hut
      exact nomatch hl.last_self.symm.trans hu
    · exact hut (asked_unique hs ((hl.last_of_ne hut).symm.trans hu) hlock).symm

theorem Counted.of_other (hl : (rules unlock).Legal s t act s')
    (hasked : act ≠ .noted (.inl .asked)) (hnext : s.last t ≠ some (.noted (.inl .asked)))
    (h : Counted s) : Counted s' := by
  have hopens : opens ⟨t, act, s.shared, s'.shared⟩ s.history = false := by
    cases hl with
    | @began q _ hr =>
      cases q with
      | masterStore => exact absurd hr.2.1 hnext
      | prompt request =>
        rcases hr.2.2 with ⟨habsurd, -⟩ | ⟨answer, hstore, -⟩
        · exact absurd habsurd hnext
        · have hfind : (s.history.find? (·.tid == t)).map Entry.act = _ := hstore
          simp only [opens, hfind]
      | _ => rfl
    | _ => rfl
  have hsame : resolves s'.history = resolves s.history := by
    rw [resolves_of_legal hl, hopens]
    rfl
  have hlast : ∀ u, s'.last u = some (.noted (.inl .asked)) ↔
      s.last u = some (.noted (.inl .asked)) := by
    intro u
    by_cases hut : t = u
    · subst hut
      exact iff_of_false (by simp [hl.last_self, hasked]) hnext
    · rw [hl.last_of_ne hut]
  rw [Counted, legal_unlocks hl hasked, hsame]
  simp only [hlast, Ne]
  exact h

theorem counted (h : Lawful unlock s) : Counted s := by
  induction h with
  | start hx => exact .inl ⟨by rw [hx.epoch]; rfl, fun t => nofun⟩
  | @act s s' u act hs hl ih =>
    by_cases hasked : act = .noted (.inl .asked)
    · subst hasked
      exact ih.of_asked hs hl
    · by_cases hnext : s.last u = some (.noted (.inl .asked))
      · exact ih.after_asked hs hl hnext
      · exact ih.of_other hl hasked hnext
  | drift d _ ih =>
    cases d <;> exact ih

/-! ### One ask -/

/-- What a call of `password` that is not served at once comes to, and what the others get. -/
structure OneAsk (unlock : Unlock) (s : Stage vaultCalls) : Prop where
  consulting : ∀ t q, s.last t = some (.began q) → Consults q →
    s.shared.heldLock = some t ∧ s.shared.held = none
  alone : ∀ t q u r, s.last t = some (.began q) → Consults q → s.last u = some (.began r) →
    Consults r → t = u
  once : ∀ newer x mid y older, s.history = newer ++ x :: (mid ++ y :: older) → Succeeds x →
    Succeeds y → ∃ z ∈ mid, Drops z
  served : ∀ newer x mid y older secret source ask,
    s.history = newer ++ x :: (mid ++ y :: older) →
    y.act = .noted (.inl (.holding secret source)) → (∀ z ∈ mid, ¬ Drops z) →
    x.act = .answered .held () → s.Did x.tid (.started (.password ask)) →
    (∃ released returned, Follows s.history x released ∧
      released.act = .noted (.inl .heldReleased) ∧ Follows s.history released returned ∧
      returned.act = .noted (.inr ⟨ask, .ok (some secret)⟩)) ∧
    ∀ q, Consults q → ¬ s.Did x.tid (.began q)
  counted : s.shared.epoch.unlocks = resolves s.history
  asked : ∀ x ∈ s.history, x.act = .noted (.inl .asked) →
    ∃ y, Follows s.history x y ∧ y.act = .began (unlock.consults x.after)
  store : ∀ x ∈ s.history, ∀ answer, x.act = .answered .masterStore answer →
    ∃ y, Follows s.history x y ∧ y.act = (usable answer).elim (.began (.prompt .master))
      fun secret => .noted (.inl (.holding secret .store))
  answered : ∀ x ∈ s.history, ∀ request answer secret,
    x.act = .answered (.prompt request) answer → typed answer = some secret →
    secret ≠ [] ∧ ∃ y, Follows s.history x y ∧ y.act = .noted (.inl (.holding secret .prompt))
  refused : ∀ x ∈ s.history, ∀ request answer, x.act = .answered (.prompt request) answer →
    typed answer = none → ∃ released, Follows s.history x released ∧
      released.act = .noted (.inl .heldReleased) ∧ released.after.held = none ∧
      ∀ ask, s.Did x.tid (.started (.password ask)) → ∃ returned e,
        Follows s.history released returned ∧ returned.act = .noted (.inr ⟨ask, .error e⟩)
  quiet : ∀ t, s.Did t (.started (.password false)) → ∀ q, Consults q → ¬ s.Did t (.began q)
  returned : ∀ y ∈ s.history, ∀ supplied, y.act = .noted (.inr supplied) →
    s.Did y.tid (.started (.password supplied.ask)) ∧ ∃ x, Follows s.history x y ∧
      x.act = .noted (.inl .heldReleased) ∧ Comes supplied.ask x.before.held supplied.result

/-- What the thread of `x` did right after it, and the stage it did that at. -/
structure Next (unlock : Unlock) (s : Stage vaultCalls) (x y : Entry vaultCalls)
    (s₀ : Stage vaultCalls) : Prop where
  follows : Follows s.history x y
  lawful : Lawful unlock s₀
  before : s₀.shared = y.before
  own : ∃ rest, s₀.own x.tid = x :: rest
  suffix : s₀.history <:+ s.history
  did : ∀ call, s.Did x.tid (.started call) → s₀.Did x.tid (.started call)
  legal : (rules unlock).Legal s₀ x.tid y.act ⟨y.after, y :: s₀.history⟩

section run

variable {P : Pool vaultCalls} {x y : Entry vaultCalls} {s₀ : Stage vaultCalls} {ask : Bool}

theorem Next.last (h : Next unlock s x y s₀) : s₀.last x.tid = some x.act := by
  obtain ⟨rest, hown⟩ := h.own
  rw [Stage.last_eq_own, hown]
  rfl

theorem Next.still (h : Next unlock s x y s₀) : Still x.tid x.after y.before := by
  obtain ⟨rest, hown⟩ := h.own
  exact h.before ▸ still_since_own h.lawful hown

theorem exists_next (hP : (rules unlock).Orderly Fresh P) (hx : x ∈ P.stage.history)
    (hended : x.act ≠ .ended) (hbegan : ∀ q, x.act ≠ .began q) :
    ∃ y s₀, Next unlock P.stage x y s₀ := by
  obtain ⟨y, s₀, hfollows, h₀, hbefore, ⟨rest, hown⟩, hsuffix, hl⟩ := hP.follows hx hended hbegan
  refine ⟨y, s₀, hfollows, h₀, hbefore, ⟨rest, hown⟩, hsuffix, fun call hcall => ?_, hl⟩
  obtain ⟨call', hcall'⟩ := h₀.started (t := x.tid) (by simp [Stage.last_eq_own, hown])
  exact hP.lawful.started_once (hcall'.mono hsuffix) hcall ▸ hcall'

/-- A call of `password` returns what it left held when it gave the lock back. -/
theorem returns_of_released (hP : (rules unlock).Orderly Fresh P) (hx : x ∈ P.stage.history)
    (hact : x.act = .noted (.inl .heldReleased))
    (hdid : P.stage.Did x.tid (.started (.password ask))) :
    ∃ y result, Follows P.stage.history x y ∧ y.act = .noted (.inr ⟨ask, result⟩) ∧
      Comes ask x.before.held result := by
  obtain ⟨y, s₀, hnext⟩ := exists_next hP hx (by simp [hact]) (by simp [hact])
  obtain ⟨rest, hown⟩ := hnext.own
  obtain ⟨result, hreport, hcomes⟩ :=
    act_after_released hnext.lawful hnext.legal (hnext.did _ hdid) hown hact
  exact ⟨y, result, hnext.follows, hreport, hcomes⟩

theorem served_of_granted (hP : (rules unlock).Orderly Fresh P) (hx : x ∈ P.stage.history)
    (hact : x.act = .answered .held ()) {secret : Bytes} {source : Source}
    (hheld : heldFrom x.before = some (secret, source))
    (hdid : P.stage.Did x.tid (.started (.password ask))) :
    (∃ released returned, Follows P.stage.history x released ∧
      released.act = .noted (.inl .heldReleased) ∧ Follows P.stage.history released returned ∧
      returned.act = .noted (.inr ⟨ask, .ok (some secret)⟩)) ∧
    ∀ q, Consults q → ¬ P.stage.Did x.tid (.began q) := by
  constructor
  · obtain ⟨y, s₀, hnext⟩ := exists_next hP hx (by simp [hact]) (by simp [hact])
    obtain ⟨newer, older, hs⟩ := List.append_of_mem hx
    obtain ⟨-, -, -, -, heffect, -⟩ := hP.lawful.answered_of_cut hs hact
    obtain ⟨-, hafter⟩ := World.effect_held (a := ()) heffect
    have hkept : y.before.held = x.before.held := by
      have hstill := hnext.still
      rw [hafter] at hstill
      exact hstill.held rfl
    have hlast : s₀.last x.tid = some (.answered .held ()) := hact ▸ hnext.last
    rcases act_after_granted hnext.lawful hnext.legal (hnext.did _ hdid) hlast with
      ⟨hreleased, -⟩ | ⟨-, hnone⟩
    · have hdid' : P.stage.Did y.tid (.started (.password ask)) := hnext.follows.tid ▸ hdid
      obtain ⟨z, result, hfollows, hreport, hcomes⟩ :=
        returns_of_released hP hnext.follows.mem hreleased hdid'
      obtain ⟨current, hcurrent, hpair⟩ := Option.map_eq_some_iff.mp hheld
      obtain rfl : current.secret = secret := congrArg Prod.fst hpair
      rw [hkept, hcurrent] at hcomes
      obtain rfl : result = .ok (some current.secret) := hcomes
      exact ⟨y, z, hnext.follows, hreleased, hfollows, hreport⟩
    · rw [hnext.before, hkept] at hnone
      exact absurd hnone (held_ne_none hheld)
  · intro q hq hbegan
    have hasked := asked_of_consults hP.lawful hq hbegan
    exact unasked_of_held hP.lawful hdid hx hact (held_ne_none hheld) hasked

theorem refused_of_answered (hP : (rules unlock).Orderly Fresh P) (hx : x ∈ P.stage.history)
    {request : PassphraseRequest} {answer : Except PromptError Bytes}
    (hact : x.act = .answered (.prompt request) answer) (hnone : typed answer = none) :
    ∃ released, Follows P.stage.history x released ∧
      released.act = .noted (.inl .heldReleased) ∧ released.after.held = none ∧
      ∀ ask, P.stage.Did x.tid (.started (.password ask)) → ∃ returned e,
        Follows P.stage.history released returned ∧
        returned.act = .noted (.inr ⟨ask, .error e⟩) := by
  obtain ⟨y, s₀, hnext⟩ := exists_next hP hx (by simp [hact]) (by simp [hact])
  have hlast : s₀.last x.tid = some (.answered (.prompt request) answer) := hact ▸ hnext.last
  have hreleased : y.act = .noted (.inl .heldReleased) := by
    rw [act_after_prompt hnext.lawful hnext.legal hlast, hnone]
    rfl
  have hheld : y.before.held = none := hnext.before ▸ (standing hnext.lawful hlast).2 trivial
  obtain ⟨newer, older, hs⟩ := List.append_of_mem hnext.follows.mem
  obtain ⟨-, -, -, -, hafter, -⟩ := hP.lawful.noted_of_cut hs hreleased
  refine ⟨y, hnext.follows, hreleased, hafter ▸ hheld, fun ask hdid => ?_⟩
  obtain ⟨z, result, hfollows, hreport, hcomes⟩ :=
    returns_of_released hP hnext.follows.mem hreleased (hnext.follows.tid ▸ hdid)
  have hasked : P.stage.Did x.tid (.noted (.inl .asked)) := by
    refine (asked_of_asks hnext.lawful hlast trivial).mono ?_
    exact hnext.suffix
  obtain rfl := ask_of_asked hP.lawful hasked hdid
  rw [hheld] at hcomes
  obtain ⟨e, rfl⟩ := hcomes
  exact ⟨z, e, hfollows, hreport⟩

theorem held_of_succeeds {newer older : List (Entry vaultCalls)} (h : Lawful unlock s)
    (hs : s.history = newer ++ x :: older) {secret : Bytes} {source : Source}
    (hact : x.act = .noted (.inl (.holding secret source))) :
    x.before.held = none ∧ heldFrom x.after = some (secret, source) := by
  obtain ⟨s₀, -, -, hbefore, hafter, hr⟩ := h.noted_of_cut hs hact
  exact ⟨hbefore ▸ hr.1.2, hafter ▸ rfl⟩

theorem dropped_between {newer mid older : List (Entry vaultCalls)} (h : Lawful unlock s)
    (hs : s.history = newer ++ x :: (mid ++ y :: older)) (hx : Succeeds x) (hy : Succeeds y) :
    ∃ z ∈ mid, Drops z := by
  obtain ⟨secret, source, hxact⟩ := hx
  obtain ⟨secret', source', hyact⟩ := hy
  by_contra hnone
  have hkept : ∀ z ∈ mid, ¬ Drops z := fun z hz hd => hnone ⟨z, hz, hd⟩
  obtain ⟨s₀, h₀, hh, hbefore, -, -⟩ := h.noted_of_cut hs hxact
  have hcut : s.history = (newer ++ x :: mid) ++ y :: older := by simp [hs]
  have hafter := (held_of_succeeds h hcut hyact).2
  have hheld := heldFrom_kept h₀ hh hafter hkept
  rw [hbefore] at hheld
  exact held_ne_none hheld (held_of_succeeds h hs hxact).1

theorem consults_of_asked (hP : (rules unlock).Orderly Fresh P) (hx : x ∈ P.stage.history)
    (hact : x.act = .noted (.inl .asked)) :
    ∃ y, Follows P.stage.history x y ∧ y.act = .began (unlock.consults x.after) := by
  obtain ⟨y, s₀, hnext⟩ := exists_next hP hx (by simp [hact]) (by simp [hact])
  have hlast : s₀.last x.tid = some (.noted (.inl .asked)) := hact ▸ hnext.last
  have hlock := (standing hnext.lawful hlast).1 trivial
  have hsame : unlock.consults s₀.shared = unlock.consults x.after := by
    have hstill := hnext.before ▸ hnext.still
    unfold Unlock.consults
    rw [hstill.rejected (hstill.lock.mp hlock)]
  exact ⟨y, hnext.follows, hsame ▸ act_after_asked hnext.lawful hnext.legal hlast⟩

theorem typed_ne_nil {answer : Except PromptError Bytes} {secret : Bytes}
    (h : typed answer = some secret) : secret ≠ [] := by
  cases answer with
  | error e => exact nomatch h
  | ok text =>
    have h' : (if text.isEmpty then none else some text) = some secret := h
    split_ifs at h' with hempty
    obtain rfl := Option.some.inj h'
    simpa using hempty

theorem released_of_returned (h : Lawful unlock s) (hy : y ∈ s.history) {supplied : Supplied}
    (hact : y.act = .noted (.inr supplied)) :
    s.Did y.tid (.started (.password supplied.ask)) ∧ ∃ x, Follows s.history x y ∧
      x.act = .noted (.inl .heldReleased) ∧ Comes supplied.ask x.before.held supplied.result := by
  obtain ⟨newer, older, hs⟩ := List.append_of_mem hy
  obtain ⟨s₀, -, hh, -, -, released, rest, hown, hreleased, hdid, hcomes⟩ := h.noted_of_cut hs hact
  exact ⟨hdid.mono (hh ▸ suffix_of_cut hs), released, hs ▸ .of_own hh hown, hreleased, hcomes⟩

theorem one_ask_per_lock (h : Reachable unlock P) : OneAsk unlock P.stage := by
  have hP : (rules unlock).Orderly Fresh P := (upheld unlock).orderly h
  have hstand : ∀ {t q}, P.stage.last t = some (.began q) → Consults q →
      P.stage.shared.heldLock = some t ∧ P.stage.shared.held = none := by
    intro t q hlast hq
    obtain ⟨hlock, hnone⟩ := standing hP.lawful hlast
    cases q with
    | masterStore => exact ⟨hlock trivial, hnone trivial⟩
    | prompt request => exact ⟨hlock trivial, hnone trivial⟩
    | _ => exact hq.elim
  constructor
  case consulting => exact fun t q => hstand
  case alone =>
    intro t q u r ht hq hu hr
    exact Option.some.inj ((hstand ht hq).1.symm.trans (hstand hu hr).1)
  case once => exact fun newer x mid y older hs hx hy => dropped_between hP.lawful hs hx hy
  case served =>
    intro newer x mid y older secret source ask hs hy hmid hx hdid
    obtain ⟨s₀, h₀, hh, hbefore, -, -⟩ := hP.lawful.answered_of_cut hs hx
    have hcut : P.stage.history = (newer ++ x :: mid) ++ y :: older := by simp [hs]
    have hheld := heldFrom_kept h₀ hh (held_of_succeeds hP.lawful hcut hy).2 hmid
    exact served_of_granted hP (by rw [hs]; simp) hx (hbefore ▸ hheld) hdid
  case counted =>
    rcases counted hP.lawful with ⟨hn, -⟩ | ⟨-, t, ht⟩
    · exact hn
    · rcases hP.rests ht with habsurd | ⟨q, habsurd⟩
      · exact nomatch habsurd
      · exact nomatch habsurd
  case asked => exact fun x hx hact => consults_of_asked hP hx hact
  case store =>
    intro x hx answer hact
    obtain ⟨y, s₀, hnext⟩ := exists_next hP hx (by simp [hact]) (by simp [hact])
    exact ⟨y, hnext.follows, act_after_store hnext.lawful hnext.legal (hact ▸ hnext.last)⟩
  case answered =>
    intro x hx request answer secret hact htyped
    obtain ⟨y, s₀, hnext⟩ := exists_next hP hx (by simp [hact]) (by simp [hact])
    refine ⟨typed_ne_nil htyped, y, hnext.follows, ?_⟩
    rw [act_after_prompt hnext.lawful hnext.legal (hact ▸ hnext.last), htyped]
    rfl
  case refused => exact fun x hx request answer hact hnone => refused_of_answered hP hx hact hnone
  case quiet =>
    intro t hdid q hq hbegan
    exact nomatch ask_of_asked hP.lawful (asked_of_consults hP.lawful hq hbegan) hdid
  case returned => exact fun y hy supplied hact => released_of_returned hP.lawful hy hact

end run

/-! ### An ask that another waits behind -/

/-- One call asks the store and then the user while another waits for the lock. -/
def waiting : List (Move vaultCalls) :=
  [.spawn 0 (.password true), .spawn 1 (.password true), go 0, go 0, go 0, go 1]

/-- One prompt, one unlock, and what was typed for both. -/
def ServedBoth (P : Pool vaultCalls) : Prop :=
  P.stage.shared.epoch.unlocks = 1 ∧
    P.stage.Did 0 (.noted (.inr ⟨true, .ok (some [2])⟩)) ∧
    P.stage.Did 1 (.noted (.inr ⟨true, .ok (some [2])⟩))

instance (P : Pool vaultCalls) : Decidable (ServedBoth P) :=
  inferInstanceAs (Decidable (_ ∧ _ ∧ _))

theorem one_ask_per_lock_waiting :
    ∃ P, Reachable touchId P ∧ OneAsk touchId P.stage ∧ ServedBoth P := by
  obtain ⟨P, hP, htest⟩ := Pool.exists_of_plays (p := ServedBoth) (reachable_world touchId)
    (show ∃ P ∈ Pool.plays (code touchId) (.start Sample.world) waiting, ServedBoth P by
      decide +kernel)
  exact ⟨P, hP, one_ask_per_lock hP, htest⟩

end VaultCall

end LastpassSshAgent
