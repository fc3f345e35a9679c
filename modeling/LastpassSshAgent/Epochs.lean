import LastpassSshAgent.Histories

/-!
# Lock epochs and remembered approvals

An approval is filed by the settle of the request the user said yes to, and is
honoured only while the epoch it was filed in lasts.
-/

namespace LastpassSshAgent

open Resumption

variable {env : Env} {t : ℕ} {s : Stage runtime} {x y z : Entry runtime} {question : String}
  {epoch : ℕ} {newer mid older : List (Entry runtime)}

/-- The settle that filed a yes to `question` in `epoch`: its request succeeded, and
nothing but its own ask had ended the epoch of the yes. -/
def Files (x : Entry runtime) (question : String) (epoch : ℕ) : Prop :=
  ∃ answeredIn asked, x.act = .noted (.settled (.given (some question) answeredIn) asked true) ∧
    (epoch = if asked then answeredIn + 1 else answeredIn) ∧ x.after.epoch.locks = epoch ∧
    x.after.approvals.remembered question = some epoch

/-- The settle that lets a signature go on an approval remembered in `epoch`. -/
def Releases (x : Entry runtime) (epoch : ℕ) : Prop :=
  ∃ asked, x.act = .noted (.settled (.remembered epoch) asked true) ∧
    Approvals.verdict x.before.epoch (.remembered epoch) asked = .covered

def SaysYes (x : Entry runtime) (question : Option String) (epoch : ℕ) : Prop :=
  ∃ ctx, x.act = .answered (.confirm ctx) Decision.approve ∧ approvalQuestion ctx = question ∧
    x.after.epoch.locks = epoch

/-! ### Filing -/

theorem files_of_remembered (h : env.Lawful s)
    (hr : s.shared.approvals.remembered question = some epoch) :
    ∃ y ∈ s.history, Files y question epoch := by
  induction h with
  | start hx => exact absurd (hr.symm.trans (hx.remembered question)) nofun
  | @act s s' u act hs hl ih =>
    rw [hl.history]
    have hold : s.shared.approvals.remembered question = some epoch →
        ∃ y ∈ ⟨u, act, s.shared, s'.shared⟩ :: s.history, Files y question epoch := by
      intro hr
      obtain ⟨y, hy, hf⟩ := ih hr
      exact ⟨y, List.mem_cons_of_mem _ hy, hf⟩
    cases hl with
    | started _ hx =>
      refine hold ?_
      rw [← hr, Stage.push_shared, World.launch_eq hx]
    | began _ _ => exact hold hr
    | @answered q a x _ hx =>
      refine hold ?_
      rw [← hr, Stage.push_shared, World.effect_eq hx]
    | @noted e _ _ =>
      by_cases he : ∃ answer asked signed, e = .settled answer asked signed
      · obtain ⟨answer, asked, signed, rfl⟩ := he
        rcases Approvals.settle_remembered hr with hr' | ⟨rfl, hepoch, answeredIn, rfl, hin⟩
        · exact hold hr'
        · exact ⟨_, List.mem_cons_self, answeredIn, asked, rfl, hin, hepoch.symm, hr⟩
      · refine hold ?_
        rw [← hr, Stage.note_shared, World.apply_approvals]
        exact fun answer asked signed heq => he ⟨answer, asked, signed, heq⟩
    | ended _ _ => exact hold hr
  | drift d _ ih =>
    refine ih ?_
    rw [← hr]
    cases d <;> rfl

theorem yes_of_files (h : env.Lawful s) (hs : s.history = newer ++ y :: older)
    (hf : Files y question epoch) :
    ∃ z ∈ older, z.tid = y.tid ∧ SaysYes z (some question) y.before.epoch.locks ∧
      y.before.gate = some y.tid := by
  obtain ⟨answeredIn, asked, ha, hin, hepoch, -⟩ := hf
  obtain ⟨s₀, hn⟩ := noted_of_cut h hs ha
  obtain ⟨job, -, ⟨hgate, ctx, z, hz, hzt, hza, hzq, hzl⟩, -⟩ := hn.may
  refine ⟨z, hn.history ▸ hz, hzt, ⟨ctx, hza, hzq, hzl.trans ?_⟩, hn.before ▸ hgate⟩
  have hafter : y.after.epoch = Approvals.settledEpoch y.before.epoch asked := by
    rw [hn.after]
    rfl
  rw [hafter] at hepoch
  cases asked with
  | true =>
    have hlocks : y.before.epoch.locks + 1 = answeredIn + 1 := hepoch.trans hin
    omega
  | false => exact (hepoch.trans hin).symm

/-! ### Release -/

theorem releases_iff : Releases x epoch ↔
    x.act = .noted (.settled (.remembered epoch) false true) ∧ x.before.epoch.locks = epoch := by
  constructor
  · rintro ⟨asked, ha, hv⟩
    obtain ⟨rfl, he⟩ := Approvals.verdict_remembered_covered.mp hv
    exact ⟨ha, he.symm⟩
  · rintro ⟨ha, he⟩
    exact ⟨false, ha, Approvals.verdict_remembered_covered.mpr ⟨rfl, he.symm⟩⟩

theorem files_of_settled {asked signed : Bool} (h : env.Lawful s)
    (hs : s.history = newer ++ x :: older)
    (ha : x.act = .noted (.settled (.remembered epoch) asked signed)) :
    ∃ question, ∃ z ∈ older, z.tid = x.tid ∧ z.act = .noted (.recalled question epoch) ∧
      ∃ y ∈ older, Files y question epoch := by
  obtain ⟨s₀, hn⟩ := noted_of_cut h hs ha
  obtain ⟨job, -, ⟨question, z, hz, hzt, hza⟩, -⟩ := hn.may
  obtain ⟨newer', older', hs₀⟩ := List.append_of_mem hz
  obtain ⟨s₁, hn₁⟩ := noted_of_cut hn.lawful hs₀ hza
  obtain ⟨-, hrecalled⟩ := hn₁.may
  obtain ⟨y, hy, hf⟩ := files_of_remembered hn₁.lawful
    (Approvals.rememberedIn_eq_some.mp hrecalled).1
  refine ⟨question, z, hn.history ▸ hz, hzt, hza, y, ?_, hf⟩
  rw [hn₁.history] at hy
  rw [← hn.history, hs₀]
  simp [hy]

theorem files_locks (hf : Files y question epoch) : y.after.epoch.locks = epoch := by
  obtain ⟨_, _, _, _, hepoch, _⟩ := hf
  exact hepoch

/-- Between the filing of an approval and a release on it the vault does not lock. -/
theorem calm_of_releases (h : env.Lawful s) (hs : s.history = newer ++ x :: (mid ++ y :: older))
    (hx : Releases x epoch) (hf : Files y question epoch) :
    ∀ z ∈ mid, z.before.epoch.locks = epoch ∧ z.after.epoch.locks = epoch := by
  have hy := files_locks hf
  have hcalm := locks_between h hs (hy.trans (releases_iff.mp hx).2.symm)
  simpa only [hy] using hcalm

/-! ### What ends an epoch -/

theorem bump_of_dropped (h : env.Lawful s) (hx : x ∈ s.history) (hb : x.before.held ≠ none)
    (ha : x.after.held = none) : x.after.epoch.locks = x.before.epoch.locks + 1 := by
  obtain ⟨s₀, s₁, -, hbefore, hafter, -, hl, -⟩ := h.entry hx
  rw [← hbefore] at hb ⊢
  rw [← hafter] at ha ⊢
  generalize x.tid = u, x.act = act at hl
  cases hl with
  | started _ hx =>
    rw [Stage.push_shared, World.launch_eq hx] at ha
    exact absurd ha hb
  | began _ _ => exact absurd ha hb
  | @answered q a w _ hw =>
    rw [Stage.push_shared, World.effect_eq hw] at ha
    exact absurd ha hb
  | @noted e _ _ =>
    cases e with
    | holding secret source => exact absurd ha nofun
    | touched =>
      obtain ⟨held, hheld⟩ := Option.ne_none_iff_exists'.mp hb
      simp [World.apply, hheld] at ha
    | rejected =>
      obtain ⟨held, hheld⟩ := Option.ne_none_iff_exists'.mp hb
      simp [World.apply, World.reject, hheld]
    | forgotten => rfl
    | expired => rfl
    | _ => exact absurd ha hb
  | ended _ _ => exact absurd ha hb

theorem bump_of_forgotten (h : env.Lawful s) (hx : x ∈ s.history)
    (ha : x.act = .noted .forgotten) : x.after.epoch.locks = x.before.epoch.locks + 1 := by
  obtain ⟨newer, older, hs⟩ := List.append_of_mem hx
  obtain ⟨s₀, hn⟩ := noted_of_cut h hs ha
  rw [hn.after]
  rfl

theorem forgotten_of_ended (h : env.Lawful s) (hstart : s.Did t (.started .forget))
    (hend : s.Did t .ended) : s.Did t (.noted .forgotten) := by
  obtain ⟨x, hx, hxt, hxa⟩ := hend
  obtain ⟨w, hw, hwt, hwa⟩ := hstart
  rcases cut_two hx hw with rfl | ⟨newer, older, hs, hmem⟩ | ⟨newer, older, hs, hmem⟩
  · exact absurd (hxa.symm.trans hwa) nofun
  · obtain ⟨s₀, -, hh, -, -, -, -, -, hforget⟩ := Rules.Lawful.ended_of_cut h hs hxa
    obtain ⟨y, hy, hyt, hya⟩ := hforget ⟨w, hh ▸ hmem, hwt.trans hxt.symm, hwa⟩
    exact ⟨y, by simp [hs, hh ▸ hy], hyt.trans hxt, hya⟩
  · exact absurd (hxt.trans hwt.symm) ((Rules.Lawful.started_of_cut h hs hwa).2 x hmem)

/-! ### Three requests and one prompt -/

/-- Thread 0 is given a yes. Thread 1 remembers it, finds the vault locked, and asks under
the gate. Thread 2 remembers it too, waits while the prompt stands, is fed the password
thread 1 asked for, and is done before thread 1 is. -/
def overlapping : List (Move runtime) :=
  [Sample.sign 0 Sample.plain [] [5], Sample.go 0, Sample.go 0, Sample.go 0, Sample.vault 0 [1],
    Sample.sign 1 Sample.plain [] [5], Sample.go 1, Sample.go 1, Sample.go 1, Sample.go 1,
    Sample.go 1, Sample.go 1, Sample.sign 2 Sample.plain [] [5], Sample.go 1, Sample.go 2,
    Sample.vault 2 [1]]

def overlappingQuestion : String :=
  "11\nSHA256:0WfFJFesqXKxE3C4SGTzZ/+mb3AzYvhjoxgKemT4FQw\nplain\n/usr/bin/ssh\n501\n\n\n"

def Overlapping (history : List (Entry runtime)) : Prop :=
  ∃ x ∈ history[3]?, (x.tid = 2 ∧ x.act = .noted (.settled (.remembered 0) false true) ∧
      x.before.epoch.locks = 0) ∧
    ∃ a ∈ (history.drop 4)[14]?, a.act = .noted .asked ∧
    ∃ w ∈ (history.drop 4)[11]?,
      (w.tid = 2 ∧ w.act = .noted (.recalled overlappingQuestion 0)) ∧
    ∃ y ∈ ((history.drop 4).drop 15)[23]?,
      y.act = .noted (.settled (.given (some overlappingQuestion) 0) false true) ∧
        y.after.epoch.locks = 0 ∧ y.after.approvals.remembered overlappingQuestion = some 0

set_option synthInstance.maxSize 1000 in
instance (history : List (Entry runtime)) : Decidable (Overlapping history) :=
  inferInstanceAs (Decidable (∃ x ∈ history[3]?, _))

theorem overlapping_reachable :
    ∃ P, Sample.env.Reachable P ∧ Overlapping P.stage.history :=
  Pool.exists_of_plays (p := fun P => Overlapping P.stage.history) Sample.reachable_start
    (show ∃ P ∈ Pool.plays Sample.env.code (.start Sample.world) overlapping,
      Overlapping P.stage.history by decide +kernel)

/-! ### The fence -/

/-- What lock epochs promise of remembered approvals, in every state of every run. -/
structure EpochsFence (env : Env) (P : Pool runtime) : Prop where
  /-- The epoch never decreases. -/
  monotone : ∀ P', P.Step env.code P' →
    P.stage.shared.epoch.locks ≤ P'.stage.shared.epoch.locks
  /-- Removing the held password begins an epoch, and so does every call to forget. -/
  dropped : ∀ x ∈ P.stage.history, x.before.held ≠ none → x.after.held = none →
    x.after.epoch.locks = x.before.epoch.locks + 1
  forgotten : ∀ t, P.stage.Did t (.started .forget) → P.stage.Did t .ended →
    ∃ x ∈ P.stage.history, x.tid = t ∧ x.act = .noted .forgotten ∧
      x.after.epoch.locks = x.before.epoch.locks + 1
  /-- A signature on a remembered answer: looked up by its own request, filed in that
  epoch by a request that succeeded on the user's yes, and no lock since. -/
  released : ∀ t signature newer x older epoch asked signed,
    P.stage.Did t (.noted (.replied (.ok signature))) →
    P.stage.history = newer ++ x :: older → x.tid = t →
    x.act = .noted (.settled (.remembered epoch) asked signed) →
    x.before.epoch.locks = epoch ∧ ∃ question mid y rest, older = mid ++ y :: rest ∧
      (∃ w ∈ older, w.tid = t ∧ w.act = .noted (.recalled question epoch)) ∧
      Files y question epoch ∧
      (∃ z ∈ rest, z.tid = y.tid ∧ SaysYes z (some question) y.before.epoch.locks) ∧
      ∀ w ∈ mid, w.before.epoch.locks = epoch ∧ w.after.epoch.locks = epoch
  /-- A yes given before a lock that is not its own request's is not honoured after it. -/
  fenced : ∀ newer x mid b mid' z rest epoch question answered answeredIn y,
    P.stage.history = newer ++ x :: (mid ++ b :: (mid' ++ z :: rest)) →
    SaysYes z answered answeredIn → b.before.epoch.locks < b.after.epoch.locks →
    b.tid ≠ z.tid → Releases x epoch → y ∈ mid ++ b :: (mid' ++ z :: rest) →
    Files y question epoch → y.tid ≠ z.tid
  /-- A yes whose own request asked is filed in the epoch that its settle begins, and
  only when nothing locked the vault since the yes. -/
  ownAsk : ∀ newer y older question answeredIn epoch, P.stage.history = newer ++ y :: older →
    y.act = .noted (.settled (.given (some question) answeredIn) true true) →
    Files y question epoch →
    epoch = answeredIn + 1 ∧ y.before.epoch.locks = answeredIn ∧
      y.after.epoch.locks = answeredIn + 1 ∧ ∃ mid z rest, older = mid ++ z :: rest ∧
        z.tid = y.tid ∧ SaysYes z (some question) answeredIn ∧
        ∀ w ∈ mid, w.before.epoch.locks = answeredIn ∧ w.after.epoch.locks = answeredIn
  /-- With nothing locked since, such a yes is filed wherever yeses are. -/
  kept : ∀ y ∈ P.stage.history, ∀ question answeredIn,
    y.act = .noted (.settled (.given (some question) answeredIn) true true) →
    y.before.approvals.enabled = true → y.before.epoch.locks = answeredIn →
    Files y question (answeredIn + 1)

theorem files_kept {answeredIn : ℕ} (h : env.Lawful s) (hy : y ∈ s.history)
    (ha : y.act = .noted (.settled (.given (some question) answeredIn) true true))
    (henabled : y.before.approvals.enabled = true) (hin : y.before.epoch.locks = answeredIn) :
    Files y question (answeredIn + 1) := by
  obtain ⟨newer, older, hs⟩ := List.append_of_mem hy
  obtain ⟨s₀, hn⟩ := noted_of_cut h hs ha
  refine ⟨answeredIn, true, ha, rfl, ?_, ?_⟩
  · rw [hn.after, ← hin]
    rfl
  · rw [hn.after]
    simp [World.apply, Approvals.settle, Approvals.rememberIn, Approvals.settledEpoch, henabled, hin]

theorem releases_of_replied {signature : Signature} {asked signed : Bool} (h : env.Lawful s)
    (hd : s.Did t (.noted (.replied (.ok signature)))) (hx : x ∈ s.history) (hxt : x.tid = t)
    (ha : x.act = .noted (.settled (.remembered epoch) asked signed)) : Releases x epoch := by
  obtain ⟨-, -, ⟨y, hy, hyt, answer, asked', hya, hv⟩, -⟩ := signed_of_replied h hd
  obtain rfl := settled_unique h hx hy (hxt.trans hyt.symm) ha hya
  obtain ⟨rfl, rfl, rfl⟩ := Event.settled.inj (Act.noted.inj (ha.symm.trans hya))
  exact ⟨asked, ha, hv⟩

theorem released_calm {asked signed : Bool} (h : env.Lawful s)
    (hs : s.history = newer ++ x :: older) (hx : Releases x epoch)
    (ha : x.act = .noted (.settled (.remembered epoch) asked signed)) :
    ∃ question mid y rest, older = mid ++ y :: rest ∧
      (∃ w ∈ older, w.tid = x.tid ∧ w.act = .noted (.recalled question epoch)) ∧
      Files y question epoch ∧
      (∃ z ∈ rest, z.tid = y.tid ∧ SaysYes z (some question) y.before.epoch.locks) ∧
      ∀ w ∈ mid, w.before.epoch.locks = epoch ∧ w.after.epoch.locks = epoch := by
  obtain ⟨question, w, hw, hwt, hwa, y, hy, hf⟩ := files_of_settled h hs ha
  obtain ⟨mid, rest, rfl⟩ := List.append_of_mem hy
  have hcut : s.history = (newer ++ x :: mid) ++ y :: rest := by simp [hs]
  obtain ⟨z, hz, hzt, hyes, -⟩ := yes_of_files h hcut hf
  exact ⟨question, mid, y, rest, rfl, ⟨w, hw, hwt, hwa⟩, hf, ⟨z, hz, hzt, hyes⟩,
    calm_of_releases h hs hx hf⟩

theorem not_files_of_locked {b : Entry runtime} {mid' : List (Entry runtime)}
    {answered : Option String} {answeredIn : ℕ} (h : env.Lawful s)
    (hs : s.history = newer ++ x :: (mid ++ b :: (mid' ++ z :: older)))
    (hz : SaysYes z answered answeredIn) (hb : b.before.epoch.locks < b.after.epoch.locks)
    (hbz : b.tid ≠ z.tid) (hx : Releases x epoch) (hy : y ∈ mid ++ b :: (mid' ++ z :: older))
    (hf : Files y question epoch) : y.tid ≠ z.tid := by
  intro hyz
  have hbx : b.after.epoch.locks ≤ x.before.epoch.locks := locks_le_of_cut h hs (by simp)
  have hcut : s.history = (newer ++ x :: mid) ++ b :: (mid' ++ z :: older) := by simp [hs]
  have hzb : z.after.epoch.locks ≤ b.before.epoch.locks := locks_le_of_cut h hcut (by simp)
  have hxe := (releases_iff.mp hx).2
  have hfe := files_locks hf
  rcases List.mem_append.mp hy with hy | hy
  · -- filed after the lock: its yes was given in the epoch it was filed from
    obtain ⟨mid₁, mid₂, rfl⟩ := List.append_of_mem hy
    have hs' : s.history =
        (newer ++ x :: mid₁) ++ y :: (mid₂ ++ b :: (mid' ++ z :: older)) := by simp [hs]
    obtain ⟨z', hz', hzt', ⟨ctx', hza', -, hze'⟩, -⟩ := yes_of_files h hs' hf
    obtain ⟨ctx, hza, -⟩ := hz
    have hzz : z = z' := by
      refine confirmed_unique h (by simp [hs]) ?_ (hyz.symm.trans hzt'.symm) hza hza'
      rw [hs']
      exact List.mem_append_right _ (List.mem_cons_of_mem _ hz')
    subst hzz
    have hby : b.after.epoch.locks ≤ y.before.epoch.locks := locks_le_of_cut h hs' (by simp)
    omega
  · rcases List.mem_cons.mp hy with rfl | hy
    · exact hbz hyz
    · have hyb : y.after.epoch.locks ≤ b.before.epoch.locks :=
        locks_le_of_cut h hcut hy
      omega

theorem files_ownAsk {answeredIn : ℕ} (h : env.Lawful s) (hs : s.history = newer ++ y :: older)
    (ha : y.act = .noted (.settled (.given (some question) answeredIn) true true))
    (hf : Files y question epoch) :
    epoch = answeredIn + 1 ∧ y.before.epoch.locks = answeredIn ∧
      y.after.epoch.locks = answeredIn + 1 ∧ ∃ mid z rest, older = mid ++ z :: rest ∧
        z.tid = y.tid ∧ SaysYes z (some question) answeredIn ∧
        ∀ w ∈ mid, w.before.epoch.locks = answeredIn ∧ w.after.epoch.locks = answeredIn := by
  obtain ⟨z, hz, hzt, hyes, -⟩ := yes_of_files h hs hf
  obtain ⟨s₀, hn⟩ := noted_of_cut h hs ha
  have hafter : y.after.epoch.locks = y.before.epoch.locks + 1 := by
    rw [hn.after]
    rfl
  have hfe := files_locks hf
  obtain ⟨answeredIn', asked', ha', hin, -⟩ := hf
  obtain ⟨hanswer, rfl, -⟩ := Event.settled.inj (Act.noted.inj (ha.symm.trans ha'))
  obtain rfl : answeredIn = answeredIn' := (Answer.given.inj hanswer).2
  have hepoch : epoch = answeredIn + 1 := hin
  have hbefore : y.before.epoch.locks = answeredIn := by omega
  obtain ⟨mid, rest, rfl⟩ := List.append_of_mem hz
  rw [hbefore] at hyes
  refine ⟨hepoch, hbefore, hfe.trans hepoch, mid, z, rest, rfl, hzt, hyes, ?_⟩
  obtain ⟨_, -, -, hze⟩ := hyes
  have hcalm := locks_between h hs (hze.trans hbefore.symm)
  simpa only [hze] using hcalm

/-- Lock epochs fence remembered approvals, whatever the schedule. -/
theorem epochs_fence_approvals {P : Pool runtime} (h : env.Reachable P) : EpochsFence env P where
  monotone P' hstep := leads_locks_le ((Env.orderly h).leads env.upheld hstep)
  dropped x hx := bump_of_dropped (Env.lawful h) hx
  forgotten t hstart hend := by
    obtain ⟨x, hx, hxt, hxa⟩ := forgotten_of_ended (Env.lawful h) hstart hend
    exact ⟨x, hx, hxt, hxa, bump_of_forgotten (Env.lawful h) hx hxa⟩
  released t signature newer x older epoch asked signed hd hs hxt ha := by
    have hx : Releases x epoch :=
      releases_of_replied (Env.lawful h) hd (by simp [hs]) hxt ha
    exact ⟨(releases_iff.mp hx).2, hxt ▸ released_calm (Env.lawful h) hs hx ha⟩
  fenced newer x mid b mid' z rest epoch question answered answeredIn y hs hz hb hbz hx hy hf :=
    not_files_of_locked (Env.lawful h) hs hz hb hbz hx hy hf
  ownAsk newer y older question answeredIn epoch hs ha hf := files_ownAsk (Env.lawful h) hs ha hf
  kept y hy question answeredIn ha henabled hin := files_kept (Env.lawful h) hy ha henabled hin

theorem epochs_fence_overlapping :
    ∃ P, Sample.env.Reachable P ∧ Overlapping P.stage.history ∧ EpochsFence Sample.env P := by
  obtain ⟨P, hP, hrun⟩ := overlapping_reachable
  exact ⟨P, hP, hrun, epochs_fence_approvals hP⟩

/-! ### An ask and the approvals before it -/

/-- Once the agent has had to ask for the master password, no signature goes on an
approval that was filed before the ask. -/
def AskEndsApprovals (history : List (Entry runtime)) : Prop :=
  ∀ newer x mid a older question epoch y, history = newer ++ x :: (mid ++ a :: older) →
    a.act = .noted .asked → Releases x epoch →
    (∃ w ∈ mid ++ a :: older, w.tid = x.tid ∧ w.act = .noted (.recalled question epoch)) →
    y ∈ older → ¬ Files y question epoch

/-- Whenever a signature goes on a remembered approval, every other request that has
asked for the master password has settled. -/
def SettledWhenReleased (history : List (Entry runtime)) : Prop :=
  ∀ newer x older epoch a, history = newer ++ x :: older → Releases x epoch → a ∈ older →
    a.act = .noted .asked → a.tid ≠ x.tid →
    ∃ z ∈ older, z.tid = a.tid ∧ ∃ answer asked signed,
      z.act = .noted (.settled answer asked signed)

theorem bump_of_asked {a : Entry runtime} {answer : Answer} {asked signed : Bool}
    (h : env.Lawful s) (hs : s.history = newer ++ z :: older)
    (hz : z.act = .noted (.settled answer asked signed)) (ha : a ∈ older) (haz : a.tid = z.tid)
    (haa : a.act = .noted .asked) :
    asked = true ∧ z.after.epoch.locks = z.before.epoch.locks + 1 := by
  obtain ⟨s₀, hn⟩ := noted_of_cut h hs hz
  obtain ⟨job, -, -, hiff⟩ := hn.may
  obtain rfl : asked = true := hiff.mpr ⟨a, hn.history ▸ ha, haz, haa⟩
  refine ⟨rfl, ?_⟩
  rw [hn.after]
  rfl

theorem asked_before_decided {a : Entry runtime} (h : env.Lawful s) (hz : z ∈ s.history)
    (ha : a ∈ s.history) (haz : a.tid = z.tid) (hd : Decides z.act) (haa : a.act = .noted .asked) :
    ∃ newer older, s.history = newer ++ z :: older ∧ a ∈ older := by
  rcases cut_two hz ha with rfl | hlate | ⟨newer, older, hs, hmem⟩
  · rw [haa] at hd
    exact hd.elim
  · exact hlate
  · exact absurd (closes_of_cut h hs hmem haz.symm hd) (haa ▸ id)

theorem not_inert_of_asked {a : Entry runtime} (h : env.Lawful s) (ha : a ∈ s.history)
    (haa : a.act = .noted .asked) : ¬ Inert a := by
  intro hi
  obtain ⟨newer, older, hs⟩ := List.append_of_mem ha
  obtain ⟨s₀, hn⟩ := noted_of_cut h hs haa
  have hcount : a.after.epoch.unlocks = a.before.epoch.unlocks + 1 := by
    rw [hn.after]
    rfl
  have hsame : a.after.epoch.unlocks = a.before.epoch.unlocks := by
    rw [show a.after = { a.before with gate := a.after.gate } from hi]
  omega

/-- A request that has asked is answered after it has settled. -/
theorem settled_of_asked_replied {a : Entry runtime} {result : Except AgentError Signature}
    (h : env.Lawful s) (hy : y ∈ s.history) (hya : y.act = .noted (.replied result))
    (ha : a ∈ s.history) (hay : a.tid = y.tid) (haa : a.act = .noted .asked) :
    ∃ z ∈ s.history, z.tid = y.tid ∧ ∃ answer asked signed,
      z.act = .noted (.settled answer asked signed) := by
  have hd : Decides y.act := by
    rw [hya]
    trivial
  obtain ⟨newer, older, hs, hmem⟩ := asked_before_decided h hy ha hay hd haa
  obtain ⟨s₀, hn⟩ := noted_of_cut h hs hya
  have hsub : ∀ w ∈ s₀.history, w ∈ s.history := by
    intro w hw
    rw [hs, ← hn.history]
    simp [hw]
  rcases result with _ | signature
  · rcases hn.may with ⟨-, ⟨answer, asked, signed, w, hw, hwt, hwa⟩, -⟩ | hidle
    · exact ⟨w, hsub w hw, hwt, answer, asked, signed, hwa⟩
    · exact absurd (hidle a (hn.history ▸ hmem) hay) (not_inert_of_asked h ha haa)
  · obtain ⟨-, -, ⟨w, hw, hwt, answer, asked, hwa, -⟩, -⟩ := hn.may
    exact ⟨w, hsub w hw, hwt, answer, asked, true, hwa⟩

/-- Who has asked has the gate until it settles. -/
theorem gate_of_asked (h : env.Lawful s) (hd : s.Did t (.noted .asked))
    (hopen : ∀ x ∈ s.history, x.tid = t → ∀ answer asked signed,
      x.act ≠ .noted (.settled answer asked signed)) : s.shared.gate = some t := by
  obtain ⟨x, hx, hxt, hxa⟩ := hd
  obtain ⟨newer, older, hs⟩ := List.append_of_mem hx
  obtain ⟨s₀, hn⟩ := noted_of_cut h hs hxa
  obtain ⟨-, -, -, -, -, hlead⟩ := h.cut hs
  have hgate : x.after.gate = some t := by
    rw [hn.after, ← hn.before]
    exact hxt ▸ hn.may.1.1
  refine gate_kept hlead hgate fun result ⟨y, hy, hyt, hya⟩ => ?_
  obtain ⟨z, hz, hzt, answer, asked, signed, hza⟩ :=
    settled_of_asked_replied h hy hya hx (hxt.trans hyt.symm) hxa
  exact hopen z hz (hzt.trans hyt) _ _ _ hza

theorem askEndsApprovals_of_settled (h : env.Lawful s) (hwhen : SettledWhenReleased s.history) :
    AskEndsApprovals s.history := by
  intro newer x mid a older question epoch y hs haa hx _ hy hf
  obtain ⟨hxa, hxe⟩ := releases_iff.mp hx
  have hcut : s.history = (newer ++ x :: mid) ++ a :: older := by simp [hs]
  have htid : a.tid ≠ x.tid := by
    intro hax
    have hasked := (bump_of_asked h hs hxa (by simp) hax haa).1
    cases hasked
  obtain ⟨z, hz, hza, answer, asked, signed, hzs⟩ :=
    hwhen newer x _ epoch a hs hx (by simp) haa htid
  -- the settle that goes with the ask came after it, and began an epoch
  have hlate : z ∈ mid := by
    obtain ⟨s₀, hn⟩ := noted_of_cut h hcut haa
    rcases List.mem_append.mp hz with hz | hz
    · exact hz
    rcases List.mem_cons.mp hz with rfl | hz
    · exact absurd (haa.symm.trans hzs) nofun
    · refine ((hn.undecided.resolve_right id) z (hn.history ▸ hz) hza ?_).elim
      rw [hzs]
      trivial
  obtain ⟨mid₁, mid₂, rfl⟩ := List.append_of_mem hlate
  have hcutz : s.history = (newer ++ x :: mid₁) ++ z :: (mid₂ ++ a :: older) := by simp [hs]
  have hbump := (bump_of_asked h hcutz hzs (by simp) hza.symm haa).2
  have hyz : y.after.epoch.locks ≤ z.before.epoch.locks :=
    locks_le_of_cut h hcutz (List.mem_append_right _ (List.mem_cons_of_mem _ hy))
  have hzx : z.after.epoch.locks ≤ x.before.epoch.locks := locks_le_of_cut h hs (by simp)
  have hye := files_locks hf
  omega

theorem settled_of_askEndsApprovals (h : env.Lawful s) (hends : AskEndsApprovals s.history) :
    SettledWhenReleased s.history := by
  intro newer x older epoch a hs hx ha haa _
  by_contra hopen
  obtain ⟨question, w, hw, hwt, hwa, y, hy, hf⟩ := files_of_settled h hs (releases_iff.mp hx).1
  obtain ⟨s₀, h₀, hh, -⟩ := h.cut hs
  rcases cut_two (hh ▸ ha : a ∈ s₀.history) (hh ▸ hy : y ∈ s₀.history) with
    rfl | ⟨mid, rest, hcut, hmem⟩ | ⟨mid, rest, hcut, hmem⟩
  · obtain ⟨_, _, hya, -⟩ := hf
    exact absurd (haa.symm.trans hya) nofun
  · rw [hh] at hcut
    subst hcut
    exact hends newer x mid a rest question epoch y hs haa hx ⟨w, hw, hwt, hwa⟩ hmem hf
  · -- the asker still has the gate, and whoever files a yes has it too
    obtain ⟨-, -, -, -, hgate⟩ := yes_of_files h₀ hcut hf
    obtain ⟨s₁, h₁, hh₁, hb₁, -⟩ := h₀.cut hcut
    have hasker : s₁.shared.gate = some a.tid := by
      refine gate_of_asked h₁ ⟨a, hh₁ ▸ hmem, rfl, haa⟩ fun z hz hzt answer asked signed hza => ?_
      refine hopen ⟨z, ?_, hzt, answer, asked, signed, hza⟩
      rw [← hh, hcut, ← hh₁]
      simp [hz]
    rw [hb₁, hgate] at hasker
    have hya : y.tid = a.tid := Option.some.inj hasker
    obtain ⟨answeredIn, asked, hys, -⟩ := hf
    exact hopen ⟨y, hy, hya, _, _, _, hys⟩

/-- An ask ends every approval before it exactly when no approval is let through while
another request that asked has yet to settle. -/
theorem ask_ends_approvals_iff {P : Pool runtime} (h : env.Reachable P) :
    AskEndsApprovals P.stage.history ↔ SettledWhenReleased P.stage.history :=
  ⟨settled_of_askEndsApprovals (Env.lawful h), askEndsApprovals_of_settled (Env.lawful h)⟩

/-- A remembered approval can outlive an ask. -/
theorem approval_outlives_ask :
    ∃ P, Sample.env.Reachable P ∧ ¬ AskEndsApprovals P.stage.history := by
  obtain ⟨P, hP, x, hx, ⟨hxt, hxa, hxe⟩, a, ha, haa, w, hw, ⟨hwt, hwa⟩, y, hy, hya, hye, hyr⟩ :=
    overlapping_reachable
  refine ⟨P, hP, fun hends => ?_⟩
  have hcut := cut_of_getElem? ha
  refine hends _ x _ a _ overlappingQuestion 0 y ((cut_of_getElem? hx).trans (by rw [← hcut])) haa
    (releases_iff.mpr ⟨hxa, hxe⟩) ⟨w, hcut ▸ List.mem_of_getElem? hw, hwt.trans hxt.symm, hwa⟩
    (List.mem_of_getElem? hy) ⟨0, false, hya, rfl, hye, hyr⟩

theorem ask_ends_approvals_iff_overlapping :
    ∃ P, Sample.env.Reachable P ∧ Overlapping P.stage.history ∧
      (AskEndsApprovals P.stage.history ↔ SettledWhenReleased P.stage.history) := by
  obtain ⟨P, hP, hrun⟩ := overlapping_reachable
  exact ⟨P, hP, hrun, ask_ends_approvals_iff hP⟩

end LastpassSshAgent
