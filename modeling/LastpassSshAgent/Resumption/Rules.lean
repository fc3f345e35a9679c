import LastpassSshAgent.Resumption.Program

/-!
# Rules of conduct for interleaved programs

Threads share one stage. `Rules` say which acts a thread may perform where, and
what has to hold while one waits. A program is verified once, against every
behaviour the rules leave to the other threads (`wp`); a pool of verified
programs then only ever reaches lawful stages, whatever the schedule.
-/

namespace Resumption

variable {I : Interface} {α β : Type}

structure Rules (I : Interface) where
  allowed : Stage I → ℕ → Act I → Prop
  pause : ℕ → I.Query → Stage I → Prop

namespace Rules

/-- One act of thread `t`. What the environment decides, an answer or a start, is
not the thread's to get wrong and is bound by the interface alone. -/
inductive Legal (R : Rules I) (s : Stage I) (t : ℕ) : Act I → Stage I → Prop
  | started {task : I.Task} {x : I.State} (hl : s.last t = none)
      (hx : I.launch task s.shared = some x) : R.Legal s t (.started task) (s.push t (.started task) x)
  | began {q : I.Query} (hl : s.Live t) (h : R.allowed s t (.began q)) :
      R.Legal s t (.began q) (s.begin t q)
  | answered {q : I.Query} {a : I.Answer q} {x : I.State} (hl : s.last t = some (.began q))
      (hx : I.effect t q a s.shared = some x) :
      R.Legal s t (.answered q a) (s.push t (.answered q a) x)
  | noted {e : I.Event} (hl : s.Live t) (h : R.allowed s t (.noted e)) :
      R.Legal s t (.noted e) (s.note t e)
  | ended (hl : s.Live t) (h : R.allowed s t .ended) : R.Legal s t .ended (s.finish t)

theorem Legal.eq_push {R : Rules I} {s s' : Stage I} {t : ℕ} {act : Act I}
    (h : R.Legal s t act s') : s' = s.push t act s'.shared := by
  cases h <;> rfl

theorem Legal.history {R : Rules I} {s s' : Stage I} {t : ℕ} {act : Act I}
    (h : R.Legal s t act s') : s'.history = ⟨t, act, s.shared, s'.shared⟩ :: s.history := by
  cases h <;> rfl

theorem Legal.last_self {R : Rules I} {s s' : Stage I} {t : ℕ} {act : Act I}
    (h : R.Legal s t act s') : s'.last t = some act := by
  rw [h.eq_push, Stage.last_push_self]

theorem Legal.last_of_ne {R : Rules I} {s s' : Stage I} {t u : ℕ} {act : Act I}
    (h : R.Legal s u act s') (hu : u ≠ t) : s'.last t = s.last t := by
  rw [h.eq_push, Stage.last_push_of_ne _ hu]

inductive Lawful (R : Rules I) (init : I.State → Prop) : Stage I → Prop
  | start {x : I.State} (hx : init x) : R.Lawful init ⟨x, []⟩
  | act {s s' : Stage I} {t : ℕ} {act : Act I} (hs : R.Lawful init s) (h : R.Legal s t act s') :
      R.Lawful init s'
  | drift {s : Stage I} (d : I.Drift) (hs : R.Lawful init s) : R.Lawful init (s.drift d)

inductive Leads (R : Rules I) (s : Stage I) : Stage I → Prop
  | refl : R.Leads s s
  | act {s₁ s₂ : Stage I} {u : ℕ} {act : Act I} (hs : R.Leads s s₁) (h : R.Legal s₁ u act s₂) :
      R.Leads s s₂
  | drift {s₁ : Stage I} (d : I.Drift) (hs : R.Leads s s₁) : R.Leads s (s₁.drift d)

/-- What the rest of the pool may do while thread `t` does nothing. -/
inductive Others (R : Rules I) (t : ℕ) (s : Stage I) : Stage I → Prop
  | refl : R.Others t s s
  | act {s₁ s₂ : Stage I} {u : ℕ} {act : Act I} (hs : R.Others t s s₁) (hu : u ≠ t)
      (h : R.Legal s₁ u act s₂) : R.Others t s s₂
  | drift {s₁ : Stage I} (d : I.Drift) (hs : R.Others t s s₁) : R.Others t s (s₁.drift d)

theorem Others.trans {R : Rules I} {t : ℕ} {s s₁ s₂ : Stage I} (h₁ : R.Others t s s₁)
    (h₂ : R.Others t s₁ s₂) : R.Others t s s₂ := by
  induction h₂ with
  | refl => exact h₁
  | act _ hu h ih => exact .act ih hu h
  | drift d _ ih => exact .drift d ih

theorem Others.leads {R : Rules I} {t : ℕ} {s s₁ : Stage I} (h : R.Others t s s₁) :
    R.Leads s s₁ := by
  induction h with
  | refl => exact .refl
  | act _ _ h ih => exact .act ih h
  | drift d _ ih => exact .drift d ih

theorem Others.last {R : Rules I} {t : ℕ} {s s₁ : Stage I} (h : R.Others t s s₁) :
    s₁.last t = s.last t := by
  induction h with
  | refl => rfl
  | act _ hu h ih => exact (h.last_of_ne hu).trans ih
  | drift d _ ih => exact ih

theorem Others.adds {R : Rules I} {t : ℕ} {s s₁ : Stage I} (h : R.Others t s s₁)
    (A : Act I → Prop) : Stage.Adds t A s s₁ := by
  induction h with
  | refl => exact .refl t A s
  | act _ hu h ih =>
    rw [h.eq_push]
    exact ih.trans (.push fun hut => absurd hut hu)
  | drift d _ ih => exact ih

namespace Leads

variable {R : Rules I} {s s₁ : Stage I}

theorem history (h : R.Leads s s₁) : s.history <:+ s₁.history := by
  induction h with
  | refl => exact List.suffix_refl _
  | act _ h ih => exact h.history ▸ ih.trans (List.suffix_cons _ _)
  | drift d _ ih => exact ih

theorem lawful {init : I.State → Prop} (h : R.Leads s s₁) (hs : R.Lawful init s) :
    R.Lawful init s₁ := by
  induction h with
  | refl => exact hs
  | act _ h ih => exact .act ih h
  | drift d _ ih => exact .drift d ih

/-- A relation that acts and drift stay within holds from one end to the other. -/
theorem rel {r : I.State → I.State → Prop} (hr : ∀ x, r x x) (ht : ∀ x y z, r x y → r y z → r x z)
    (hact : ∀ s t act s', R.Legal s t act s' → r s.shared s'.shared)
    (hdrift : ∀ d x, r x (I.drift d x)) (h : R.Leads s s₁) : r s.shared s₁.shared := by
  induction h with
  | refl => exact hr _
  | act _ h ih => exact ht _ _ _ ih (hact _ _ _ _ h)
  | drift d _ ih => exact ht _ _ _ ih (hdrift d _)

end Leads

/-- An entry of a history, with the stage it was made at and what came of it. -/
theorem Lawful.cut {R : Rules I} {init : I.State → Prop} {s : Stage I} (hs : R.Lawful init s)
    {newer older : List (Entry I)} {x : Entry I} (h : s.history = newer ++ x :: older) :
    ∃ s₀, R.Lawful init s₀ ∧ s₀.history = older ∧ s₀.shared = x.before ∧
      R.Legal s₀ x.tid x.act ⟨x.after, x :: older⟩ ∧ R.Leads ⟨x.after, x :: older⟩ s := by
  induction hs generalizing newer with
  | start hx => simp at h
  | @act s s' t act hs hl ih =>
    rw [hl.history] at h
    rcases List.cons_eq_append_iff.mp h with ⟨rfl, hx⟩ | ⟨newer', rfl, hrest⟩
    · obtain ⟨rfl, rfl⟩ := List.cons.inj hx
      have hs' : s' = ⟨s'.shared, ⟨t, act, s.shared, s'.shared⟩ :: s.history⟩ := by
        rw [← hl.history]
      exact ⟨s, hs, rfl, rfl, hs' ▸ hl, hs' ▸ .refl⟩
    · obtain ⟨s₀, h₀, hh, hb, hl₀, hlead⟩ := ih hrest
      exact ⟨s₀, h₀, hh, hb, hl₀, hlead.act hl⟩
  | drift d hs ih =>
    obtain ⟨s₀, h₀, hh, hb, hl₀, hlead⟩ := ih h
    exact ⟨s₀, h₀, hh, hb, hl₀, hlead.drift d⟩

/-- What holds of every entry when it is made holds of every entry ever made. -/
theorem Lawful.entry {R : Rules I} {init : I.State → Prop} {s : Stage I} (hs : R.Lawful init s)
    {x : Entry I} (hx : x ∈ s.history) :
    ∃ s₀ s₁, R.Lawful init s₀ ∧ s₀.shared = x.before ∧ s₁.shared = x.after ∧
      s₁.history = x :: s₀.history ∧ R.Legal s₀ x.tid x.act s₁ ∧ R.Leads s₁ s := by
  obtain ⟨newer, older, h⟩ := List.append_of_mem hx
  obtain ⟨s₀, h₀, hh, hb, hl₀, hlead⟩ := hs.cut h
  exact ⟨s₀, _, h₀, hb, rfl, by rw [hh], hl₀, hlead⟩

/-! ### What an entry says of the stage it was made at -/

section cut

variable {R : Rules I} {init : I.State → Prop} {s : Stage I} {newer older : List (Entry I)}
  {x : Entry I}

theorem Lawful.started_of_cut (h : R.Lawful init s) (hs : s.history = newer ++ x :: older)
    {task : I.Task} (ha : x.act = .started task) :
    I.launch task x.before = some x.after ∧ ∀ y ∈ older, y.tid ≠ x.tid := by
  obtain ⟨s₀, h₀, hh, hb, hl, -⟩ := h.cut hs
  obtain ⟨u, act, before, after⟩ := x
  dsimp only at ha hb hl
  subst ha
  have hafter : I.launch task s₀.shared = some after := by
    cases hl
    assumption
  cases hl with
  | started hlast _ => exact ⟨hb ▸ hafter, hh ▸ Stage.last_eq_none.mp hlast⟩

theorem Lawful.began_of_cut (h : R.Lawful init s) (hs : s.history = newer ++ x :: older)
    {q : I.Query} (ha : x.act = .began q) :
    ∃ s₀, R.Lawful init s₀ ∧ s₀.history = older ∧ s₀.shared = x.before ∧
      x.after = x.before ∧ R.allowed s₀ x.tid (.began q) := by
  obtain ⟨s₀, h₀, hh, hb, hl, -⟩ := h.cut hs
  obtain ⟨u, act, before, after⟩ := x
  dsimp only at ha hb hl
  subst ha
  have hafter : after = s₀.shared := by
    cases hl
    rfl
  cases hl with
  | began _ hr => exact ⟨s₀, h₀, hh, hb, hafter.trans hb, hr⟩

theorem Lawful.answered_of_cut (h : R.Lawful init s) (hs : s.history = newer ++ x :: older)
    {q : I.Query} {a : I.Answer q} (ha : x.act = .answered q a) :
    ∃ s₀, R.Lawful init s₀ ∧ s₀.history = older ∧ s₀.shared = x.before ∧
      I.effect x.tid q a x.before = some x.after ∧ s₀.last x.tid = some (.began q) := by
  obtain ⟨s₀, h₀, hh, hb, hl, -⟩ := h.cut hs
  obtain ⟨u, act, before, after⟩ := x
  dsimp only at ha hb hl
  subst ha
  have hafter : I.effect u q a s₀.shared = some after := by
    cases hl
    assumption
  cases hl with
  | answered hlast _ => exact ⟨s₀, h₀, hh, hb, hb ▸ hafter, hlast⟩

theorem Lawful.noted_of_cut (h : R.Lawful init s) (hs : s.history = newer ++ x :: older)
    {e : I.Event} (ha : x.act = .noted e) :
    ∃ s₀, R.Lawful init s₀ ∧ s₀.history = older ∧ s₀.shared = x.before ∧
      x.after = I.apply e x.before ∧ R.allowed s₀ x.tid (.noted e) := by
  obtain ⟨s₀, h₀, hh, hb, hl, -⟩ := h.cut hs
  obtain ⟨u, act, before, after⟩ := x
  dsimp only at ha hb hl
  subst ha
  have hafter : after = I.apply e s₀.shared := by
    cases hl
    rfl
  cases hl with
  | noted _ hr => exact ⟨s₀, h₀, hh, hb, hb ▸ hafter, hr⟩

theorem Lawful.ended_of_cut (h : R.Lawful init s) (hs : s.history = newer ++ x :: older)
    (ha : x.act = .ended) :
    ∃ s₀, R.Lawful init s₀ ∧ s₀.history = older ∧ s₀.shared = x.before ∧ x.after = x.before ∧
      R.allowed s₀ x.tid .ended := by
  obtain ⟨s₀, h₀, hh, hb, hl, -⟩ := h.cut hs
  obtain ⟨u, act, before, after⟩ := x
  dsimp only at ha hb hl
  subst ha
  have hafter : after = s₀.shared := by
    cases hl
    rfl
  cases hl with
  | ended _ hr => exact ⟨s₀, h₀, hh, hb, hafter.trans hb, hr⟩

end cut

/-! ### Weakest preconditions -/

/-- The weakest precondition of `p` for thread `t`: every act is allowed where it
is performed, and every await may be followed by anything the others do. -/
def wp (R : Rules I) (t : ℕ) : Program I α → (α → Stage I → Prop) → Stage I → Prop
  | .done a, Q, s => Q a s
  | .read next, Q, s => R.wp t (next s.shared) Q s
  | .emit e next, Q, s => R.allowed s t (.noted e) ∧ R.wp t next Q (s.note t e)
  | .await q next, Q, s => R.allowed s t (.began q) ∧ ∀ s₁, R.Others t (s.begin t q) s₁ →
      R.pause t q s₁ ∧ ∀ a x, I.effect t q a s₁.shared = some x →
        R.wp t (next a) Q (s₁.push t (.answered q a) x)

section wp

variable {R : Rules I} {t : ℕ}

@[simp] theorem wp_done (a : α) (Q : α → Stage I → Prop) (s : Stage I) :
    R.wp t (.done a) Q s ↔ Q a s := Iff.rfl

theorem wp_bind (p : Program I α) (f : α → Program I β) (Q : β → Stage I → Prop) (s : Stage I) :
    R.wp t (p.bind f) Q s ↔ R.wp t p (fun a s' => R.wp t (f a) Q s') s := by
  induction p generalizing s with
  | done a => rfl
  | read next ih => exact ih s.shared s
  | emit e next ih => exact and_congr_right fun _ => ih _
  | await q next ih =>
    refine and_congr_right fun _ => forall_congr' fun s₁ => imp_congr_right fun _ => ?_
    exact and_congr_right fun _ => forall_congr' fun a => forall_congr' fun x =>
      imp_congr_right fun _ => ih a _

theorem wp_mono {p : Program I α} {Q Q' : α → Stage I → Prop} {s : Stage I}
    (h : R.wp t p Q s) (hQ : ∀ a s', Q a s' → Q' a s') : R.wp t p Q' s := by
  induction p generalizing s with
  | done a => exact hQ a s h
  | read next ih => exact ih _ h
  | emit e next ih => exact ⟨h.1, ih h.2⟩
  | await q next ih =>
    refine ⟨h.1, fun s₁ h₁ => ⟨(h.2 s₁ h₁).1, fun a x hx => ?_⟩⟩
    exact ih a ((h.2 s₁ h₁).2 a x hx)

theorem wp_emits {A : Act I → Prop} {p : Program I α} {Q : α → Stage I → Prop} {s : Stage I}
    (hp : p.Emits A) (h : R.wp t p Q s) :
    R.wp t p (fun a s' => Q a s' ∧ Stage.Adds t A s s') s := by
  induction p generalizing s with
  | done a => exact ⟨h, .refl t A s⟩
  | read next ih => exact ih _ (hp _) h
  | emit e next ih =>
    refine ⟨h.1, wp_mono (ih hp.2 h.2) fun a s' hQ => ⟨hQ.1, ?_⟩⟩
    exact (Stage.Adds.push fun _ => hp.1).trans hQ.2
  | await q next ih =>
    refine ⟨h.1, fun s₁ h₁ => ⟨(h.2 s₁ h₁).1, fun a x hx => ?_⟩⟩
    refine wp_mono (ih a (hp.2 a).2 ((h.2 s₁ h₁).2 a x hx)) fun b s' hQ => ⟨hQ.1, ?_⟩
    have hbegin : Stage.Adds t A s (s.begin t q) := .push fun _ => hp.1
    exact ((hbegin.trans (h₁.adds A)).trans (.push fun _ => (hp.2 a).1)).trans hQ.2

theorem wp_seq {p : Program I α} {f : α → Program I β} {P : α → Stage I → Prop}
    {Q : β → Stage I → Prop} {s : Stage I} (h : R.wp t p P s)
    (hf : ∀ a s', P a s' → R.wp t (f a) Q s') : R.wp t (p >>= f) Q s :=
  (wp_bind p f Q s).mpr (wp_mono h hf)

theorem wp_get (f : I.State → Program I β) (Q : β → Stage I → Prop) (s : Stage I) :
    R.wp t (Program.get.bind f) Q s ↔ R.wp t (f s.shared) Q s := Iff.rfl

theorem wp_tell (e : I.Event) (f : Unit → Program I β) (Q : β → Stage I → Prop) (s : Stage I) :
    R.wp t ((Program.tell e).bind f) Q s ↔
      R.allowed s t (.noted e) ∧ R.wp t (f ()) Q (s.note t e) := Iff.rfl

theorem wp_ask (q : I.Query) (f : I.Answer q → Program I β) (Q : β → Stage I → Prop)
    (s : Stage I) :
    R.wp t ((Program.ask q).bind f) Q s ↔ R.allowed s t (.began q) ∧
      ∀ s₁, R.Others t (s.begin t q) s₁ → R.pause t q s₁ ∧
        ∀ a x, I.effect t q a s₁.shared = some x →
          R.wp t (f a) Q (s₁.push t (.answered q a) x) := Iff.rfl

/-- With nothing else running a verified program ends as its postcondition says. -/
theorem wp_runs {p : Program I α} {Q : α → Stage I → Prop} {s s' : Stage I} {a : α}
    (hr : Runs t p s a s') (h : R.wp t p Q s) : Q a s' := by
  induction hr with
  | done a s => exact h
  | read _ ih => exact ih h
  | emit _ ih => exact ih h.2
  | await hr _ ih => exact ih ((h.2 _ .refl).2 _ _ hr)

theorem wp_history {p : Program I α} {Q : α → Stage I → Prop} {s : Stage I} (h : R.wp t p Q s) :
    R.wp t p (fun a s' => Q a s' ∧ s.history <:+ s'.history) s := by
  induction p generalizing s with
  | done a => exact ⟨h, List.suffix_refl _⟩
  | read next ih => exact ih _ h
  | emit e next ih =>
    refine ⟨h.1, wp_mono (ih h.2) fun a s' hQ => ⟨hQ.1, (List.suffix_cons _ _).trans hQ.2⟩⟩
  | await q next ih =>
    refine ⟨h.1, fun s₁ h₁ => ⟨(h.2 s₁ h₁).1, fun a x hx => ?_⟩⟩
    refine wp_mono (ih a ((h.2 s₁ h₁).2 a x hx)) fun b s' hQ => ⟨hQ.1, ?_⟩
    exact (List.suffix_cons _ s.history).trans
      (h₁.leads.history.trans ((List.suffix_cons _ s₁.history).trans hQ.2))

end wp

/-! ### Rules that bind nobody -/

/-- What holds of a program under these holds of it among any other threads. -/
def free : Rules I where
  allowed _ _ _ := True
  pause _ _ _ := True

section free

variable {R : Rules I} {t : ℕ} {s s₁ : Stage I}

theorem Legal.free {u : ℕ} {act : Act I} (h : R.Legal s u act s₁) : free.Legal s u act s₁ := by
  cases h with
  | started hl hx => exact .started hl hx
  | began hl _ => exact .began hl trivial
  | answered hl hx => exact .answered hl hx
  | noted hl _ => exact .noted hl trivial
  | ended hl _ => exact .ended hl trivial

theorem Others.free (h : R.Others t s s₁) : free.Others t s s₁ := by
  induction h with
  | refl => exact .refl
  | act _ hu h ih => exact ih.act hu h.free
  | drift d _ ih => exact ih.drift d

theorem wp_free (p : Program I α) (s : Stage I) : free.wp t p (fun _ _ => True) s := by
  induction p generalizing s with
  | done a => trivial
  | read next ih => exact ih _ _
  | emit e next ih => exact ⟨trivial, ih _⟩
  | await q next ih => exact ⟨trivial, fun s₁ _ => ⟨trivial, fun a x _ => ih a _⟩⟩

theorem wp_and_free {p : Program I α} {P Q : α → Stage I → Prop} (h : R.wp t p P s)
    (h' : free.wp t p Q s) : R.wp t p (fun a s' => P a s' ∧ Q a s') s := by
  induction p generalizing s with
  | done a => exact ⟨h, h'⟩
  | read next ih => exact ih _ h h'
  | emit e next ih => exact ⟨h.1, ih h.2 h'.2⟩
  | await q next ih =>
    refine ⟨h.1, fun s₁ h₁ => ⟨(h.2 s₁ h₁).1, fun a x hx => ?_⟩⟩
    exact ih a ((h.2 s₁ h₁).2 a x hx) ((h'.2 s₁ h₁.free).2 a x hx)

end free

def Waiting (R : Rules I) (t : ℕ) (p : Program I Unit) (s : Stage I) : Prop :=
  match p with
  | .done _ => s.last t = some .ended
  | .await q next => s.last t = some (.began q) ∧ ∀ s₁, R.Others t s s₁ → R.pause t q s₁ ∧
      ∀ a x, I.effect t q a s₁.shared = some x →
        R.wp t (next a) (fun _ s' => R.allowed s' t .ended) (s₁.push t (.answered q a) x)
  | _ => False

end Rules

end Resumption
