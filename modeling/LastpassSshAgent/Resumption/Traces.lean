import LastpassSshAgent.Resumption.Rules

/-!
# What a program can do, whatever it reads and is told

A trace keeps the acts of a program and forgets the shared state: every read may find
anything, and every await may be answered in any way. What a thread does in a run, among
any other threads, is a trace of its program.
-/

namespace Resumption

variable {I : Interface} {α β : Type}

namespace Program

/-- `p` can do just `acts`, oldest first, and return `a`. -/
inductive Traces : Program I α → List (Act I) → α → Prop
  | done (a : α) : Traces (.done a) [] a
  | read {next : I.State → Program I α} {acts : List (Act I)} {a : α} (x : I.State)
      (h : Traces (next x) acts a) : Traces (.read next) acts a
  | emit {e : I.Event} {next : Program I α} {acts : List (Act I)} {a : α}
      (h : Traces next acts a) : Traces (.emit e next) (.noted e :: acts) a
  | await {q : I.Query} {next : I.Answer q → Program I α} {acts : List (Act I)} {a : α}
      (r : I.Answer q) (h : Traces (next r) acts a) :
      Traces (.await q next) (.began q :: .answered q r :: acts) a

theorem traces_done {a b : α} {acts : List (Act I)} :
    (Program.done a : Program I α).Traces acts b ↔ acts = [] ∧ b = a := by
  constructor
  · intro h
    cases h
    exact ⟨rfl, rfl⟩
  · rintro ⟨rfl, rfl⟩
    exact .done b

theorem traces_ask {q : I.Query} {f : I.Answer q → Program I β} {acts : List (Act I)} {b : β} :
    ((ask q).bind f).Traces acts b ↔
      ∃ r rest, acts = .began q :: .answered q r :: rest ∧ (f r).Traces rest b := by
  constructor
  · intro h
    cases h with
    | await r h => exact ⟨r, _, rfl, h⟩
  · rintro ⟨r, rest, rfl, h⟩
    exact .await r h

theorem traces_bind {p : Program I α} {f : α → Program I β} {acts : List (Act I)} {b : β} :
    (p.bind f).Traces acts b ↔
      ∃ a front rest, acts = front ++ rest ∧ p.Traces front a ∧ (f a).Traces rest b := by
  constructor
  · intro h
    induction p generalizing acts with
    | done a => exact ⟨a, [], acts, rfl, .done a, h⟩
    | read next ih =>
      cases h with
      | read x h =>
        obtain ⟨a, front, rest, rfl, hp, hf⟩ := ih x h
        exact ⟨a, front, rest, rfl, .read x hp, hf⟩
    | emit e next ih =>
      cases h with
      | emit h =>
        obtain ⟨a, front, rest, rfl, hp, hf⟩ := ih h
        exact ⟨a, _, rest, rfl, .emit hp, hf⟩
    | await q next ih =>
      cases h with
      | await r h =>
        obtain ⟨a, front, rest, rfl, hp, hf⟩ := ih r h
        exact ⟨a, _, rest, rfl, .await r hp, hf⟩
  · rintro ⟨a, front, rest, rfl, hp, hf⟩
    induction hp with
    | done a => exact hf
    | read x _ ih => exact .read x (ih hf)
    | emit _ ih => exact .emit (ih hf)
    | await r _ ih => exact .await r (ih hf)

/-- As a trace, with the states that were read, oldest first. -/
inductive Sees : Program I α → List I.State → List (Act I) → α → Prop
  | done (a : α) : Sees (.done a) [] [] a
  | read {next : I.State → Program I α} {reads : List I.State} {acts : List (Act I)} {a : α}
      (x : I.State) (h : Sees (next x) reads acts a) : Sees (.read next) (x :: reads) acts a
  | emit {e : I.Event} {next : Program I α} {reads : List I.State} {acts : List (Act I)} {a : α}
      (h : Sees next reads acts a) : Sees (.emit e next) reads (.noted e :: acts) a
  | await {q : I.Query} {next : I.Answer q → Program I α} {reads : List I.State}
      {acts : List (Act I)} {a : α} (r : I.Answer q) (h : Sees (next r) reads acts a) :
      Sees (.await q next) reads (.began q :: .answered q r :: acts) a

theorem sees_done {a b : α} {reads : List I.State} {acts : List (Act I)} :
    (Program.done a : Program I α).Sees reads acts b ↔ reads = [] ∧ acts = [] ∧ b = a := by
  constructor
  · intro h
    cases h
    exact ⟨rfl, rfl, rfl⟩
  · rintro ⟨rfl, rfl, rfl⟩
    exact .done b

theorem sees_bind {p : Program I α} {f : α → Program I β} {reads : List I.State}
    {acts : List (Act I)} {b : β} : (p.bind f).Sees reads acts b ↔
      ∃ a seen later front rest, reads = seen ++ later ∧ acts = front ++ rest ∧
        p.Sees seen front a ∧ (f a).Sees later rest b := by
  constructor
  · intro h
    induction p generalizing reads acts with
    | done a => exact ⟨a, [], reads, [], acts, rfl, rfl, .done a, h⟩
    | read next ih =>
      cases h with
      | read x h =>
        obtain ⟨a, seen, later, front, rest, rfl, rfl, hp, hf⟩ := ih x h
        exact ⟨a, _, later, front, rest, rfl, rfl, .read x hp, hf⟩
    | emit e next ih =>
      cases h with
      | emit h =>
        obtain ⟨a, seen, later, front, rest, rfl, rfl, hp, hf⟩ := ih h
        exact ⟨a, seen, later, _, rest, rfl, rfl, .emit hp, hf⟩
    | await q next ih =>
      cases h with
      | await r h =>
        obtain ⟨a, seen, later, front, rest, rfl, rfl, hp, hf⟩ := ih r h
        exact ⟨a, seen, later, _, rest, rfl, rfl, .await r hp, hf⟩
  · rintro ⟨a, seen, later, front, rest, rfl, rfl, hp, hf⟩
    induction hp with
    | done a => exact hf
    | read x _ ih => exact .read x (ih hf)
    | emit _ ih => exact .emit (ih hf)
    | await r _ ih => exact .await r (ih hf)

theorem Sees.traces {p : Program I α} {reads : List I.State} {acts : List (Act I)} {a : α}
    (h : p.Sees reads acts a) : p.Traces acts a := by
  induction h with
  | done a => exact .done a
  | read x _ ih => exact .read x ih
  | emit _ ih => exact .emit ih
  | await r _ ih => exact .await r ih

theorem Traces.sees {p : Program I α} {acts : List (Act I)} {a : α} (h : p.Traces acts a) :
    ∃ reads, p.Sees reads acts a := by
  induction h with
  | done a => exact ⟨[], .done a⟩
  | read x _ ih => exact ih.imp' (x :: ·) fun _ => .read x
  | emit _ ih => exact ih.imp fun _ => .emit
  | await r _ ih => exact ih.imp fun _ => .await r

/-- What a program does where every read gives `x` and every query its own answer. -/
def replay (answer : (q : I.Query) → I.Answer q) (x : I.State) :
    Program I α → List (Act I) × α
  | .done a => ([], a)
  | .read next => (next x).replay answer x
  | .emit e next =>
    let r := next.replay answer x
    (.noted e :: r.1, r.2)
  | .await q next =>
    let r := (next (answer q)).replay answer x
    (.began q :: .answered q (answer q) :: r.1, r.2)

theorem traces_replay (answer : (q : I.Query) → I.Answer q) (x : I.State) (p : Program I α) :
    p.Traces (p.replay answer x).1 (p.replay answer x).2 := by
  induction p with
  | done a => exact .done a
  | read next ih => exact .read x (ih x)
  | emit e next ih => exact .emit ih
  | await q next ih => exact .await (answer q) (ih (answer q))

theorem exists_traces (answer : (q : I.Query) → I.Answer q) (x : I.State) (p : Program I α) :
    ∃ acts a, p.Traces acts a ∧ ∀ q r, .answered q r ∈ acts → r = answer q := by
  induction p with
  | done a => exact ⟨[], a, .done a, fun q r hmem => by simp at hmem⟩
  | read next ih =>
    obtain ⟨acts, a, htraces, hanswers⟩ := ih x
    exact ⟨acts, a, .read x htraces, hanswers⟩
  | emit e next ih =>
    obtain ⟨acts, a, htraces, hanswers⟩ := ih
    refine ⟨_, a, .emit htraces, fun q r hmem => ?_⟩
    rcases List.mem_cons.mp hmem with heq | hmem
    · cases heq
    · exact hanswers q r hmem
  | await q next ih =>
    obtain ⟨acts, a, htraces, hanswers⟩ := ih (answer q)
    refine ⟨_, a, .await (answer q) htraces, fun q' r hmem => ?_⟩
    rcases List.mem_cons.mp hmem with heq | hmem
    · cases heq
    · rcases List.mem_cons.mp hmem with heq | hmem
      · cases heq
        rfl
      · exact hanswers q' r hmem

theorem Traces.emits {A : Act I → Prop} {p : Program I α} {acts : List (Act I)} {a : α}
    (h : p.Traces acts a) (hp : p.Emits A) : ∀ act ∈ acts, A act := by
  induction h with
  | done a => exact nofun
  | read x _ ih => exact ih (hp x)
  | emit _ ih => exact List.forall_mem_cons.mpr ⟨hp.1, ih hp.2⟩
  | await r _ ih =>
    exact List.forall_mem_cons.mpr ⟨hp.1, List.forall_mem_cons.mpr ⟨(hp.2 r).1, ih (hp.2 r).2⟩⟩

end Program

def Stage.acts (t : ℕ) (s : Stage I) : List (Act I) :=
  (s.history.filter (·.tid == t)).map Entry.act

theorem Stage.acts_push_self (t : ℕ) (s : Stage I) (act : Act I) (x : I.State) :
    (s.push t act x).acts t = act :: s.acts t := by
  simp [acts]

theorem Stage.acts_push_of_ne (s : Stage I) {t u : ℕ} (h : u ≠ t) (act : Act I) (x : I.State) :
    (s.push u act x).acts t = s.acts t := by
  simp [acts, h]

namespace Rules

variable {R : Rules I} {t : ℕ} {s s' : Stage I}

theorem Others.acts (h : R.Others t s s') : s'.acts t = s.acts t := by
  induction h with
  | refl => rfl
  | act _ hu h ih => rw [h.eq_push, Stage.acts_push_of_ne _ hu, ih]
  | drift d _ ih => exact ih

/-- Among any other threads, a program does what one of its traces says. -/
theorem wp_traces {p : Program I α} {Q : α → Stage I → Prop} (h : R.wp t p Q s) :
    R.wp t p (fun a s' => Q a s' ∧ ∃ acts, p.Traces acts a ∧ s'.acts t = acts.reverse ++ s.acts t)
      s := by
  induction p generalizing s with
  | done a => exact ⟨h, [], .done a, rfl⟩
  | read next ih =>
    refine wp_mono (ih _ h) ?_
    rintro a s' ⟨hQ, acts, htraces, hacts⟩
    exact ⟨hQ, acts, .read _ htraces, hacts⟩
  | emit e next ih =>
    refine ⟨h.1, wp_mono (ih h.2) ?_⟩
    rintro a s' ⟨hQ, acts, htraces, hacts⟩
    refine ⟨hQ, _, .emit htraces, hacts.trans ?_⟩
    rw [Stage.note, Stage.acts_push_self, List.reverse_cons, List.append_assoc]
    rfl
  | await q next ih =>
    refine ⟨h.1, fun s₁ h₁ => ⟨(h.2 s₁ h₁).1, fun r x hx => ?_⟩⟩
    refine wp_mono (ih r ((h.2 s₁ h₁).2 r x hx)) ?_
    rintro a s' ⟨hQ, acts, htraces, hacts⟩
    refine ⟨hQ, _, .await r htraces, hacts.trans ?_⟩
    rw [Stage.acts_push_self, h₁.acts, Stage.begin, Stage.acts_push_self, List.reverse_cons,
      List.reverse_cons, List.append_assoc, List.append_assoc]
    rfl

end Rules

end Resumption
