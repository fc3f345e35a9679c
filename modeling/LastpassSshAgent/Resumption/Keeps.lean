import LastpassSshAgent.Resumption.Pool
import LastpassSshAgent.Resumption.Traces

/-!
# Programs that keep a promise while the state keeps one

`Keeps` asks of a program that, reading good states only, it does good acts only and
returns a good value. Where good acts keep the state good, a pool of such programs stays
good: every act in its history, and every state it passed through.
-/

namespace Resumption

variable {I : Interface} {α β : Type} {Good : I.State → Prop} {A : Act I → Prop}

namespace Program

/-- Reading states in `Good` only, `p` does acts in `A` only and returns a value in `Q`. -/
def Keeps (Good : I.State → Prop) (A : Act I → Prop) : Program I α → (α → Prop) → Prop
  | .done a, Q => Q a
  | .read next, Q => ∀ x, Good x → (next x).Keeps Good A Q
  | .emit e next, Q => A (.noted e) ∧ next.Keeps Good A Q
  | .await q next, Q => A (.began q) ∧ ∀ a, A (.answered q a) ∧ (next a).Keeps Good A Q

variable {p : Program I α} {Q Q' : α → Prop}

theorem Keeps.mono (h : p.Keeps Good A Q) (hQ : ∀ a, Q a → Q' a) : p.Keeps Good A Q' := by
  induction p with
  | done a => exact hQ a h
  | read next ih => exact fun x hx => ih x (h x hx)
  | emit e next ih => exact ⟨h.1, ih h.2⟩
  | await q next ih => exact ⟨h.1, fun a => ⟨(h.2 a).1, ih a (h.2 a).2⟩⟩

theorem Keeps.bind {f : α → Program I β} {R : β → Prop} (h : p.Keeps Good A Q)
    (hf : ∀ a, Q a → (f a).Keeps Good A R) : (p >>= f).Keeps Good A R := by
  induction p with
  | done a => exact hf a h
  | read next ih => exact fun x hx => ih x (h x hx)
  | emit e next ih => exact ⟨h.1, ih h.2⟩
  | await q next ih => exact ⟨h.1, fun a => ⟨(h.2 a).1, ih a (h.2 a).2⟩⟩

theorem Emits.keeps (h : p.Emits A) : p.Keeps Good A fun _ => True := by
  induction p with
  | done a => trivial
  | read next ih => exact fun x _ => ih x (h x)
  | emit e next ih => exact ⟨h.1, ih h.2⟩
  | await q next ih => exact ⟨h.1, fun a => ⟨(h.2 a).1, ih a (h.2 a).2⟩⟩

theorem Keeps.any (p : Program I α) : p.Keeps Good (fun _ => True) fun _ => True := by
  induction p with
  | done a => trivial
  | read next ih => exact fun x _ => ih x
  | emit e next ih => exact ⟨trivial, ih⟩
  | await q next ih => exact ⟨trivial, fun a => ⟨trivial, ih a⟩⟩

theorem Keeps.tell {e : I.Event} (h : A (.noted e)) :
    (Program.tell e).Keeps Good A fun _ => True := ⟨h, trivial⟩

theorem Keeps.get : (Program.get : Program I I.State).Keeps Good A Good := fun _ hx => hx

theorem Keeps.bind_congr {f g : α → Program I β} (h : p.Keeps (fun _ => True) A Q)
    (hfg : ∀ a, Q a → f a = g a) : p.bind f = p.bind g := by
  induction p with
  | done a => exact hfg a h
  | read next ih => exact congrArg Program.read (funext fun x => ih x (h x trivial))
  | emit e next ih => exact congrArg (Program.emit e) (ih h.2)
  | await q next ih => exact congrArg (Program.await q) (funext fun a => ih a (h.2 a).2)

theorem Keeps.traces {acts : List (Act I)} {a : α} (h : p.Keeps (fun _ => True) A Q)
    (ht : p.Traces acts a) : (∀ act ∈ acts, A act) ∧ Q a := by
  induction ht with
  | done a => exact ⟨by simp, h⟩
  | read x _ ih => exact ih (h x trivial)
  | emit _ ih =>
    obtain ⟨hacts, ha⟩ := ih h.2
    exact ⟨List.forall_mem_cons.mpr ⟨h.1, hacts⟩, ha⟩
  | await r _ ih =>
    obtain ⟨hacts, ha⟩ := ih (h.2 r).2
    exact ⟨List.forall_mem_cons.mpr ⟨h.1, List.forall_mem_cons.mpr ⟨(h.2 r).1, hacts⟩⟩, ha⟩

end Program

/-- What keeps the state good: how it begins, good acts, and all that happens unasked. -/
structure Preserved (init : I.State → Prop) (Good : I.State → Prop) (A : Act I → Prop) : Prop where
  init : ∀ x, init x → Good x
  noted : ∀ e x, A (.noted e) → Good x → Good (I.apply e x)
  answered : ∀ t q a x y, I.effect t q a x = some y → Good x → Good y
  launched : ∀ task x y, I.launch task x = some y → Good x → Good y
  drift : ∀ d x, Good x → Good (I.drift d x)

namespace Stage

/-- Every act on record is in `A`, and every state between them is good. -/
structure Clean (Good : I.State → Prop) (A : Act I → Prop) (s : Stage I) : Prop where
  shared : Good s.shared
  acts : ∀ x ∈ s.history, A x.act
  states : ∀ x ∈ s.history, Good x.before ∧ Good x.after

theorem Clean.push {s : Stage I} (h : s.Clean Good A) {t : ℕ} {act : Act I} {x : I.State}
    (hact : A act) (hx : Good x) : (s.push t act x).Clean Good A where
  shared := hx
  acts := List.forall_mem_cons.mpr ⟨hact, h.acts⟩
  states := List.forall_mem_cons.mpr ⟨⟨h.shared, hx⟩, h.states⟩

end Stage

theorem Program.Keeps.advance {init : I.State → Prop} (hp : Preserved init Good A)
    (hended : A .ended) {t : ℕ} {p : Program I Unit} {s : Stage I} (hs : s.Clean Good A)
    (h : p.Keeps Good A fun _ => True) :
    (advance t p s).2.Clean Good A ∧ (advance t p s).1.Keeps Good A fun _ => True := by
  induction p generalizing s with
  | done a => exact ⟨hs.push hended hs.shared, trivial⟩
  | read next ih => exact ih _ hs (h _ hs.shared)
  | emit e next ih => exact ih (hs.push h.1 (hp.noted e _ h.1 hs.shared)) h.2
  | await q next ih => exact ⟨hs.push h.1 hs.shared, h⟩

namespace Pool

/-- Each task was started once everything before it was in `A`, and so is its start. -/
def Starts (A : Act I → Prop) (P : Pool I) : Prop :=
  ∀ newer x older, P.stage.history = newer ++ x :: older → (∀ y ∈ older, A y.act) →
    ∀ task, x.act = .started task → A x.act

theorem Starts.of_suffix {P P' : Pool I} (h : P'.Starts A)
    (hs : P.stage.history <:+ P'.stage.history) : P.Starts A := by
  intro newer x older hcut
  obtain ⟨later, hlater⟩ := hs
  refine h (later ++ newer) x older ?_
  rw [← hlater, hcut, List.append_assoc]

theorem history_advance (t : ℕ) (p : Program I Unit) (s : Stage I) :
    s.history <:+ (advance t p s).2.history := by
  induction p generalizing s with
  | done a => exact List.suffix_cons _ _
  | read next ih => exact ih _ s
  | emit e next ih => exact (List.suffix_cons _ _).trans (ih (s.note t e))
  | await q next ih => exact List.suffix_cons _ _

theorem Step.history {code : I.Task → Program I Unit} {P P' : Pool I} (h : P.Step code P') :
    P.stage.history <:+ P'.stage.history := by
  cases h with
  | @spawn t task x hn hx =>
    exact (List.suffix_cons _ _).trans
      (history_advance t (code task) (P.stage.push t (.started task) x))
  | @answer t q next a x ht hx =>
    exact (List.suffix_cons _ _).trans
      (history_advance t (next a) (P.stage.push t (.answered q a) x))
  | drift d => exact List.suffix_refl _

/-- A pool whose programs keep their promise stays clean, with promises still to keep. -/
structure Clean (Good : I.State → Prop) (A : Act I → Prop) (P : Pool I) : Prop where
  stage : P.stage.Clean Good A
  threads : ∀ t p, P.threads t = some p → p.Keeps Good A fun _ => True

theorem Clean.resume {init : I.State → Prop} (hp : Preserved init Good A) (hended : A .ended)
    {P : Pool I} (hP : P.Clean Good A) {t : ℕ} {p : Program I Unit} {s : Stage I}
    (hs : s.Clean Good A) (h : p.Keeps Good A fun _ => True) : (P.resume t p s).Clean Good A := by
  obtain ⟨hstage, hthread⟩ := h.advance (t := t) hp hended hs
  refine ⟨hstage, fun u p' hu => ?_⟩
  by_cases hut : u = t
  · subst hut
    have hp' : (Resumption.advance u p s).1 = p' := by simpa [Pool.resume] using hu
    exact hp' ▸ hthread
  · have hu' : P.threads u = some p' := by simpa [Pool.resume, hut] using hu
    exact hP.threads u p' hu'

theorem Clean.step {init : I.State → Prop} (hp : Preserved init Good A) (hended : A .ended)
    {code : I.Task → Program I Unit}
    (hcode : ∀ task, A (.started task) → (code task).Keeps Good A fun _ => True) {P P' : Pool I}
    (hP : P.Clean Good A) (h : P.Step code P') (hstarts : P'.Starts A) : P'.Clean Good A := by
  cases h with
  | @spawn t task x hn hx =>
    obtain ⟨newer, hnewer⟩ := history_advance t (code task) (P.stage.push t (.started task) x)
    have hact : A (.started task) := hstarts newer ⟨t, .started task, P.stage.shared, x⟩
      P.stage.history hnewer.symm hP.stage.acts task rfl
    exact hP.resume hp hended
      (hP.stage.push hact (hp.launched task _ _ hx hP.stage.shared)) (hcode task hact)
  | @answer t q next a x ht hx =>
    have hnext := (hP.threads t _ ht).2 a
    exact hP.resume hp hended
      (hP.stage.push hnext.1 (hp.answered t q a _ _ hx hP.stage.shared)) hnext.2
  | drift d =>
    exact ⟨⟨hp.drift d _ hP.stage.shared, hP.stage.acts, hP.stage.states⟩, hP.threads⟩

/-- Wherever its schedule takes a pool of such code, it is clean. -/
theorem Reachable.clean {init : I.State → Prop} (hp : Preserved init Good A) (hended : A .ended)
    {code : I.Task → Program I Unit}
    (hcode : ∀ task, A (.started task) → (code task).Keeps Good A fun _ => True) {P : Pool I}
    (h : P.Reachable code init) (hstarts : P.Starts A) : P.Clean Good A := by
  revert hstarts
  refine h.induct (motive := fun P => P.Starts A → P.Clean Good A) (fun x hx _ => ?_)
    (fun P P' _ ih hs hstarts => ?_)
  · exact ⟨⟨hp.init x hx, by simp [start], by simp [start]⟩, fun t p ht => nomatch ht⟩
  · exact (ih (hstarts.of_suffix hs.history)).step hp hended hcode hs hstarts

end Pool

end Resumption
