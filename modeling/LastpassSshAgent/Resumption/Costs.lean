import LastpassSshAgent.Resumption.Draining

/-!
# What a program costs

Awaits and events have a price. `Costs` bounds what a program pays on any path, with what
its value leaves over for whatever comes next; so the bounds of a chain add up, and what has
been paid for once need not be paid for again.
-/

namespace Resumption

variable {I : Interface} {α β : Type}

structure Price (I : Interface) where
  query : I.Query → ℕ
  event : I.Event → ℕ

def Price.act (price : Price I) : Act I → ℕ
  | .began q => price.query q
  | .noted e => price.event e
  | _ => 0

def Price.acts (price : Price I) (acts : List (Act I)) : ℕ := (acts.map price.act).sum

namespace Price

variable (price : Price I)

@[simp] theorem act_started (task : I.Task) : price.act (.started task) = 0 := rfl

@[simp] theorem act_began (q : I.Query) : price.act (.began q) = price.query q := rfl

@[simp] theorem act_answered (q : I.Query) (a : I.Answer q) : price.act (.answered q a) = 0 := rfl

@[simp] theorem act_noted (e : I.Event) : price.act (.noted e) = price.event e := rfl

@[simp] theorem act_ended : price.act .ended = 0 := rfl

@[simp] theorem acts_nil : price.acts [] = 0 := rfl

@[simp] theorem acts_cons (act : Act I) (acts : List (Act I)) :
    price.acts (act :: acts) = price.act act + price.acts acts := by
  simp [Price.acts]

theorem acts_append (acts acts' : List (Act I)) :
    price.acts (acts ++ acts') = price.acts acts + price.acts acts' := by
  simp [Price.acts]

theorem acts_reverse (acts : List (Act I)) : price.acts acts.reverse = price.acts acts := by
  simp [Price.acts, List.map_reverse, List.sum_reverse]

end Price

namespace Program

/-- With `n` to spend, `p` can pay its way on every path and has `left a` over at its value. -/
def Costs (price : Price I) : Program I α → ℕ → (α → ℕ) → Prop
  | .done a, n, left => left a ≤ n
  | .read next, n, left => ∀ x, (next x).Costs price n left
  | .emit e next, n, left => ∃ m, price.event e + m ≤ n ∧ next.Costs price m left
  | .await q next, n, left => ∃ m, price.query q + m ≤ n ∧ ∀ a, (next a).Costs price m left

variable {price : Price I} {p : Program I α} {m n : ℕ} {left left' : α → ℕ}
  {acts : List (Act I)} {a : α}

theorem Costs.mono (h : p.Costs price n left) (hn : n ≤ m) (hleft : ∀ a, left' a ≤ left a) :
    p.Costs price m left' := by
  induction p generalizing n m with
  | done a => exact ((hleft a).trans h).trans hn
  | read next ih => exact fun x => ih x (h x) hn
  | emit e next ih =>
    obtain ⟨k, hk, hnext⟩ := h
    exact ⟨k, hk.trans hn, ih hnext le_rfl⟩
  | await q next ih =>
    obtain ⟨k, hk, hnext⟩ := h
    exact ⟨k, hk.trans hn, fun a => ih a (hnext a) le_rfl⟩

theorem Costs.bind {f : α → Program I β} {left' : β → ℕ} (h : p.Costs price n left)
    (hf : ∀ a, (f a).Costs price (left a) left') : (p >>= f).Costs price n left' := by
  induction p generalizing n with
  | done a => exact (hf a).mono h fun _ => le_rfl
  | read next ih => exact fun x => ih x (h x)
  | emit e next ih =>
    obtain ⟨k, hk, hnext⟩ := h
    exact ⟨k, hk, ih hnext⟩
  | await q next ih =>
    obtain ⟨k, hk, hnext⟩ := h
    exact ⟨k, hk, fun a => ih a (hnext a)⟩

theorem Costs.add (h : p.Costs price n left) (k : ℕ) :
    p.Costs price (n + k) fun a => left a + k := by
  induction p generalizing n with
  | done a => exact Nat.add_le_add_right h k
  | read next ih => exact fun x => ih x (h x)
  | emit e next ih =>
    obtain ⟨m, hm, hnext⟩ := h
    exact ⟨m + k, by omega, ih hnext⟩
  | await q next ih =>
    obtain ⟨m, hm, hnext⟩ := h
    exact ⟨m + k, by omega, fun a => ih a (hnext a)⟩

theorem Costs.andThen {f : α → Program I β} {left' : β → ℕ} {k : ℕ} (h : p.Costs price m left)
    (hf : ∀ a, (f a).Costs price (left a + k) left') (hn : m + k ≤ n) :
    (p >>= f).Costs price n left' :=
  ((h.add k).mono hn fun _ => le_rfl).bind hf

theorem Costs.seq {f : α → Program I β} {left' : β → ℕ} {k : ℕ}
    (h : p.Costs price m fun _ => 0) (hf : ∀ a, (f a).Costs price k left') (hn : m + k ≤ n) :
    (p >>= f).Costs price n left' :=
  h.andThen (fun a => (hf a).mono (Nat.zero_add k).ge fun _ => le_rfl) hn

theorem Costs.pure {a : α} (h : left a ≤ n) : (pure a : Program I α).Costs price n left := h

theorem Costs.ask (q : I.Query) : (Program.ask q).Costs price (price.query q) fun _ => 0 :=
  ⟨0, le_rfl, fun _ => le_rfl⟩

theorem Costs.tell (e : I.Event) : (Program.tell e).Costs price (price.event e) fun _ => 0 :=
  ⟨0, le_rfl, le_rfl⟩

/-- What is left of a program can be paid from what has not been spent. -/
theorem Costs.leaves {p' : Program I α} (h : p.Costs price n left) (hleaves : p.Leaves acts p') :
    ∃ m, price.acts acts + m ≤ n ∧ p'.Costs price m left := by
  induction hleaves generalizing n with
  | refl p => exact ⟨n, by simp, h⟩
  | read x _ ih => exact ih (h x)
  | emit _ ih =>
    obtain ⟨k, hk, hnext⟩ := h
    obtain ⟨m, hm, hrest⟩ := ih hnext
    exact ⟨m, by rw [Price.acts_cons, Price.act_noted]; omega, hrest⟩
  | await r _ ih =>
    obtain ⟨k, hk, hnext⟩ := h
    obtain ⟨m, hm, hrest⟩ := ih (hnext r)
    refine ⟨m, ?_, hrest⟩
    rw [Price.acts_cons, Price.acts_cons, Price.act_began, Price.act_answered]
    omega

end Program

namespace Pool

variable {code : I.Task → Program I Unit} {init : I.State → Prop} {P : Pool I} {t n : ℕ}
  {price : Price I} {task : I.Task}

/-- However the pool is scheduled, a thread pays no more than its task costs. -/
theorem Reachable.paid (h : P.Reachable code init) (hstarted : .started task ∈ P.stage.acts t)
    (hcosts : (code task).Costs price n fun _ => 0) : price.acts (P.stage.acts t) ≤ n := by
  cases hp : P.threads t with
  | none =>
    rw [h.traced.none t hp] at hstarted
    cases hstarted
  | some p =>
    obtain ⟨task', acts, act, hthread⟩ := h.traced.threads t p hp
    have htask : task' = task := by
      rw [hthread.acts] at hstarted
      have hrest : .started task ≠ act := by
        rintro rfl
        have hrests := hthread.rests
        cases p <;> cases hrests
      have hmem : .started task ∉ acts.reverse := fun hmem =>
        hthread.leaves.not_started task (List.mem_reverse.mp hmem)
      simpa [hrest, hmem, eq_comm] using hstarted
    subst htask
    obtain ⟨m, hm, hrest⟩ := hcosts.leaves hthread.leaves
    have hact : price.act act ≤ m := by
      have hrests := hthread.rests
      cases p with
      | done a =>
        obtain rfl := Option.some.inj hrests
        exact Nat.zero_le m
      | await q next =>
        obtain rfl := Option.some.inj hrests
        obtain ⟨k, hk, -⟩ := hrest
        exact (Nat.le_add_right _ k).trans hk
      | read next => cases hrests
      | emit e next => cases hrests
    rw [hthread.acts, Price.acts_cons, Price.acts_append, Price.acts_reverse, Price.acts_cons,
      Price.acts_nil, Price.act_started]
    omega

end Pool

end Resumption
