import LastpassSshAgent.TerminalEntry

/-!
# Prompts at a terminal, among whoever else uses it

They take their turns, and what a prompt reads was typed since it flushed the queue, in that
order. The others can take keys from it, and nothing more.
-/

namespace LastpassSshAgent.TerminalEntry

open Buffers Transitions

/-! ### The prompt whose turn it is -/

namespace Place

def consumed : Place → List Key
  | .reading _ _ _ keys => keys
  | .ending _ _ _ keys enter => keys ++ [enter]
  | _ => []

def since : Place → Option ℕ
  | .looking since => some since
  | .hiding since _ => some since
  | .writing since _ => some since
  | .reading since _ _ _ => some since
  | .ending since _ _ _ _ => some since
  | _ => none

def outcome : Place → Option Outcome
  | .restoring _ outcome => some outcome
  | .ended outcome => some outcome
  | _ => none

/-- How many keys had been typed when the queue was flushed for what there is of a line. -/
def flushedAt (place : Place) : Option ℕ :=
  match place.outcome with
  | some (.entered since _ _ _) => some since
  | some (.failed _) => none
  | none => place.since

end Place

/-- A line as it was typed, before the key that ends it. -/
structure Typed (maxBytes : ℕ) (secret : CappedLine UInt8) (keys : List Key) : Prop where
  read : secret = .after maxBytes (keys.map Key.byte)
  unended : ∀ key ∈ keys, key.byte ≠ NEWLINE

theorem Typed.push {maxBytes : ℕ} {secret : CappedLine UInt8} {keys : List Key} {key : Key}
    (h : Typed maxBytes secret keys) (hkey : key.byte ≠ NEWLINE) :
    Typed maxBytes (secret.push maxBytes key.byte) (keys ++ [key]) where
  read := by rw [h.read, List.map_append, List.map_singleton, CappedLine.after_concat]
  unended := List.forall_mem_append.mpr ⟨h.unended, by simpa using hkey⟩

/-- A key typed to prompt `p`, or to none, after the first `since`. -/
structure Since (since p : ℕ) (key : Key) : Prop where
  late : since ≤ key.nth
  mark : key.prompt = none ∨ key.prompt = some p

structure Entered (maxBytes p since : ℕ) (secret : CappedLine UInt8) (keys : List Key)
    (enter : Key) : Prop where
  typed : Typed maxBytes secret keys
  ended : enter.byte = NEWLINE
  since : ∀ key ∈ keys ++ [enter], Since since p key
  inOrder : (keys ++ [enter]).Pairwise fun key key' => key.nth < key'.nth

def Outcome.Sound (maxBytes p : ℕ) : Outcome → Prop
  | .entered since secret keys enter => Entered maxBytes p since secret keys enter
  | .failed _ => True

/-- What a prompt has read so far is a part of the line, or the whole of it. -/
def Place.Reads (maxBytes : ℕ) : Place → Prop
  | .reading _ _ secret keys => Typed maxBytes secret keys
  | .ending _ _ secret keys enter => Typed maxBytes secret keys ∧ enter.byte = NEWLINE
  | _ => True

/-- The terminal as the prompt at this place has it. -/
structure Stands (maxBytes p : ℕ) (place : Place) (s : Session) : Prop where
  inOrder : (place.consumed ++ s.line.queue).Pairwise fun key key' => key.nth < key'.nth
  bounded : ∀ key ∈ place.consumed ++ s.line.queue, key.nth < s.typed
  fresh : ∀ since, place.since = some since → since ≤ s.typed ∧
    ∀ key ∈ place.consumed ++ s.line.queue, Since since p key
  reads : place.Reads maxBytes

/-- The prompt whose turn it is, and where it is; idle when it is nobody's. -/
def Session.current (s : Session) : ℕ × Place :=
  match s.turn with
  | none => (0, .idle)
  | some p => (p, s.place p)

/-- What holds of every run. -/
structure Sound (maxBytes : ℕ) (s : Session) : Prop where
  stands : Stands maxBytes s.current.1 s.current.2 s
  outcomes : ∀ p outcome, (s.place p).outcome = some outcome → outcome.Sound maxBytes p

section

variable {maxBytes : ℕ} {s t : Session} {p : ℕ} {place place' : Place} {a : Act}

theorem current_of_turn (h : s.turn = some p) : s.current = (p, s.place p) := by
  rw [Session.current, h]

theorem current_of_free (h : s.turn = none) : s.current = (0, .idle) := by
  rw [Session.current, h]

theorem mark_of_current (s : Session) : s.mark = none ∨ s.mark = some s.current.1 := by
  cases hturn : s.turn with
  | none => exact .inl (by rw [Session.mark, hturn]; rfl)
  | some p =>
    rw [Session.mark, hturn, current_of_turn hturn]
    cases hplace : (s.place p).entering <;> simp [Option.filter, hplace]

theorem Stands.typed (h : Stands maxBytes p place s) (byte : UInt8) {mark : Option ℕ}
    (hmark : mark = none ∨ mark = some p) : Stands maxBytes p place
      { s with line := s.line.type ⟨byte, s.typed, mark⟩, typed := s.typed + 1 } := by
  obtain ⟨byte', hqueue⟩ := s.line.queue_type ⟨byte, s.typed, mark⟩
  have hall : (place.consumed ++ (s.line.type ⟨byte, s.typed, mark⟩).queue).Sublist
      ((place.consumed ++ s.line.queue) ++ [⟨byte', s.typed, mark⟩]) := by
    rw [List.append_assoc]
    exact List.Sublist.append_left hqueue _
  constructor
  · refine List.Pairwise.sublist hall (List.pairwise_append.mpr ⟨h.inOrder, by simp, ?_⟩)
    intro key hkey last hlast
    obtain rfl := List.mem_singleton.mp hlast
    exact h.bounded key hkey
  · intro key hkey
    rcases List.mem_append.mp (hall.subset hkey) with hkey | hkey
    · exact Nat.lt_succ_of_lt (h.bounded key hkey)
    · obtain rfl := List.mem_singleton.mp hkey
      exact Nat.lt_succ_self _
  · intro since hsince
    obtain ⟨hle, hkeys⟩ := h.fresh since hsince
    refine ⟨Nat.le_succ_of_le hle, fun key hkey => ?_⟩
    rcases List.mem_append.mp (hall.subset hkey) with hkey | hkey
    · exact hkeys key hkey
    · obtain rfl := List.mem_singleton.mp hkey
      exact ⟨hle, hmark⟩
  · exact h.reads

theorem place_moved (s : Session) (p q : ℕ) (place : Place) :
    (s.moved p place).place q = if q = p then place else s.place q := by
  simp only [Session.moved, Function.update_apply]

theorem Stands.moves (h : Stands maxBytes p place s)
    (hconsumed : place'.consumed = place.consumed)
    (hsince : ∀ since, place'.since = some since → place.since = some since)
    (hreads : place'.Reads maxBytes) : Stands maxBytes p place' (s.moved p place') := by
  constructor
  · rw [hconsumed]
    exact h.inOrder
  · rw [hconsumed]
    exact h.bounded
  · intro since h'
    rw [hconsumed]
    exact h.fresh since (hsince since h')
  · exact hreads

theorem Stands.reads_on {key : Key} {rest : List Key} (h : Stands maxBytes p place s)
    (hready : s.line.ready = key :: rest) (hconsumed : place'.consumed = place.consumed ++ [key])
    (hsince : place'.since = place.since) (hreads : place'.Reads maxBytes) :
    Stands maxBytes p place' { s.moved p place' with line := { s.line with ready := rest } } := by
  have hqueue : place'.consumed ++ { s.line with ready := rest }.queue =
      place.consumed ++ s.line.queue := by
    rw [hconsumed, Line.queue_of_ready hready, List.append_assoc, List.singleton_append]
  constructor
  · exact (congrArg _ hqueue).mpr h.inOrder
  · exact fun key' hkey' => h.bounded key' (hqueue ▸ hkey')
  · intro since hsome
    obtain ⟨hle, hkeys⟩ := h.fresh since (hsince ▸ hsome)
    exact ⟨hle, fun key' hkey' => hkeys key' (hqueue ▸ hkey')⟩
  · exact hreads

theorem place_self (s : Session) (p : ℕ) (place : Place) : (s.moved p place).place p = place := by
  rw [place_moved, if_pos rfl]

theorem stands_of_turn (hturn : t.turn = some p) (hplace : t.place p = place)
    (h : Stands maxBytes p place t) : Stands maxBytes t.current.1 t.current.2 t := by
  rw [current_of_turn hturn, hplace]
  exact h

theorem stands_of_free (hfree : t.turn = none) (h : Stands maxBytes 0 .idle t) :
    Stands maxBytes t.current.1 t.current.2 t := by
  rw [current_of_free hfree]
  exact h

theorem Stands.fewer (h : Stands maxBytes p place s) (htyped : t.typed = s.typed)
    (hqueue : t.line.queue.Sublist s.line.queue) : Stands maxBytes p place t := by
  have hall : (place.consumed ++ t.line.queue).Sublist (place.consumed ++ s.line.queue) :=
    List.Sublist.append_left hqueue _
  constructor
  · exact h.inOrder.sublist hall
  · exact fun key hkey => htyped ▸ h.bounded key (hall.subset hkey)
  · intro since hsince
    obtain ⟨hle, hkeys⟩ := h.fresh since hsince
    exact ⟨htyped ▸ hle, fun key hkey => hkeys key (hall.subset hkey)⟩
  · exact h.reads

theorem Stands.leaves {q : ℕ} (h : Stands maxBytes p place s) (htyped : t.typed = s.typed)
    (hqueue : t.line.queue.Sublist s.line.queue) (hconsumed : place'.consumed = [])
    (hsince : place'.since = none) (hreads : place'.Reads maxBytes) :
    Stands maxBytes q place' t where
  inOrder := by
    rw [hconsumed]
    exact h.inOrder.sublist (hqueue.trans (List.sublist_append_right _ _))
  bounded key hkey := by
    rw [hconsumed] at hkey
    rw [htyped]
    exact h.bounded key (List.mem_append_right _ (hqueue.subset hkey))
  fresh := by simp [hsince]
  reads := hreads

theorem Sound.stands_step (h : Sound maxBytes s) (hstep : Step maxBytes s a t) :
    Stands maxBytes t.current.1 t.current.2 t := by
  have hs := h.stands
  cases hstep with
  | key byte => exact hs.typed byte (mark_of_current s)
  | taken key rest hready =>
    refine hs.fewer rfl ?_
    rw [Line.queue_of_ready hready]
    exact List.sublist_cons_self _ _
  | flushed => exact hs.fewer rfl (List.nil_sublist _)
  | mode mode => exact hs.fewer rfl (by simp)
  | began p hfree hplace =>
    rw [current_of_free hfree] at hs
    exact stands_of_turn rfl (place_self s p _)
      (hs.leaves rfl (List.Sublist.refl _) rfl rfl trivial)
  | opened p hturn hplace =>
    rw [current_of_turn hturn, hplace] at hs
    exact stands_of_turn hturn (place_self s p _) (hs.moves rfl nofun trivial)
  | discarded p hturn hplace =>
    rw [current_of_turn hturn, hplace] at hs
    refine stands_of_turn hturn (place_self s p _)
      ⟨by simp [Place.consumed], by simp [Place.consumed], ?_, trivial⟩
    intro since hsince
    obtain rfl := Option.some.inj hsince
    exact ⟨le_rfl, by simp [Place.consumed]⟩
  | looked p since hturn hplace =>
    rw [current_of_turn hturn, hplace] at hs
    exact stands_of_turn hturn (place_self s p _) (hs.moves rfl (fun _ h => h) trivial)
  | hid p since original hturn hplace =>
    rw [current_of_turn hturn, hplace] at hs
    refine stands_of_turn hturn (place_self s p _) ⟨?_, ?_, ?_, trivial⟩
    · simpa [Place.consumed] using hs.inOrder
    · simpa [Place.consumed, Session.moved] using hs.bounded
    · simpa [Place.consumed, Place.since, Session.moved] using hs.fresh
  | wrote p since original hturn hplace =>
    rw [current_of_turn hturn, hplace] at hs
    exact stands_of_turn hturn (place_self s p _) (hs.moves rfl (fun _ h => h) ⟨rfl, by simp⟩)
  | read p since original secret keys key rest hturn hplace hready =>
    rw [current_of_turn hturn, hplace] at hs
    refine stands_of_turn hturn (place_self s p _) ?_
    split_ifs with hnewline
    · exact hs.reads_on hready rfl rfl ⟨hs.reads, hnewline⟩
    · exact hs.reads_on hready rfl rfl (hs.reads.push hnewline)
  | finished p since original secret keys enter hturn hplace =>
    rw [current_of_turn hturn, hplace] at hs
    exact stands_of_turn hturn (place_self s p _)
      (hs.leaves rfl (List.Sublist.refl _) rfl rfl trivial)
  | unavailable p e hturn hplace =>
    exact stands_of_free rfl (hs.leaves rfl (List.Sublist.refl _) rfl rfl trivial)
  | gaveUp p original e hturn hplace =>
    exact stands_of_turn hturn (place_self s p _)
      (hs.leaves rfl (List.Sublist.refl _) rfl rfl trivial)
  | dropped p original e hturn hplace =>
    exact stands_of_turn hturn (place_self s p _)
      (hs.leaves rfl (List.nil_sublist _) rfl rfl trivial)
  | restored p original outcome hturn hplace =>
    exact stands_of_free rfl (hs.leaves rfl (by simp) rfl rfl trivial)

/-! ### What comes of a prompt -/

/-- What a prompt that moves comes to: nothing, what it had come to before, a failure, or the
line that it has read to the end. -/
def Comes (s : Session) (p : ℕ) (place : Place) : Prop :=
  place.outcome = (s.place p).outcome ∨ (s.place p).outcome = none ∧
    ((∃ e, place.outcome = some (.failed e)) ∨ ∃ since original secret keys enter,
      s.turn = some p ∧ s.place p = .ending since original secret keys enter ∧
      place.outcome = some (.entered since secret keys enter))

/-- A step of prompt `p`: only its place changes, in its turn, and the turn is kept until it
is over. -/
structure Moves (s : Session) (a : Act) (t : Session) (p : ℕ) (place : Place) : Prop where
  moved : t.place = (s.moved p place).place
  comes : Comes s p place
  flushed : ∀ n, place.flushedAt = some n → (s.place p).flushedAt = some n ∨
    a = .discarded p ∧ n = s.typed
  before : s.turn = none ∨ s.turn = some p
  after : t.turn = some p ∨ t.turn = none ∧ ∃ outcome, place = .ended outcome

/-- A step is a prompt's, or leaves the prompts as they are. -/
theorem place_of_step (hstep : Step maxBytes s a t) :
    t.place = s.place ∧ t.turn = s.turn ∨ ∃ p place, Moves s a t p place := by
  have hnothing : ∀ {p : ℕ} {place place' : Place}, s.place p = place → place.outcome = none →
      place'.outcome = none → Comes s p place' :=
    fun hplace hnone hnone' => .inl (hnone'.trans (hplace ▸ hnone.symm))
  have hflushed : ∀ {p : ℕ} {place place' : Place}, s.place p = place →
      place'.flushedAt = place.flushedAt →
      ∀ n, place'.flushedAt = some n → (s.place p).flushedAt = some n ∨
        a = .discarded p ∧ n = s.typed :=
    fun hplace hsame n hn => .inl (by rw [hplace, ← hsame, hn])
  cases id hstep with
  | key _ => exact .inl ⟨rfl, rfl⟩
  | taken _ _ _ => exact .inl ⟨rfl, rfl⟩
  | flushed => exact .inl ⟨rfl, rfl⟩
  | mode _ => exact .inl ⟨rfl, rfl⟩
  | began p hfree hplace =>
    exact .inr ⟨p, _, rfl, hnothing hplace rfl rfl, nofun, .inl hfree, .inl rfl⟩
  | opened p hturn hplace =>
    exact .inr ⟨p, _, rfl, hnothing hplace rfl rfl, nofun, .inr hturn, .inl hturn⟩
  | discarded p hturn hplace =>
    refine .inr ⟨p, _, rfl, hnothing hplace rfl rfl, fun n hn => ?_, .inr hturn, .inl hturn⟩
    exact .inr ⟨rfl, (Option.some.inj hn).symm⟩
  | looked p since hturn hplace =>
    exact .inr ⟨p, _, rfl, hnothing hplace rfl rfl, hflushed hplace rfl, .inr hturn, .inl hturn⟩
  | hid p since original hturn hplace =>
    exact .inr ⟨p, _, rfl, hnothing hplace rfl rfl, hflushed hplace rfl, .inr hturn, .inl hturn⟩
  | wrote p since original hturn hplace =>
    exact .inr ⟨p, _, rfl, hnothing hplace rfl rfl, hflushed hplace rfl, .inr hturn, .inl hturn⟩
  | read p since original secret keys key rest hturn hplace hready =>
    refine .inr ⟨p, _, rfl, hnothing hplace rfl ?_, hflushed hplace ?_, .inr hturn, .inl hturn⟩
    · split_ifs <;> rfl
    · split_ifs <;> rfl
  | finished p since original secret keys enter hturn hplace =>
    refine .inr ⟨p, _, rfl, .inr ⟨by rw [hplace]; rfl, .inr ?_⟩, hflushed hplace rfl, .inr hturn,
      .inl hturn⟩
    exact ⟨since, original, secret, keys, enter, hturn, hplace, rfl⟩
  | unavailable p e hturn hplace =>
    refine .inr ⟨p, _, rfl, .inr ⟨?_, .inl ⟨e, rfl⟩⟩, nofun, .inr hturn, .inr ⟨rfl, _, rfl⟩⟩
    rcases hplace with hplace | ⟨since, hplace⟩ | ⟨since, original, hplace⟩
    all_goals
      rw [hplace]
      rfl
  | gaveUp p original e hturn hplace =>
    refine .inr ⟨p, _, rfl, ?_, nofun, .inr hturn, .inl hturn⟩
    rcases hplace with ⟨since, hplace⟩ | ⟨since, secret, keys, hplace⟩ |
      ⟨since, secret, keys, enter, hplace⟩
    all_goals exact hnothing hplace rfl rfl
  | dropped p original e hturn hplace =>
    exact .inr ⟨p, _, rfl, .inr ⟨by rw [hplace]; rfl, .inl ⟨e, rfl⟩⟩, nofun, .inr hturn,
      .inl hturn⟩
  | restored p original outcome hturn hplace =>
    exact .inr ⟨p, _, rfl, .inl (by rw [hplace]; rfl), hflushed hplace rfl, .inr hturn,
      .inr ⟨rfl, outcome, rfl⟩⟩

theorem outcome_kept {q : ℕ} {outcome : Outcome} (hstep : Step maxBytes s a t)
    (h : (s.place q).outcome = some outcome) : (t.place q).outcome = some outcome := by
  rcases place_of_step hstep with ⟨hplace, -⟩ | ⟨p, place, ⟨hplace, hcomes, -, -, -⟩⟩
  · rw [hplace]
    exact h
  · rw [hplace, place_moved]
    split_ifs with hq
    · rw [hq] at h
      rcases hcomes with hsame | ⟨hnone, -⟩
      · exact hsame.trans h
      · exact absurd (hnone.symm.trans h) nofun
    · exact h

/-- A prompt comes to a line once it has read it to the end. -/
theorem Sound.outcomes_step (h : Sound maxBytes s) (hstep : Step maxBytes s a t) :
    ∀ p outcome, (t.place p).outcome = some outcome → outcome.Sound maxBytes p := by
  intro q outcome houtcome
  rcases place_of_step hstep with ⟨hplace, -⟩ | ⟨p, place, ⟨hplace, hcomes, -, -, -⟩⟩
  · rw [hplace] at houtcome
    exact h.outcomes q outcome houtcome
  · rw [hplace, place_moved] at houtcome
    split_ifs at houtcome with hq
    · subst hq
      rcases hcomes with hsame | ⟨-, ⟨e, hfailed⟩ |
        ⟨since, original, secret, keys, enter, hturn, hending, hentered⟩⟩
      · exact h.outcomes q outcome (hsame ▸ houtcome)
      · obtain rfl := Option.some.inj (hfailed.symm.trans houtcome)
        trivial
      · obtain rfl := Option.some.inj (hentered.symm.trans houtcome)
        have hs := h.stands
        rw [current_of_turn hturn, hending] at hs
        refine ⟨hs.reads.1, hs.reads.2, fun key hkey => ?_, hs.inOrder.sublist ?_⟩
        · exact (hs.fresh since rfl).2 key (List.mem_append_left _ hkey)
        · exact List.sublist_append_left _ _
    · exact h.outcomes q outcome houtcome

theorem Sound.step (h : Sound maxBytes s) (hstep : Step maxBytes s a t) : Sound maxBytes t where
  stands := h.stands_step hstep
  outcomes := h.outcomes_step hstep

/-! ### Every run -/

/-- A terminal in whatever state, before the first prompt. -/
structure Starts (s : Session) : Prop where
  turn : s.turn = none
  places : ∀ p, s.place p = .idle
  mode : s.line.mode = s.outside
  inOrder : s.line.queue.Pairwise fun key key' => key.nth < key'.nth
  bounded : ∀ key ∈ s.line.queue, key.nth < s.typed
  untaken : s.taken = []
  unmarked : ∀ key ∈ s.line.queue ++ s.line.echoed, key.prompt = none

theorem Starts.sound (h : Starts s) : Sound maxBytes s where
  stands := stands_of_free h.turn ⟨h.inOrder, h.bounded, nofun, trivial⟩
  outcomes p outcome hout := by
    rw [h.places p] at hout
    cases hout

/-- Every prompt but the one whose turn it is has not begun, or is over. -/
def InTurn (s : Session) : Prop :=
  ∀ p, s.turn ≠ some p → s.place p = .idle ∨ ∃ outcome, s.place p = .ended outcome

theorem InTurn.step (h : InTurn s) (hstep : Step maxBytes s a t) : InTurn t := by
  intro q hq
  rcases place_of_step hstep with ⟨hplace, hturn⟩ | ⟨p, place, ⟨hplace, -, -, hbefore, hafter⟩⟩
  · rw [hplace]
    exact h q (hturn ▸ hq)
  · rw [hplace, place_moved]
    split_ifs with hqp
    · subst hqp
      exact .inr (hafter.resolve_left hq).2
    · refine h q fun hturn => hqp ?_
      rcases hbefore with hfree | hheld
      · exact absurd (hfree.symm.trans hturn) nofun
      · exact Option.some.inj (hturn.symm.trans hheld)

/-- After `acts`, of which the prompt's flush is one, what had been typed before it. -/
def Flushes (n : ℕ) (acts : List Act) (p since : ℕ) : Prop :=
  ∃ front back, acts = front ++ .discarded p :: back ∧ since = n + (typedBytes front).length

/-- The count of the keys typed is that of the run's, and what a prompt reads was typed after
its own flush. -/
structure Counted (n : ℕ) (acts : List Act) (s : Session) : Prop where
  typed : s.typed = n + (typedBytes acts).length
  flushed : ∀ p since, (s.place p).flushedAt = some since → Flushes n acts p since

theorem Counted.step {n : ℕ} {acts : List Act} (h : Counted n acts s)
    (hstep : Step maxBytes s a t) : Counted n (acts ++ [a]) t := by
  have hcount : (typedBytes (acts ++ [a])).length =
      (typedBytes acts).length + (typedBytes [a]).length := by
    rw [typedBytes_append, List.length_append]
  have hkept : ∀ p since, (s.place p).flushedAt = some since → Flushes n (acts ++ [a]) p since := by
    intro p since hsince
    obtain ⟨front, back, rfl, hn⟩ := h.flushed p since hsince
    exact ⟨front, back ++ [a], by simp, hn⟩
  constructor
  · rw [hcount, ← Nat.add_assoc, ← h.typed]
    cases hstep <;> rfl
  · intro q since hsince
    rcases place_of_step hstep with ⟨hplace, -⟩ | ⟨p, place, ⟨hplace, -, hflushed, -, -⟩⟩
    · exact hkept q since (hplace ▸ hsince)
    · rw [hplace, place_moved] at hsince
      split_ifs at hsince with hq
      · subst hq
        rcases hflushed since hsince with hold | ⟨rfl, rfl⟩
        · exact hkept q since hold
        · exact ⟨acts, [], rfl, h.typed⟩
      · exact hkept q since hsince

theorem answer_of_entered {since : ℕ} {secret : CappedLine UInt8} {keys : List Key} {enter : Key}
    (h : Entered maxBytes p since secret keys enter) :
    (Outcome.entered since secret keys enter).answer maxBytes =
      if keys.length ≤ maxBytes then .ok (keys.map Key.byte) else .error (.tooLong maxBytes) := by
  obtain ⟨hitems, hlong, -⟩ := CappedLine.after_spec maxBytes (keys.map Key.byte)
  rw [Outcome.answer, h.typed.read, hitems, hlong, List.length_map]
  by_cases hfits : keys.length ≤ maxBytes
  · rw [decide_eq_false (Nat.not_lt.mpr hfits), if_pos hfits, if_neg Bool.false_ne_true,
      List.take_of_length_le (by rwa [List.length_map])]
  · rw [decide_eq_true (Nat.lt_of_not_le hfits), if_neg hfits, if_pos rfl]

/-- What is owed to a prompt, whatever the others do. -/
structure KeepsLines (maxBytes n : ℕ) (acts : List Act) (s : Session) : Prop where
  inTurn : InTurn s
  /-- A prompt that comes to a line has it from keys typed after it flushed the queue, in their
  order, the last of them Enter; or it refuses the line as too long. -/
  answered : ∀ p since secret keys enter, s.place p = .ended (.entered since secret keys enter) →
    Flushes n acts p since ∧ Entered maxBytes p since secret keys enter ∧
    (Outcome.entered since secret keys enter).answer maxBytes =
      if keys.length ≤ maxBytes then .ok (keys.map Key.byte) else .error (.tooLong maxBytes)

theorem Starts.invariants {acts : List Act} (h : Starts s) (hrun : Runs (Step maxBytes) s acts t) :
    Sound maxBytes t ∧ InTurn t ∧ Counted s.typed acts t := by
  refine hrun.invariant (fun acts t => Sound maxBytes t ∧ InTurn t ∧ Counted s.typed acts t)
    ⟨h.sound, fun p _ => .inl (h.places p), rfl, ?_⟩ ?_
  · intro p since hsince
    rw [h.places p] at hsince
    cases hsince
  · rintro acts t a u ⟨hsound, hturn, hcounted⟩ hstep
    exact ⟨hsound.step hstep, hturn.step hstep, hcounted.step hstep⟩

theorem keepsLines {acts : List Act} (h : Starts s) (hrun : Runs (Step maxBytes) s acts t) :
    KeepsLines maxBytes s.typed acts t := by
  obtain ⟨hsound, hturn, hcounted⟩ := h.invariants hrun
  refine ⟨hturn, fun p since secret keys enter hplace => ?_⟩
  have hentered : Entered maxBytes p since secret keys enter :=
    hsound.outcomes p (.entered since secret keys enter) (by rw [hplace]; rfl)
  exact ⟨hcounted.flushed p since (by rw [hplace]; rfl), hentered, answer_of_entered hentered⟩

end

end LastpassSshAgent.TerminalEntry
