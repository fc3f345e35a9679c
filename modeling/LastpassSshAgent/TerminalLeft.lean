import LastpassSshAgent.TerminalPrompts

/-!
# How the prompts leave the terminal

Where the others leave a prompt its turn: in the mode they had it in, with nothing shown of
what was typed to the prompts and nothing left of a line that was given up. A line that was
ended is then the first that the terminal makes of all that was typed since the flush.
-/

namespace LastpassSshAgent.TerminalEntry

open Buffers Transitions

namespace Place

def original : Place → Option Termios
  | .hiding _ original => some original
  | .writing _ original => some original
  | .reading _ original _ _ => some original
  | .ending _ original _ _ _ => some original
  | .dropping original _ => some original
  | .restoring original _ => some original
  | _ => none

def isHidden : Place → Bool
  | .writing _ _ => true
  | .reading _ _ _ _ => true
  | .ending _ _ _ _ _ => true
  | .dropping _ _ => true
  | .restoring _ _ => true
  | _ => false

end Place

/-- The terminal's mode as the prompt at this place has it. -/
structure Hides (place : Place) (s : Session) : Prop where
  mode : s.line.mode = if place.isHidden then hidden s.outside else s.outside
  found : ∀ original, place.original = some original → original = s.outside

/-- Prompt `p` has read a whole line, and key `n` was typed after it. -/
def EnteredBefore (s : Session) (p n : ℕ) : Prop :=
  ∃ since secret keys enter, (s.place p).outcome = some (.entered since secret keys enter) ∧
    enter.nth < n

/-- What holds of every run in which the others leave the prompts their turns. -/
structure Guarded (s : Session) : Prop where
  hides : Hides s.current.2 s
  shown : ∀ key ∈ s.line.echoed, key.prompt = none
  owned : ∀ key ∈ s.line.queue, ∀ p, key.prompt = some p → s.mark = some p ∨
    EnteredBefore s p key.nth
  taken : ∀ key ∈ s.taken, ∀ p, key.prompt = some p → EnteredBefore s p key.nth

section

variable {maxBytes : ℕ} {s t : Session} {p : ℕ} {place place' : Place} {a : Act}

theorem mark_of_turn (h : s.turn = some p) :
    s.mark = if (s.place p).entering then some p else none := by
  rw [Session.mark, h]
  simp [Option.filter]

theorem mark_of_free (h : s.turn = none) : s.mark = none := by
  rw [Session.mark, h]
  rfl

theorem isHidden_of_mark (h : s.mark = some p) : s.current.2.isHidden = true := by
  cases hturn : s.turn with
  | none =>
    rw [mark_of_free hturn] at h
    cases h
  | some q =>
    rw [mark_of_turn hturn] at h
    rw [current_of_turn hturn]
    cases hplace : s.place q <;> simp_all [Place.entering, Place.isHidden]

/-! ### The mode -/

theorem hides_of_turn (hturn : t.turn = some p) (hplace : t.place p = place)
    (h : Hides place t) : Hides t.current.2 t := by
  rw [current_of_turn hturn, hplace]
  exact h

theorem hides_of_free (hfree : t.turn = none) (h : t.line.mode = t.outside) :
    Hides t.current.2 t := by
  rw [current_of_free hfree]
  exact ⟨h, nofun⟩

theorem Hides.moves (h : Hides place s) (hmode : t.line.mode = s.line.mode)
    (houtside : t.outside = s.outside) (hhidden : place'.isHidden = place.isHidden)
    (horiginal : ∀ original, place'.original = some original → place.original = some original) :
    Hides place' t where
  mode := by rw [hmode, houtside, hhidden, h.mode]
  found original horiginal' := houtside ▸ h.found original (horiginal original horiginal')

theorem Hides.step (h : Hides s.current.2 s) (hstep : Apart maxBytes s a t) :
    Hides t.current.2 t := by
  obtain ⟨hstep, hapart⟩ := hstep
  cases hstep with
  | key byte => exact h.moves (Line.mode_type _ _) rfl rfl fun _ h => h
  | taken key rest hready => exact h.moves rfl rfl rfl fun _ h => h
  | flushed => exact h.moves rfl rfl rfl fun _ h => h
  | mode mode => exact hides_of_free (hapart trivial) (by simp)
  | began p hfree hplace =>
    rw [current_of_free hfree] at h
    exact hides_of_turn rfl (place_self s p _) (h.moves rfl rfl rfl nofun)
  | opened p hturn hplace =>
    rw [current_of_turn hturn, hplace] at h
    exact hides_of_turn hturn (place_self s p _) (h.moves rfl rfl rfl nofun)
  | discarded p hturn hplace =>
    rw [current_of_turn hturn, hplace] at h
    exact hides_of_turn hturn (place_self s p _) (h.moves rfl rfl rfl nofun)
  | looked p since hturn hplace =>
    rw [current_of_turn hturn, hplace] at h
    refine hides_of_turn hturn (place_self s p _) ⟨h.mode, fun original horiginal => ?_⟩
    obtain rfl := Option.some.inj horiginal
    exact h.mode
  | hid p since original hturn hplace =>
    rw [current_of_turn hturn, hplace] at h
    obtain rfl := h.found original rfl
    exact hides_of_turn hturn (place_self s p _)
      ⟨by simp [Place.isHidden, Session.moved], h.found⟩
  | wrote p since original hturn hplace =>
    rw [current_of_turn hturn, hplace] at h
    exact hides_of_turn hturn (place_self s p _) (h.moves rfl rfl rfl fun _ h => h)
  | read p since original secret keys key rest hturn hplace hready =>
    rw [current_of_turn hturn, hplace] at h
    refine hides_of_turn hturn (place_self s p _) ?_
    split_ifs
    · exact h.moves rfl rfl rfl fun _ h => h
    · exact h.moves rfl rfl rfl fun _ h => h
  | finished p since original secret keys enter hturn hplace =>
    rw [current_of_turn hturn, hplace] at h
    exact hides_of_turn hturn (place_self s p _) (h.moves rfl rfl rfl fun _ h => h)
  | unavailable p e hturn hplace =>
    rw [current_of_turn hturn] at h
    refine hides_of_free rfl ?_
    rcases hplace with hplace | ⟨since, hplace⟩ | ⟨since, original, hplace⟩
    all_goals
      rw [hplace] at h
      exact h.mode
  | gaveUp p original e hturn hplace =>
    rw [current_of_turn hturn] at h
    refine hides_of_turn hturn (place_self s p _) ?_
    rcases hplace with ⟨since, hplace⟩ | ⟨since, secret, keys, hplace⟩ |
      ⟨since, secret, keys, enter, hplace⟩
    all_goals
      rw [hplace] at h
      exact h.moves rfl rfl rfl fun _ h => h
  | dropped p original e hturn hplace =>
    rw [current_of_turn hturn, hplace] at h
    exact hides_of_turn hturn (place_self s p _) (h.moves rfl rfl rfl fun _ h => h)
  | restored p original outcome hturn hplace =>
    rw [current_of_turn hturn, hplace] at h
    obtain rfl := h.found original rfl
    exact hides_of_free rfl (by simp [Session.closed, Session.moved])

/-! ### What is shown, and what the others read -/

theorem Guarded.shown_step (h : Guarded s) (hstep : Step maxBytes s a t) :
    ∀ key ∈ t.line.echoed, key.prompt = none := by
  intro shown hshown
  cases hstep with
  | key byte =>
    rcases Line.mem_echoed_type hshown with hshown | ⟨hecho, hmark⟩
    · exact h.shown shown hshown
    · rcases hs : s.mark with _ | p
      · exact hmark.trans hs
      · rw [h.hides.mode, if_pos (isHidden_of_mark hs)] at hecho
        exact absurd hecho Bool.false_ne_true
  | mode mode => exact h.shown shown (by simpa using hshown)
  | hid p since original hturn hplace => exact h.shown shown (by simpa using hshown)
  | restored p original outcome hturn hplace => exact h.shown shown (by simpa using hshown)
  | _ => exact h.shown shown hshown

theorem EnteredBefore.step {q n : ℕ} (h : EnteredBefore s q n) (hstep : Step maxBytes s a t) :
    EnteredBefore t q n := by
  obtain ⟨since, secret, keys, enter, houtcome, hlt⟩ := h
  exact ⟨since, secret, keys, enter, outcome_kept hstep houtcome, hlt⟩

theorem Guarded.taken_step (h : Guarded s) (hstep : Apart maxBytes s a t) :
    ∀ key ∈ t.taken, ∀ p, key.prompt = some p → EnteredBefore t p key.nth := by
  obtain ⟨hstep, hapart⟩ := hstep
  have hkept : ∀ key ∈ s.taken, ∀ p, key.prompt = some p → EnteredBefore t p key.nth :=
    fun key hkey p hprompt => (h.taken key hkey p hprompt).step hstep
  by_cases htaken : t.taken = s.taken
  · rw [htaken]
    exact hkept
  · cases id hstep with
    | taken key rest hready =>
      intro key' hkey' p hprompt
      rcases List.mem_append.mp hkey' with hkey' | hkey'
      · exact hkept key' hkey' p hprompt
      · obtain rfl := List.mem_singleton.mp hkey'
        have hmem : key' ∈ s.line.queue := by
          rw [Line.queue_of_ready hready]
          exact List.mem_cons_self
        rcases h.owned key' hmem p hprompt with hmark | hentered
        · rw [mark_of_free (hapart trivial)] at hmark
          cases hmark
        · exact hentered.step hstep
    | _ => exact absurd rfl htaken

theorem mark_moved {q : ℕ} {line : Line} (hturn : s.turn = some p) (hplace : s.place p = place)
    (hsame : place'.entering = place.entering) (hmark : s.mark = some q) :
    Session.mark { s.moved p place' with line } = some q := by
  rw [mark_of_turn hturn, hplace] at hmark
  rw [mark_of_turn (show Session.turn { s.moved p place' with line } = some p from hturn),
    show Session.place { s.moved p place' with line } p = place' from place_self s p place', hsame]
  exact hmark

theorem mark_idle {q : ℕ} (hturn : s.turn = some p) (hplace : s.place p = place)
    (hidle : place.entering = false) : s.mark ≠ some q := by
  rw [mark_of_turn hturn, hplace, hidle]
  exact nofun

/-- What is in the queue was typed to the prompt that is entering a line, or after one that
has come to its end. -/
theorem Guarded.owned_step (h : Guarded s) (hsound : Sound maxBytes s)
    (hstep : Step maxBytes s a t) : ∀ key ∈ t.line.queue, ∀ p, key.prompt = some p →
      t.mark = some p ∨ EnteredBefore t p key.nth := by
  intro key hkey q hprompt
  -- the key was in the queue, and whose it was is still so
  have hkept : key ∈ s.line.queue → (s.mark = some q → t.mark = some q) →
      t.mark = some q ∨ EnteredBefore t q key.nth := by
    intro hmem hmark
    rcases h.owned key hmem q hprompt with hold | hentered
    · exact .inl (hmark hold)
    · exact .inr (hentered.step hstep)
  cases id hstep with
  | key byte =>
    obtain ⟨byte', hqueue⟩ := s.line.queue_type ⟨byte, s.typed, s.mark⟩
    rcases List.mem_append.mp (hqueue.subset hkey) with hmem | hmem
    · exact hkept hmem fun hmark => hmark
    · obtain rfl := List.mem_singleton.mp hmem
      exact .inl hprompt
  | taken taken rest hready =>
    refine hkept ?_ fun hmark => hmark
    rw [Line.queue_of_ready hready]
    exact List.mem_cons_of_mem _ hkey
  | flushed => cases hkey
  | mode mode => exact hkept (by simpa using hkey) fun hmark => hmark
  | began p hfree hplace =>
    refine hkept hkey fun hmark => ?_
    rw [mark_of_free hfree] at hmark
    cases hmark
  | opened p hturn hplace => exact hkept hkey (mark_moved hturn hplace rfl)
  | discarded p hturn hplace => cases hkey
  | looked p since hturn hplace => exact hkept hkey (mark_moved hturn hplace rfl)
  | hid p since original hturn hplace =>
    exact hkept (by simpa using hkey) fun hmark => absurd hmark (mark_idle hturn hplace rfl)
  | wrote p since original hturn hplace => exact hkept hkey (mark_moved hturn hplace rfl)
  | read p since original secret keys first rest hturn hplace hready =>
    refine hkept ?_ (mark_moved hturn hplace ?_)
    · rw [Line.queue_of_ready hready]
      exact List.mem_cons_of_mem _ hkey
    · split_ifs
      · rfl
      · rfl
  | finished p since original secret keys enter hturn hplace =>
    rcases h.owned key hkey q hprompt with hmark | hentered
    · have hs := hsound.stands
      rw [current_of_turn hturn, hplace] at hs
      have hq : p = q := by
        rw [mark_of_turn hturn, hplace] at hmark
        exact Option.some.inj hmark
      subst hq
      refine .inr ⟨since, secret, keys, enter, ?_, ?_⟩
      · rw [place_self]
        rfl
      · exact (List.pairwise_append.mp hs.inOrder).2.2 enter (by simp [Place.consumed]) key hkey
    · exact .inr (hentered.step hstep)
  | unavailable p e hturn hplace =>
    refine hkept hkey fun hmark => absurd hmark ?_
    rcases hplace with hplace | ⟨since, hplace⟩ | ⟨since, original, hplace⟩
    all_goals exact mark_idle hturn hplace rfl
  | gaveUp p original e hturn hplace =>
    rcases hplace with ⟨since, hplace⟩ | ⟨since, secret, keys, hplace⟩ |
      ⟨since, secret, keys, enter, hplace⟩
    all_goals exact hkept hkey (mark_moved hturn hplace rfl)
  | dropped p original e hturn hplace => cases hkey
  | restored p original outcome hturn hplace =>
    exact hkept (by simpa [Session.closed, Session.moved] using hkey)
      fun hmark => absurd hmark (mark_idle hturn hplace rfl)

theorem Guarded.step (h : Guarded s) (hsound : Sound maxBytes s) (hstep : Apart maxBytes s a t) :
    Guarded t where
  hides := h.hides.step hstep
  shown := h.shown_step hstep.1
  owned := h.owned_step hsound hstep.1
  taken := h.taken_step hstep

theorem Starts.guarded (h : Starts s) : Guarded s where
  hides := hides_of_free h.turn h.mode
  shown key hkey := h.unmarked key (List.mem_append_right _ hkey)
  owned key hkey p hprompt := by
    rw [h.unmarked key (List.mem_append_left _ hkey)] at hprompt
    cases hprompt
  taken key hkey := by
    rw [h.untaken] at hkey
    cases hkey

/-! ### Nothing of a line is missing -/

/-- All that was typed since `p` flushed the queue waits there. -/
def GathersEarly (mode : Termios) (acts : List Act) (p : ℕ) (line : Line) : Prop :=
  ∃ front before, acts = front ++ .discarded p :: before ∧
    SameBytes line (uncovered (leftIn mode front) (typedBytes before))

/-- And once `p` hides what is typed: there, or among the keys it has read. -/
def GathersLate (mode : Termios) (acts : List Act) (p : ℕ) (keys : List Key) (line : Line) : Prop :=
  ∃ front before after, acts = front ++ .discarded p :: (before ++ .hid p :: after) ∧
    SameBytes (line.putBack keys)
      (assembled (leftIn mode front) (typedBytes before) (typedBytes after))

/-- The keys are the first line that the terminal makes of what was typed from the flush of
prompt `p` to the end of its entry. -/
def Whole (mode : Termios) (acts : List Act) (p : ℕ) (keys : List Key) : Prop :=
  ∃ front before after back more,
    acts = front ++ .discarded p :: (before ++ .hid p :: (after ++ .finished p :: back)) ∧
    (assembled (leftIn mode front) (typedBytes before) (typedBytes after)).ready.map Key.byte =
      keys.map Key.byte ++ NEWLINE :: more

/-- What a prompt at this place has gathered. -/
def Place.Gathers (mode : Termios) (acts : List Act) (p : ℕ) (line : Line) : Place → Prop
  | .looking _ => GathersEarly mode acts p line
  | .hiding _ _ => GathersEarly mode acts p line
  | .writing _ _ => GathersLate mode acts p [] line
  | .reading _ _ _ keys => GathersLate mode acts p keys line
  | .ending _ _ _ keys enter => GathersLate mode acts p (keys ++ [enter]) line
  | .restoring _ (.entered _ _ keys _) => Whole mode acts p keys
  | .ended (.entered _ _ keys _) => Whole mode acts p keys
  | _ => True

/-- The others' mode is the one they last set, and each prompt has gathered what it should. -/
structure Gathered (mode : Termios) (acts : List Act) (s : Session) : Prop where
  outside : s.outside = leftIn mode acts
  gathers : ∀ p, (s.place p).Gathers mode acts p s.line

variable {mode : Termios} {acts : List Act} {line line' : Line} {keys : List Key}

theorem leftIn_append (mode : Termios) (acts : List Act) (a : Act) :
    leftIn mode (acts ++ [a]) = leftIn (leftIn mode acts) [a] := List.foldl_append

theorem GathersEarly.skip (h : GathersEarly mode acts p line) (ha : typedBytes [a] = []) :
    GathersEarly mode (acts ++ [a]) p line := by
  obtain ⟨front, before, rfl, hsame⟩ := h
  refine ⟨front, before ++ [a], by simp, ?_⟩
  rwa [typedBytes_append, ha, List.append_nil]

theorem GathersLate.skip (h : GathersLate mode acts p keys line) (ha : typedBytes [a] = []) :
    GathersLate mode (acts ++ [a]) p keys line := by
  obtain ⟨front, before, after, rfl, hsame⟩ := h
  refine ⟨front, before, after ++ [a], by simp, ?_⟩
  rwa [typedBytes_append, ha, List.append_nil]

theorem Whole.skip (h : Whole mode acts p keys) (a : Act) : Whole mode (acts ++ [a]) p keys := by
  obtain ⟨front, before, after, back, more, rfl, hmade⟩ := h
  exact ⟨front, before, after, back ++ [a], more, by simp, hmade⟩

theorem GathersEarly.type (h : GathersEarly mode acts p line) (key : Key) :
    GathersEarly mode (acts ++ [.key key.byte]) p (line.type key) := by
  obtain ⟨front, before, rfl, hsame⟩ := h
  refine ⟨front, before ++ [.key key.byte], by simp, ?_⟩
  rw [typedBytes_append, uncovered, show typedBytes [.key key.byte] = [key.byte] from rfl,
    Line.typeAll_concat]
  exact hsame.type rfl

theorem GathersLate.type (h : GathersLate mode acts p keys line) (key : Key) :
    GathersLate mode (acts ++ [.key key.byte]) p keys (line.type key) := by
  obtain ⟨front, before, after, rfl, hsame⟩ := h
  refine ⟨front, before, after ++ [.key key.byte], by simp, ?_⟩
  rw [typedBytes_append, assembled, show typedBytes [.key key.byte] = [key.byte] from rfl,
    Line.typeAll_concat, ← Line.type_putBack]
  exact hsame.type rfl

theorem Place.Gathers.type (h : place.Gathers mode acts p line) (key : Key) :
    place.Gathers mode (acts ++ [.key key.byte]) p (line.type key) := by
  match place, h with
  | .looking _, h => exact GathersEarly.type h key
  | .hiding _ _, h => exact GathersEarly.type h key
  | .writing _ _, h => exact GathersLate.type h key
  | .reading _ _ _ _, h => exact GathersLate.type h key
  | .ending _ _ _ _ _, h => exact GathersLate.type h key
  | .restoring _ (.entered _ _ _ _), h => exact Whole.skip h _
  | .ended (.entered _ _ _ _), h => exact Whole.skip h _
  | .restoring _ (.failed _), _ => trivial
  | .ended (.failed _), _ => trivial
  | .idle, _ => trivial
  | .opening, _ => trivial
  | .discarding, _ => trivial
  | .dropping _ _, _ => trivial

theorem gathers_of_out (h : place = .idle ∨ ∃ outcome, place = .ended outcome)
    (hplace : place.Gathers mode acts p line) (a : Act) (line' : Line) :
    place.Gathers mode (acts ++ [a]) p line' := by
  rcases h with rfl | ⟨outcome, rfl⟩
  · trivial
  · cases outcome with
    | entered since secret keys enter => exact Whole.skip hplace a
    | failed e => trivial

theorem Gathered.moves (h : Gathered mode acts s) (hturn : InTurn s)
    (hs : s.turn = none ∨ s.turn = some p) (houtside : t.outside = s.outside)
    (ha : leftIn (leftIn mode acts) [a] = leftIn mode acts)
    (hplace : t.place = (s.moved p place).place)
    (hgathers : place.Gathers mode (acts ++ [a]) p t.line) : Gathered mode (acts ++ [a]) t where
  outside := by rw [leftIn_append, ha, houtside, h.outside]
  gathers q := by
    rw [hplace, place_moved]
    split_ifs with hq
    · exact hq ▸ hgathers
    · refine gathers_of_out (hturn q fun hq' => hq ?_) (h.gathers q) a t.line
      rcases hs with hfree | hheld
      · exact absurd (hfree.symm.trans hq') nofun
      · exact Option.some.inj (hq'.symm.trans hheld)

theorem Gathered.step (h : Gathered mode acts s) (hturn : InTurn s) (hhides : Hides s.current.2 s)
    (hsound : Sound maxBytes s) (hstep : Apart maxBytes s a t) : Gathered mode (acts ++ [a]) t := by
  obtain ⟨hstep, hapart⟩ := hstep
  -- where the others act every prompt is out
  have hothers : s.turn = none → t.place = s.place → ∀ p,
      (t.place p).Gathers mode (acts ++ [a]) p t.line := by
    intro hfree hplace p
    rw [hplace]
    exact gathers_of_out (hturn p (by rw [hfree]; exact nofun)) (h.gathers p) a t.line
  have hkeeps : ∀ p, s.turn = some p → (s.place p).Gathers mode acts p s.line :=
    fun p _ => h.gathers p
  cases hstep with
  | key byte =>
    refine ⟨by rw [leftIn_append]; exact h.outside, fun p => ?_⟩
    exact (h.gathers p).type ⟨byte, s.typed, s.mark⟩
  | taken key rest hready =>
    exact ⟨by rw [leftIn_append]; exact h.outside, hothers (hapart trivial) rfl⟩
  | flushed => exact ⟨by rw [leftIn_append]; exact h.outside, hothers (hapart trivial) rfl⟩
  | mode mode' => exact ⟨by rw [leftIn_append]; rfl, hothers (hapart trivial) rfl⟩
  | began p hfree hplace => exact h.moves hturn (.inl hfree) rfl rfl rfl trivial
  | opened p hp hplace => exact h.moves hturn (.inr hp) rfl rfl rfl trivial
  | discarded p hp hplace =>
    refine h.moves hturn (.inr hp) rfl rfl rfl ⟨acts, [], rfl, ?_, rfl, rfl⟩
    rw [current_of_turn hp, hplace] at hhides
    exact hhides.mode.trans h.outside
  | looked p since hp hplace =>
    have hgathers := h.gathers p
    rw [hplace] at hgathers
    exact h.moves hturn (.inr hp) rfl rfl rfl (GathersEarly.skip hgathers rfl)
  | hid p since original hp hplace =>
    have hgathers := h.gathers p
    rw [hplace] at hgathers
    obtain ⟨front, before, rfl, hsame⟩ := hgathers
    refine h.moves hturn (.inr hp) rfl rfl rfl ⟨front, before, [], by simp, ?_⟩
    rw [current_of_turn hp, hplace] at hhides
    have horiginal : original = leftIn mode front :=
      (hhides.found original rfl).trans (hhides.mode.symm.trans (hsame.mode.trans uncovered_mode))
    exact horiginal ▸ hsame.setMode (hidden original)
  | wrote p since original hp hplace =>
    have hgathers := h.gathers p
    rw [hplace] at hgathers
    exact h.moves hturn (.inr hp) rfl rfl rfl (GathersLate.skip hgathers rfl)
  | read p since original secret keys key rest hp hplace hready =>
    have hgathers := h.gathers p
    rw [hplace] at hgathers
    have hread : GathersLate mode (acts ++ [.read p]) p (keys ++ [key])
        { s.line with ready := rest } := by
      obtain ⟨front, before, after, hacts, hsame⟩ : GathersLate mode (acts ++ [.read p]) p keys
        s.line := GathersLate.skip hgathers rfl
      refine ⟨front, before, after, hacts, ?_⟩
      rwa [Line.putBack_of_ready hready] at hsame
    refine h.moves hturn (.inr hp) rfl rfl rfl ?_
    split_ifs
    · exact hread
    · exact hread
  | finished p since original secret keys enter hp hplace =>
    have hgathers := h.gathers p
    rw [hplace] at hgathers
    obtain ⟨front, before, after, rfl, hsame⟩ := hgathers
    have hs := hsound.stands
    rw [current_of_turn hp, hplace] at hs
    refine h.moves hturn (.inr hp) rfl rfl rfl
      ⟨front, before, after, [], s.line.ready.map Key.byte, by simp, ?_⟩
    rw [← hsame.ready, ← hs.reads.2]
    simp [Line.putBack]
  | unavailable p e hp hplace => exact h.moves hturn (.inr hp) rfl rfl rfl trivial
  | gaveUp p original e hp hplace => exact h.moves hturn (.inr hp) rfl rfl rfl trivial
  | dropped p original e hp hplace => exact h.moves hturn (.inr hp) rfl rfl rfl trivial
  | restored p original outcome hp hplace =>
    have hgathers := h.gathers p
    rw [hplace] at hgathers
    refine h.moves hturn (.inr hp) rfl rfl rfl ?_
    cases outcome with
    | entered since secret keys enter => exact Whole.skip hgathers _
    | failed e => trivial

/-! ### Every run -/

/-- What a terminal and the others at it are owed where they leave the prompts their turns. -/
structure LeavesTerminal (mode : Termios) (acts : List Act) (s : Session) : Prop where
  /-- Between prompts it is in the mode that the others left it in. -/
  restored : s.turn = none → s.line.mode = leftIn mode acts
  /-- Nothing typed to a prompt is shown. -/
  unseen : ∀ key ∈ s.line.echoed, key.prompt = none
  /-- What the others read of what was typed to a prompt was typed after the Enter that ended
  its line. A line that was given up leaves them nothing. -/
  unleaked : ∀ key ∈ s.taken, ∀ p, key.prompt = some p → EnteredBefore s p key.nth
  /-- The line that a prompt comes to has all that was typed of it since the flush. -/
  whole : ∀ p since secret keys enter, s.place p = .ended (.entered since secret keys enter) →
    Whole mode acts p keys

theorem leavesTerminal (h : Starts s) (hrun : Runs (Apart maxBytes) s acts t) :
    LeavesTerminal s.outside acts t := by
  obtain ⟨-, -, hguarded, hgathered⟩ : Sound maxBytes t ∧ InTurn t ∧ Guarded t ∧
      Gathered s.outside acts t := by
    refine hrun.invariant (fun acts t => Sound maxBytes t ∧ InTurn t ∧ Guarded t ∧
      Gathered s.outside acts t) ⟨h.sound, fun p _ => .inl (h.places p), h.guarded, rfl, ?_⟩ ?_
    · intro p
      rw [h.places p]
      trivial
    · rintro acts t a u ⟨hsound, hturn, hguarded, hgathered⟩ hstep
      exact ⟨hsound.step hstep.1, hturn.step hstep.1, hguarded.step hsound hstep,
        hgathered.step hturn hguarded.hides hsound hstep⟩
  refine ⟨fun hfree => ?_, hguarded.shown, hguarded.taken, fun p since secret keys enter hplace => ?_⟩
  · have hmode := hguarded.hides.mode
    rw [current_of_free hfree] at hmode
    exact hmode.trans hgathered.outside
  · have hgathers := hgathered.gathers p
    rw [hplace] at hgathers
    exact hgathers

end

def shell : Session where
  line := ⟨⟨true, true, true, false⟩, [], [⟨108, 0, none⟩], [⟨108, 0, none⟩]⟩
  typed := 1
  outside := ⟨true, true, true, false⟩
  taken := []
  turn := none
  place _ := .idle

theorem starts_shell : Starts shell where
  turn := rfl
  places _ := rfl
  mode := rfl
  inOrder := by decide
  bounded := by decide
  untaken := rfl
  unmarked := by decide

end LastpassSshAgent.TerminalEntry
