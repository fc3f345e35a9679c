import Mathlib.Data.String.Basic
import LastpassSshAgent.Gathering.Loop
import LastpassSshAgent.Refresher
import LastpassSshAgent.Resumption.Traces

/-!
# Discovery finds the vault's SSH keys

One call per item that the name filter keeps, several at a time. Whatever order the calls
come back in, every item was asked about once and the keys are the same, in listing order.
-/

namespace LastpassSshAgent

open Gathering

/-- A listed item, and what the vault says to its `NoteType`. -/
structure Candidate where
  item : ItemSummary
  answer : Except LpassError Bytes

def keepsName (lower : String → String) (nameFilter : Option String) (item : ItemSummary) : Bool :=
  match nameFilter.map lower with
  | none => true
  | some needle => containsText (lower item.name) needle

def candidates (lower : String → String) (nameFilter : Option String) (listed : List Candidate) :
    List Candidate := listed.filter fun c => keepsName lower nameFilter c.item

/-- What a probe hands to the loop: its item if that is a key. -/
def probeVerdict (c : Candidate) : Except LpassError (Option ItemSummary) :=
  (judgeProbe c.answer).map fun isSshKey => if isSshKey then some c.item else none

abbrev DiscoveryLoop : Type := Loop Candidate ItemSummary LpassError

def discoveryStart (items : List Candidate) : DiscoveryLoop := .start MAX_DISCOVERY_PROBES items

/-- One step of discovery's loop, and `n` of them. -/
abbrev DiscoveryStep : DiscoveryLoop → DiscoveryLoop → Prop := Step MAX_DISCOVERY_PROBES probeVerdict

abbrev DiscoveryRuns : ℕ → DiscoveryLoop → DiscoveryLoop → Prop :=
  Runs MAX_DISCOVERY_PROBES probeVerdict

/-- What discovery can return for a listing. -/
inductive Returns (lower : String → String) (nameFilter : Option String) :
    Except LpassError (List Candidate) → Except LpassError (List ItemSummary) → Prop
  | refused (e : LpassError) : Returns lower nameFilter (.error e) (.error e)
  | failed {listed : List Candidate} {n : ℕ} {s : DiscoveryLoop} {e : LpassError}
      (h : DiscoveryRuns n (discoveryStart (candidates lower nameFilter listed)) s)
      (hr : s.result = some (.error e)) : Returns lower nameFilter (.ok listed) (.error e)
  | sorted {listed : List Candidate} {n : ℕ} {s : DiscoveryLoop} {found : List ItemSummary}
      (h : DiscoveryRuns n (discoveryStart (candidates lower nameFilter listed)) s)
      (hr : s.result = some (.ok found)) :
      Returns lower nameFilter (.ok listed) (.ok (found.mergeSort listingOrder))

/-! ### One probe -/

def Fails (answer : Except LpassError Bytes) : Prop :=
  ∃ e, answer = .error e ∧ (∀ item field, e ≠ .fieldNotFound item field) ∧
    ∀ item, e ≠ .itemNotFound item

def Candidate.isSshKey (c : Candidate) : Bool := c.answer.toOption == some (utf8 "SSH Key")

theorem judgeProbe_error_iff {answer : Except LpassError Bytes} :
    (∃ e, judgeProbe answer = .error e) ↔ Fails answer := by
  constructor
  · rintro ⟨e, he⟩
    unfold judgeProbe at he
    split at he
    · cases he
    · cases he
    · cases he
    · next e' hfield hitem =>
      exact ⟨e', rfl, fun item field heq => hfield item field (by rw [heq]),
        fun item heq => hitem item (by rw [heq])⟩
  · rintro ⟨e, rfl, hfield, hitem⟩
    cases e with
    | fieldNotFound item field => exact absurd rfl (hfield item field)
    | itemNotFound item => exact absurd rfl (hitem item)
    | _ => exact ⟨_, rfl⟩

theorem probeVerdict_error_iff {c : Candidate} :
    (∃ e, probeVerdict c = .error e) ↔ Fails c.answer := by
  rw [← judgeProbe_error_iff, probeVerdict]
  cases judgeProbe c.answer <;> simp [Except.map]

theorem adds_probeVerdict (c : Candidate) :
    adds probeVerdict c = if c.isSshKey then some c.item else none := by
  obtain ⟨item, answer⟩ := c
  rw [adds, probeVerdict, Candidate.isSshKey]
  cases answer with
  | ok noteType =>
    by_cases hkey : noteType = utf8 "SSH Key" <;>
      simp [judgeProbe, hkey, Except.map, Except.toOption]
  | error e => cases e <;> rfl

theorem filterMap_adds (all : List Candidate) : all.filterMap (adds probeVerdict) =
    (all.filter Candidate.isSshKey).map Candidate.item := by
  rw [List.filterMap_congr fun c _ => adds_probeVerdict c, ← List.filterMap_eq_map,
    List.filterMap_filter]
  rfl

/-! ### Listing order -/

theorem listingOrder_iff {a b : ItemSummary} :
    listingOrder a b = true ↔ a.name < b.name ∨ a.name = b.name ∧ a.id ≤ b.id := by
  simp [listingOrder]

theorem listingOrder_trans {a b c : ItemSummary} (hab : listingOrder a b = true)
    (hbc : listingOrder b c = true) : listingOrder a c = true := by
  rw [listingOrder_iff] at hab hbc ⊢
  rcases hab with hab | ⟨hab, hids⟩
  · rcases hbc with hbc | ⟨hbc, -⟩
    · exact .inl (hab.trans hbc)
    · exact .inl (hbc ▸ hab)
  · rcases hbc with hbc | ⟨hbc, hids'⟩
    · exact .inl (hab ▸ hbc)
    · exact .inr ⟨hab.trans hbc, hids.trans hids'⟩

theorem listingOrder_total (a b : ItemSummary) : (listingOrder a b || listingOrder b a) = true := by
  rw [Bool.or_eq_true, listingOrder_iff, listingOrder_iff]
  rcases lt_trichotomy a.name b.name with hlt | heq | hgt
  · exact .inl (.inl hlt)
  · rcases le_total a.id b.id with hle | hle
    · exact .inl (.inr ⟨heq, hle⟩)
    · exact .inr (.inr ⟨heq.symm, hle⟩)
  · exact .inr (.inl hgt)

theorem listingOrder_antisymm {a b : ItemSummary} (hab : listingOrder a b = true)
    (hba : listingOrder b a = true) : a = b := by
  rw [listingOrder_iff] at hab hba
  have hname : a.name = b.name := by
    rcases hab with hab | ⟨hname, -⟩
    · rcases hba with hba | ⟨hname, -⟩
      · exact absurd hba hab.asymm
      · exact hname.symm
    · exact hname
  have hid : a.id = b.id := by
    rw [hname] at hab hba
    have hle := hab.resolve_left (lt_irrefl _)
    have hge := hba.resolve_left (lt_irrefl _)
    exact hle.2.antisymm hge.2
  cases a
  cases b
  exact (ItemSummary.mk.injEq ..).mpr ⟨hid, hname⟩

theorem mergeSort_congr {found found' : List ItemSummary} (h : found.Perm found') :
    found.mergeSort listingOrder = found'.mergeSort listingOrder := by
  have hsorted : ∀ items : List ItemSummary,
      (items.mergeSort listingOrder).Pairwise fun a b => listingOrder a b = true :=
    List.pairwise_mergeSort (fun _ _ _ => listingOrder_trans) listingOrder_total
  have hperm : (found.mergeSort listingOrder).Perm (found'.mergeSort listingOrder) :=
    (List.mergeSort_perm found _).trans (h.trans (List.mergeSort_perm found' _).symm)
  exact hperm.eq_of_pairwise (fun a b _ _ => listingOrder_antisymm) (hsorted found) (hsorted found')

/-! ### What discovery comes to -/

section

variable (lower : String → String) (nameFilter : Option String)

/-- Discovery over a listing, or over none: it ends, calls for no item twice, and finds
just the keys unless the vault fails. -/
structure Discovers (listing : Except LpassError (List Candidate)) : Prop where
  returns : ∃ r, Returns lower nameFilter listing r
  ends : ∀ listed n s, listing = .ok listed →
    DiscoveryRuns n (discoveryStart (candidates lower nameFilter listed)) s →
      n ≤ 3 * (candidates lower nameFilter listed).length + 1 ∧
        (s.result = none → ∃ t, DiscoveryStep s t)
  bounded : ∀ listed n s, listing = .ok listed →
    DiscoveryRuns n (discoveryStart (candidates lower nameFilter listed)) s →
      s.tasks.length ≤ MAX_DISCOVERY_PROBES ∧
        s.called.Subperm (candidates lower nameFilter listed)
  ok_iff : ∀ r, Returns lower nameFilter listing r → ((∃ found, r = .ok found) ↔
    ∃ listed, listing = .ok listed ∧ ∀ c ∈ candidates lower nameFilter listed, ¬ Fails c.answer)
  probed : ∀ listed n s found, listing = .ok listed →
    DiscoveryRuns n (discoveryStart (candidates lower nameFilter listed)) s →
      s.result = some (.ok found) → s.called.Perm (candidates lower nameFilter listed)
  found : ∀ listed found, listing = .ok listed → Returns lower nameFilter listing (.ok found) →
    found = (((candidates lower nameFilter listed).filter Candidate.isSshKey).map
      Candidate.item).mergeSort listingOrder

variable {lower nameFilter}

theorem max_probes_pos : 0 < MAX_DISCOVERY_PROBES := by decide

theorem sound_of_discovery {items : List Candidate} {n : ℕ} {s : DiscoveryLoop}
    (h : DiscoveryRuns n (discoveryStart items) s) :
    Sound MAX_DISCOVERY_PROBES probeVerdict items s := sound_of_runs max_probes_pos h

theorem keys_of_discovery {items : List Candidate} {n : ℕ} {s : DiscoveryLoop}
    {found : List ItemSummary} (h : DiscoveryRuns n (discoveryStart items) s)
    (hr : s.result = some (.ok found)) : s.called.Perm items ∧
      found.Perm ((items.filter Candidate.isSshKey).map Candidate.item) ∧
      ∀ c ∈ items, ¬ Fails c.answer := by
  obtain ⟨hcalled, hfound, hok⟩ := (sound_of_discovery h).complete found hr
  refine ⟨hcalled, filterMap_adds items ▸ hfound, fun c hc hfails => ?_⟩
  obtain ⟨kept, hkept⟩ := hok c hc
  obtain ⟨e, he⟩ := probeVerdict_error_iff.mpr hfails
  rw [hkept] at he
  cases he

theorem discovery_finds_keys (lower : String → String) (nameFilter : Option String)
    (listing : Except LpassError (List Candidate)) : Discovers lower nameFilter listing where
  returns := by
    cases listing with
    | error e => exact ⟨_, .refused e⟩
    | ok listed =>
      obtain ⟨n, s, r, hruns, hr⟩ := exists_result MAX_DISCOVERY_PROBES probeVerdict
        (discoveryStart (candidates lower nameFilter listed))
      cases r with
      | error e => exact ⟨_, .failed hruns hr⟩
      | ok found => exact ⟨_, .sorted hruns hr⟩
  ends listed n s _ hruns := by
    have hweight := hruns.weight
    rw [discoveryStart, Loop.weight_start] at hweight
    exact ⟨by omega, exists_step⟩
  bounded listed n s _ hruns :=
    ⟨(sound_of_discovery hruns).bounded, (sound_of_discovery hruns).once⟩
  ok_iff r hr := by
    cases hr with
    | refused e => simp
    | failed hruns hresult =>
      obtain ⟨c, hc, he⟩ := (sound_of_discovery hruns).failed _ hresult
      have hfails := probeVerdict_error_iff.mp ⟨_, he⟩
      simpa using ⟨c, hc, hfails⟩
    | sorted hruns hresult => simpa using (keys_of_discovery hruns hresult).2.2
  probed listed n s found _ hruns hresult := (keys_of_discovery hruns hresult).1
  found listed found hlisting hr := by
    cases hr with
    | sorted hruns hresult =>
      obtain rfl := Except.ok.inj hlisting
      exact mergeSort_congr (keys_of_discovery hruns hresult).2.1

end

/-! ### The agent's discovery -/

open Resumption

def HandsOverOwn (acts : List (Act runtime)) : Prop :=
  ∀ count (index : ℕ), .answered (.nextProbe count) index ∈ acts → index < count

theorem exists_refilled {probes items : List ItemSummary} {ts rest : List Candidate} {room : ℕ}
    (hts : ts.map Candidate.item = probes ++ items.take room)
    (hrest : rest.map Candidate.item = items.drop room)
    (hroom : room = MAX_DISCOVERY_PROBES - probes.length) :
    ∃ ps is : List Candidate, ps.map Candidate.item = probes ∧ is.map Candidate.item = items ∧
      ∀ called found, (Loop.refill MAX_DISCOVERY_PROBES
        ⟨is, ps.map (·, .spawned), called, found, none⟩ : DiscoveryLoop) =
          ⟨rest, ts.map (·, .spawned), called, found, none⟩ := by
  have hfront : (ts.take probes.length).map Candidate.item = probes := by
    rw [List.map_take, hts, List.take_left]
  have hback : (ts.drop probes.length).map Candidate.item = items.take room := by
    rw [List.map_drop, hts, List.drop_left]
  have hlength := congrArg List.length hfront
  have htaken := congrArg List.length hback
  have hleft := congrArg List.length hrest
  rw [List.length_map] at hlength htaken hleft
  have hsplit : (ts.drop probes.length ++ rest).take room = ts.drop probes.length ∧
      (ts.drop probes.length ++ rest).drop room = rest := by
    rw [List.length_take] at htaken
    rw [List.length_drop] at hleft
    by_cases hfew : items.length ≤ room
    · obtain rfl : rest = [] := List.eq_nil_of_length_eq_zero (by omega)
      rw [List.append_nil]
      exact ⟨List.take_of_length_le (by omega), List.drop_of_length_le (by omega)⟩
    · have hfull : (ts.drop probes.length).length = room := by omega
      exact ⟨List.take_left' hfull, List.drop_left' hfull⟩
  refine ⟨ts.take probes.length, ts.drop probes.length ++ rest, hfront, ?_, fun called found => ?_⟩
  · rw [List.map_append, hback, hrest, List.take_append_drop]
  · have hspawned : ((ts.take probes.length).map (·, Phase.spawned)).length = probes.length := by
      rw [List.length_map, hlength]
    dsimp only [Loop.refill]
    rw [hspawned, ← hroom, hsplit.1, hsplit.2, ← List.map_append, List.take_append_drop]

def unanswered (items : List ItemSummary) : List Candidate := items.map fun item => ⟨item, .ok []⟩

theorem map_unanswered (items : List ItemSummary) : (unanswered items).map Candidate.item = items := by
  rw [unanswered, List.map_map]
  exact List.map_id items

/-- For some answers, what the agent's loop has come to, discovery can come to as well. -/
def Simulated (probes items found : List ItemSummary) (r : Except LpassError (List ItemSummary)) :
    Prop :=
  ∃ ps is : List Candidate, ps.map Candidate.item = probes ∧ is.map Candidate.item = items ∧
    ∀ called, ∃ n s, DiscoveryRuns n (Loop.refill MAX_DISCOVERY_PROBES
      ⟨is, ps.map (·, .spawned), called, found, none⟩) s ∧ s.result = some r

section

variable {probes items found spawned : List ItemSummary} {room index : ℕ}
  {r : Except LpassError (List ItemSummary)}

theorem Simulated.of_spawned {ts rest : List Candidate}
    (hroom : MAX_DISCOVERY_PROBES - probes.length = room)
    (hset : probes ++ items.take room = spawned) (hts : ts.map Candidate.item = spawned)
    (hrest : rest.map Candidate.item = items.drop room)
    (h : ∀ called, ∃ n s, DiscoveryRuns n ⟨rest, ts.map (·, .spawned), called, found, none⟩ s ∧
      s.result = some r) : Simulated probes items found r := by
  obtain ⟨ps, is, hps, his, hfilled⟩ := exists_refilled (hts.trans hset.symm) hrest hroom.symm
  refine ⟨ps, is, hps, his, fun called => ?_⟩
  rw [hfilled]
  exact h called

theorem map_item_joined {before after : List Candidate} (hindex : index < spawned.length)
    (hbefore : before.map Candidate.item = spawned.take index)
    (hafter : after.map Candidate.item = spawned.drop (index + 1))
    (answer : Except LpassError Bytes) :
    (before ++ ⟨spawned[index], answer⟩ :: after).map Candidate.item = spawned := by
  rw [List.map_append, List.map_cons, hbefore, hafter, List.getElem_cons_drop,
    List.take_append_drop]

theorem map_spawned_joined (before after : List Candidate) (c : Candidate) :
    (before ++ c :: after).map (·, Phase.spawned) =
      before.map (·, .spawned) ++ (c, .spawned) :: after.map (·, .spawned) := by
  simp

theorem Simulated.of_failing {answer : Except LpassError Bytes} {e : LpassError}
    (hroom : MAX_DISCOVERY_PROBES - probes.length = room)
    (hset : probes ++ items.take room = spawned) (hindex : index < spawned.length)
    (hjudge : judgeProbe answer = .error e) : Simulated probes items found (.error e) := by
  have hverdict : probeVerdict ⟨spawned[index], answer⟩ = .error e := by
    rw [probeVerdict, hjudge]
    rfl
  exact .of_spawned hroom hset (map_item_joined hindex (map_unanswered _) (map_unanswered _) answer)
    (map_unanswered _) fun called => ⟨3, Runs.of_failing rfl (map_spawned_joined _ _ _) hverdict⟩

theorem Simulated.of_joined {answer : Except LpassError Bytes} {isSshKey : Bool}
    (hroom : MAX_DISCOVERY_PROBES - probes.length = room)
    (hset : probes ++ items.take room = spawned) (hindex : index < spawned.length)
    (hjudge : judgeProbe answer = .ok isSshKey)
    (h : Simulated (spawned.eraseIdx index) (items.drop room)
      (if isSshKey then found ++ [spawned[index]] else found) r) :
    Simulated probes items found r := by
  have hverdict : probeVerdict ⟨spawned[index], answer⟩ =
      .ok (if isSshKey then some spawned[index] else none) := by
    rw [probeVerdict, hjudge]
    rfl
  have hfound : (if isSshKey then found ++ [spawned[index]] else found) =
      found ++ (if isSshKey then some spawned[index] else none).toList := by
    cases isSshKey <;> simp
  obtain ⟨qs, is, hqs, his, hruns⟩ := h
  rw [List.eraseIdx_eq_take_drop_succ] at hqs
  have htake : (spawned.take index).length = index := List.length_take_of_le hindex.le
  have hbefore : (qs.take index).map Candidate.item = spawned.take index := by
    rw [List.map_take, hqs, List.take_left' htake]
  have hafter : (qs.drop index).map Candidate.item = spawned.drop (index + 1) := by
    rw [List.map_drop, hqs, List.drop_left' htake]
  refine .of_spawned hroom hset (map_item_joined hindex hbefore hafter answer) his fun called => ?_
  obtain ⟨n, s, hs, hresult⟩ := hruns (called ++ [⟨spawned[index], answer⟩])
  refine ⟨n + 3, s, Runs.of_task rfl (map_spawned_joined _ _ _) hverdict ?_, hresult⟩
  rw [hfound] at hs
  rw [← List.map_append, List.take_append_drop]
  exact hs

end

/-- The agent's loop over its probes is a run of this one, whose answers are those it got. -/
theorem runs_of_joinProbes {client : LpassCli} {fuel : ℕ} {probes items found : List ItemSummary}
    {acts : List (Act runtime)} {r : Except LpassError (List ItemSummary)}
    (h : (joinProbes client fuel probes items found).Traces acts r) (hown : HandsOverOwn acts)
    (hfuel : probes.length + items.length ≤ fuel) (hprobes : probes.length ≤ MAX_DISCOVERY_PROBES) :
    Simulated probes items found r := by
  induction fuel generalizing probes items found acts with
  | zero =>
    obtain rfl : probes = [] := List.eq_nil_of_length_eq_zero (by omega)
    obtain rfl : items = [] := List.eq_nil_of_length_eq_zero (by omega)
    obtain ⟨-, rfl⟩ := Program.traces_done.mp h
    exact ⟨[], [], rfl, rfl, fun called => ⟨1, _, .head (.finish rfl rfl) (.refl _), rfl⟩⟩
  | succ fuel ih =>
    unfold joinProbes at h
    dsimp only at h
    generalize hroom : MAX_DISCOVERY_PROBES - probes.length = room at h
    generalize hset : probes ++ items.take room = spawned at h
    have hlength := congrArg List.length hset
    rw [List.length_append, List.length_take] at hlength
    split_ifs at h with hempty
    · obtain rfl := List.isEmpty_iff.mp hempty
      obtain ⟨-, rfl⟩ := Program.traces_done.mp h
      have hitems : items.drop room = [] := by
        rw [List.drop_eq_nil_iff]
        rw [List.length_nil] at hlength
        have hpos := max_probes_pos
        omega
      exact .of_spawned hroom hset (List.map_nil (f := Candidate.item)) (List.map_nil.trans hitems.symm)
        fun called => ⟨1, _, .head (.finish rfl rfl) (.refl _), rfl⟩
    · obtain ⟨(index : ℕ), rest, rfl, hrest⟩ := Program.traces_ask.mp h
      have hindex : index < spawned.length := hown _ index (by simp)
      rw [List.getElem?_eq_getElem hindex] at hrest
      obtain ⟨answer, front, rest, rfl, -, hrest⟩ := Program.traces_bind.mp hrest
      have hown' : HandsOverOwn rest := fun count other hmem => hown count other (by simp [hmem])
      cases hjudge : judgeProbe answer with
      | error e =>
        simp only [hjudge] at hrest
        obtain ⟨-, rfl⟩ := Program.traces_done.mp hrest
        exact .of_failing hroom hset hindex hjudge
      | ok isSshKey =>
        simp only [hjudge] at hrest
        refine .of_joined hroom hset hindex hjudge (ih hrest hown' ?_ ?_)
        · rw [List.length_eraseIdx_of_lt hindex, List.length_drop]
          omega
        · rw [List.length_eraseIdx_of_lt hindex]
          omega

theorem candidates_none (lower : String → String) (listed : List Candidate) :
    candidates lower none listed = listed := List.filter_eq_self.mpr fun _ _ => rfl

theorem returns_of_traces (lower : String → String) {client : LpassCli} {acts : List (Act runtime)}
    {r : Except LpassError (List ItemSummary)}
    (h : (discoverSshKeyItems client).Traces acts r) (hown : HandsOverOwn acts) :
    ∃ listing front back, acts = front ++ back ∧
      client.ls.Traces front (listing.map fun listed => listed.map Candidate.item) ∧
      Returns lower none listing r := by
  obtain ⟨listing, front, rest, rfl, hls, hrest⟩ := Program.traces_bind.mp h
  cases listing with
  | error e =>
    obtain ⟨-, rfl⟩ := Program.traces_done.mp hrest
    exact ⟨.error e, front, rest, rfl, hls, .refused e⟩
  | ok items =>
    obtain ⟨found, probing, done, rfl, hprobes, hdone⟩ := Program.traces_bind.mp hrest
    obtain ⟨rfl, rfl⟩ := Program.traces_done.mp hdone
    have hown' : HandsOverOwn probing := fun count index hmem => hown count index (by simp [hmem])
    obtain ⟨ps, is, hps, his, hruns⟩ := runs_of_joinProbes hprobes hown' (by simp) (by simp)
    obtain rfl := List.map_eq_nil_iff.mp hps
    obtain ⟨n, s, hs, hresult⟩ := hruns []
    have hstart : discoveryStart (candidates lower none is) =
        Loop.refill MAX_DISCOVERY_PROBES ⟨is, [], [], [], none⟩ := by
      rw [candidates_none]
      rfl
    refine ⟨.ok is, front, probing ++ [], rfl, by simpa [Except.map, his] using hls, ?_⟩
    cases found with
    | error e => exact .failed (hstart ▸ hs) hresult
    | ok found => exact .sorted (hstart ▸ hs) hresult

end LastpassSshAgent
