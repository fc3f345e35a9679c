import LastpassSshAgent.NextStart

/-!
# What becomes of a discarded file

A request that finds the vault contradicting a key it advertises removes the file. A
scan under way does not notice: what it has read, it writes. The key comes back only
with a scan that had asked for it before it was discarded.
-/

namespace LastpassSshAgent

open Resumption

section

variable {env : Env} {s s' : Stage runtime} {x : Entry runtime} {file : File} {item : String}
  {keyData : KeyData}

def Lists (env : Env) (file : File) (item : String) (keyData : KeyData) : Prop :=
  ∃ remembered, Identities.load env.toml env.rememberedAt file = .ok (some remembered) ∧
    ∃ listed ∈ remembered.keys, listed.id = item ∧ ∃ publicKey,
      accept env.ssh (utf8 listed.publicKey) = .ok publicKey ∧ publicKey.keyData = keyData

/-- A request for `job` finds that the vault's key is not the one advertised, and the
file is gone. -/
def Discards (env : Env) (x : Entry runtime) (older : List (Entry runtime)) (job : Job) : Prop :=
  (∃ why, x.act = .noted (.discarded job.entry.itemId why)) ∧
    Serves ⟨x.before, older⟩ x.tid env job ∧ x.after.identities = .absent

/-- Among these acts is a read of the item's public key, from its call to its return,
that came to this key. -/
def Rereads (env : Env) (acts : List (Entry runtime)) (item : String) (keyData : KeyData) : Prop :=
  ∃ newer r mid c older source raw publicKey, acts = newer ++ r :: (mid ++ c :: older) ∧
    r.act = .noted (.returned source item "Public Key" (.ok raw)) ∧
    c.tid = r.tid ∧ c.act = .noted (.called source item "Public Key") ∧
    (∀ z ∈ mid, z.tid = r.tid → ∀ source item field, z.act ≠ .noted (.called source item field)) ∧
    accept env.ssh raw = .ok publicKey ∧ publicKey.keyData = keyData

/-- A key whose file was discarded is not listed again, unless the vault says so again. -/
def StaysDiscarded (env : Env) (s : Stage runtime) : Prop :=
  ∀ newer x older job, s.history = newer ++ x :: older → Discards env x older job →
    Lists env s.shared.identities job.entry.itemId job.entry.publicKey.keyData →
    Rereads env newer job.entry.itemId job.entry.publicKey.keyData

/-- No scan writes down a key that it had asked for by the time that key was discarded. What
cannot be encoded or put on the disk is not written. -/
def AskedSince (env : Env) (history : List (Entry runtime)) : Prop :=
  ∀ newer v mid x older job remembered bytes, history = newer ++ v :: (mid ++ x :: older) →
    v.act = .noted (.saved remembered (.ok bytes)) → v.before.diskWorks = true →
    Discards env x older job →
    (∃ listed ∈ remembered.keys, listed.id = job.entry.itemId ∧ ∃ publicKey,
      accept env.ssh (utf8 listed.publicKey) = .ok publicKey ∧
        publicKey.keyData = job.entry.publicKey.keyData) →
    ∀ c ∈ older, c.tid = v.tid →
      c.act ≠ .noted (.called .heldOnly job.entry.itemId "Public Key")

/-! ### Where the file comes from -/

def SavedSince (older : List (Entry runtime)) (s : Stage runtime) : Prop :=
  ∃ newer v mid remembered bytes, s.history = newer ++ v :: (mid ++ older) ∧
    (v.act = .noted (.saved remembered (.ok bytes)) ∧ v.before.diskWorks = true) ∧
    s.shared.identities = .regular bytes

theorem SavedSince.push {older : List (Entry runtime)} {t : ℕ} {act : Act runtime} {w : World}
    (h : SavedSince older s) (hw : w.identities = s.shared.identities) :
    SavedSince older (s.push t act w) := by
  obtain ⟨newer, v, mid, remembered, bytes, hs, hva, hfile⟩ := h
  refine ⟨⟨t, act, s.shared, w⟩ :: newer, v, mid, remembered, bytes, ?_, hva, hw.trans hfile⟩
  rw [Stage.push_history, hs]
  rfl

theorem identities_of_legal {act : Act runtime} (h : env.rules.Legal s t act s') :
    s'.shared.identities = s.shared.identities ∨ s'.shared.identities = .absent ∨
      ∃ remembered bytes, (act = .noted (.saved remembered (.ok bytes)) ∧
        s.shared.diskWorks = true) ∧ s'.shared.identities = .regular bytes := by
  cases h with
  | started _ hx =>
    left
    rw [Stage.push_shared, World.launch_eq hx]
  | began _ _ => exact .inl rfl
  | answered _ hx =>
    left
    rw [Stage.push_shared, World.effect_eq hx]
  | @noted e _ _ =>
    by_cases he : (∃ item why, e = .discarded item why) ∨ ∃ remembered encoded,
        e = .saved remembered encoded
    · rcases he with ⟨item, why, rfl⟩ | ⟨remembered, encoded, rfl⟩
      · cases hworks : s.shared.diskWorks with
        | false => simp [World.apply, Identities.remove, hworks]
        | true => simp [World.apply, Identities.remove, hworks]
      · cases encoded with
        | error e => exact .inl rfl
        | ok bytes =>
          cases hworks : s.shared.diskWorks with
          | false => simp [World.apply, Identities.save, hworks]
          | true =>
            refine .inr (.inr ⟨remembered, bytes, ⟨rfl, rfl⟩, ?_⟩)
            simp [World.apply, Identities.save, hworks]
    · left
      exact World.apply_identities (fun item why heq => he (.inl ⟨item, why, heq⟩))
        fun remembered encoded heq => he (.inr ⟨remembered, encoded, heq⟩)
  | ended _ _ => exact .inl rfl

/-- Once gone, the file is there again only when a scan has written it. -/
theorem savedSince_of_leads (h : env.rules.Leads s s') (habsent : s.shared.identities = .absent) :
    s'.shared.identities = .absent ∨ SavedSince s.history s' := by
  induction h with
  | refl => exact .inl habsent
  | @act s₁ s₂ u act hs hl ih =>
    rcases identities_of_legal hl with hfile | hgone | ⟨remembered, bytes, ⟨rfl, hworks⟩, hwritten⟩
    · rw [hl.eq_push]
      exact ih.imp (fun h => hfile.trans h) fun h => h.push hfile
    · exact .inl hgone
    · obtain ⟨mid, hmid⟩ := hs.history
      refine .inr ⟨[], ⟨u, _, s₁.shared, s₂.shared⟩, mid, remembered, bytes, ?_, ⟨rfl, hworks⟩,
        hwritten⟩
      rw [hl.history, hmid]
      rfl
  | drift d _ ih =>
    have hfile : ∀ w, (World.drift d w).identities = w.identities := by
      intro w
      cases d <;> rfl
    rw [Stage.drift_shared]
    exact ih.imp (fun h => (hfile _).trans h) fun ⟨newer, v, mid, remembered, bytes, hs, hva, h⟩ =>
      ⟨newer, v, mid, remembered, bytes, hs, hva, (hfile _).trans h⟩

theorem load_of_encode {toml : Toml} (ht : toml.RoundTrips) {path : String}
    {remembered remembered' : Remembered} {bytes : Bytes}
    (hencode : Identities.encode toml remembered = .ok bytes)
    (hload : Identities.load toml path (.regular bytes) = .ok (some remembered')) :
    remembered' = remembered := by
  obtain ⟨text, htext, rfl⟩ := Identities.encode_eq_ok.mp hencode
  obtain ⟨_, hfile, hdecode⟩ := Identities.load_eq_some.mp hload
  obtain rfl := File.regular.inj hfile
  obtain ⟨-, text', htext', hdecoded, -⟩ := Identities.decode_eq_ok.mp hdecode
  rw [fromUtf8_utf8] at htext'
  obtain rfl := Option.some.inj htext'
  exact Except.ok.inj (hdecoded.symm.trans (ht _ _ htext))

/-! ### Reading again -/

theorem split_of_later {c : Entry runtime} {mid older before rest : List (Entry runtime)}
    (h : mid ++ x :: older = before ++ c :: rest) (hcx : c ≠ x) (hlate : c ∉ older) :
    ∃ rest', mid = before ++ c :: rest' := by
  rcases List.append_eq_append_iff.mp h with ⟨front, -, hrest⟩ | ⟨front, rfl, hrest⟩
  · cases front with
    | nil => exact absurd (List.cons.inj hrest).1.symm hcx
    | cons y front =>
      obtain ⟨-, rfl⟩ := List.cons.inj hrest
      exact absurd (List.mem_append_right front List.mem_cons_self) hlate
  · cases front with
    | nil => exact absurd (List.cons.inj hrest).1 hcx
    | cons y front =>
      obtain ⟨rfl, -⟩ := List.cons.inj hrest
      exact ⟨front, rfl⟩

/-- With no scan writing what it asked for too early, discarded keys stay discarded. -/
theorem staysDiscarded_of_askedSince (h : env.Lawful s) (htoml : env.toml.RoundTrips)
    (htext : env.ssh.PublicTextRoundTrips) (hnothing : env.ssh.RefusesNothing)
    (hasked : AskedSince env s.history) : StaysDiscarded env s := by
  rintro newer x older job hs hdiscards ⟨remembered, hload, listed, hlisted, hid, publicKey,
    haccept, hkey⟩
  obtain ⟨s₀, h₀, hh₀, hb₀, -, hlead⟩ := h.cut hs
  rcases savedSince_of_leads hlead hdiscards.2.2 with habsent | hsaved
  · rw [habsent] at hload
    cases hload
  obtain ⟨newer₁, v, mid, written, bytes, hcut, ⟨hva, hworks⟩, hfile⟩ := hsaved
  obtain ⟨s₁, hn⟩ := noted_of_cut h hcut hva
  obtain ⟨hencoded, hread, -⟩ := hn.may
  rw [hfile] at hload
  obtain rfl := load_of_encode htoml hencoded.symm hload
  -- the thread that saved has read the key it lists, by a call made after the discard
  obtain ⟨raw, publicKey', ⟨r, hr, hrt, hra⟩, haccept', htext'⟩ := hread listed hlisted
  obtain rfl : publicKey = publicKey' := by
    have hagain := accept_remembered htext hnothing haccept'
    rw [htext', haccept] at hagain
    exact Except.ok.inj hagain
  rw [hid] at hra
  obtain ⟨newer₂, older₂, hcut₂⟩ := List.append_of_mem hr
  obtain ⟨s₂, hn₂⟩ := noted_of_cut hn.lawful hcut₂ hra
  obtain ⟨-, ⟨between, c, rest, hcut₃, hct, hca, hbetween⟩, -⟩ := hn₂.may
  rw [hn₂.history] at hcut₃
  have hbefore : mid ++ x :: older = newer₂ ++ r :: (between ++ c :: rest) := by
    rw [← hcut₃, ← hcut₂, hn.history]
  have hlate : c ∉ older := by
    intro hc
    exact hasked newer₁ v mid x older job remembered bytes hcut hva hworks hdiscards
      ⟨listed, hlisted, hid, publicKey, haccept, hkey⟩ c hc (hct.trans hrt) hca
  have hcx : c ≠ x := by
    rintro rfl
    obtain ⟨⟨why, hxa⟩, -⟩ := hdiscards
    exact absurd (hca.symm.trans hxa) nofun
  -- so the whole read is among the acts since
  obtain ⟨rest', hmid⟩ : ∃ rest', mid = newer₂ ++ r :: (between ++ c :: rest') := by
    have hassoc : mid ++ x :: older = (newer₂ ++ r :: between) ++ c :: rest := by
      rw [hbefore]
      simp
    obtain ⟨rest', hmid⟩ := split_of_later hassoc hcx hlate
    exact ⟨rest', by rw [hmid]; simp⟩
  have hnewer : newer = newer₁ ++ v :: mid := by
    have hsame : newer ++ x :: older = (newer₁ ++ v :: mid) ++ x :: older := by
      rw [← hs, hcut]
      simp
    exact List.append_cancel_right hsame
  refine ⟨newer₁ ++ v :: newer₂, r, between, c, rest', .heldOnly, raw, publicKey, ?_, hra, hct, hca,
    hbetween, haccept', hkey⟩
  rw [hnewer, hmid]
  simp

/-- In every run whose scans each ask for a key they write after it was last discarded,
discarded keys stay discarded in every state. -/
theorem discards_hold {P : Pool runtime} (h : env.Reachable P) (htoml : env.toml.RoundTrips)
    (htext : env.ssh.PublicTextRoundTrips) (hnothing : env.ssh.RefusesNothing)
    (hasked : AskedSince env P.stage.history) : StaysDiscarded env P.stage :=
  staysDiscarded_of_askedSince (Env.lawful h) htoml htext hnothing hasked

end

/-! ### Two scans around a discard -/

def isDiscard : Act runtime → Bool
  | .noted (.discarded _ _) => true
  | _ => false

def isSave : Act runtime → Bool
  | .noted (.saved _ _) => true
  | _ => false

def asksFor (item : String) : Act runtime → Bool
  | .noted (.called _ item' field) => item' == item && field == "Public Key"
  | _ => false

/-- The discard `i` places from the end came before anything the one thread that saves
has done. -/
def SavesLate (i t : ℕ) (history : List (Entry runtime)) : Prop :=
  (∀ x ∈ history.take i, isDiscard x.act = false) ∧
    (∀ x ∈ history, isSave x.act = true → x.tid = t) ∧ ∀ x ∈ history.drop i, x.tid ≠ t

instance (i t : ℕ) (history : List (Entry runtime)) : Decidable (SavesLate i t history) :=
  inferInstanceAs (Decidable (_ ∧ _))

theorem askedSince_of_savesLate {env : Env} {i t : ℕ} {history : List (Entry runtime)}
    (h : SavesLate i t history) : AskedSince env history := by
  intro newer v mid x older job remembered bytes hs hva _ hdiscards _ c hc hct _
  obtain ⟨hdiscard, hsave, hthread⟩ := h
  have hv : v.tid = t := by
    refine hsave v (by rw [hs]; simp) ?_
    rw [hva]
    rfl
  have hx : x ∉ history.take i := by
    intro hmem
    obtain ⟨⟨why, hxa⟩, -⟩ := hdiscards
    have hnot := hdiscard x hmem
    rw [hxa] at hnot
    exact Bool.noConfusion hnot
  have hsplit : history.take i ++ history.drop i = (newer ++ v :: mid) ++ x :: older := by
    rw [List.take_append_drop, hs]
    simp
  refine hthread c ?_ (hct.trans hv)
  rcases List.append_eq_append_iff.mp hsplit with ⟨front, -, hdrop⟩ | ⟨front, htake, hrest⟩
  · rw [hdrop]
    exact List.mem_append_right _ (List.mem_cons_of_mem _ hc)
  · cases front with
    | nil =>
      have hdrop : history.drop i = x :: older := hrest.symm
      rw [hdrop]
      exact List.mem_cons_of_mem _ hc
    | cons y front =>
      obtain ⟨rfl, -⟩ := List.cons.inj hrest
      exact absurd (htake ▸ List.mem_append_right _ List.mem_cons_self) hx

namespace Sample

/-- The same agent, started from a file that lists both keys. -/
def listing : World := { world with identities := .regular (utf8 (render (written 2))) }

theorem reachable_listing : env.Reachable (.start listing) := by
  refine ⟨listing, ⟨rfl, rfl, nofun, rfl, fun _ => rfl, rfl⟩, .refl⟩

def mismatched : List (Resumption.Move runtime) :=
  [sign 1 plain [] [5], go 1, go 1, go 1, vault 1 [2]]

/-- A scan that reads both keys when the request is over. -/
def rescanned : List (Resumption.Move runtime) := mismatched ++ keeping

/-- A scan that has read key 11 when the request comes, and key 22 when it is over. -/
def interrupted : List (Resumption.Move runtime) :=
  [.spawn 0 .refresh, go 0, vault 0 (utf8 plainText)] ++ mismatched ++
    [go 0, vault 0 (utf8 encryptedText)]

def job : Job := ⟨some ⟨some 7, 501⟩, [], ⟨plain.keyData, [5], 0⟩, served.entries.head (by decide)⟩

end Sample

/-- The act `i` places from the end discards the file over key 11, for the request that
began `j` acts before it. -/
def DiscardsAt (i j : ℕ) (history : List (Entry runtime)) : Prop :=
  ∃ x ∈ history[i]?, (x.tid = 1 ∧ x.act = .noted (.discarded "11" LpassAgent.mismatchText) ∧
      x.after.identities = .absent) ∧
    ∃ y ∈ (history.drop (i + 1))[j]?, y.tid = 1 ∧
      y.act = .started (.sign Sample.job.peer [] Sample.job.request) ∧
      y.after.served.lookup Sample.plain.keyData = some Sample.job.entry

instance (i j : ℕ) (history : List (Entry runtime)) : Decidable (DiscardsAt i j history) :=
  inferInstanceAs (Decidable (∃ x ∈ history[i]?, _))

theorem discards_of_at {i j : ℕ} {history : List (Entry runtime)} (h : DiscardsAt i j history) :
    ∃ x ∈ history[i]?, Discards Sample.env x (history.drop (i + 1)) Sample.job := by
  obtain ⟨x, hx, ⟨hxt, hxa, hfile⟩, y, hy, hyt, hya, hlookup⟩ := h
  refine ⟨x, hx, ⟨_, hxa⟩, ⟨rfl, y, List.mem_of_getElem? hy, hyt.trans hxt.symm, hya, hlookup⟩, hfile⟩

theorem discards_hold_rescanned : ∃ P, Sample.env.Reachable P ∧
    (∃ x ∈ P.stage.history[23]?, Discards Sample.env x (P.stage.history.drop 24) Sample.job) ∧
    StaysDiscarded Sample.env P.stage := by
  obtain ⟨P, hP, hdiscards, hlate⟩ := Pool.exists_of_plays
    (p := fun P => DiscardsAt 23 11 P.stage.history ∧ SavesLate 23 0 P.stage.history)
    Sample.reachable_listing
    (show ∃ P ∈ Pool.plays Sample.env.code (.start Sample.listing) Sample.rescanned,
      DiscardsAt 23 11 P.stage.history ∧ SavesLate 23 0 P.stage.history by decide +kernel)
  exact ⟨P, hP, discards_of_at hdiscards, discards_hold hP Sample.roundTrips
    Sample.publicTextRoundTrips Sample.refusesNothing (askedSince_of_savesLate hlate)⟩

/-- A scan under way when the file is discarded writes the key that it had read. -/
theorem discarded_key_relisted : ∃ P, Sample.env.Reachable P ∧ ¬ StaysDiscarded Sample.env P.stage := by
  obtain ⟨P, hP, hdiscards, hfile, hunasked⟩ := Pool.exists_of_plays
    (p := fun P => DiscardsAt 13 11 P.stage.history ∧
      P.stage.shared.identities = .regular (utf8 (Sample.render (Sample.written 2))) ∧
      ∀ c ∈ P.stage.history.take 13, asksFor "11" c.act = false)
    Sample.reachable_listing
    (show ∃ P ∈ Pool.plays Sample.env.code (.start Sample.listing) Sample.interrupted,
      DiscardsAt 13 11 P.stage.history ∧
      P.stage.shared.identities = .regular (utf8 (Sample.render (Sample.written 2))) ∧
      ∀ c ∈ P.stage.history.take 13, asksFor "11" c.act = false by decide +kernel)
  refine ⟨P, hP, fun hstays => ?_⟩
  obtain ⟨x, hx, hdiscard⟩ := discards_of_at hdiscards
  have hlists : Lists Sample.env P.stage.shared.identities "11" Sample.plain.keyData := by
    rw [hfile]
    refine ⟨Sample.written 2, by decide +kernel, ⟨"11", "plain", Sample.plainText⟩, by decide +kernel,
      rfl, Sample.plain, by decide +kernel, rfl⟩
  obtain ⟨newer, r, mid, c, rest, source, raw, publicKey, hacts, -, -, hca, -⟩ :=
    hstays _ x _ Sample.job (cut_of_getElem? hx) hdiscard hlists
  have hasked : asksFor "11" c.act = true := by
    rw [hca]
    rfl
  exact absurd (hunasked c (by rw [hacts]; simp)) (by simp [hasked])

end LastpassSshAgent
