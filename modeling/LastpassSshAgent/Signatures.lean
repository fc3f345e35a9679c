import LastpassSshAgent.Histories

/-!
# No signature without every check

What a released signature rests on, what has to come before anything secret is sought,
and what a refused request leaves behind: nothing.
-/

namespace LastpassSshAgent

open Resumption

variable {env : Env} {t : ℕ} {s : Stage runtime} {x y : Entry runtime} {job : Job}
  {newer older : List (Entry runtime)}

/-- The key needs no confirmation, or the user has said yes to this request, or an answer
to its question was remembered and still stood at the settle. -/
def Covered (s : Stage runtime) (t : ℕ) (env : Env) (job : Job) : Prop :=
  job.entry.confirm = false ∨
    (∃ ctx, About env job ctx ∧ s.Did t (.answered (.confirm ctx) Decision.approve)) ∨
    ∃ ctx question epoch, About env job ctx ∧ approvalQuestion ctx = some question ∧
      (∃ w ∈ s.history, w.tid = t ∧ w.act = .noted (.recalled question epoch) ∧
        w.before.approvals.rememberedIn w.before.epoch question = some epoch) ∧
      ∃ x ∈ s.history, x.tid = t ∧ x.act = .noted (.settled (.remembered epoch) false true) ∧
        x.before.epoch.locks = epoch

/-- What goes after a secret: the field calls for one, and every prompt for one. -/
def Seeks : Act runtime → Prop
  | .noted (.called _ _ field) => field = "Private Key" ∨ field = "Passphrase"
  | .began (.prompt _) => True
  | .began .masterStore => True
  | _ => False

def OfPassphrase : Act runtime → Prop
  | .noted (.called _ _ field) => field = "Passphrase"
  | .began (.prompt request) => request.masterPassword = false
  | .began (.storeGet _) => True
  | .began (.storeSet _ _) => True
  | _ => False

/-- The request that `x` started is refused before the vault is needed: for want of the
key, for its bindings, or by the user. -/
def Refused (s : Stage runtime) (env : Env) (x : Entry runtime) (peer : Option PeerInfo)
    (bindings : List SessionBinding) (request : SignRequest) : Prop :=
  x.after.served.lookup request.keyData = none ∨
    (∃ entry, x.after.served.lookup request.keyData = some entry ∧
      (env.session peer bindings).boundElsewhere entry request.data = true) ∨
    ∃ ctx, s.Did x.tid (.answered (.confirm ctx) Decision.deny)

structure Checked (env : Env) (P : Pool runtime) : Prop where
  /-- A signature is made on the entry the request names in the set served when it began,
  on bindings that allow it, with an approval, by a key whose public half is the entry's,
  over exactly the data of the request. -/
  signed : ∀ t signature, P.stage.Did t (.noted (.replied (.ok signature))) →
    ∃ job, Serves P.stage t env job ∧ job.entry.publicKey.keyData = job.request.keyData ∧
      Covered P.stage t env job ∧
      ∃ key, key.publicKey.keyData = job.entry.publicKey.keyData ∧
        signWithKey env.ssh key job.request.data job.request.flags = .ok signature
  /-- Nothing goes after a secret before the approval. -/
  cleared : ∀ newer x older, P.stage.history = newer ++ x :: older → Seeks x.act →
    ∃ job, Serves ⟨x.before, older⟩ x.tid env job ∧ Approved ⟨x.before, older⟩ x.tid job
  /-- Nothing goes after a passphrase, or stores one, unless every private key the vault
  has handed this request is the advertised one, and it has handed it one. -/
  matched : ∀ newer x older, P.stage.history = newer ++ x :: older → OfPassphrase x.act →
    ∃ job, Serves ⟨x.before, older⟩ x.tid env job ∧
      (∃ key, Fetched ⟨x.before, older⟩ x.tid env job key) ∧
      ∀ y ∈ older, y.tid = x.tid → ∀ source item pem,
        y.act = .noted (.returned source item "Private Key" (.ok pem)) →
        ∃ key, env.ssh.privateFromOpenssh pem = .ok key ∧
          key.publicKey.keyData = job.entry.publicKey.keyData
  /-- A refused request changes nothing but who has the gate. -/
  refused : ∀ x ∈ P.stage.history, ∀ peer bindings request,
    x.act = .started (.sign peer bindings request) →
    Refused P.stage env x peer bindings request →
    P.stage.Did x.tid (.noted (.replied (.error .failure))) →
    ∀ y ∈ P.stage.history, y.tid = x.tid → Inert y

/-! ### What a signature rests on -/

theorem keyData_of_lookup {store : KeyStore} {keyData : KeyData} {entry : KeyEntry}
    (h : store.lookup keyData = some entry) : entry.publicKey.keyData = keyData := by
  simpa using List.find?_some h

theorem about_of_confirmed {ctx : ConfirmContext} {d : Decision} (h : env.Lawful s)
    (hserve : Serves s t env job) (hd : s.Did t (.answered (.confirm ctx) d)) :
    About env job ctx := by
  obtain ⟨x, hx, rfl, hxa⟩ := hd
  obtain ⟨newer, older, hs⟩ := List.append_of_mem hx
  obtain ⟨s₀, h₀, hh, -, -, hlast⟩ := Rules.Lawful.answered_of_cut h hs hxa
  obtain ⟨newer', w, older', hs', hwt, hwa, -⟩ := Stage.cut_of_last hlast
  obtain ⟨s₁, -, hh₁, -, -, ⟨-, -, job', hserve', habout⟩, -⟩ := began_of_cut h₀ hs' hwa
  have hsuffix : s₁.history <:+ s.history := by
    rw [hs, ← hh, hs', hh₁]
    exact ⟨newer ++ x :: (newer' ++ [w]), by simp⟩
  rw [hwt] at hserve'
  obtain rfl := serves_unique h hserve (hserve'.mono hsuffix)
  exact habout

theorem covered_of_released (h : env.Lawful s) (hserve : Serves s t env job)
    (hreleased : Released s t) : Covered s t env job := by
  obtain ⟨x, hx, rfl, answer, asked, hxa, hverdict⟩ := hreleased
  obtain ⟨newer, older, hs⟩ := List.append_of_mem hx
  obtain ⟨s₀, hn⟩ := noted_of_cut h hs hxa
  have hsuffix : s₀.history <:+ s.history := hn.history ▸ suffix_of_cut hs
  obtain ⟨job', hserve', ha, -⟩ := hn.may
  obtain rfl := serves_unique h hserve (hserve'.mono hsuffix)
  cases answer with
  | notNeeded => exact .inl ha
  | given question epoch =>
    obtain ⟨-, ctx, y, hy, hyt, hya, -⟩ := ha
    have hd : s.Did x.tid (.answered (.confirm ctx) Decision.approve) :=
      ⟨y, hsuffix.subset hy, hyt, hya⟩
    exact .inr (.inl ⟨ctx, about_of_confirmed h hserve hd, hd⟩)
  | remembered epoch =>
    obtain ⟨question, w, hw, hwt, hwa⟩ := ha
    obtain ⟨rfl, hepoch⟩ := Approvals.verdict_remembered_covered.mp hverdict
    have hw' := hsuffix.subset hw
    obtain ⟨newer', older', hs'⟩ := List.append_of_mem hw'
    obtain ⟨s₁, hn'⟩ := noted_of_cut h hs' hwa
    obtain ⟨⟨job', ctx, hserve'', habout, hquestion⟩, hrecalled⟩ := hn'.may
    have hsuffix' : s₁.history <:+ s.history := hn'.history ▸ suffix_of_cut hs'
    rw [hwt] at hserve''
    obtain rfl := serves_unique h hserve (hserve''.mono hsuffix')
    exact .inr (.inr ⟨ctx, question, epoch, habout, hquestion,
      ⟨w, hw', hwt, hwa, hn'.before ▸ hrecalled⟩, x, hx, rfl, hxa, hepoch.symm⟩)

theorem checks_of_replied {signature : Signature} (hkeep : env.ssh.DecryptKeepsPublic)
    (h : env.Lawful s) (hd : s.Did t (.noted (.replied (.ok signature)))) :
    ∃ job, Serves s t env job ∧ job.entry.publicKey.keyData = job.request.keyData ∧
      Covered s t env job ∧ ∃ key, key.publicKey.keyData = job.entry.publicKey.keyData ∧
        signWithKey env.ssh key job.request.data job.request.flags = .ok signature := by
  obtain ⟨job, hserve, hreleased, key, key', ⟨-, -, -, -, hpublic⟩, hkey', hsign⟩ :=
    signed_of_replied h hd
  have hentry : job.entry.publicKey.keyData = job.request.keyData := by
    obtain ⟨-, x, -, -, -, hlookup⟩ := hserve
    exact keyData_of_lookup hlookup
  refine ⟨job, hserve, hentry, covered_of_released h hserve hreleased, key', ?_, hsign⟩
  rcases hkey' with rfl | ⟨secret, hdecrypt⟩
  · exact hpublic
  · exact (hkeep _ _ _ hdecrypt).trans hpublic

/-! ### What comes before a secret -/

theorem cleared_of_seeks (h : env.Lawful s) (hs : s.history = newer ++ x :: older)
    (hx : Seeks x.act) : ∃ s₀ item, env.Lawful s₀ ∧ s₀.history = older ∧
      Cleared s₀ x.tid env item := by
  cases hact : x.act with
  | began q =>
    obtain ⟨s₀, h₀, hh, -, -, hmay, -⟩ := began_of_cut h hs hact
    rw [hact] at hx
    cases q with
    | prompt request =>
      rcases asking_or_matched hmay with hask | ⟨-, -, item, hm⟩
      · obtain ⟨item, hc⟩ := hask.2.2.2.2
        exact ⟨s₀, item, h₀, hh, hc⟩
      · exact ⟨s₀, item, h₀, hh, hm.cleared⟩
    | masterStore =>
      obtain ⟨item, hc⟩ := hmay.2.2.2
      exact ⟨s₀, item, h₀, hh, hc⟩
    | _ => exact hx.elim
  | noted e =>
    rw [hact] at hx
    cases e with
    | called source item field =>
      obtain ⟨s₀, hn⟩ := noted_of_cut h hs hact
      obtain ⟨-, -, -, hprivate, hpassphrase⟩ := hn.may
      rcases hx with hfield | hfield
      · exact ⟨s₀, item, hn.lawful, hn.history, hprivate hfield⟩
      · exact ⟨s₀, item, hn.lawful, hn.history, (hpassphrase hfield).cleared⟩
    | _ => exact hx.elim
  | _ =>
    rw [hact] at hx
    exact hx.elim

theorem matched_of_passphrase (h : env.Lawful s) (hs : s.history = newer ++ x :: older)
    (hx : OfPassphrase x.act) : ∃ s₀ item, env.Lawful s₀ ∧ s₀.history = older ∧
      Matched s₀ x.tid env item := by
  cases hact : x.act with
  | began q =>
    obtain ⟨s₀, h₀, hh, -, -, hmay, -⟩ := began_of_cut h hs hact
    rw [hact] at hx
    cases q with
    | prompt request =>
      rcases asking_or_matched hmay with ⟨hmaster, -⟩ | ⟨-, -, item, hm⟩
      · exact absurd (hmaster.symm.trans hx) nofun
      · exact ⟨s₀, item, h₀, hh, hm⟩
    | storeGet fingerprint =>
      obtain ⟨-, item, hm⟩ := hmay
      exact ⟨s₀, item, h₀, hh, hm⟩
    | storeSet fingerprint secret =>
      obtain ⟨-, item, hm⟩ := hmay
      exact ⟨s₀, item, h₀, hh, hm⟩
    | _ => exact hx.elim
  | noted e =>
    rw [hact] at hx
    cases e with
    | called source item field =>
      obtain ⟨s₀, hn⟩ := noted_of_cut h hs hact
      exact ⟨s₀, item, hn.lawful, hn.history, hn.may.2.2.2.2 hx⟩
    | _ => exact hx.elim
  | _ =>
    rw [hact] at hx
    exact hx.elim

/-- The one private key a request is handed is the one that was compared. -/
theorem advertised_of_handed {key : PrivateKey} {source : MasterPasswordSource} {item : String}
    {pem : Bytes} (h : env.Lawful s) (hk : Fetched s t env job key) (hy : y ∈ s.history)
    (hyt : y.tid = t) (hya : y.act = .noted (.returned source item "Private Key" (.ok pem))) :
    ∃ key, env.ssh.privateFromOpenssh pem = .ok key ∧
      key.publicKey.keyData = job.entry.publicKey.keyData := by
  obtain ⟨source', pem', ⟨z, hz, hzt, hza⟩, hparse, hpublic⟩ := hk
  have hover : ∀ {source item pem}, HandsOver
      (.noted (.returned source item "Private Key" (.ok pem))) := rfl
  obtain rfl := handed_unique h hy hz (hyt.trans hzt.symm) (hya ▸ hover) (hza ▸ hover)
  obtain ⟨-, -, -, hpem⟩ := Event.returned.inj (Act.noted.inj (hya.symm.trans hza))
  obtain rfl := Except.ok.inj hpem
  exact ⟨key, hparse, hpublic⟩

/-! ### Refusals -/

theorem idle_of_refused {peer : Option PeerInfo} {bindings : List SessionBinding}
    {request : SignRequest} (h : env.Lawful s) (hx : x ∈ s.history)
    (hxa : x.act = .started (.sign peer bindings request))
    (hrefused : Refused s env x peer bindings request)
    (hs : s.history = newer ++ y :: older) (hyx : y.tid = x.tid)
    (hya : y.act = .noted (.replied (.error .failure))) :
    ∀ z ∈ older, z.tid = x.tid → Inert z := by
  obtain ⟨s₀, hn⟩ := noted_of_cut h hs hya
  have hsub : ∀ z ∈ s₀.history, z ∈ s.history := by
    intro z hz
    rw [hs, ← hn.history]
    simp [hz]
  rcases hn.may with ⟨⟨job, hfree, w, hw, hwt, hwa, hlookup⟩, -, hnodeny⟩ | hidle
  · obtain rfl := Rules.Lawful.started_unique h hx (hsub w hw) (hyx.symm.trans hwt.symm) hxa hwa
    obtain ⟨rfl, rfl, rfl⟩ := Task.sign.inj (Act.started.inj (hxa.symm.trans hwa))
    rcases hrefused with hnone | ⟨entry, hsome, hbound⟩ | ⟨ctx, d, hd, hdx, hda⟩
    · exact absurd (hnone.symm.trans hlookup) nofun
    · obtain rfl := Option.some.inj (hsome.symm.trans hlookup)
      exact absurd (hbound.symm.trans hfree) nofun
    · -- the denial came before the reply, so it was seen there
      rw [hs, List.mem_append, List.mem_cons] at hd
      have hy : Decides y.act := by
        rw [hya]
        trivial
      rcases hd with hd | rfl | hd
      · obtain ⟨mid₁, mid₂, rfl⟩ := List.append_of_mem hd
        have hcut : s.history = mid₁ ++ d :: (mid₂ ++ y :: older) := by simp [hs]
        exact absurd (closes_of_cut h hcut (by simp) (hyx.trans hdx.symm) hy) (hda ▸ id)
      · exact absurd (hya.symm.trans hda) nofun
      · exact absurd ⟨d, hn.history ▸ hd, hdx.trans hyx.symm, hda⟩ (hnodeny ctx)
  · intro z hz hzx
    exact hidle z (hn.history ▸ hz) (hzx.trans hyx.symm)

/-- Closing changes nothing either, once the reply is out. -/
theorem inert_of_closing {result : Except AgentError Signature} (h : env.Lawful s)
    (hs : s.history = newer ++ x :: older) (hy : y ∈ older) (hyx : y.tid = x.tid)
    (hya : y.act = .noted (.replied result)) : Inert x := by
  have hclosing : Closing x.act := closes_of_cut h hs hy hyx (hya ▸ trivial)
  cases hact : x.act with
  | noted e =>
    obtain ⟨s₀, hn⟩ := noted_of_cut h hs hact
    have hafter := hn.after
    rw [hact] at hclosing
    cases e with
    | issued => exact absurd ⟨y, hn.history ▸ hy, hyx, hya⟩ (hn.may.2 result)
    | replied result' =>
      rw [Inert, hafter]
      rfl
    | gateReleased =>
      rw [Inert, hafter]
      rfl
    | _ => exact hclosing.elim
  | ended =>
    obtain ⟨-, -, -, -, hafter, -⟩ := Rules.Lawful.ended_of_cut h hs hact
    rw [Inert, hafter]
  | _ =>
    rw [hact] at hclosing
    exact hclosing.elim

theorem inert_of_refused {peer : Option PeerInfo} {bindings : List SessionBinding}
    {request : SignRequest} (h : env.Lawful s) (hx : x ∈ s.history)
    (hxa : x.act = .started (.sign peer bindings request))
    (hrefused : Refused s env x peer bindings request)
    (hd : s.Did x.tid (.noted (.replied (.error .failure)))) :
    ∀ z ∈ s.history, z.tid = x.tid → Inert z := by
  obtain ⟨y, hy, hyx, hya⟩ := hd
  intro z hz hzx
  rcases cut_two hy hz with rfl | ⟨newer, older, hs, hmem⟩ | ⟨newer, older, hs, hmem⟩
  · obtain ⟨newer, older, hs⟩ := List.append_of_mem hy
    obtain ⟨s₀, hn⟩ := noted_of_cut h hs hya
    rw [Inert, hn.after]
    rfl
  · exact idle_of_refused h hx hxa hrefused hs hyx hya z hmem hzx
  · exact inert_of_closing h hs hmem (hyx.trans hzx.symm) hya

/-- Thread 0 signs with the encrypted key: a yes, the private key, an empty passphrase
field, and the passphrase from the user. -/
def unlocked : List (Move runtime) :=
  [Sample.sign 0 Sample.encrypted [] [5], Sample.go 0, Sample.go 0, Sample.go 0, Sample.vault 0 [2],
    Sample.go 0, Sample.vault 0 [], Sample.go 0]

def Unlocked (history : List (Entry runtime)) : Prop :=
  (∃ x ∈ history[2]?, x.tid = 0 ∧ x.act = .noted (.replied (.ok ⟨"ssh-ed25519", [5]⟩))) ∧
    ∃ x ∈ history[6]?, x.tid = 0 ∧ x.act = .began (.prompt
      ⟨"encrypted", "SHA256:NLdqJRa09Cyk2UmlrxigWOPAmSNg4WqfM9zePIBAklU", "22", false⟩)

set_option synthInstance.maxSize 1000 in
instance (history : List (Entry runtime)) : Decidable (Unlocked history) :=
  inferInstanceAs (Decidable (_ ∧ _))

end LastpassSshAgent
