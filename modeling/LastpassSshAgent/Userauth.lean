import LastpassSshAgent.Signatures

/-!
# What a bound connection gets signed

The layout of a userauth request, that the recogniser accepts that layout and nothing
else, and that a connection with bindings gets nothing else signed.
-/

namespace LastpassSshAgent

open Framing Resumption

/-! ### Strings on the wire -/

/-- What a length of four bytes can stand before. -/
@[ext]
structure WireString where
  bytes : Bytes
  short : bytes.length < 2 ^ 32

def toBeBytes (n : ℕ) : Bytes :=
  [.ofNat (n / 2 ^ 24), .ofNat (n / 2 ^ 16), .ofNat (n / 2 ^ 8), .ofNat n]

namespace WireString

def encode (string : WireString) : Bytes := toBeBytes string.bytes.length ++ string.bytes

def Spells (bytes encoded : Bytes) : Prop :=
  ∃ string : WireString, string.bytes = bytes ∧ encoded = string.encode

end WireString

theorem fromBeBytes_four (a b c d : UInt8) :
    Wire.fromBeBytes [a, b, c, d] =
      a.toNat * 2 ^ 24 + b.toNat * 2 ^ 16 + c.toNat * 2 ^ 8 + d.toNat := by
  simp only [Wire.fromBeBytes, List.foldl_cons, List.foldl_nil]
  omega

theorem fromBeBytes_toBeBytes {n : ℕ} (h : n < 2 ^ 32) : Wire.fromBeBytes (toBeBytes n) = n := by
  rw [toBeBytes, fromBeBytes_four]
  simp only [UInt8.toNat_ofNat']
  omega

theorem toBeBytes_fromBeBytes (a b c d : UInt8) :
    toBeBytes (Wire.fromBeBytes [a, b, c, d]) = [a, b, c, d] := by
  have hb := b.toNat_lt
  have hc := c.toNat_lt
  have hd := d.toNat_lt
  rw [fromBeBytes_four, toBeBytes]
  simp only [List.cons.injEq, ← UInt8.toNat_inj, UInt8.toNat_ofNat', and_true]
  have ha := a.toNat_lt
  omega

theorem fromBeBytes_lt (a b c d : UInt8) : Wire.fromBeBytes [a, b, c, d] < 2 ^ 32 := by
  have ha := a.toNat_lt
  have hb := b.toNat_lt
  have hc := c.toNat_lt
  have hd := d.toNat_lt
  rw [fromBeBytes_four]
  omega

namespace Wire

theorem string_short {data : Bytes} (h : data.length < 4) :
    Wire.string data = OptionT.mk (.ok none) := by
  have hrange : getRange data 0 4 = none := by simp [getRange, h]
  simp only [Wire.string, stringEnd, hrange, Option.bind_none]

theorem string_framed (a b c d : UInt8) (rest : Bytes) :
    Wire.string (a :: b :: c :: d :: rest) =
      OptionT.mk (.ok (if fromBeBytes [a, b, c, d] ≤ rest.length then
        some (rest.take (fromBeBytes [a, b, c, d]), rest.drop (fromBeBytes [a, b, c, d]))
      else none)) := by
  have hlt := fromBeBytes_lt a b c d
  have hend : stringEnd (a :: b :: c :: d :: rest) = some (4 + fromBeBytes [a, b, c, d]) := by
    have hrange : getRange (a :: b :: c :: d :: rest) 0 4 = some [a, b, c, d] := by
      simp [getRange]
    rw [stringEnd, hrange, Option.bind_some, checkedAdd, if_pos (by unfold USIZE_BOUND; omega)]
  generalize fromBeBytes [a, b, c, d] = n at hlt hend ⊢
  by_cases hn : n ≤ rest.length
  · have hvalue : getRange (a :: b :: c :: d :: rest) 4 (4 + n) = some (rest.take n) := by
      simp [getRange, hn, Nat.add_comm 4 n]
    have hrest : sliceFrom (a :: b :: c :: d :: rest) (4 + n) = .ok (rest.drop n) := by
      simp [sliceFrom, hn, Nat.add_comm 4 n]
    simp only [Wire.string, hend, hvalue, hrest, if_pos hn]
    rfl
  · have hvalue : getRange (a :: b :: c :: d :: rest) 4 (4 + n) = none := by
      simp [getRange, hn, Nat.add_comm 4 n]
    simp only [Wire.string, hend, hvalue, if_neg hn]

theorem byte_reads : Reads byte fun b used => used = [b] := by
  intro data
  cases data with
  | nil => exact ⟨none, rfl, fun b rest => by simp⟩
  | cons first tail =>
    refine ⟨some (first, tail), rfl, fun b rest => ⟨fun h => ?_, ?_⟩⟩
    · obtain ⟨rfl, rfl⟩ := Prod.mk.inj (Option.some.inj h)
      exact ⟨[first], rfl, rfl⟩
    · rintro ⟨_, rfl, h⟩
      obtain ⟨rfl, rfl⟩ := List.cons.inj h
      rfl

end Wire

theorem WireString.length_encode (string : WireString) :
    string.encode.length = 4 + string.bytes.length := by
  rw [encode, List.length_append]
  rfl

/-- Four bytes and what follows spell a string as long as the four bytes say. -/
theorem WireString.spelled_iff {a b c d : UInt8} {tail value rest : Bytes} :
    (∃ used, Spells value used ∧ a :: b :: c :: d :: tail = used ++ rest) ↔
      value.length = Wire.fromBeBytes [a, b, c, d] ∧ tail = value ++ rest := by
  constructor
  · rintro ⟨_, ⟨string, rfl, rfl⟩, h⟩
    rw [encode, List.append_assoc] at h
    obtain ⟨hframe, htail⟩ := @List.append_inj _ [a, b, c, d] _ _ _ h rfl
    rw [hframe, fromBeBytes_toBeBytes string.short]
    exact ⟨rfl, htail⟩
  · rintro ⟨hlength, rfl⟩
    refine ⟨_, ⟨⟨value, hlength ▸ fromBeBytes_lt a b c d⟩, rfl, rfl⟩, ?_⟩
    change _ = toBeBytes value.length ++ value ++ rest
    rw [hlength, toBeBytes_fromBeBytes]
    rfl

theorem Wire.string_reads : Reads Wire.string WireString.Spells := by
  intro data
  rcases Nat.lt_or_ge data.length 4 with hlen | hlen
  · refine ⟨none, string_short hlen, fun value rest => ⟨nofun, ?_⟩⟩
    rintro ⟨_, ⟨string, -, rfl⟩, rfl⟩
    rw [List.length_append, string.length_encode] at hlen
    omega
  · match data, hlen with
    | a :: b :: c :: d :: tail, _ =>
      refine ⟨_, string_framed a b c d tail, fun value rest => ?_⟩
      rw [WireString.spelled_iff]
      split_ifs with hn
      · rw [Option.some.injEq, Prod.mk.injEq]
        constructor
        · rintro ⟨rfl, rfl⟩
          exact ⟨List.length_take_of_le hn, (List.take_append_drop _ tail).symm⟩
        · rintro ⟨hlength, rfl⟩
          rw [← hlength]
          exact ⟨List.take_left, List.drop_left⟩
      · refine ⟨nofun, ?_⟩
        rintro ⟨hlength, rfl⟩
        rw [List.length_append] at hn
        omega

theorem WireString.encode_append_inj {string string' : WireString} {x y : Bytes}
    (h : string.encode ++ x = string'.encode ++ y) : string = string' ∧ x = y := by
  obtain ⟨hbytes, hrest⟩ := Wire.string_reads.unique ⟨string, rfl, rfl⟩ ⟨string', rfl, rfl⟩ h
  obtain ⟨bytes, short⟩ := string
  obtain rfl := hbytes
  exact ⟨rfl, hrest⟩

/-! ### Userauth requests -/

/-- What `ssh` asks an agent to sign, and in the host-bound form the server's host key. -/
structure Userauth where
  sessionId : WireString
  user : WireString
  algorithm : WireString
  publicKey : WireString
  hostKey : Option WireString

namespace Userauth

def service : WireString := ⟨sshConnection, by decide⟩

def method : Option WireString → WireString
  | none => ⟨publickeyMethod, by decide⟩
  | some _ => ⟨hostboundMethod, by decide⟩

/-- The session id, the message number, user, service, method, the flag that a signature
follows, the algorithm and the key, and for the host-bound method the host key. -/
def encode (request : Userauth) : Bytes :=
  request.sessionId.encode ++ ([SSH_MSG_USERAUTH_REQUEST] ++ (request.user.encode ++
    (service.encode ++ ((method request.hostKey).encode ++ ([1] ++ (request.algorithm.encode ++
      (request.publicKey.encode ++ (request.hostKey.elim [] WireString.encode))))))))

theorem publickey_ne_hostbound : publickeyMethod ≠ hostboundMethod := by decide

theorem isSome_of_method {hostKey hostKey' : Option WireString}
    (h : method hostKey = method hostKey') : hostKey.isSome = hostKey'.isSome := by
  cases hostKey with
  | none =>
    cases hostKey' with
    | none => rfl
    | some _ => exact absurd (congrArg WireString.bytes h) publickey_ne_hostbound
  | some _ =>
    cases hostKey' with
    | none => exact absurd (congrArg WireString.bytes h).symm publickey_ne_hostbound
    | some _ => rfl

theorem encode_injective : Function.Injective encode := by
  intro request request' h
  obtain ⟨hsession, h⟩ := WireString.encode_append_inj h
  obtain ⟨huser, h⟩ := WireString.encode_append_inj (List.append_cancel_left h)
  obtain ⟨hmethod, h⟩ := WireString.encode_append_inj (List.append_cancel_left h)
  obtain ⟨halgorithm, h⟩ := WireString.encode_append_inj (List.append_cancel_left h)
  obtain ⟨hpublic, h⟩ := WireString.encode_append_inj h
  have hhost : request.hostKey = request'.hostKey := by
    have hform := isSome_of_method hmethod
    cases hkey : request.hostKey with
    | none =>
      rw [hkey] at hform
      exact (Option.not_isSome_iff_eq_none.mp (by simp [← hform])).symm
    | some key =>
      rw [hkey] at hform
      obtain ⟨key', hkey'⟩ := Option.isSome_iff_exists.mp hform.symm
      rw [hkey, hkey'] at h
      have hkeys : key.encode ++ [] = key'.encode ++ [] := by simpa using h
      rw [hkey', (WireString.encode_append_inj hkeys).1]
  cases request
  cases request'
  simp_all

/-- The request is for this key, and in the host-bound form for this host. -/
def For (request : Userauth) (publicKey hostKey : Bytes) : Prop :=
  request.publicKey.bytes = publicKey ∧ ∀ host ∈ request.hostKey, host.bytes = hostKey

end Userauth

theorem hostBoundTo_reads (method hostKey : Bytes) :
    Reads (hostBoundTo method hostKey) fun _ used =>
      if method = hostboundMethod then WireString.Spells hostKey used else used = [] := by
  unfold hostBoundTo
  split_ifs with hmethod
  · refine (Wire.string_reads.bind fun named => Reads.of_guard).of_iff fun _ used => ⟨?_, ?_⟩
    · rintro ⟨_, _, _, hspells, ⟨rfl, rfl⟩, rfl⟩
      simpa using hspells
    · intro hspells
      exact ⟨hostKey, used, [], hspells, ⟨rfl, rfl⟩, by simp⟩
  · exact (Reads.pure ()).of_iff fun _ used => by simp

theorem userauthRequest_decodes (publicKey hostKey : Bytes) :
    Decodes (userauthRequest publicKey hostKey) fun sessionId data =>
      ∃ request : Userauth, request.sessionId.bytes = sessionId ∧
        request.For publicKey hostKey ∧ data = request.encode := by
  refine (Wire.string_reads.bind_decodes fun sessionId => Wire.byte_reads.expect_decodes <|
    Wire.string_reads.bind_decodes fun _user => Wire.string_reads.expect_decodes <|
    Wire.string_reads.checked_decodes fun method => Wire.byte_reads.expect_decodes <|
    Wire.string_reads.bind_decodes fun _algorithm => Wire.string_reads.expect_decodes <|
    (hostBoundTo_reads method hostKey).bind_decodes fun _ => Decodes.ended sessionId).of_iff
      fun sessionId data => ⟨?_, ?_⟩
  · intro h
    obtain ⟨_, _, _, ⟨session, rfl, rfl⟩, h, rfl⟩ := h
    obtain ⟨_, _, rfl, h, rfl⟩ := h
    obtain ⟨_, _, _, ⟨user, -, rfl⟩, h, rfl⟩ := h
    obtain ⟨_, _, ⟨service, hservice, rfl⟩, h, rfl⟩ := h
    obtain ⟨_, _, _, ⟨method, rfl, rfl⟩, hmethod, h, rfl⟩ := h
    obtain ⟨_, _, rfl, h, rfl⟩ := h
    obtain ⟨_, _, _, ⟨algorithm, -, rfl⟩, h, rfl⟩ := h
    obtain ⟨_, _, ⟨named, hnamed, rfl⟩, h, rfl⟩ := h
    obtain ⟨_, _, _, hbound, ⟨rfl, rfl⟩, rfl⟩ := h
    obtain rfl : service = Userauth.service := WireString.ext hservice
    split_ifs at hbound with hform
    · obtain ⟨host, rfl, rfl⟩ := hbound
      obtain rfl : method = Userauth.method (some host) := WireString.ext hform
      exact ⟨⟨session, user, algorithm, named, some host⟩, rfl, ⟨hnamed, by simp⟩,
        by simp [Userauth.encode]⟩
    · obtain rfl : method = Userauth.method none :=
        WireString.ext (hmethod.resolve_left hform)
      subst hbound
      exact ⟨⟨session, user, algorithm, named, none⟩, rfl, ⟨hnamed, by simp⟩,
        by simp [Userauth.encode]⟩
  · rintro ⟨request, rfl, ⟨rfl, hhost⟩, rfl⟩
    refine ⟨_, _, _, ⟨request.sessionId, rfl, rfl⟩, ⟨_, _, rfl, ⟨_, _, _, ⟨request.user, rfl, rfl⟩,
      ⟨_, _, ⟨Userauth.service, rfl, rfl⟩, ⟨_, _, _, ⟨Userauth.method request.hostKey, rfl, rfl⟩, ?_,
      ⟨_, _, rfl, ⟨_, _, _, ⟨request.algorithm, rfl, rfl⟩, ⟨_, _, ⟨request.publicKey, rfl, rfl⟩,
      ⟨(), _, [], ?_, ⟨rfl, rfl⟩, (List.append_nil _).symm⟩, rfl⟩, rfl⟩, rfl⟩, rfl⟩, rfl⟩, rfl⟩, rfl⟩,
      rfl⟩
    · cases request.hostKey with
      | none => exact .inr rfl
      | some host => exact .inl rfl
    · cases hform : request.hostKey with
      | none => exact (if_neg Userauth.publickey_ne_hostbound).mpr rfl
      | some host => exact (if_pos rfl).mpr ⟨host, hhost host hform, rfl⟩

theorem Wire.run_of_decodes {α : Type} {reader : Wire α} {spells : α → Bytes → Prop}
    (h : Decodes reader spells) (data : Bytes) :
    ∃ result, Wire.run reader data = .ok result ∧ ∀ a, result = some a ↔ spells a data := by
  obtain ⟨result, hrun, hresult⟩ := h data
  refine ⟨result.map Prod.fst, by rw [Wire.run, hrun]; rfl, fun a => ?_⟩
  rw [← hresult a]
  simp

theorem userauthSessionId_spec (data publicKey hostKey : Bytes) :
    ∃ result, userauthSessionId data publicKey hostKey = .ok result ∧
      ∀ sessionId, result = some sessionId ↔
        ∃ request : Userauth, request.sessionId.bytes = sessionId ∧
          request.For publicKey hostKey ∧ data = request.encode :=
  Wire.run_of_decodes (userauthRequest_decodes publicKey hostKey) data

/-! ### Bound connections -/

/-- What a bound connection may have signed is a userauth request for the session, the
host and the key it is about. -/
theorem userauth_of_bound {agent : LpassAgent} {entry : KeyEntry} {data : Bytes}
    {bound : SessionBinding} (hlast : agent.bindings.getLast? = some bound)
    (hfree : agent.boundElsewhere entry data = false) :
    ∃ request : Userauth, request.sessionId.bytes = bound.sessionId ∧
      request.For ((agent.ssh.publicToBytes entry.publicKey).toOption.getD []) bound.hostKey ∧
      data = request.encode := by
  obtain ⟨result, hrun, hresult⟩ := userauthSessionId_spec data
    ((agent.ssh.publicToBytes entry.publicKey).toOption.getD []) bound.hostKey
  simp only [LpassAgent.boundElsewhere, hlast, hrun] at hfree
  cases result with
  | none => exact absurd hfree nofun
  | some sessionId =>
    have heq : sessionId = bound.sessionId := by simpa using hfree
    exact (hresult bound.sessionId).mp (congrArg some heq)

/-- The recogniser and its layout agree on every input, and what a run signs on a bound
connection has that layout. -/
structure UserauthOnly (env : Env) (P : Pool runtime) : Prop where
  total : ∀ data publicKey hostKey, ∃ result,
    userauthSessionId data publicKey hostKey = .ok result
  recognised : ∀ data publicKey hostKey sessionId : Bytes,
    userauthSessionId data publicKey hostKey = .ok (some sessionId) ↔
      ∃ request : Userauth, request.sessionId.bytes = sessionId ∧
        request.For publicKey hostKey ∧ data = request.encode
  unique : Function.Injective Userauth.encode
  signed : ∀ t signature, P.stage.Did t (.noted (.replied (.ok signature))) →
    ∃ job, Serves P.stage t env job ∧
      (∃ key, signWithKey env.ssh key job.request.data job.request.flags = .ok signature) ∧
      ∀ bound ∈ job.bindings.getLast?, ∃ request : Userauth,
        request.sessionId.bytes = bound.sessionId ∧
        request.For ((env.ssh.publicToBytes job.entry.publicKey).toOption.getD []) bound.hostKey ∧
        job.request.data = request.encode

theorem bound_signs_userauth {env : Env} {P : Pool runtime} (h : env.Reachable P) :
    UserauthOnly env P where
  total data publicKey hostKey := by
    obtain ⟨result, hrun, -⟩ := userauthSessionId_spec data publicKey hostKey
    exact ⟨result, hrun⟩
  recognised data publicKey hostKey sessionId := by
    obtain ⟨result, hrun, hresult⟩ := userauthSessionId_spec data publicKey hostKey
    rw [hrun, Except.ok.injEq, hresult]
  unique := Userauth.encode_injective
  signed t signature hd := by
    obtain ⟨job, hserve, -, -, key, -, -, hsign⟩ := signed_of_replied (Env.lawful h) hd
    exact ⟨job, hserve, ⟨key, hsign⟩, fun bound hlast => userauth_of_bound hlast hserve.1⟩

def hostBound : Userauth where
  sessionId := ⟨[9, 9], by decide⟩
  user := ⟨utf8 "git", by decide⟩
  algorithm := ⟨utf8 "ssh-ed25519", by decide⟩
  publicKey := ⟨Sample.plain.keyData.blob, by decide⟩
  hostKey := some ⟨[8], by decide⟩

/-- Thread 0 signs a host-bound request on a connection bound to that host. -/
def hostBoundRun : List (Move runtime) :=
  [Sample.sign 0 Sample.plain [⟨"SHA256:host", none, false, [9, 9], [8]⟩] hostBound.encode,
    Sample.go 0, Sample.go 0, Sample.go 0, Sample.go 0, Sample.vault 0 [1]]

def HostBoundSigned (history : List (Entry runtime)) : Prop :=
  ∃ x ∈ history[2]?, x.tid = 0 ∧
    x.act = .noted (.replied (.ok ⟨"ssh-ed25519", hostBound.encode⟩))

instance (history : List (Entry runtime)) : Decidable (HostBoundSigned history) :=
  inferInstanceAs (Decidable (∃ x ∈ history[2]?, _))

theorem bound_signs_userauth_hostBound :
    ∃ P, Sample.env.Reachable P ∧ HostBoundSigned P.stage.history ∧ UserauthOnly Sample.env P := by
  obtain ⟨P, hP, hrun⟩ := Pool.exists_of_plays (p := fun P => HostBoundSigned P.stage.history)
    Sample.reachable_start (show ∃ P ∈ Pool.plays Sample.env.code (.start Sample.world) hostBoundRun,
      HostBoundSigned P.stage.history by decide +kernel)
  exact ⟨P, hP, hrun, bound_signs_userauth hP⟩

end LastpassSshAgent
