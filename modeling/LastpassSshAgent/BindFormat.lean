import LastpassSshAgent.Bindings
import LastpassSshAgent.Userauth

/-!
# Session bindings are read exactly

What a binding looks like on the wire, that nothing else is taken for one, and what the
host behind it has proved.
-/

namespace LastpassSshAgent

open Framing

/-! ### The layout -/

/-- A binding as it travels. Any byte but zero says that the agent is forwarded. -/
@[ext]
structure BindFrame where
  hostKey : WireString
  sessionId : WireString
  signature : WireString
  forwarding : UInt8

namespace BindFrame

def encode (frame : BindFrame) : Bytes :=
  frame.hostKey.encode ++ (frame.sessionId.encode ++ (frame.signature.encode ++ [frame.forwarding]))

def request (frame : BindFrame) : SessionBindRequest :=
  ⟨frame.hostKey.bytes, frame.sessionId.bytes, frame.signature.bytes, frame.forwarding != 0⟩

theorem encode_injective : Function.Injective encode := by
  intro frame frame' h
  obtain ⟨hhost, h⟩ := WireString.encode_append_inj h
  obtain ⟨hsession, h⟩ := WireString.encode_append_inj h
  obtain ⟨hsignature, h⟩ := WireString.encode_append_inj h
  exact BindFrame.ext hhost hsession hsignature (List.cons.inj h).1

end BindFrame

theorem sessionBindRequest_decodes : Decodes sessionBindRequest fun bind data =>
    ∃ frame : BindFrame, frame.request = bind ∧ data = frame.encode := by
  have hread := Wire.string_reads.bind_decodes fun hostKey =>
    Wire.string_reads.bind_decodes fun sessionId =>
    Wire.string_reads.bind_decodes fun signature => Wire.byte_reads.bind_decodes fun forwarding =>
    Decodes.ended (SessionBindRequest.mk hostKey sessionId signature (forwarding != 0))
  refine hread.of_iff fun bind data => ⟨?_, ?_⟩
  · intro h
    obtain ⟨_, _, _, ⟨hostKey, rfl, rfl⟩, h, rfl⟩ := h
    obtain ⟨_, _, _, ⟨sessionId, rfl, rfl⟩, h, rfl⟩ := h
    obtain ⟨_, _, _, ⟨signature, rfl, rfl⟩, h, rfl⟩ := h
    obtain ⟨forwarding, _, _, rfl, ⟨rfl, rfl⟩, rfl⟩ := h
    exact ⟨⟨hostKey, sessionId, signature, forwarding⟩, rfl, rfl⟩
  · rintro ⟨frame, rfl, rfl⟩
    exact ⟨_, _, _, ⟨frame.hostKey, rfl, rfl⟩, ⟨_, _, _, ⟨frame.sessionId, rfl, rfl⟩,
      ⟨_, _, _, ⟨frame.signature, rfl, rfl⟩, ⟨frame.forwarding, _, [], rfl, ⟨rfl, rfl⟩, rfl⟩, rfl⟩,
      rfl⟩, rfl⟩

theorem sessionBind_spec (data : Bytes) :
    ∃ result, sessionBind data = .ok result ∧ ∀ bind, result = some bind ↔
      ∃ frame : BindFrame, frame.request = bind ∧ data = frame.encode :=
  Wire.run_of_decodes sessionBindRequest_decodes data

/-! ### What the host has proved -/

def BeginsCertificate (hostKey : Bytes) : Prop :=
  ∃ (id : WireString) (rest : Bytes), hostKey = id.encode ++ rest ∧ certificateSuffix <:+ id.bytes

theorem isCertificate_iff {hostKey : Bytes} :
    isCertificate hostKey = true ↔ BeginsCertificate hostKey := by
  obtain ⟨result, hrun, hresult⟩ := Wire.string_reads hostKey
  have hid : Wire.run Wire.string hostKey = .ok (result.map Prod.fst) := by
    rw [Wire.run, hrun]
    rfl
  rw [isCertificate, hid]
  cases result with
  | none =>
    refine iff_of_false (by simp) ?_
    rintro ⟨id, rest, rfl, -⟩
    cases (hresult id.bytes rest).mpr ⟨_, ⟨id, rfl, rfl⟩, rfl⟩
  | some read =>
    obtain ⟨_, tail⟩ := read
    obtain ⟨_, ⟨id, rfl, rfl⟩, rfl⟩ := (hresult _ tail).mp rfl
    simp only [Option.map_some, List.isSuffixOf_iff_suffix]
    constructor
    · intro hsuffix
      exact ⟨id, tail, rfl, hsuffix⟩
    · rintro ⟨id', rest, heq, hsuffix⟩
      obtain ⟨rfl, -⟩ := WireString.encode_append_inj heq
      exact hsuffix

variable {ssh : Ssh} {bind : SessionBindRequest} {key : KeyData}

theorem keyIn_iff {hostKey : Bytes} : ssh.keyIn hostKey = .ok key ↔
    (BeginsCertificate hostKey → ssh.certificateFromBytes hostKey = .ok key) ∧
      (¬ BeginsCertificate hostKey → ssh.publicFromBytes hostKey = .ok key) := by
  rw [Ssh.keyIn, ← isCertificate_iff]
  by_cases hcertificate : isCertificate hostKey = true
  · simp [hcertificate]
  · simp [hcertificate]

/-- The reader takes just the bindings, and tells each one's fields from any other's. A
host has proved the key in the bytes it sent, by one signature over the session id. -/
structure ReadsBindings (ssh : Ssh) : Prop where
  total (data : Bytes) : ∃ result, sessionBind data = .ok result
  accepts (data : Bytes) (bind : SessionBindRequest) : sessionBind data = .ok (some bind) ↔
    ∃ frame : BindFrame, frame.request = bind ∧ data = frame.encode
  roundTrip (frame : BindFrame) : sessionBind frame.encode = .ok (some frame.request)
  unique (frame frame' : BindFrame) : frame.encode = frame'.encode → frame = frame'
  proved (bind : SessionBindRequest) (key : KeyData) : boundHostKey ssh bind = .ok key ↔
    (BeginsCertificate bind.hostKey → ssh.certificateFromBytes bind.hostKey = .ok key) ∧
      (¬ BeginsCertificate bind.hostKey → ssh.publicFromBytes bind.hostKey = .ok key) ∧
      ∃ signature, ssh.signatureDecode bind.signature = .ok (signature, []) ∧
        ssh.verify key bind.sessionId signature = .ok ()

theorem accepts_bindings {data : Bytes} : sessionBind data = .ok (some bind) ↔
    ∃ frame : BindFrame, frame.request = bind ∧ data = frame.encode := by
  obtain ⟨result, hrun, hresult⟩ := sessionBind_spec data
  rw [hrun, Except.ok.injEq]
  exact hresult bind

theorem bindings_read (ssh : Ssh) : ReadsBindings ssh where
  total data := by
    obtain ⟨result, hrun, -⟩ := sessionBind_spec data
    exact ⟨result, hrun⟩
  accepts data bind := accepts_bindings
  roundTrip frame := accepts_bindings.mpr ⟨frame, rfl, rfl⟩
  unique frame frame' h := BindFrame.encode_injective h
  proved bind key := by
    rw [boundHostKey_eq_ok, Verified, keyIn_iff, and_assoc]

end LastpassSshAgent
