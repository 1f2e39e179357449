import Tftp.Packet.Wire
import Tftp.Proofs.Utf8

namespace Tftp

/-- A text that can be ended by a NUL. -/
def Plain (s : String) : Prop := '\x00' ∉ s.toList

instance (s : String) : Decidable (Plain s) :=
  inferInstanceAs (Decidable ('\x00' ∉ s.toList))

structure OptionField.Plain (option : OptionField) : Prop where
  name : Tftp.Plain option.name
  text : Tftp.Plain option.text

instance (option : OptionField) : Decidable option.Plain :=
  decidable_of_iff (Plain option.name ∧ Plain option.text) ⟨fun ⟨hn, ht⟩ => ⟨hn, ht⟩, fun h => ⟨h.name, h.text⟩⟩

def Packet.Plain : Packet → Prop
  | readRequest path mode options | writeRequest path mode options =>
    Tftp.Plain path ∧ Tftp.Plain mode ∧ ∀ option ∈ options, option.Plain
  | data .. => True
  | ack _ => True
  | error _ message => Tftp.Plain message
  | optionAck options => ∀ option ∈ options, option.Plain

namespace Field

theorem run_step_plain (held bytes : Bytes) (h : 0 ∉ bytes) :
    Transducer.run step held bytes = (bytes.reverse ++ held, []) := by
  induction bytes generalizing held with
  | nil => rfl
  | cons b bytes ih =>
    have hb : ¬b = 0 := fun hb => h (hb ▸ List.mem_cons_self)
    have ht : 0 ∉ bytes := fun ht => h (List.mem_cons_of_mem b ht)
    rw [Transducer.run_cons, step, if_neg hb, ih (b :: held) ht]
    simp

theorem split_ended (bytes rest : Bytes) (h : 0 ∉ bytes) :
    split (bytes ++ 0 :: rest) = { split rest with ended := bytes :: (split rest).ended } := by
  simp only [split, Transducer.run_append, run_step_plain [] bytes h, Transducer.run_cons, step,
    if_true, List.append_nil, List.reverse_reverse, List.nil_append, List.singleton_append]

theorem split_encode (s : String) (rest : Bytes) (h : Plain s) :
    split (encode s ++ rest) =
      { split rest with ended := Utf8.encode s :: (split rest).ended } := by
  rw [encode, List.append_assoc, List.singleton_append]
  exact split_ended _ rest (Utf8.zero_notMem_encode s h)

theorem split_nil : split [] = { ended := [], tail := [] } := rfl

end Field

namespace Wire

theorem word_encodeWord (n : UInt16) : word (n >>> 8).toUInt8 n.toUInt8 = n := by
  apply UInt16.toNat_inj.mp
  have hn : n.toNat < 65536 := n.toNat_lt
  simp only [word, UInt16.toNat_or, UInt16.toNat_shiftLeft, UInt8.toNat_toUInt16,
    UInt16.toNat_toUInt8, UInt16.toNat_shiftRight]
  change (n.toNat >>> 8 % 256) <<< 8 % 65536 ||| n.toNat % 256 = n.toNat
  rw [Nat.shiftRight_eq_div_pow, Nat.shiftLeft_eq]
  have hmod : n.toNat / 2 ^ 8 % 256 * 2 ^ 8 % 65536 = n.toNat / 2 ^ 8 * 2 ^ 8 := by omega
  rw [hmod, ← Nat.shiftLeft_eq, ← Nat.shiftLeft_add_eq_or_of_lt (by omega), Nat.shiftLeft_eq]
  omega

theorem split_encodeOptions (options : List OptionField) (h : ∀ option ∈ options, option.Plain) :
    Field.split (encodeOptions options) = {
      ended := options.flatMap fun option => [Utf8.encode option.name, Utf8.encode option.text]
      tail := [] } := by
  induction options with
  | nil => rfl
  | cons option options ih =>
    have ho : option.Plain := h option List.mem_cons_self
    have hr := ih fun o hm => h o (List.mem_cons_of_mem option hm)
    have he : encodeOptions (option :: options) =
        Field.encode option.name ++ (Field.encode option.text ++ encodeOptions options) := by
      rw [encodeOptions, List.flatMap_cons, encodeOption, List.append_assoc, encodeOptions]
    rw [he, Field.split_encode _ _ ho.name, Field.split_encode _ _ ho.text, hr]
    rfl

theorem pairOptions_encoded (options : List OptionField) :
    pairOptions [] (options.flatMap fun option => [Utf8.encode option.name, Utf8.encode option.text]) =
      .ok options := by
  induction options with
  | nil => rfl
  | cons option options ih =>
    rw [List.flatMap_cons, List.cons_append, List.singleton_append, pairOptions, ih,
      Utf8.decode_encode, Utf8.decode_encode]
    rfl

theorem decodeOptions_encodeOptions (options : List OptionField)
    (h : ∀ option ∈ options, option.Plain) : decodeOptions (encodeOptions options) = .ok options := by
  rw [decodeOptions, split_encodeOptions options h]
  exact pairOptions_encoded options

theorem decodeRequest_encode (path mode : String) (options : List OptionField) (hp : Plain path)
    (hm : Plain mode) (ho : ∀ option ∈ options, option.Plain) :
    decodeRequest (Field.encode path ++ Field.encode mode ++ encodeOptions options) =
      .ok (path, mode, options) := by
  rw [decodeRequest, List.append_assoc, Field.split_encode path _ hp, Field.split_encode mode _ hm,
    split_encodeOptions options ho]
  simp only [pairOptions_encoded, Utf8.decode_encode]
  rfl

theorem decodeError_encode (code : ErrorCode) (message : String) (h : Plain message) :
    decodeError (encodeWord code.number ++ Field.encode message) = .ok (.error code message) := by
  have hs : Field.split (Field.encode message) = { ended := [Utf8.encode message], tail := [] } := by
    have := Field.split_encode message [] h
    rwa [List.append_nil, Field.split_nil] at this
  simp only [encodeWord, List.cons_append, List.nil_append, decodeError, hs, word_encodeWord,
    Utf8.decode_encode]

theorem decodeBody_encodeBody (packet : Packet) (h : packet.Plain) :
    decodeBody (encodeBody packet) packet.opcode = .ok packet := by
  cases packet with
  | readRequest path mode options =>
    obtain ⟨hp, hm, ho⟩ := h
    simp only [Packet.opcode, encodeBody, decodeBody, decodeRequest_encode path mode options hp hm ho]
    rfl
  | writeRequest path mode options =>
    obtain ⟨hp, hm, ho⟩ := h
    simp only [Packet.opcode, encodeBody, decodeBody, decodeRequest_encode path mode options hp hm ho]
    rfl
  | data block payload =>
    simp only [Packet.opcode, encodeBody, decodeBody, encodeWord, List.cons_append, List.nil_append,
      decodeData, word_encodeWord]
  | ack block =>
    simp only [Packet.opcode, encodeBody, decodeBody, encodeWord, decodeAck, word_encodeWord]
  | error code message => exact decodeError_encode code message h
  | optionAck options =>
    simp only [Packet.opcode, encodeBody, decodeBody, decodeOptions_encodeOptions options h]
    rfl

theorem opcode_of_decodeBody (body : Bytes) (opcode : Opcode) (packet : Packet)
    (h : decodeBody body opcode = .ok packet) : packet.opcode = opcode := by
  cases opcode with
  | readRequest =>
    simp only [decodeBody] at h
    cases hr : decodeRequest body with
    | error e => rw [hr] at h; cases h
    | ok r => rw [hr] at h; cases h; rfl
  | writeRequest =>
    simp only [decodeBody] at h
    cases hr : decodeRequest body with
    | error e => rw [hr] at h; cases h
    | ok r => rw [hr] at h; cases h; rfl
  | data =>
    simp only [decodeBody, decodeData] at h
    split at h
    · cases h; rfl
    · cases h
  | ack =>
    simp only [decodeBody, decodeAck] at h
    split at h
    · cases h; rfl
    · cases h
  | error =>
    simp only [decodeBody, decodeError] at h
    split at h
    · split at h
      · cases h
      · cases h; rfl
    · cases h
  | optionAck =>
    simp only [decodeBody] at h
    cases hr : decodeOptions body with
    | error e => rw [hr] at h; cases h
    | ok r => rw [hr] at h; cases h; rfl

end Wire

namespace Packet

theorem ofNumber?_number (opcode : Opcode) : Opcode.ofNumber? opcode.number = some opcode := by
  cases opcode <;> rfl

theorem decode_eq_decodeBody (packet : Packet) :
    decode packet.encode = Wire.decodeBody (Wire.encodeBody packet) packet.opcode := by
  simp only [encode, Wire.encodeWord, List.cons_append, List.nil_append, decode,
    Wire.word_encodeWord, ofNumber?_number]

theorem decode_encode (packet : Packet) (h : packet.Plain) : decode packet.encode = .ok packet := by
  rw [decode_eq_decodeBody, Wire.decodeBody_encodeBody packet h]

theorem opcode_of_decode_encode (packet read : Packet) (h : decode packet.encode = .ok read) :
    read.opcode = packet.opcode :=
  Wire.opcode_of_decodeBody _ _ _ (decode_eq_decodeBody packet ▸ h)

end Packet

end Tftp
