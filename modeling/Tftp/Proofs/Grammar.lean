import Tftp.Proofs.Offsets

namespace Tftp

def Packet.texts : Packet → List String
  | readRequest path mode options | writeRequest path mode options =>
    path :: mode :: options.flatMap fun option => [option.name, option.text]
  | data .. => []
  | ack _ => []
  | error _ message => [message]
  | optionAck options => options.flatMap fun option => [option.name, option.text]

theorem OptionField.plain_of_texts (options : List OptionField)
    (h : ∀ text ∈ options.flatMap (fun option => [option.name, option.text]), Tftp.Plain text) :
    ∀ option ∈ options, option.Plain := by
  intro option ho
  have hmem : ∀ text ∈ [option.name, option.text], Tftp.Plain text := fun text ht =>
    h text (List.mem_flatMap.mpr ⟨option, ho, ht⟩)
  exact ⟨hmem _ List.mem_cons_self, hmem _ (List.mem_cons_of_mem _ List.mem_cons_self)⟩

theorem Packet.plain_of_texts (packet : Packet) (h : ∀ text ∈ packet.texts, Tftp.Plain text) :
    packet.Plain := by
  cases packet with
  | readRequest path mode options =>
    obtain ⟨hp, hrest⟩ := List.forall_mem_cons.mp h
    obtain ⟨hm, ho⟩ := List.forall_mem_cons.mp hrest
    exact ⟨hp, hm, OptionField.plain_of_texts options ho⟩
  | writeRequest path mode options =>
    obtain ⟨hp, hrest⟩ := List.forall_mem_cons.mp h
    obtain ⟨hm, ho⟩ := List.forall_mem_cons.mp hrest
    exact ⟨hp, hm, OptionField.plain_of_texts options ho⟩
  | data block payload => trivial
  | ack block => trivial
  | error code message => exact h message List.mem_cons_self
  | optionAck options => exact OptionField.plain_of_texts options h

namespace Wire

theorem toNat_word (high low : UInt8) : (word high low).toNat = high.toNat * 256 + low.toNat := by
  have hh : high.toNat < 256 := high.toNat_lt
  have hl : low.toNat < 256 := low.toNat_lt
  simp only [word, UInt16.toNat_or, UInt16.toNat_shiftLeft, UInt8.toNat_toUInt16]
  change high.toNat <<< 8 % 65536 ||| low.toNat = _
  rw [Nat.shiftLeft_eq, Nat.mod_eq_of_lt (by omega), ← Nat.shiftLeft_eq,
    ← Nat.shiftLeft_add_eq_or_of_lt (by omega), Nat.shiftLeft_eq]

theorem encodeWord_word (high low : UInt8) : encodeWord (word high low) = [high, low] := by
  have hh : high.toNat < 256 := high.toNat_lt
  have hl : low.toNat < 256 := low.toNat_lt
  rw [encodeWord]
  congr 1
  · apply UInt8.toNat_inj.mp
    rw [UInt16.toNat_toUInt8, UInt16.toNat_shiftRight, toNat_word]
    change (high.toNat * 256 + low.toNat) >>> 8 % 256 = high.toNat
    rw [Nat.shiftRight_eq_div_pow]
    omega
  · congr 1
    apply UInt8.toNat_inj.mp
    rw [UInt16.toNat_toUInt8, toNat_word]
    omega

theorem encodeOptions_eq (options : List OptionField) :
    encodeOptions options =
      (options.flatMap fun option => [option.name, option.text]).flatMap Field.encode := by
  have hone : ∀ option : OptionField,
      [option.name, option.text].flatMap Field.encode = encodeOption option := by
    intro option
    rw [List.flatMap_cons, List.flatMap_singleton, encodeOption]
  rw [encodeOptions, List.flatMap_assoc, funext hone]

theorem pairOptions_ok_iff (tail : Bytes) (ended : List Bytes) :
    (∃ options, pairOptions tail ended = .ok options) ↔ tail = [] ∧ 2 ∣ ended.length := by
  induction ended using pairOptions.induct tail with
  | case1 ht =>
    rw [pairOptions, if_pos ht]
    exact ⟨fun _ => ⟨ht, Nat.dvd_zero 2⟩, fun _ => ⟨[], rfl⟩⟩
  | case2 ht =>
    rw [pairOptions, if_neg ht]
    exact iff_of_false (by rintro ⟨_, ⟨⟩⟩) fun h => ht h.1
  | case3 name ht =>
    rw [pairOptions, if_pos ht]
    exact iff_of_false (by rintro ⟨_, ⟨⟩⟩) fun h => absurd h.2 (by decide : ¬2 ∣ 1)
  | case4 name ht =>
    rw [pairOptions, if_neg ht]
    exact iff_of_false (by rintro ⟨_, ⟨⟩⟩) fun h => ht h.1
  | case5 name text ended ih =>
    have hstep : (2 ∣ (name :: text :: ended).length) ↔ 2 ∣ ended.length := by
      simp only [List.length_cons]
      omega
    rw [pairOptions, hstep, ← ih]
    constructor
    · rintro ⟨options, h⟩
      cases hr : pairOptions tail ended with
      | error e => rw [hr] at h; cases h
      | ok rest => exact ⟨rest, rfl⟩
    · rintro ⟨rest, h⟩
      exact ⟨_, by rw [h]; rfl⟩

theorem texts_of_pairOptions (tail : Bytes) (ended : List Bytes) (options : List OptionField)
    (h : pairOptions tail ended = .ok options) :
    (options.flatMap fun option => [option.name, option.text]) = ended.map Utf8.decode := by
  induction ended using pairOptions.induct tail generalizing options with
  | case1 ht =>
    rw [pairOptions, if_pos ht] at h
    cases h
    rfl
  | case2 ht => rw [pairOptions, if_neg ht] at h; cases h
  | case3 name ht => rw [pairOptions, if_pos ht] at h; cases h
  | case4 name ht => rw [pairOptions, if_neg ht] at h; cases h
  | case5 name text ended ih =>
    rw [pairOptions] at h
    cases hr : pairOptions tail ended with
    | error e => rw [hr] at h; cases h
    | ok rest =>
      rw [hr] at h
      cases h
      rw [List.flatMap_cons, ih rest hr]
      rfl

theorem decodeRequest_ok_iff (body : Bytes) (path mode : String) (options : List OptionField) :
    decodeRequest body = .ok (path, mode, options) ↔ decodeOptions body = .ok (⟨path, mode⟩ :: options) := by
  simp only [decodeRequest, decodeOptions]
  generalize (Field.split body).tail = tail
  cases (Field.split body).ended with
  | nil =>
    constructor
    · intro h
      cases h
    · intro h
      rw [pairOptions] at h
      split at h <;> cases h
  | cons first more =>
    cases more with
    | nil =>
      constructor
      · intro h
        cases h
      · intro h
        rw [pairOptions] at h
        split at h <;> cases h
    | cons second more =>
      simp only [pairOptions]
      cases pairOptions tail more with
      | error e =>
        constructor
        · intro h
          cases h
        · intro h
          cases h
      | ok rest =>
        constructor
        · intro h
          cases h
          rfl
        · intro h
          cases h
          rfl

theorem exists_decodeOptions_iff (body : Bytes) :
    (∃ options, decodeOptions body = .ok options) ↔
      body = [] ∨ body.getLast? = some 0 ∧ 2 ∣ body.count 0 := by
  rw [decodeOptions, pairOptions_ok_iff, Field.tail_eq_nil_iff, Field.length_ended]
  constructor
  · rintro ⟨h, hd⟩
    exact h.imp_right fun hl => ⟨hl, hd⟩
  · rintro (rfl | ⟨hl, hd⟩)
    · exact ⟨.inl rfl, Nat.dvd_zero 2⟩
    · exact ⟨.inr hl, hd⟩

theorem texts_of_decodeOptions (body : Bytes) (options : List OptionField)
    (h : decodeOptions body = .ok options) :
    (options.flatMap fun option => [option.name, option.text]) =
      (Field.split body).ended.map Utf8.decode :=
  texts_of_pairOptions _ _ options h

theorem length_texts (options : List OptionField) :
    (options.flatMap fun option => [option.name, option.text]).length = 2 * options.length := by
  simp only [List.length_flatMap, List.length_cons, List.length_nil, Nat.zero_add, List.map_const',
    List.sum_replicate_nat, Nat.mul_comm]

theorem count_of_decodeOptions (body : Bytes) (options : List OptionField)
    (h : decodeOptions body = .ok options) : body.count 0 = 2 * options.length := by
  have hlen := congrArg List.length (texts_of_decodeOptions body options h)
  rw [List.length_map, Field.length_ended] at hlen
  rw [← hlen, length_texts]

theorem exists_request_iff (body : Bytes) :
    (∃ path mode options, decodeOptions body = .ok (⟨path, mode⟩ :: options)) ↔
      body.getLast? = some 0 ∧ 2 ∣ body.count 0 ∧ 2 ≤ body.count 0 := by
  constructor
  · rintro ⟨path, mode, options, h⟩
    have hcount := count_of_decodeOptions body _ h
    rw [List.length_cons] at hcount
    obtain rfl | ⟨hl, hd⟩ := (exists_decodeOptions_iff body).mp ⟨_, h⟩
    · rw [List.count_nil] at hcount
      omega
    · exact ⟨hl, hd, by omega⟩
  · rintro ⟨hl, hd, hle⟩
    obtain ⟨options, h⟩ := (exists_decodeOptions_iff body).mpr (.inr ⟨hl, hd⟩)
    cases options with
    | nil =>
      rw [count_of_decodeOptions body [] h] at hle
      exact absurd hle (by decide)
    | cons first options => exact ⟨first.name, first.text, options, h⟩

theorem encodeOptions_of_decodeOptions (body : Bytes) (options : List OptionField)
    (h : decodeOptions body = .ok options)
    (ht : ∀ field ∈ (Field.split body).ended, ∃ s, Utf8.encode s = field) : encodeOptions options = body := by
  have htail : (Field.split body).tail = [] := ((pairOptions_ok_iff _ _).mp ⟨options, h⟩).1
  have hjoin := Field.split_join body
  rw [htail, List.append_nil] at hjoin
  rw [encodeOptions_eq, texts_of_decodeOptions body options h, Field.flatMap_encode_decode _ ht, hjoin]

theorem texts_injective (options others : List OptionField)
    (h : (options.flatMap fun option => [option.name, option.text]) =
      others.flatMap fun option => [option.name, option.text]) : options = others := by
  induction options generalizing others with
  | nil =>
    cases others with
    | nil => rfl
    | cons other others => cases h
  | cons option options ih =>
    cases others with
    | nil => cases h
    | cons other others =>
      obtain ⟨name, text⟩ := option
      obtain ⟨otherName, otherText⟩ := other
      simp only [List.flatMap_cons, List.cons_append, List.nil_append, List.cons.injEq] at h
      obtain ⟨rfl, rfl, h⟩ := h
      rw [ih others h]

theorem suffix_of_texts (options fields : List OptionField) (front : List String) (hne : 2 ≤ front.length)
    (h : (options.flatMap fun option => [option.name, option.text]) =
      front ++ fields.flatMap fun option => [option.name, option.text]) :
    ∃ first more, options = first :: (more ++ fields) := by
  have hlen := congrArg List.length h
  rw [List.length_append, length_texts, length_texts] at hlen
  have hsplit := (List.take_append_drop (options.length - fields.length) options).symm
  have htexts := h
  rw [hsplit, List.flatMap_append] at htexts
  obtain ⟨-, hdrop⟩ := List.append_inj' htexts (by rw [length_texts, length_texts, List.length_drop]; omega)
  rw [texts_injective _ fields hdrop] at hsplit
  cases htake : options.take (options.length - fields.length) with
  | nil =>
    have := congrArg List.length htake
    rw [List.length_take, List.length_nil] at this
    omega
  | cons first more =>
    rw [htake] at hsplit
    exact ⟨first, more, hsplit⟩

/-- Whatever is made of the path of a request, the options that are read end with those that were
written. -/
theorem suffix_of_decodeOptions (path mode : String) (fields options : List OptionField)
    (hm : Plain mode) (hf : ∀ field ∈ fields, field.Plain)
    (h : decodeOptions (Field.encode path ++ Field.encode mode ++ encodeOptions fields) = .ok options) :
    ∃ first more, options = first :: (more ++ fields) := by
  have htexts := texts_of_decodeOptions _ options h
  rw [List.append_assoc, Field.split_append _ _ (Field.tail_encode path), Field.split_encode mode _ hm,
    split_encodeOptions fields hf, List.map_append, List.map_cons] at htexts
  have hfields : (fields.flatMap fun option => [Utf8.encode option.name, Utf8.encode option.text]).map Utf8.decode =
      fields.flatMap fun option => [option.name, option.text] := by
    simp only [List.map_flatMap, List.map_cons, List.map_nil, Utf8.decode_encode]
  rw [hfields, Utf8.decode_encode, ← List.singleton_append, ← List.append_assoc] at htexts
  refine suffix_of_texts options fields _ ?_ htexts
  rw [List.length_append, List.length_map, Field.length_ended, Field.encode, List.count_append]
  exact Nat.le_add_left 2 _

theorem request_ok_iff (body : Bytes) (make : String → String → List OptionField → Packet)
    (packet : Packet) :
    (do let (path, mode, options) ← decodeRequest body; return make path mode options) = .ok packet ↔
      ∃ path mode options,
        decodeOptions body = .ok (⟨path, mode⟩ :: options) ∧ packet = make path mode options := by
  simp only [← decodeRequest_ok_iff]
  cases decodeRequest body with
  | error e => exact ⟨fun h => (nomatch h), fun ⟨_, _, _, h, _⟩ => (nomatch h)⟩
  | ok request =>
    obtain ⟨path, mode, options⟩ := request
    constructor
    · intro h
      cases h
      exact ⟨path, mode, options, rfl, rfl⟩
    · rintro ⟨_, _, _, h, rfl⟩
      cases h
      rfl

theorem decodeBody_readRequest (body : Bytes) (packet : Packet) :
    decodeBody body .readRequest = .ok packet ↔ ∃ path mode options,
      decodeOptions body = .ok (⟨path, mode⟩ :: options) ∧ packet = .readRequest path mode options :=
  request_ok_iff body .readRequest packet

theorem decodeBody_writeRequest (body : Bytes) (packet : Packet) :
    decodeBody body .writeRequest = .ok packet ↔ ∃ path mode options,
      decodeOptions body = .ok (⟨path, mode⟩ :: options) ∧ packet = .writeRequest path mode options :=
  request_ok_iff body .writeRequest packet

theorem decodeBody_data (body : Bytes) (packet : Packet) :
    decodeBody body .data = .ok packet ↔ ∃ high low payload,
      body = high :: low :: payload ∧ packet = .data (word high low) payload := by
  rw [decodeBody]
  rcases body with _ | ⟨first, _ | ⟨second, payload⟩⟩
  · exact iff_of_false (by rintro ⟨⟩) (by rintro ⟨_, _, _, ⟨⟩, _⟩)
  · exact iff_of_false (by rintro ⟨⟩) (by rintro ⟨_, _, _, ⟨⟩, _⟩)
  · constructor
    · intro h
      cases h
      exact ⟨first, second, payload, rfl, rfl⟩
    · rintro ⟨_, _, _, h, rfl⟩
      cases h
      rfl

theorem decodeBody_ack (body : Bytes) (packet : Packet) :
    decodeBody body .ack = .ok packet ↔ ∃ high low, body = [high, low] ∧ packet = .ack (word high low) := by
  rw [decodeBody]
  rcases body with _ | ⟨first, _ | ⟨second, _ | ⟨third, more⟩⟩⟩
  · exact iff_of_false (by rintro ⟨⟩) (by rintro ⟨_, _, ⟨⟩, _⟩)
  · exact iff_of_false (by rintro ⟨⟩) (by rintro ⟨_, _, ⟨⟩, _⟩)
  · constructor
    · intro h
      cases h
      exact ⟨first, second, rfl, rfl⟩
    · rintro ⟨_, _, h, rfl⟩
      cases h
      rfl
  · exact iff_of_false (by rintro ⟨⟩) (by rintro ⟨_, _, ⟨⟩, _⟩)

theorem decodeBody_error (body : Bytes) (packet : Packet) :
    decodeBody body .error = .ok packet ↔ ∃ high low message rest,
      body = high :: low :: (message ++ 0 :: rest) ∧ 0 ∉ message ∧
        packet = .error ⟨word high low⟩ (Utf8.decode message) := by
  rw [decodeBody]
  rcases body with _ | ⟨first, _ | ⟨second, more⟩⟩
  · exact iff_of_false (by rintro ⟨⟩) (by rintro ⟨_, _, _, _, ⟨⟩, _⟩)
  · exact iff_of_false (by rintro ⟨⟩) (by rintro ⟨_, _, _, _, ⟨⟩, _⟩)
  · rw [decodeError]
    constructor
    · intro h
      cases he : (Field.split more).ended with
      | nil => rw [he] at h; cases h
      | cons message ended =>
        rw [he] at h
        cases h
        have hjoin := Field.split_join more
        rw [he, List.flatMap_cons, List.append_assoc, List.append_assoc] at hjoin
        have hm := Field.zero_notMem_ended more message (by rw [he]; exact List.mem_cons_self)
        exact ⟨first, second, message, _, by rw [← hjoin]; rfl, hm, rfl⟩
    · rintro ⟨_, _, message, rest, h, hm, rfl⟩
      cases h
      rw [Field.split_ended message rest hm]

theorem decodeBody_optionAck (body : Bytes) (packet : Packet) :
    decodeBody body .optionAck = .ok packet ↔ ∃ options,
      decodeOptions body = .ok options ∧ packet = .optionAck options := by
  rw [decodeBody]
  cases decodeOptions body with
  | error e => exact iff_of_false (by rintro ⟨⟩) (by rintro ⟨_, ⟨⟩, _⟩)
  | ok options =>
    constructor
    · intro h
      cases h
      exact ⟨options, rfl, rfl⟩
    · rintro ⟨_, h, rfl⟩
      cases h
      rfl

end Wire

namespace Packet

def bigEndian (bytes : Bytes) : Nat :=
  bytes.foldl (fun n b => n * 256 + b.toNat) 0

/-- What octets must be like to be a packet of this kind: how many they are, and where NULs stand. -/
def Admits (bytes : Bytes) : Opcode → Prop
  | .readRequest | .writeRequest =>
    (bytes.drop 2).getLast? = some 0 ∧ 2 ∣ (bytes.drop 2).count 0 ∧ 2 ≤ (bytes.drop 2).count 0
  | .data => 4 ≤ bytes.length
  | .ack => bytes.length = 4
  | .error => 4 ≤ bytes.length ∧ 0 ∈ bytes.drop 4
  | .optionAck =>
    bytes.drop 2 = [] ∨ (bytes.drop 2).getLast? = some 0 ∧ 2 ∣ (bytes.drop 2).count 0

/-- Octets that are a packet of this kind. -/
structure Framed (bytes : Bytes) (opcode : Opcode) : Prop where
  length : 2 ≤ bytes.length
  number : bigEndian (bytes.take 2) = opcode.number.toNat
  admits : Admits bytes opcode

def fields (bytes : Bytes) : Opcode → List Bytes
  | .readRequest | .writeRequest | .optionAck => (Field.split (bytes.drop 2)).ended
  | .data | .ack => []
  | .error => (Field.split (bytes.drop 4)).ended.take 1

/-- Octets as a packet of this kind is written: texts in UTF-8, and nothing after the NUL of an
ERROR's message. -/
structure Tidy (bytes : Bytes) (opcode : Opcode) : Prop where
  texts : ∀ field ∈ fields bytes opcode, ∃ s, Utf8.encode s = field
  closed : opcode = .error → (bytes.drop 4).dropWhile (· ≠ 0) = [0]

theorem ofNumber?_eq_some_iff (n : UInt16) (opcode : Opcode) :
    Opcode.ofNumber? n = some opcode ↔ n = opcode.number := by
  constructor
  · intro h
    unfold Opcode.ofNumber? at h
    split at h <;> cases h <;> rfl
  · rintro rfl
    exact ofNumber?_number opcode

/-- The opcode decides how the rest is read. -/
theorem decode_ok_iff (bytes : Bytes) (packet : Packet) :
    decode bytes = .ok packet ↔ ∃ high low body, bytes = high :: low :: body ∧
      Wire.word high low = packet.opcode.number ∧ Wire.decodeBody body packet.opcode = .ok packet := by
  rcases bytes with _ | ⟨high, _ | ⟨low, body⟩⟩
  · exact ⟨fun h => (nomatch h), fun ⟨_, _, _, h, _⟩ => (nomatch h)⟩
  · exact ⟨fun h => (nomatch h), fun ⟨_, _, _, h, _⟩ => (nomatch h)⟩
  rw [decode]
  constructor
  · intro h
    split at h
    · next opcode ho =>
      rw [ofNumber?_eq_some_iff] at ho
      have hop := Wire.opcode_of_decodeBody body opcode packet h
      exact ⟨high, low, body, rfl, by rw [ho, hop], by rw [hop, h]⟩
    · cases h
  · rintro ⟨_, _, _, h, hn, hb⟩
    cases h
    rw [(ofNumber?_eq_some_iff _ _).mpr hn]
    exact hb

theorem framed_iff (high low : UInt8) (body : Bytes) (opcode : Opcode) :
    Framed (high :: low :: body) opcode ↔
      Wire.word high low = opcode.number ∧ Admits (high :: low :: body) opcode := by
  have hword : bigEndian ((high :: low :: body).take 2) = (Wire.word high low).toNat := by
    rw [Wire.toNat_word]
    simp [bigEndian]
  constructor
  · rintro ⟨-, hn, ha⟩
    exact ⟨UInt16.toNat_inj.mp (hword.symm.trans hn), ha⟩
  · rintro ⟨hn, ha⟩
    exact ⟨Nat.le_add_left 2 body.length, hword.trans (congrArg UInt16.toNat hn), ha⟩

theorem exists_decodeBody_iff (high low : UInt8) (body : Bytes) (opcode : Opcode) :
    (∃ packet, Wire.decodeBody body opcode = .ok packet) ↔ Admits (high :: low :: body) opcode := by
  cases opcode with
  | readRequest =>
    refine Iff.trans ?_ (Wire.exists_request_iff body)
    simp only [Wire.decodeBody_readRequest]
    exact ⟨fun ⟨_, _, _, _, h, _⟩ => ⟨_, _, _, h⟩, fun ⟨_, _, _, h⟩ => ⟨_, _, _, _, h, rfl⟩⟩
  | writeRequest =>
    refine Iff.trans ?_ (Wire.exists_request_iff body)
    simp only [Wire.decodeBody_writeRequest]
    exact ⟨fun ⟨_, _, _, _, h, _⟩ => ⟨_, _, _, h⟩, fun ⟨_, _, _, h⟩ => ⟨_, _, _, _, h, rfl⟩⟩
  | data =>
    simp only [Wire.decodeBody_data, Admits]
    constructor
    · rintro ⟨_, _, _, payload, rfl, rfl⟩
      exact Nat.le_add_left 4 payload.length
    · intro h
      rcases body with _ | ⟨first, _ | ⟨second, payload⟩⟩
      · exact absurd h (by decide : ¬4 ≤ 2)
      · exact absurd h (by decide : ¬4 ≤ 3)
      · exact ⟨_, first, second, payload, rfl, rfl⟩
  | ack =>
    simp only [Wire.decodeBody_ack, Admits]
    constructor
    · rintro ⟨_, _, _, rfl, rfl⟩
      rfl
    · intro h
      rcases body with _ | ⟨first, _ | ⟨second, _ | ⟨third, more⟩⟩⟩
      · cases h
      · cases h
      · exact ⟨_, first, second, rfl, rfl⟩
      · cases h
  | error =>
    simp only [Wire.decodeBody_error, Admits]
    constructor
    · rintro ⟨_, _, _, message, rest, rfl, hm, rfl⟩
      exact ⟨Nat.le_add_left 4 _, List.mem_append_right message List.mem_cons_self⟩
    · rintro ⟨hl, hz⟩
      rcases body with _ | ⟨first, _ | ⟨second, more⟩⟩
      · exact absurd hl (by decide : ¬4 ≤ 2)
      · exact absurd hl (by decide : ¬4 ≤ 3)
      · obtain ⟨message, rest, rfl, hm⟩ := List.eq_append_cons_of_mem hz
        exact ⟨_, first, second, message, rest, rfl, hm, rfl⟩
  | optionAck =>
    refine Iff.trans ?_ (Wire.exists_decodeOptions_iff body)
    simp only [Wire.decodeBody_optionAck]
    exact ⟨fun ⟨_, _, h, _⟩ => ⟨_, h⟩, fun ⟨_, h⟩ => ⟨_, _, h, rfl⟩⟩

theorem framed_of_decode (bytes : Bytes) (packet : Packet) (h : decode bytes = .ok packet) :
    Framed bytes packet.opcode := by
  obtain ⟨high, low, body, rfl, hn, hb⟩ := (decode_ok_iff bytes packet).mp h
  exact (framed_iff high low body _).mpr ⟨hn, (exists_decodeBody_iff high low body _).mp ⟨packet, hb⟩⟩

theorem exists_decode_iff (bytes : Bytes) :
    (∃ packet, decode bytes = .ok packet) ↔ ∃ opcode, Framed bytes opcode := by
  constructor
  · exact fun ⟨packet, h⟩ => ⟨packet.opcode, framed_of_decode bytes packet h⟩
  · rintro ⟨opcode, h⟩
    rcases bytes with _ | ⟨high, _ | ⟨low, body⟩⟩
    · exact absurd h.length (by decide)
    · exact absurd h.length (by simp)
    obtain ⟨hn, ha⟩ := (framed_iff high low body opcode).mp h
    obtain ⟨packet, hb⟩ := (exists_decodeBody_iff high low body opcode).mpr ha
    have hop := Wire.opcode_of_decodeBody body opcode packet hb
    exact ⟨packet, (decode_ok_iff _ packet).mpr ⟨high, low, body, rfl, by rw [hn, hop], by rw [hop, hb]⟩⟩

theorem texts_of_decodeBody (high low : UInt8) (body : Bytes) (packet : Packet)
    (h : Wire.decodeBody body packet.opcode = .ok packet) :
    packet.texts = (fields (high :: low :: body) packet.opcode).map Utf8.decode := by
  cases packet with
  | readRequest path mode options =>
    obtain ⟨_, _, _, ho, he⟩ := (Wire.decodeBody_readRequest body _).mp h
    cases he
    exact Wire.texts_of_decodeOptions body _ ho
  | writeRequest path mode options =>
    obtain ⟨_, _, _, ho, he⟩ := (Wire.decodeBody_writeRequest body _).mp h
    cases he
    exact Wire.texts_of_decodeOptions body _ ho
  | data block payload => rfl
  | ack block => rfl
  | error code text =>
    obtain ⟨_, _, message, rest, rfl, hm, he⟩ := (Wire.decodeBody_error body _).mp h
    cases he
    simp only [texts, opcode, fields, List.drop_succ_cons, List.drop_zero, Field.split_ended message rest hm,
      List.take_succ_cons, List.take_zero, List.map_cons, List.map_nil]
  | optionAck options =>
    obtain ⟨_, ho, he⟩ := (Wire.decodeBody_optionAck body _).mp h
    cases he
    exact Wire.texts_of_decodeOptions body _ ho

theorem zero_notMem_fields (bytes : Bytes) (opcode : Opcode) :
    ∀ field ∈ fields bytes opcode, 0 ∉ field := by
  cases opcode with
  | data => exact fun field h => (nomatch h)
  | ack => exact fun field h => (nomatch h)
  | error => exact fun field h => Field.zero_notMem_ended _ field (List.mem_of_mem_take h)
  | _ => exact Field.zero_notMem_ended _

theorem plain_of_decode (bytes : Bytes) (packet : Packet) (h : decode bytes = .ok packet) :
    packet.Plain := by
  obtain ⟨high, low, body, rfl, -, hb⟩ := (decode_ok_iff bytes packet).mp h
  apply plain_of_texts
  rw [texts_of_decodeBody high low body packet hb]
  intro text ht
  obtain ⟨field, hf, rfl⟩ := List.mem_map.mp ht
  exact Utf8.nul_notMem_decode field (zero_notMem_fields _ _ field hf)

theorem encodeBody_of_decodeBody (high low : UInt8) (body : Bytes) (packet : Packet)
    (h : Wire.decodeBody body packet.opcode = .ok packet)
    (ht : Tidy (high :: low :: body) packet.opcode) : Wire.encodeBody packet = body := by
  cases packet with
  | readRequest path mode options =>
    obtain ⟨_, _, _, ho, he⟩ := (Wire.decodeBody_readRequest body _).mp h
    cases he
    exact Wire.encodeOptions_of_decodeOptions body _ ho ht.texts
  | writeRequest path mode options =>
    obtain ⟨_, _, _, ho, he⟩ := (Wire.decodeBody_writeRequest body _).mp h
    cases he
    exact Wire.encodeOptions_of_decodeOptions body _ ho ht.texts
  | data block payload =>
    obtain ⟨_, _, _, rfl, he⟩ := (Wire.decodeBody_data body _).mp h
    cases he
    rw [Wire.encodeBody, Wire.encodeWord_word]
    rfl
  | ack block =>
    obtain ⟨_, _, rfl, he⟩ := (Wire.decodeBody_ack body _).mp h
    cases he
    rw [Wire.encodeBody, Wire.encodeWord_word]
  | error code text =>
    obtain ⟨first, second, message, rest, rfl, hm, he⟩ := (Wire.decodeBody_error body _).mp h
    cases he
    have hopen : ∀ b ∈ message, decide (b ≠ 0) = true := fun b hb => decide_eq_true fun hz => hm (hz ▸ hb)
    have hclosed : (message ++ 0 :: rest).dropWhile (· ≠ 0) = [0] := ht.closed rfl
    rw [List.dropWhile_append_of_pos hopen, List.dropWhile_cons_of_neg (by decide)] at hclosed
    cases hclosed
    have hfield : message ∈ fields (high :: low :: first :: second :: (message ++ [0])) .error := by
      simp only [fields, List.drop_succ_cons, List.drop_zero, Field.split_ended message [] hm,
        List.take_succ_cons, List.mem_cons_self]
    obtain ⟨s, rfl⟩ := ht.texts message hfield
    rw [Wire.encodeBody, Wire.encodeWord_word, Utf8.decode_encode]
    rfl
  | optionAck options =>
    obtain ⟨_, ho, he⟩ := (Wire.decodeBody_optionAck body _).mp h
    cases he
    exact Wire.encodeOptions_of_decodeOptions body _ ho ht.texts

theorem encode_of_decode (bytes : Bytes) (packet : Packet) (h : decode bytes = .ok packet)
    (ht : Tidy bytes packet.opcode) : packet.encode = bytes := by
  obtain ⟨high, low, body, rfl, hn, hb⟩ := (decode_ok_iff bytes packet).mp h
  rw [encode, ← hn, Wire.encodeWord_word, encodeBody_of_decodeBody high low body packet hb ht]
  rfl

/-- A packet that is written and read again is the same packet, just when no text of it holds a NUL. -/
theorem decode_encode_iff (packet : Packet) : decode packet.encode = .ok packet ↔ packet.Plain :=
  ⟨plain_of_decode packet.encode packet, decode_encode packet⟩

/-- Octets are a packet just when their length, their opcode and their NULs say so, no look at them goes
beyond their end, and what is read from them is what is written again, up to texts outside UTF-8 and
what an ERROR holds after its message. -/
theorem decode_grammar (bytes : Bytes) :
    (Offsets.decode bytes).run = some (decode bytes) ∧
    ((∃ packet, decode bytes = .ok packet) ↔ ∃ opcode, Framed bytes opcode) ∧
    ((∃ malformation, decode bytes = .error malformation) ↔ ¬∃ opcode, Framed bytes opcode) ∧
    ∀ packet, decode bytes = .ok packet →
      Framed bytes packet.opcode ∧ decode packet.encode = .ok packet ∧
        (Tidy bytes packet.opcode → packet.encode = bytes) := by
  refine ⟨congrArg ExceptT.run (Offsets.decode_eq bytes), exists_decode_iff bytes, ?_, ?_⟩
  · rw [← exists_decode_iff]
    cases decode bytes with
    | error malformation => exact ⟨fun _ ⟨_, h⟩ => (nomatch h), fun _ => ⟨malformation, rfl⟩⟩
    | ok packet => exact ⟨fun ⟨_, h⟩ => (nomatch h), fun h => absurd ⟨packet, rfl⟩ h⟩
  · intro packet h
    exact ⟨framed_of_decode bytes packet h, decode_encode packet (plain_of_decode bytes packet h),
      encode_of_decode bytes packet h⟩

end Packet

end Tftp
