import Tftp.Proofs.Grammar

namespace Tftp

theorem Field.ended_prefix {cut bytes : Bytes} (h : cut <+: bytes) : (split cut).ended <+: (split bytes).ended := by
  obtain ⟨lost, rfl⟩ := h
  simp only [split, Transducer.run_append]
  exact List.prefix_append _ _

namespace Wire

theorem prefix_of_texts (read options : List OptionField)
    (h : (read.flatMap fun option => [option.name, option.text]) <+:
      options.flatMap fun option => [option.name, option.text]) : read <+: options := by
  induction read generalizing options with
  | nil => exact List.nil_prefix
  | cons first read ih =>
    cases options with
    | nil => exact absurd (List.prefix_nil.mp h) (List.cons_ne_nil _ _)
    | cons option options =>
      obtain ⟨name, text⟩ := first
      obtain ⟨otherName, otherText⟩ := option
      simp only [List.flatMap_cons, List.cons_append, List.nil_append, List.cons_prefix_cons] at h
      obtain ⟨rfl, rfl, h⟩ := h
      exact List.cons_prefix_cons.mpr ⟨rfl, ih options h⟩

/-- Of options that have lost their end as many are read as are whole, and none if another has begun. -/
theorem decodeOptions_cut_iff {options : List OptionField} (ho : ∀ option ∈ options, option.Plain) {cut : Bytes}
    (hc : cut <+: encodeOptions options) (read : List OptionField) :
    decodeOptions cut = .ok read ↔ read <+: options ∧ cut = encodeOptions read := by
  constructor
  · intro h
    have hended := Field.ended_prefix hc
    rw [split_encodeOptions options ho] at hended
    have hwritten : ∀ field ∈ (Field.split cut).ended, ∃ s, Utf8.encode s = field := by
      intro field hf
      obtain ⟨option, -, hm⟩ := List.mem_flatMap.mp (hended.subset hf)
      obtain rfl | rfl : field = Utf8.encode option.name ∨ field = Utf8.encode option.text := by simpa using hm
      · exact ⟨option.name, rfl⟩
      · exact ⟨option.text, rfl⟩
    have htexts := hended.map Utf8.decode
    rw [← texts_of_decodeOptions cut read h] at htexts
    simp only [List.map_flatMap, List.map_cons, List.map_nil, Utf8.decode_encode] at htexts
    exact ⟨prefix_of_texts read options htexts, (encodeOptions_of_decodeOptions cut read h hwritten).symm⟩
  · rintro ⟨hr, rfl⟩
    exact decodeOptions_encodeOptions read fun option hm => ho option (hr.subset hm)

theorem eq_of_prefix {cut other bytes : Bytes} (hc : cut <+: bytes) (ho : other <+: bytes)
    (h : cut.length = other.length) : cut = other :=
  (List.prefix_of_prefix_length_le hc ho (Nat.le_of_eq h)).eq_of_length h

theorem prefix_encodeOptions {kept options : List OptionField} (h : kept <+: options) :
    encodeOptions kept <+: encodeOptions options := by
  obtain ⟨lost, rfl⟩ := h
  rw [encodeOptions, encodeOptions, List.flatMap_append]
  exact List.prefix_append _ _

theorem prefix_word {high low : UInt8} {rest bytes : Bytes} {n : UInt16}
    (h : high :: low :: rest <+: encodeWord n ++ bytes) : word high low = n ∧ rest <+: bytes := by
  simp only [encodeWord, List.cons_append, List.nil_append, List.cons_prefix_cons] at h
  obtain ⟨rfl, rfl, hrest⟩ := h
  exact ⟨word_encodeWord n, hrest⟩

theorem decodeOptions_length_iff {options : List OptionField} (ho : ∀ option ∈ options, option.Plain) {cut : Bytes}
    (hc : cut <+: encodeOptions options) (read : List OptionField) :
    decodeOptions cut = .ok read ↔ read <+: options ∧ cut.length = (encodeOptions read).length := by
  rw [decodeOptions_cut_iff ho hc]
  exact and_congr_right fun hr => ⟨congrArg List.length, eq_of_prefix hc (prefix_encodeOptions hr)⟩

end Wire

namespace Packet

def optionPart? : Packet → Option (Nat × List OptionField)
  | readRequest path mode options | writeRequest path mode options =>
    some (2 + (Field.encode path).length + (Field.encode mode).length, options)
  | optionAck options => some (2, options)
  | data .. | ack _ | error .. => none

def withOptions (options : List OptionField) : Packet → Packet
  | readRequest path mode _ => readRequest path mode options
  | writeRequest path mode _ => writeRequest path mode options
  | optionAck _ => optionAck options
  | packet => packet

/-- What can be read of a packet that ends after this many octets. -/
inductive Survives : Packet → Nat → Packet → Prop where
  | payload (block : UInt16) (payload : Bytes) {length : Nat} (h : 4 ≤ length) :
    Survives (data block payload) length (data block (payload.take (length - 4)))
  | options {packet : Packet} {start : Nat} {kept lost : List OptionField}
    (h : packet.optionPart? = some (start, kept ++ lost)) :
    Survives packet (start + (Wire.encodeOptions kept).length) (packet.withOptions kept)

variable {packet read : Packet} {cut : Bytes}

theorem survives_data_iff (block : UInt16) (payload : Bytes) (length : Nat) :
    Survives (data block payload) length read ↔ 4 ≤ length ∧ read = data block (payload.take (length - 4)) := by
  constructor
  · rintro (⟨_, _, h⟩ | h)
    · exact ⟨h, rfl⟩
    · cases h
  · rintro ⟨h, rfl⟩
    exact .payload block payload h

theorem not_survives {length : Nat} (hd : packet.opcode ≠ .data) (ho : packet.optionPart? = none) :
    ¬packet.Survives length read := by
  rintro (h | h)
  · exact hd rfl
  · rw [ho] at h
    cases h

theorem survives_options_iff {start : Nat} {options : List OptionField}
    (ho : packet.optionPart? = some (start, options)) (length : Nat) :
    packet.Survives length read ↔ ∃ kept, kept <+: options ∧
      length = start + (Wire.encodeOptions kept).length ∧ read = packet.withOptions kept := by
  constructor
  · rintro (h | h)
    · cases ho
    · rw [ho] at h
      cases h
      exact ⟨_, List.prefix_append _ _, rfl, rfl⟩
  · rintro ⟨kept, ⟨lost, rfl⟩, rfl, rfl⟩
    exact .options ho

theorem two_le_of_survives {length : Nat} (h : packet.Survives length read) : 2 ≤ length := by
  cases h with
  | payload block payload h => omega
  | options h =>
    cases packet <;> cases h <;> omega

theorem request_cut_iff {path mode : String} {options : List OptionField} (hp : Tftp.Plain path) (hm : Tftp.Plain mode)
    (ho : ∀ option ∈ options, option.Plain)
    (hc : cut <+: Field.encode path ++ Field.encode mode ++ Wire.encodeOptions options)
    (make : String → String → List OptionField → Packet) :
    (∃ path mode options, Wire.decodeOptions cut = .ok (⟨path, mode⟩ :: options) ∧ read = make path mode options) ↔
      ∃ kept, kept <+: options ∧
        cut.length + 2 = 2 + (Field.encode path).length + (Field.encode mode).length +
          (Wire.encodeOptions kept).length ∧
        read = make path mode kept := by
  have hlength : ∀ kept, (Wire.encodeOptions (⟨path, mode⟩ :: kept)).length =
      (Field.encode path).length + (Field.encode mode).length + (Wire.encodeOptions kept).length := fun kept => by
    rw [Wire.encodeOptions, List.flatMap_cons, Wire.encodeOption, List.length_append, List.length_append,
      Wire.encodeOptions]
  have hplain : ∀ option ∈ (⟨path, mode⟩ : OptionField) :: options, option.Plain :=
    List.forall_mem_cons.mpr ⟨⟨hp, hm⟩, ho⟩
  change cut <+: Wire.encodeOptions (⟨path, mode⟩ :: options) at hc
  simp only [Wire.decodeOptions_length_iff hplain hc, List.cons_prefix_cons]
  constructor
  · rintro ⟨_, _, kept, ⟨⟨hpath, hk⟩, hl⟩, rfl⟩
    cases hpath
    rw [hlength] at hl
    exact ⟨kept, hk, by omega, rfl⟩
  · rintro ⟨kept, hk, hl, rfl⟩
    refine ⟨path, mode, kept, ⟨⟨rfl, hk⟩, ?_⟩, rfl⟩
    rw [hlength]
    omega

theorem decodeBody_cut_iff (h : packet.Plain) (hc : cut <+: Wire.encodeBody packet)
    (hne : cut ≠ Wire.encodeBody packet) :
    Wire.decodeBody cut packet.opcode = .ok read ↔ packet.Survives (cut.length + 2) read := by
  cases packet with
  | readRequest path mode options =>
    obtain ⟨hp, hm, ho⟩ := h
    rw [survives_options_iff rfl]
    exact (Wire.decodeBody_readRequest cut read).trans (request_cut_iff hp hm ho hc readRequest)
  | writeRequest path mode options =>
    obtain ⟨hp, hm, ho⟩ := h
    rw [survives_options_iff rfl]
    exact (Wire.decodeBody_writeRequest cut read).trans (request_cut_iff hp hm ho hc writeRequest)
  | data block payload =>
    rw [survives_data_iff]
    refine (Wire.decodeBody_data cut read).trans ?_
    constructor
    · rintro ⟨high, low, rest, rfl, rfl⟩
      obtain ⟨hword, hrest⟩ := Wire.prefix_word hc
      refine ⟨Nat.le_add_left 4 rest.length, ?_⟩
      rw [hword, List.prefix_iff_eq_take.mp hrest]
      simp
    · rintro ⟨hl, rfl⟩
      rcases cut with _ | ⟨high, _ | ⟨low, rest⟩⟩
      · exact absurd hl (by decide : ¬4 ≤ 2)
      · exact absurd hl (by decide : ¬4 ≤ 3)
      obtain ⟨hword, hrest⟩ := Wire.prefix_word hc
      refine ⟨high, low, rest, rfl, ?_⟩
      rw [hword]
      exact congrArg _ (List.prefix_iff_eq_take.mp hrest).symm
  | ack block =>
    refine iff_of_false (fun hread => ?_) (not_survives (fun hk => by cases hk) rfl)
    obtain ⟨high, low, rfl, -⟩ := (Wire.decodeBody_ack cut read).mp hread
    exact hne (hc.eq_of_length rfl)
  | error code message =>
    refine iff_of_false (fun hread => ?_) (not_survives (fun hk => by cases hk) rfl)
    obtain ⟨high, low, text, rest, rfl, -, -⟩ := (Wire.decodeBody_error cut read).mp hread
    -- The only NUL of the message is its last octet, which has been lost.
    rw [Wire.encodeBody, Field.encode, ← List.append_assoc] at hc hne
    obtain ⟨-, hshort⟩ := Wire.prefix_word ((List.prefix_concat_iff.mp hc).resolve_left hne)
    exact Utf8.zero_notMem_encode message h (hshort.subset (List.mem_append_right text List.mem_cons_self))
  | optionAck options =>
    rw [survives_options_iff rfl]
    refine (Wire.decodeBody_optionAck cut read).trans ?_
    simp only [Wire.decodeOptions_length_iff h hc, withOptions, and_assoc, Nat.add_comm 2, Nat.add_right_cancel_iff]

theorem decode_cut_iff (h : packet.Plain) (hc : cut <+: packet.encode) (hne : cut ≠ packet.encode) :
    decode cut = .ok read ↔ packet.Survives cut.length read := by
  have hshort : cut.length < 2 → ¬packet.Survives cut.length read :=
    fun hl hs => Nat.not_le.mpr hl (two_le_of_survives hs)
  rcases cut with _ | ⟨high, _ | ⟨low, body⟩⟩
  · exact iff_of_false nofun (hshort Nat.zero_lt_two)
  · exact iff_of_false nofun (hshort Nat.one_lt_two)
  obtain ⟨hword, hbody⟩ := Wire.prefix_word hc
  have hshorter : body ≠ Wire.encodeBody packet := by
    rintro rfl
    rw [encode, ← hword, Wire.encodeWord_word] at hne
    exact hne rfl
  simp only [decode, hword, ofNumber?_number]
  exact decodeBody_cut_iff h hbody hshorter

/-- The end lies within an option: in its name, between the name and the value, or in the value. -/
def BreaksOption (packet : Packet) (length : Nat) : Prop :=
  ∃ start before option after, packet.optionPart? = some (start, before ++ option :: after) ∧
    start + (Wire.encodeOptions before).length < length ∧
    length < start + (Wire.encodeOptions (before ++ [option])).length

theorem not_survives_of_breaksOption {length : Nat} (h : packet.BreaksOption length) :
    ¬packet.Survives length read := by
  obtain ⟨start, before, option, after, ho, hlow, hhigh⟩ := h
  rw [survives_options_iff ho]
  rintro ⟨kept, hk, rfl, -⟩
  rw [← List.singleton_append, ← List.append_assoc] at hk
  rcases List.prefix_or_prefix_of_prefix hk (List.prefix_append (before ++ [option]) after) with hless | hmore
  · rcases List.prefix_concat_iff.mp hless with rfl | hless
    · exact absurd hhigh (Nat.lt_irrefl _)
    · have hle := (Wire.prefix_encodeOptions hless).length_le
      omega
  · have hle := (Wire.prefix_encodeOptions hmore).length_le
    omega

theorem error_iff (cut : Bytes) :
    (∃ malformation, decode cut = .error malformation) ↔ ∀ read, decode cut ≠ .ok read := by
  cases decode cut with
  | error malformation => exact ⟨fun _ _ => nofun, fun _ => ⟨malformation, rfl⟩⟩
  | ok read => exact ⟨nofun, fun h => absurd rfl (h read)⟩

/-- A packet that has lost some of its last octets is refused, unless it is DATA with its block number, or all that
is missing are whole options: then it is read as the packet without what has been lost. An option that is broken
off is never read as a shorter one, and of ACK and ERROR nothing can be lost. -/
theorem decode_truncated (packet : Packet) (h : packet.Plain) (cut : Bytes) (hc : cut <+: packet.encode)
    (hne : cut ≠ packet.encode) :
    (∀ read, decode cut = .ok read ↔ packet.Survives cut.length read) ∧
    ((∃ malformation, decode cut = .error malformation) ↔ ∀ read, ¬packet.Survives cut.length read) ∧
    (packet.BreaksOption cut.length → ∃ malformation, decode cut = .error malformation) ∧
    (packet.opcode = .ack ∨ packet.opcode = .error → ∃ malformation, decode cut = .error malformation) := by
  have hread : ∀ read, decode cut = .ok read ↔ packet.Survives cut.length read := fun _ => decode_cut_iff h hc hne
  have herror : (∃ malformation, decode cut = .error malformation) ↔ ∀ read, ¬packet.Survives cut.length read := by
    rw [error_iff]
    exact forall_congr' fun read => not_congr (hread read)
  refine ⟨hread, herror, fun hb => herror.mpr fun _ => not_survives_of_breaksOption hb,
    fun hk => herror.mpr fun _ => ?_⟩
  cases packet with
  | ack block => exact not_survives nofun rfl
  | error code message => exact not_survives nofun rfl
  | _ => rcases hk with hk | hk <;> cases hk

theorem brokenRequest_truncated :
    let request := readRequest "f" "octet" [⟨"tsize", "0"⟩, ⟨"blksize", "1024"⟩]
    (∃ malformation, decode (request.encode.take 26) = .error malformation) ∧
      decode (request.encode.take 18) = .ok (readRequest "f" "octet" [⟨"tsize", "0"⟩]) := by
  intro request
  have hplain : request.Plain := by
    refine ⟨by decide, by decide, ?_⟩
    decide
  have hcut : ∀ n < 31, request.encode.take n ≠ request.encode := by decide +kernel
  refine ⟨(decode_truncated request hplain _ (List.take_prefix 26 _) (hcut 26 (by decide))).2.2.1 ?_,
    ((decode_truncated request hplain _ (List.take_prefix 18 _) (hcut 18 (by decide))).1 _).mpr ?_⟩
  · exact ⟨10, [⟨"tsize", "0"⟩], ⟨"blksize", "1024"⟩, [], rfl, by decide +kernel, by decide +kernel⟩
  · exact @Survives.options request 10 [⟨"tsize", "0"⟩] [⟨"blksize", "1024"⟩] rfl

end Packet

end Tftp
