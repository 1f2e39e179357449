import Mathlib.Algebra.Ring.Nat
import Tftp.Packet.Line
import Tftp.Proofs.Grammar
import Tftp.Proofs.Numerals

namespace Tftp

variable {c : Char}

def occurrences (c : Char) (s : String) : Nat :=
  s.toList.count c

@[simp] theorem occurrences_append (s t : String) : occurrences c (s ++ t) = occurrences c s + occurrences c t := by
  rw [occurrences, String.toList_append, List.count_append]
  rfl

theorem occurrences_intercalate {separator : String} (hs : occurrences c separator = 0) (ss : List String) :
    occurrences c (separator.intercalate ss) = (ss.map (occurrences c)).sum := by
  induction ss with
  | nil => rfl
  | cons s ss ih =>
    cases ss with
    | nil => rfl
    | cons t ss =>
      rw [String.intercalate_cons_cons, occurrences_append, occurrences_append, hs, ih, Nat.add_zero,
        List.map_cons (l := t :: ss), List.sum_cons]

def Printed (s : String) : Prop :=
  ∀ c ∈ s.toList, 0x20 ≤ c.toNat

instance (s : String) : Decidable (Printed s) :=
  List.decidableBAll (fun c : Char => 0x20 ≤ c.toNat) s.toList

theorem Printed.occurrences_eq {s : String} (h : Printed s) (hc : c.toNat < 0x20) : occurrences c s = 0 :=
  List.count_eq_zero.mpr fun hm => Nat.not_lt.mpr (h c hm) hc

theorem Printed.append {s t : String} (hs : Printed s) (ht : Printed t) : Printed (s ++ t) := by
  intro c hc
  rw [String.toList_append, List.mem_append] at hc
  exact hc.elim (hs c) (ht c)

theorem Printed.intercalate {separator : String} (hs : Printed separator) {ss : List String}
    (h : ∀ s ∈ ss, Printed s) : Printed (separator.intercalate ss) := by
  induction ss with
  | nil => exact nofun
  | cons s ss ih =>
    obtain ⟨hfirst, hrest⟩ := List.forall_mem_cons.mp h
    cases ss with
    | nil => exact hfirst
    | cons t ss =>
      rw [String.intercalate_cons_cons]
      exact (hfirst.append hs).append (ih hrest)

theorem digitChar_printed (n : Nat) : 0x20 ≤ n.digitChar.toNat := by
  by_cases hn : n < 16
  · revert n
    decide
  · rw [Nat.digitChar_eq_star.mpr (Nat.not_lt.mp hn)]
    decide

theorem toDigits_printed {radix : Nat} (hr : 1 < radix) (n : Nat) : ∀ c ∈ Nat.toDigits radix n, 0x20 ≤ c.toNat := by
  induction n using Nat.strongRecOn with
  | ind n ih =>
    rw [Nat.toDigits_eq_if hr]
    split
    · exact List.forall_mem_singleton.mpr (digitChar_printed n)
    · next hn =>
      rw [List.forall_mem_append, List.forall_mem_singleton]
      exact ⟨ih (n / radix) (Nat.div_lt_self (by omega) hr), digitChar_printed _⟩

theorem printed_toString (n : Nat) : Printed (toString n) := by
  intro c hc
  rw [Nat.toString_eq_repr, Nat.toList_repr] at hc
  exact toDigits_printed (by decide) n c hc

namespace Ip

theorem printed_dotted (a b c d : UInt8) : Printed (dotted a b c d) := by
  refine Printed.intercalate (by decide) fun s hs => ?_
  obtain ⟨octet, -, rfl⟩ := List.mem_map.mp hs
  exact printed_toString _

theorem printed_groupsText (groups : List UInt16) : Printed (groupsText groups) := by
  refine Printed.intercalate (by decide) fun s hs => ?_
  obtain ⟨group, -, rfl⟩ := List.mem_map.mp hs
  intro c hc
  rw [hexText, String.toList_ofList] at hc
  exact toDigits_printed (by decide) _ c hc

theorem printed_text6 (groups : List UInt16) : Printed (text6 groups) := by
  have hmapped : Printed "::ffff:" := by decide
  have hzeros : Printed "::" := by decide
  unfold text6
  split
  · exact hmapped.append (printed_dotted _ _ _ _)
  · dsimp only
    split
    · exact ((printed_groupsText _).append hzeros).append (printed_groupsText _)
    · exact printed_groupsText groups

theorem printed_text : ∀ ip : Ip, Printed ip.text
  | v4 a b c d => printed_dotted a b c d
  | v6 groups => printed_text6 groups.toList

end Ip

namespace Packet

theorem printed_lineHead (packet : Packet) (peer : Endpoint) : Printed (packet.lineHead peer) := by
  have hname : Printed packet.opcode.name := by
    cases packet.opcode <;> decide
  exact (((hname.append (by decide)).append peer.ip.printed_text).append (by decide)).append (printed_toString _)

theorem occurrences_options (hc : c.toNat < 0x20) (options : List OptionField) :
    occurrences c (OptionField.line options) =
      ((options.flatMap fun option => [option.name, option.text]).map (occurrences c)).sum := by
  have hsign : occurrences c "=" = 0 := Printed.occurrences_eq (by decide) hc
  rw [OptionField.line, occurrences_intercalate (Printed.occurrences_eq (by decide) hc)]
  induction options with
  | nil => rfl
  | cons option options ih =>
    simp only [List.map_cons, List.sum_cons, List.flatMap_cons, List.map_append, List.sum_append, List.map_nil,
      List.sum_nil, occurrences_append, hsign, ih, Nat.add_zero]

theorem occurrences_requestLine (hc : c.toNat < 0x20) (path mode : String) (options : List OptionField) :
    occurrences c (requestLine path mode options) = occurrences c path + (occurrences c mode +
      ((options.flatMap fun option => [option.name, option.text]).map (occurrences c)).sum) := by
  have hquote : occurrences c "\"" = 0 := Printed.occurrences_eq (by decide) hc
  have hclose : occurrences c "\" " = 0 := Printed.occurrences_eq (by decide) hc
  have hblank : occurrences c " " = 0 := Printed.occurrences_eq (by decide) hc
  rw [← occurrences_options hc]
  cases options with
  | nil =>
    change occurrences c ("\"" ++ path ++ "\" " ++ mode ++ "") = occurrences c path + (occurrences c mode + 0)
    simp only [occurrences_append, hquote, hclose, show occurrences c "" = 0 from rfl, Nat.zero_add, Nat.add_zero]
  | cons option options =>
    change occurrences c ("\"" ++ path ++ "\" " ++ mode ++ (" " ++ OptionField.line (option :: options))) = _
    simp only [occurrences_append, hquote, hclose, hblank, Nat.zero_add, Nat.add_zero, Nat.add_assoc]

/-- A control character stands in the line of a packet as often as in the packet's texts. -/
theorem occurrences_line (hc : c.toNat < 0x20) (packet : Packet) (peer : Endpoint) (localPort : UInt16) :
    occurrences c (packet.line peer localPort) = (packet.texts.map (occurrences c)).sum := by
  have hhead := (packet.printed_lineHead peer).occurrences_eq hc
  have hnumber : ∀ n : Nat, occurrences c (toString n) = 0 := fun n => (printed_toString n).occurrences_eq hc
  have hblank : occurrences c " " = 0 := Printed.occurrences_eq (by decide) hc
  have hcolon : occurrences c ":" = 0 := Printed.occurrences_eq (by decide) hc
  have hopen : occurrences c " \"" = 0 := Printed.occurrences_eq (by decide) hc
  have hquote : occurrences c "\"" = 0 := Printed.occurrences_eq (by decide) hc
  cases packet <;>
    simp only [line, texts, occurrences_append, hhead, hnumber, hblank, hcolon, hopen, hquote,
      occurrences_requestLine hc, occurrences_options hc, List.map_cons, List.map_nil, List.sum_cons, List.sum_nil,
      Nat.zero_add, Nat.add_zero]

theorem occurrences_decode (hc : c.toNat < 0x20) {bytes : Bytes} {packet : Packet} (h : decode bytes = .ok packet)
    (peer : Endpoint) (localPort : UInt16) : occurrences c (packet.line peer localPort) =
      ((fields bytes packet.opcode).map (List.count (UInt8.ofNat c.toNat))).sum := by
  obtain ⟨high, low, body, rfl, -, hb⟩ := (decode_ok_iff bytes packet).mp h
  have hread : occurrences c ∘ Utf8.decode = List.count (UInt8.ofNat c.toNat) :=
    funext fun field => Utf8.count_decode (Nat.lt_trans hc (by decide)) field
  rw [occurrences_line hc, texts_of_decodeBody high low body packet hb, List.map_map, hread]

theorem notMem_line_iff (hc : c.toNat < 0x20) {bytes : Bytes} {packet : Packet} (h : decode bytes = .ok packet)
    (peer : Endpoint) (localPort : UInt16) : c ∉ (packet.line peer localPort).toList ↔
      ∀ field ∈ fields bytes packet.opcode, UInt8.ofNat c.toNat ∉ field := by
  rw [← List.count_eq_zero, ← occurrences, occurrences_decode hc h, List.sum_eq_zero_iff_forall_eq_nat,
    List.forall_mem_map]
  simp only [List.count_eq_zero]

end Packet

def OneLine (s : String) : Prop :=
  '\n' ∉ s.toList ∧ '\r' ∉ s.toList

instance (s : String) : Decidable (OneLine s) :=
  inferInstanceAs (Decidable (_ ∧ _))

namespace Packet

theorem oneLine_iff {bytes : Bytes} {packet : Packet} (h : decode bytes = .ok packet) (peer : Endpoint)
    (localPort : UInt16) : OneLine (packet.line peer localPort) ↔
      ∀ field ∈ fields bytes packet.opcode, 0x0A ∉ field ∧ 0x0D ∉ field := by
  rw [OneLine, notMem_line_iff (by decide) h, notMem_line_iff (by decide) h]
  exact ⟨fun ⟨hn, hr⟩ field hf => ⟨hn field hf, hr field hf⟩,
    fun hnone => ⟨fun field hf => (hnone field hf).1, fun field hf => (hnone field hf).2⟩⟩

/-- A packet of this kind with this text in it, if the kind has texts. -/
def quoting (text : String) : Opcode → Packet
  | .readRequest => readRequest text "octet" []
  | .writeRequest => writeRequest text "octet" []
  | .data => data 0 []
  | .ack => ack 0
  | .error => error .undefined text
  | .optionAck => optionAck [⟨text, ""⟩]

theorem opcode_quoting (text : String) (opcode : Opcode) : (quoting text opcode).opcode = opcode := by
  cases opcode <;> rfl

theorem plain_quoting {text : String} (h : Tftp.Plain text) (opcode : Opcode) : (quoting text opcode).Plain := by
  cases opcode with
  | readRequest => exact ⟨h, by decide, nofun⟩
  | writeRequest => exact ⟨h, by decide, nofun⟩
  | data => trivial
  | ack => trivial
  | error => exact h
  | optionAck => exact List.forall_mem_singleton.mpr ⟨h, nofun⟩

theorem line_quoting (text : String) {opcode : Opcode} (hd : opcode ≠ .data) (ha : opcode ≠ .ack) (peer : Endpoint)
    (localPort : UInt16) : ∃ before after, (quoting text opcode).line peer localPort = before ++ text ++ after := by
  cases opcode with
  | readRequest =>
    refine ⟨(quoting text .readRequest).lineHead peer ++ " " ++ "\"", "\" " ++ "octet" ++ "", ?_⟩
    simp only [quoting, line, requestLine, List.isEmpty_nil, if_true, String.append_assoc]
  | writeRequest =>
    refine ⟨(quoting text .writeRequest).lineHead peer ++ " " ++ "\"", "\" " ++ "octet" ++ "", ?_⟩
    simp only [quoting, line, requestLine, List.isEmpty_nil, if_true, String.append_assoc]
  | data => exact absurd rfl hd
  | ack => exact absurd rfl ha
  | error =>
    refine ⟨(quoting text .error).lineHead peer ++ " " ++ toString ErrorCode.undefined.number.toNat ++ " \"", "\"", ?_⟩
    simp only [quoting, line, String.append_assoc]
  | optionAck =>
    refine ⟨(quoting text .optionAck).lineHead peer ++ " ", "=" ++ "", ?_⟩
    simp only [quoting, line, OptionField.line, List.map_cons, List.map_nil, String.intercalate_singleton,
      String.append_assoc]

theorem plain_lineOf {forged : String} (h : Tftp.Plain forged) : Tftp.Plain ("\n" ++ forged ++ "\n") := by
  simp only [Tftp.Plain, String.toList_append, List.mem_append, not_or]
  exact ⟨⟨by decide, h⟩, by decide⟩

theorem exists_forged {opcode : Opcode} (hd : opcode ≠ .data) (ha : opcode ≠ .ack) {forged : String}
    (hf : Tftp.Plain forged) (peer : Endpoint) (localPort : UInt16) :
    ∃ packet before after, decode packet.encode = .ok packet ∧ packet.opcode = opcode ∧
      packet.line peer localPort = before ++ "\n" ++ forged ++ "\n" ++ after := by
  have hplain := plain_quoting (plain_lineOf hf) opcode
  obtain ⟨before, after, hline⟩ := line_quoting ("\n" ++ forged ++ "\n") hd ha peer localPort
  refine ⟨_, before, after, decode_encode _ hplain, opcode_quoting _ opcode, ?_⟩
  rw [hline]
  simp only [String.append_assoc]

/-- The control characters in the line of a packet are those octets in the fields that its texts were read from, so the
packet has one line just when no field holds `0x0A` or `0x0D`. Every DATA and every ACK has one line; of the other
kinds there are packets that hold any line one likes. -/
theorem line_breaks (bytes : Bytes) (packet : Packet) (h : decode bytes = .ok packet) (peer : Endpoint)
    (localPort : UInt16) :
    (OneLine (packet.line peer localPort) ↔ ∀ field ∈ fields bytes packet.opcode, 0x0A ∉ field ∧ 0x0D ∉ field) ∧
    (∀ c : Char, c.toNat < 0x20 → occurrences c (packet.line peer localPort) =
      ((fields bytes packet.opcode).map (List.count (UInt8.ofNat c.toNat))).sum) ∧
    (packet.opcode = .data ∨ packet.opcode = .ack → OneLine (packet.line peer localPort)) ∧
    (packet.opcode ≠ .data → packet.opcode ≠ .ack → ∀ forged, Tftp.Plain forged → ∃ other before after,
      decode other.encode = .ok other ∧ other.opcode = packet.opcode ∧
        other.line peer localPort = before ++ "\n" ++ forged ++ "\n" ++ after) := by
  refine ⟨oneLine_iff h peer localPort, fun c hc => occurrences_decode hc h peer localPort, fun hk => ?_,
    fun hd ha forged hf => exists_forged hd ha hf peer localPort⟩
  rw [oneLine_iff h]
  rcases hk with hk | hk
  · rw [hk]
    exact nofun
  · rw [hk]
    exact nofun

def forgingRequest : Packet :=
  readRequest "f\nACK 10.0.0.9:69 1" "octet" []

theorem decode_forgingRequest : decode forgingRequest.encode = .ok forgingRequest :=
  decode_encode forgingRequest ⟨by decide, by decide, nofun⟩

theorem forgingRequest_breaks :
    forgingRequest.encode = [0, 1] ++ Utf8.encode "f\nACK 10.0.0.9:69 1" ++ [0] ++ Utf8.encode "octet" ++ [0] ∧
    decode forgingRequest.encode = .ok forgingRequest ∧
    forgingRequest.line ⟨.v4 10 0 0 7, 40123, 0⟩ 69 = "RRQ 10.0.0.7:40123 \"f\nACK 10.0.0.9:69 1\" octet" ∧
    ¬OneLine (forgingRequest.line ⟨.v4 10 0 0 7, 40123, 0⟩ 69) :=
  ⟨by decide +kernel, decode_forgingRequest, by decide +kernel, by decide +kernel⟩

theorem forgingRequest_counted : decode forgingRequest.encode = .ok forgingRequest ∧
    occurrences '\n' (forgingRequest.line ⟨.v4 10 0 0 7, 40123, 0⟩ 69) = 1 := by
  refine ⟨decode_forgingRequest, ?_⟩
  rw [(line_breaks _ _ decode_forgingRequest _ _).2.1 '\n' (by decide)]
  decide +kernel

end Packet

end Tftp
