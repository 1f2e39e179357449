import Tftp.Proofs.Fields

namespace Tftp.Offsets

/-- A reading that may complain, or have no outcome because it looks beyond the octets. -/
abbrev Reading := ExceptT Malformation Option

def beyond {α : Type} : Reading α := ExceptT.mk none

variable (bytes : Bytes)

def slice (start stop : Nat) : Reading Bytes :=
  if start ≤ stop ∧ stop ≤ bytes.length then return (bytes.take stop).drop start else beyond

def word : Reading UInt16 :=
  match bytes[0]?, bytes[1]? with
  | some high, some low => return Wire.word high low
  | _, _ => beyond

def text (role : TextRole) (start : Nat) : Reading (String × Nat) := do
  let rest ← slice bytes start bytes.length
  match rest.findIdx? (· = 0) with
  | none => throw (.unterminated role)
  | some stop => return (Utf8.decode (← slice rest 0 stop), start + stop + 1)

def options : Nat → Nat → Reading (List OptionField)
  | 0, _ => beyond
  | rounds + 1, start =>
    if start < bytes.length then do
      let (name, nameEnd) ← text bytes .optionName start
      if bytes.length ≤ nameEnd then throw (.optionWithoutValue name)
      let (value, valueEnd) ← text bytes .optionValue nameEnd
      return ⟨name, value⟩ :: (← options rounds valueEnd)
    else return []

def request : Reading (String × String × List OptionField) := do
  let (path, pathEnd) ← text bytes .filePath 2
  let (mode, modeEnd) ← text bytes .mode pathEnd
  return (path, mode, ← options bytes (bytes.length + 1) modeEnd)

def data : Reading Packet := do
  if bytes.length < 4 then throw .blockMissing
  let block ← word (← slice bytes 2 4)
  return .data block (← slice bytes 4 bytes.length)

def ack : Reading Packet := do
  if bytes.length ≠ 4 then throw (.ackLength bytes.length)
  return .ack (← word (← slice bytes 2 4))

def error : Reading Packet := do
  if bytes.length < 4 then throw .errorCodeMissing
  let code ← word (← slice bytes 2 4)
  let (message, _) ← text bytes .errorMessage 4
  return .error ⟨code⟩ message

def decode : Reading Packet := do
  if bytes.length < 2 then throw .tooShort
  let number ← word (← slice bytes 0 2)
  match Opcode.ofNumber? number with
  | none => throw (.unknownOpcode number)
  | some .readRequest => do
    let (path, mode, options) ← request bytes
    return .readRequest path mode options
  | some .writeRequest => do
    let (path, mode, options) ← request bytes
    return .writeRequest path mode options
  | some .data => data bytes
  | some .ack => ack bytes
  | some .error => error bytes
  | some .optionAck => .optionAck <$> options bytes (bytes.length + 1) 2

def outcome {α : Type} (result : Except Malformation α) : Reading α := ExceptT.mk (some result)

theorem throw_bind {α β : Type} (complaint : Malformation) (next : α → Reading β) :
    (throw complaint : Reading α) >>= next = throw complaint := rfl

theorem outcome_bind_pure {α β : Type} (result : Except Malformation α) (f : α → β) :
    outcome result >>= (fun a => pure (f a)) = outcome (f <$> result) := by
  cases result <;> rfl

variable {bytes} {start : Nat}

theorem slice_eq {stop : Nat} (h : start ≤ stop ∧ stop ≤ bytes.length) :
    slice bytes start stop = pure ((bytes.take stop).drop start) := by
  rw [slice, if_pos h]

theorem slice_end (h : start ≤ bytes.length) : slice bytes start bytes.length = pure (bytes.drop start) := by
  rw [slice_eq ⟨h, Nat.le_refl _⟩, List.take_length]

theorem text_ended (role : TextRole) {field rest : Bytes} (hs : start ≤ bytes.length) (hf : 0 ∉ field)
    (h : bytes.drop start = field ++ 0 :: rest) :
    text bytes role start = pure (Utf8.decode field, start + field.length + 1) := by
  have hnone : field.findIdx? (· = 0) = none :=
    List.findIdx?_eq_none_iff.mpr fun b hb => decide_eq_false fun hz => hf (hz ▸ hb)
  have hfind : (field ++ 0 :: rest).findIdx? (· = 0) = some field.length := by
    simp [List.findIdx?_append, hnone, List.findIdx?_cons]
  have hlen : field.length ≤ (field ++ 0 :: rest).length := by
    rw [List.length_append]
    exact Nat.le_add_right _ _
  have htake : ((field ++ 0 :: rest).take field.length).drop 0 = field := by
    rw [List.take_left, List.drop_zero]
  simp only [text, slice_end hs, pure_bind, h, hfind, slice_eq ⟨Nat.zero_le _, hlen⟩, htake]

theorem text_rest (role : TextRole) (hs : start ≤ bytes.length) (h : 0 ∉ bytes.drop start) :
    text bytes role start = throw (.unterminated role) := by
  have hfind : (bytes.drop start).findIdx? (· = 0) = none :=
    List.findIdx?_eq_none_iff.mpr fun b hb => decide_eq_false fun hz => h (hz ▸ hb)
  simp only [text, slice_end hs, pure_bind, hfind]

theorem drop_ended {field rest : Bytes} (hs : start ≤ bytes.length)
    (h : bytes.drop start = field ++ 0 :: rest) :
    bytes.drop (start + field.length + 1) = rest ∧
      start + field.length + 1 + rest.length = bytes.length := by
  have hlen := congrArg List.length h
  rw [List.length_drop, List.length_append, List.length_cons] at hlen
  refine ⟨?_, by omega⟩
  rw [Nat.add_assoc, ← List.drop_drop, h, ← List.drop_drop, List.drop_left, List.drop_one, List.tail_cons]

end Tftp.Offsets

namespace Tftp.Wire

open Tftp.Field

theorem decodeOptions_rest {bytes : Bytes} (hz : 0 ∉ bytes) (hne : bytes ≠ []) :
    decodeOptions bytes = .error (.unterminated .optionName) := by
  rw [decodeOptions, split_rest bytes hz, pairOptions, if_neg hne]

theorem decodeOptions_name {name rest : Bytes} (hn : 0 ∉ name) (hz : 0 ∉ rest) :
    decodeOptions (name ++ 0 :: rest) =
      if rest = [] then .error (.optionWithoutValue (Utf8.decode name))
      else .error (.unterminated .optionValue) := by
  rw [decodeOptions, split_ended name rest hn, split_rest rest hz, pairOptions]

theorem decodeOptions_pair {name value rest : Bytes} (hn : 0 ∉ name) (hv : 0 ∉ value) :
    decodeOptions (name ++ 0 :: (value ++ 0 :: rest)) =
      ({ name := Utf8.decode name, text := Utf8.decode value } :: ·) <$> decodeOptions rest := by
  rw [decodeOptions, split_ended name _ hn, split_ended value rest hv, pairOptions, decodeOptions]
  cases pairOptions (split rest).tail (split rest).ended <;> rfl

theorem decodeRequest_rest {bytes : Bytes} (hz : 0 ∉ bytes) :
    decodeRequest bytes = .error (.unterminated .filePath) := by
  simp only [decodeRequest, split_rest bytes hz]

theorem decodeRequest_path {path rest : Bytes} (hp : 0 ∉ path) (hz : 0 ∉ rest) :
    decodeRequest (path ++ 0 :: rest) = .error (.unterminated .mode) := by
  simp only [decodeRequest, split_ended path rest hp, split_rest rest hz]

theorem decodeRequest_pair {path mode rest : Bytes} (hp : 0 ∉ path) (hm : 0 ∉ mode) :
    decodeRequest (path ++ 0 :: (mode ++ 0 :: rest)) =
      (Utf8.decode path, Utf8.decode mode, ·) <$> decodeOptions rest := by
  simp only [decodeRequest, split_ended path _ hp, split_ended mode rest hm, decodeOptions]
  cases pairOptions (split rest).tail (split rest).ended <;> rfl

end Tftp.Wire

namespace Tftp.Offsets

variable {bytes : Bytes} {start : Nat}

/-- The pairs from an offset on are those of the octets from there on. Each round takes two octets at
least, so that the rounds suffice. -/
theorem options_eq (rounds : Nat) (hs : start ≤ bytes.length) (hr : bytes.length < start + rounds) :
    options bytes rounds start = outcome (Wire.decodeOptions (bytes.drop start)) := by
  -- each round takes two NULs at least, so a round is left whenever octets are
  induction rounds generalizing start with
  | zero => omega
  | succ rounds ih =>
    rw [options]
    split
    · next hlt =>
      by_cases hz : 0 ∈ bytes.drop start
      · obtain ⟨name, rest, hd, hn⟩ := List.eq_append_cons_of_mem hz
        obtain ⟨hrest, hend⟩ := drop_ended hs hd
        simp only [text_ended .optionName hs hn hd, pure_bind, hd]
        by_cases hv : 0 ∈ rest
        · obtain ⟨value, more, rfl, hf⟩ := List.eq_append_cons_of_mem hv
          have hle : start + name.length + 1 ≤ bytes.length := hend ▸ Nat.le_add_right _ _
          have hlt : ¬bytes.length ≤ start + name.length + 1 := by
            rw [List.length_append, List.length_cons] at hend
            omega
          obtain ⟨hmore, hstop⟩ := drop_ended hle hrest
          rw [if_neg hlt, text_ended .optionValue hle hf hrest]
          simp only [pure_bind]
          rw [ih (by omega) (by omega), hmore, outcome_bind_pure, Wire.decodeOptions_pair hn hf]
        · rw [Wire.decodeOptions_name hn hv]
          by_cases hr : rest = []
          · rw [if_pos hr, if_pos (by rw [← hend, hr]; exact Nat.le_refl _)]
            rfl
          · have hpos := List.length_pos_iff.mpr hr
            rw [if_neg hr, if_neg (by omega), text_rest .optionValue (by omega) (hrest ▸ hv)]
            rfl
      · have hne : bytes.drop start ≠ [] := fun hd => by
          have := List.drop_eq_nil_iff.mp hd
          omega
        rw [text_rest .optionName hs hz, throw_bind, Wire.decodeOptions_rest hz hne]
        rfl
    · next hge =>
      rw [List.drop_eq_nil_iff.mpr (Nat.le_of_not_lt hge)]
      rfl

theorem request_eq (hs : 2 ≤ bytes.length) :
    request bytes = outcome (Wire.decodeRequest (bytes.drop 2)) := by
  rw [request]
  by_cases hz : 0 ∈ bytes.drop 2
  · obtain ⟨path, rest, hd, hp⟩ := List.eq_append_cons_of_mem hz
    obtain ⟨hrest, hend⟩ := drop_ended hs hd
    have hle : 2 + path.length + 1 ≤ bytes.length := hend ▸ Nat.le_add_right _ _
    simp only [text_ended .filePath hs hp hd, pure_bind, hd]
    by_cases hv : 0 ∈ rest
    · obtain ⟨mode, more, rfl, hm⟩ := List.eq_append_cons_of_mem hv
      obtain ⟨hmore, hstop⟩ := drop_ended hle hrest
      simp only [text_ended .mode hle hm hrest, pure_bind]
      rw [options_eq _ (by omega) (by omega), hmore, outcome_bind_pure, Wire.decodeRequest_pair hp hm]
    · rw [text_rest .mode hle (hrest ▸ hv), Wire.decodeRequest_path hp hv]
      rfl
  · rw [text_rest .filePath hs hz, Wire.decodeRequest_rest hz]
    rfl

theorem slice_block (high low first second : UInt8) (payload : Bytes) :
    slice (high :: low :: first :: second :: payload) 2 4 = pure [first, second] :=
  slice_eq ⟨by decide, Nat.le_add_left 4 payload.length⟩

theorem data_eq (high low : UInt8) (body : Bytes) :
    data (high :: low :: body) = outcome (Wire.decodeData body) := by
  rcases body with _ | ⟨first, _ | ⟨second, payload⟩⟩
  · rfl
  · rfl
  · have hlen : ¬(high :: low :: first :: second :: payload).length < 4 :=
      Nat.not_lt.mpr (Nat.le_add_left 4 payload.length)
    rw [data, if_neg hlen, slice_block, slice_end (Nat.le_add_left 4 payload.length)]
    simp only [pure_bind, word]
    rfl

theorem ack_eq (high low : UInt8) (body : Bytes) :
    ack (high :: low :: body) = outcome (Wire.decodeAck body) := by
  rcases body with _ | ⟨first, _ | ⟨second, _ | ⟨third, more⟩⟩⟩
  · rfl
  · rfl
  · rfl
  · have hlen : (high :: low :: first :: second :: third :: more).length ≠ 4 := by
      simp only [List.length_cons]
      omega
    rw [ack, if_pos hlen]
    rfl

theorem error_eq (high low : UInt8) (body : Bytes) :
    error (high :: low :: body) = outcome (Wire.decodeError body) := by
  rcases body with _ | ⟨first, _ | ⟨second, more⟩⟩
  · rfl
  · rfl
  · have hle : 4 ≤ (high :: low :: first :: second :: more).length := Nat.le_add_left 4 more.length
    have hdrop : (high :: low :: first :: second :: more).drop 4 = more := rfl
    rw [error, if_neg (Nat.not_lt.mpr hle), slice_block]
    simp only [pure_bind, word, Wire.decodeError]
    by_cases hz : 0 ∈ more
    · obtain ⟨message, rest, rfl, hm⟩ := List.eq_append_cons_of_mem hz
      rw [text_ended .errorMessage hle hm hdrop, Field.split_ended message rest hm]
      rfl
    · rw [text_rest .errorMessage hle (hdrop ▸ hz), Field.split_rest more hz]
      rfl

/-- Every packet is read without looking beyond the octets. -/
theorem decode_eq (bytes : Bytes) : decode bytes = outcome (Packet.decode bytes) := by
  rcases bytes with _ | ⟨high, _ | ⟨low, body⟩⟩
  · rfl
  · rfl
  have hle : 2 ≤ (high :: low :: body).length := Nat.le_add_left 2 body.length
  have hnumber : slice (high :: low :: body) 0 2 = pure [high, low] := slice_eq ⟨by decide, hle⟩
  have hword : word [high, low] = pure (Wire.word high low) := rfl
  rw [decode, if_neg (Nat.not_lt.mpr hle), hnumber, Packet.decode]
  simp only [pure_bind, hword]
  cases Opcode.ofNumber? (Wire.word high low) with
  | none => rfl
  | some opcode =>
    cases opcode with
    | readRequest => exact (congrArg (· >>= _) (request_eq hle)).trans (outcome_bind_pure _ _)
    | writeRequest => exact (congrArg (· >>= _) (request_eq hle)).trans (outcome_bind_pure _ _)
    | data => exact data_eq high low body
    | ack => exact ack_eq high low body
    | error => exact error_eq high low body
    | optionAck =>
      change Packet.optionAck <$> options (high :: low :: body) _ 2 = _
      rw [options_eq _ hle (by omega)]
      exact outcome_bind_pure _ _

end Tftp.Offsets
